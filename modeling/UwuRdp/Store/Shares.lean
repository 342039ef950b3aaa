import UwuRdp.Store.Tidy

/-!
# Shared folders brought into shape

The names of the folders a host shares are cleaned, cut to their longest and numbered apart. A number
is put behind the cleaned name and not cut any more, so the longest names can come out longer still;
with that apart, what `normalizeDrives` leaves is in shape, and stays as it is.
-/

namespace UwuRdp

/-! ## Text without blanks at its ends -/

namespace Text

variable {t : Text}

theorem dropWhile_of_trim (h : trim t = t) : t.dropWhile isWhitespace = t := by
  have hsuffix := List.dropWhile_suffix (l := t) isWhitespace
  have hstart : trim t <+: t.dropWhile isWhitespace := List.rdropWhile_prefix isWhitespace _
  rw [h] at hstart
  exact hsuffix.eq_of_length_le hstart.length_le

theorem trim_of_ends (hstart : t.dropWhile isWhitespace = t)
    (hend : List.rdropWhile isWhitespace t = t) : trim t = t := by
  show List.rdropWhile isWhitespace (t.dropWhile isWhitespace) = t
  rw [hstart, hend]

theorem trim_append {a b : Text} (ha : trim a = a) (hne : a ≠ []) (hb : b ≠ [])
    (hlast : isWhitespace (b.getLast hb) = false) : trim (a ++ b) = a ++ b := by
  apply trim_of_ends
  · rw [List.dropWhile_eq_self_iff]
    intro hlength
    have hstart := List.dropWhile_eq_self_iff.mp (dropWhile_of_trim ha) (List.length_pos_iff.mpr hne)
    rwa [List.getElem_append_left]
  · rw [List.rdropWhile_eq_self_iff]
    intro hboth
    rw [List.getLast_append_of_ne_nil _ hb, hlast]
    exact Bool.false_ne_true

theorem trim_subset {c : Char} (h : c ∈ trim t) : c ∈ t := by
  have hend : trim t <+: t.dropWhile isWhitespace := List.rdropWhile_prefix isWhitespace _
  exact (List.dropWhile_suffix isWhitespace).subset (hend.subset h)

end Text

/-! ## Clean names -/

def refusedInShareName : Text := ['\\', '/', ':', '*', '?', '"', '<', '>', '|']

/-- A share name the server accepts, but for its length. -/
structure CleanName (name : Text) : Prop where
  nonempty : name ≠ []
  allowed : ∀ c ∈ name, Text.isControl c = false ∧ c ∉ refusedInShareName
  trimmed : Text.trim name = name

variable {c : Char} {name : Text}

theorem code_of_refused (h : c ∈ refusedInShareName) : c.toNat < 48 ∨ 57 < c.toNat ∧ c.toNat < 65 ∨ 90 < c.toNat := by
  have hall : refusedInShareName.all (fun c =>
      decide (c.toNat < 48 ∨ 57 < c.toNat ∧ c.toNat < 65 ∨ 90 < c.toNat)) = true := rfl
  exact of_decide_eq_true (List.all_eq_true.mp hall c h)

theorem mem_shareName (h : c ∈ shareName name) : Text.isControl c = false ∧ c ∉ refusedInShareName := by
  have hfilter := Text.trim_subset (List.take_subset _ _ (Text.trim_subset h))
  obtain ⟨-, hc⟩ := List.mem_filter.mp hfilter
  rw [Bool.and_eq_true, Bool.not_eq_true', Bool.not_eq_true'] at hc
  refine ⟨hc.1, fun hmem => ?_⟩
  have hcontains : refusedInShareName.contains c = false := hc.2
  rw [List.contains_iff_mem.mpr hmem] at hcontains
  cases hcontains

theorem cleanName_shareName (h : shareName name ≠ []) : CleanName (shareName name) :=
  ⟨h, fun _ hc => mem_shareName hc, Text.trim_trim _⟩

theorem length_shareName_le (name : Text) : (shareName name).length ≤ maxShareName :=
  (Text.trim_length_le _).trans (List.length_take_le _ _)

theorem CleanName.shareName_eq (h : CleanName name) (hshort : name.length ≤ maxShareName) :
    shareName name = name := by
  have hfilter : (name.filter fun c => !Text.isControl c && !refusedInShareName.contains c) = name := by
    rw [List.filter_eq_self]
    intro c hc
    obtain ⟨hcontrol, hmem⟩ := h.allowed c hc
    rw [hcontrol, Bool.eq_false_iff.mpr fun hcontains => hmem (List.contains_iff_mem.mp hcontains)]
    rfl
  show Text.trim ((Text.trim (name.filter fun c => !Text.isControl c && !refusedInShareName.contains c)).take
    maxShareName) = name
  rw [hfilter, h.trimmed, List.take_of_length_le hshort, h.trimmed]

theorem cleanName_rootOr (h : name = [] ∨ CleanName name) : CleanName (defaultShareName.rootOr name) := by
  unfold defaultShareName.rootOr
  split
  · refine ⟨by decide, fun c hc => ?_, by decide⟩
    have hall : "Root".toList.all (fun c => !Text.isControl c && !refusedInShareName.contains c) = true := rfl
    have hc := List.all_eq_true.mp hall c hc
    rw [Bool.and_eq_true, Bool.not_eq_true', Bool.not_eq_true'] at hc
    exact ⟨hc.1, fun hmem => absurd (List.contains_iff_mem.mpr hmem) (Bool.not_eq_true _ ▸ hc.2)⟩
  · next hne =>
    rcases h with rfl | h
    · exact absurd rfl hne
    · exact h

theorem toNat_asciiUppercase (h : isAsciiAlphabetic c = true) :
    65 ≤ (Text.asciiUppercase c).toNat ∧ (Text.asciiUppercase c).toNat ≤ 90 := by
  unfold isAsciiAlphabetic at h
  rw [Bool.or_eq_true, Bool.and_eq_true, Bool.and_eq_true] at h
  simp only [decide_eq_true_eq] at h
  unfold Text.asciiUppercase
  split
  · next hlower =>
    have hvalid : (c.toNat - 32).isValidChar := .inl (by omega)
    have hval : (Char.ofNat (c.toNat - 32)).toNat = c.toNat - 32 := by
      rw [Char.ofNat, dif_pos hvalid]
      rfl
    omega
  · omega

theorem cleanName_letter (h : isAsciiAlphabetic c = true) : CleanName [Text.asciiUppercase c] := by
  obtain ⟨hlow, hhigh⟩ := toNat_asciiUppercase h
  generalize Text.asciiUppercase c = u at hlow hhigh
  have hspace : Text.isWhitespace u = false := by
    unfold Text.isWhitespace
    simp
    omega
  refine ⟨List.cons_ne_nil _ _, fun d hd => ?_, ?_⟩
  · obtain rfl := List.mem_singleton.mp hd
    refine ⟨?_, fun hmem => ?_⟩
    · unfold Text.isControl
      simp
      omega
    · have hcode := code_of_refused hmem
      omega
  · have hblank : ¬Text.isWhitespace u = true := by
      rw [hspace]
      exact Bool.false_ne_true
    exact Text.trim_of_ends (List.dropWhile_cons_of_neg hblank) ((List.rdropWhile_singleton ..).trans (if_neg hblank))

theorem shareName_cases (name : Text) : shareName name = [] ∨ CleanName (shareName name) := by
  by_cases h : shareName name = []
  · exact .inl h
  · exact .inr (cleanName_shareName h)

theorem cleanName_defaultShareName (path : Text) : CleanName (defaultShareName path) := by
  unfold defaultShareName
  dsimp only
  split
  · split
    · next hletter => exact cleanName_letter hletter
    · exact cleanName_rootOr (shareName_cases _)
  · exact cleanName_rootOr (shareName_cases _)

theorem length_defaultShareName_le (path : Text) : (defaultShareName path).length ≤ maxShareName := by
  have hroot (name : Text) : (defaultShareName.rootOr (shareName name)).length ≤ maxShareName := by
    unfold defaultShareName.rootOr
    split
    · decide
    · exact length_shareName_le _
  unfold defaultShareName
  dsimp only
  split
  · split
    · show 1 ≤ maxShareName
      decide
    · exact hroot _
  · exact hroot _

/-! ## Numbered names -/

def numbered (base : Text) (n : ℕ) : Text := base ++ ' ' :: Text.ofNat n

variable {n : ℕ}

theorem isDigit_ofNat (h : c ∈ Text.ofNat n) : c.isDigit = true :=
  Nat.isDigit_of_mem_toDigits (by decide) (by decide) h

theorem ofNat_inj {m : ℕ} (h : Text.ofNat n = Text.ofNat m) : n = m := by
  have hvalue := congrArg (fun t => Nat.ofDigitChars 10 t 0) h
  unfold Text.ofNat at hvalue
  rwa [Nat.ofDigitChars_ten_toDigits, Nat.ofDigitChars_ten_toDigits] at hvalue

theorem digit_range (h : c.isDigit = true) : 48 ≤ c.toNat ∧ c.toNat ≤ 57 := by
  unfold Char.isDigit at h
  rw [Bool.and_eq_true, decide_eq_true_eq, decide_eq_true_eq] at h
  exact ⟨UInt32.le_iff_toNat_le.mp h.1, UInt32.le_iff_toNat_le.mp h.2⟩

theorem CleanName.numbered {base : Text} (h : CleanName base) (n : ℕ) : CleanName (numbered base n) := by
  have hdigits : Text.ofNat n ≠ [] := Nat.toDigits_ne_nil
  refine ⟨List.append_ne_nil_of_left_ne_nil h.nonempty _, fun c hc => ?_, ?_⟩
  · rcases List.mem_append.mp hc with hc | hc
    · exact h.allowed c hc
    rcases List.mem_cons.mp hc with rfl | hc
    · decide
    · obtain ⟨hlow, hhigh⟩ := digit_range (isDigit_ofNat hc)
      refine ⟨?_, fun hmem => ?_⟩
      · unfold Text.isControl
        simp
        omega
      · have hcode := code_of_refused hmem
        omega
  · refine Text.trim_append h.trimmed h.nonempty (List.cons_ne_nil _ _) ?_
    rw [List.getLast_cons hdigits]
    obtain ⟨hlow, hhigh⟩ := digit_range (isDigit_ofNat (List.getLast_mem hdigits))
    generalize (Text.ofNat n).getLast hdigits = c at hlow hhigh
    unfold Text.isWhitespace
    simp
    omega

section Names

variable [Platform]

/-- What is asked of lower-casing: a star has no other case and is that of no other character, and a
number behind a blank stays as it is. -/
structure LowersAlone : Prop where
  star : ∀ t : Text, '*' ∈ Platform.toLowercase t ↔ '*' ∈ t
  number : ∀ t digits : Text, (∀ c ∈ digits, c.isDigit = true) →
    Platform.toLowercase (t ++ ' ' :: digits) = Platform.toLowercase t ++ ' ' :: digits

def SameName (a b : Text) : Prop := Platform.toLowercase a = Platform.toLowercase b

theorem lower_numbered (hlower : LowersAlone) (base : Text) (n : ℕ) :
    Platform.toLowercase (numbered base n) = Platform.toLowercase base ++ ' ' :: Text.ofNat n :=
  hlower.number base _ fun _ hc => isDigit_ofNat hc

/-- The names one after the other: the base, and the numbered ones from 2 on. -/
def candidate (base : Text) : ℕ → Text
  | 0 => base
  | k + 1 => numbered base (k + 2)

variable {base : Text} {kept : List SharedDrive} {extra : Extra}

theorem candidate_inj (hlower : LowersAlone) {j k : ℕ}
    (h : SameName (candidate base j) (candidate base k)) : j = k := by
  unfold SameName at h
  cases j with
  | zero =>
    cases k with
    | zero => rfl
    | succ k =>
      have hlength := congrArg List.length (h.trans (lower_numbered hlower base (k + 2)))
      rw [List.length_append, List.length_cons] at hlength
      exact absurd hlength (by show ¬(Platform.toLowercase base).length = _; omega)
  | succ j =>
    cases k with
    | zero =>
      have hlength := congrArg List.length ((lower_numbered hlower base (j + 2)).symm.trans h)
      rw [List.length_append, List.length_cons] at hlength
      exact absurd hlength (by show ¬_ = (Platform.toLowercase base).length; omega)
    | succ k =>
      have heq := (lower_numbered hlower base (j + 2)).symm.trans (h.trans (lower_numbered hlower base (k + 2)))
      have hnumber := ofNat_inj (List.cons.inj (List.append_cancel_left heq)).2
      omega

/-- One turn of the loop that looks for a name: the next candidate, or none when this one is free. -/
def nextName (names : List Text) (base : Text) (s : Text × ℕ) : Option (Text × ℕ) :=
  if names.contains (Platform.toLowercase s.1) then some (numbered base s.2, s.2 + 1) else none

def NameEnds (names : List Text) (base name : Text) : Prop :=
  ∃ n, Relation.ReflTransGen (fun s s' => nextName names base s = some s') (base, 2) (name, n) ∧
    nextName names base (name, n) = none

theorem freeName_trace (names : List Text) (base : Text) (fuel k : ℕ) : ∃ j ≤ fuel, freeName names base fuel (k + 2)
    (candidate base k) = candidate base (k + j) ∧ (∀ i < j, Platform.toLowercase (candidate base (k + i)) ∈ names) ∧
    (j = fuel ∨ Platform.toLowercase (candidate base (k + j)) ∉ names) := by
  induction fuel generalizing k with
  | zero => exact ⟨0, Nat.le_refl _, rfl, fun i hi => absurd hi (Nat.not_lt_zero _), .inl rfl⟩
  | succ fuel ih =>
    unfold freeName
    split
    · next htaken =>
      have hbase : base ++ [' '] ++ Text.ofNat (k + 2) = candidate base (k + 1) := by
        rw [List.append_assoc]
        rfl
      rw [hbase]
      obtain ⟨j, hj, heq, htook, hend⟩ := ih (k + 1)
      have hshift (i : ℕ) : k + (i + 1) = k + 1 + i := by omega
      refine ⟨j + 1, Nat.succ_le_succ hj, ?_, fun i hi => ?_, ?_⟩
      · rw [hshift j]
        exact heq
      · cases i with
        | zero => exact List.contains_iff_mem.mp htaken
        | succ i =>
          rw [hshift i]
          exact htook i (Nat.lt_of_succ_lt_succ hi)
      · rw [hshift j]
        exact hend.imp_left (congrArg Nat.succ)
    · next hfree =>
      refine ⟨0, Nat.zero_le _, rfl, fun i hi => absurd hi (Nat.not_lt_zero _), .inr fun hmem => ?_⟩
      exact hfree (List.contains_iff_mem.mpr hmem)

theorem freeName_free (hlower : LowersAlone) (names : List Text) (base : Text) : ∃ j, freeName names base
    (names.length + 1) 2 base = candidate base j ∧ (∀ i < j, Platform.toLowercase (candidate base i) ∈ names) ∧
    Platform.toLowercase (candidate base j) ∉ names := by
  obtain ⟨j, hj, heq, htook, hend⟩ := freeName_trace names base (names.length + 1) 0
  simp only [Nat.zero_add] at heq htook hend
  refine ⟨j, heq, htook, hend.elim (fun hall => ?_) id⟩
  subst hall
  have hnodup : ((List.range (names.length + 1)).map fun i =>
      Platform.toLowercase (candidate base i)).Nodup :=
    List.nodup_range.map fun i k h => candidate_inj hlower h
  have hsubset : ((List.range (names.length + 1)).map fun i =>
      Platform.toLowercase (candidate base i)) ⊆ names := by
    intro t ht
    obtain ⟨i, hi, rfl⟩ := List.mem_map.mp ht
    exact htook i (List.mem_range.mp hi)
  have hle := (List.subperm_of_subset hnodup hsubset).length_le
  rw [List.length_map, List.length_range] at hle
  omega

theorem freeName_ends (hlower : LowersAlone) (names : List Text) (base : Text) :
    NameEnds names base (freeName names base (names.length + 1) 2 base) := by
  obtain ⟨j, heq, htook, hfree⟩ := freeName_free hlower names base
  rw [heq]
  have hturns : ∀ k ≤ j, Relation.ReflTransGen (fun s s' => nextName names base s = some s') (base, 2)
      (candidate base k, k + 2) := by
    intro k hk
    induction k with
    | zero => exact .refl
    | succ k ih =>
      refine .tail (ih (Nat.le_of_succ_le hk)) ?_
      exact if_pos (List.contains_iff_mem.mpr (htook k hk))
  exact ⟨j + 2, hturns j (Nat.le_refl _), if_neg fun h => hfree (List.contains_iff_mem.mp h)⟩

/-! ## The list -/

/-- A path that is kept. -/
structure KeptPath (path : Text) : Prop where
  trimmed : Text.trim path = path
  nonempty : path ≠ []
  plain : path.any Text.isControl = false
  short : path.utf8Len ≤ 4096

/-- A list of shared folders in shape, but for the length of names with a number behind them. -/
structure InShape (l : List SharedDrive) : Prop where
  paths : ∀ d ∈ l, KeptPath d.path
  distinct : (l.map SharedDrive.path).Nodup
  names : ∀ d ∈ l, if d.path = allDrives then d.name = allDrives else CleanName d.name
  apart : l.Pairwise fun a b => ¬SameName a.name b.name
  short : ∀ d ∈ l, d.name.length ≤ maxShareName ∨ ∃ base n, base.length ≤ maxShareName ∧
    d.name = numbered base n ∧ ∃ other ∈ l, SameName other.name base

variable {name path : Text} {names : List Text}

theorem CleanName.not_all (hlower : LowersAlone) (h : CleanName name) : ¬SameName name allDrives := by
  intro hsame
  have hstar : '*' ∈ Platform.toLowercase allDrives := (hlower.star allDrives).mpr (List.mem_singleton.mpr rfl)
  rw [← show Platform.toLowercase name = Platform.toLowercase allDrives from hsame] at hstar
  exact (h.allowed '*' ((hlower.star name).mp hstar)).2 (by decide)

/-- The name an entry is to have, cut to its longest. -/
def wantedName (path name : Text) : Text :=
  if (shareName name).isEmpty then defaultShareName path else shareName name

omit [Platform] in
theorem cleanName_wantedName (path name : Text) : CleanName (wantedName path name) := by
  unfold wantedName
  split
  · exact cleanName_defaultShareName path
  · next hne => exact cleanName_shareName fun heq => hne (by rw [heq]; rfl)

omit [Platform] in
theorem length_wantedName_le (path name : Text) : (wantedName path name).length ≤ maxShareName := by
  unfold wantedName
  split
  · exact length_defaultShareName_le path
  · exact length_shareName_le name

omit [Platform] in
theorem CleanName.candidate (h : CleanName base) (k : ℕ) : CleanName (candidate base k) := by
  cases k with
  | zero => exact h
  | succ k => exact h.numbered (k + 2)

/-- The names that are taken are those of the entries kept, other than the one for all drives. -/
def NameTaken (names : List Text) (kept : List SharedDrive) : Prop :=
  ∀ name, name ∈ names ↔ ∃ d ∈ kept, d.path ≠ allDrives ∧ name = Platform.toLowercase d.name

def givenName (names : List Text) (path name : Text) : Text :=
  if path = allDrives then allDrives
  else freeName names (wantedName path name) (names.length + 1) 2 (wantedName path name)

theorem InShape.append (hlower : LowersAlone) (h : InShape kept)
    (htaken : NameTaken names kept) (hpath : KeptPath path) (hnew : path ∉ kept.map SharedDrive.path) : InShape
    (kept ++ [⟨givenName names path name, path, extra⟩]) := by
  have hclean := cleanName_wantedName path name
  obtain ⟨j, heq, htook, hfree⟩ := freeName_free hlower names (wantedName path name)
  have hgiven (hall : path ≠ allDrives) : givenName names path name = candidate (wantedName path name) j := by
    unfold givenName
    rw [if_neg hall, heq]
  constructor
  case paths =>
    intro d hd
    rcases List.mem_append.mp hd with hd | hd
    · exact h.paths d hd
    · obtain rfl := List.mem_singleton.mp hd
      exact hpath
  case distinct =>
    rw [List.map_append, List.map_singleton]
    refine List.nodup_append.mpr ⟨h.distinct, List.nodup_singleton _, fun a ha b hb hab => ?_⟩
    obtain rfl := List.mem_singleton.mp hb
    exact hnew (hab ▸ ha)
  case names =>
    intro d hd
    rcases List.mem_append.mp hd with hd | hd
    · exact h.names d hd
    · obtain rfl := List.mem_singleton.mp hd
      split
      · next hall => exact if_pos hall
      · next hall =>
        rw [hgiven hall]
        exact hclean.candidate j
  case apart =>
    refine List.pairwise_append.mpr ⟨h.apart, List.pairwise_singleton _ _, fun a ha b hb => ?_⟩
    obtain rfl := List.mem_singleton.mp hb
    have hname := h.names a ha
    show ¬SameName a.name (givenName names path name)
    by_cases hall : path = allDrives
    · have hother : a.path ≠ allDrives := fun heq' =>
        hnew (List.mem_map.mpr ⟨a, ha, heq'.trans hall.symm⟩)
      rw [if_neg hother] at hname
      unfold givenName
      rw [if_pos hall]
      exact hname.not_all hlower
    · rw [hgiven hall]
      intro hsame
      by_cases hother : a.path = allDrives
      · rw [if_pos hother] at hname
        rw [hname] at hsame
        exact (hclean.candidate j).not_all hlower hsame.symm
      · exact hfree ((htaken _).mpr ⟨a, ha, hother, hsame.symm⟩)
  case short =>
    intro d hd
    rcases List.mem_append.mp hd with hd | hd
    · refine (h.short d hd).imp_right ?_
      rintro ⟨base, n, hbase, hname, other, hother, hsame⟩
      exact ⟨base, n, hbase, hname, other, List.mem_append_left _ hother, hsame⟩
    · obtain rfl := List.mem_singleton.mp hd
      show (givenName names path name).length ≤ maxShareName ∨ _
      by_cases hall : path = allDrives
      · left
        unfold givenName
        rw [if_pos hall]
        decide
      · rw [hgiven hall]
        cases j with
        | zero => exact .inl (length_wantedName_le path name)
        | succ j =>
          obtain ⟨other, hother, -, hsame⟩ := (htaken _).mp (htook 0 (Nat.succ_pos j))
          exact .inr ⟨wantedName path name, j + 2, length_wantedName_le path name, rfl, other,
            List.mem_append_left _ hother, hsame.symm⟩

theorem NameTaken.append
    (h : NameTaken names kept) :
    NameTaken (if path = allDrives then names else Platform.toLowercase name :: names)
      (kept ++ [⟨name, path, extra⟩]) := by
  intro t
  split
  · next hall =>
    rw [h t]
    constructor
    · rintro ⟨d, hd, hne, rfl⟩
      exact ⟨d, List.mem_append_left _ hd, hne, rfl⟩
    · rintro ⟨d, hd, hne, rfl⟩
      rcases List.mem_append.mp hd with hd | hd
      · exact ⟨d, hd, hne, rfl⟩
      · obtain rfl := List.mem_singleton.mp hd
        exact absurd hall hne
  · next hall =>
    rw [List.mem_cons, h t]
    constructor
    · rintro (rfl | ⟨d, hd, hne, rfl⟩)
      · exact ⟨_, List.mem_append_right _ (List.mem_singleton.mpr rfl), hall, rfl⟩
      · exact ⟨d, List.mem_append_left _ hd, hne, rfl⟩
    · rintro ⟨d, hd, hne, rfl⟩
      rcases List.mem_append.mp hd with hd | hd
      · exact .inr ⟨d, hd, hne, rfl⟩
      · obtain rfl := List.mem_singleton.mp hd
        exact .inl rfl

/-- An entry is passed over: its path is none to keep, or one that was seen. -/
def passedOver (seenPaths : List Text) (path : Text) : Bool :=
  path.isEmpty || path.any Text.isControl || decide (4096 < path.utf8Len) || seenPaths.contains path

omit [Platform] in
theorem passedOver_eq_false {seenPaths : List Text} : passedOver seenPaths path = false ↔
    (path ≠ [] ∧ path.any Text.isControl = false ∧ path.utf8Len ≤ 4096) ∧ path ∉ seenPaths := by
  unfold passedOver
  rw [Bool.or_eq_false_iff, Bool.or_eq_false_iff, Bool.or_eq_false_iff, decide_eq_false_iff_not,
    Nat.not_lt, List.isEmpty_eq_false_iff, ← Bool.not_eq_true (seenPaths.contains path),
    List.contains_iff_mem]
  tauto

theorem normalizeDrivesFrom_cons (seenPaths names : List Text) (kept : List SharedDrive)
    (drive : SharedDrive) (rest : List SharedDrive) :
    normalizeDrivesFrom seenPaths names kept (drive :: rest) =
      if passedOver seenPaths (Text.trim drive.path) then normalizeDrivesFrom seenPaths names kept rest
      else
        let path := Text.trim drive.path
        let name := givenName names path drive.name
        let kept' := kept ++ [⟨name, path, drive.extra⟩]
        if kept'.length = maxSharedDrives then kept'
        else normalizeDrivesFrom (path :: seenPaths)
          (if path = allDrives then names else Platform.toLowercase name :: names) kept' rest := rfl

theorem normalizeDrivesFrom_inShape (hlower : LowersAlone) {seenPaths names : List Text} {kept : List SharedDrive}
    (rest : List SharedDrive) (h : InShape kept) (htaken : NameTaken names kept)
    (hseen : ∀ path, path ∈ seenPaths ↔ path ∈ kept.map SharedDrive.path) (hfew : kept.length < maxSharedDrives) :
    InShape (normalizeDrivesFrom seenPaths names kept rest) ∧ (normalizeDrivesFrom seenPaths names kept rest).length ≤
    maxSharedDrives := by
  induction rest generalizing seenPaths names kept with
  | nil => exact ⟨h, Nat.le_of_lt hfew⟩
  | cons drive rest ih =>
    rw [normalizeDrivesFrom_cons]
    split
    · exact ih h htaken hseen hfew
    · next hkept =>
      obtain ⟨⟨hne, hplain, hshort⟩, hnew⟩ := passedOver_eq_false.mp (Bool.eq_false_iff.mpr hkept)
      have hpath : KeptPath (Text.trim drive.path) := ⟨Text.trim_trim _, hne, hplain, hshort⟩
      have hshape : InShape (kept ++ [⟨givenName names (Text.trim drive.path) drive.name,
          Text.trim drive.path, drive.extra⟩]) :=
        h.append hlower htaken hpath fun hmem => hnew ((hseen _).mpr hmem)
      dsimp only
      have hlength : (kept ++ [(⟨givenName names (Text.trim drive.path) drive.name,
          Text.trim drive.path, drive.extra⟩ : SharedDrive)]).length = kept.length + 1 := by
        rw [List.length_append, List.length_singleton]
      split
      · next hfull => exact ⟨hshape, Nat.le_of_eq hfull⟩
      · next hroom =>
        refine ih hshape htaken.append (fun path => ?_) (by omega)
        rw [List.map_append, List.map_singleton, List.mem_append, List.mem_singleton, List.mem_cons, hseen, or_comm]

/-! ## Again -/

theorem givenName_again
    (hname : if path = allDrives then name = allDrives else CleanName name)
    (hshort : name.length ≤ maxShareName)
    (hfree : path ≠ allDrives → Platform.toLowercase name ∉ names) : givenName names path name = name := by
  unfold givenName
  by_cases hall : path = allDrives
  · rw [if_pos hall] at hname ⊢
    exact hname.symm
  · rw [if_neg hall] at hname ⊢
    have hwanted : wantedName path name = name := by
      unfold wantedName
      rw [hname.shareName_eq hshort, if_neg fun hempty => hname.nonempty (List.isEmpty_iff.mp hempty)]
    rw [hwanted]
    unfold freeName
    exact if_neg fun hmem => hfree hall (List.contains_iff_mem.mp hmem)

theorem normalizeDrivesFrom_again {seenPaths names : List Text} {kept rest : List SharedDrive}
    (h : InShape (kept ++ rest)) (hshort : ∀ d ∈ rest, d.name.length ≤ maxShareName)
    (hfew : (kept ++ rest).length ≤ maxSharedDrives) (htaken : NameTaken names kept)
    (hseen : ∀ path, path ∈ seenPaths ↔ path ∈ kept.map SharedDrive.path) :
    normalizeDrivesFrom seenPaths names kept rest = kept ++ rest := by
  induction rest generalizing seenPaths names kept with
  | nil => exact (List.append_nil kept).symm
  | cons drive rest ih =>
    have hmem : drive ∈ kept ++ drive :: rest := List.mem_append_right _ List.mem_cons_self
    have hpath := h.paths drive hmem
    have hnew : drive.path ∉ seenPaths := by
      rw [hseen]
      intro hbefore
      have hdistinct := h.distinct
      rw [List.map_append, List.map_cons] at hdistinct
      exact (List.nodup_append.mp hdistinct).2.2 _ hbefore _ List.mem_cons_self rfl
    have hpassed : passedOver seenPaths drive.path = false :=
      passedOver_eq_false.mpr ⟨⟨hpath.nonempty, hpath.plain, hpath.short⟩, hnew⟩
    have hgiven : givenName names drive.path drive.name = drive.name := by
      refine givenName_again (h.names drive hmem) (hshort drive List.mem_cons_self) fun _ htook => ?_
      obtain ⟨other, hother, -, hsame⟩ := (htaken _).mp htook
      exact (List.pairwise_append.mp h.apart).2.2 other hother drive List.mem_cons_self hsame.symm
    have hsame : kept ++ drive :: rest = (kept ++ [drive]) ++ rest := List.append_cons ..
    rw [normalizeDrivesFrom_cons, hpath.trimmed, hpassed, if_neg Bool.false_ne_true]
    dsimp only
    rw [hgiven, show (⟨drive.name, drive.path, drive.extra⟩ : SharedDrive) = drive from rfl]
    rw [hsame] at h hfew ⊢
    split
    · next hfull =>
      have hnil : rest = [] := by
        rw [List.length_append, hfull] at hfew
        exact List.length_eq_zero_iff.mp (by omega)
      rw [hnil, List.append_nil]
    · next hroom =>
      refine ih h (fun d hd => hshort d (List.mem_cons_of_mem _ hd)) hfew htaken.append fun path => ?_
      rw [List.map_append, List.map_singleton, List.mem_append, List.mem_singleton, List.mem_cons, hseen, or_comm]

/-- Drive redirection brought into shape is in shape, and stays as it is where no number made a name
too long. -/
theorem normalizeDrives_inShape (hlower : LowersAlone) (drives : DriveRedirection) :
    (∀ names base, NameEnds names base (freeName names base (names.length + 1) 2 base)) ∧
    InShape (normalizeDrives drives).drives ∧
    (normalizeDrives drives).drives.length ≤ maxSharedDrives ∧
    ((∀ d ∈ (normalizeDrives drives).drives, d.name.length ≤ maxShareName) →
      normalizeDrives (normalizeDrives drives) = normalizeDrives drives) := by
  have hnone : InShape [] := by
    constructor <;> simp
  have htaken : NameTaken [] [] := fun name => by simp
  obtain ⟨hshape, hfew⟩ := @normalizeDrivesFrom_inShape _ hlower [] [] [] drives.drives
    hnone htaken (fun path => by simp) (by decide)
  refine ⟨freeName_ends hlower, hshape, hfew, fun hshort => ?_⟩
  have hagain := @normalizeDrivesFrom_again _ [] [] [] _ hshape hshort hfew htaken fun path => by simp
  show (⟨drives.enabled, normalizeDrivesFrom [] [] [] (normalizeDrivesFrom [] [] [] drives.drives),
    drives.extra⟩ : DriveRedirection) = _
  rw [hagain]
  rfl

end Names

theorem asciiLowercase_star (h : Text.asciiLowercase c = '*') : c = '*' := by
  have hcode := Text.toNat_asciiLowercase c
  have hstar : ('*').toNat = 42 := rfl
  rw [h, hstar] at hcode
  apply Char.toNat_inj.mp
  split at hcode <;> omega

theorem lowersAlone_ascii : letI := asciiPlatform; LowersAlone := by
  let _ := asciiPlatform
  refine ⟨fun t => ⟨fun h => ?_, fun h => ?_⟩, fun t digits hdigits => ?_⟩
  · obtain ⟨c, hc, heq⟩ := List.mem_map.mp (show '*' ∈ t.map Text.asciiLowercase from h)
    exact asciiLowercase_star heq ▸ hc
  · exact List.mem_map.mpr ⟨'*', h, rfl⟩
  · show (t ++ ' ' :: digits).map Text.asciiLowercase = t.map Text.asciiLowercase ++ ' ' :: digits
    have hsame : digits.map Text.asciiLowercase = digits := by
      refine (List.map_congr_left fun c hc => ?_).trans (List.map_id digits)
      obtain ⟨hlow, hhigh⟩ := digit_range (hdigits c hc)
      unfold Text.asciiLowercase
      exact if_neg (by omega)
    rw [List.map_append, List.map_cons, hsame]
    rfl

theorem normalizeDrives_inShape_two :
    letI := asciiPlatform
    let drives : DriveRedirection := ⟨true, [⟨"Pro:jects?".toList, " /srv/a".toList, []⟩,
      ⟨[], "/home/uwu/projects/".toList, []⟩], []⟩
    normalizeDrives (normalizeDrives drives) = normalizeDrives drives :=
  let _ := asciiPlatform
  (normalizeDrives_inShape lowersAlone_ascii ⟨true, [⟨"Pro:jects?".toList, " /srv/a".toList, []⟩,
    ⟨[], "/home/uwu/projects/".toList, []⟩], []⟩).2.2.2 (by decide +kernel)

/-- The entry for all drives has the name that stands for them, with a character that no share name
has. -/
theorem all_drives_named : letI := asciiPlatform
    ∃ d ∈ (normalizeDrives ⟨true, [⟨"ignored".toList, "*".toList, []⟩], []⟩).drives,
      ∃ c ∈ d.name, c ∈ refusedInShareName := by
  let _ := asciiPlatform
  exact ⟨⟨"*".toList, "*".toList, []⟩, by decide +kernel, '*', by decide, by decide⟩

end UwuRdp
