import UwuRdp.Core.Drive
import UwuRdp.Lib.Glob
import UwuRdp.Store.Preference

/-!
# The mask of a directory listing

The matcher keeps one place to go back to, that of the last star. Turn by turn: what the loop would
still answer `true` for stays the same, and it comes to an answer.
-/

namespace UwuRdp

open Lib

namespace Drive

def glob (c : Char) : Glob Char := if c = '*' then .many else if c = '?' then .one else .only c

def maskLanguage (mask : Text) : Language Char := Glob.languageOf (mask.map glob)

/-- Where the loop of `matches_mask` stands: what is left of the mask and of the name, and the last
star with what is left from the mark on. -/
structure MaskState where
  mask : Text
  name : Text
  star : Option (Text × Text)

/-- Back to the last star, that takes one character more. -/
def maskBack : Option (Text × Text) → MaskState ⊕ Bool
  | some (mask, _ :: name) => .inl ⟨mask, name, some (mask, name)⟩
  | _ => .inr false

/-- One turn of the loop: where it goes on, or its answer. -/
def maskTurn (s : MaskState) : MaskState ⊕ Bool :=
  match s.name with
  | [] => .inr (s.mask.all fun c => c = '*')
  | n :: name =>
    match s.mask with
    | '?' :: mask => .inl ⟨mask, name, s.star⟩
    | '*' :: mask => .inl ⟨mask, n :: name, some (mask, n :: name)⟩
    | c :: mask => if c = n then .inl ⟨mask, name, s.star⟩ else maskBack s.star
    | [] => maskBack s.star

variable {star : Option (Text × Text)} {s s' : MaskState} {answer : Bool} {c : Char} {mask' name' : Text}

theorem maskBack_eq (h : maskBack star = .inl s) :
    ∃ mask n name, star = some (mask, n :: name) ∧ s = ⟨mask, name, some (mask, name)⟩ := by
  rcases star with _ | ⟨mask, _ | ⟨n, name⟩⟩
  · cases h
  · cases h
  · cases h
    exact ⟨mask, n, name, rfl, rfl⟩

theorem maskBack_none (h : maskBack star = .inr answer) : answer = false ∧ ∀ mask n name, star ≠ some
    (mask, n :: name) := by
  rcases star with _ | ⟨mask, _ | ⟨n, name⟩⟩
  · cases h
    exact ⟨rfl, fun _ _ _ heq => by cases heq⟩
  · cases h
    exact ⟨rfl, fun _ _ _ heq => by cases heq⟩
  · cases h

variable {n : Char}

variable {mask : Text}

variable {name : Text}

theorem maskTurn_letter
    (hone : c ≠ '?') (hstar : c ≠ '*') :
    maskTurn ⟨c :: mask, n :: name, star⟩ =
      if c = n then .inl ⟨mask, name, star⟩ else maskBack star := by
  unfold maskTurn
  dsimp only
  split
  · next heq => exact absurd (List.cons.inj heq).1 hone
  · next heq => exact absurd (List.cons.inj heq).1 hstar
  · next heq =>
    obtain ⟨rfl, rfl⟩ := List.cons.inj heq
    rfl
  · next heq => cases heq

def MaskState.Answers (s : MaskState) (answer : Bool) : Prop :=
  ∃ s', Relation.ReflTransGen (fun s s' => maskTurn s = .inl s') s s' ∧ maskTurn s' = .inr answer

theorem MaskState.Answers.next (hturn : maskTurn s = .inl s') (h : s'.Answers answer) : s.Answers answer := by
  obtain ⟨last, hturns, hlast⟩ := h
  exact ⟨last, .head hturn hturns, hlast⟩

theorem matchFrom_turn (fuel : ℕ) (s : MaskState) :
    matchFrom (fuel + 1) s.mask s.name s.star =
      match maskTurn s with
      | .inl s' => matchFrom fuel s'.mask s'.name s'.star
      | .inr answer => answer := by
  obtain ⟨mask, name, star⟩ := s
  conv_lhs => unfold matchFrom
  cases name with
  | nil => rfl
  | cons n name =>
    dsimp only
    split
    · rfl
    · rfl
    · next c mask hone hstar =>
      rw [maskTurn_letter hone hstar]
      by_cases hc : c = n
      · rw [if_pos hc, if_pos hc]
      · rw [if_neg hc, if_neg hc]
        rcases star with _ | ⟨mask', _ | ⟨n', name'⟩⟩ <;> rfl
    · rcases star with _ | ⟨mask', _ | ⟨n', name'⟩⟩ <;> rfl

/-- Since the last star, as many characters of the mask as of the name were taken, and no star. -/
def MaskState.Sound (s : MaskState) : Prop :=
  ∀ mask' name', s.star = some (mask', name') →
    ∃ w v : Text, mask' = w ++ s.mask ∧ name' = v ++ s.name ∧ v.length = w.length ∧ '*' ∉ w

/-- What the loop is to find out: that what is left of the mask stands for what is left of the
name, or that the last star takes more. -/
def MaskState.Wanted (s : MaskState) : Prop :=
  s.name ∈ maskLanguage s.mask ∨
    ∃ mask' n name', s.star = some (mask', n :: name') ∧ name' ∈ maskLanguage ('*' :: mask')

/-- A bound for the turns still to come, for a mask of `size` characters. -/
def MaskState.cost (size : ℕ) (s : MaskState) : ℕ :=
  (match s.star with
    | none => s.name.length
    | some (_, name') => name'.length) * (size + 1) + s.mask.length + 1

def MaskState.Within (size : ℕ) (s : MaskState) : Prop :=
  s.mask.length ≤ size ∧ ∀ mask' name', s.star = some (mask', name') → mask'.length ≤ size

theorem starless_map {w : Text} (hw : '*' ∉ w) : Glob.Starless (w.map glob) := by
  intro h
  obtain ⟨c, hc, hmany⟩ := List.mem_map.mp h
  unfold glob at hmany
  split at hmany
  · next heq => exact hw (heq ▸ hc)
  · split at hmany <;> cases hmany

theorem nil_mem_maskLanguage : [] ∈ maskLanguage mask ↔ (mask.all fun c => c = '*') = true := by
  unfold maskLanguage
  rw [Glob.nil_mem, List.forall_mem_map, List.all_eq_true]
  refine forall₂_congr fun c _ => ?_
  unfold glob
  rw [decide_eq_true_eq]
  split
  · next h => exact ⟨fun _ => h, fun _ => rfl⟩
  · next h =>
    refine ⟨fun heq => ?_, fun heq => absurd heq h⟩
    split at heq <;> cases heq

theorem cons_mem_star : n :: name ∈ maskLanguage ('*' :: mask) ↔ n :: name ∈
    maskLanguage mask ∨ name ∈ maskLanguage ('*' :: mask) :=
  Glob.cons_mem_many

theorem cons_mem_question : n :: name ∈ maskLanguage ('?' :: mask) ↔ name ∈ maskLanguage mask :=
  Glob.cons_mem_one

theorem cons_mem_letter {n c : Char} {name mask : Text} (hstar : c ≠ '*') (hone : c ≠ '?') :
    n :: name ∈ maskLanguage (c :: mask) ↔ c = n ∧ name ∈ maskLanguage mask := by
  have hc : glob c = .only c := by
    unfold glob
    rw [if_neg hstar, if_neg hone]
  unfold maskLanguage
  rw [List.map_cons, hc]
  exact Glob.cons_mem_only

theorem mem_star_all {x : Text} : x ∈ maskLanguage ['*'] :=
  Glob.mem_many.mpr ⟨[], List.nil_suffix, Glob.mem_languageOf_nil.mpr rfl⟩

/-! ## The turns -/

theorem MaskState.Sound.took (h : Sound ⟨c :: mask, n :: name, star⟩) (hc : c ≠ '*') : Sound ⟨mask, name, star⟩ := by
  intro mask' name' hstar
  obtain ⟨w, v, rfl, rfl, hlength, hw⟩ := h mask' name' hstar
  refine ⟨w ++ [c], v ++ [n], ?_, ?_, ?_, ?_⟩
  · exact (List.append_cons ..)
  · exact (List.append_cons ..)
  · rw [List.length_append, List.length_append, hlength]
    rfl
  · rw [List.mem_append, List.mem_singleton]
    rintro (hmem | heq)
    · exact hw hmem
    · exact hc heq.symm

theorem MaskState.Sound.wanted_nil
    (h : Sound ⟨mask, [], star⟩) : Wanted ⟨mask, [], star⟩ ↔ [] ∈ maskLanguage mask := by
  constructor
  · rintro (hmem | ⟨mask', n, name', hstar, hmem⟩)
    · exact hmem
    · obtain ⟨w, v, rfl, hname, hlength, hw⟩ := h mask' (n :: name') hstar
      have hmem' : name' ∈ Glob.languageOf (.many :: (w.map glob ++ mask.map glob)) := by
        rw [← List.map_append]
        exact hmem
      obtain ⟨y, -, hlt, -⟩ := (starless_map hw).rest (by rw [List.length_map, hlength]) hname hmem'
      exact absurd hlt (Nat.not_lt_zero _)
  · exact .inl

theorem MaskState.Sound.wanted_star (h : Sound ⟨'*' :: mask, n :: name, star⟩) : Wanted
    ⟨mask, n :: name, some (mask, n :: name)⟩ ↔ Wanted ⟨'*' :: mask, n :: name, star⟩ := by
  have hnew : Wanted ⟨mask, n :: name, some (mask, n :: name)⟩ ↔ n :: name ∈ maskLanguage ('*' :: mask) := by
    rw [cons_mem_star]
    refine or_congr Iff.rfl ⟨?_, fun hmem => ⟨mask, n, name, rfl, hmem⟩⟩
    rintro ⟨mask', n', name', hstar, hmem⟩
    cases hstar
    exact hmem
  rw [hnew]
  constructor
  · exact .inl
  · rintro (hmem | ⟨mask', n', name', hstar, hmem⟩)
    · exact hmem
    · obtain ⟨w, v, rfl, hname, hlength, hw⟩ := h mask' (n' :: name') hstar
      have hmem' : name' ∈ Glob.languageOf (.many :: (w.map glob ++ .many :: mask.map glob)) := by
        have hmap : (w ++ '*' :: mask).map glob = w.map glob ++ .many :: mask.map glob := List.map_append
        rw [← hmap]
        exact hmem
      exact (starless_map hw).forget (by rw [List.length_map, hlength]) hname hmem'

theorem wanted_back (hno : name ∉ maskLanguage mask) : MaskState.Wanted
    ⟨mask', name', some (mask', name')⟩ ↔ MaskState.Wanted ⟨mask, name, some (mask', n :: name')⟩ := by
  have hold : MaskState.Wanted ⟨mask, name, some (mask', n :: name')⟩ ↔ name' ∈ maskLanguage ('*' :: mask') := by
    constructor
    · rintro (hmem | ⟨mask₁, n₁, name₁, hstar, hmem⟩)
      · exact absurd hmem hno
      · cases hstar
        exact hmem
    · intro hmem
      exact .inr ⟨mask', n, name', rfl, hmem⟩
  rw [hold]
  cases name' with
  | nil =>
    have hnil : [] ∈ maskLanguage ('*' :: mask') ↔ [] ∈ maskLanguage mask' := by
      rw [nil_mem_maskLanguage, nil_mem_maskLanguage, List.all_cons]
      rfl
    rw [hnil]
    refine ⟨?_, .inl⟩
    rintro (hmem | ⟨mask₁, n₁, name₁, hstar, -⟩)
    · exact hmem
    · cases hstar
  | cons n' name' =>
    rw [cons_mem_star]
    refine or_congr Iff.rfl ⟨?_, fun hmem => ⟨mask', n', name', rfl, hmem⟩⟩
    rintro ⟨mask₁, n₁, name₁, hstar, hmem⟩
    cases hstar
    exact hmem

theorem not_wanted (hno : name ∉ maskLanguage mask)
    (hstar : ∀ mask' n name', star ≠ some (mask', n :: name')) : ¬MaskState.Wanted ⟨mask, name, star⟩ := by
  rintro (hmem | ⟨mask', n, name', heq, -⟩)
  · exact hno hmem
  · exact hstar mask' n name' heq

/-! ## A run of the loop -/

theorem MaskState.Wanted.congr_name {mask₁ name₁ : Text} (h : name ∈ maskLanguage mask ↔ name₁ ∈ maskLanguage mask₁) :
    Wanted ⟨mask, name, star⟩ ↔ Wanted ⟨mask₁, name₁, star⟩ :=
  or_congr h Iff.rfl

/-- What a turn keeps, and that it brings the end nearer. -/
structure MaskState.Turned (size : ℕ) (s s' : MaskState) : Prop where
  sound : s'.Sound
  within : s'.Within size
  wanted : s'.Wanted ↔ s.Wanted
  cost : s'.cost size < s.cost size

variable {size : ℕ}

theorem MaskState.Turned.took (hsound : Sound ⟨c :: mask, n :: name, star⟩)
    (hwithin : Within size ⟨c :: mask, n :: name, star⟩) (hc : c ≠ '*')
    (hmem : n :: name ∈ maskLanguage (c :: mask) ↔ name ∈ maskLanguage mask) :
    Turned size ⟨c :: mask, n :: name, star⟩ ⟨mask, name, star⟩ where
  sound := hsound.took hc
  within := ⟨Nat.le_of_succ_le hwithin.1, hwithin.2⟩
  wanted := Wanted.congr_name hmem.symm
  cost := by
    unfold MaskState.cost
    cases star with
    | none =>
      dsimp only
      rw [List.length_cons, List.length_cons, Nat.succ_mul]
      omega
    | some star =>
      dsimp only
      rw [List.length_cons]
      omega

theorem MaskState.Turned.starred (hsound : Sound ⟨'*' :: mask, n :: name, star⟩)
    (hwithin : Within size ⟨'*' :: mask, n :: name, star⟩) :
    Turned size ⟨'*' :: mask, n :: name, star⟩ ⟨mask, n :: name, some (mask, n :: name)⟩ where
  sound := by
    rintro mask' name' heq
    cases heq
    exact ⟨[], [], rfl, rfl, rfl, List.not_mem_nil⟩
  within := by
    refine ⟨Nat.le_of_succ_le hwithin.1, ?_⟩
    rintro mask' name' heq
    cases heq
    exact Nat.le_of_succ_le hwithin.1
  wanted := hsound.wanted_star
  cost := by
    unfold MaskState.cost
    dsimp only
    cases star with
    | none =>
      rw [List.length_cons, List.length_cons]
      dsimp only
      omega
    | some star =>
      obtain ⟨mask', name'⟩ := star
      obtain ⟨w, v, -, hname, -, -⟩ := hsound mask' name' rfl
      have hle : (n :: name).length * (size + 1) ≤ name'.length * (size + 1) := by
        apply Nat.mul_le_mul_right
        rw [hname, List.length_append]
        exact Nat.le_add_left ..
      dsimp only
      rw [List.length_cons (a := '*')]
      omega

theorem MaskState.Turned.back
    (hwithin : Within size ⟨mask, name, some (mask', n :: name')⟩)
    (hno : name ∉ maskLanguage mask) :
    Turned size ⟨mask, name, some (mask', n :: name')⟩ ⟨mask', name', some (mask', name')⟩ where
  sound := by
    rintro mask₁ name₁ heq
    cases heq
    exact ⟨[], [], rfl, rfl, rfl, List.not_mem_nil⟩
  within := by
    refine ⟨hwithin.2 mask' _ rfl, ?_⟩
    rintro mask₁ name₁ heq
    cases heq
    exact hwithin.2 mask' _ rfl
  wanted := wanted_back hno
  cost := by
    have hmask' := hwithin.2 mask' _ rfl
    unfold MaskState.cost
    dsimp only
    rw [List.length_cons, Nat.succ_mul]
    omega

theorem MaskState.Turned.of_back (hwithin : Within size ⟨mask, name, star⟩) (hno : name ∉ maskLanguage mask)
    (hback : maskBack star = .inl s') : Turned size ⟨mask, name, star⟩ s' := by
  obtain ⟨mask', n, name', rfl, rfl⟩ := maskBack_eq hback
  exact .back hwithin hno

theorem answered_back (hno : name ∉ maskLanguage mask)
    (hback : maskBack star = .inr answer) : answer = true ↔ MaskState.Wanted ⟨mask, name, star⟩ := by
  obtain ⟨rfl, hstar⟩ := maskBack_none hback
  exact iff_of_false Bool.false_ne_true (not_wanted hno hstar)

theorem cons_not_mem_nil : n :: name ∉ maskLanguage [] := by
  intro h
  cases Glob.mem_languageOf_nil.mp h

theorem MaskState.Sound.turned (hsound : s.Sound)
    (hwithin : s.Within size) (hturn : maskTurn s = .inl s') : Turned size s s' := by
  obtain ⟨mask, name, star⟩ := s
  rcases name with _ | ⟨n, name⟩
  · cases hturn
  rcases mask with _ | ⟨c, mask⟩
  · exact .of_back hwithin cons_not_mem_nil hturn
  by_cases hstar : c = '*'
  · subst hstar
    cases hturn
    exact .starred hsound hwithin
  by_cases hone : c = '?'
  · subst hone
    cases hturn
    exact .took hsound hwithin hstar cons_mem_question
  rw [maskTurn_letter hone hstar] at hturn
  have hmem := @cons_mem_letter n c name mask hstar hone
  by_cases hc : c = n
  · rw [if_pos hc] at hturn
    cases hturn
    exact .took hsound hwithin hstar (hmem.trans (and_iff_right hc))
  · rw [if_neg hc] at hturn
    exact .of_back hwithin (fun h => hc (hmem.mp h).1) hturn

theorem MaskState.Sound.answered {s : MaskState} {answer : Bool} (hsound : s.Sound)
    (hturn : maskTurn s = .inr answer) : answer = true ↔ s.Wanted := by
  obtain ⟨mask, name, star⟩ := s
  rcases name with _ | ⟨n, name⟩
  · cases hturn
    rw [hsound.wanted_nil, nil_mem_maskLanguage]
  rcases mask with _ | ⟨c, mask⟩
  · exact answered_back cons_not_mem_nil hturn
  by_cases hstar : c = '*'
  · subst hstar
    cases hturn
  by_cases hone : c = '?'
  · subst hone
    cases hturn
  rw [maskTurn_letter hone hstar] at hturn
  have hmem := @cons_mem_letter n c name mask hstar hone
  by_cases hc : c = n
  · rw [if_pos hc] at hturn
    cases hturn
  · rw [if_neg hc] at hturn
    exact answered_back (fun h => hc (hmem.mp h).1) hturn

theorem matchFrom_answers {fuel : ℕ} (hsound : s.Sound) (hwithin : s.Within size) (hfuel : s.cost size ≤ fuel) :
    s.Answers (matchFrom fuel s.mask s.name s.star) ∧ (matchFrom fuel s.mask s.name s.star = true ↔ s.Wanted) := by
  induction fuel generalizing s with
  | zero =>
    unfold MaskState.cost at hfuel
    omega
  | succ fuel ih =>
    rw [matchFrom_turn]
    cases hturn : maskTurn s with
    | inl s' =>
      have hturned := hsound.turned hwithin hturn
      have hcost := hturned.cost
      obtain ⟨hanswers, hwanted⟩ := ih hturned.sound hturned.within (by omega)
      exact ⟨hanswers.next hturn, hwanted.trans hturned.wanted⟩
    | inr answer => exact ⟨⟨s, .refl, hturn⟩, hsound.answered hturn⟩

/-- The matcher is glob matching. -/
theorem matchesMask_glob [Platform] (hstar : Platform.toLowercase ['*'] = ['*'])
    (mask name : Text) :
    (mask ≠ ['*'] → mask ≠ ['*', '.', '*'] →
      MaskState.Answers ⟨Platform.toLowercase mask, Platform.toLowercase name, none⟩
        (matchesMask mask name)) ∧
    (matchesMask mask name = true ↔ mask = ['*', '.', '*'] ∨
      Platform.toLowercase name ∈ maskLanguage (Platform.toLowercase mask)) := by
  have hsound : MaskState.Sound ⟨Platform.toLowercase mask, Platform.toLowercase name, none⟩ := by
    rintro mask' name' heq
    cases heq
  have hwithin : MaskState.Within (Platform.toLowercase mask).length
      ⟨Platform.toLowercase mask, Platform.toLowercase name, none⟩ := by
    refine ⟨Nat.le_refl _, ?_⟩
    rintro mask' name' heq
    cases heq
  have hcost : MaskState.cost (Platform.toLowercase mask).length
      ⟨Platform.toLowercase mask, Platform.toLowercase name, none⟩ ≤
      ((Platform.toLowercase name).length + 1) * ((Platform.toLowercase mask).length + 2) := by
    unfold MaskState.cost
    dsimp only
    rw [Nat.succ_mul, Nat.mul_succ _ (_ + 1)]
    omega
  have hrun := matchFrom_answers hsound hwithin hcost
  have hwanted : MaskState.Wanted ⟨Platform.toLowercase mask, Platform.toLowercase name, none⟩ ↔
      Platform.toLowercase name ∈ maskLanguage (Platform.toLowercase mask) := by
    refine ⟨?_, .inl⟩
    rintro (hmem | ⟨mask', n, name', heq, -⟩)
    · exact hmem
    · cases heq
  unfold matchesMask
  by_cases hall : mask = ['*'] ∨ mask = ['*', '.', '*']
  · rw [if_pos hall]
    refine ⟨fun hone htwo => absurd hall (not_or.mpr ⟨hone, htwo⟩), fun _ => ?_, fun _ => rfl⟩
    rcases hall with rfl | hall
    · right
      rw [hstar]
      exact mem_star_all
    · exact .inl hall
  · rw [if_neg hall]
    refine ⟨fun _ _ => hrun.1, ?_⟩
    rw [or_iff_right fun h => hall (.inr h)]
    exact hrun.2.trans hwanted

theorem matchesMask_glob_text : letI := asciiPlatform
    asciiPlatform.toLowercase ['*'] = ['*'] ∧
    (matchesMask "*a?.T*".toList "baab.txt".toList = true ↔
      "*a?.T*".toList = ['*', '.', '*'] ∨
        "baab.txt".toList ∈ maskLanguage "*a?.t*".toList) :=
  let _ := asciiPlatform
  ⟨by decide, (matchesMask_glob (by decide) "*a?.T*".toList "baab.txt".toList).2⟩

end Drive

end UwuRdp
