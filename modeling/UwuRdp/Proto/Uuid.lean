import UwuRdp.Proto.Envelope

/-!
# Ids as text

An id is written as 32 digits in five groups. What a library makes of other spellings is not this program's: of
one that reads ids only this much is taken for granted, that it reads the hyphenated form in either case.
-/

namespace UwuRdp

namespace Uuid

def hexDigits : ℕ → ℕ → Text
  | 0, _ => []
  | k + 1, n => hexDigits k (n / 16) ++ [Nat.digitChar (n % 16)]

def hyphenate (hex : Text) : Text :=
  hex.take 8 ++ ['-'] ++ (hex.drop 8).take 4 ++ ['-'] ++ (hex.drop 12).take 4 ++ ['-'] ++
    (hex.drop 16).take 4 ++ ['-'] ++ hex.drop 20

def hyphenated (u : Uuid) : Text := hyphenate (hexDigits 32 u)

/-- `Uuid::try_parse`, `Uuid::parse_str`: the hyphenated form of an id is read as it, whatever its case. -/
def ReadsHyphenated (parse : Text → Option Uuid) : Prop :=
  ∀ (t : Text) (u : Uuid), u < 2 ^ 128 → Text.toAsciiLowercase t = hyphenated u → parse t = some u

variable {k n : ℕ}

@[simp] theorem length_hexDigits (k n : ℕ) : (hexDigits k n).length = k := by
  induction k generalizing n with
  | zero => rfl
  | succ k ih => rw [hexDigits, List.length_append, ih, List.length_singleton]

theorem hexDigits_zero (k : ℕ) : hexDigits k 0 = List.replicate k '0' := by
  induction k with
  | zero => rfl
  | succ k ih =>
    rw [hexDigits, Nat.zero_div, ih, List.replicate_succ']
    rfl

theorem hexDigits_eq (h : n < 16 ^ k) (hk : 0 < k) :
    hexDigits k n = List.replicate (k - (Nat.toDigits 16 n).length) '0' ++ Nat.toDigits 16 n := by
  induction k generalizing n with
  | zero => exact absurd hk (Nat.lt_irrefl 0)
  | succ k ih =>
    rcases Nat.lt_or_ge n 16 with hlt | hge
    · rw [Nat.toDigits_of_lt_base hlt, hexDigits, Nat.div_eq_of_lt hlt, hexDigits_zero, Nat.mod_eq_of_lt hlt]
      rfl
    · have hdiv : n / 16 < 16 ^ k := by
        rw [Nat.pow_succ] at h
        exact Nat.div_lt_of_lt_mul (by rwa [Nat.mul_comm])
      have hpos : 0 < k := by
        rcases Nat.eq_zero_or_pos k with rfl | hpos
        · omega
        · exact hpos
      have hdigits : Nat.toDigits 16 n = Nat.toDigits 16 (n / 16) ++ [Nat.digitChar (n % 16)] := by
        rw [Nat.toDigits_eq_if (by decide), if_neg (by omega)]
      rw [hexDigits, ih hdiv hpos, hdigits, List.length_append, List.length_singleton, Nat.add_sub_add_right,
        List.append_assoc]

theorem json_eq {u : Uuid} (h : u < 2 ^ 128) : Json.uuid u = Json.string u.hyphenated := by
  have hfits : u < 16 ^ 32 := h.trans_le (by decide)
  unfold hyphenated
  rw [hexDigits_eq hfits (by decide)]
  rfl

theorem exists_hexDigits {t : Text} (h : ∀ c ∈ t, ∃ d < 16, c = Nat.digitChar d) :
    ∃ n < 16 ^ t.length, hexDigits t.length n = t := by
  induction t using List.reverseRecOn with
  | nil => exact ⟨0, Nat.one_pos, rfl⟩
  | append_singleton t c ih =>
    obtain ⟨n, hn, ht⟩ := ih fun d hd => h d (List.mem_append_left _ hd)
    obtain ⟨d, hd, rfl⟩ := h c (List.mem_append_right _ (List.mem_singleton_self c))
    refine ⟨n * 16 + d, ?_, ?_⟩
    · rw [List.length_append, List.length_singleton, Nat.pow_succ]
      omega
    · rw [List.length_append, List.length_singleton, hexDigits]
      have hdiv : (n * 16 + d) / 16 = n := by omega
      have hmod : (n * 16 + d) % 16 = d := by omega
      rw [hdiv, hmod, ht]

theorem mem_hexDigits {c : Char} (h : c ∈ hexDigits k n) : ∃ d < 16, c = Nat.digitChar d := by
  induction k generalizing n with
  | zero => cases h
  | succ k ih =>
    rcases List.mem_append.mp h with h | h
    · exact ih h
    · exact ⟨n % 16, Nat.mod_lt n (by decide), List.mem_singleton.mp h⟩

/-! ## Groups -/

/-- A list in groups of 8, 4, 4, 4 and 12 with a hyphen between them. -/
structure Groups {α : Type} (hyphen : α) (l hex : List α) : Prop where
  eq : l = hex.take 8 ++ hyphen :: ((hex.drop 8).take 4 ++ hyphen :: ((hex.drop 12).take 4 ++
    hyphen :: ((hex.drop 16).take 4 ++ hyphen :: hex.drop 20)))
  length : hex.length = 32

theorem groups_hyphenated (u : Uuid) : Groups '-' u.hyphenated (hexDigits 32 u) where
  eq := by simp [hyphenated, hyphenate]
  length := length_hexDigits 32 u

variable {α β : Type} {hyphen : α} {l hex : List α}

theorem groups_of_parts {a b c d e : List α} (ha : a.length = 8) (hb : b.length = 4) (hc : c.length = 4)
    (hd : d.length = 4) (he : e.length = 12) : Groups hyphen
      (a ++ hyphen :: (b ++ hyphen :: (c ++ hyphen :: (d ++ hyphen :: e)))) (a ++ b ++ c ++ d ++ e) where
  eq := by simp [List.drop_append, ha, hb, hc, hd, List.drop_eq_nil_of_le]
  length := by simp [ha, hb, hc, hd, he]

theorem Groups.filter [DecidableEq α] (h : Groups hyphen l hex) (hnot : hyphen ∉ hex) : l.filter (· ≠ hyphen) = hex := by
  have hpart : ∀ part : List α, (∀ x ∈ part, x ∈ hex) → part.filter (· ≠ hyphen) = part :=
    fun part hin => List.filter_eq_self.mpr fun x hx => decide_eq_true fun he => hnot (he ▸ hin x hx)
  have hpiece : ∀ m n, ((hex.drop m).take n).filter (· ≠ hyphen) = (hex.drop m).take n :=
    fun m n => hpart _ fun x hx => List.mem_of_mem_drop (List.mem_of_mem_take hx)
  have hlast : (hex.drop 20).filter (· ≠ hyphen) = hex.drop 20 := hpart _ fun x hx => List.mem_of_mem_drop hx
  have hgone : ∀ rest : List α, (hyphen :: rest).filter (· ≠ hyphen) = rest.filter (· ≠ hyphen) :=
    fun rest => List.filter_cons_of_neg (by simp)
  have hjoin : ∀ m n, (hex.drop m).take n ++ hex.drop (m + n) = hex.drop m := by
    intro m n
    rw [← List.drop_drop, List.take_append_drop]
  rw [h.eq, List.filter_append, hgone, List.filter_append, hgone, List.filter_append, hgone, List.filter_append, hgone,
    hpiece 8 4, hpiece 12 4, hpiece 16 4, hlast, hjoin 16 4, hjoin 12 4, hjoin 8 4]
  exact (congrArg (· ++ hex.drop 8) (hpiece 0 8)).trans (List.take_append_drop 8 hex)

theorem forall_getElem?_append_cons {P : ℕ → α → Prop} {a r : List α} {s : α} :
    (∀ i x, (a ++ s :: r)[i]? = some x → P i x) ↔ (∀ i x, a[i]? = some x → P i x) ∧ P a.length s ∧ ∀ i x, r[i]? = some
    x → P (a.length + 1 + i) x := by
  constructor
  · intro h
    refine ⟨fun i x hx => h i x ?_, h a.length s ?_, fun i x hx => h _ x ?_⟩
    · rw [List.getElem?_append_left (List.getElem?_eq_some_iff.mp hx).1, hx]
    · rw [List.getElem?_append_right le_rfl, Nat.sub_self, List.getElem?_cons_zero]
    · rw [List.getElem?_append_right (by omega), Nat.add_assoc, Nat.add_sub_cancel_left, Nat.add_comm,
        List.getElem?_cons_succ, hx]
  · rintro ⟨hleft, hmid, hright⟩ i x hx
    rcases Nat.lt_trichotomy i a.length with hlt | rfl | hgt
    · rw [List.getElem?_append_left hlt] at hx
      exact hleft i x hx
    · rw [List.getElem?_append_right le_rfl, Nat.sub_self, List.getElem?_cons_zero] at hx
      cases hx
      exact hmid
    · obtain ⟨k, rfl⟩ := Nat.exists_eq_add_of_lt hgt
      rw [List.getElem?_append_right (by omega), Nat.add_assoc, Nat.add_sub_cancel_left,
        List.getElem?_cons_succ] at hx
      rw [Nat.add_right_comm]
      exact hright k x hx

theorem groups_iff {p : α → Prop} :
    (∃ hex, Groups hyphen l hex ∧ ∀ x ∈ hex, p x) ↔ l.length = 36 ∧
      ∀ i x, l[i]? = some x → if i = 8 ∨ i = 13 ∨ i = 18 ∨ i = 23 then x = hyphen else p x := by
  constructor
  · rintro ⟨hex, ⟨rfl, hlen⟩, hp⟩
    have hpart : ∀ m n i x, ((hex.drop m).take n)[i]? = some x → i < n ∧ p x := by
      intro m n i x hx
      have hmem := List.mem_of_getElem? hx
      obtain ⟨hi, -⟩ := List.getElem?_eq_some_iff.mp hx
      rw [List.length_take] at hi
      exact ⟨by omega, hp x (List.mem_of_mem_drop (List.mem_of_mem_take hmem))⟩
    have hlast : ∀ i x, (hex.drop 20)[i]? = some x → i < 12 ∧ p x := by
      intro i x hx
      apply hpart 20 12 i x
      rwa [List.take_of_length_le (by rw [List.length_drop, hlen])]
    refine ⟨by simp [hlen], ?_⟩
    simp only [forall_getElem?_append_cons, List.length_take, List.length_drop, hlen]
    refine ⟨fun i x hx => ?_, by simp, fun i x hx => ?_, by simp, fun i x hx => ?_, by simp, fun i x hx => ?_,
      by simp, fun i x hx => ?_⟩
    · obtain ⟨hi, hx⟩ := hpart 0 8 i x hx
      rw [if_neg (by omega)]
      exact hx
    · obtain ⟨hi, hx⟩ := hpart 8 4 i x hx
      rw [if_neg (by omega)]
      exact hx
    · obtain ⟨hi, hx⟩ := hpart 12 4 i x hx
      rw [if_neg (by omega)]
      exact hx
    · obtain ⟨hi, hx⟩ := hpart 16 4 i x hx
      rw [if_neg (by omega)]
      exact hx
    · obtain ⟨hi, hx⟩ := hlast i x hx
      rw [if_neg (by omega)]
      exact hx
  · rintro ⟨hlen, hall⟩
    have hcut : ∀ m n, m + n = 8 ∨ m + n = 13 ∨ m + n = 18 ∨ m + n = 23 →
        l.drop m = (l.drop m).take n ++ hyphen :: l.drop (m + n + 1) := by
      intro m n hplace
      have hlt : m + n < l.length := by omega
      have hat := hall (m + n) l[m + n] (List.getElem?_eq_getElem hlt)
      rw [if_pos hplace] at hat
      conv_lhs => rw [← List.take_append_drop n (l.drop m), List.drop_drop, List.drop_eq_getElem_cons hlt, hat]
    have hparts : l = l.take 8 ++ hyphen :: ((l.drop 9).take 4 ++ hyphen :: ((l.drop 14).take 4 ++
        hyphen :: ((l.drop 19).take 4 ++ hyphen :: l.drop 24))) := by
      rw [← hcut 19 4 (by decide), ← hcut 14 4 (by decide), ← hcut 9 4 (by decide)]
      exact hcut 0 8 (by decide)
    have hgroups := @groups_of_parts α hyphen (l.take 8) ((l.drop 9).take 4) ((l.drop 14).take 4)
      ((l.drop 19).take 4) (l.drop 24) (by simp [hlen]) (by simp [hlen]) (by simp [hlen]) (by simp [hlen])
      (by simp [hlen])
    rw [← hparts] at hgroups
    refine ⟨_, hgroups, fun x hx => ?_⟩
    have hmem : ∀ m n, (∀ i, m ≤ i → i < m + n → ¬(i = 8 ∨ i = 13 ∨ i = 18 ∨ i = 23)) →
        x ∈ (l.drop m).take n → p x := by
      intro m n hnot hx
      obtain ⟨i, hi⟩ := List.mem_iff_getElem?.mp hx
      obtain ⟨hlt, -⟩ := List.getElem?_eq_some_iff.mp hi
      rw [List.length_take] at hlt
      rw [List.getElem?_take_of_lt (by omega), List.getElem?_drop] at hi
      have hat := hall (m + i) x hi
      rwa [if_neg (hnot (m + i) (by omega) (by omega))] at hat
    rcases List.mem_append.mp hx with hx | hx
    · rcases List.mem_append.mp hx with hx | hx
      · rcases List.mem_append.mp hx with hx | hx
        · rcases List.mem_append.mp hx with hx | hx
          · exact hmem 0 8 (by omega) hx
          · exact hmem 9 4 (by omega) hx
        · exact hmem 14 4 (by omega) hx
      · exact hmem 19 4 (by omega) hx
    · apply hmem 24 12 (by omega)
      rwa [List.take_of_length_le (by rw [List.length_drop, hlen])]

theorem exists_hyphenated_iff {t : Text} : (∃ u, u < 2 ^ 128 ∧ t = hyphenated u) ↔ t.length = 36 ∧
    ∀ i c, t[i]? = some c → if i = 8 ∨ i = 13 ∨ i = 18 ∨ i = 23 then c = '-' else ∃ d < 16, c = Nat.digitChar d := by
  rw [← groups_iff]
  constructor
  · rintro ⟨u, -, ht⟩
    rw [ht]
    exact ⟨hexDigits 32 u, groups_hyphenated u, fun c hc => mem_hexDigits hc⟩
  · rintro ⟨hex, hgroups, hdigits⟩
    obtain ⟨u, hu, hhex⟩ := exists_hexDigits hdigits
    rw [hgroups.length] at hu hhex
    refine ⟨u, hu.trans_le (by decide), ?_⟩
    rw [hgroups.eq, (groups_hyphenated u).eq, hhex]

theorem toAsciiLowercase_hyphenated {u : Uuid} (hu : u < 2 ^ 128) :
    Text.toAsciiLowercase (hyphenated u) = hyphenated u := by
  have hform := (exists_hyphenated_iff.mp ⟨u, hu, rfl⟩).2
  have hsame : ∀ c ∈ hyphenated u, Text.asciiLowercase c = c := by
    intro c hc
    obtain ⟨i, hi⟩ := List.mem_iff_getElem?.mp hc
    have hat := hform i c hi
    split at hat
    · rw [hat]
      decide
    · obtain ⟨d, hd, rfl⟩ := hat
      have hdigit : ∀ d < 16, Text.asciiLowercase (Nat.digitChar d) = Nat.digitChar d := by decide
      exact hdigit d hd
  conv_rhs => rw [← List.map_id (hyphenated u)]
  exact List.map_congr_left hsame

/-! ## A reader -/

def hexVal (c : Char) : ℕ := "0123456789abcdef".toList.idxOf c

def readHex (t : Text) : ℕ := t.foldl (fun n c => n * 16 + hexVal c) 0

def ofHyphenated (t : Text) : Option Uuid :=
  if t.length = 36 then some (readHex ((Text.toAsciiLowercase t).filter (· ≠ '-'))) else none

theorem readHex_hexDigits (h : n < 16 ^ k) : readHex (hexDigits k n) = n := by
  induction k generalizing n with
  | zero =>
    rw [Nat.pow_zero] at h
    obtain rfl : n = 0 := by omega
    rfl
  | succ k ih =>
    have hdigit : ∀ d < 16, hexVal (Nat.digitChar d) = d := by decide
    rw [Nat.pow_succ] at h
    have hhigh := ih (n := n / 16) (Nat.div_lt_of_lt_mul (by omega))
    unfold readHex at hhigh ⊢
    rw [hexDigits, List.foldl_append, hhigh, List.foldl_cons, List.foldl_nil, hdigit _ (Nat.mod_lt n (by decide))]
    omega

theorem readsHyphenated_ofHyphenated : ReadsHyphenated ofHyphenated := by
  intro t u hu h
  have hform := (exists_hyphenated_iff.mp ⟨u, hu, h⟩).1
  have hlen : t.length = 36 := by rwa [Text.toAsciiLowercase, List.length_map] at hform
  have hdigit : ∀ c ∈ hexDigits 32 u, c ≠ '-' := by
    intro c hc
    obtain ⟨d, hd, rfl⟩ := mem_hexDigits hc
    have hnone : ∀ d < 16, Nat.digitChar d ≠ '-' := by decide
    exact hnone d hd
  have hback : (hyphenated u).filter (· ≠ '-') = hexDigits 32 u :=
    (groups_hyphenated u).filter fun hin => hdigit '-' hin rfl
  unfold ofHyphenated
  rw [if_pos hlen, h, hback, readHex_hexDigits (hu.trans_le (by decide))]

end Uuid

end UwuRdp
