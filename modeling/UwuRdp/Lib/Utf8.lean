import Mathlib.Algebra.Order.Ring.Nat
import Mathlib.Data.List.Basic

/-!
# Characters as bytes

A character of ASCII is one byte, its number. Every byte of any other character is above those, so whatever
looks for ASCII in the bytes of a text finds the same as one that looks at its characters.
-/

namespace Lib.Utf8

variable {c : Char} {t : List Char}

def encode (t : List Char) : List UInt8 := t.flatMap String.utf8EncodeChar

@[simp] theorem encode_nil : encode [] = [] := rfl

theorem encode_cons (c : Char) (t : List Char) : encode (c :: t) = String.utf8EncodeChar c ++ encode t := rfl

theorem encode_append (s t : List Char) : encode (s ++ t) = encode s ++ encode t := List.flatMap_append

abbrev Ascii (c : Char) : Prop := c.toNat < 128

def byte (c : Char) : UInt8 := UInt8.ofNat c.toNat

theorem toNat_byte (h : Ascii c) : (byte c).toNat = c.toNat :=
  UInt8.toNat_ofNat_of_lt' (h.trans (by decide))

theorem encodeChar_ascii (h : Ascii c) : String.utf8EncodeChar c = [byte c] := by
  have hle : c.val.toNat ≤ 0x7f := Nat.le_of_lt_succ h
  unfold String.utf8EncodeChar
  exact if_pos hle

theorem encode_ascii (h : ∀ c ∈ t, Ascii c) : encode t = t.map byte := by
  induction t with
  | nil => rfl
  | cons c t ih =>
    rw [encode_cons, encodeChar_ascii (h c List.mem_cons_self), ih fun d hd => h d (List.mem_cons_of_mem _ hd)]
    rfl

theorem encodeChar_ne_nil (c : Char) : String.utf8EncodeChar c ≠ [] := by
  intro h
  have hlen := String.length_utf8EncodeChar c
  rw [h] at hlen
  exact absurd hlen.symm (Nat.pos_iff_ne_zero.mp c.utf8Size_pos)

private theorem le_toNat_ofNat {n k : ℕ} (hk : 0x80 ≤ k) (hn : n + k < 256) : 128 ≤ (UInt8.ofNat (n + k)).toNat := by
  rw [UInt8.toNat_ofNat_of_lt' hn]
  omega

theorem le_of_mem_encodeChar (h : ¬Ascii c) {b : UInt8} (hb : b ∈ String.utf8EncodeChar c) : 128 ≤ b.toNat := by
  have hwide : ¬c.val.toNat ≤ 0x7f := fun hle => h (Nat.lt_succ_of_le hle)
  unfold String.utf8EncodeChar at hb
  rw [if_neg hwide] at hb
  have hmod : ∀ n k : ℕ, 0 < k → n % k < k := fun n k hk => Nat.mod_lt n hk
  split at hb
  all_goals try split at hb
  all_goals
    simp only [List.mem_cons, List.not_mem_nil, or_false] at hb
    rcases hb with rfl | rfl | rfl | rfl <;> exact le_toNat_ofNat (by decide) (by omega)

theorem encode_filter {p : Char → Bool} {q : UInt8 → Bool} (hascii : ∀ c, Ascii c → p c = q (byte c))
    (hwide : ∀ c, ¬Ascii c → p c = true) (hbytes : ∀ b : UInt8, 128 ≤ b.toNat → q b = true) (t : List Char) :
    (encode t).filter q = encode (t.filter p) := by
  induction t with
  | nil => rfl
  | cons c t ih =>
    rw [encode_cons, List.filter_append, ih]
    by_cases hc : Ascii c
    · rw [encodeChar_ascii hc, List.filter_cons, List.filter_cons, hascii c hc, List.filter_nil]
      split
      · rw [encode_cons, encodeChar_ascii hc]
      · rfl
    · rw [List.filter_cons_of_pos (hwide c hc), encode_cons,
        List.filter_eq_self.mpr fun b hb => hbytes b (le_of_mem_encodeChar hc hb)]

theorem ascii_of_bytes (h : ∀ b ∈ encode t, b.toNat < 128) : ∀ c ∈ t, Ascii c := by
  intro c hc
  by_contra hwide
  obtain ⟨b, bytes, hbytes⟩ := List.exists_cons_of_ne_nil (encodeChar_ne_nil c)
  have hb : b ∈ String.utf8EncodeChar c := hbytes ▸ List.mem_cons_self
  exact absurd (h b (List.mem_flatMap.mpr ⟨c, hc, hb⟩)) (Nat.not_lt.mpr (le_of_mem_encodeChar hwide hb))

/-! ## Cutting at a byte -/

def size (t : List Char) : ℕ := (t.map Char.utf8Size).sum

theorem size_cons (c : Char) (t : List Char) : size (c :: t) = c.utf8Size + size t := List.sum_cons

theorem size_append (s t : List Char) : size (s ++ t) = size s + size t := by
  rw [size, List.map_append, List.sum_append]
  rfl

theorem length_encode (t : List Char) : (encode t).length = size t := by
  induction t with
  | nil => rfl
  | cons c t ih => rw [encode_cons, List.length_append, String.length_utf8EncodeChar, size_cons, ih]

theorem length_le_size (t : List Char) : t.length ≤ size t := by
  induction t with
  | nil => exact Nat.le_refl 0
  | cons c t ih =>
    have hpos := c.utf8Size_pos
    rw [size_cons, List.length_cons]
    omega

theorem zero_notMem_encode (h : '\x00' ∉ t) : (0 : UInt8) ∉ encode t := by
  intro hzero
  obtain ⟨c, hc, hb⟩ := List.mem_flatMap.mp hzero
  by_cases hascii : Ascii c
  · rw [encodeChar_ascii hascii, List.mem_singleton] at hb
    have hnull : c.toNat = 0 := (toNat_byte hascii).symm.trans (congrArg UInt8.toNat hb.symm)
    exact h (Char.toNat_inj.mp (hnull.trans (show 0 = '\x00'.toNat from rfl)) ▸ hc)
  · cases le_of_mem_encodeChar hascii hb

theorem size_ascii (h : ∀ c ∈ t, Ascii c) : size t = t.length := by
  induction t with
  | nil => rfl
  | cons c t ih =>
    have hone : c.utf8Size = 1 := by
      have hlen := String.length_utf8EncodeChar c
      rw [encodeChar_ascii (h c List.mem_cons_self)] at hlen
      exact hlen.symm
    rw [size_cons, hone, ih fun d hd => h d (List.mem_cons_of_mem _ hd), List.length_cons, Nat.add_comm]

/-- The text before so many bytes and the text after, if no character lies across. -/
def splitAt : List Char → ℕ → Option (List Char × List Char)
  | t, 0 => some ([], t)
  | [], _ + 1 => none
  | c :: t, n + 1 =>
    if c.utf8Size ≤ n + 1 then (splitAt t (n + 1 - c.utf8Size)).map fun p => (c :: p.1, p.2) else none

theorem splitAt_eq_some {n : ℕ} {a b : List Char} : splitAt t n = some (a, b) ↔ t = a ++ b ∧ size a = n := by
  induction t generalizing n a with
  | nil =>
    cases n with
    | zero =>
      rw [splitAt, Option.some.injEq, Prod.mk.injEq]
      constructor
      · rintro ⟨rfl, rfl⟩
        exact ⟨rfl, rfl⟩
      · rintro ⟨h, -⟩
        obtain ⟨rfl, rfl⟩ := List.append_eq_nil_iff.mp h.symm
        exact ⟨rfl, rfl⟩
    | succ n =>
      rw [splitAt]
      refine iff_of_false (fun h => by cases h) ?_
      rintro ⟨h, hsize⟩
      obtain ⟨rfl, rfl⟩ := List.append_eq_nil_iff.mp h.symm
      cases hsize
  | cons c t ih =>
    cases n with
    | zero =>
      rw [splitAt, Option.some.injEq, Prod.mk.injEq]
      constructor
      · rintro ⟨rfl, rfl⟩
        exact ⟨rfl, rfl⟩
      · rintro ⟨h, hsize⟩
        cases a with
        | nil => exact ⟨rfl, h⟩
        | cons d a =>
          rw [size_cons] at hsize
          exact absurd (Nat.le_of_add_right_le hsize.le) (Nat.not_le.mpr d.utf8Size_pos)
    | succ n =>
      rw [splitAt]
      constructor
      · intro h
        split at h
        · next hfits =>
          obtain ⟨⟨a', b'⟩, hsplit, he⟩ := Option.map_eq_some_iff.mp h
          cases he
          obtain ⟨rfl, hsize⟩ := ih.mp hsplit
          refine ⟨rfl, ?_⟩
          rw [size_cons, hsize]
          omega
        · cases h
      · rintro ⟨h, hsize⟩
        cases a with
        | nil => cases hsize
        | cons d a =>
          obtain ⟨rfl, rfl⟩ := List.cons.inj h
          rw [size_cons] at hsize
          rw [if_pos (by omega), (ih (a := a)).mpr ⟨rfl, by omega⟩]
          rfl

end Lib.Utf8
