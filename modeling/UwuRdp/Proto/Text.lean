import Mathlib.Algebra.Order.Ring.Int
import Mathlib.Algebra.Order.Ring.Nat
import Mathlib.Data.List.Basic
import Mathlib.Data.UInt
import Mathlib.Order.Lattice

/-!
# Text

Text is a list of characters. What the program does with text is cut white space off its ends,
look for white space and control characters, put ASCII letters in one case, and measure it in
UTF-8 bytes; each of these follows the standard library's definition over all of Unicode.
-/

namespace UwuRdp

/-- A `String` or `str`. -/
abbrev Text := List Char

namespace Text

/-- What is said of every character of a text is decided along the text, not over all characters. -/
instance (priority := 1100) decidableForall {p : Char → Prop} [DecidablePred p] (t : Text) :
    Decidable (∀ c ∈ t, p c) :=
  List.decidableBAll p t

/-- `char::is_whitespace`: the `White_Space` property. -/
def isWhitespace (c : Char) : Bool :=
  let n := c.toNat
  (9 ≤ n && n ≤ 13) || n == 0x20 || n == 0x85 || n == 0xA0 || n == 0x1680 ||
    (0x2000 ≤ n && n ≤ 0x200A) || n == 0x2028 || n == 0x2029 || n == 0x202F || n == 0x205F ||
    n == 0x3000

/-- `char::is_control`: the category `Cc`. -/
def isControl (c : Char) : Bool :=
  let n := c.toNat
  n < 0x20 || (0x7F ≤ n && n ≤ 0x9F)

def trimEndMatches (p : Char → Bool) (t : Text) : Text := (t.reverse.dropWhile p).reverse

/-- `str::trim`. -/
def trim (t : Text) : Text := trimEndMatches isWhitespace (t.dropWhile isWhitespace)

theorem trim_of_unspaced {t : Text} (h : ∀ c ∈ t, isWhitespace c = false) : trim t = t := by
  have hkeep : ∀ u : Text, (∀ c ∈ u, isWhitespace c = false) → u.dropWhile isWhitespace = u := by
    intro u hu
    cases u with
    | nil => rfl
    | cons c u =>
      have hc : ¬ isWhitespace c = true := by rw [hu c List.mem_cons_self]; decide
      rw [List.dropWhile_cons_of_neg hc]
  unfold trim trimEndMatches
  rw [hkeep t h, hkeep t.reverse fun c hc => h c (List.mem_reverse.mp hc), List.reverse_reverse]

def asciiLowercase (c : Char) : Char :=
  if 65 ≤ c.toNat ∧ c.toNat ≤ 90 then Char.ofNat (c.toNat + 32) else c

def asciiUppercase (c : Char) : Char :=
  if 97 ≤ c.toNat ∧ c.toNat ≤ 122 then Char.ofNat (c.toNat - 32) else c

/-- `str::to_ascii_lowercase`. -/
def toAsciiLowercase (t : Text) : Text := t.map asciiLowercase

/-- The order of text as the database compares it, by its bytes. -/
def le : Text → Text → Bool
  | [], _ => true
  | _ :: _, [] => false
  | a :: as, b :: bs => a.toNat < b.toNat || (a == b && le as bs)

theorem le_cons {a b : Char} {s t : Text} :
    le (a :: s) (b :: t) = true ↔ a.toNat < b.toNat ∨ (a = b ∧ le s t = true) := by
  rw [le, Bool.or_eq_true, Bool.and_eq_true, decide_eq_true_iff, beq_iff_eq]

theorem le_total (s t : Text) : le s t = true ∨ le t s = true := by
  induction s generalizing t with
  | nil => exact .inl rfl
  | cons a s ih =>
    cases t with
    | nil => exact .inr rfl
    | cons b t =>
      rw [le_cons, le_cons]
      rcases Nat.lt_trichotomy a.toNat b.toNat with h | h | h
      · exact .inl (.inl h)
      · have hab : a = b := Char.toNat_inj.mp h
        rcases ih t with ht | ht
        · exact .inl (.inr ⟨hab, ht⟩)
        · exact .inr (.inr ⟨hab.symm, ht⟩)
      · exact .inr (.inl h)

theorem le_trans {s t u : Text} (h : le s t = true) (h' : le t u = true) : le s u = true := by
  induction s generalizing t u with
  | nil => rfl
  | cons a s ih =>
    cases t with
    | nil => cases h
    | cons b t =>
      cases u with
      | nil => cases h'
      | cons c u =>
        rw [le_cons] at h h' ⊢
        rcases h with h | ⟨rfl, h⟩
        · rcases h' with h' | ⟨rfl, -⟩
          · exact .inl (Nat.lt_trans h h')
          · exact .inl h
        · rcases h' with h' | ⟨rfl, h'⟩
          · exact .inl h'
          · exact .inr ⟨rfl, ih h h'⟩

theorem le_antisymm {s t : Text} (h : le s t = true) (h' : le t s = true) : s = t := by
  induction s generalizing t with
  | nil =>
    cases t with
    | nil => rfl
    | cons b t => cases h'
  | cons a s ih =>
    cases t with
    | nil => cases h
    | cons b t =>
      rw [le_cons] at h h'
      rcases h with h | ⟨rfl, h⟩
      · rcases h' with h' | ⟨rfl, -⟩
        · exact absurd (Nat.lt_trans h h') (Nat.lt_irrefl _)
        · exact absurd h (Nat.lt_irrefl _)
      · rcases h' with h' | ⟨-, h'⟩
        · exact absurd h' (Nat.lt_irrefl _)
        · rw [ih h h']

def utf8 (t : Text) : List UInt8 := t.flatMap String.utf8EncodeChar

def utf8Len (t : Text) : Nat := (t.map fun c => c.utf8Size).sum

def ofNat (n : Nat) : Text := Nat.toDigits 10 n

def ofInt : Int → Text
  | Int.ofNat n => ofNat n
  | Int.negSucc n => '-' :: ofNat (n + 1)

end Text

end UwuRdp
