import Mathlib.Algebra.Order.Ring.Nat
import Mathlib.Computability.Language
import Mathlib.Data.List.Infix

/-!
# Masks

The language of a mask over any letters, and why a matcher that takes each star as little as it can
only ever has to go back to the last one.
-/

namespace Lib

universe u

variable {α : Type u}

/-- What a letter of a mask stands for. -/
inductive Glob (α : Type u) where
  | many
  | one
  | only (a : α)

namespace Glob

def language : Glob α → Language α
  | many => {_x | True}
  | one => {x | ∃ a, x = [a]}
  | only a => {[a]}

def languageOf (mask : List (Glob α)) : Language α := (mask.map language).prod

@[simp] theorem mem_languageOf_nil {x : List α} : x ∈ languageOf [] ↔ x = [] := Language.mem_one x

variable {mask w : List (Glob α)} {x : List α} {a : α}

theorem mem_languageOf_cons {g : Glob α} :
    x ∈ languageOf (g :: mask) ↔ ∃ v ∈ g.language, ∃ y ∈ languageOf mask, v ++ y = x :=
  Language.mem_mul

theorem mem_many : x ∈ languageOf (many :: mask) ↔ ∃ y, y <:+ x ∧ y ∈ languageOf mask := by
  rw [mem_languageOf_cons]
  constructor
  · rintro ⟨v, -, y, hy, rfl⟩
    exact ⟨y, List.suffix_append v y, hy⟩
  · rintro ⟨y, ⟨v, rfl⟩, hy⟩
    exact ⟨v, trivial, y, hy, rfl⟩

theorem cons_mem_many :
    a :: x ∈ languageOf (many :: mask) ↔
      a :: x ∈ languageOf mask ∨ x ∈ languageOf (many :: mask) := by
  rw [mem_many, mem_many]
  constructor
  · rintro ⟨y, hsuffix, hy⟩
    rcases List.suffix_cons_iff.mp hsuffix with rfl | hsuffix
    · exact .inl hy
    · exact .inr ⟨y, hsuffix, hy⟩
  · rintro (hx | ⟨y, hsuffix, hy⟩)
    · exact ⟨a :: x, List.suffix_rfl, hx⟩
    · exact ⟨y, List.suffix_cons_iff.mpr (.inr hsuffix), hy⟩

theorem cons_mem_one : a :: x ∈ languageOf (one :: mask) ↔ x ∈ languageOf mask := by
  rw [mem_languageOf_cons]
  constructor
  · rintro ⟨v, ⟨b, rfl⟩, y, hy, heq⟩
    obtain ⟨-, rfl⟩ := List.cons.inj heq
    exact hy
  · intro hx
    exact ⟨[a], ⟨a, rfl⟩, x, hx, rfl⟩

theorem cons_mem_only {b : α} : a :: x ∈ languageOf (only b :: mask) ↔ b = a ∧ x ∈ languageOf mask := by
  rw [mem_languageOf_cons]
  constructor
  · rintro ⟨v, hv, y, hy, heq⟩
    obtain rfl : v = [b] := hv
    obtain ⟨rfl, rfl⟩ := List.cons.inj heq
    exact ⟨rfl, hy⟩
  · rintro ⟨rfl, hx⟩
    exact ⟨[b], rfl, x, hx, rfl⟩

theorem nil_mem : [] ∈ languageOf mask ↔ ∀ g ∈ mask, g = many := by
  induction mask with
  | nil => simp
  | cons g mask ih =>
    rw [mem_languageOf_cons, List.forall_mem_cons, ← ih]
    constructor
    · rintro ⟨v, hv, y, hy, heq⟩
      obtain ⟨rfl, rfl⟩ := List.append_eq_nil_iff.mp heq
      refine ⟨?_, hy⟩
      cases g with
      | many => rfl
      | one => exact absurd hv (by rintro ⟨a, ha⟩; cases ha)
      | only a => cases show [] = [a] from hv
    · rintro ⟨rfl, hmask⟩
      exact ⟨[], trivial, [], hmask, rfl⟩

/-- A mask without stars takes as many letters as it has. -/
def Starless (mask : List (Glob α)) : Prop := many ∉ mask

theorem Starless.length_eq (hw : Starless w) (hx : x ∈ languageOf w) : x.length = w.length := by
  induction w generalizing x with
  | nil => rw [mem_languageOf_nil.mp hx]; rfl
  | cons g w ih =>
    obtain ⟨v, hv, y, hy, rfl⟩ := mem_languageOf_cons.mp hx
    have hy' := ih (fun h => hw (List.mem_cons_of_mem g h)) hy
    have hv' : v.length = 1 := by
      cases g with
      | many => exact absurd List.mem_cons_self hw
      | one => obtain ⟨a, rfl⟩ := hv; rfl
      | only a => obtain rfl : v = [a] := hv; rfl
    rw [List.length_append, List.length_cons, hv', hy']
    omega

/-- Where the letters of a starless stretch of the mask have been taken from the start of a word,
the rest of the mask can be met later in the word only by a proper ending of what is left. -/
theorem Starless.rest (hw : Starless w) {v rest : List α} (hlength : v.length = w.length) (hword : a :: x = v ++ rest)
    (hx : x ∈ languageOf (many :: (w ++ mask))) : ∃ y, y <:+ rest ∧ y.length < rest.length ∧ y ∈ languageOf mask := by
  obtain ⟨z, hsuffix, hz⟩ := mem_many.mp hx
  have hz' : z ∈ languageOf w * languageOf mask := by
    unfold languageOf at hz ⊢
    rwa [List.map_append, List.prod_append] at hz
  obtain ⟨t, ht, y, hy, rfl⟩ := Language.mem_mul.mp hz'
  have ht' := hw.length_eq ht
  have hword' := congrArg List.length hword
  have hshort := hsuffix.length_le
  rw [List.length_cons, List.length_append] at hword'
  rw [List.length_append] at hshort
  have hy' : y <:+ v ++ rest := by
    rw [← hword]
    exact ((List.suffix_append t y).trans hsuffix).trans (List.suffix_cons a x)
  have hlt : y.length < rest.length := by omega
  exact ⟨y, List.suffix_of_suffix_length_le hy' (List.suffix_append v rest) (by omega), hlt, hy⟩

/-- What could be met further back can be met from the star behind it on: the stars before the last
one need not be kept. -/
theorem Starless.forget (hw : Starless w) {v rest : List α}
    (hlength : v.length = w.length) (hword : a :: x = v ++ rest)
    (hx : x ∈ languageOf (many :: (w ++ many :: mask))) : rest ∈ languageOf (many :: mask) := by
  obtain ⟨y, hsuffix, -, hy⟩ := hw.rest hlength hword hx
  obtain ⟨z, hz, hmem⟩ := mem_many.mp hy
  exact mem_many.mpr ⟨z, hz.trans hsuffix, hmem⟩

end Glob

end Lib
