import Mathlib.Algebra.BigOperators.Group.List.Basic
import Mathlib.Algebra.Order.Ring.Nat
import Mathlib.Data.List.Basic

/-!
# Ranges of a file

A range is where it starts and how long it is. What is counted of ranges and adds up when one is cut in
two, such as how often they hit a place, is counted of lists of them. A file is written at any place;
what it skips is zero.
-/

namespace Lib.Ranges

abbrev Range := ℕ × ℕ

def Additive (w : Range → ℕ) : Prop :=
  ∀ start len k, k ≤ len → w (start, len) = w (start, k) + w (start + k, len - k)

def hits (p : ℕ) (r : Range) : ℕ := if r.1 ≤ p ∧ p < r.1 + r.2 then 1 else 0

variable {w : Range → ℕ} {p start len : ℕ} {r : Range} {rs : List Range}

theorem additive_hits (p : ℕ) : Additive (hits p) := by
  intro start len k hk
  unfold hits
  dsimp only
  split <;> split <;> split <;> omega

theorem additive_length : Additive Prod.snd := by
  intro start len k hk
  dsimp only
  omega

theorem Additive.empty (h : Additive w) (start : ℕ) : w (start, 0) = 0 := by
  have h0 := h start 0 0 (Nat.le_refl 0)
  rw [Nat.add_zero, Nat.sub_zero] at h0
  omega

theorem hits_pos (h : start ≤ p ∧ p < start + len) : hits p (start, len) = 1 := if_pos h

theorem hits_of_pos (h : 0 < hits p r) : r.1 ≤ p ∧ p < r.1 + r.2 := by
  unfold hits at h
  split at h
  · next hin => exact hin
  · cases h

theorem hits_le_one (p : ℕ) (r : Range) : hits p r ≤ 1 := by
  unfold hits
  split <;> omega

/-! ## Lists of ranges -/

def count (w : Range → ℕ) (rs : List Range) : ℕ := (rs.map w).sum

@[simp] theorem count_nil : count w [] = 0 := rfl

@[simp] theorem count_append (rs rs' : List Range) : count w (rs ++ rs') = count w rs + count w rs' := by
  unfold count
  rw [List.map_append, List.sum_append]

@[simp] theorem count_singleton (r : Range) : count w [r] = w r := by
  unfold count
  rw [List.map_singleton, List.sum_singleton]

/-! ## Files -/

/-- Put bytes at a place of a file; it grows where they reach past its end. -/
def writeAt {α : Type} (zero : α) (file : List α) (start : ℕ) (data : List α) : List α :=
  (file ++ List.replicate (start - file.length) zero).take start ++ (data ++ file.drop (start + data.length))

theorem getElem?_writeAt {α : Type} (zero : α) (file : List α) (start : ℕ) (data : List α) (p : ℕ) :
    (writeAt zero file start data)[p]? =
      if start ≤ p ∧ p < start + data.length then data[p - start]?
      else if p < file.length then file[p]?
      else if p < start then some zero else none := by
  have hlen : ((file ++ List.replicate (start - file.length) zero).take start).length = start := by
    rw [List.length_take, List.length_append, List.length_replicate]
    omega
  unfold writeAt
  rw [List.getElem?_append, hlen]
  split
  · next hp =>
    rw [List.getElem?_take_of_lt hp, if_neg (by omega), List.getElem?_append]
    split
    · rfl
    · next hfile => rw [List.getElem?_replicate, if_pos (by omega)]
  · next hp =>
    rw [List.getElem?_append]
    split
    · rw [if_pos (by omega)]
    · rw [if_neg (by omega), List.getElem?_drop]
      split
      · congr 1
        omega
      · next hfile => rw [List.getElem?_eq_none (by omega)]

theorem length_writeAt {α : Type} (zero : α) (file : List α) (start : ℕ) (data : List α) :
    (writeAt zero file start data).length = max file.length (start + data.length) := by
  unfold writeAt
  rw [List.length_append, List.length_append, List.length_take, List.length_append, List.length_replicate,
    List.length_drop]
  omega

end Lib.Ranges
