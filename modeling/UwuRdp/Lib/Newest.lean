import Mathlib.Algebra.Order.Ring.Nat
import Mathlib.Data.List.Basic

/-!
# The newest of a list

A queue that drops its oldest entries holds the longest end of what went in that it has room for. Cutting what
is added, cutting the sum, or cutting both is the same.
-/

namespace Lib

variable {α : Type} {n : ℕ} {l l' s : List α}

def newest (n : ℕ) (l : List α) : List α := l.drop (l.length - n)

def LongestEnd (n : ℕ) (l s : List α) : Prop := s <:+ l ∧ s.length ≤ n ∧ ∀ t, t <:+ l → t.length ≤ n → t <:+ s

theorem length_newest (n : ℕ) (l : List α) : (newest n l).length = min n l.length := by
  unfold newest
  rw [List.length_drop]
  omega

theorem newest_of_le (h : l.length ≤ n) : newest n l = l := by
  unfold newest
  rw [Nat.sub_eq_zero_of_le h, List.drop_zero]

theorem longestEnd_newest (n : ℕ) (l : List α) : LongestEnd n l (newest n l) := by
  refine ⟨List.drop_suffix _ l, by rw [length_newest]; exact Nat.min_le_left _ _, fun t ht hlen => ?_⟩
  apply List.suffix_of_suffix_length_le ht (List.drop_suffix _ l)
  rw [List.length_drop]
  have hle := ht.length_le
  omega

theorem newest_append (n : ℕ) (l l' : List α) : newest n (l ++ l') = newest (n - l'.length) l ++ newest n l' := by
  unfold newest
  rw [List.drop_append, List.length_append]
  congr 1
  · rcases Nat.le_total l'.length n with hle | hge
    · congr 1
      omega
    · rw [List.drop_eq_nil_of_le (by omega), List.drop_eq_nil_of_le (by omega)]
  · congr 1
    omega

theorem newest_append_newest (n : ℕ) (l l' : List α) : newest n (l ++ newest n l') = newest n (l ++ l') := by
  rcases Nat.le_total l'.length n with hle | hge
  · rw [newest_of_le hle]
  · have hlen : (newest n l').length = n := by rw [length_newest, Nat.min_eq_left hge]
    rw [newest_append, newest_append, hlen, Nat.sub_eq_zero_of_le hge, Nat.sub_self, newest_of_le hlen.le]

theorem newest_newest_append (n : ℕ) (l l' : List α) : newest n (newest n l ++ l') = newest n (l ++ l') := by
  rw [newest_append, newest_append]
  congr 1
  unfold newest
  rw [List.drop_drop, List.length_drop]
  congr 1
  omega

end Lib
