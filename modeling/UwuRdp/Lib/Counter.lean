import Mathlib.Data.List.Perm.Subperm
import Mathlib.Logic.Function.Iterate
import UwuRdp.Lib.Table

/-!
# A counter that comes round

Numbers of 32 bits one after the other, without zero: behind the last one comes the first. Counting on
from one of them, a table with fewer rows than there are numbers has no row under one of the next.
-/

namespace Lib.Counter

def next (id : UInt32) : UInt32 := max (id + 1) 1

theorem toNat_next (id : UInt32) :
    (next id).toNat = if id.toNat = 2 ^ 32 - 1 then 1 else id.toNat + 1 := by
  have hlt := id.toNat_lt
  have hone : (1 : UInt32).toNat = 1 := rfl
  show (if id + 1 ≤ 1 then (1 : UInt32) else id + 1).toNat = _
  have hadd : (id + 1).toNat = (id.toNat + 1) % 2 ^ 32 := UInt32.toNat_add id 1
  split
  · next hle =>
    rw [UInt32.le_iff_toNat_le, hadd, hone] at hle
    rw [hone]
    split <;> omega
  · next hle =>
    rw [UInt32.le_iff_toNat_le, hadd, hone] at hle
    rw [hadd]
    split <;> omega

theorem next_pos (id : UInt32) : 0 < (next id).toNat := by
  rw [toNat_next]
  split <;> omega

variable {id : UInt32}

theorem toNat_iterate (h : 0 < id.toNat) (k : ℕ) : (next^[k] id).toNat = (id.toNat - 1 + k) % (2 ^ 32 - 1) + 1 := by
  have hlt := id.toNat_lt
  induction k with
  | zero =>
    show id.toNat = _
    omega
  | succ k ih =>
    rw [Function.iterate_succ_apply', toNat_next, ih]
    split <;> omega

theorem iterate_pos (h : 0 < id.toNat) (k : ℕ) : 0 < (next^[k] id).toNat := by
  rw [toNat_iterate h]
  exact Nat.succ_pos _

theorem iterate_ne (h : 0 < id.toNat) {k : ℕ} (hk : k + 1 < 2 ^ 32 - 1) : next^[k + 1] id ≠ id := by
  intro heq
  have hlt := id.toNat_lt
  have hcount := toNat_iterate h (k + 1)
  rw [heq] at hcount
  omega

theorem iterate_inj (h : 0 < id.toNat) {i j : ℕ} (hi : i < 2 ^ 32 - 1) (hj : j < 2 ^ 32 - 1)
    (heq : next^[i] id = next^[j] id) : i = j := by
  have hlt := id.toNat_lt
  have hi' := toNat_iterate h i
  have hj' := toNat_iterate h j
  rw [heq] at hi'
  omega

theorem lt_length {α : Type} {t : Table UInt32 α} (h : 0 < id.toNat) {k : ℕ}
    (hk : k < 2 ^ 32 - 1) (htaken : ∀ j ≤ k, t.get? (next^[j] id) ≠ none) : k < t.entries.length := by
  have hnodup : ((List.range (k + 1)).map fun j => next^[j] id).Nodup := by
    refine List.Nodup.map_on (fun i hi j hj heq => ?_) List.nodup_range
    rw [List.mem_range] at hi hj
    exact iterate_inj h (by omega) (by omega) heq
  have hsubset : ((List.range (k + 1)).map fun j => next^[j] id) ⊆ t.entries.map Prod.fst := by
    intro i hi
    obtain ⟨j, hj, rfl⟩ := List.mem_map.mp hi
    rw [List.mem_range] at hj
    by_contra hout
    exact htaken j (by omega) (Table.get?_eq_none_iff.mpr hout)
  have hlen := (List.subperm_of_subset hnodup hsubset).length_le
  rw [List.length_map, List.length_range, List.length_map] at hlen
  exact hlen

end Lib.Counter
