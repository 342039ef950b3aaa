import Mathlib.Algebra.Order.Ring.Nat
import Mathlib.Data.List.Sort

/-!
# Sorting and leaving out

Insertion sort is stable: what is left out of a list can be left out before or after sorting it. A list
that is numbered per key, each element with the number of those of its key before it, needs no
sorting among the elements of one key.
-/

namespace Lib

variable {α : Type} {r : α → α → Prop} [DecidableRel r]

theorem orderedInsert_of_forall {a : α} {l : List α} (h : ∀ b ∈ l, r a b) : l.orderedInsert r a = a :: l := by
  cases l with
  | nil => rfl
  | cons b l => exact List.orderedInsert_cons_of_le r l (h b List.mem_cons_self)

variable [IsTrans α r] {p : α → Bool}

theorem filter_orderedInsert (a : α) {l : List α} (hl : l.Pairwise r) :
    (l.orderedInsert r a).filter p =
      if p a then (l.filter p).orderedInsert r a else l.filter p := by
  induction l with
  | nil => simp only [List.orderedInsert_nil, List.filter_cons, List.filter_nil]
  | cons b l ih =>
    rw [List.pairwise_cons] at hl
    by_cases hab : r a b
    · have hall : ∀ c ∈ (b :: l).filter p, r a c := by
        intro c hc
        rcases List.mem_cons.mp (List.mem_of_mem_filter hc) with rfl | hc
        · exact hab
        · exact IsTrans.trans a b c hab (hl.1 c hc)
      rw [List.orderedInsert_cons_of_le r l hab, orderedInsert_of_forall hall, List.filter_cons]
    · rw [List.orderedInsert_of_not_le r l hab, List.filter_cons, ih hl.2, List.filter_cons]
      by_cases hb : p b
      · simp only [hb, if_true]
        split
        · rw [List.orderedInsert_of_not_le r _ hab]
        · rfl
      · simp only [hb, Bool.false_eq_true, if_false]

theorem filter_insertionSort [Std.Total r] (l : List α) :
    (l.insertionSort r).filter p = (l.filter p).insertionSort r := by
  induction l with
  | nil => rfl
  | cons a l ih =>
    rw [List.insertionSort_cons, filter_orderedInsert a (List.pairwise_insertionSort r l), List.filter_cons, ih]
    split <;> rfl

/-! ## Numbered lists -/

section Numbered

variable {κ : Type} [DecidableEq κ] {key : α → κ} {pos : α → ℤ}

/-- The elements of each key have the numbers from 0 on, in their order. -/
def Numbered (key : α → κ) (pos : α → ℤ) (l : List α) : Prop :=
  ∀ k, (l.filter fun a => key a = k).map pos =
    (List.range (l.filter fun a => key a = k).length).map fun n : ℕ => (n : ℤ)

theorem numbered_nil : Numbered key pos [] := fun _ => rfl

theorem Numbered.append {l : List α} (h : Numbered key pos l) {a : α}
    (ha : pos a = ((l.filter fun b => key b = key a).length : ℤ)) : Numbered key pos (l ++ [a]) := by
  intro k
  rw [List.filter_append]
  by_cases hk : key a = k
  · rw [List.filter_cons_of_pos (by simpa using hk), List.filter_nil, List.map_append, h k,
      List.length_append, List.length_singleton, List.range_succ, List.map_append, List.map_singleton,
      List.map_singleton, ha, hk]
  · rw [List.filter_cons_of_neg (by simpa using hk), List.filter_nil, List.append_nil]
    exact h k

theorem map_filter_key (k : κ) (l : List α) : (l.filter fun a => key a = k).map pos =
    ((l.map fun a => (key a, pos a)).filter fun p => p.1 = k).map Prod.snd := by
  rw [List.filter_map, List.map_map]
  rfl

theorem Numbered.congr {l l' : List α} (h : Numbered key pos l)
    (he : l'.map (fun a => (key a, pos a)) = l.map fun a => (key a, pos a)) : Numbered key pos l' := by
  intro k
  have hmap : (l'.filter fun a => key a = k).map pos = (l.filter fun a => key a = k).map pos := by
    refine (map_filter_key k l').trans ?_
    rw [he]
    exact (map_filter_key k l).symm
  have hlen := congrArg List.length hmap
  rw [List.length_map, List.length_map] at hlen
  rw [hmap, hlen]
  exact h k

theorem Numbered.pairwise {l : List α} (h : Numbered key pos l) (k : κ) :
    (l.filter fun a => key a = k).Pairwise fun a b => pos a < pos b := by
  have hpos : ((l.filter fun a => key a = k).map pos).Pairwise (· < ·) := by
    rw [h k, List.pairwise_map]
    exact List.pairwise_lt_range.imp fun hlt => Int.ofNat_lt.mpr hlt
  exact List.pairwise_map.mp hpos

end Numbered

end Lib
