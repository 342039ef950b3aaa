import Mathlib.Algebra.Order.Ring.Nat
import Mathlib.Data.List.Basic

/-!
# A window on a list

Someone looks at the first `n` entries of a list and takes what suits. What does not suit stays where
it is and takes up room: an entry comes into the window, now or once those before it are taken, if
fewer than `n` unsuitable ones stand before it.
-/

namespace Lib

variable {α : Type} {p keep : α → Bool} {n : ℕ} {l : List α} {x : α}

/-- Fewer than `n` entries that do not suit stand before a place where `x` is. -/
def InReach (p : α → Bool) (n : ℕ) (l : List α) (x : α) : Prop :=
  ∃ front back, l = front ++ x :: back ∧ (front.countP fun y => !p y) < n

theorem inReach_of_mem_take (h : x ∈ l.take n) : InReach p n l x := by
  obtain ⟨front, back, hsplit⟩ := List.append_of_mem h
  refine ⟨front, back ++ l.drop n, ?_, ?_⟩
  · rw [← List.cons_append, ← List.append_assoc, ← hsplit, List.take_append_drop]
  · have hlen : (front ++ x :: back).length ≤ n := hsplit ▸ List.length_take_le n l
    rw [List.length_append, List.length_cons] at hlen
    have hcount : (front.countP fun y => !p y) ≤ front.length := List.countP_le_length
    omega

theorem exists_mem_take {front back : List α} (hx : p x = true)
    (hc : (front.countP fun y => !p y) < n) : ∃ y ∈ (front ++ x :: back).take n, p y = true := by
  induction front generalizing n with
  | nil =>
    obtain ⟨m, rfl⟩ := Nat.exists_eq_succ_of_ne_zero (Nat.pos_iff_ne_zero.mp hc)
    exact ⟨x, List.mem_cons_self, hx⟩
  | cons y front ih =>
    obtain ⟨m, rfl⟩ := Nat.exists_eq_succ_of_ne_zero (Nat.ne_of_gt (Nat.zero_lt_of_lt hc))
    rw [List.cons_append, List.take_succ_cons]
    by_cases hy : p y = true
    · exact ⟨y, List.mem_cons_self, hy⟩
    · have hrest : (front.countP fun y => !p y) < m := by
        rw [List.countP_cons_of_pos (by simpa using hy)] at hc
        exact Nat.lt_of_succ_lt_succ hc
      obtain ⟨z, hz, hp⟩ := ih hrest
      exact ⟨z, List.mem_cons_of_mem y hz, hp⟩

theorem exists_mem_take_iff : (∃ x ∈ l.take n, p x = true) ↔ ∃ x, p x = true ∧ InReach p n l x := by
  constructor
  · rintro ⟨x, hx, hp⟩
    exact ⟨x, hp, inReach_of_mem_take hx⟩
  · rintro ⟨x, hp, front, back, rfl, hc⟩
    exact exists_mem_take hp hc

theorem countP_filter_of_keep (hk : ∀ y ∈ l, p y = false → keep y = true) :
    (l.filter keep).countP (fun y => !p y) = l.countP fun y => !p y := by
  rw [List.countP_filter]
  apply List.countP_congr
  intro y hy
  cases hp : p y with
  | true => simp
  | false => simp [hk y hy hp]

theorem inReach_filter (hk : ∀ y ∈ l, p y = false → keep y = true) :
    InReach p n (l.filter keep) x ↔ keep x = true ∧ InReach p n l x := by
  constructor
  · rintro ⟨front, back, hsplit, hc⟩
    obtain ⟨l₁, l₂, rfl, h₁, h₂⟩ := List.filter_eq_append_iff.mp hsplit
    obtain ⟨gone, l₃, rfl, hgone, hx, -⟩ := List.filter_eq_cons_iff.mp h₂
    refine ⟨hx, l₁ ++ gone, l₃, by rw [List.append_assoc], ?_⟩
    have hfront : (l₁.countP fun y => !p y) = front.countP fun y => !p y := by
      rw [← h₁]
      exact (countP_filter_of_keep fun y hy => hk y (List.mem_append_left _ hy)).symm
    have hzero : (gone.countP fun y => !p y) = 0 := by
      rw [List.countP_eq_zero]
      intro y hy hp
      have hmem : y ∈ l₁ ++ (gone ++ x :: l₃) := List.mem_append_right l₁ (List.mem_append_left _ hy)
      exact hgone y hy (hk y hmem (by simpa using hp))
    rw [List.countP_append, hfront, hzero]
    exact hc
  · rintro ⟨hx, front, back, rfl, hc⟩
    refine ⟨front.filter keep, back.filter keep, ?_, ?_⟩
    · rw [List.filter_append, List.filter_cons_of_pos hx]
    · rwa [countP_filter_of_keep fun y hy => hk y (List.mem_append_left _ hy)]

end Lib
