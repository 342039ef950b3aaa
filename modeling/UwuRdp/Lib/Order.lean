import Mathlib.Algebra.Order.Ring.Nat
import Mathlib.Data.List.Perm.Basic
import Mathlib.Data.List.Sort
import Mathlib.Data.List.TakeWhile

/-!
# Putting in order

An element put before another one, or at the end; and lists whose elements are numbered by their
places. Whatever order elements with those numbers are found in, sorting them by number gives the
list back.
-/

namespace Lib

variable {α β : Type}

/-! ## Before another one -/

section PutBefore

variable [DecidableEq α]

/-- An element put directly before another one, or at the end. -/
def putBefore (rest : List α) (x : α) : Option α → List α
  | none => rest ++ [x]
  | some b => rest.takeWhile (· ≠ b) ++ x :: rest.dropWhile (· ≠ b)

theorem putBefore_perm (rest : List α) (x : α) (before : Option α) : (putBefore rest x before).Perm (x :: rest) := by
  cases before with
  | none => exact List.perm_append_singleton x rest
  | some b =>
    refine List.perm_middle.trans ?_
    rw [List.takeWhile_append_dropWhile]

variable {rest : List α} {x : α}

theorem mem_putBefore {y : α} {before : Option α} : y ∈ putBefore rest x before ↔ y = x ∨ y ∈ rest := by
  rw [(putBefore_perm rest x before).mem_iff, List.mem_cons]

theorem nodup_putBefore (hrest : rest.Nodup) (hx : x ∉ rest) (before : Option α) : (putBefore rest x before).Nodup :=
  (putBefore_perm rest x before).nodup_iff.mpr (List.nodup_cons.mpr ⟨hx, hrest⟩)

theorem putBefore_of_not_mem {b : α} (h : b ∉ rest) (x : α) : putBefore rest x (some b) = putBefore rest x none := by
  have hne : ∀ y ∈ rest, (decide (y ≠ b)) = true := fun y hy =>
    decide_eq_true fun he => h (he ▸ hy)
  rw [putBefore, putBefore, List.takeWhile_eq_self_iff.mpr hne, List.dropWhile_eq_nil_iff.mpr hne]

theorem insertIdx_eq_putBefore (rest : List α) (x : α) (before : Option α) : rest.insertIdx
    ((before.bind fun b => rest.findIdx? fun y => y = b).getD rest.length) x = putBefore rest x before := by
  cases before with
  | none => exact List.insertIdx_length_self
  | some b =>
    show rest.insertIdx ((rest.findIdx? fun y => y = b).getD rest.length) x = _
    rw [← List.findIdx_eq_getD_findIdx?]
    unfold putBefore
    induction rest with
    | nil => rfl
    | cons y rest ih =>
      rw [List.findIdx_cons]
      by_cases hy : y = b
      · simp [hy]
      · simp only [hy, decide_false, cond_false]
        rw [List.insertIdx_succ_cons, ih, List.takeWhile_cons_of_pos (by simpa using hy),
          List.dropWhile_cons_of_pos (by simpa using hy), List.cons_append]

end PutBefore

/-! ## Numbered by place -/

def places (l : List α) : List (α × ℤ) := l.zipIdx.map fun e => (e.1, (e.2 : ℤ))

theorem map_fst_places (l : List α) : (places l).map Prod.fst = l := by
  rw [places, List.map_map]
  exact List.zipIdx_map_fst 0 l

variable {l : List α}

theorem mem_places {a : α} {n : ℤ} : (a, n) ∈ places l ↔ ∃ k : ℕ, l[k]? = some a ∧ n = k := by
  unfold places
  rw [List.mem_map]
  constructor
  · rintro ⟨⟨b, k⟩, hm, he⟩
    cases he
    exact ⟨k, List.mem_zipIdx_iff_getElem?.mp hm, rfl⟩
  · rintro ⟨k, hk, rfl⟩
    exact ⟨(a, k), List.mem_zipIdx_iff_getElem?.mpr hk, rfl⟩

theorem places_pairwise (l : List α) : (places l).Pairwise fun a b => a.2 < b.2 := by
  have hnum : ((places l).map Prod.snd).Pairwise (· < ·) := by
    have hrange : (places l).map Prod.snd = (List.range' 0 l.length).map fun n : ℕ => (n : ℤ) := by
      rw [places, List.map_map, ← List.zipIdx_map_snd 0 l, List.map_map]
      rfl
    have hlt : (List.range' 0 l.length).Pairwise (· < ·) := List.pairwise_lt_range'
    rw [hrange, List.pairwise_map]
    exact hlt.imp fun h => Int.ofNat_lt.mpr h
  exact List.pairwise_map.mp hnum

theorem eq_places {found : List (α × ℤ)} (hl : l.Nodup) (hnodup : (found.map Prod.fst).Nodup)
    (hmem : ∀ e, e ∈ found ↔ e ∈ places l) (hsorted : found.Pairwise fun a b => a.2 ≤ b.2) : found = places l := by
  have hperm : found.Perm (places l) := by
    refine (List.perm_ext_iff_of_nodup hnodup.of_map ?_).mpr hmem
    have hplaces : ((places l).map Prod.fst).Nodup := by rw [map_fst_places]; exact hl
    exact hplaces.of_map
  refine hperm.eq_of_pairwise (fun a b ha hb hab hba => ?_) hsorted ((places_pairwise l).imp fun h => le_of_lt h)
  -- Both are in the list, at one place.
  have ha := (hmem a).mp ha
  have heq : a.2 = b.2 := le_antisymm hab hba
  obtain ⟨k, hk, hka⟩ := mem_places.mp ha
  obtain ⟨m, hm, hmb⟩ := mem_places.mp hb
  have hkm : k = m := by
    rw [hka, hmb] at heq
    exact Int.ofNat_inj.mp heq
  subst hkm
  rw [hk] at hm
  exact Prod.ext (Option.some.inj hm) heq

end Lib
