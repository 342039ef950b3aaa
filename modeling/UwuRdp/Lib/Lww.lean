import Mathlib.Algebra.Order.Ring.Nat
import Mathlib.Data.List.Basic
import Mathlib.Order.Basic
import Mathlib.Order.Lattice

/-!
# Last writer wins

A cell holds nothing or a value with its version. Putting a value in replaces one with a smaller
version and is lost on any other. Whatever is put into a cell, in whatever order and however often,
it ends up with a value of the greatest version (`foldl_put_greatest`), and with the same one as
long as that version has one value (`foldl_put_eq`).
-/

namespace Lib

variable {V P : Type} [LinearOrder V]

def put (cell : Option (V × P)) (new : V × P) : Option (V × P) :=
  match cell with
  | none => some new
  | some cur => if cur.1 < new.1 then some new else some cur

/-- A cell holds a value of the greatest version among some, and nothing only if there are none. -/
def Greatest (values : V × P → Prop) : Option (V × P) → Prop
  | none => ∀ x, ¬values x
  | some x => values x ∧ ∀ y, values y → y.1 ≤ x.1

def Offered (cell : Option (V × P)) (news : List (V × P)) (x : V × P) : Prop :=
  cell = some x ∨ x ∈ news

variable {cur new : V × P} {news : List (V × P)}

theorem put_of_le (h : new.1 ≤ cur.1) : put (some cur) new = some cur :=
  if_neg (not_lt.mpr h)

theorem put_of_lt (h : cur.1 < new.1) : put (some cur) new = some new :=
  if_pos h

theorem put_greatest (cell : Option (V × P)) (new : V × P) : ∃ x, put cell new = some x ∧ (cell = some x ∨ x = new) ∧
    new.1 ≤ x.1 ∧ ∀ y, cell = some y → y.1 ≤ x.1 := by
  cases cell with
  | none => exact ⟨new, rfl, .inr rfl, le_refl _, fun y hy => by cases hy⟩
  | some cur =>
    rcases lt_or_ge cur.1 new.1 with h | h
    · exact ⟨new, put_of_lt h, .inr rfl, le_refl _, fun y hy => by cases hy; exact h.le⟩
    · exact ⟨cur, put_of_le h, .inl rfl, h, fun y hy => by cases hy; exact le_refl _⟩

theorem foldl_put_greatest (cell : Option (V × P)) (news : List (V × P)) :
    Greatest (Offered cell news) (news.foldl put cell) := by
  induction news generalizing cell with
  | nil =>
    cases cell with
    | none => exact fun x hx => hx.elim (fun h => by cases h) (fun h => absurd h (by simp))
    | some x =>
      refine ⟨.inl rfl, fun y hy => ?_⟩
      rcases hy with hy | hy
      · cases hy
        exact le_refl _
      · cases hy
  | cons new news ih =>
    obtain ⟨x, hx, hfrom, hnew, hold⟩ := put_greatest cell new
    have hg := ih (put cell new)
    rw [List.foldl_cons]
    cases hr : news.foldl put (put cell new) with
    | none =>
      rw [hr] at hg
      exact absurd (.inl hx) (hg x)
    | some z =>
      rw [hr] at hg
      obtain ⟨hz, htop⟩ := hg
      refine ⟨?_, fun y hy => ?_⟩
      · rcases hz with hz | hz
        · rw [hx] at hz
          cases hz
          rcases hfrom with h | rfl
          · exact .inl h
          · exact .inr List.mem_cons_self
        · exact .inr (List.mem_cons_of_mem new hz)
      · rcases hy with hy | hy
        · exact (hold y hy).trans (htop x (.inl hx))
        · rcases List.mem_cons.mp hy with rfl | hy
          · exact hnew.trans (htop x (.inl hx))
          · exact htop y (.inr hy)

theorem foldl_put_of_le (h : ∀ y ∈ news, y.1 ≤ cur.1) : news.foldl put (some cur) = some cur := by
  induction news with
  | nil => rfl
  | cons new news ih =>
    rw [List.foldl_cons, put_of_le (h new List.mem_cons_self)]
    exact ih fun y hy => h y (List.mem_cons_of_mem new hy)

theorem foldl_put_eq {cell : Option (V × P)} {news' : List (V × P)}
    (hsame : ∀ x, x ∈ news ↔ x ∈ news')
    (hone : ∀ x ∈ news, ∀ y ∈ news, x.1 = y.1 → (∀ z, Offered cell news z → z.1 ≤ x.1) →
      (∀ cur, cell = some cur → cur.1 < x.1) → x = y) :
    news.foldl put cell = news'.foldl put cell := by
  by_cases hstay : ∃ cur, cell = some cur ∧ ∀ y ∈ news, y.1 ≤ cur.1
  · obtain ⟨cur, rfl, hle⟩ := hstay
    rw [foldl_put_of_le hle, foldl_put_of_le fun y hy => hle y ((hsame y).mpr hy)]
  have hg := foldl_put_greatest cell news
  have hg' := foldl_put_greatest cell news'
  have hoff : ∀ x, Offered cell news' x ↔ Offered cell news x := fun x => by
    rw [Offered, Offered, hsame x]
  -- A value that comes out on top is a new one, beyond what was there.
  have hnew : ∀ x, Offered cell news x → (∀ y, Offered cell news y → y.1 ≤ x.1) →
      x ∈ news ∧ ∀ cur, cell = some cur → cur.1 < x.1 := by
    intro x hx htop
    have hbeyond : ∀ cur, cell = some cur → cur.1 < x.1 := by
      intro cur hcur
      have : ∃ y ∈ news, ¬y.1 ≤ cur.1 := by
        by_contra hn
        push Not at hn
        exact hstay ⟨cur, hcur, hn⟩
      obtain ⟨y, hy, hlt⟩ := this
      exact (not_le.mp hlt).trans_le (htop y (Or.inr hy))
    refine ⟨hx.resolve_left fun hc => ?_, hbeyond⟩
    exact lt_irrefl _ (hbeyond x hc)
  cases hr : news.foldl put cell with
  | none =>
    rw [hr] at hg
    cases hr' : news'.foldl put cell with
    | none => rfl
    | some x =>
      rw [hr'] at hg'
      exact absurd ((hoff x).mp hg'.1) (hg x)
  | some x =>
    rw [hr] at hg
    cases hr' : news'.foldl put cell with
    | none =>
      rw [hr'] at hg'
      exact absurd ((hoff x).mpr hg.1) (hg' x)
    | some y =>
      rw [hr'] at hg'
      have hy := (hoff y).mp hg'.1
      have hytop : ∀ z, Offered cell news z → z.1 ≤ y.1 := fun z hz => hg'.2 z ((hoff z).mpr hz)
      have hxy : x.1 = y.1 := le_antisymm (hytop x hg.1) (hg.2 y hy)
      obtain ⟨hxm, hxb⟩ := hnew x hg.1 hg.2
      rw [hone x hxm y (hnew y hy hytop).1 hxy hg.2 hxb]

end Lib
