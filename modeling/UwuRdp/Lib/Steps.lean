import Mathlib.Algebra.Order.Ring.Nat
import Mathlib.Logic.Basic

/-!
# Runs

A machine takes moves one after the other. A condition on its moves may look at the state each move
is made in: `Along` says that every move of a run meets it, and an invariant that such moves keep
holds wherever the run gets to.
-/

namespace Lib.Steps

variable {σ μ : Type} (step : σ → μ → σ)

def run (s : σ) (moves : List μ) : σ := moves.foldl step s

/-- Every move of a run meets a condition where it is made. -/
def Along (P : σ → μ → Prop) : σ → List μ → Prop
  | _, [] => True
  | s, m :: moves => P s m ∧ Along P (step s m) moves

instance decidableAlong (P : σ → μ → Prop) [∀ s m, Decidable (P s m)] :
    ∀ (s : σ) (moves : List μ), Decidable (Along step P s moves)
  | _, [] => isTrue trivial
  | s, m :: moves => @instDecidableAnd _ _ _ (decidableAlong P (step s m) moves)

variable {step}

@[simp] theorem run_nil (s : σ) : run step s [] = s := rfl

@[simp] theorem run_cons (s : σ) (m : μ) (moves : List μ) :
    run step s (m :: moves) = run step (step s m) moves := rfl

theorem run_append (s : σ) (first later : List μ) :
    run step s (first ++ later) = run step (run step s first) later := List.foldl_append

variable {P Q : σ → μ → Prop} {s : σ} {m : μ} {moves first later : List μ}

theorem along_append :
    Along step P s (first ++ later) ↔ Along step P s first ∧ Along step P (run step s first) later := by
  induction first generalizing s with
  | nil => exact ⟨fun h => ⟨trivial, h⟩, And.right⟩
  | cons m first ih =>
    show P s m ∧ Along step P (step s m) (first ++ later) ↔
      (P s m ∧ Along step P (step s m) first) ∧ Along step P (run step (step s m) first) later
    rw [ih, and_assoc]

theorem Along.at (h : Along step P s (first ++ m :: later)) : P (run step s first) m :=
  (along_append.mp h).2.1

theorem Along.before (h : Along step P s (first ++ later)) : Along step P s first :=
  (along_append.mp h).1

theorem Along.invariant {I : σ → Prop} (h : Along step P s moves) (hs : I s)
    (hstep : ∀ s m, I s → P s m → I (step s m)) : I (run step s moves) := by
  induction moves generalizing s with
  | nil => exact hs
  | cons m moves ih => exact ih h.2 (hstep s m hs h.1)

theorem Along.mono {I : σ → Prop} (h : Along step P s moves) (hs : I s) (hstep : ∀ s m, I s → P s m → I (step s m))
    (himp : ∀ s m, I s → P s m → Q s m) : Along step Q s moves := by
  induction moves generalizing s with
  | nil => trivial
  | cons m moves ih => exact ⟨himp s m hs h.1, ih h.2 (hstep s m hs h.1)⟩

theorem Along.imp (h : Along step P s moves) (himp : ∀ s m, P s m → Q s m) : Along step Q s moves :=
  h.mono (I := fun _ => True) trivial (fun _ _ _ _ => trivial) fun s m _ => himp s m

theorem along_iff {I G : σ → Prop} (hgood : ∀ s, I s → G s) (hstep : ∀ s m, I s → P s m → I (step s m))
    (hbad : ∀ s m, I s → ¬P s m → ¬G (step s m)) (hs : I s) :
    Along step P s moves ↔ ∀ first later, moves = first ++ later → G (run step s first) := by
  induction moves generalizing s with
  | nil =>
    refine ⟨fun _ first later h => ?_, fun _ => trivial⟩
    obtain ⟨rfl, -⟩ := List.append_eq_nil_iff.mp h.symm
    exact hgood s hs
  | cons m moves ih =>
    constructor
    · rintro ⟨hm, hmoves⟩ first later h
      cases first with
      | nil => exact hgood s hs
      | cons m' first =>
        obtain ⟨rfl, hrest⟩ := List.cons.inj h
        exact (ih (hstep s m hs hm)).mp hmoves first later hrest
    · intro h
      have hm : P s m := Classical.byContradiction fun hm => hbad s m hs hm (h [m] moves rfl)
      refine ⟨hm, (ih (hstep s m hs hm)).mpr fun first later hmoves => ?_⟩
      exact h (m :: first) later (by rw [hmoves, List.cons_append])

theorem along_of_forall (h : ∀ s m, P s m) (s : σ) (moves : List μ) : Along step P s moves := by
  induction moves generalizing s with
  | nil => trivial
  | cons m moves ih => exact ⟨h s m, ih _⟩

/-! ## What has been -/

section Since

variable (A K : List μ → μ → Prop)

/-- A move of a history did `A`, and all later ones kept `K`: both say what a move is after what was before it. -/
def Since (history : List μ) : Prop :=
  ∃ first m later, history = first ++ m :: later ∧ A first m ∧
    ∀ mid x rest, later = mid ++ x :: rest → K (first ++ m :: mid) x

variable {A K}

theorem not_since_nil : ¬Since A K [] := by
  rintro ⟨first, m, later, h, -⟩
  simp at h

theorem since_concat {history : List μ} {x : μ} :
    Since A K (history ++ [x]) ↔ A history x ∨ K history x ∧ Since A K history := by
  constructor
  · rintro ⟨first, m, later, h, hA, hK⟩
    rcases later.eq_nil_or_concat with rfl | ⟨later, y, rfl⟩
    · obtain ⟨rfl, hx⟩ := List.append_inj' h rfl
      obtain ⟨rfl, -⟩ := List.cons.inj hx
      exact .inl hA
    · obtain ⟨rfl, hx⟩ := List.append_inj' (h.trans (by simp : _ = (first ++ m :: later) ++ [y])) rfl
      obtain ⟨rfl, -⟩ := List.cons.inj hx
      refine .inr ⟨hK later x [] List.concat_eq_append, first, m, later, rfl, hA, fun mid z rest hmid => ?_⟩
      exact hK mid z (rest ++ [x]) (by simp [hmid])
  · rintro (hA | ⟨hx, first, m, later, rfl, hA, hK⟩)
    · exact ⟨history, x, [], rfl, hA, fun mid y rest h => by simp at h⟩
    · refine ⟨first, m, later ++ [x], by simp, hA, fun mid y rest h => ?_⟩
      rcases rest.eq_nil_or_concat with rfl | ⟨rest, z, rfl⟩
      · obtain ⟨rfl, hy⟩ := List.append_inj' h rfl
        obtain ⟨rfl, -⟩ := List.cons.inj hy
        exact hx
      · obtain ⟨hlater, -⟩ := List.append_inj' (h.trans (by simp : _ = (mid ++ y :: rest) ++ [z])) rfl
        exact hK mid y rest hlater

end Since

end Lib.Steps
