import Mathlib.Algebra.Order.Ring.Nat
import Mathlib.Logic.Basic

/-!
# Actions

An action changes a state step by step and may fail on the way; unlike a transaction, what it did
before it failed stays done. So a rule about an action has two conclusions, one for the state it
leaves when it goes through and one for the state it leaves when it fails.
-/

namespace Lib

/-- An action on a state: its answer or an error, and the state it leaves either way. -/
def Act (σ ε α : Type) : Type := σ → Except ε α × σ

namespace Act

variable {σ ε α β : Type}

instance : Monad (Act σ ε) where
  pure a := fun s => (.ok a, s)
  bind m f := fun s =>
    match m s with
    | (.ok a, s') => f a s'
    | (.error e, s') => (.error e, s')

def get : Act σ ε σ := fun s => (.ok s, s)

def modify (f : σ → σ) : Act σ ε Unit := fun s => (.ok (), f s)

def fail (e : ε) : Act σ ε α := fun s => (.error e, s)

def ofExcept : Except ε α → Act σ ε α
  | .ok a => pure a
  | .error e => fail e

/-! ## Inversion -/

variable {s s' : σ} {a : α} {e : ε}

variable {f : α → Act σ ε β}

theorem bind_eq_ok {m : Act σ ε α} {b : β} :
    (m >>= f) s = (.ok b, s') ↔ ∃ a s₁, m s = (.ok a, s₁) ∧ f a s₁ = (.ok b, s') := by
  show (match m s with | (.ok a, s') => f a s' | (.error e, s') => (.error e, s')) = _ ↔ _
  cases h : m s with
  | mk r s₁ =>
    cases r with
    | ok a =>
      constructor
      · exact fun hf => ⟨a, s₁, rfl, hf⟩
      · rintro ⟨a', s', hm, hf⟩
        cases hm
        exact hf
    | error e =>
      constructor
      · intro hf
        cases hf
      · rintro ⟨a, s', hm, -⟩
        cases hm

theorem bind_of_ok {m : Act σ ε α} (h : m s = (.ok a, s')) : (m >>= f) s = f a s' := by
  show (match m s with | (.ok a, s') => f a s' | (.error e, s') => (.error e, s')) = _
  rw [h]

theorem bind_of_error {m : Act σ ε α} (h : m s = (.error e, s')) : (m >>= f) s = (.error e, s') := by
  show (match m s with | (.ok a, s') => f a s' | (.error e, s') => (.error e, s')) = _
  rw [h]

theorem bind_congr {m : Act σ ε α} {g : α → Act σ ε β}
    (h : ∀ a s', m s = (.ok a, s') → f a s' = g a s') : (m >>= f) s = (m >>= g) s := by
  show (match m s with | (.ok a, s') => f a s' | (.error e, s') => (.error e, s')) =
    match m s with | (.ok a, s') => g a s' | (.error e, s') => (.error e, s')
  split
  · next a s' hm => exact h a s' hm
  · rfl

theorem pure_eq_ok {b : α} : (pure a : Act σ ε α) s = (.ok b, s') ↔ b = a ∧ s' = s := by
  show (Except.ok a, s) = _ ↔ _
  simp only [Prod.mk.injEq, Except.ok.injEq]
  exact ⟨fun h => ⟨h.1.symm, h.2.symm⟩, fun h => ⟨h.1.symm, h.2.symm⟩⟩

@[simp] theorem get_bind (f : σ → Act σ ε β) (s : σ) : (get >>= f) s = f s s := rfl

@[simp] theorem modify_bind (g : σ → σ) (f : Unit → Act σ ε β) (s : σ) :
    (modify g >>= f) s = f () (g s) := rfl

/-! ## Rules -/

/-- Started where `P` holds, an action leaves `Q` if it goes through and `E` if it fails. -/
def Ends (P : σ → Prop) (m : Act σ ε α) (Q : α → σ → Prop) (E : ε → σ → Prop) : Prop :=
  ∀ s, P s → match m s with
    | (.ok a, s') => Q a s'
    | (.error e, s') => E e s'

variable {P P' : σ → Prop} {Q Q' : α → σ → Prop} {E E' : ε → σ → Prop} {m : Act σ ε α}

theorem Ends.of_ok (h : Ends P m Q E) (hs : P s) (hm : m s = (.ok a, s')) : Q a s' := by
  have h' := h s hs
  rw [hm] at h'
  exact h'

theorem Ends.of_error (h : Ends P m Q E) (hs : P s) (hm : m s = (.error e, s')) : E e s' := by
  have h' := h s hs
  rw [hm] at h'
  exact h'

theorem Ends.always {K : σ → Prop} (h : Ends P m (fun _ => K) fun _ => K) (hs : P s) : K (m s).2 := by
  have h' := h s hs
  split at h'
  · next a s' hm =>
    rw [hm]
    exact h'
  · next e s' hm =>
    rw [hm]
    exact h'

theorem Ends.track (h : Ends (· = s) m Q E) : Ends (· = s) m (fun a s' => Q a s' ∧ m s = (.ok a, s')) E := by
  rintro s' rfl
  have h' := h s' rfl
  split at h'
  · next a s'' hm => exact ⟨h', hm⟩
  · exact h'

theorem Ends.conseq (h : Ends P m Q E) (hP : ∀ s, P' s → P s) (hQ : ∀ a s, Q a s → Q' a s)
    (hE : ∀ e s, E e s → E' e s) : Ends P' m Q' E' := by
  intro s hs
  have h' := h s (hP s hs)
  split
  · next a s' hm =>
    rw [hm] at h'
    exact hQ a s' h'
  · next e s' hm =>
    rw [hm] at h'
    exact hE e s' h'

theorem Ends.pure (h : ∀ s, P s → Q a s) : Ends P (pure a : Act σ ε α) Q E := h

theorem Ends.get {Q : σ → σ → Prop} (h : ∀ s, P s → Q s s) : Ends P (get : Act σ ε σ) Q E := h

theorem Ends.get_bind {Q : β → σ → Prop} {f : σ → Act σ ε β} {E : ε → σ → Prop}
    (h : ∀ s, P s → Ends (· = s) (f s) Q E) : Ends P (Act.get >>= f) Q E :=
  fun s hs => h s hs s rfl

theorem Ends.modify {f : σ → σ} {Q : Unit → σ → Prop} (h : ∀ s, P s → Q () (f s)) :
    Ends P (modify f : Act σ ε Unit) Q E := h

theorem Ends.fail (h : ∀ s, P s → E e s) : Ends P (fail e : Act σ ε α) Q E := h

theorem Ends.bind {R : α → σ → Prop} {Q : β → σ → Prop}
    (hm : Ends P m R E) (hf : ∀ a, Ends (R a) (f a) Q E) : Ends P (m >>= f) Q E := by
  intro s hs
  have h' := hm s hs
  show match (match m s with | (.ok a, s') => f a s' | (.error e, s') => (.error e, s')) with
    | (.ok a, s') => Q a s'
    | (.error e, s') => E e s'
  split at h'
  · next a s' h => exact hf a s' h'
  · exact h'

theorem Ends.ite {c : Prop} [Decidable c] {m' : Act σ ε α} (ht : c → Ends P m Q E)
    (hf : ¬c → Ends P m' Q E) : Ends P (if c then m else m') Q E := by
  split
  · next h => exact ht h
  · next h => exact hf h

end Act

end Lib
