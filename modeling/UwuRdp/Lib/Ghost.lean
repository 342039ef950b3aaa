import UwuRdp.Lib.Tx

/-!
# Ghost state

A transaction may keep a second state next to the one it works on, which it writes and never reads:
a record of what it did. Taking the record away leaves the transaction it was added to.
-/

namespace Lib

namespace Tx

variable {σ τ ε α β : Type}

def lift (m : Tx σ ε α) : Tx (σ × τ) ε α := fun s =>
  match m s.1 with
  | .ok (a, s') => .ok (a, (s', s.2))
  | .error e => .error e

def note (f : τ → τ) : Tx (σ × τ) ε Unit := modify fun s => (s.1, f s.2)

variable {m : Tx σ ε α} {a : α} {m' : Tx (σ × τ) ε α}

theorem lift_eq_ok {s s' : σ × τ} : lift m s = .ok (a, s') ↔ m s.1 = .ok (a, s'.1) ∧ s'.2 = s.2 := by
  unfold lift
  cases h : m s.1 with
  | error e =>
    constructor
    · intro h'
      cases h'
    · rintro ⟨h', -⟩
      cases h'
  | ok r =>
    obtain ⟨b, s₁⟩ := r
    constructor
    · intro h'
      cases h'
      exact ⟨rfl, rfl⟩
    · rintro ⟨h', h₂⟩
      cases h'
      rw [← h₂]

/-! ## Taking the record away -/

/-- Without its record, `m'` is `m`. -/
def Erases (m' : Tx (σ × τ) ε α) (m : Tx σ ε α) : Prop :=
  ∀ s t, m s = (m' (s, t)).map fun r => (r.1, r.2.1)

theorem Erases.lift (m : Tx σ ε α) : Erases (lift m : Tx (σ × τ) ε α) m := by
  intro s t
  show m s = Except.map _ (match m s with
    | .ok (a, s') => .ok (a, (s', t))
    | .error e => .error e)
  cases m s <;> rfl

theorem Erases.pure (a : α) : Erases (pure a : Tx (σ × τ) ε α) (pure a) := fun _ _ => rfl

theorem Erases.fail (e : ε) : Erases (fail e : Tx (σ × τ) ε α) (fail e) := fun _ _ => rfl

theorem Erases.bind {f' : α → Tx (σ × τ) ε β} {f : α → Tx σ ε β}
    (hm : Erases m' m) (hf : ∀ a, Erases (f' a) (f a)) : Erases (m' >>= f') (m >>= f) := by
  intro s t
  rcases hr : m' (s, t) with e | ⟨a, s', t'⟩
  · have hm' : m s = .error e := by rw [hm s t, hr]; rfl
    rw [bind_of_error hm', bind_of_error hr]
    rfl
  · have hm' : m s = .ok (a, s') := by rw [hm s t, hr]; rfl
    rw [bind_of_ok hm', bind_of_ok hr]
    exact hf a s' t'

theorem Erases.noted (m : Tx σ ε α) (g : α → τ → τ) :
    Erases (Tx.lift m >>= fun a => note (g a) >>= fun _ => Pure.pure a) m := by
  intro s t
  rcases hm : m s with e | ⟨a, s'⟩
  · have hl : (Tx.lift m : Tx (σ × τ) ε α) (s, t) = .error e := by
      unfold Tx.lift
      rw [hm]
    rw [bind_of_error hl]
    rfl
  · have hl : (Tx.lift m : Tx (σ × τ) ε α) (s, t) = .ok (a, (s', t)) := lift_eq_ok.mpr ⟨hm, rfl⟩
    rw [bind_of_ok hl]
    rfl

theorem Erases.forM {l : List α} {f' : α → Tx (σ × τ) ε PUnit} {f : α → Tx σ ε PUnit}
    (h : ∀ a, Erases (f' a) (f a)) : Erases (l.forM f') (l.forM f) := by
  induction l with
  | nil => exact .pure _
  | cons a l ih => exact .bind (h a) fun _ => ih

theorem Erases.of_ok (h : Erases m' m) {s s' : σ}
    (hm : m s = .ok (a, s')) (t : τ) : ∃ t', m' (s, t) = .ok (a, (s', t')) := by
  rw [h s t] at hm
  rcases hr : m' (s, t) with e | ⟨b, s₁, t'⟩
  · rw [hr] at hm
    cases hm
  · rw [hr] at hm
    cases hm
    exact ⟨t', rfl⟩

/-! ## Loops -/

theorem Ensures.forM_done {P : List α → σ → Prop} {f : α → Tx σ ε PUnit} {l done : List α}
    (h : ∀ done a, Ensures (P done) (f a) fun _ => P (done ++ [a])) :
    Ensures (P done) (l.forM f) fun _ => P (done ++ l) := by
  induction l generalizing done with
  | nil =>
    rw [List.append_nil]
    exact Ensures.pure _ fun _ hs => hs
  | cons a l ih =>
    refine Ensures.bind (h done a) fun _ => ?_
    have hl := @ih (done ++ [a])
    rwa [List.append_assoc, List.singleton_append] at hl

end Tx

end Lib
