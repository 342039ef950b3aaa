import UwuRdp.Lib.Tx

/-!
# Transactions that go through

`Ensures` says nothing of a transaction that fails. `Completes P m Q` also says that it does not:
started where `P` holds, `m` commits and leaves `Q`. The rules take it apart the same way, and a loop
is given its invariant by what it has been through so far.
-/

namespace Lib

namespace Tx

variable {σ ε α β : Type}

theorem require_bind_of {c : Prop} [Decidable c] {e : ε} {f : Unit → Tx σ ε β} (h : c) (s : σ) :
    (require c e >>= f) s = f () s := by
  rw [require, if_pos h]
  rfl

/-- Started where `P` holds, a transaction commits and leaves `Q`. -/
def Completes (P : σ → Prop) (m : Tx σ ε α) (Q : α → σ → Prop) : Prop :=
  ∀ s, P s → ∃ a s', m s = .ok (a, s') ∧ Q a s'

variable {P P' : σ → Prop} {Q Q' : α → σ → Prop} {m : Tx σ ε α}

namespace Completes

theorem conseq (h : Completes P m Q) (hP : ∀ s, P' s → P s) (hQ : ∀ a s, Q a s → Q' a s) : Completes P' m Q' := by
  intro s hs
  obtain ⟨a, s', hm, hq⟩ := h s (hP s hs)
  exact ⟨a, s', hm, hQ a s' hq⟩

theorem pure (a : α) (h : ∀ s, P s → Q a s) : Completes P (pure a : Tx σ ε α) Q :=
  fun s hs => ⟨a, s, rfl, h s hs⟩

theorem bind {R : α → σ → Prop} {Q : β → σ → Prop} {f : α → Tx σ ε β} (hm : Completes P m R)
    (hf : ∀ a, Completes (R a) (f a) Q) : Completes P (m >>= f) Q := by
  intro s hs
  obtain ⟨a, s₁, h₁, hr⟩ := hm s hs
  obtain ⟨b, s₂, h₂, hq⟩ := hf a s₁ hr
  exact ⟨b, s₂, (bind_of_ok h₁).trans h₂, hq⟩

theorem intro {φ : Prop} (h : φ → Completes P m Q) : Completes (fun s => P s ∧ φ) m Q :=
  fun s hs => h hs.2 s hs.1

theorem ite {c : Prop} [Decidable c] {m' : Tx σ ε α} (ht : c → Completes P m Q)
    (hf : ¬c → Completes P m' Q) : Completes P (if c then m else m') Q := by
  split
  · next h => exact ht h
  · next h => exact hf h

theorem require {c : Prop} [Decidable c] {e : ε} {Q : Unit → σ → Prop}
    (h : ∀ s, P s → c ∧ Q () s) : Completes P (require c e : Tx σ ε Unit) Q := by
  intro s hs
  refine ⟨(), s, ?_, (h s hs).2⟩
  rw [Tx.require, if_pos (h s hs).1]
  rfl

theorem forM {l : List α} {f : α → Tx σ ε PUnit} {I : List α → σ → Prop}
    (h : ∀ done a rest, l = done ++ a :: rest → Completes (I done) (f a) fun _ => I (done ++ [a])) :
    Completes (I []) (l.forM f) fun _ => I l := by
  have hfrom : ∀ rest done, l = done ++ rest → Completes (I done) (rest.forM f) fun _ => I l := by
    intro rest
    induction rest with
    | nil =>
      intro done hl
      rw [List.append_nil] at hl
      subst hl
      exact pure _ fun _ hs => hs
    | cons a rest ih =>
      intro done hl
      exact bind (h done a rest hl) fun _ => ih (done ++ [a]) (by rw [hl, List.append_assoc]; rfl)
  exact hfrom l [] rfl

end Completes

/-! ## Where a transaction leads -/

/-- What a transaction leaves when it commits is related to what it started from. -/
def Along (R : σ → σ → Prop) (m : Tx σ ε α) : Prop := ∀ s a s', m s = .ok (a, s') → R s s'

namespace Along

variable {R : σ → σ → Prop}

theorem pure (hrefl : ∀ s, R s s) (a : α) : Along R (pure a : Tx σ ε α) := by
  intro s b s' h
  obtain ⟨rfl, rfl⟩ := pure_eq_ok.mp h
  exact hrefl s'

theorem bind (htrans : ∀ s s' s'', R s s' → R s' s'' → R s s'') {f : α → Tx σ ε β} (hm : Along R m)
    (hf : ∀ a, Along R (f a)) : Along R (m >>= f) := by
  intro s b s' h
  obtain ⟨a, s₁, h₁, h₂⟩ := bind_eq_ok.mp h
  exact htrans s s₁ s' (hm s a s₁ h₁) (hf a s₁ b s' h₂)

theorem keeps {φ : σ → Prop} (h : Along R m) (hφ : ∀ s s', R s s' → φ s → φ s') : Ensures φ m fun _ => φ :=
  fun s hs a s' hm => hφ s s' (h s a s' hm) hs

theorem loop (hrefl : ∀ s, R s s) (htrans : ∀ s s' s'', R s s' → R s' s'' → R s s'') {l : List α}
    {f : α → Tx σ ε PUnit} (hf : ∀ a ∈ l, Along R (f a)) : Along R (l.forM f) := by
  induction l with
  | nil => exact pure hrefl _
  | cons a l ih =>
    obtain ⟨ha, hl⟩ := List.forall_mem_cons.mp hf
    exact bind htrans ha fun _ => ih hl

theorem forM {l : List α} {f : α → Tx σ ε PUnit} {φ : α → σ → Prop} (hf : ∀ a ∈ l, Along R (f a))
    (hφ : ∀ a s s', R s s' → φ a s → φ a s') (hset : ∀ a ∈ l, Ensures (fun _ => True) (f a) fun _ => φ a) :
    Ensures (fun _ => True) (l.forM f) fun _ s => ∀ a ∈ l, φ a s := by
  have hkeep : ∀ rest : List α, (∀ b ∈ rest, Along R (f b)) → ∀ a, Ensures (φ a) (rest.forM f) fun _ => φ a :=
    fun rest hrest a => Ensures.forM fun b hb => (hrest b hb).keeps (hφ a)
  induction l with
  | nil => exact Ensures.pure _ fun _ _ a ha => absurd ha List.not_mem_nil
  | cons a l ih =>
    obtain ⟨ha, hl⟩ := List.forall_mem_cons.mp hf
    obtain ⟨hsa, hsl⟩ := List.forall_mem_cons.mp hset
    refine Ensures.bind hsa fun _ => ?_
    refine ((hkeep l hl a).and (ih hl hsl)).conseq (fun s hs => ⟨hs, trivial⟩) fun _ s hs => ?_
    exact List.forall_mem_cons.mpr hs

end Along

end Tx

end Lib
