import Mathlib.Algebra.Order.Ring.Nat
import Mathlib.Logic.Basic

/-!
# Transactions

A transaction reads and writes a state and either ends with a value and the new state, or fails and
leaves nothing behind: whoever runs it keeps the state it started from. `Ensures P m Q` says that
`m`, started where `P` holds, leaves `Q` whenever it commits; the rules below take a transaction
apart along its binds, branches and loops.
-/

namespace Lib

/-- A transaction over a state, failing with an error. -/
def Tx (σ ε α : Type) : Type := σ → Except ε (α × σ)

namespace Tx

variable {σ ε α β : Type}

instance : Monad (Tx σ ε) where
  pure a := fun s => .ok (a, s)
  bind m f := fun s =>
    match m s with
    | .ok (a, s') => f a s'
    | .error e => .error e

def read : Tx σ ε σ := fun s => .ok (s, s)

def modify (f : σ → σ) : Tx σ ε Unit := fun s => .ok ((), f s)

def fail (e : ε) : Tx σ ε α := fun _ => .error e

def require (c : Prop) [Decidable c] (e : ε) : Tx σ ε Unit := if c then pure () else fail e

def orFail (a : Option α) (e : ε) : Tx σ ε α :=
  match a with
  | some a => pure a
  | none => fail e

/-- What a run leaves behind: the new state, or the old one if it failed. -/
def commit (m : Tx σ ε α) (s : σ) : σ :=
  match m s with
  | .ok (_, s') => s'
  | .error _ => s

/-! ## Inversion -/

variable {s s' : σ} {a : α} {e : ε}

variable {f : α → Tx σ ε β} {b : β} {c : Prop} {o : Option α}

theorem bind_eq_ok {m : Tx σ ε α} : (m >>= f) s = .ok (b, s') ↔ ∃ a s₁, m s = .ok (a, s₁) ∧ f a s₁ = .ok (b, s') := by
  change (match m s with | .ok (a, s') => f a s' | .error e => .error e) = _ ↔ _
  cases h : m s with
  | ok r => exact ⟨fun hr => ⟨r.1, r.2, rfl, hr⟩, fun ⟨a, s₁, hm, hf⟩ => by cases hm; exact hf⟩
  | error e =>
    simp only [reduceCtorEq, false_iff, not_exists, not_and]
    intro a s₁ hm
    cases hm

theorem bind_of_ok {m : Tx σ ε α} (h : m s = .ok (a, s')) : (m >>= f) s = f a s' := by
  change (match m s with | .ok (a, s') => f a s' | .error e => .error e) = _
  rw [h]

theorem bind_of_error {m : Tx σ ε α} (h : m s = .error e) : (m >>= f) s = .error e := by
  change (match m s with | .ok (a, s') => f a s' | .error e => .error e) = _
  rw [h]

theorem pure_eq_ok {b : α} : (pure a : Tx σ ε α) s = .ok (b, s') ↔ b = a ∧ s' = s := by
  change Except.ok (a, s) = _ ↔ _
  simp only [Except.ok.injEq, Prod.mk.injEq]
  exact ⟨fun h => ⟨h.1.symm, h.2.symm⟩, fun h => ⟨h.1.symm, h.2.symm⟩⟩

@[simp] theorem read_bind (f : σ → Tx σ ε β) (s : σ) : (read >>= f) s = f s s := rfl

@[simp] theorem modify_bind (g : σ → σ) (f : Unit → Tx σ ε β) (s : σ) :
    (modify g >>= f) s = f () (g s) := rfl

theorem require_bind_eq_ok [Decidable c] {f : Unit → Tx σ ε β} :
    (require c e >>= f) s = .ok (b, s') ↔ c ∧ f () s = .ok (b, s') := by
  rw [bind_eq_ok]
  unfold require
  constructor
  · rintro ⟨a, s₁, h₁, h₂⟩
    split at h₁
    · next hc =>
      cases h₁
      exact ⟨hc, h₂⟩
    · cases h₁
  · rintro ⟨hc, h⟩
    exact ⟨(), s, by rw [if_pos hc]; rfl, h⟩

theorem forM_eq_ok {l : List α} {f : α → Tx σ ε PUnit} {g : σ → α → σ} {u : PUnit}
    (h : ∀ a ∈ l, ∀ s s', f a s = .ok (⟨⟩, s') → s' = g s a) (hl : l.forM f s = .ok (u, s')) :
    s' = l.foldl g s ∧ ∀ a ∈ l, ∃ s₁ s₂, f a s₁ = .ok (⟨⟩, s₂) := by
  induction l generalizing s with
  | nil =>
    cases hl
    exact ⟨rfl, fun a ha => absurd ha List.not_mem_nil⟩
  | cons a l ih =>
    obtain ⟨⟨⟩, s₁, h₁, h₂⟩ := bind_eq_ok.mp (show (f a >>= fun _ => l.forM f) s = _ from hl)
    obtain ⟨hs, hall⟩ := ih (fun b hb => h b (List.mem_cons_of_mem a hb)) h₂
    refine ⟨?_, ?_⟩
    · rw [hs, List.foldl_cons, h a List.mem_cons_self s s₁ h₁]
    · intro b hb
      rcases List.mem_cons.mp hb with rfl | hb
      · exact ⟨s, s₁, h₁⟩
      · exact hall b hb

theorem orFail_eq_ok : (orFail o e : Tx σ ε α) s = .ok (a, s') ↔ o = some a ∧ s = s' := by
  unfold orFail
  cases o with
  | none =>
    constructor
    · intro h
      cases h
    · rintro ⟨h, -⟩
      cases h
  | some b =>
    rw [pure_eq_ok, Option.some.injEq]
    exact and_congr eq_comm eq_comm

/-! ## Rules -/

/-- Started where `P` holds, a transaction that commits leaves `Q`. -/
def Ensures (P : σ → Prop) (m : Tx σ ε α) (Q : α → σ → Prop) : Prop :=
  ∀ s, P s → ∀ a s', m s = .ok (a, s') → Q a s'

variable {P P' : σ → Prop} {Q Q' : α → σ → Prop} {m : Tx σ ε α}

theorem Ensures.conseq (h : Ensures P m Q) (hP : ∀ s, P' s → P s) (hQ : ∀ a s, Q a s → Q' a s) : Ensures P' m Q' :=
  fun s hs a s' hm => hQ a s' (h s (hP s hs) a s' hm)

theorem Ensures.and (h : Ensures P m Q) (h' : Ensures P' m Q') :
    Ensures (fun s => P s ∧ P' s) m fun a s => Q a s ∧ Q' a s :=
  fun s hs a s' hm => ⟨h s hs.1 a s' hm, h' s hs.2 a s' hm⟩

theorem Ensures.pure (a : α) (h : ∀ s, P s → Q a s) : Ensures P (pure a : Tx σ ε α) Q := by
  intro s hs b s' hm
  obtain ⟨rfl, rfl⟩ := pure_eq_ok.mp hm
  exact h s' hs

theorem Ensures.bind {R : α → σ → Prop} {Q : β → σ → Prop}
    (hm : Ensures P m R) (hf : ∀ a, Ensures (R a) (f a) Q) : Ensures P (m >>= f) Q := by
  intro s hs b s' h
  obtain ⟨a, s₁, h₁, h₂⟩ := bind_eq_ok.mp h
  exact hf a s₁ (hm s hs a s₁ h₁) b s' h₂

theorem Ensures.intro {φ : Prop} (h : φ → Ensures P m Q) : Ensures (fun s => P s ∧ φ) m Q :=
  fun s hs a s' hm => h hs.2 s hs.1 a s' hm

theorem Ensures.ite [Decidable c] {m' : Tx σ ε α} (ht : c → Ensures P m Q)
    (hf : ¬c → Ensures P m' Q) : Ensures P (if c then m else m') Q := by
  split
  · next h => exact ht h
  · next h => exact hf h

theorem Ensures.modify {f : σ → σ} {Q : Unit → σ → Prop} (h : ∀ s, P s → Q () (f s)) :
    Ensures P (modify f : Tx σ ε Unit) Q := by
  intro s hs a s' hm
  cases hm
  exact h s hs

theorem Ensures.fail (e : ε) : Ensures P (fail e : Tx σ ε α) Q := by
  intro s _ a s' hm
  cases hm

theorem Ensures.require [Decidable c] {Q : Unit → σ → Prop}
    (h : ∀ s, P s → c → Q () s) : Ensures P (require c e : Tx σ ε Unit) Q := by
  unfold Tx.require
  split
  · next hc => exact Ensures.pure () fun s hs => h s hs hc
  · exact Ensures.fail e

theorem Ensures.orFail (h : ∀ s, P s → ∀ a, o = some a → Q a s) : Ensures P (orFail o e : Tx σ ε α) Q := by
  unfold Tx.orFail
  split
  · next a => exact Ensures.pure a fun s hs => h s hs a rfl
  · exact Ensures.fail e

theorem Ensures.forM {l : List α} {f : α → Tx σ ε PUnit} (h : ∀ a ∈ l, Ensures P (f a) fun _ => P) :
    Ensures P (l.forM f) fun _ => P := by
  induction l with
  | nil => exact Ensures.pure _ fun _ hs => hs
  | cons a l ih =>
    exact Ensures.bind (h a List.mem_cons_self) fun _ =>
      ih fun b hb => h b (List.mem_cons_of_mem a hb)

end Tx

end Lib
