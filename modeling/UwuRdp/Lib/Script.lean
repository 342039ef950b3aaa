import UwuRdp.Lib.Act

/-!
# Scripts

A script acts on a state that others act on too, and makes requests. Each of its actions is one step, which sees
the state as it is then; between two steps anything may happen. `Keeps` is the rule for what every action of a
script does, whatever it meets.
-/

namespace Lib

/-- What is left of a script: its end, an action on the shared state, or a request. -/
inductive Script (σ Q : Type) (A : Q → Type) (ε α : Type) where
  | done (a : α)
  | stop (e : ε)
  /-- The state is changed; what follows knows it as it was. -/
  | act (change : σ → σ) (next : σ → Script σ Q A ε α)
  | ask (q : Q) (next : A q → Script σ Q A ε α)

namespace Script

variable {σ Q : Type} {A : Q → Type} {ε α β : Type}

def bind (f : α → Script σ Q A ε β) : Script σ Q A ε α → Script σ Q A ε β
  | done a => f a
  | stop e => stop e
  | act change next => act change fun s => bind f (next s)
  | ask q next => ask q fun a => bind f (next a)

instance : Monad (Script σ Q A ε) where
  pure := done
  bind m f := bind f m

def look (f : σ → α) : Script σ Q A ε α := act id fun s => done (f s)

def call (f : σ → α × σ) : Script σ Q A ε α := act (fun s => (f s).2) fun s => done (f s).1

def change (f : σ → σ) : Script σ Q A ε Unit := act f fun _ => done ()

def request (q : Q) : Script σ Q A ε (A q) := ask q done

/-- Every action of a script changes the state in a way that is allowed. -/
def Keeps (R : σ → σ → Prop) : Script σ Q A ε α → Prop
  | done _ => True
  | stop _ => True
  | act change next => (∀ s, R s (change s)) ∧ ∀ s, Keeps R (next s)
  | ask _ next => ∀ a, Keeps R (next a)

variable {R : σ → σ → Prop} {m : Script σ Q A ε α} {f : α → Script σ Q A ε β}

theorem Keeps.bind (h : Keeps R m) (hf : ∀ a, Keeps R (f a)) : Keeps R (m >>= f) := by
  show Keeps R (Script.bind f m)
  induction m with
  | done a => exact hf a
  | stop e => trivial
  | act change next ih => exact ⟨h.1, fun s => ih s (h.2 s)⟩
  | ask q next ih => exact fun a => ih a (h a)

theorem keeps_look (hrefl : ∀ s, R s s) (g : σ → α) : Keeps R (look g : Script σ Q A ε α) :=
  ⟨hrefl, fun _ => trivial⟩

theorem keeps_call {g : σ → α × σ} (h : ∀ s, R s (g s).2) : Keeps R (call g : Script σ Q A ε α) :=
  ⟨h, fun _ => trivial⟩

theorem keeps_change {g : σ → σ} (h : ∀ s, R s (g s)) : Keeps R (change g : Script σ Q A ε Unit) :=
  ⟨h, fun _ => trivial⟩

theorem keeps_request (q : Q) : Keeps R (request q : Script σ Q A ε (A q)) := fun _ => trivial

/-! ## Nobody in between -/

variable {τ ρ γ δ : Type} (serve : (q : Q) → τ → A q × τ)

/-- A script that nobody else comes between, whose requests one server answers. -/
def alone : Script σ Q A ε α → σ × τ → Except ε α × σ × τ
  | done a, x => (.ok a, x)
  | stop e, x => (.error e, x)
  | act change next, x => alone (next x.1) (change x.1, x.2)
  | ask q next, x => alone (next (serve q x.2).1) (x.1, (serve q x.2).2)

/-- A script and an action came to answers that fit or to the same error, in states that belong together. -/
inductive Agree (S : σ × τ → ρ → Prop) (R : α → β → Prop) : Except ε α × σ × τ → Except ε β × ρ → Prop
  | ok {a b x s} (hr : R a b) (hs : S x s) : Agree S R (.ok a, x) (.ok b, s)
  | error {e x s} (hs : S x s) : Agree S R (.error e, x) (.error e, s)

variable {serve} {S : σ × τ → ρ → Prop} {R : α → γ → Prop} {T : β → δ → Prop} {x : σ × τ} {s : ρ}

theorem alone_bind : alone serve (m >>= f) x =
    match alone serve m x with
    | (.ok a, x') => alone serve (f a) x'
    | (.error e, x') => (.error e, x') := by
  show alone serve (Script.bind f m) x = _
  induction m generalizing x with
  | done | stop => rfl
  | act change next ih => exact ih x.1
  | ask q next ih => exact ih (serve q x.2).1

theorem Agree.bind {m' : Act ρ ε γ} {g : γ → Act ρ ε δ} (h : Agree S R (alone serve m x) (m' s))
    (hf : ∀ a b x' s', m' s = (.ok b, s') → R a b → S x' s' → Agree S T (alone serve (f a) x') (g b s')) :
    Agree S T (alone serve (m >>= f) x) ((m' >>= g) s) := by
  rw [alone_bind]
  generalize alone serve m x = l, hr : m' s = r at h
  cases h with
  | ok hR hS =>
    rw [Act.bind_of_ok hr]
    exact hf _ _ _ _ hr hR hS
  | error hS =>
    rw [Act.bind_of_error hr]
    exact .error hS

/-- The action goes on where the script is over. -/
theorem Agree.after {T : α → δ → Prop} {m' : Act ρ ε γ} {g : γ → Act ρ ε δ} (h : Agree S R (alone serve m x) (m' s))
    (hg : ∀ a b x' s', R a b → S x' s' → Agree S T (.ok a, x') (g b s')) :
    Agree S T (alone serve m x) ((m' >>= g) s) := by
  generalize alone serve m x = l, hr : m' s = r at h
  cases h with
  | ok hR hS =>
    rw [Act.bind_of_ok hr]
    exact hg _ _ _ _ hR hS
  | error hS =>
    rw [Act.bind_of_error hr]
    exact .error hS

end Script

end Lib
