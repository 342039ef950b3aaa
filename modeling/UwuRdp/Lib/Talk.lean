import Mathlib.Algebra.Order.Ring.Nat
import Mathlib.Logic.Function.Basic

/-!
# Programs that talk through a relay

A program posts messages and waits for messages, and marks those it goes on with. The relay carries
everything: it may lose, keep back, repeat and reorder what was posted, hand a message back to whoever
posted it, and put in what it can make itself. Each party keeps a log of what it posted, received and
accepted, and `Keeps` is the rule for what holds of the log at every point of a program, whatever it
receives.
-/

namespace Lib

/-- A program that exchanges messages, and ends with an answer or an error. -/
inductive Talk (μ ε α : Type) where
  | done (a : α)
  | stop (e : ε)
  /-- Post a message. -/
  | put (m : μ) (next : Talk μ ε α)
  /-- Wait for the next message. -/
  | await (next : μ → Talk μ ε α)
  /-- Go on with a message that passed its check. -/
  | accept (m : μ) (next : Talk μ ε α)

/-- What a party notes down. -/
inductive Note (μ : Type) where
  | posted (m : μ)
  | received (m : μ)
  | accepted (m : μ)
deriving DecidableEq

namespace Talk

variable {ι μ ε α β : Type}

def bind (f : α → Talk μ ε β) : Talk μ ε α → Talk μ ε β
  | done a => f a
  | stop e => stop e
  | put m next => put m (bind f next)
  | await next => await fun m => bind f (next m)
  | accept m next => accept m (bind f next)

/-- A party: what is left of its program, and its log. -/
structure Party (μ ε α : Type) where
  program : Talk μ ε α
  log : List (Note μ)

/-- What may happen to a party next. -/
inductive Move (μ ε : Type) where
  /-- Its message goes out; its request may fail all the same. -/
  | carry (fails : Option ε)
  /-- The relay answers with what it says the other side posted. -/
  | answer (messages : List μ)
  /-- Its request fails, or it has waited too long. -/
  | giveUp (e : ε)
  /-- It goes on by itself. -/
  | go

/-- One move of a party; a move that does not fit does nothing. -/
def Party.step (p : Party μ ε α) : Move μ ε → Party μ ε α
  | .carry fails =>
    match p.program with
    | put m next => ⟨fails.elim next stop, p.log ++ [.posted m]⟩
    | _ => p
  | .answer messages =>
    match p.program, messages with
    | await next, m :: _ => ⟨next m, p.log ++ [.received m]⟩
    | _, _ => p
  | .giveUp e =>
    match p.program with
    | await _ => ⟨stop e, p.log⟩
    | _ => p
  | .go =>
    match p.program with
    | accept m next => ⟨next, p.log ++ [.accepted m]⟩
    | _ => p

/-! ## What holds of a log -/

/-- `I` holds of the log now and at every later point of the program, and `R` of its answer. -/
def Keeps (I : List (Note μ) → Prop) (R : α → Prop) : Talk μ ε α → List (Note μ) → Prop
  | done a, log => I log ∧ R a
  | stop _, log => I log
  | put m next, log => I log ∧ Keeps I R next (log ++ [.posted m])
  | await next, log => I log ∧ ∀ m, Keeps I R (next m) (log ++ [.received m])
  | accept m next, log => I log ∧ Keeps I R next (log ++ [.accepted m])

variable {I : List (Note μ) → Prop} {R : α → Prop} {S : β → Prop} {t : Talk μ ε α}
  {log : List (Note μ)}

theorem Keeps.now (h : Keeps I R t log) : I log := by
  cases t with
  | done a => exact h.1
  | stop e => exact h
  | put m next | await next | accept m next => exact h.1

theorem Keeps.bind {f : α → Talk μ ε β} (h : Keeps I R t log)
    (hf : ∀ a log, R a → I log → Keeps I S (f a) log) : Keeps I S (t.bind f) log := by
  induction t generalizing log with
  | done a => exact hf a log h.2 h.1
  | stop e => exact h
  | put m next ih => exact ⟨h.1, ih h.2⟩
  | await next ih => exact ⟨h.1, fun m => ih m (h.2 m)⟩
  | accept m next ih => exact ⟨h.1, ih h.2⟩

theorem Keeps.step {p : Party μ ε α} (h : Keeps I R p.program p.log) (move : Move μ ε) :
    Keeps I R (p.step move).program (p.step move).log := by
  obtain ⟨program, log⟩ := p
  cases move with
  | carry fails =>
    cases program with
    | put m next =>
      cases fails with
      | none => exact h.2
      | some e => exact .now h.2
    | done a | stop e | await next | accept m next => exact h
  | answer messages =>
    cases program with
    | await next =>
      cases messages with
      | nil => exact h
      | cons m rest => exact h.2 m
    | done a | stop e | put m next | accept m next => exact h
  | giveUp e =>
    cases program with
    | await next => exact .now h
    | done a | stop e | put m next | accept m next => exact h
  | go =>
    cases program with
    | accept m next => exact h.2
    | done a | stop e | put m next | await next => exact h

/-- Every note of a log goes with what stands before it. -/
def Preceded (P : Note μ → List (Note μ) → Prop) (log : List (Note μ)) : Prop :=
  ∀ before note after, log = before ++ note :: after → P note before

variable {P : Note μ → List (Note μ) → Prop} {note : Note μ} {i : ι}

theorem preceded_nil : Preceded P [] := by
  intro before note after h
  exact absurd h (by simp)

theorem preceded_concat : Preceded P (log ++ [note]) ↔ Preceded P log ∧ P note log := by
  constructor
  · intro h
    refine ⟨?_, h log note [] rfl⟩
    rintro before n after rfl
    exact h before n (after ++ [note]) (by simp)
  · rintro ⟨hlog, hnote⟩ before n after heq
    rcases List.eq_nil_or_concat after with rfl | ⟨rest, last, rfl⟩
    · obtain ⟨rfl, hn⟩ := List.append_inj' heq rfl
      obtain rfl : note = n := by simpa using hn
      exact hnote
    · have hsplit : log ++ [note] = (before ++ n :: rest) ++ [last] := by simpa using heq
      obtain ⟨hl, -⟩ := List.append_inj' hsplit rfl
      exact hlog before n rest hl

theorem Preceded.of_mem (h : Preceded P log)
    (hm : note ∈ log) : ∃ before after, log = before ++ note :: after ∧ P note before := by
  obtain ⟨before, after, heq⟩ := List.append_of_mem hm
  exact ⟨before, after, heq, h before note after heq⟩

/-! ## Many parties and one relay -/

variable [DecidableEq ι]

def step (net : ι → Party μ ε α) (move : ι × Move μ ε) : ι → Party μ ε α :=
  Function.update net move.1 ((net move.1).step move.2)

def run (net : ι → Party μ ε α) (moves : List (ι × Move μ ε)) : ι → Party μ ε α := moves.foldl step net

/-- A message the relay has: one that was posted, or one it can make itself. -/
def Available (makes : μ → Prop) (net : ι → Party μ ε α) (m : μ) : Prop :=
  makes m ∨ ∃ j, Note.posted m ∈ (net j).log

def Move.Feasible (makes : μ → Prop) (net : ι → Party μ ε α) : Move μ ε → Prop
  | .answer messages => ∀ m ∈ messages, Available makes net m
  | _ => True

/-- A relay that hands over what it has, at every move. -/
def Feasible (makes : μ → Prop) (net : ι → Party μ ε α) : List (ι × Move μ ε) → Prop
  | [] => True
  | move :: moves => move.2.Feasible makes net ∧ Feasible makes (step net move) moves

variable {net : ι → Party μ ε α} {makes : μ → Prop}

theorem keeps_run (h : Keeps I R (net i).program (net i).log) (moves : List (ι × Move μ ε)) :
    I (run net moves i).log := by
  induction moves generalizing net with
  | nil => exact h.now
  | cons move moves ih =>
    apply ih
    unfold step
    by_cases hi : i = move.1
    · subst hi
      rw [Function.update_self]
      exact h.step move.2
    · rw [Function.update_of_ne hi]
      exact h

theorem Party.step_log (p : Party μ ε α) (move : Move μ ε) : ∃ new, (p.step move).log = p.log ++ new ∧ ∀ m,
    Note.received m ∈ new → ∃ messages, move = .answer messages ∧ m ∈ messages := by
  obtain ⟨program, log⟩ := p
  have hnone : ∃ new, log = log ++ new ∧ ∀ m, Note.received m ∈ new →
      ∃ messages, move = .answer messages ∧ m ∈ messages :=
    ⟨[], (List.append_nil log).symm, fun m hm => absurd hm List.not_mem_nil⟩
  cases move with
  | carry fails =>
    cases program with
    | put m next => exact ⟨[.posted m], rfl, fun m' hm' => by simp at hm'⟩
    | done a | stop e | await next | accept m next => exact hnone
  | answer messages =>
    cases program with
    | await next =>
      cases messages with
      | nil => exact hnone
      | cons m rest =>
        refine ⟨[.received m], rfl, fun m' hm' => ⟨m :: rest, rfl, ?_⟩⟩
        obtain rfl : m' = m := by simpa using hm'
        exact List.mem_cons_self
    | done a | stop e | put m next | accept m next => exact hnone
  | giveUp e => cases program <;> exact hnone
  | go =>
    cases program with
    | accept m next => exact ⟨[.accepted m], rfl, fun m' hm' => by simp at hm'⟩
    | done a | stop e | put m next | await next => exact hnone

theorem mem_log_step (h : note ∈ (net i).log) (move : ι × Move μ ε) : note ∈ (step net move i).log := by
  unfold step
  by_cases hi : i = move.1
  · subst hi
    rw [Function.update_self]
    obtain ⟨new, hnew, -⟩ := (net move.1).step_log move.2
    rw [hnew]
    exact List.mem_append_left new h
  · rw [Function.update_of_ne hi]
    exact h

theorem Available.step {m : μ} (h : Available makes net m) (move : ι × Move μ ε) :
    Available makes (step net move) m := by
  rcases h with h | ⟨j, hj⟩
  · exact .inl h
  · exact .inr ⟨j, mem_log_step hj move⟩

theorem received_run {moves : List (ι × Move μ ε)} (hf : Feasible makes net moves)
    (h : ∀ i m, Note.received m ∈ (net i).log → Available makes net m) (i : ι) (m : μ)
    (hm : Note.received m ∈ (run net moves i).log) : Available makes (run net moves) m := by
  induction moves generalizing net with
  | nil => exact h i m hm
  | cons move moves ih =>
    refine ih hf.2 (fun j m' hm' => ?_) hm
    unfold step at hm'
    by_cases hj : j = move.1
    · subst hj
      rw [Function.update_self] at hm'
      obtain ⟨new, hnew, hreceived⟩ := (net move.1).step_log move.2
      rw [hnew] at hm'
      rcases List.mem_append.mp hm' with hm' | hm'
      · exact (h move.1 m' hm').step move
      · obtain ⟨messages, hmove, hmem⟩ := hreceived m' hm'
        have hfirst := hf.1
        rw [hmove] at hfirst
        exact (hfirst m' hmem).step move
    · rw [Function.update_of_ne hj] at hm'
      exact (h j m' hm').step move

end Talk

end Lib
