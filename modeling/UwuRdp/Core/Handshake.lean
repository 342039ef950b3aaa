import UwuRdp.Core.Connect

/-!
# The handshake's bytes

Up to the trusted certificate everything goes over the plain stream, and everything after it over the TLS session of
just that certificate. What the later steps take comes first from what the plain stream had left over, and then from
the TLS session.
-/

namespace UwuRdp

open Lib

namespace Connect

variable {Connector Sequence Request : Type}

/-! ## What is wanted -/

def Event.OnStream (session : Option Der) : Event → Prop
  | .sent at' _ => at' = session
  | .took at' _ => at' = session
  | .trusted _ => False

/-- `check_trust` accepts the certificate. -/
def Accepted (rdp : Crates Connector Sequence Request) (target : Target) (der : Der) : Prop :=
  checkTrust (certificateFingerprint rdp der) target.trustedFingerprint = .ok ()

/-- Everything is in the clear until a certificate is trusted, and on the TLS session of just that one after it. -/
def Vouched (rdp : Crates Connector Sequence Request) (target : Target) (trace : List Event) : Prop :=
  (∀ e ∈ trace, e.OnStream none) ∨
    ∃ der before after, trace = before ++ .trusted der :: after ∧ Accepted rdp target der ∧
      (∀ e ∈ before, e.OnStream none) ∧ ∀ e ∈ after, e.OnStream (some der)

def Event.trusts : Event → Bool
  | .trusted _ => true
  | _ => false

def inTheClear (trace : List Event) : List Event := trace.takeWhile fun e => !e.trusts

/-- Every byte taken on a TLS session was delivered by it. -/
def Inside (trace : List Event) : Prop :=
  ∀ der pdu, Event.took (some der) pdu ∈ trace → ∀ o ∈ pdu, o.source = some der

/-- Nothing is read beyond the negotiation when it ends. -/
def Flushed (rdp : Crates Connector Sequence Request) (s : State Connector Sequence Request) : Move → Prop
  | .go => s.phase = .negotiating → rdp.shouldPerformSecurityUpgrade s.connector = true → s.buffer = []
  | _ => True

/-- Two connectors that do the same up to the upgrade, as those of two passwords do. -/
structure Discreet (rdp : Crates Connector Sequence Request) (R : Connector → Connector → Prop) : Prop where
  upgrade : ∀ c c', R c c' → rdp.shouldPerformSecurityUpgrade c = rdp.shouldPerformSecurityUpgrade c'
  hint : ∀ c c', R c c' → rdp.shouldPerformSecurityUpgrade c = false → rdp.nextPduHint c = rdp.nextPduHint c'
  step : ∀ c c' pdu, R c c' → rdp.shouldPerformSecurityUpgrade c = false →
    Option.Rel (fun r r' => R r.1 r'.1 ∧ r.2 = r'.2) (rdp.step c pdu) (rdp.step c' pdu)
  stepNoInput : ∀ c c', R c c' → rdp.shouldPerformSecurityUpgrade c = false →
    Option.Rel (fun r r' => R r.1 r'.1 ∧ r.2 = r'.2) (rdp.stepNoInput c) (rdp.stepNoInput c')

/-! ## One step -/

def pdus (events : List Event) : List Octet :=
  events.flatMap fun
    | .took _ pdu => pdu
    | _ => []

@[simp] theorem pdus_append (first later : List Event) : pdus (first ++ later) = pdus first ++ pdus later :=
  List.flatMap_append

/-- A step on one stream: it takes from what was read and writes. -/
structure Serves (s s' : State Connector Sequence Request) : Prop where
  session : s'.session = s.session
  leftover : s'.leftover = s.leftover
  trace : ∃ events, s'.trace = s.trace ++ events ∧ (∀ e ∈ events, e.OnStream s.session) ∧
    s.buffer = pdus events ++ s'.buffer

variable {s s' s'' : State Connector Sequence Request}

theorem Serves.refl (s : State Connector Sequence Request) : Serves s s :=
  ⟨rfl, rfl, [], by simp, by simp, rfl⟩

theorem Serves.trans (h : Serves s s') (h' : Serves s' s'') : Serves s s'' := by
  obtain ⟨events, htrace, hon, hbuffer⟩ := h.trace
  obtain ⟨events', htrace', hon', hbuffer'⟩ := h'.trace
  refine ⟨h'.session.trans h.session, h'.leftover.trans h.leftover, events ++ events', ?_, ?_, ?_⟩
  · rw [htrace', htrace, List.append_assoc]
  · intro e he
    rcases List.mem_append.mp he with he | he
    · exact hon e he
    · exact h.session ▸ hon' e he
  · rw [hbuffer, hbuffer', pdus_append, List.append_assoc]

theorem Serves.of_eq (hsession : s'.session = s.session) (hleftover : s'.leftover = s.leftover)
    (htrace : s'.trace = s.trace) (hbuffer : s'.buffer = s.buffer) : Serves s s' :=
  ⟨hsession, hleftover, [], by simp [htrace], by simp, hbuffer.symm⟩

theorem serves_enter (s : State Connector Sequence Request) (phase : Phase Sequence Request) :
    Serves s (s.enter phase) := .of_eq rfl rfl rfl rfl

theorem serves_write (s : State Connector Sequence Request) (bytes : Bytes) : Serves s (s.write bytes) := by
  unfold State.write
  split
  · exact .refl s
  · exact ⟨rfl, rfl, [.sent s.session bytes], rfl, by simp [Event.OnStream], by simp [pdus, State.note]⟩

@[simp] theorem write_phase (s : State Connector Sequence Request) (bytes : Bytes) :
    (s.write bytes).phase = s.phase := by
  unfold State.write
  split <;> rfl

@[simp] theorem write_connector (s : State Connector Sequence Request) (bytes : Bytes) :
    (s.write bytes).connector = s.connector := by
  unfold State.write
  split <;> rfl

theorem write_with (c c' : Connector) (bytes : Bytes) :
    ({ s with connector := c' } : State _ _ _).write bytes =
      { ({ s with connector := c } : State _ _ _).write bytes with connector := c' } := by
  unfold State.write
  split <;> rfl

theorem serves_take (s : State Connector Sequence Request) (n : ℕ) : Serves s (s.take n) :=
  ⟨rfl, rfl, [.took s.session (s.buffer.take n)], rfl, by simp [Event.OnStream],
    by simp [pdus, State.note, State.take]⟩

section

variable {rdp : Crates Connector Sequence Request} {target : Target}

theorem serves_fail (s : State Connector Sequence Request) : Serves s (fail rdp s) := by
  unfold fail
  split
  · exact .of_eq rfl rfl rfl rfl
  · exact serves_enter s .failed

theorem serves_authenticated (s : State Connector Sequence Request) : Serves s (authenticated rdp s) :=
  .of_eq rfl rfl rfl rfl

/-- What an outcome holds of the states a step leaves. -/
def Outcome.All {σ : Type} (P : σ → Prop) : Outcome σ → Prop
  | .waits => True
  | .failed s => P s
  | .done s => P s

theorem serves_outcome (result : Option (Connector × Bytes)) :
    (outcome s (stepped s result)).All fun s' => Serves s s' ∧ s'.phase = s.phase := by
  cases result with
  | none => exact ⟨.refl s, rfl⟩
  | some r =>
    obtain ⟨connector, out⟩ := r
    have hconnector : Serves s { s with connector } := .of_eq rfl rfl rfl rfl
    exact ⟨hconnector.trans (serves_write { s with connector } out), write_phase { s with connector } out⟩

theorem serves_singleSequenceStep (rdp : Crates Connector Sequence Request) (s : State Connector Sequence Request) :
    (singleSequenceStep rdp s).All fun s' => Serves s s' ∧ s'.phase = s.phase := by
  unfold singleSequenceStep
  split
  · exact serves_outcome _
  split
  · exact ⟨.refl s, rfl⟩
  · trivial
  · next n _ =>
    have h := serves_outcome (s := s.take n) (rdp.step s.connector (s.pdu n))
    cases houtcome : outcome (s.take n) (stepped (s.take n) (rdp.step s.connector (s.pdu n))) with
    | waits => trivial
    | failed s' | done s' =>
      rw [houtcome] at h
      exact ⟨(serves_take s n).trans h.1, h.2⟩

theorem serves_finalizeStep (s : State Connector Sequence Request) :
    (if target.graphics ∧ rdp.sendsConnectInitial s.connector then sendConnectInitialWithGfx rdp s
      else singleSequenceStep rdp s).All fun s' => Serves s s' ∧ s'.phase = s.phase := by
  split
  · exact serves_outcome _
  · exact serves_singleSequenceStep rdp s

theorem serves_finalize (s : State Connector Sequence Request) : Serves s (finalize rdp target s) := by
  have hstep := @serves_finalizeStep _ _ _ rdp target s
  unfold finalize
  dsimp only
  split
  · exact .refl s
  · next s' h =>
    rw [h] at hstep
    exact hstep.1.trans (serves_fail s')
  · next s' h =>
    rw [h] at hstep
    split
    · exact hstep.1.trans (.of_eq rfl rfl rfl rfl)
    · exact hstep.1

theorem serves_authenticate (s : State Connector Sequence Request) (sequence : Sequence) (request : Request) :
    Serves s (authenticate rdp s sequence request) := by
  unfold authenticate
  split
  · exact serves_fail s
  split
  · exact (serves_write s _).trans (serves_authenticated _)
  · exact (serves_write s _).trans (serves_enter _ _)

theorem serves_answer (s : State Connector Sequence Request) (sequence : Sequence) (hint : Hint) :
    Serves s (answer rdp s sequence hint) := by
  unfold answer
  split
  · exact serves_fail s
  · exact .refl s
  split
  · exact (serves_take s _).trans (serves_fail _)
  · exact (serves_take s _).trans (serves_authenticated _)
  · exact (serves_take s _).trans (serves_enter _ _)

/-! ## The invariant -/

def Phase.isLate : Phase Sequence Request → Bool
  | .negotiating | .upgrading | .checking _ => false
  | _ => true

@[simp] theorem fail_phase (s : State Connector Sequence Request) : (fail rdp s).phase = .failed := by
  unfold fail
  split <;> rfl

@[simp] theorem fail_trace (s : State Connector Sequence Request) : (fail rdp s).trace = s.trace := by
  unfold fail
  split <;> rfl

theorem fail_isLate (s : State Connector Sequence Request) : (fail rdp s).phase.isLate = true := by
  rw [fail_phase]
  rfl

theorem finalize_isLate (h : s.phase.isLate = true) : (finalize rdp target s).phase.isLate = true := by
  have hstep := @serves_finalizeStep _ _ _ rdp target s
  unfold finalize
  dsimp only
  split
  · exact h
  · exact fail_isLate _
  · next s' hs' =>
    rw [hs'] at hstep
    split
    · rfl
    · exact hstep.2 ▸ h

theorem authenticate_isLate (s : State Connector Sequence Request) (sequence : Sequence) (request : Request) :
    (authenticate rdp s sequence request).phase.isLate = true := by
  unfold authenticate
  split
  · exact fail_isLate s
  split <;> rfl

theorem answer_isLate (s : State Connector Sequence Request) (sequence : Sequence) (hint : Hint)
    (h : s.phase.isLate = true) : (answer rdp s sequence hint).phase.isLate = true := by
  unfold answer
  split
  · exact fail_isLate s
  · exact h
  split
  · exact fail_isLate _
  · rfl
  · rfl

theorem proceed_late (h : s.phase.isLate = true) :
    Serves s (proceed rdp target s) ∧ (proceed rdp target s).phase.isLate = true := by
  unfold proceed
  split
  · next hphase => simp [hphase, Phase.isLate] at h
  · next hphase => simp [hphase, Phase.isLate] at h
  · exact ⟨serves_authenticate s _ _, authenticate_isLate s _ _⟩
  · exact ⟨serves_answer s _ _, answer_isLate s _ _ h⟩
  · exact ⟨serves_finalize s, finalize_isLate h⟩
  all_goals exact ⟨.refl s, h⟩

/-- What the TLS session of a trusted certificate has delivered follows what was left over. -/
def Trusting (rdp : Crates Connector Sequence Request) (target : Target) (s : State Connector Sequence Request) :
    Prop :=
  ∃ der before after delivered, s.session = some der ∧ s.trace = before ++ .trusted der :: after ∧
    Accepted rdp target der ∧ (∀ e ∈ before, e.OnStream none) ∧ (∀ e ∈ after, e.OnStream (some der)) ∧
    (∀ o ∈ delivered, o.source = some der) ∧ pdus after ++ s.buffer = s.leftover ++ delivered

/-- Nothing is written to a TLS session yet, and nothing taken from it. -/
structure Clear (s : State Connector Sequence Request) : Prop where
  trace : ∀ e ∈ s.trace, e.OnStream none
  phase :
    match s.phase with
    | .negotiating => s.session = none ∧ s.leftover = [] ∧ ∀ o ∈ s.buffer, o.source = none
    | .upgrading => s.session = none
    | .checking der => s.session = some der
    | .failed => True
    | _ => False

structure Sound (rdp : Crates Connector Sequence Request) (target : Target) (s : State Connector Sequence Request) :
    Prop where
  leftover : ∀ o ∈ s.leftover, o.source = none
  stage : Clear s ∨ s.phase.isLate = true ∧ Trusting rdp target s

theorem Trusting.serves (h : Trusting rdp target s) (hs : Serves s s') : Trusting rdp target s' := by
  obtain ⟨der, before, after, delivered, hsession, htrace, haccepted, hbefore, hafter, hdelivered, hfed⟩ := h
  obtain ⟨events, htrace', hon, hbuffer⟩ := hs.trace
  refine ⟨der, before, after ++ events, delivered, hs.session.trans hsession, ?_, haccepted, hbefore, ?_,
    hdelivered, ?_⟩
  · rw [htrace', htrace, List.append_assoc, List.cons_append]
  · intro e he
    rcases List.mem_append.mp he with he | he
    · exact hafter e he
    · exact hsession ▸ hon e he
  · rw [pdus_append, List.append_assoc, ← hbuffer, hs.leftover, hfed]

theorem Sound.serves (h : Sound rdp target s) (htrusting : Trusting rdp target s) (hs : Serves s s')
    (hlate : s'.phase.isLate = true) : Sound rdp target s' :=
  ⟨hs.leftover ▸ h.leftover, .inr ⟨hlate, htrusting.serves hs⟩⟩

theorem Clear.trace_serves (h : Clear s) (hsession : s.session = none) (hs : Serves s s') :
    ∀ e ∈ s'.trace, e.OnStream none := by
  obtain ⟨events, htrace, hon, -⟩ := hs.trace
  rw [htrace]
  intro e he
  rcases List.mem_append.mp he with he | he
  · exact h.trace e he
  · exact hsession ▸ hon e he

theorem Sound.fail (h : Sound rdp target s) : Sound rdp target (Connect.fail rdp s) := by
  rcases h.stage with hclear | ⟨hlate, htrusting⟩
  · refine ⟨(serves_fail s).leftover ▸ h.leftover, .inl ⟨?_, ?_⟩⟩
    · rw [fail_trace]
      exact hclear.trace
    · rw [fail_phase]
      trivial
  · exact h.serves htrusting (serves_fail s) (fail_isLate s)

theorem sound_handshake (connector : Connector) : Sound rdp target (handshake connector : State _ Sequence Request) :=
  ⟨by simp [handshake], .inl ⟨by simp [handshake], rfl, rfl, by simp [handshake]⟩⟩

section Kept

variable (h : Sound rdp target s)

include h

theorem negotiate_step (hphase : s.phase = .negotiating) (hclear : Clear s)
    (hs : Serves s s') (hphase' : s'.phase = .negotiating ∨ s'.phase = .failed) : Sound rdp target s' := by
  have hstage := hclear.phase
  simp only [hphase] at hstage
  obtain ⟨hsession, hleftover, hbuffer⟩ := hstage
  refine ⟨hs.leftover ▸ h.leftover, .inl ⟨hclear.trace_serves hsession hs, ?_⟩⟩
  rcases hphase' with hphase' | hphase'
  · rw [hphase']
    refine ⟨hs.session.trans hsession, hs.leftover.trans hleftover, fun o ho => ?_⟩
    obtain ⟨events, -, -, hfed⟩ := hs.trace
    exact hbuffer o (hfed ▸ List.mem_append_right _ ho)
  · rw [hphase']
    trivial

theorem Sound.negotiate (hphase : s.phase = .negotiating) (hclear : Clear s) :
    Sound rdp target (negotiate rdp s) := by
  have hstep := serves_singleSequenceStep rdp s
  unfold Connect.negotiate
  split
  · have hstage := hclear.phase
    simp only [hphase] at hstage
    exact ⟨hstage.2.2, .inl ⟨hclear.trace, hstage.1⟩⟩
  split
  · exact h
  · next s' hs' =>
    rw [hs'] at hstep
    exact negotiate_step h hphase hclear (hstep.1.trans (serves_fail s')) (.inr (fail_phase s'))
  · next s' hs' =>
    rw [hs'] at hstep
    exact negotiate_step h hphase hclear hstep.1 (.inl (hstep.2.trans hphase))

theorem Sound.check {der : Der} (hphase : s.phase = .checking der) (hclear : Clear s) :
    Sound rdp target (check rdp target s der) := by
  have hsession := hclear.phase
  simp only [hphase] at hsession
  unfold Connect.check
  split
  · exact h.fail
  split
  · exact h.fail
  · next haccepted =>
    dsimp only
    have htrusting : Trusting rdp target
        (({ s with connector := rdp.markSecurityUpgradeAsDone s.connector, buffer := s.leftover } :
          State _ _ _).note (.trusted der)) :=
      ⟨der, s.trace, [], [], hsession, rfl, haccepted, hclear.trace, by simp, by simp, by simp [State.note, pdus]⟩
    split
    · split
      · refine ⟨?_, .inr ⟨fail_isLate _, htrusting.serves (serves_fail _)⟩⟩
        rw [(serves_fail _).leftover]
        exact h.leftover
      · exact ⟨h.leftover, .inr ⟨rfl, htrusting.serves (serves_enter _ _)⟩⟩
    · exact ⟨h.leftover, .inr ⟨rfl, htrusting.serves (serves_enter _ _)⟩⟩

theorem Sound.proceed : Sound rdp target (proceed rdp target s) := by
  rcases h.stage with hclear | ⟨hlate, htrusting⟩
  · have hstage := hclear.phase
    unfold Connect.proceed
    split
    · next hphase => exact h.negotiate hphase hclear
    · next hphase => exact h.check hphase hclear
    · next hphase => simp only [hphase] at hstage
    · next hphase => simp only [hphase] at hstage
    · next hphase => simp only [hphase] at hstage
    all_goals exact h
  · have hproceed : Serves s (Connect.proceed rdp target s) ∧ _ := proceed_late hlate
    exact h.serves htrusting hproceed.1 hproceed.2

theorem Sound.receive (bytes : Bytes) : Sound rdp target (receive rdp target s bytes) := by
  unfold Connect.receive
  split
  · exact h
  split
  · split
    · exact h.fail
    · rcases h.stage with hclear |
        ⟨hlate, der, before, after, delivered, hsession, htrace, haccepted, hbefore, hafter, hdelivered, hfed⟩
      · next hwaits _ _ =>
        have hstage := hclear.phase
        refine ⟨h.leftover, .inl ⟨hclear.trace, ?_⟩⟩
        split at hstage
        · next hphase =>
          obtain ⟨hsession, hleftover, hbuffer⟩ := hstage
          simp only [hphase]
          refine ⟨hsession, hleftover, fun o ho => ?_⟩
          rcases List.mem_append.mp ho with ho | ho
          · exact hbuffer o ho
          · obtain ⟨_, -, rfl⟩ := List.mem_map.mp ho
            exact hsession
        · next hphase => simp [waitsFor, hphase] at hwaits
        · next hphase => simp [waitsFor, hphase] at hwaits
        · next hphase => simp [waitsFor, hphase] at hwaits
        · exact hstage.elim
      · refine ⟨h.leftover, .inr ⟨hlate, der, before, after, delivered ++ bytes.map fun byte => ⟨s.session, byte⟩,
          hsession, htrace, haccepted, hbefore, hafter, fun o ho => ?_, ?_⟩⟩
        · rcases List.mem_append.mp ho with ho | ho
          · exact hdelivered o ho
          · obtain ⟨_, -, rfl⟩ := List.mem_map.mp ho
            exact hsession
        · show pdus after ++ (s.buffer ++ _) = s.leftover ++ (delivered ++ _)
          rw [← List.append_assoc, hfed, List.append_assoc]
  · exact h

theorem Sound.step (m : Move) : Sound rdp target (step rdp target s m) := by
  cases m with
  | go => exact h.proceed
  | arrive bytes => exact h.receive bytes
  | tls der =>
    unfold Connect.step
    dsimp only
    split
    · next hphase =>
      cases der with
      | none => exact h.fail
      | some der =>
        rcases h.stage with hclear | ⟨hlate, -⟩
        · exact ⟨h.leftover, .inl ⟨hclear.trace, rfl⟩⟩
        · simp [hphase, Phase.isLate] at hlate
    · exact h
  | giveUp =>
    unfold Connect.step
    dsimp only
    split
    · exact h
    · exact h.fail

end Kept

theorem sound_run (connector : Connector) (moves : List Move) :
    Sound rdp target (Steps.run (step rdp target) (handshake connector) moves) :=
  (Steps.along_of_forall (P := fun _ _ => True) (fun _ _ => trivial) _ moves).invariant
    (sound_handshake connector) fun _ m h _ => h.step m

/-! ## What was left over -/

theorem Sound.vouched (h : Sound rdp target s) : Vouched rdp target s.trace := by
  rcases h.stage with hclear | ⟨-, der, before, after, -, -, htrace, haccepted, hbefore, hafter, -⟩
  · exact .inl hclear.trace
  · exact .inr ⟨der, before, after, htrace, haccepted, hbefore, hafter⟩

theorem mem_pdus {events : List Event} {session : Option Der} {pdu : List Octet} {o : Octet}
    (h : Event.took session pdu ∈ events) (ho : o ∈ pdu) : o ∈ pdus events :=
  List.mem_flatMap.mpr ⟨_, h, ho⟩

theorem Sound.inside (h : Sound rdp target s) (hleftover : s.leftover = []) : Inside s.trace := by
  intro der pdu hmem o ho
  rcases h.stage with hclear | ⟨-, der', before, after, delivered, -, htrace, -, hbefore, hafter, hdelivered, hfed⟩
  · exact absurd (hclear.trace _ hmem) (by simp [Event.OnStream])
  · rw [htrace] at hmem
    rcases List.mem_append.mp hmem with hmem | hmem
    · exact absurd (hbefore _ hmem) (by simp [Event.OnStream])
    rcases List.mem_cons.mp hmem with hmem | hmem
    · cases hmem
    have hder : der = der' := by simpa [Event.OnStream] using hafter _ hmem
    have hmem' : o ∈ pdus after ++ s.buffer := List.mem_append_left _ (mem_pdus hmem ho)
    rw [hfed, hleftover, List.nil_append] at hmem'
    rw [hder]
    exact hdelivered o hmem'

theorem Sound.not_inside (h : Sound rdp target s) (hleftover : s.leftover ≠ []) {der : Der} {pdu : List Octet}
    (hmem : Event.took (some der) pdu ∈ s.trace) (hpdu : pdu ≠ []) : ¬Inside s.trace := by
  intro hinside
  rcases h.stage with hclear | ⟨-, der', before, after, delivered, -, htrace, -, hbefore, hafter, hdelivered, hfed⟩
  · exact absurd (hclear.trace _ hmem) (by simp [Event.OnStream])
  · rw [htrace] at hmem
    rcases List.mem_append.mp hmem with hmem | hmem
    · exact absurd (hbefore _ hmem) (by simp [Event.OnStream])
    rcases List.mem_cons.mp hmem with hmem | hmem
    · cases hmem
    obtain ⟨first, rest, hrest⟩ := List.exists_cons_of_ne_nil hleftover
    -- The first byte taken is the first one left over.
    cases htaken : pdus after with
    | nil =>
      obtain ⟨o, ho⟩ := List.exists_mem_of_ne_nil _ hpdu
      have := mem_pdus hmem ho
      rw [htaken] at this
      cases this
    | cons o taken =>
      rw [htaken, hrest] at hfed
      obtain ⟨rfl, -⟩ := List.cons.inj hfed
      have ho : o ∈ pdus after := htaken ▸ List.mem_cons_self
      obtain ⟨e, he, hoe⟩ := List.mem_flatMap.mp ho
      have hplain : o.source = none := h.leftover o (hrest ▸ List.mem_cons_self)
      cases e with
      | sent | trusted => cases hoe
      | took session pdu' =>
        have hsession : session = some der' := hafter _ he
        subst hsession
        have := hinside der' pdu' (htrace ▸ List.mem_append_right _ (List.mem_cons_of_mem _ he)) o hoe
        rw [hplain] at this
        cases this

theorem step_leftover (m : Move)
    (h : m = .go → s.phase = .negotiating → rdp.shouldPerformSecurityUpgrade s.connector = false) :
    (step rdp target s m).leftover = s.leftover := by
  cases m with
  | go =>
    show (Connect.proceed rdp target s).leftover = s.leftover
    unfold Connect.proceed
    split
    · next hphase =>
      have hstep := serves_singleSequenceStep rdp s
      unfold Connect.negotiate
      rw [if_neg (by rw [h rfl hphase]; decide)]
      split
      · rfl
      · next s' hs' =>
        rw [hs'] at hstep
        exact (hstep.1.trans (serves_fail s')).leftover
      · next s' hs' =>
        rw [hs'] at hstep
        exact hstep.1.leftover
    · unfold Connect.check
      split
      · exact (serves_fail s).leftover
      split
      · exact (serves_fail s).leftover
      dsimp only
      split
      · split
        · rw [(serves_fail _).leftover]
          rfl
        · rfl
      · rfl
    · exact (serves_authenticate s _ _).leftover
    · exact (serves_answer s _ _).leftover
    · exact (serves_finalize s).leftover
    all_goals rfl
  | arrive bytes =>
    show (Connect.receive rdp target s bytes).leftover = s.leftover
    unfold Connect.receive
    repeat' split
    all_goals first | rfl | exact (serves_fail s).leftover
  | tls der =>
    unfold Connect.step
    dsimp only
    split
    · cases der with
      | none => exact (serves_fail s).leftover
      | some der => rfl
    · rfl
  | giveUp =>
    unfold Connect.step
    dsimp only
    split
    · rfl
    · exact (serves_fail s).leftover

theorem step_upgrade (hphase : s.phase = .negotiating) (h : rdp.shouldPerformSecurityUpgrade s.connector = true) :
    (step rdp target s .go).leftover = s.buffer := by
  simp [step, Connect.proceed, hphase, Connect.negotiate, h]

theorem leftover_step (h : s.leftover = []) (m : Move) (hm : Flushed rdp s m) :
    (step rdp target s m).leftover = [] := by
  by_cases hends : m = .go ∧ s.phase = .negotiating ∧ rdp.shouldPerformSecurityUpgrade s.connector = true
  · obtain ⟨rfl, hphase, hupgrade⟩ := hends
    rw [step_upgrade hphase hupgrade, hm hphase hupgrade]
  · rw [step_leftover m fun hgo hphase => Bool.eq_false_iff.mpr fun hupgrade => hends ⟨hgo, hphase, hupgrade⟩, h]

theorem leftover_stays (h : Sound rdp target s) (hleftover : s.leftover ≠ []) (m : Move) :
    (step rdp target s m).leftover ≠ [] := by
  rw [step_leftover m]
  · exact hleftover
  · intro _ hphase
    rcases h.stage with hclear | ⟨hlate, -⟩
    · have hstage := hclear.phase
      simp only [hphase] at hstage
      exact absurd hstage.2.1 hleftover
    · simp [hphase, Phase.isLate] at hlate

theorem along_flushed_iff (h : Sound rdp target s) (moves : List Move) : s.leftover = [] ∧ Steps.Along
    (step rdp target) (Flushed rdp) s moves ↔ (Steps.run (step rdp target) s moves).leftover = [] := by
  induction moves generalizing s with
  | nil => exact ⟨And.left, fun h => ⟨h, trivial⟩⟩
  | cons m moves ih =>
    rw [Steps.run_cons, ← ih (h.step m)]
    constructor
    · rintro ⟨hleftover, hm, hmoves⟩
      exact ⟨leftover_step hleftover m hm, hmoves⟩
    · rintro ⟨hleftover, hmoves⟩
      have hbefore : s.leftover = [] := by
        by_contra hne
        exact leftover_stays h hne m hleftover
      refine ⟨hbefore, ?_, hmoves⟩
      cases m with
      | go =>
        intro hphase hupgrade
        rw [step_upgrade hphase hupgrade] at hleftover
        exact hleftover
      | arrive | tls | giveUp => trivial

end

end Connect

end UwuRdp
