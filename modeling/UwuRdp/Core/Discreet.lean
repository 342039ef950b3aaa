import UwuRdp.Core.Handshake

/-!
# The password in the clear

Two handshakes whose connectors differ in the password only, driven alike by the network, are alike until a
certificate is trusted. So nothing that is written before tells the password. What is taken after it is the TLS
session's own just when nothing was left over of the plain stream.
-/

namespace UwuRdp

open Lib

namespace Connect

variable {Connector Sequence Request : Type} {s s' : State Connector Sequence Request}
  {rdp : Crates Connector Sequence Request} {target : Target}

/-! ## Two passwords -/

variable {R : Connector → Connector → Prop}

/-- The handshakes of two passwords: alike but for their connectors, or parted once a certificate is trusted. -/
def Twins (R : Connector → Connector → Prop) (s s' : State Connector Sequence Request) : Prop :=
  (∃ connector, s' = { s with connector } ∧ R s.connector connector ∧
      (s.phase.isLate = false ∨ s.phase = .failed)) ∨
    ∃ before der after after', s.trace = before ++ .trusted der :: after ∧ s'.trace = before ++ .trusted der :: after'

theorem inTheClear_append (before after : List Event) (der : Der) :
    inTheClear (before ++ .trusted der :: after) = inTheClear before := by
  induction before with
  | nil => rfl
  | cons e before ih =>
    unfold inTheClear at ih ⊢
    rw [List.cons_append, List.takeWhile_cons, List.takeWhile_cons, ih]

theorem Twins.inTheClear (h : Twins R s s') : inTheClear s.trace = inTheClear s'.trace := by
  rcases h with ⟨connector, rfl, -, -⟩ | ⟨before, der, after, after', htrace, htrace'⟩
  · rfl
  · rw [htrace, htrace', inTheClear_append, inTheClear_append]

theorem trace_receive (bytes : Bytes) : (receive rdp target s bytes).trace = s.trace := by
  unfold receive
  repeat' split
  all_goals first | rfl | exact fail_trace s

theorem trace_grows (rdp : Crates Connector Sequence Request) (target : Target) (s : State Connector Sequence Request)
    (m : Move) : ∃ events, (step rdp target s m).trace = s.trace ++ events := by
  cases m with
  | go =>
    show ∃ events, (Connect.proceed rdp target s).trace = s.trace ++ events
    have hserves : ∀ {s'}, Serves s s' → ∃ events, s'.trace = s.trace ++ events := by
      intro s' hs
      obtain ⟨events, htrace, -⟩ := hs.trace
      exact ⟨events, htrace⟩
    unfold Connect.proceed
    split
    · have hstep := serves_singleSequenceStep rdp s
      unfold Connect.negotiate
      split
      · exact ⟨[], (List.append_nil _).symm⟩
      split
      · exact hserves (.refl s)
      · next s' hs' =>
        rw [hs'] at hstep
        exact hserves (hstep.1.trans (serves_fail s'))
      · next s' hs' =>
        rw [hs'] at hstep
        exact hserves hstep.1
    · next der _ =>
      unfold Connect.check
      split
      · exact hserves (serves_fail s)
      split
      · exact hserves (serves_fail s)
      dsimp only
      split
      · split
        · exact ⟨[.trusted der], by rw [fail_trace]; rfl⟩
        · exact ⟨[.trusted der], rfl⟩
      · exact ⟨[.trusted der], rfl⟩
    · exact hserves (serves_authenticate s _ _)
    · exact hserves (serves_answer s _ _)
    · exact hserves (serves_finalize s)
    all_goals exact hserves (.refl s)
  | arrive bytes => exact ⟨[], (trace_receive bytes).trans (List.append_nil _).symm⟩
  | tls der =>
    refine ⟨[], ?_⟩
    unfold Connect.step
    dsimp only
    split
    · cases der with
      | none => exact (fail_trace s).trans (List.append_nil _).symm
      | some der => exact (List.append_nil _).symm
    · exact (List.append_nil _).symm
  | giveUp =>
    refine ⟨[], ?_⟩
    unfold Connect.step
    dsimp only
    split
    · exact (List.append_nil _).symm
    · exact (fail_trace s).trans (List.append_nil _).symm

theorem check_trusted {der key : Bytes} (hkey : rdp.publicKey der = some key) (h : Accepted rdp target der) :
    (check rdp target s der).trace = s.trace ++ [.trusted der] := by
  unfold Connect.check
  simp only [hkey]
  rw [show checkTrust _ _ = _ from h]
  dsimp only
  split
  · split
    · rw [fail_trace]
      rfl
    · rfl
  · rfl

theorem check_refused {der : Bytes} (h : rdp.publicKey der = none ∨ ¬Accepted rdp target der) :
    check rdp target s der = fail rdp s := by
  unfold Connect.check
  split
  · rfl
  split
  · rfl
  · next hkey _ haccepted =>
    rcases h with h | h
    · rw [h] at hkey
      cases hkey
    · exact absurd haccepted h

theorem fail_with (connector : Connector) (h : s.phase.isLate = false ∨ s.phase = .failed) :
    fail rdp { s with connector } = { fail rdp s with connector } := by
  unfold fail
  dsimp only
  split
  · next hphase => simp [hphase, Phase.isLate] at h
  · rfl

variable {connector : Connector}

theorem Twins.fail (hR : R s.connector connector)
    (h : s.phase.isLate = false ∨ s.phase = .failed) :
    Twins R (Connect.fail rdp s) (Connect.fail rdp { s with connector }) := by
  refine .inl ⟨connector, fail_with connector h, ?_, .inr (fail_phase s)⟩
  unfold Connect.fail
  split
  · next hphase => simp [hphase, Phase.isLate] at h
  · exact hR

theorem Twins.receive (hdiscreet : Discreet rdp R) (hR : R s.connector connector)
    (h : s.phase.isLate = false ∨ s.phase = .failed) (bytes : Bytes) :
    Twins R (Connect.receive rdp target s bytes) (Connect.receive rdp target { s with connector } bytes) := by
  have hwaits : waitsFor rdp target { s with connector } = waitsFor rdp target s := by
    unfold waitsFor
    dsimp only
    split
    · rw [hdiscreet.upgrade _ _ hR]
      split
      · rfl
      · next hupgrade =>
        exact (hdiscreet.hint _ _ hR (hdiscreet.upgrade _ _ hR ▸ Bool.eq_false_iff.mpr hupgrade)).symm
    · rfl
    · next hphase => simp [hphase, Phase.isLate] at h
    · rfl
  unfold Connect.receive
  rw [hwaits]
  split
  · exact .inl ⟨connector, rfl, hR, h⟩
  split
  · split
    · exact .fail hR h
    · exact .inl ⟨connector, rfl, hR, h⟩
  · exact .inl ⟨connector, rfl, hR, h⟩

theorem Twins.stepped (hR : R s.connector connector) (hphase : s.phase = .negotiating)
    {result result' : Option (Connector × Bytes)}
    (h : Option.Rel (fun r r' => R r.1 r'.1 ∧ r.2 = r'.2) result result') :
    (∃ s₁, Connect.outcome s (Connect.stepped s result) = .failed s₁ ∧
      Connect.outcome { s with connector } (Connect.stepped { s with connector } result') =
        .failed { s₁ with connector } ∧ R s₁.connector connector ∧ s₁.phase = .negotiating) ∨
    ∃ s₁ s₁', Connect.outcome s (Connect.stepped s result) = .done s₁ ∧
      Connect.outcome { s with connector } (Connect.stepped { s with connector } result') = .done s₁' ∧
        Twins R s₁ s₁' := by
  cases h with
  | none => exact .inl ⟨s, rfl, rfl, hR, hphase⟩
  | some hr =>
    next r r' =>
    obtain ⟨c, out⟩ := r
    obtain ⟨c', out'⟩ := r'
    obtain ⟨hc, rfl⟩ := hr
    refine .inr ⟨({ s with connector := c } : State _ _ _).write out,
      ({ s with connector := c' } : State _ _ _).write out, rfl, rfl, .inl ⟨c', ?_, ?_, .inl ?_⟩⟩
    · exact write_with c c' out
    · rw [write_connector]
      exact hc
    · rw [write_phase]
      exact hphase ▸ rfl

theorem Twins.singleSequenceStep (hdiscreet : Discreet rdp R) (hR : R s.connector connector)
    (hphase : s.phase = .negotiating) (hupgrade : rdp.shouldPerformSecurityUpgrade s.connector = false) :
    (Connect.singleSequenceStep rdp s = .waits ∧ Connect.singleSequenceStep rdp { s with connector } = .waits) ∨
    (∃ s₁, Connect.singleSequenceStep rdp s = .failed s₁ ∧
      Connect.singleSequenceStep rdp { s with connector } = .failed { s₁ with connector } ∧
        R s₁.connector connector ∧ s₁.phase = .negotiating) ∨
    ∃ s₁ s₁', Connect.singleSequenceStep rdp s = .done s₁ ∧
      Connect.singleSequenceStep rdp { s with connector } = .done s₁' ∧ Twins R s₁ s₁' := by
  unfold Connect.singleSequenceStep
  dsimp only
  rw [← hdiscreet.hint _ _ hR hupgrade]
  split
  · exact .inr (Twins.stepped hR hphase (hdiscreet.stepNoInput _ _ hR hupgrade))
  split
  · exact .inr (.inl ⟨s, rfl, rfl, hR, hphase⟩)
  · exact .inl ⟨rfl, rfl⟩
  · next n _ =>
    exact .inr (Twins.stepped (s := s.take n) hR hphase (hdiscreet.step _ _ (s.pdu n) hR hupgrade))

theorem Twins.negotiate (hdiscreet : Discreet rdp R) (hR : R s.connector connector)
    (hphase : s.phase = .negotiating) :
    Twins R (Connect.negotiate rdp s) (Connect.negotiate rdp { s with connector }) := by
  unfold Connect.negotiate
  rw [← hdiscreet.upgrade _ _ hR]
  split
  · exact .inl ⟨connector, rfl, hR, .inl rfl⟩
  · next hupgrade =>
    rcases Twins.singleSequenceStep hdiscreet hR hphase (Bool.eq_false_iff.mpr hupgrade) with
      ⟨h, h'⟩ | ⟨s₁, h, h', hR₁, hphase₁⟩ | ⟨s₁, s₁', h, h', htwins⟩
    · rw [h, h']
      exact .inl ⟨connector, rfl, hR, .inl (hphase ▸ rfl)⟩
    · rw [h, h']
      exact .fail hR₁ (.inl (hphase₁ ▸ rfl))
    · rw [h, h']
      exact htwins

theorem Twins.check {der : Der} (hR : R s.connector connector) (hphase : s.phase = .checking der) :
    Twins R (Connect.check rdp target s der) (Connect.check rdp target { s with connector } der) := by
  by_cases h : rdp.publicKey der = none ∨ ¬Accepted rdp target der
  · rw [check_refused h, check_refused h]
    exact .fail hR (.inl (hphase ▸ rfl))
  · obtain ⟨hkey, haccepted⟩ := not_or.mp h
    obtain ⟨key, hkey⟩ := Option.ne_none_iff_exists'.mp hkey
    refine .inr ⟨s.trace, der, [], [], check_trusted hkey (not_not.mp haccepted), ?_⟩
    exact check_trusted hkey (not_not.mp haccepted)

theorem Twins.step (hdiscreet : Discreet rdp R) (h : Twins R s s') (m : Move) :
    Twins R (Connect.step rdp target s m) (Connect.step rdp target s' m) := by
  rcases h with ⟨connector, rfl, hR, hphase⟩ | ⟨before, der, after, after', htrace, htrace'⟩
  · have hstays : Twins R s { s with connector } := .inl ⟨connector, rfl, hR, hphase⟩
    cases m with
    | go =>
      show Twins R (Connect.proceed rdp target s) (Connect.proceed rdp target { s with connector })
      unfold Connect.proceed
      dsimp only
      split
      · next hnegotiating => exact .negotiate hdiscreet hR hnegotiating
      · next hchecking => exact .check hR hchecking
      · next hlate => simp [hlate, Phase.isLate] at hphase
      · next hlate => simp [hlate, Phase.isLate] at hphase
      · next hlate => simp [hlate, Phase.isLate] at hphase
      all_goals exact hstays
    | arrive bytes => exact .receive hdiscreet hR hphase bytes
    | tls der =>
      unfold Connect.step
      dsimp only
      split
      · cases der with
        | none => exact .fail hR hphase
        | some der => exact .inl ⟨connector, rfl, hR, .inl rfl⟩
      · exact hstays
    | giveUp =>
      unfold Connect.step
      dsimp only
      split
      · exact hstays
      · exact .fail hR hphase
  · obtain ⟨events, hgrows⟩ := trace_grows rdp target s m
    obtain ⟨events', hgrows'⟩ := trace_grows rdp target s' m
    refine .inr ⟨before, der, after ++ events, after' ++ events', ?_, ?_⟩
    · rw [hgrows, htrace, List.append_assoc, List.cons_append]
    · rw [hgrows', htrace', List.append_assoc, List.cons_append]

theorem twins_run (hdiscreet : Discreet rdp R) (h : Twins R s s') (moves : List Move) :
    Twins R (Steps.run (Connect.step rdp target) s moves) (Steps.run (Connect.step rdp target) s' moves) := by
  induction moves generalizing s s' with
  | nil => exact h
  | cons m moves ih => exact ih (h.step hdiscreet m)

/-- Nothing that depends on the password is written before the certificate of the session it is written to is trusted.
All that is taken on that session was delivered by it if nothing was read beyond the negotiation, and else only if
nothing is taken at all. -/
theorem handshake_guarded (hdiscreet : Discreet rdp R) {connector connector' : Connector} (hR : R connector connector')
    (moves : List Move) :
    Vouched rdp target (Steps.run (step rdp target) (handshake connector) moves).trace ∧
      inTheClear (Steps.run (step rdp target) (handshake connector) moves).trace =
        inTheClear (Steps.run (step rdp target) (handshake connector') moves).trace ∧
      (Steps.Along (step rdp target) (Flushed rdp) (handshake connector) moves →
        Inside (Steps.run (step rdp target) (handshake connector) moves).trace) ∧
      (Inside (Steps.run (step rdp target) (handshake connector) moves).trace →
        Steps.Along (step rdp target) (Flushed rdp) (handshake connector) moves ∨
          ∀ der pdu, Event.took (some der) pdu ∈ (Steps.run (step rdp target) (handshake connector) moves).trace →
            pdu = []) := by
  have hsound : Sound rdp target (Steps.run (step rdp target) (handshake connector) moves) := sound_run connector moves
  have hstart : Sound rdp target (handshake connector) := sound_handshake connector
  have hflushed := along_flushed_iff hstart moves
  refine ⟨hsound.vouched, ?_, fun halong => hsound.inside (hflushed.mp ⟨rfl, halong⟩), fun hinside => ?_⟩
  · exact (twins_run hdiscreet (.inl ⟨connector', rfl, hR, .inl rfl⟩) moves).inTheClear
  · by_cases hleftover : (Steps.run (step rdp target) (handshake connector) moves).leftover = []
    · exact .inl (hflushed.mpr hleftover).2
    · refine .inr fun der pdu hmem => ?_
      by_contra hpdu
      exact hsound.not_inside hleftover hmem hpdu hinside

/-! ## A run -/

namespace Sample

inductive Stage where
  | request
  | confirm
  | upgrade
  | credssp
  | connectInitial
  | connectResponse
  | connected
deriving DecidableEq

structure Client where
  stage : Stage
  password : Text
deriving DecidableEq

/-- An X.224 connection request that asks for CredSSP, without a cookie. -/
def request : Bytes := [3, 0, 0, 19, 14, 0xE0, 0, 0, 0, 0, 0, 1, 0, 8, 0, 2, 0, 0, 0]

def confirm : Bytes := [3, 0, 0, 19, 14, 0xD0, 0, 0, 0x12, 0x34, 0, 2, 0, 8, 0, 2, 0, 0, 0]

def connectInitial : Bytes := [3, 0, 0, 4]

def tpkt : Hint
  | [] => some none
  | 3 :: _ :: high :: low :: _ => some (some (high.toNat * 256 + low.toNat))
  | 3 :: _ => some none
  | _ => none

/-- The length of a short `TSRequest`. -/
def tsRequest : Hint
  | [] => some none
  | 0x30 :: length :: _ => some (some (length.toNat + 2))
  | 0x30 :: _ => some none
  | _ => none

/-- A connector that asks for CredSSP, with one challenge and an answer that tells of the password. -/
def crates : Crates Client Text (Option Bytes) where
  shouldPerformSecurityUpgrade c := c.stage = .upgrade
  markSecurityUpgradeAsDone c := { c with stage := .credssp }
  shouldPerformCredssp c := c.stage = .credssp
  markCredsspAsDone c := { c with stage := .connectInitial }
  nextPduHint c := if c.stage = .confirm ∨ c.stage = .connectResponse then some tpkt else none
  step c pdu :=
    match c.stage with
    | .confirm => if pdu[5]? = some 0xD0 then some ({ c with stage := .upgrade }, []) else none
    | .connectResponse => some ({ c with stage := .connected }, [])
    | _ => none
  stepNoInput c :=
    match c.stage with
    | .request => some ({ c with stage := .confirm }, request)
    | .connectInitial => some ({ c with stage := .connectResponse }, connectInitial)
    | _ => none
  sendsConnectInitial c := c.stage = .connectInitial
  announceGfx c := if c.stage = .connectResponse then some (c, connectInitial) else none
  connected c := c.stage = .connected
  forgetPassword c := { c with password := [] }
  init c _ _ := some (c.password, none)
  process password
    | none => some (password, [0x30, 0])
    | some challenge =>
      some (password, 0x30 :: UInt8.ofNat password.length ::
        password.map fun c => UInt8.ofNat (c.toNat + challenge.length))
  hint _ := some tsRequest
  decodeServerMessage password pdu := if pdu.length = 2 then some (password, none) else some (password, some pdu)
  publicKey der := some der
  sha256 der := der
  encode bytes := bytes.map fun b => Char.ofNat b.toNat

def certificate : Der := [65, 66, 67]

def pinned : Target where
  address := "host.example".toList
  trustedFingerprint := some "SHA256:ABC=".toList
  graphics := true

def client (password : Text) : Client := ⟨.request, password⟩

theorem discreet : Discreet crates fun c c' => c.stage = c'.stage where
  upgrade c c' h := by simp [crates, h]
  hint c c' h _ := by simp [crates, h]
  step c c' pdu h _ := by
    show Option.Rel _ (match c.stage with | .confirm => _ | .connectResponse => _ | _ => _)
      (match c'.stage with | .confirm => _ | .connectResponse => _ | _ => _)
    rw [← h]
    cases c.stage with
    | confirm =>
      dsimp only
      split
      · exact .some ⟨rfl, rfl⟩
      · exact .none
    | connectResponse => exact .some ⟨rfl, rfl⟩
    | request | upgrade | credssp | connectInitial | connected => exact .none
  stepNoInput c c' h _ := by
    show Option.Rel _ (match c.stage with | .request => _ | .connectInitial => _ | _ => _)
      (match c'.stage with | .request => _ | .connectInitial => _ | _ => _)
    rw [← h]
    cases c.stage with
    | request | connectInitial => exact .some ⟨rfl, rfl⟩
    | confirm | connectResponse | upgrade | credssp | connected => exact .none

/-- The server answers, and says nothing more before the TLS handshake. -/
def served : List Move :=
  [.go, .arrive confirm, .go, .go, .tls (some certificate), .go, .go, .arrive [0x30, 1, 7], .go, .go, .arrive [0x30, 0],
    .go, .go]

/-- Somebody on the way adds a CredSSP answer to the server's. -/
def injected : List Move :=
  [.go, .arrive (confirm ++ [0x30, 1, 7]), .go, .go, .tls (some certificate), .go, .go, .go]

/-- Two passwords, and no byte beyond the answer. -/
theorem handshake_served :
    inTheClear (Steps.run (step crates pinned) (handshake (client "secret".toList)) served).trace =
        inTheClear (Steps.run (step crates pinned) (handshake (client "hunter2".toList)) served).trace ∧
      Inside (Steps.run (step crates pinned) (handshake (client "secret".toList)) served).trace := by
  obtain ⟨-, hclear, hinside, -⟩ :=
    handshake_guarded discreet (show (client "secret".toList).stage = (client "hunter2".toList).stage from rfl) served
  refine ⟨hclear, hinside ?_⟩
  exact ((along_flushed_iff (sound_handshake _) served).mpr (by decide +kernel)).2

/-- What somebody added in the clear is taken for the server's word on the TLS session. -/
theorem injected_taken :
    ¬∀ moves, Inside (Steps.run (step crates pinned) (handshake (client "secret".toList)) moves).trace := by
  intro h
  have htook : Event.took (some certificate) [⟨none, 0x30⟩, ⟨none, 1⟩, ⟨none, 7⟩] ∈
      (Steps.run (step crates pinned) (handshake (client "secret".toList)) injected).trace := by
    decide +kernel
  have hsource := h injected certificate _ htook ⟨none, 0x30⟩ List.mem_cons_self
  cases hsource

end Sample

end Connect

end UwuRdp
