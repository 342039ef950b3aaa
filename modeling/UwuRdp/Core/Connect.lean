import UwuRdp.Lib.Steps
import UwuRdp.Proto.Text

/-!
# Connecting

The way from an open TCP connection to an active session: the negotiation in the clear, the TLS handshake with the
check of the pinned certificate, CredSSP, and the rest of the connection sequence. What a connection's bytes came
from is kept with them, and everything written, trusted and taken is noted in a trace.
-/

namespace UwuRdp

open Lib

namespace Connect

abbrev Bytes := List UInt8

/-- A certificate as the TLS handshake hands it over. -/
abbrev Der := Bytes

/-! ## The pin -/

/-- Why a certificate is not trusted. -/
inductive TrustError where
  | unknownCertificate (observed : Text)
  | certificateChanged (expected observed : Text)
deriving DecidableEq

/-- `fingerprints_match` -/
def fingerprintsMatch (expected observed : Text) : Bool := Text.trimEndMatches (· = '=') expected = observed

/-- `check_trust` -/
def checkTrust (observed : Text) (trusted : Option Text) : Except TrustError Unit :=
  match trusted.map Text.trim with
  | none | some [] => .error (.unknownCertificate observed)
  | some expected =>
    if fingerprintsMatch expected observed then .ok () else .error (.certificateChanged expected observed)

/-! ## What is not part of the program -/

/-- How long the PDU at the head of some bytes is: an error, or not known before more of it is there. -/
abbrev Hint := Bytes → Option (Option ℕ)

/-- The connector and CredSSP, as the crates have them. An error is `none`, and bytes to write may be none. -/
structure Crates (Connector Sequence Request : Type) where
  shouldPerformSecurityUpgrade : Connector → Bool
  markSecurityUpgradeAsDone : Connector → Connector
  shouldPerformCredssp : Connector → Bool
  markCredsspAsDone : Connector → Connector
  nextPduHint : Connector → Option Hint
  step : Connector → Bytes → Option (Connector × Bytes)
  stepNoInput : Connector → Option (Connector × Bytes)
  /-- The state is `BasicSettingsExchangeSendInitial`. -/
  sendsConnectInitial : Connector → Bool
  /-- The flag is set in the Connect Initial the connector keeps, which is encoded; `none` in every other state. -/
  announceGfx : Connector → Option (Connector × Bytes)
  /-- The state is `Connected`. -/
  connected : Connector → Bool
  forgetPassword : Connector → Connector
  /-- `CredsspSequence::init`, of a connector, the server's name and its public key -/
  init : Connector → Text → Bytes → Option (Sequence × Request)
  /-- `process_ts_request` and `handle_process_result` -/
  process : Sequence → Request → Option (Sequence × Bytes)
  hint : Sequence → Option Hint
  decodeServerMessage : Sequence → Bytes → Option (Sequence × Option Request)
  /-- The public key of a certificate that can be parsed. -/
  publicKey : Der → Option Bytes
  sha256 : Bytes → Bytes
  /-- Base64 without padding. -/
  encode : Bytes → Text

/-- What of an `RdpTarget` the handshake looks at. -/
structure Target where
  address : Text
  trustedFingerprint : Option Text
  /-- The session has the graphics pipeline. -/
  graphics : Bool

variable {Connector Sequence Request : Type}

/-- `certificate_fingerprint` -/
def certificateFingerprint (rdp : Crates Connector Sequence Request) (der : Der) : Text :=
  "SHA256:".toList ++ rdp.encode (rdp.sha256 der)

/-! ## The machine -/

/-- A byte, with the stream that delivered it: the TLS session of a certificate, or the plain one before it. -/
structure Octet where
  source : Option Der
  byte : UInt8
deriving DecidableEq

inductive Event where
  /-- Bytes were written to a TLS session, or to the plain stream. -/
  | sent (session : Option Der) (bytes : Bytes)
  /-- `check_trust` accepted the session's certificate. -/
  | trusted (der : Der)
  /-- A PDU was taken out of what was read. -/
  | took (session : Option Der) (pdu : List Octet)
deriving DecidableEq

inductive Phase (Sequence Request : Type) where
  /-- `connect_begin` -/
  | negotiating
  /-- `tls::upgrade` -/
  | upgrading
  /-- The certificate is there, and not yet looked at. -/
  | checking (der : Der)
  | authenticating (sequence : Sequence) (request : Request)
  /-- CredSSP waits for the server. -/
  | answering (sequence : Sequence) (hint : Hint)
  | finalizing
  | established
  | failed

structure State (Connector Sequence Request : Type) where
  phase : Phase Sequence Request
  connector : Connector
  /-- The TLS session the stream belongs to by now. -/
  session : Option Der
  /-- What `framed` read and did not hand out. -/
  buffer : List Octet
  /-- What `into_inner` gave back. -/
  leftover : List Octet
  trace : List Event

inductive Move where
  /-- The handshake goes on. -/
  | go
  /-- A read of the stream ends, with no byte at its end. -/
  | arrive (bytes : Bytes)
  /-- The TLS handshake ends. -/
  | tls (der : Option Der)
  /-- A stream breaks, or the time is over. -/
  | giveUp
deriving DecidableEq

/-- What `read_by_hint` finds in what was read. -/
inductive Reading where
  | bad
  | short
  | pdu (length : ℕ)
deriving DecidableEq

def readByHint (hint : Hint) (buffer : List Octet) : Reading :=
  match hint (buffer.map Octet.byte) with
  | none => .bad
  | some none => .short
  | some (some length) => if length ≤ buffer.length then .pdu length else .short

namespace State

variable (s : State Connector Sequence Request)

def enter (phase : Phase Sequence Request) : State Connector Sequence Request := { s with phase }

def note (event : Event) : State Connector Sequence Request := { s with trace := s.trace ++ [event] }

/-- `write_all`, of no byte if there is nothing to write. -/
def write (bytes : Bytes) : State Connector Sequence Request :=
  if bytes = [] then s else s.note (.sent s.session bytes)

def take (length : ℕ) : State Connector Sequence Request :=
  ({ s with buffer := s.buffer.drop length } : State _ _ _).note (.took s.session (s.buffer.take length))

def pdu (length : ℕ) : Bytes := (s.buffer.take length).map Octet.byte

end State

section Step

variable (rdp : Crates Connector Sequence Request) (target : Target) (s : State Connector Sequence Request)

/-- An error ends the handshake; a password the last phase still keeps is wiped. -/
def fail : State Connector Sequence Request :=
  match s.phase with
  | .finalizing => { s with phase := .failed, connector := rdp.forgetPassword s.connector }
  | _ => s.enter .failed

/-- The hint of the PDU the handshake waits for, in the phases that read. -/
def waitsFor : Option Hint :=
  match s.phase with
  | .negotiating => if rdp.shouldPerformSecurityUpgrade s.connector then none else rdp.nextPduHint s.connector
  | .answering _ hint => some hint
  | .finalizing =>
    if target.graphics ∧ rdp.sendsConnectInitial s.connector then none else rdp.nextPduHint s.connector
  | _ => none

def stepped (result : Option (Connector × Bytes)) : Option (State Connector Sequence Request) :=
  result.map fun (connector, out) => ({ s with connector } : State _ _ _).write out

/-- The steps of a sequence: one waits for bytes, fails or is done. -/
inductive Outcome (σ : Type) where
  | waits
  | failed (s : σ)
  | done (s : σ)

/-- What a step came to, where an error leaves things as they were. -/
def outcome (before : State Connector Sequence Request) :
    Option (State Connector Sequence Request) → Outcome (State Connector Sequence Request)
  | none => .failed before
  | some s => .done s

/-- `ironrdp_tokio::single_sequence_step` -/
def singleSequenceStep : Outcome (State Connector Sequence Request) :=
  match rdp.nextPduHint s.connector with
  | none => outcome s (stepped s (rdp.stepNoInput s.connector))
  | some hint =>
    match readByHint hint s.buffer with
    | .bad => .failed s
    | .short => .waits
    | .pdu n => outcome (s.take n) (stepped (s.take n) (rdp.step s.connector (s.pdu n)))

/-- `send_connect_initial_with_gfx`: the connector's own bytes are not sent, but the amended ones. -/
def sendConnectInitialWithGfx : Outcome (State Connector Sequence Request) :=
  outcome s (stepped s ((rdp.stepNoInput s.connector).bind fun (connector, _) => rdp.announceGfx connector))

/-- One turn of the loop that ends the connection sequence. -/
def finalize : State Connector Sequence Request :=
  let step :=
    if target.graphics ∧ rdp.sendsConnectInitial s.connector then sendConnectInitialWithGfx rdp s
    else singleSequenceStep rdp s
  match step with
  | .waits => s
  | .failed s => fail rdp s
  | .done s =>
    if rdp.connected s.connector then
      { s with phase := .established, connector := rdp.forgetPassword s.connector }
    else s

/-- `connect_begin`, then `into_inner`. -/
def negotiate : State Connector Sequence Request :=
  if rdp.shouldPerformSecurityUpgrade s.connector then
    { s with phase := .upgrading, leftover := s.buffer, buffer := [] }
  else
    match singleSequenceStep rdp s with
    | .waits => s
    | .failed s => fail rdp s
    | .done s => s

/-- From the certificate to the framed TLS stream; what was read of the plain one is served first. -/
def check (der : Der) : State Connector Sequence Request :=
  match rdp.publicKey der with
  | none => fail rdp s
  | some key =>
    match checkTrust (certificateFingerprint rdp der) target.trustedFingerprint with
    | .error _ => fail rdp s
    | .ok () =>
      let connector := rdp.markSecurityUpgradeAsDone s.connector
      let s := ({ s with connector, buffer := s.leftover } : State _ _ _).note (.trusted der)
      if rdp.shouldPerformCredssp connector then
        match rdp.init connector target.address key with
        | none => fail rdp s
        | some (sequence, request) => s.enter (.authenticating sequence request)
      else s.enter .finalizing

/-- `mark_credssp_as_done` -/
def authenticated : State Connector Sequence Request :=
  { s with phase := .finalizing, connector := rdp.markCredsspAsDone s.connector }

/-- The first half of the loop of `credssp`. -/
def authenticate (sequence : Sequence) (request : Request) : State Connector Sequence Request :=
  match rdp.process sequence request with
  | none => fail rdp s
  | some (sequence, out) =>
    match rdp.hint sequence with
    | none => authenticated rdp (s.write out)
    | some hint => (s.write out).enter (.answering sequence hint)

def answer (sequence : Sequence) (hint : Hint) : State Connector Sequence Request :=
  match readByHint hint s.buffer with
  | .bad => fail rdp s
  | .short => s
  | .pdu n =>
    match rdp.decodeServerMessage sequence (s.pdu n) with
    | none => fail rdp (s.take n)
    | some (_, none) => authenticated rdp (s.take n)
    | some (sequence, some request) => (s.take n).enter (.authenticating sequence request)

/-- `handshake`, from one step to the next. -/
def proceed : State Connector Sequence Request :=
  match s.phase with
  | .negotiating => negotiate rdp s
  | .checking der => check rdp target s der
  | .authenticating sequence request => authenticate rdp s sequence request
  | .answering sequence hint => answer rdp s sequence hint
  | .finalizing => finalize rdp target s
  | .upgrading | .established | .failed => s

/-- A read ends. Only what waits for more of a PDU reads. -/
def receive (bytes : Bytes) : State Connector Sequence Request :=
  match waitsFor rdp target s with
  | none => s
  | some hint =>
    if readByHint hint s.buffer = .short then
      if bytes = [] then fail rdp s
      else { s with buffer := s.buffer ++ bytes.map fun byte => ⟨s.session, byte⟩ }
    else s

/-- The TLS handshake ends with the leaf certificate, or not at all. -/
def upgraded : Option Der → State Connector Sequence Request
  | none => fail rdp s
  | some der => { s with phase := .checking der, session := some der }

def step : Move → State Connector Sequence Request
  | .go => proceed rdp target s
  | .arrive bytes => receive rdp target s bytes
  | .tls der =>
    match s.phase with
    | .upgrading => upgraded rdp s der
    | _ => s
  | .giveUp =>
    match s.phase with
    | .established => s
    | _ => fail rdp s

/-- `handshake` on a new connection. -/
def handshake (connector : Connector) : State Connector Sequence Request :=
  ⟨.negotiating, connector, none, [], [], []⟩

end Step

end Connect

end UwuRdp
