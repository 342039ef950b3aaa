import UwuRdp.Proto.Wire
import UwuRdp.Sync.Pages

/-!
# Syncing through a UwULock Server

The other transport: a space of an account holds the records. Its answers name kinds by their text,
so that a record of a kind this build does not know is left out of the page the engine sees, and a
space that was given a new key or is gone ends the session. `eachRecord` reads a whole space, as
moving to UwULock does.
-/

namespace UwuRdp

open Lib

/-! ## On the wire -/

def kindOf (name : Text) : Option EntityKind := EntityKind.all.find? fun k => kindName k = name

@[simp] theorem kindOf_kindName (k : EntityKind) : kindOf (kindName k) = some k := by
  cases k <;> decide

/-- An envelope as UwULock writes it, the vault id implied by the space. -/
structure WireRecord where
  id : Uuid
  kind : Text
  updatedAt : Hlc
  baseSeq : ℕ
  deleted : Bool
  /-- The nonce and the blob, or `none` for texts that are not base64. -/
  blob : Option Sealed
  seq : Option ℕ
deriving DecidableEq

namespace WireRecord

def fromEnvelope (env : Envelope) : WireRecord where
  id := env.id
  kind := kindName env.kind
  updatedAt := env.updatedAt
  baseSeq := env.baseSeq
  deleted := env.deleted
  blob := some env.blob
  seq := env.seq

/-- The envelope, or `none` for a kind this build does not know or bytes that are not base64. -/
def intoEnvelope (space : Uuid) (r : WireRecord) : Option Envelope :=
  match kindOf r.kind, r.blob with
  | some kind, some blob =>
    some ⟨r.id, space, kind, r.updatedAt, r.baseSeq, r.deleted, blob, r.seq⟩
  | _, _ => none

end WireRecord

structure SuitePull where
  reset : Bool
  records : List WireRecord
  cursor : ℕ
  hasMore : Bool
deriving DecidableEq

structure SuitePush where
  accepted : List Accepted
  conflicts : List WireRecord
deriving DecidableEq

structure SpaceObject where
  space : Text
  id : Uuid
deriving DecidableEq

/-- What a refused request said. -/
structure Refusal where
  status : ℕ
  code : Option Text
deriving DecidableEq

namespace Refusal

def switchedOff (r : Refusal) : Bool := r.status = 404 && r.code = some "feature_off".toList

def intoTransport (r : Refusal) : TransportError :=
  if r.switchedOff then .switchedOff else if r.status = 401 then .signIn else .refused

/-- Whether a refusal says the push named another space than the account's current one. -/
def namesAnotherSpace (r : Refusal) : Bool :=
  r.status = 409 && r.code ≠ some "exists".toList

end Refusal

/-- `Call`: the answer, or the refusal. -/
inductive Reply (α : Type) where
  | done (a : α)
  | refused (r : Refusal)
deriving DecidableEq

/-- The part of a UwULock Server a device talks to. -/
structure SuiteServer (σ : Type) where
  spaces : σ → Except TransportError (List SpaceObject) × σ
  records : ℕ → ℕ → σ → Except TransportError (Reply SuitePull) × σ
  push : Uuid → List WireRecord → σ → Except TransportError (Reply SuitePush) × σ

/-! ## The transport -/

def spaceName : Text := "rdp".toList

/-- One UwULock Server, as this device talks to it. -/
structure Lock (σ : Type) where
  space : Option Uuid
  /-- The last pull was told to start over. -/
  reset : Bool
  server : σ
deriving DecidableEq

namespace Lock

variable {σ : Type}

abbrev Call (σ : Type) := Act (Lock σ) TransportError

def ask {α : Type} (f : σ → Except TransportError α × σ) : Call σ α := do
  let l ← Act.get
  let answer := f l.server
  Act.modify fun l => { l with server := answer.2 }
  Act.ofExcept answer.1

/-- Whether the account's space is still the one this device holds the key of. -/
def checkSpace (srv : SuiteServer σ) (space : Uuid) : Call σ Unit := do
  let spaces ← ask srv.spaces
  match spaces.find? fun object => object.space = spaceName with
  | some object => if object.id = space then pure () else Act.fail .signIn
  | none => Act.fail .signIn

/-- A request about the space's records; a space that is not there or not the one named is told apart
from any other refusal. -/
def callSpace {α : Type} (srv : SuiteServer σ) (space : Uuid)
    (f : σ → Except TransportError (Reply α) × σ) : Call σ α := do
  let reply ← ask f
  match reply with
  | .done value => pure value
  | .refused refusal =>
    if refusal.switchedOff then Act.fail .switchedOff
    else if refusal.status = 404 then do
      checkSpace srv space
      Act.fail refusal.intoTransport
    else if refusal.namesAnotherSpace then do
      checkSpace srv space
      Act.fail .signIn
    else Act.fail refusal.intoTransport

def spaceId : Call σ Uuid := do
  let l ← Act.get
  match l.space with
  | some space => pure space
  | none => Act.fail .refused

def pull (srv : SuiteServer σ) (since limit : ℕ) : Call σ PullResponse := do
  let space ← spaceId
  -- A pull from the start has no epoch to be told off by.
  if since = 0 then checkSpace srv space
  let page ← callSpace srv space (srv.records since (min limit maxBatch))
  if page.reset then do
    checkSpace srv space
    Act.modify fun l => { l with reset := true }
    pure ⟨[], since, false⟩
  else
    pure ⟨page.records.filterMap (WireRecord.intoEnvelope space), page.cursor, page.hasMore⟩

def push (srv : SuiteServer σ) (envelopes : List Envelope) : Call σ PushResponse := do
  let space ← spaceId
  checkSpace srv space
  let answer ← callSpace srv space (srv.push space
    (envelopes.map fun env => { WireRecord.fromEnvelope env with seq := none }))
  pure ⟨answer.accepted, answer.conflicts.filterMap (WireRecord.intoEnvelope space)⟩

def transport (srv : SuiteServer σ) : Transport (Lock σ) where
  pull := pull srv
  push := push srv
  takeReset l := (l.reset, { l with reset := false })

end Lock

/-! ## Reading a whole space -/

/-- What goes wrong while records move. -/
inductive LockError where
  | transport (e : TransportError)
  | crypto
deriving DecidableEq

/-- `each_record`: every record a server has, from the start, page by page, handed to `each`. -/
def eachRecord {σ τ : Type} (t : Transport σ) (each : τ → Envelope → Except LockError τ) :
    ℕ → ℕ → σ → τ → Except LockError τ
  | 0, _, _, _ => .error (.transport .refused)
  | pages + 1, cursor, server, acc =>
    match t.pull cursor maxBatch server with
    | (.error e, _) => .error (.transport e)
    | (.ok page, server) =>
      let (reset, server) := t.takeReset server
      if reset then .error (.transport .refused)
      else
        match page.envelopes.foldlM each acc with
        | .error e => .error e
        | .ok acc =>
          if page.envelopes.isEmpty || !page.hasMore then .ok acc
          else if page.cursor ≤ cursor then .error (.transport .refused)
          else eachRecord t each pages page.cursor server acc

end UwuRdp
