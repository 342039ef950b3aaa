import UwuRdp.Store.Settings
import Mathlib.Data.List.Sort

/-!
# Records on their way out and in

A local write marks its row dirty, so the outbox is the database: `pendingEnvelopes` turns those
rows into sealed envelopes and `markPushed` clears the flag of what the server took.
`applyEnvelopes` takes envelopes apart again, one decision per record inside one transaction.
-/

namespace UwuRdp

open Lib

variable [Platform]

/-- Every kind whose rows travel, in the order records must be applied. -/
abbrev syncedKinds : List EntityKind := EntityKind.applyOrder

/-- A column the database compares as an `i64`. -/
def signed (w : UInt64) : ℤ := if w.toNat < 2 ^ 63 then w.toNat else (w.toNat : ℤ) - 2 ^ 64

/-! ## Out -/

/-- A row waiting to be pushed. -/
structure Pending where
  id : Uuid
  kind : EntityKind
  updatedAt : Hlc
  deleted : Bool
  baseSeq : ℕ
  payload : Payload
deriving DecidableEq

/-- What goes into an envelope: the record's fields, or for a secret the secret itself, opened from
its stored form. -/
def payloadOf (vault : UnlockedVault) : (k : EntityKind) → Uuid → Body k → Option Payload
  | .host, _, b => some <| .host
      { name := b.name, address := b.address, port := b.port, workspace := b.workspace.asStr
        position := b.position, groupId := b.groupId, identityId := b.identityId, rdp := b.rdp
        gatewayIdentityId := b.gatewayIdentityId, comment := b.comment, extra := b.extra }
  | .group, _, b => some <| .group
      { workspace := b.workspace.asStr, name := b.name, position := b.position
        identityId := b.identityId, drives := b.drives, extra := b.extra }
  | .identity, _, b => some <| .identity
      { label := b.label, username := b.username, domain := b.domain, authType := b.authType.asStr
        keyId := b.keyId, passwordSecretId := b.passwordSecretId, extra := b.extra }
  | .key, _, b => some (.key b)
  | .snippet, _, b => some (.snippet b)
  | .knownHost, _, b => some (.knownHost b)
  | .secret, id, b => vault.openRecord id .secret b
  | .manifest, _, b => some (.manifest b)

def rowPayload (vault : UnlockedVault) (k : EntityKind) (id : Uuid) (r : Row (Body k)) :
    Option Payload :=
  if r.deleted then some (.bytes []) else payloadOf vault k id r.body

/-- A dirty row as it waits, or `none` if its payload cannot be built. -/
def pendingOf (vault : UnlockedVault) (k : EntityKind) (id : Uuid) (r : Row (Body k)) :
    Option Pending :=
  (rowPayload vault k id r).map fun payload =>
    { id, kind := k, updatedAt := r.hlc, deleted := r.deleted, baseSeq := r.serverSeq, payload }

def dirtyRows (db : Db) (k : EntityKind) : List (Uuid × Row (Body k)) :=
  ((db.rows k).select fun _ r => r.dirty).insertionSort fun a b =>
    toLex (signed a.2.hlc.wallMs, a.2.hlc.counter.toNat) ≤
      toLex (signed b.2.hlc.wallMs, b.2.hlc.counter.toNat)

/-- Rows of one kind waiting to be pushed, with their payload built, and how many have none. -/
def pendingRows (db : Db) (vault : UnlockedVault) (k : EntityKind) (limit : ℕ) :
    List Pending × ℕ :=
  let rows := (dirtyRows db k).take limit
  (rows.filterMap fun r => pendingOf vault k r.1 r.2,
    rows.countP fun r => (pendingOf vault k r.1 r.2).isNone)

def Pending.envelope (vault : UnlockedVault) (p : Pending) : Envelope where
  id := p.id
  vaultId := vault.vaultId
  kind := p.kind
  updatedAt := p.updatedAt
  baseSeq := p.baseSeq
  deleted := p.deleted
  blob := vault.sealSynced p.id p.kind p.updatedAt p.deleted p.payload
  seq := none

/-- A request being filled. -/
structure Batch where
  envelopes : List Envelope
  bytes : ℕ
  leftOut : ℕ
deriving DecidableEq

/-- Put rows into the request until one does not fit any more. A record too large for the protocol
is left out. -/
def Batch.addRows (vault : UnlockedVault) (b : Batch) : List Pending → Batch × Bool
  | [] => (b, false)
  | row :: rest =>
    let env := row.envelope vault
    if maxBlobBytes < env.blob.len then
      addRows vault { b with leftOut := b.leftOut + 1 } rest
    else if b.envelopes ≠ [] ∧ maxBatchBytes < b.bytes + env.blob.len then (b, true)
    else addRows vault
      { b with envelopes := b.envelopes ++ [env], bytes := b.bytes + env.blob.len } rest

def Batch.addKinds (db : Db) (vault : UnlockedVault) (limit : ℕ) (b : Batch) :
    List EntityKind → Batch
  | [] => b
  | k :: ks =>
    if limit ≤ b.envelopes.length then b
    else
      let rows := pendingRows db vault k (limit - b.envelopes.length)
      let next := addRows vault { b with leftOut := b.leftOut + rows.2 } rows.1
      if next.2 then next.1 else addKinds db vault limit next.1 ks

/-- Records changed here and not yet accepted by the server, sealed and ready to push, and how many
were left out. -/
def pendingEnvelopes (db : Db) (vault : Option UnlockedVault) (limit : ℕ) :
    Except StoreError (List Envelope × ℕ) :=
  match vault with
  | none => .error .vaultLocked
  | some vault =>
    let b := Batch.addKinds db vault limit ⟨[], 0, 0⟩ syncedKinds
    .ok (b.envelopes, b.leftOut)

def pendingCount (db : Db) : ℕ :=
  (syncedKinds.map fun k => ((db.rows k).select fun _ r => r.dirty).length).sum

/-- This device's manifest, sealed, when a newer one waits to be pushed. -/
def pendingManifest (db : Db) (vault : Option UnlockedVault) :
    Except StoreError (Option Envelope) :=
  match vault with
  | none => .error .vaultLocked
  | some vault =>
    match (pendingRows db vault .manifest 1).1 with
    | [] => .ok none
    | row :: _ =>
      let env := row.envelope vault
      if maxBlobBytes < env.blob.len then .ok none else .ok (some env)

/-- What one record the server accepted is called. -/
structure Pushed where
  id : Uuid
  kind : EntityKind
  updatedAt : Hlc
  seq : ℕ
deriving DecidableEq

/-- Clear the flag of one record the server took, unless the row changed since. -/
def markOne (db : Db) (p : Pushed) : Db :=
  db.setTable p.kind ((db.rows p.kind).modify p.id fun r =>
    if r.hlc = p.updatedAt then { r with dirty := false, serverSeq := p.seq } else r)

/-- Whether the row is still the one that was pushed. -/
def clears (db : Db) (p : Pushed) : Bool :=
  p.kind.hasTable && ((db.row p.kind p.id).map Row.hlc == some p.updatedAt)

/-- Clear the pending flag for records the server took, and remember the version it gave them. -/
def markPushed (db : Db) : List Pushed → Db × ℕ
  | [] => (db, 0)
  | p :: rest =>
    let next := markPushed (markOne db p) rest
    (next.1, next.2 + if clears db p then 1 else 0)

/-! ## In -/

/-- What came of a batch of pulled records. -/
structure ApplyReport where
  /-- Records written: new ones, updates and tombstones. -/
  applied : ℕ := 0
  /-- Records where this device's version was the newer one and stays. -/
  kept : ℕ := 0
  /-- Records that were already what we have. -/
  identical : ℕ := 0
  /-- Records this build has no table for, or a tombstone for something we never had. -/
  skipped : ℕ := 0
  /-- Records whose seal did not hold, or that belong to another vault. -/
  rejected : ℕ := 0
  /-- Two devices trusted a different key for the same address and port. -/
  hostKeyConflicts : ℕ := 0
  /-- Other devices' manifests that came along. -/
  manifests : ℕ := 0
deriving DecidableEq

def ApplyReport.add (a b : ApplyReport) : ApplyReport where
  applied := a.applied + b.applied
  kept := a.kept + b.kept
  identical := a.identical + b.identical
  skipped := a.skipped + b.skipped
  rejected := a.rejected + b.rejected
  hostKeyConflicts := a.hostKeyConflicts + b.hostKeyConflicts
  manifests := a.manifests + b.manifests

abbrev DbTx := Tx Db StoreError

/-- A placeholder for a record that has not arrived yet: live but empty, with the oldest possible
clock, and never pushed, since it is not a record. -/
def placeholder {β : Type} (b : β) : Row β := ⟨Hlc.zero, false, false, 0, b⟩

/-- `INSERT OR IGNORE` of a placeholder. -/
def stub (k : EntityKind) (b : Body k) (id : Uuid) : DbTx Unit :=
  Tx.modify fun db => if (db.row k id).isSome then db else db.setRow k id (placeholder b)

def stubGroup (id : Uuid) : DbTx Unit := stub .group ⟨.priv, [], 0, none, none, []⟩ id

def stubIdentity (id : Uuid) : DbTx Unit :=
  stub .identity ⟨[], [], [], .password, none, none, []⟩ id

def stubKey (id : Uuid) : DbTx Unit := stub .key ⟨[], [], [], none, none, []⟩ id

def stubSecret (id : Uuid) : DbTx Unit := stub .secret Sealed.empty id

/-- Write a record of the server: `INSERT … ON CONFLICT (id) DO UPDATE`. -/
def upsert (env : Envelope) (k : EntityKind) (b : Body k) : DbTx Unit := do
  let db ← Tx.read
  Tx.require (db.admits k env.id b = true) .sqlite
  Tx.modify fun db => db.setRow k env.id ⟨env.updatedAt, false, false, env.seq.getD 0, b⟩

/-- What the database compares three clock columns by. -/
def sqlKey (c : Hlc) : ℤ ×ₗ ℕ ×ₗ ℕ :=
  toLex (signed c.wallMs, toLex (c.counter.toNat, c.device.toNat))

/-- Remember that a version of a record arrived and was given up without a tombstone. Only the
newest such version per id is kept, as the database compares. -/
def supersede (db : Db) (id : Uuid) (clock : Hlc) : Db :=
  match db.superseded.get? id with
  | none => { db with superseded := db.superseded.set id clock }
  | some old =>
    if sqlKey old < sqlKey clock then { db with superseded := db.superseded.set id clock } else db

/-- `from_payload` of bytes that are not what they should be. -/
def unreadable {α : Type} : DbTx α := Tx.fail (.invalid "record" "unreadable")

def insertHost (env : Envelope) (host : HostPayload) : DbTx ApplyReport := do
  host.groupId.toList.forM stubGroup
  host.identityId.toList.forM stubIdentity
  host.gatewayIdentityId.toList.forM stubIdentity
  upsert env .host
    { name := host.name, address := host.address, port := max host.port 1
      workspace := Workspace.parse host.workspace, position := host.position
      groupId := host.groupId, identityId := host.identityId, rdp := normalizeRdp host.rdp
      comment := host.comment, gatewayIdentityId := host.gatewayIdentityId, extra := host.extra }
  pure { applied := 1 }

def insertGroup (env : Envelope) (group : GroupPayload) : DbTx ApplyReport := do
  group.identityId.toList.forM stubIdentity
  upsert env .group
    { workspace := Workspace.parse group.workspace, name := group.name, position := group.position
      identityId := group.identityId, drives := group.drives, extra := group.extra }
  pure { applied := 1 }

def insertIdentity (env : Envelope) (identity : IdentityPayload) : DbTx ApplyReport := do
  identity.keyId.toList.forM stubKey
  identity.passwordSecretId.toList.forM stubSecret
  upsert env .identity
    { label := identity.label, username := identity.username, domain := identity.domain
      authType := AuthType.parse identity.authType, keyId := identity.keyId
      passwordSecretId := identity.passwordSecretId, extra := identity.extra }
  pure { applied := 1 }

def insertKey (env : Envelope) (key : KeyPayload) : DbTx ApplyReport := do
  key.privateSecretId.toList.forM stubSecret
  key.passphraseSecretId.toList.forM stubSecret
  upsert env .key key
  pure { applied := 1 }

def insertSnippet (env : Envelope) (snippet : SnippetPayload) : DbTx ApplyReport := do
  upsert env .snippet snippet
  pure { applied := 1 }

/-- A host key's record under the address its slot has. -/
def KnownHostPayload.normalized (p : KnownHostPayload) : KnownHostPayload :=
  { p with address := Text.toAsciiLowercase (Text.trim p.address) }

/-- One key per address and port: of two records for one slot the newer one takes it, on every
device. -/
def insertKnownHost (device : UInt32) (env : Envelope) (payload : KnownHostPayload) :
    DbTx ApplyReport := do
  let db ← Tx.read
  match db.rival env.id payload.normalized.address payload.normalized.port with
  | none => do
    upsert env .knownHost payload.normalized
    pure { applied := 1 }
  | some (rivalId, rival) => do
    let conflicts :=
      if rival.body.fingerprintSha256 ≠ payload.fingerprintSha256 ∧
        env.updatedAt.device ≠ device then 1 else 0
    if rival.hlc > env.updatedAt then do
      -- What is here is the newer decision; the record that arrived is never stored.
      Tx.modify fun db => supersede db env.id env.updatedAt
      pure { kept := 1, hostKeyConflicts := conflicts }
    else do
      Tx.modify fun db => supersede db rivalId rival.hlc
      Tx.modify fun db => db.setTable .knownHost ((db.rows .knownHost).erase rivalId)
      upsert env .knownHost payload.normalized
      pure { applied := 1, hostKeyConflicts := conflicts }

/-- The payload is the secret itself. It is sealed again for storage. -/
def insertSecret (vault : UnlockedVault) (env : Envelope) (payload : Payload) :
    DbTx ApplyReport := do
  upsert env .secret (vault.sealRecord env.id .secret payload)
  pure { applied := 1 }

def insertManifest (env : Envelope) (payload : Payload) : DbTx ApplyReport :=
  match Manifest.decode payload with
  | none => pure { skipped := 1 }
  | some manifest =>
    -- The id says whose it is.
    if env.id ≠ Platform.manifestId env.vaultId manifest.device then pure { rejected := 1 }
    else do
      upsert env .manifest manifest
      pure { applied := 1 }

/-- Write a record, whether it is new here or a newer version of one we have. -/
def insertRecord (device : UInt32) (vault : UnlockedVault) (env : Envelope) (payload : Payload) :
    DbTx ApplyReport :=
  match env.kind, payload with
  | .host, .host p => insertHost env p
  | .host, _ => unreadable
  | .group, .group p => insertGroup env p
  | .group, _ => unreadable
  | .identity, .identity p => insertIdentity env p
  | .identity, _ => unreadable
  | .key, .key p => insertKey env p
  | .key, _ => unreadable
  | .snippet, .snippet p => insertSnippet env p
  | .snippet, _ => unreadable
  | .knownHost, .knownHost p => insertKnownHost device env p
  | .knownHost, _ => unreadable
  | .secret, payload => insertSecret vault env payload
  | .manifest, payload => insertManifest env payload
  | .portForward, _ => pure { skipped := 1 }
  | .terminalProfile, _ => pure { skipped := 1 }

def Body.wipe : (k : EntityKind) → Body k → Body k
  | .secret, _ => Sealed.empty
  | _, b => b

def tombstoneRecord (env : Envelope) (r : Row (Body env.kind)) : DbTx ApplyReport := do
  Tx.modify fun db => db.setRow env.kind env.id
    ⟨env.updatedAt, true, false, env.seq.getD 0, Body.wipe env.kind r.body⟩
  pure { applied := 1 }

def applyOne (device : UInt32) (vault : UnlockedVault) (env : Envelope) : DbTx ApplyReport :=
  if env.vaultId ≠ vault.vaultId then pure { rejected := 1 }
  else if !env.kind.hasTable then pure { skipped := 1 }
  else
    match vault.openEnvelope env with
    | none => pure { rejected := 1 }
    | some payload => do
      let db ← Tx.read
      match db.row env.kind env.id with
      | none =>
        -- Something we never had was deleted somewhere else.
        if env.deleted then pure { skipped := 1 } else insertRecord device vault env payload
      | some r =>
        match resolve r.version env.version with
        | .identical => do
          Tx.modify fun db => db.setRow env.kind env.id
            { r with dirty := false, serverSeq := env.seq.getD 0 }
          pure { identical := 1 }
        | .keepLocal => do
          -- Keep it pending, but base the next push on the version the server holds.
          Tx.modify fun db => db.setRow env.kind env.id { r with serverSeq := env.seq.getD 0 }
          pure { kept := 1 }
        | .takeRemote =>
          if env.deleted then tombstoneRecord env r else insertRecord device vault env payload

/-- Whatever a record points at is applied before the record itself. -/
def applySort (envelopes : List Envelope) : List Envelope :=
  envelopes.insertionSort fun a b =>
    toLex (a.kind.applyRank, a.seq.getD 0) ≤ toLex (b.kind.applyRank, b.seq.getD 0)

/-- One record after the other; the newest clock that arrived is what the local one catches up
with. -/
def applyAll (device : UInt32) (vault : UnlockedVault) :
    List Envelope → ApplyReport → Option Hlc → DbTx (ApplyReport × Option Hlc)
  | [], report, newest => pure (report, newest)
  | env :: rest, report, newest => do
    let outcome ← applyOne device vault env
    let report' :=
      if env.kind = .manifest ∧ outcome.rejected = 0 then
        { report with manifests := report.manifests + 1 }
      else report.add outcome
    let newest' :=
      if outcome.rejected = 0 then
        some (newest.elim env.updatedAt fun seen => max seen env.updatedAt)
      else newest
    applyAll device vault rest report' newest'

def catchUp (device : UInt32) (now : UInt64) : Option Hlc → DbTx Unit
  | none => pure ()
  | some remote => Tx.modify fun db => db.setClock ((db.clock device).merge remote now)

def applyEnvelopes (device : UInt32) (vault : Option UnlockedVault) (now : UInt64)
    (envelopes : List Envelope) : DbTx ApplyReport :=
  if envelopes.isEmpty then pure {}
  else
    match vault with
    | none => Tx.fail .vaultLocked
    | some vault => do
      let result ← applyAll device vault (applySort envelopes) {} none
      catchUp device now result.2
      pure result.1

/-! ## Where this device stands with its server -/

def setSyncCursor (db : Db) (cursor : ℕ) : Db := { db with cursor }

end UwuRdp
