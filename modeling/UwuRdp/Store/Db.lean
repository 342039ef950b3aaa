import UwuRdp.Lib.Table
import UwuRdp.Lib.Tx
import UwuRdp.Proto.Vault
import Mathlib.Logic.Function.Basic

/-!
# The local store

One database with everything the program knows: a table of rows for each kind of record, the
device's clock, what is remembered about the server, and what the last check of the manifests found.
Every row carries the sync header: its clock, whether it is a tombstone, whether it waits to be
pushed, and the version the server last gave it. A store call is one transaction; it reads the
system clock and makes new ids, and both come from outside.

The write primitives check what the database checks: an id is new when a row is inserted, what a
row points at exists, and an address and port have one host key.
-/

namespace UwuRdp

open Lib

/-- What the standard library and the hash bring along. -/
class Platform where
  /-- `str::to_lowercase`. -/
  toLowercase : Text → Text
  /-- The id of a device's manifest in a vault: a version-8 UUID from a hash of both. -/
  manifestId : Uuid → UInt32 → Uuid

/-! ## Rows -/

inductive Workspace where
  | priv
  | business
deriving DecidableEq

namespace Workspace

def asStr : Workspace → Text
  | priv => "private".toList
  | business => "business".toList

/-- A workspace this build does not know is the private one. -/
def parse (value : Text) : Workspace := if value = "business".toList then business else priv

end Workspace

inductive AuthType where
  | password
  | key
  | agent
  | keyboardInteractive
  | cert
deriving DecidableEq

namespace AuthType

def asStr : AuthType → Text
  | password => "password".toList
  | key => "key".toList
  | agent => "agent".toList
  | keyboardInteractive => "keyboard-interactive".toList
  | cert => "cert".toList

/-- `auth_type_of`: what this build does not know is a password. -/
def parse (value : Text) : AuthType :=
  if value = "key".toList then key
  else if value = "agent".toList then agent
  else if value = "keyboard-interactive".toList then keyboardInteractive
  else if value = "cert".toList then cert
  else password

end AuthType

/-- A row of `hosts`. -/
structure HostBody where
  name : Text
  address : Text
  port : UInt16
  workspace : Workspace
  position : ℤ
  groupId : Option Uuid
  identityId : Option Uuid
  rdp : RdpSettings
  comment : Text
  gatewayIdentityId : Option Uuid
  extra : Extra
deriving DecidableEq

/-- A row of `host_groups`. -/
structure GroupBody where
  workspace : Workspace
  name : Text
  position : ℤ
  identityId : Option Uuid
  drives : Option DriveRedirection
  extra : Extra
deriving DecidableEq

/-- A row of `identities`. -/
structure IdentityBody where
  label : Text
  username : Text
  domain : Text
  authType : AuthType
  keyId : Option Uuid
  passwordSecretId : Option Uuid
  extra : Extra
deriving DecidableEq

/-- The columns of a kind's table. Port forwards and terminal profiles have none yet. -/
abbrev Body : EntityKind → Type
  | .host => HostBody
  | .group => GroupBody
  | .identity => IdentityBody
  | .key => KeyPayload
  | .snippet => SnippetPayload
  | .knownHost => KnownHostPayload
  | .secret => Sealed
  | .manifest => Manifest
  | .portForward => Empty
  | .terminalProfile => Empty

/-- `table_of`: whether a kind has a table. -/
def EntityKind.hasTable : EntityKind → Bool
  | .portForward => false
  | .terminalProfile => false
  | _ => true

/-- The records a row points at, by its foreign keys. -/
def Body.refs : (k : EntityKind) → Body k → List (EntityKind × Uuid)
  | .host, b => b.groupId.toList.map (EntityKind.group, ·) ++
      b.identityId.toList.map (EntityKind.identity, ·) ++
      b.gatewayIdentityId.toList.map (EntityKind.identity, ·)
  | .group, b => b.identityId.toList.map (EntityKind.identity, ·)
  | .identity, b => b.keyId.toList.map (EntityKind.key, ·) ++
      b.passwordSecretId.toList.map (EntityKind.secret, ·)
  | .key, b => b.privateSecretId.toList.map (EntityKind.secret, ·) ++
      b.passphraseSecretId.toList.map (EntityKind.secret, ·)
  | .snippet, _ => []
  | .knownHost, _ => []
  | .secret, _ => []
  | .manifest, _ => []

/-- A row: the sync header and the columns of its kind. -/
structure Row (β : Type) where
  hlc : Hlc
  deleted : Bool
  dirty : Bool
  serverSeq : ℕ
  body : β
deriving DecidableEq

def Row.version {β : Type} (r : Row β) : Version := ⟨r.hlc, r.deleted⟩

/-- The oldest possible clock, which only placeholders have. -/
def Hlc.zero : Hlc := ⟨0, 0, 0⟩

/-- The sync header of a row, which is all that pushing, pulling and checking decide by. -/
structure Head where
  hlc : Hlc
  deleted : Bool
  dirty : Bool
  serverSeq : ℕ
deriving DecidableEq

def Row.head {β : Type} (r : Row β) : Head := ⟨r.hlc, r.deleted, r.dirty, r.serverSeq⟩

def Head.version (h : Head) : Version := ⟨h.hlc, h.deleted⟩

/-! ## The database -/

/-- What was wrong with one record a manifest listed. -/
inductive Problem where
  /-- Not here at all. -/
  | missing
  /-- Here, but only in a version older than the one listed. -/
  | older
  /-- Expected and not checked yet. -/
  | unchecked
  /-- A pull that never reached the end. -/
  | incomplete
deriving DecidableEq

/-- A manifest a joining device must see before it believes it has everything. -/
structure ManifestFloor where
  id : Uuid
  clock : Hlc
deriving DecidableEq

/-- Bytes the operating system sealed for this user. -/
structure Protected (α : Type) where
  plain : α
deriving DecidableEq

/-- The pairing with a server, as it is kept. -/
structure Enrolment where
  serverUrl : Text
  accountId : Uuid
  deviceId : Uuid
  tlsFingerprint : Option Text
  protectedDeviceKey : Protected ℕ
  protectedAccountKey : Option (Protected AccountKey)
deriving DecidableEq

/-- What is kept of UwULock. -/
structure LockState where
  active : Bool
  serverUrl : Option Text
  email : Option Text
  spaceId : Option Uuid
deriving DecidableEq

/-- The database. -/
structure Db where
  vaultId : Uuid
  clockWallMs : UInt64
  clockCounter : UInt32
  rows : (k : EntityKind) → Table Uuid (Row (Body k))
  /-- Versions that arrived and were given up without a tombstone. -/
  superseded : Table Uuid Hlc
  /-- What the last check found, by the kind's number and the id. -/
  violations : Table (ℕ × Uuid) Problem
  /-- The server sequence number everything up to which this device has seen. -/
  cursor : ℕ
  floor : Option ManifestFloor
  header : Option VaultHeader
  enrolment : Option Enrolment
  lock : LockState

namespace Db

def fresh (vaultId : Uuid) : Db where
  vaultId := vaultId
  clockWallMs := 0
  clockCounter := 0
  rows := fun _ => Table.empty
  superseded := Table.empty
  violations := Table.empty
  cursor := 0
  floor := none
  header := none
  enrolment := none
  lock := ⟨false, none, none, none⟩

def row (db : Db) (k : EntityKind) (id : Uuid) : Option (Row (Body k)) := (db.rows k).get? id

def head (db : Db) (k : EntityKind) (id : Uuid) : Option Head := (db.row k id).map Row.head

/-- The clock in `meta`, as the device's timestamp. -/
def clock (db : Db) (device : UInt32) : Hlc := ⟨db.clockWallMs, db.clockCounter, device⟩

def setClock (db : Db) (c : Hlc) : Db :=
  { db with clockWallMs := c.wallMs, clockCounter := c.counter }

def setTable (db : Db) (k : EntityKind) (t : Table Uuid (Row (Body k))) : Db :=
  { db with rows := Function.update db.rows k t }

def setRow (db : Db) (k : EntityKind) (id : Uuid) (r : Row (Body k)) : Db :=
  db.setTable k ((db.rows k).set id r)

def refsExist (db : Db) (k : EntityKind) (b : Body k) : Bool :=
  (Body.refs k b).all fun ref => (db.row ref.1 ref.2).isSome

/-- The row that holds an address and port, other than the one of an id. -/
def rival (db : Db) (id : Uuid) (address : Text) (port : UInt16) :
    Option (Uuid × Row KnownHostPayload) :=
  (db.rows .knownHost).find? fun i r => r.body.address = address && r.body.port = port && i ≠ id

/-- `UNIQUE (address, port)`. -/
def slotFree (db : Db) (id : Uuid) : (k : EntityKind) → Body k → Bool
  | .knownHost, b => (db.rival id b.address b.port).isNone
  | _, _ => true

def admits (db : Db) (k : EntityKind) (id : Uuid) (b : Body k) : Bool :=
  db.refsExist k b && db.slotFree id k b

variable {db : Db} {k k' : EntityKind} {id id' : Uuid}

@[simp] theorem row_fresh (vaultId : Uuid) (k : EntityKind) (id : Uuid) :
    (fresh vaultId).row k id = none := rfl

@[simp] theorem row_setClock (db : Db) (c : Hlc) (k : EntityKind) (id : Uuid) :
    (db.setClock c).row k id = db.row k id := rfl

@[simp] theorem setTable_rows_self (db : Db) (k : EntityKind) (t : Table Uuid (Row (Body k))) :
    (db.setTable k t).rows k = t := by
  simp only [setTable, Function.update_self]

theorem setTable_rows_ne (t : Table Uuid (Row (Body k))) (h : k' ≠ k) : (db.setTable k t).rows k' = db.rows k' := by
  simp only [setTable, Function.update_of_ne h]

@[simp] theorem row_setRow_self (db : Db) (k : EntityKind) (id : Uuid) (r : Row (Body k)) :
    (db.setRow k id r).row k id = some r := by
  rw [row, setRow, setTable_rows_self, Table.get?_set_self]

variable {r : Row (Body k)}

theorem row_setRow_ne_id (h : id' ≠ id) : (db.setRow k id r).row k id' = db.row k id' := by
  rw [row, setRow, setTable_rows_self, Table.get?_set_ne h, row]

theorem row_setRow_ne_kind (h : k' ≠ k) : (db.setRow k id r).row k' id' = db.row k' id' := by
  rw [row, setRow, setTable_rows_ne _ h, row]

theorem row_setRow_ne (h : ¬(k' = k ∧ id' = id)) : (db.setRow k id r).row k' id' = db.row k' id' := by
  by_cases hk : k' = k
  · subst hk
    exact row_setRow_ne_id fun hid => h ⟨rfl, hid⟩
  · exact row_setRow_ne_kind hk

theorem head_eq_none : db.head k id = none ↔ db.row k id = none := Option.map_eq_none_iff

theorem head_eq_some {h : Head} : db.head k id = some h ↔ ∃ r, db.row k id = some r ∧ r.head = h :=
  Option.map_eq_some_iff

@[simp] theorem head_fresh (vaultId : Uuid) (k : EntityKind) (id : Uuid) :
    (fresh vaultId).head k id = none := rfl

@[simp] theorem head_setRow_self (db : Db) (k : EntityKind) (id : Uuid) (r : Row (Body k)) :
    (db.setRow k id r).head k id = some r.head := by
  rw [head, row_setRow_self, Option.map_some]

theorem head_setRow_ne (h : ¬(k' = k ∧ id' = id)) : (db.setRow k id r).head k' id' = db.head k' id' := by
  rw [head, row_setRow_ne h, head]

theorem head_setRow (db : Db) (k : EntityKind) (id : Uuid) (r : Row (Body k)) (k' : EntityKind)
    (id' : Uuid) : (db.setRow k id r).head k' id' =
      if k' = k ∧ id' = id then some r.head else db.head k' id' := by
  split
  · next h =>
    obtain ⟨rfl, rfl⟩ := h
    exact head_setRow_self db k' id' r
  · next h => exact head_setRow_ne h

end Db

/-! ## Store calls -/

inductive StoreError where
  /-- A database error: a constraint that does not hold, a number out of range. -/
  | sqlite
  | invalid (field problem : String)
  | unknownHost (id : Uuid)
  | vaultLocked
  | vaultExists
  | noVault
  | vault (e : VaultError)
  | device
deriving DecidableEq

/-- What a store call has besides the database: this device, the vault if it is open, and what the
system answers while it runs. -/
structure Session where
  device : UInt32
  vault : Option UnlockedVault
  /-- The readings of the system clock, in order. -/
  now : ℕ → UInt64
  /-- The ids `Uuid::now_v7` makes, in order. -/
  newId : ℕ → Uuid

/-- The database inside a transaction, and how many answers of the system are used up. -/
structure TxState where
  db : Db
  asked : ℕ

abbrev StoreTx := Tx TxState StoreError

namespace StoreTx

def query {α : Type} (f : Db → α) : StoreTx α := do
  let s ← Tx.read
  pure (f s.db)

def execute (f : Db → Db) : StoreTx Unit := Tx.modify fun s => { s with db := f s.db }

/-- `now_ms`. -/
def nowMs (cx : Session) : StoreTx UInt64 := do
  let s ← Tx.read
  Tx.modify fun s => { s with asked := s.asked + 1 }
  pure (cx.now s.asked)

/-- `Uuid::now_v7`. -/
def nowV7 (cx : Session) : StoreTx Uuid := do
  let s ← Tx.read
  Tx.modify fun s => { s with asked := s.asked + 1 }
  pure (cx.newId s.asked)

/-- Advance the local hybrid logical clock inside a write transaction. -/
def tick (cx : Session) : StoreTx Hlc := do
  let now ← nowMs cx
  let next ← query fun db => (db.clock cx.device).tick now
  execute fun db => db.setClock next
  pure next

/-- `INSERT`: the id must be new, and the constraints must hold. -/
def insertRow (k : EntityKind) (id : Uuid) (r : Row (Body k)) : StoreTx Unit := do
  let ok ← query fun db => (db.row k id).isNone && db.admits k id r.body
  Tx.require (ok = true) .sqlite
  execute fun db => db.setRow k id r

/-- `UPDATE … WHERE id`: nothing happens without such a row, and the constraints must hold
afterwards. -/
def updateRow (k : EntityKind) (id : Uuid) (f : Row (Body k) → Row (Body k)) : StoreTx Unit := do
  let old ← query fun db => db.row k id
  match old with
  | none => pure ()
  | some r => do
    let ok ← query fun db => db.admits k id (f r).body
    Tx.require (ok = true) .sqlite
    execute fun db => db.setRow k id (f r)

end StoreTx

/-- What a store call leaves: its database and its answer, or the error and the old database. -/
def Session.run {α : Type} (db : Db) (m : StoreTx α) : Except StoreError α × Db :=
  match m ⟨db, 0⟩ with
  | .ok (a, s) => (.ok a, s.db)
  | .error e => (.error e, db)

end UwuRdp
