import Mathlib.Data.List.Dedup
import UwuRdp.Store.Db

/-!
# Schema versions

The database keeps the version of its schema. Each upgrade is one transaction, and a database that is opened
goes through those it still lacks: groups turn from names on hosts into records of their own and then into ids,
with repairs in between, and rows get what sync needs of them. A version has its own type of row, so that
no upgrade reads what is not there yet.
-/

namespace UwuRdp

open Lib

namespace Schema

def schemaVersion : ℕ := 9

/-! ## Rows -/

/-- What every row starts with. -/
structure Header where
  vaultId : Text
  hlcWallMs : ℤ
  hlcCounter : ℤ
  hlcDevice : ℤ
  rev : ℤ
  deleted : Bool
deriving DecidableEq

structure Row (β : Type) extends Header where
  body : β
deriving DecidableEq

/-- A row that travels: `dirty` is changed here and not yet accepted by the server. -/
structure Tracked (β : Type) extends Row β where
  dirty : Bool
  serverSeq : ℤ
deriving DecidableEq

/-- A row that also keeps what a newer build wrote. -/
structure Synced (β : Type) extends Tracked β where
  syncExtra : Option Text
deriving DecidableEq

structure Meta where
  deviceId : ℤ
  vaultId : Text
deriving DecidableEq

structure Identity1 where
  label : Text
  username : Text
  authType : AuthType
  keyPath : Option Text
deriving DecidableEq

structure Identity2 extends Identity1 where
  passwordSecretId : Option Text
  keyId : Option Text
deriving DecidableEq

structure Identity7 extends Identity2 where
  domain : Text
deriving DecidableEq

structure HostCore where
  name : Text
  address : Text
  port : { n : ℕ // 1 ≤ n ∧ n ≤ 65535 }
  identityId : Option Text
  lastConnectedMs : Option ℤ
deriving DecidableEq

structure Host1 extends HostCore where
  groupPath : Option Text
deriving DecidableEq

structure Host3 extends Host1 where
  workspace : Workspace
  position : ℤ
  osId : Option Text
deriving DecidableEq

structure Host4 extends HostCore where
  workspace : Workspace
  position : ℤ
  osId : Option Text
  groupId : Option Text
deriving DecidableEq

structure Host7 extends Host4 where
  rdp : Option Text
  comment : Text
  gatewayIdentityId : Option Text
deriving DecidableEq

structure KnownHost where
  address : Text
  port : ℤ
  algorithm : Text
  fingerprintSha256 : Text
  publicKey : Text
  firstSeenMs : ℤ
deriving DecidableEq

structure Secret where
  nonce : List UInt8
  blob : List UInt8
deriving DecidableEq

structure Key where
  label : Text
  keyType : Text
  publicKey : Text
  privateSecretId : Option Text
  passphraseSecretId : Option Text
deriving DecidableEq

structure Snippet where
  label : Text
  body : Text
  groupPath : Option Text
deriving DecidableEq

structure Group3 where
  workspace : Workspace
  name : Text
  position : ℤ
deriving DecidableEq

structure Group7 extends Group3 where
  identityId : Option Text
deriving DecidableEq

structure Group9 extends Group7 where
  drives : Option Text
deriving DecidableEq

/-! ## Databases -/

structure Db1 where
  info : Meta
  identities : Table Text (Row Identity1)
  hosts : Table Text (Row Host1)
  knownHosts : Table Text (Row KnownHost)

structure Db2 where
  info : Meta
  identities : Table Text (Row Identity2)
  hosts : Table Text (Row Host1)
  knownHosts : Table Text (Row KnownHost)
  secrets : Table Text (Row Secret)
  keys : Table Text (Row Key)
  snippets : Table Text (Row Snippet)

structure Db3 where
  info : Meta
  identities : Table Text (Row Identity2)
  hosts : Table Text (Row Host3)
  knownHosts : Table Text (Row KnownHost)
  secrets : Table Text (Row Secret)
  keys : Table Text (Row Key)
  snippets : Table Text (Row Snippet)
  hostGroups : Table Text (Row Group3)

/-- The tables from version 4 on; what the versions after it add is in the rows. -/
structure Tables (ι η γ : Type) where
  info : Meta
  identities : Table Text (Synced ι)
  hosts : Table Text (Synced η)
  knownHosts : Table Text (Synced KnownHost)
  secrets : Table Text (Tracked Secret)
  keys : Table Text (Synced Key)
  snippets : Table Text (Synced Snippet)
  hostGroups : Table Text (Synced γ)

abbrev Db4 := Tables Identity2 Host4 Group3

abbrev Db7 := Tables Identity7 Host7 Group7

structure Db8 extends Db7 where
  deviceIdentifier : Text

structure Db9 extends Tables Identity7 Host7 Group9 where
  deviceIdentifier : Text

/-- A database file: one of a version this build knows, or of a newer one. -/
inductive Database where
  | v0
  | v1 (db : Db1)
  | v2 (db : Db2)
  | v3 (db : Db3)
  | v4 (db : Db4)
  | v5 (db : Db4)
  | v6 (db : Db4)
  | v7 (db : Db7)
  | v8 (db : Db8)
  | v9 (db : Db9)
  | newer (version : ℕ) (h : schemaVersion < version)

/-- `user_version` -/
def Database.version : Database → ℕ
  | .v0 => 0
  | .v1 _ => 1
  | .v2 _ => 2
  | .v3 _ => 3
  | .v4 _ => 4
  | .v5 _ => 5
  | .v6 _ => 6
  | .v7 _ => 7
  | .v8 _ => 8
  | .v9 _ => 9
  | .newer version _ => version

inductive MigrateError where
  | schemaTooNew (found known : ℕ)
  /-- A row with the id of another. -/
  | constraint
deriving DecidableEq

/-! ## What is made up on the way -/

/-- What the random numbers of an upgrade turn out as: the ids of groups by what they are made for. -/
structure Random where
  deviceId : UInt32
  vaultId : Text
  /-- For a name a host gives, in the upgrade to version 3. -/
  group3 : Text → Text
  /-- For a name without a record, in the upgrade to version 4. -/
  group4 : Workspace × Text → Text
  deviceIdentifier : Text

/-- What SQLite does with JSON: `read` is a valid text's document, `write` its text; objects have fields in
their order. -/
structure SqliteJson (V : Type) where
  read : Text → Option V
  write : V → Text
  fields : V → Option (List (Text × V))
  object : List (Text × V) → V

/-! ## Upgrades -/

section Upgrades

variable {β γ : Type}

def Row.withBody (row : Row β) (f : β → γ) : Row γ := { row.toHeader with body := f row.body }

def Synced.withBody (row : Synced β) (f : β → γ) : Synced γ :=
  { row.toRow.withBody f with dirty := row.dirty, serverSeq := row.serverSeq, syncExtra := row.syncExtra }

/-- An insert fails where there is a row under the id. -/
def insert (table : Table Text β) (id : Text) (row : β) : Except MigrateError (Table Text β) :=
  if table.get? id = none then .ok (table.set id row) else .error .constraint

/-- `V1` -/
def create (random : Random) : Db1 :=
  ⟨⟨random.deviceId.toNat, random.vaultId⟩, .empty, .empty, .empty⟩

/-- `V2` -/
def Db1.toV2 (db : Db1) : Db2 where
  info := db.info
  identities := db.identities.mapRows fun row => row.withBody fun b => ⟨b, none, none⟩
  hosts := db.hosts
  knownHosts := db.knownHosts
  secrets := .empty
  keys := .empty
  snippets := .empty

/-- The order of `lower(a)` and `lower(b)` -/
def lowerLe (a b : Text) : Bool := Text.le (Text.toAsciiLowercase a) (Text.toAsciiLowercase b)

/-- Every group a live host names, in alphabetical order. -/
def groupPaths (hosts : Table Text (Row Host1)) : List Text :=
  ((hosts.entries.filterMap fun e => if e.2.deleted then none else e.2.body.groupPath).dedup).mergeSort lowerLe

def Meta.header (info : Meta) : Header := ⟨info.vaultId, 0, 0, info.deviceId, 1, false⟩

def insertGroups3 (random : Random) (info : Meta) (names : List Text) :
    Except MigrateError (Table Text (Row Group3)) :=
  names.zipIdx.foldlM (fun groups e =>
    insert groups (random.group3 e.1) { info.header with body := ⟨.priv, e.1, e.2⟩ }) .empty

def reviveLogins (hosts : Table Text (Row Host1)) (identities : Table Text (Row Identity2)) :
    Table Text (Row Identity2) :=
  identities.map fun id row =>
    if row.deleted ∧ (hosts.entries.any fun e => !e.2.deleted && e.2.body.identityId == some id) then
      { row with deleted := false }
    else row

def secretUsed (identities : Table Text (Row Identity2)) (keys : Table Text (Row Key)) (id : Text) : Bool :=
  (identities.entries.any fun e => !e.2.deleted && e.2.body.passwordSecretId == some id) ||
    (keys.entries.any fun e => !e.2.deleted && e.2.body.privateSecretId == some id) ||
    (keys.entries.any fun e => !e.2.deleted && e.2.body.passphraseSecretId == some id)

def eraseSecrets (identities : Table Text (Row Identity2)) (keys : Table Text (Row Key))
    (secrets : Table Text (Row Secret)) : Table Text (Row Secret) :=
  secrets.map fun id row =>
    if row.deleted = false ∧ secretUsed identities keys id = false then
      { row with deleted := true, rev := row.rev + 1, body := ⟨[], []⟩ }
    else row

/-- `V3`, with a record for every group and the repairs -/
def Db2.toV3 (random : Random) (db : Db2) : Except MigrateError Db3 := do
  let hostGroups ← insertGroups3 random db.info (groupPaths db.hosts)
  let identities := reviveLogins db.hosts db.identities
  return {
    info := db.info
    identities := identities
    hosts := db.hosts.mapRows fun row => row.withBody fun b => ⟨b, .priv, 0, none⟩
    knownHosts := db.knownHosts
    secrets := eraseSecrets identities db.keys db.secrets
    keys := db.keys
    snippets := db.snippets
    hostGroups := hostGroups }

/-- A row with what sync needs: a tombstone from before there was a server has nobody to tell. -/
def Row.track (row : Row β) : Tracked β := { row with dirty := !row.deleted, serverSeq := 0 }

def Row.sync (row : Row β) : Synced β := { row.track with syncExtra := none }

/-- A host with its group by name and by id. -/
structure HostBoth extends Host3 where
  groupId : Option Text
deriving DecidableEq

/-- A host as version 3 has it, with the columns for sync and no group by id yet. -/
def Row.both (row : Row Host3) : Synced HostBoth := row.sync.withBody fun b => HostBoth.mk b none

/-- `V4_DROP_GROUP_PATH` -/
def Synced.dropPath (row : Synced HostBoth) : Synced Host4 :=
  row.withBody fun b =>
    { b.toHostCore with workspace := b.workspace, position := b.position, osId := b.osId, groupId := b.groupId }

/-- The workspaces and names of groups that live hosts give, in order. -/
def namedGroups (hosts : Table Text (Synced HostBoth)) : List (Workspace × Text) :=
  ((hosts.entries.filterMap fun e =>
    if e.2.deleted then none else e.2.body.groupPath.map fun name => (e.2.body.workspace, name)).dedup).mergeSort
    fun a b => Text.le a.1.asStr b.1.asStr && (!Text.le b.1.asStr a.1.asStr || lowerLe a.2 b.2)

/-- The group of a workspace under a name; `host_groups_live` has the lowest position first. -/
def existing (groups : Table Text (Synced Group3)) (group : Workspace × Text) : Option Text :=
  (((groups.select fun _ row => !row.deleted && row.body.workspace == group.1 && row.body.name == group.2).mergeSort
    fun a b => a.2.body.position ≤ b.2.body.position).head?).map Prod.fst

/-- `coalesce(max(position) + 1, 0)` -/
def nextPosition (groups : Table Text (Synced Group3)) (workspace : Workspace) : ℤ :=
  (((groups.select fun _ row => !row.deleted && row.body.workspace == workspace).map
    fun e => e.2.body.position).max?).elim 0 (· + 1)

/-- One named group gets a record if it has none, and its hosts point at it by id. -/
def linkGroup (random : Random) (info : Meta)
    (tables : Table Text (Synced Group3) × Table Text (Synced HostBoth)) (group : Workspace × Text) :
    Except MigrateError (Table Text (Synced Group3) × Table Text (Synced HostBoth)) := do
  let (groups, hosts) := tables
  let (id, groups) ← match existing groups group with
    | some id => pure (id, groups)
    | none => do
      let id := random.group4 group
      let groups ← insert groups id
        { info.header with
          body := ⟨group.1, group.2, nextPosition groups group.1⟩
          dirty := true
          serverSeq := 0
          syncExtra := none }
      pure (id, groups)
  return (groups, hosts.map fun _ row =>
    if row.body.workspace = group.1 ∧ row.body.groupPath = some group.2 ∧ row.deleted = false then
      { row with body := { row.body with groupId := some id } }
    else row)

/-- `V4`, with the hosts pointing at their groups by id -/
def Db3.toV4 (random : Random) (db : Db3) : Except MigrateError Db4 := do
  let hosts := db.hosts.mapRows Row.both
  let (hostGroups, hosts) ← (namedGroups hosts).foldlM (linkGroup random db.info)
    (db.hostGroups.mapRows Row.sync, hosts)
  return {
    info := db.info
    identities := db.identities.mapRows Row.sync
    hosts := hosts.mapRows Synced.dropPath
    knownHosts := db.knownHosts.mapRows Row.sync
    secrets := db.secrets.mapRows Row.track
    keys := db.keys.mapRows Row.sync
    snippets := db.snippets.mapRows Row.sync
    hostGroups := hostGroups }

/-- `V7` -/
def Tables.toV7 (db : Db4) : Db7 :=
  { db with
    identities := db.identities.mapRows fun row => row.withBody fun b => ⟨b, []⟩
    hosts := db.hosts.mapRows fun row => row.withBody fun b => ⟨b, none, [], none⟩
    hostGroups := db.hostGroups.mapRows fun row => row.withBody fun b => ⟨b, none⟩ }

/-- `V8` -/
def Tables.toV8 (random : Random) (db : Db7) : Db8 := ⟨db, random.deviceIdentifier⟩

variable {V : Type} (json : SqliteJson V)

def drivesKey : Text := "drives".toList

/-- The fields with the first `drives` taken out, if there is one. -/
def takeDrives : List (Text × V) → Option (V × List (Text × V))
  | [] => none
  | (name, value) :: fields =>
    if name = drivesKey then some (value, fields)
    else (takeDrives fields).map fun found => (found.1, (name, value) :: found.2)

/-- The `drives` of a `sync_extra`, where that has them as an object, and what is left of it. -/
def moveDrives (extra : Option Text) : Option Text × Option Text :=
  match extra.bind json.read with
  | none => (none, extra)
  | some document =>
    match (json.fields document).bind takeDrives with
    | none => (none, extra)
    | some (drives, rest) =>
      if (json.fields drives).isSome then
        let left := json.write (json.object rest)
        (some (json.write drives), if left = "{}".toList then none else some left)
      else (none, extra)

/-- `V9` -/
def Db8.toV9 (db : Db8) : Db9 where
  toTables := { db.toTables with
    hostGroups := db.hostGroups.mapRows fun row =>
      { row.withBody fun b => Group9.mk b (moveDrives json row.syncExtra).1 with
        syncExtra := (moveDrives json row.syncExtra).2 } }
  deviceIdentifier := db.deviceIdentifier

/-! ## Migrating -/

/-- The next upgrade of a database, one transaction that also writes the new version. -/
def upgrade (random : Random) : Database → Except MigrateError Database
  | .v0 => .ok (.v1 (create random))
  | .v1 db => .ok (.v2 db.toV2)
  | .v2 db => (db.toV3 random).map .v3
  | .v3 db => (db.toV4 random).map .v4
  -- What the next two add, no upgrade reads.
  | .v4 db => .ok (.v5 db)
  | .v5 db => .ok (.v6 db)
  | .v6 db => .ok (.v7 db.toV7)
  | .v7 db => .ok (.v8 (db.toV8 random))
  | .v8 db => .ok (.v9 (db.toV9 json))
  | db => .ok db

/-- So many upgrades, each committed before the next. -/
def upgrades (random : Random) : ℕ → Database → Except MigrateError Database
  | 0, db => .ok db
  | n + 1, db => upgrade json random db >>= upgrades random n

/-- `migrate` -/
def migrate (random : Random) (db : Database) : Except MigrateError Database :=
  if schemaVersion < db.version then .error (.schemaTooNew db.version schemaVersion)
  else upgrades json random (schemaVersion - db.version) db

end Upgrades

end Schema

end UwuRdp
