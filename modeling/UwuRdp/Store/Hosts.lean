import UwuRdp.Store.Logins
import Mathlib.Data.List.Sort

/-!
# Hosts

A host lives in a workspace and optionally a group, at a position the user dragged it to. Its login
is its own or, when it has none, the one its group hands down; a gateway in front of it can have one
too.
-/

namespace UwuRdp

open Lib

/-! ## Groups by name -/

def blankToNone (value : Option Text) : Option Text :=
  (value.map Text.trim).filter fun v => !v.isEmpty

/-- A group name as typed: trimmed, not empty, one line, not a novel. -/
def groupName (value : Option Text) : Except StoreError (Option Text) :=
  match blankToNone value with
  | none => .ok none
  | some name =>
    if name.any Text.isControl then .error (.invalid "groupPath" "control")
    else if 80 < name.length then .error (.invalid "groupPath" "too-long")
    else .ok (some name)

def namedGroups (db : Db) (workspace : Workspace) (name : Text) : List (Uuid × Row GroupBody) :=
  (db.rows .group).select fun _ r =>
    !r.deleted && r.body.workspace = workspace && r.body.name = name

/-- The id of a live group by workspace and name: the first by id. -/
def groupId (db : Db) (workspace : Workspace) (name : Text) : Option Uuid :=
  (((namedGroups db workspace name).map Prod.fst).insertionSort (· ≤ ·)).head?

/-- The largest value of an `i64` column. -/
def i64Max : ℤ := 2 ^ 63 - 1

/-- `coalesce(max(position) + 1, 0)`; past the end of an `i64` it is no integer any more. -/
def afterLast (positions : List ℤ) : StoreTx ℤ :=
  match positions.foldl (fun m p => some (m.elim p (max p))) none with
  | none => pure 0
  | some m => do
    Tx.require (m + 1 ≤ i64Max) .sqlite
    pure (m + 1)

/-- The id of the group a host names, creating the record if it is new. -/
def ensureGroup (cx : Session) (workspace : Workspace) (name : Text) : StoreTx Uuid := do
  let found ← StoreTx.query fun db => groupId db workspace name
  match found with
  | some id => pure id
  | none => do
    let positions ← StoreTx.query fun db =>
      ((db.rows .group).select fun _ r => !r.deleted && r.body.workspace = workspace).map
        fun r => r.2.body.position
    let position ← afterLast positions
    let clock ← StoreTx.tick cx
    let id ← StoreTx.nowV7 cx
    StoreTx.insertRow .group id (newRow clock ⟨workspace, name, position, none, none, []⟩)
    pure id

/-- The group a host goes to: none, or the one of that name. -/
def ensureGroupPath (cx : Session) (workspace : Workspace) : Option Text → StoreTx (Option Uuid)
  | none => pure none
  | some name => do
    let id ← ensureGroup cx workspace name
    pure (some id)

def nextPosition (workspace : Workspace) (group : Option Uuid) : StoreTx ℤ := do
  let positions ← StoreTx.query fun db =>
    ((db.rows .host).select fun _ r =>
      !r.deleted && r.body.workspace = workspace && r.body.groupId = group).map
        fun r => r.2.body.position
  afterLast positions

/-! ## Reading -/

/-- A host as the user interface sees it, with its own login and its gateway's flattened in. -/
structure HostRecord where
  id : Uuid
  name : Text
  address : Text
  port : UInt16
  login : LoginView
  groupPath : Option Text
  workspace : Workspace
  position : ℤ
  rdp : RdpSettings
  comment : Text
  gateway : LoginView
deriving DecidableEq

/-- The name of a host's group; a placeholder's empty name and a deleted group are none. -/
def groupPath (db : Db) (group : Option Uuid) : Option Text :=
  ((group.bind fun g => (db.row .group g).filter fun r => !r.deleted).map fun r => r.body.name).filter
    fun name => !name.isEmpty

def liveHost (db : Db) (id : Uuid) : Option (Row HostBody) :=
  (db.row .host id).filter fun r => !r.deleted

def readHost (db : Db) (id : Uuid) : Option HostRecord :=
  (liveHost db id).map fun r =>
    { id, name := r.body.name, address := r.body.address, port := r.body.port
      login := readLogin db r.body.identityId, groupPath := groupPath db r.body.groupId
      workspace := r.body.workspace, position := r.body.position, rdp := r.body.rdp
      comment := r.body.comment, gateway := readLogin db r.body.gatewayIdentityId }

/-! ## Saving -/

/-- What the host form submits. No `id` means a new host. -/
structure HostDraft where
  id : Option Uuid
  name : Text
  address : Text
  port : UInt16
  username : Text
  domain : Text
  groupPath : Option Text
  workspace : Option Workspace
  password : PasswordChange
  rdp : RdpSettings
  comment : Text
  gatewayUsername : Text
  gatewayDomain : Text
  gatewayPassword : PasswordChange
deriving DecidableEq

variable [Platform]

def HostDraft.validated (d : HostDraft) : Except StoreError HostDraft :=
  let address := Text.trim d.address
  let rdp := normalizeRdp d.rdp
  if address.isEmpty then .error (.invalid "address" "required")
  else if address.any Text.isWhitespace then .error (.invalid "address" "whitespace")
  else if d.port = 0 then .error (.invalid "port" "out-of-range")
  else if 4000 < d.comment.length then .error (.invalid "comment" "too-long")
  else if rdp.gateway.any fun g => g.address.any Text.isWhitespace then
    .error (.invalid "gatewayAddress" "whitespace")
  else
    match groupName d.groupPath with
    | .error e => .error e
    | .ok groupPath => .ok
        { d with
          name := if (Text.trim d.name).isEmpty then address else Text.trim d.name
          address, rdp, groupPath, comment := Text.trim d.comment }

/-- Let go of logins whose owner no longer points at them. -/
def releaseAll (cx : Session) (clock : Hlc) (identities : List Uuid) : StoreTx Unit :=
  identities.forM (releaseLogin cx clock)

/-- The columns a draft writes, around what was looked up for it. -/
def HostDraft.body (d : HostDraft) (workspace : Workspace) (position : ℤ)
    (group login gatewayLogin : Option Uuid) (extra : Extra) : HostBody where
  name := d.name
  address := d.address
  port := d.port
  workspace := workspace
  position := position
  groupId := group
  identityId := login
  rdp := d.rdp
  comment := d.comment
  gatewayIdentityId := gatewayLogin
  extra := extra

/-- The live row a draft edits; an id that has none is unknown. -/
def existingHost : Option Uuid → StoreTx (Option (Row HostBody))
  | none => pure none
  | some id => do
    let row ← StoreTx.query fun db => liveHost db id
    let r ← Tx.orFail row (.unknownHost id)
    pure (some r)

/-- An edit that keeps workspace and group keeps the position too. -/
def hostPosition (existing : Option (Row HostBody)) (workspace : Workspace) (group : Option Uuid) :
    StoreTx ℤ :=
  match existing with
  | some r =>
    if r.body.workspace = workspace ∧ r.body.groupId = group then pure r.body.position
    else nextPosition workspace group
  | none => nextPosition workspace group

/-- Write the host itself: the row that is there, or a new one. -/
def writeHostRow (cx : Session) (d : HostDraft) (existing : Option (Row HostBody))
    (workspace : Workspace) (position : ℤ) (group login gatewayLogin : Option Uuid) (clock : Hlc) :
    StoreTx Uuid :=
  match d.id, existing with
  | some id, some _ => do
    StoreTx.updateRow .host id fun r => r.rewrite clock fun b =>
      d.body workspace position group login gatewayLogin b.extra
    pure id
  | _, _ => do
    let id ← StoreTx.nowV7 cx
    StoreTx.insertRow .host id (newRow clock (d.body workspace position group login gatewayLogin []))
    pure id

/-- `save_host` after the draft was checked. -/
def saveDraft (cx : Session) (d : HostDraft) : StoreTx HostRecord := do
  let clock ← StoreTx.tick cx
  let existing ← existingHost d.id
  let workspace :=
    (d.workspace <|> existing.map fun r => r.body.workspace).getD Workspace.priv
  let group ← ensureGroupPath cx workspace d.groupPath
  let position ← hostPosition existing workspace group
  let login ← applyLogin cx (existing.bind fun r => r.body.identityId)
    ⟨d.username, d.domain, d.password⟩ "username" clock
  let gatewayLogin ← applyLogin cx (existing.bind fun r => r.body.gatewayIdentityId)
    ⟨d.gatewayUsername, d.gatewayDomain, d.gatewayPassword⟩ "gatewayUsername" clock
  let id ← writeHostRow cx d existing workspace position group login.identity gatewayLogin.identity
    clock
  releaseAll cx clock (login.release.toList ++ gatewayLogin.release.toList)
  let record ← StoreTx.query fun db => readHost db id
  Tx.orFail record (.unknownHost id)

/-- Insert a new host, or update an existing one when the draft has an id. -/
def saveHost (cx : Session) (draft : HostDraft) : StoreTx HostRecord :=
  match draft.validated with
  | .error e => Tx.fail e
  | .ok d =>
    if (d.password.sets || d.gatewayPassword.sets) && cx.vault.isNone then Tx.fail .vaultLocked
    else saveDraft cx d

/-- Tombstone a host; its logins, and their passwords, go with it. -/
def deleteHost (cx : Session) (id : Uuid) : StoreTx Unit := do
  let clock ← StoreTx.tick cx
  let row ← StoreTx.query fun db => liveHost db id
  let r ← Tx.orFail row (.unknownHost id)
  tombstoneLive .host id clock fun b => b
  releaseAll cx clock (r.body.identityId.toList ++ r.body.gatewayIdentityId.toList)

/-- Give a host a login of its own. The rest of the host stays as it is. -/
def setHostLogin (cx : Session) (id : Uuid) (username domain : Text)
    (password : Option (List UInt8)) : StoreTx HostRecord := do
  let change : PasswordChange := password.elim .keep .set
  Tx.require (¬(change.sets = true ∧ cx.vault = none)) .vaultLocked
  let row ← StoreTx.query fun db => liveHost db id
  let r ← Tx.orFail row (.unknownHost id)
  let clock ← StoreTx.tick cx
  let login ← applyLogin cx r.body.identityId ⟨username, domain, change⟩ "username" clock
  StoreTx.updateRow .host id fun r => r.rewrite clock fun b =>
    { b with identityId := login.identity }
  releaseAll cx clock login.release.toList
  let record ← StoreTx.query fun db => readHost db id
  Tx.orFail record (.unknownHost id)

/-- The draft that saves a host as it is, without its password. -/
def HostRecord.withoutPassword (host : HostRecord) : HostDraft where
  id := some host.id
  name := host.name
  address := host.address
  port := host.port
  username := host.login.username
  domain := host.login.domain
  groupPath := host.groupPath
  workspace := some host.workspace
  password := .forget
  rdp := host.rdp
  comment := host.comment
  gatewayUsername := host.gateway.username
  gatewayDomain := host.gateway.domain
  gatewayPassword := .keep

/-- Forget the password of a host's own login, keeping the username. -/
def forgetHostPassword (cx : Session) (id : Uuid) : StoreTx HostRecord := do
  let host ← StoreTx.query fun db => readHost db id
  let host ← Tx.orFail host (.unknownHost id)
  saveHost cx host.withoutPassword

end UwuRdp
