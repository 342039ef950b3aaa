import UwuRdp.Store.Hosts

/-!
# Groups and the order of the host list

A host points at a group by id, so renaming one is a single record. Names are the handle the user
interface uses: every call takes names and resolves them on the way in. A move renumbers what it
touched in one transaction, and only rows whose place changed.
-/

namespace UwuRdp

open Lib

def required (name : Text) : Except StoreError Text :=
  match groupName (some name) with
  | .error e => .error e
  | .ok none => .error (.invalid "groupPath" "required")
  | .ok (some name) => .ok name

def unknownGroup : StoreError := .invalid "groupPath" "unknown"

def knownGroup (workspace : Workspace) (name : Text) : StoreTx Uuid := do
  let found ← StoreTx.query fun db => groupId db workspace name
  Tx.orFail found unknownGroup

def createGroup (cx : Session) (workspace : Workspace) (name : Text) : StoreTx Uuid :=
  match required name with
  | .error e => Tx.fail e
  | .ok name => do
    let found ← StoreTx.query fun db => groupId db workspace name
    Tx.require (found = none) (.invalid "groupPath" "exists")
    ensureGroup cx workspace name

/-- Set the drive redirection a group hands to its hosts, or drop it. -/
def setGroupDrives [Platform] (cx : Session) (workspace : Workspace) (name : Text)
    (drives : Option DriveRedirection) : StoreTx Unit := do
  let id ← knownGroup workspace name
  let clock ← StoreTx.tick cx
  StoreTx.updateRow .group id fun r => r.rewrite clock fun b =>
    { b with drives := drives.map normalizeDrives }

/-- Set the login a group hands to its hosts, or drop it with an empty username. -/
def setGroupLogin (cx : Session) (workspace : Workspace) (name : Text) (change : LoginChange) :
    StoreTx Unit := do
  Tx.require (¬(change.password.sets = true ∧ cx.vault = none)) .vaultLocked
  let id ← knownGroup workspace name
  let current ← StoreTx.query fun db => (db.row .group id).bind fun r => r.body.identityId
  let clock ← StoreTx.tick cx
  let login ← applyLogin cx current change "username" clock
  StoreTx.updateRow .group id fun r => r.rewrite clock fun b =>
    { b with identityId := login.identity }
  releaseAll cx clock login.release.toList

/-! ## Orders -/

/-- `ORDER BY position, lower(name)`. -/
def placeLe (a b : ℤ × Text) : Prop :=
  a.1 < b.1 ∨ (a.1 = b.1 ∧ Text.le (Text.toAsciiLowercase a.2) (Text.toAsciiLowercase b.2) = true)

instance : DecidableRel placeLe := fun _ _ => inferInstanceAs (Decidable (_ ∨ _))

def inOrder (rows : List (Uuid × ℤ × Text)) : List (Uuid × ℤ) :=
  (rows.insertionSort fun a b => placeLe a.2 b.2).map fun r => (r.1, r.2.1)

/-- The live hosts a condition picks, in display order. -/
def hostOrder (db : Db) (p : Uuid → HostBody → Bool) : List (Uuid × ℤ) :=
  inOrder (((db.rows .host).select fun id r => !r.deleted && p id r.body).map
    fun r => (r.1, r.2.body.position, r.2.body.name))

/-- The live groups of a workspace, in display order. -/
def groupOrder (db : Db) (workspace : Workspace) : List (Uuid × ℤ) :=
  inOrder (((db.rows .group).select fun _ r => !r.deleted && r.body.workspace = workspace).map
    fun r => (r.1, r.2.body.position, r.2.body.name))

/-- Where to put something before another one, or at the end. -/
def placeBefore (order : List (Uuid × ℤ)) (before : Option Uuid) : ℕ :=
  (before.bind fun b => order.findIdx? fun e => e.1 = b).getD order.length

def moved (order : List (Uuid × ℤ)) (entry : Uuid × ℤ) (before : Option Uuid) : List (Uuid × ℤ) :=
  let rest := order.filter fun e => e.1 ≠ entry.1
  rest.insertIdx (placeBefore rest before) entry

/-- The entries whose place in the order is not the position they have, with their place. -/
def outOfPlace (order : List (Uuid × ℤ)) : List (Uuid × ℕ) :=
  (order.zipIdx.filter fun e => e.1.2 ≠ (e.2 : ℤ)).map fun e => (e.1.1, e.2)

/-! ## Moving -/

def placeHosts (workspace : Workspace) (group : Option Uuid) (clock : Hlc) :
    ℤ → List Uuid → StoreTx Unit
  | _, [] => pure ()
  | position, id :: rest => do
    StoreTx.updateRow .host id fun r => r.rewrite clock fun b =>
      { b with workspace, groupId := group, position }
    placeHosts workspace group clock (position + 1) rest

/-- Every host of one group joins another one, or none, at its end. -/
def moveMembers (cx : Session) (src : Uuid) (workspace : Workspace) (dst : Option Uuid) :
    StoreTx Unit := do
  let hosts ← StoreTx.query fun db => hostOrder db fun _ b => b.groupId = some src
  if hosts.isEmpty then pure ()
  else do
    let first ← nextPosition workspace dst
    let clock ← StoreTx.tick cx
    placeHosts workspace dst clock first (hosts.map Prod.fst)

/-- A deleted group takes its login along, unless something else still uses it. -/
def tombstoneGroup (cx : Session) (id : Uuid) : StoreTx Unit := do
  let clock ← StoreTx.tick cx
  let row ← StoreTx.query fun db => (db.row .group id).filter fun r => !r.deleted
  tombstoneLive .group id clock fun b => b
  releaseAll cx clock (row.bind fun r => r.body.identityId).toList

/-- Rename a group. Renaming onto a group that already exists merges the two. -/
def renameGroup (cx : Session) (workspace : Workspace) (src dst : Text) : StoreTx Unit :=
  match required dst with
  | .error e => Tx.fail e
  | .ok dst =>
    if src = dst then pure ()
    else do
      let srcId ← knownGroup workspace src
      let found ← StoreTx.query fun db => groupId db workspace dst
      match found with
      | some dstId => do
        moveMembers cx srcId workspace (some dstId)
        tombstoneGroup cx srcId
      | none => do
        let clock ← StoreTx.tick cx
        StoreTx.updateRow .group srcId fun r => r.rewrite clock fun b => { b with name := dst }

/-- Delete a group. Its hosts stay, without a group, at the end of the list. -/
def deleteGroup (cx : Session) (workspace : Workspace) (name : Text) : StoreTx Unit := do
  let id ← knownGroup workspace name
  moveMembers cx id workspace none
  tombstoneGroup cx id

def setWorkspaces (workspace : Workspace) (clock : Hlc) (hosts : List Uuid) : StoreTx Unit :=
  hosts.forM fun id => StoreTx.updateRow .host id fun r => r.rewrite clock fun b =>
    { b with workspace }

/-- A group enters the other workspace with its hosts; onto a group of the same name there, they
merge. Answers with the group that is there then. -/
def enterWorkspace (cx : Session) (id : Uuid) (name : Text) (workspace : Workspace) :
    StoreTx Uuid := do
  let found ← StoreTx.query fun db => groupId db workspace name
  match found with
  | some target => do
    moveMembers cx id workspace (some target)
    tombstoneGroup cx id
    pure target
  | none => do
    let clock ← StoreTx.tick cx
    StoreTx.updateRow .group id fun r => r.rewrite clock fun b => { b with workspace }
    let hosts ← StoreTx.query fun db =>
      ((db.rows .host).select fun _ r => !r.deleted && r.body.groupId = some id).map Prod.fst
    setWorkspaces workspace clock hosts
    pure id

/-- Groups get the positions of their places in the order. -/
def renumber (clock : Hlc) (places : List (Uuid × ℕ)) : StoreTx Unit :=
  places.forM fun e => StoreTx.updateRow .group e.1 fun r => r.rewrite clock fun b =>
    { b with position := e.2 }

/-- Put a group before another one (or at the end), in the same or the other workspace. Its hosts
move with it. -/
def moveGroup (cx : Session) (workspace : Workspace) (name : Text) (dst : Workspace)
    (before : Option Text) : StoreTx Unit := do
  let named ← knownGroup workspace name
  let id ← if dst ≠ workspace then enterWorkspace cx named name dst else pure named
  let beforeId ← StoreTx.query fun db => before.bind (groupId db dst)
  let order ← StoreTx.query fun db => groupOrder db dst
  match order.find? fun e => e.1 = id with
  | none => pure ()
  | some entry => do
    let clock ← StoreTx.tick cx
    renumber clock (outOfPlace (moved order entry beforeId))

/-- Hosts get a workspace, a group and the positions of their places in the order. -/
def placeInGroup (workspace : Workspace) (group : Option Uuid) (clock : Hlc)
    (places : List (Uuid × ℕ)) : StoreTx Unit :=
  places.forM fun e => StoreTx.updateRow .host e.1 fun r => r.rewrite clock fun b =>
    { b with workspace, groupId := group, position := e.2 }

/-- Move a host into a workspace and group, before another host of that group or at its end. -/
def moveHost (cx : Session) (id : Uuid) (workspace : Workspace) (group : Option Text)
    (before : Option Uuid) : StoreTx HostRecord :=
  match groupName group with
  | .error e => Tx.fail e
  | .ok group => do
    let row ← StoreTx.query fun db => liveHost db id
    let r ← Tx.orFail row (.unknownHost id)
    let groupId ← ensureGroupPath cx workspace group
    let order ← StoreTx.query fun db => hostOrder db fun i b =>
      b.workspace = workspace && b.groupId = groupId && i ≠ id
    let place := placeBefore order before
    -- The moved host counts as changed if anything about its place is new.
    let changed := r.body.workspace ≠ workspace ∨ r.body.groupId ≠ groupId ∨
      r.body.position ≠ (place : ℤ)
    let entry := (id, if changed then -1 else r.body.position)
    let clock ← StoreTx.tick cx
    placeInGroup workspace groupId clock (outOfPlace (order.insertIdx place entry))
    let record ← StoreTx.query fun db => readHost db id
    Tx.orFail record (.unknownHost id)

end UwuRdp
