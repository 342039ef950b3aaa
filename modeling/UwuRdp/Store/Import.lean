import UwuRdp.Store.Groups
import UwuRdp.Store.KnownHosts

/-!
# Writing an imported set

One transaction for the whole set. Every host and group gets a login of its own; a host already
there is skipped, a group that already has a login or drives keeps them, and certificates come along
only for the hosts just added.
-/

namespace UwuRdp

open Lib

/-- A username, a domain and maybe a password, referenced by index. -/
structure LoginInput where
  username : Text
  domain : Text
  password : Option (List UInt8)
deriving DecidableEq

structure HostInput where
  name : Text
  address : Text
  port : UInt16
  groupPath : Option Text
  login : Option ℕ
  gatewayLogin : Option ℕ
  workspace : Workspace
  position : Option ℤ
  rdp : RdpSettings
  comment : Text
deriving DecidableEq

structure GroupInput where
  workspace : Workspace
  name : Text
  login : Option ℕ
  drives : Option DriveRedirection
deriving DecidableEq

structure KnownHostInput where
  address : Text
  port : UInt16
  algorithm : Text
  publicKey : Text
  fingerprint : Text
deriving DecidableEq

/-- Everything one import produced. -/
structure ImportSet where
  groups : List GroupInput
  hosts : List HostInput
  logins : List LoginInput
  knownHosts : List KnownHostInput
deriving DecidableEq

/-- The most entries of one kind a single import takes. -/
def maxItems : ℕ := 50000

/-- Whether an imported host is one the host form would have let through. -/
def isPlausible (host : HostInput) : Bool :=
  let address := Text.trim host.address
  !address.isEmpty && address.utf8Len ≤ 253 &&
    !address.any (fun c => Text.isWhitespace c || Text.isControl c) &&
    !host.name.any Text.isControl && host.name.utf8Len ≤ 256 && 0 < host.port

/-- A password of an imported login: an empty one is none. -/
def importSecret (cx : Session) : Option (List UInt8) → StoreTx (Option Uuid)
  | none => pure none
  | some password =>
    if password.isEmpty then pure none
    else do
      let vault ← Tx.orFail cx.vault .vaultLocked
      let id ← sealSecret cx vault password
      pure (some id)

/-- A fresh login for one owner. One without a username, or with one the form would refuse, is
none. -/
def importLogin (cx : Session) (set : ImportSet) (index : Option ℕ) : StoreTx (Option Uuid) :=
  match index.bind fun i => set.logins[i]? with
  | none => pure none
  | some input =>
    match cleanUsername "username" input.username, cleanDomain "domain" input.domain with
    | .ok username, .ok domain =>
      if username.isEmpty then pure none
      else do
        let secret ← importSecret cx input.password
        let clock ← StoreTx.tick cx
        let id ← insertLogin cx (labelOf username domain) username domain secret clock
        pure (some id)
    | _, _ => pure none

def hostExists (db : Db) (address : Text) (port : UInt16) : Bool :=
  ((db.rows .host).find? fun _ r => !r.deleted && r.body.port = port &&
    Text.toAsciiLowercase r.body.address = Text.toAsciiLowercase (Text.trim address)).isSome

variable [Platform]

def importDrives (cx : Session) (id : Uuid) : Option DriveRedirection → StoreTx Unit
  | none => pure ()
  | some drives => do
    let clock ← StoreTx.tick cx
    StoreTx.updateRow .group id fun r =>
      if r.body.drives.isSome then r
      else r.rewrite clock fun b => { b with drives := some (normalizeDrives drives) }

def importGroupLogin (cx : Session) (set : ImportSet) (id : Uuid) (login : Option ℕ) :
    StoreTx Unit := do
  let hasLogin ← StoreTx.query fun db =>
    (db.row .group id).any fun r => r.body.identityId.isSome
  if hasLogin then pure ()
  else do
    let login ← importLogin cx set login
    match login with
    | none => pure ()
    | some identity => do
      let clock ← StoreTx.tick cx
      StoreTx.updateRow .group id fun r => r.rewrite clock fun b =>
        { b with identityId := some identity }

def importGroup (cx : Session) (set : ImportSet) (group : GroupInput) : StoreTx Unit :=
  match groupName (some group.name) with
  | .error e => Tx.fail e
  | .ok none => pure ()
  | .ok (some name) => do
    let id ← ensureGroup cx group.workspace name
    importDrives cx id group.drives
    importGroupLogin cx set id group.login

def importPosition (workspace : Workspace) (group : Option Uuid) : Option ℤ → StoreTx ℤ
  | some position => pure position
  | none => nextPosition workspace group

def writeHost (cx : Session) (host : HostInput) (login gatewayLogin : Option Uuid) :
    StoreTx Unit :=
  match groupName host.groupPath with
  | .error e => Tx.fail e
  | .ok path => do
    let group ← ensureGroupPath cx host.workspace path
    let position ← importPosition host.workspace group host.position
    let clock ← StoreTx.tick cx
    let id ← StoreTx.nowV7 cx
    let name := Text.trim host.name
    StoreTx.insertRow .host id (newRow clock
      { name := if name.isEmpty then Text.trim host.address else name
        address := Text.trim host.address, port := host.port, workspace := host.workspace, position
        groupId := group, identityId := login, rdp := normalizeRdp host.rdp
        comment := (Text.trim host.comment).take 4000, gatewayIdentityId := gatewayLogin
        extra := [] })

/-- The addresses an import added, as it goes through its hosts. -/
def importHosts (cx : Session) (set : ImportSet) :
    List HostInput → List (Text × UInt16) → StoreTx (List (Text × UInt16))
  | [], added => pure added
  | host :: rest, added => do
    let there ← StoreTx.query fun db => hostExists db host.address host.port
    if !isPlausible host || there then importHosts cx set rest added
    else do
      let login ← importLogin cx set host.login
      let gatewayLogin ← importLogin cx set host.gatewayLogin
      writeHost cx host login gatewayLogin
      importHosts cx set rest ((normalise host.address, host.port) :: added)

/-- Trust an imported certificate, unless that address already has one. -/
def writeKnownHost (cx : Session) (known : KnownHostInput) : StoreTx Unit := do
  let slot ← StoreTx.query fun db => db.slot (normalise known.address) known.port
  match slot with
  | some _ => pure ()
  | none => do
    let clock ← StoreTx.tick cx
    let id ← StoreTx.nowV7 cx
    let firstSeenMs ← StoreTx.nowMs cx
    StoreTx.insertRow .knownHost id (newRow clock
      ⟨normalise known.address, known.port, known.algorithm, known.fingerprint, known.publicKey,
        firstSeenMs, []⟩)

def importSet (cx : Session) (set : ImportSet) : StoreTx Unit := do
  Tx.require (set.hosts.length ≤ maxItems ∧ set.logins.length ≤ maxItems ∧
    set.knownHosts.length ≤ maxItems ∧ set.groups.length ≤ maxItems)
    (.invalid "import" "too-many")
  set.groups.forM (importGroup cx set)
  let added ← importHosts cx set set.hosts []
  (set.knownHosts.filter fun k => added.contains (normalise k.address, k.port)).forM
    (writeKnownHost cx)

end UwuRdp
