import UwuRdp.Store.Import

/-!
# From a file to an import

What an importer found, who the preview says would get a password of the user's own, and the set the
store is given. The preview looks at the bundle; the store at the set that is made of it, in which
groups have gone by another name.
-/

namespace UwuRdp

open Lib

/-! ## What an importer found -/

/-- Where a credential's password came from. -/
inductive PasswordOrigin where
  /-- Clear text in the file, or no password at all. -/
  | inFile
  /-- A blob in the file that this Windows account decrypted. -/
  | unsealed
  /-- One of the user's own profiles. -/
  | localProfile
deriving DecidableEq

/-- A username, domain and password as a source recorded them. -/
structure ImportedCredential where
  label : Option Text
  username : Option Text
  domain : Option Text
  password : Option (List UInt8)
  origin : PasswordOrigin
deriving DecidableEq

/-- Whether the password is one this Windows account opened, rather than one the file carried
readable. -/
def ImportedCredential.passwordIsUsersOwn (c : ImportedCredential) : Bool :=
  (c.password.any fun p => !p.isEmpty) && c.origin != .inFile

/-- A group in the source's tree, with the credential it hands down. -/
structure ImportedGroup where
  path : Text
  credential : Option ℕ
deriving DecidableEq

inductive ImportedDisplay where
  | fitWindow
  | fullScreen
  | fixed (width height : UInt16)
deriving DecidableEq

inductive ImportedAudio where
  | local
  | remote
  | off
deriving DecidableEq

structure ImportedGateway where
  address : Text
  port : Option UInt16
  credential : Option ℕ
  useHostCredentials : Bool
  bypassLocal : Bool
deriving DecidableEq

structure ImportedDrives where
  enabled : Bool
  paths : List Text
deriving DecidableEq

structure ImportedSettings where
  display : Option ImportedDisplay := none
  colorDepth : Option UInt32 := none
  admin : Option Bool := none
  audio : Option ImportedAudio := none
  clipboard : Option Bool := none
  gateway : Option ImportedGateway := none
  drives : Option ImportedDrives := none
deriving DecidableEq

/-- One host. Without a credential it takes its group's at connect time. -/
structure ImportedHost where
  name : Text
  address : Text
  port : UInt16
  groupPath : Option Text
  credential : Option ℕ
  comment : Option Text := none
  settings : ImportedSettings := {}
  extras : List (Text × Text) := []
deriving DecidableEq

/-- Everything one source had. -/
structure ImportBundle where
  groups : List ImportedGroup
  hosts : List ImportedHost
  credentials : List ImportedCredential
deriving DecidableEq

/-! ## What the preview says -/

inductive RecipientKind where
  | host
  | group
  | gateway
deriving DecidableEq

/-- Something that would get a password the user's own Windows account opened. -/
structure PasswordRecipient where
  kind : RecipientKind
  name : Text
  address : Option Text
  port : Option UInt16
  profile : Option Text
deriving DecidableEq

namespace ImportBundle

/-- The credential at an index, if its password is the user's own. -/
def own (b : ImportBundle) (index : Option ℕ) : Option ImportedCredential :=
  (index.bind fun i => b.credentials[i]?).filter ImportedCredential.passwordIsUsersOwn

def profile (c : ImportedCredential) : Option Text :=
  match c.origin with
  | .localProfile => c.label
  | _ => none

/-- The credential the preview takes a host to connect with: its own, else that of the first group of
its very path. -/
def loginTold (b : ImportBundle) (host : ImportedHost) : Option ℕ :=
  host.credential.or <| host.groupPath.bind fun path =>
    (b.groups.find? fun g => g.path = path).bind ImportedGroup.credential

/-- The credential the preview takes a gateway to get. -/
def gatewayTold (b : ImportBundle) (host : ImportedHost) (gateway : ImportedGateway) : Option ℕ :=
  if gateway.useHostCredentials || gateway.credential.isNone then b.loginTold host
  else gateway.credential

def groupRecipient (b : ImportBundle) (group : ImportedGroup) : Option PasswordRecipient :=
  (b.own group.credential).map fun c => ⟨.group, group.path, none, none, profile c⟩

def hostRecipient (b : ImportBundle) (host : ImportedHost) : Option PasswordRecipient :=
  (b.own (b.loginTold host)).map fun c =>
    ⟨.host, host.name, some host.address, some host.port, profile c⟩

def gatewayRecipient (b : ImportBundle) (host : ImportedHost) : Option PasswordRecipient :=
  host.settings.gateway.bind fun gateway => (b.own (b.gatewayTold host gateway)).map fun c =>
    ⟨.gateway, host.name, some gateway.address, gateway.port, profile c⟩

/-- Every host, gateway and group that would get a password this Windows account opened, with the
address it would go to. -/
def passwordRecipients (b : ImportBundle) : List PasswordRecipient :=
  b.groups.filterMap b.groupRecipient ++
    b.hosts.flatMap fun host => (b.hostRecipient host).toList ++ (b.gatewayRecipient host).toList

end ImportBundle

/-! ## What the store is given -/

/-- `group_name` of the import: a group name the store takes. -/
def importGroupName (path : Text) : Text :=
  let trimmed := Text.trim (path.filter fun c => !Text.isControl c)
  if trimmed.length ≤ 80 then trimmed
  -- Keep the end: the innermost group tells hosts apart.
  else '…' :: trimmed.drop (trimmed.length - 79)

def importDisplay (rdp : RdpSettings) : Option ImportedDisplay → RdpSettings
  | some .fullScreen => { rdp with display := "fullscreen".toList }
  | some (.fixed width height) => { rdp with display := "fixed".toList, width, height }
  | _ => { rdp with display := "fit".toList }

def importAudio : ImportedAudio → Text
  | .local => "local".toList
  | .remote => "remote".toList
  | .off => "off".toList

def importGateway (gateway : ImportedGateway) : GatewaySettings where
  address := gateway.address
  port := gateway.port.getD 443
  useHostLogin := gateway.useHostCredentials || gateway.credential.isNone
  bypassLocal := gateway.bypassLocal

def importRdpSettings (settings : ImportedSettings) : RdpSettings :=
  let rdp := importDisplay {} settings.display
  { rdp with
    colorDepth := settings.colorDepth.getD rdp.colorDepth
    admin := settings.admin.getD rdp.admin
    audio := (settings.audio.map importAudio).getD rdp.audio
    clipboard := settings.clipboard.getD rdp.clipboard
    drives := settings.drives.map fun drives =>
      { enabled := drives.enabled, drives := drives.paths.map fun path => { path } }
    gateway := settings.gateway.map importGateway }

/-- Settings without a place of their own stay readable, in the comment. -/
def importComment (host : ImportedHost) : Text :=
  let comment := host.comment.getD []
  let extras := (host.extras.filter fun e => !(Text.trim e.2).isEmpty).map fun e =>
    e.1 ++ ": ".toList ++ e.2
  if extras.isEmpty then comment
  else (if comment.isEmpty then comment else comment ++ "\n\n".toList) ++
    List.intercalate "\n".toList extras

def importLoginInput (ownPasswords : Bool) (c : ImportedCredential) : LoginInput where
  username := c.username.getD []
  domain := c.domain.getD []
  password := c.password.filter fun _ => ownPasswords || !c.passwordIsUsersOwn

def importGroupInput (workspace : Workspace) (group : ImportedGroup) : GroupInput where
  workspace
  name := importGroupName group.path
  login := group.credential
  drives := none

def importHostInput (workspace : Workspace) (host : ImportedHost) : HostInput where
  name := host.name
  address := host.address
  port := host.port
  groupPath := host.groupPath.map importGroupName
  login := host.credential
  gatewayLogin := (host.settings.gateway.filter fun g => !g.useHostCredentials).bind
    ImportedGateway.credential
  workspace
  position := none
  rdp := importRdpSettings host.settings
  comment := importComment host

/-- The importer's neutral shape, as the store takes it. Without `ownPasswords`, a password this
Windows account opened stays behind. -/
def toImportSet (bundle : ImportBundle) (workspace : Workspace) (ownPasswords : Bool) :
    ImportSet where
  groups := bundle.groups.map (importGroupInput workspace)
  hosts := bundle.hosts.map (importHostInput workspace)
  logins := bundle.credentials.map (importLoginInput ownPasswords)
  knownHosts := []

end UwuRdp
