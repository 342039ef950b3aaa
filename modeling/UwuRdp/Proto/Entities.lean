import UwuRdp.Proto.Merge
import UwuRdp.Proto.Text

/-!
# What is stored and synced

The kinds of records, and the payload of each: only the fields that mean something on another
device. Every payload keeps the fields it did not recognise in `extra`.
-/

namespace UwuRdp

/-- A UUID, as the number its sixteen bytes spell. Its text sorts as the number does. -/
abbrev Uuid := ℕ

/-- `Uuid::nil`. -/
def nilUuid : Uuid := 0

/-- What kind of record a blob holds. -/
inductive EntityKind where
  | host
  | group
  | identity
  | key
  | snippet
  | portForward
  | knownHost
  | terminalProfile
  /-- A password, private key or passphrase, which records point at by id. -/
  | secret
  /-- What one device holds: every record's id and version. -/
  | manifest
deriving DecidableEq

namespace EntityKind

def all : List EntityKind :=
  [host, group, identity, key, snippet, portForward, knownHost, terminalProfile, secret, manifest]

def discriminant : EntityKind → ℕ
  | host => 0
  | group => 1
  | identity => 2
  | key => 3
  | snippet => 4
  | portForward => 5
  | knownHost => 6
  | terminalProfile => 7
  | secret => 8
  | manifest => 9

/-- The kind a discriminant stands for, or `none` for one a newer build added. -/
def fromDiscriminant (value : ℕ) : Option EntityKind := all[value]?

/-- Kinds a record can point at, before the kinds that point at them. -/
def applyOrder : List EntityKind := [secret, key, identity, group, host, snippet, knownHost]

/-- Where this kind sorts when a batch is applied; kinds without a table go last. -/
def applyRank (k : EntityKind) : ℕ := applyOrder.idxOf k

end EntityKind

/-- Fields a payload did not recognise: their names and their values as JSON. -/
abbrev Extra := List (Text × Text)

/-- One shared folder or drive. -/
structure SharedDrive where
  name : Text := []
  path : Text := []
  extra : Extra := []
deriving DecidableEq

/-- Local folders and drives the server sees. -/
structure DriveRedirection where
  enabled : Bool := false
  drives : List SharedDrive := []
  extra : Extra := []
deriving DecidableEq

/-- The path that stands for every fixed drive of the connecting computer. -/
def allDrives : Text := ['*']

/-- A Remote Desktop Gateway in front of the host. -/
structure GatewaySettings where
  address : Text := []
  port : UInt16 := 0
  useHostLogin : Bool := false
  bypassLocal : Bool := false
  extra : Extra := []
deriving DecidableEq

/-- How a host's remote desktop is shown and what it may use here. -/
structure RdpSettings where
  display : Text := "fit".toList
  width : UInt16 := 1920
  height : UInt16 := 1080
  smartSizing : Bool := true
  colorDepth : UInt32 := 32
  audio : Text := "local".toList
  clipboard : Bool := true
  admin : Bool := false
  nla : Bool := true
  wallpaper : Bool := true
  graphicsPipeline : Bool := true
  gateway : Option GatewaySettings := none
  drives : Option DriveRedirection := none
  extra : Extra := []
deriving DecidableEq

/-- A host, as another device needs it. -/
structure HostPayload where
  name : Text
  address : Text
  port : UInt16
  workspace : Text
  position : ℤ
  groupId : Option Uuid
  identityId : Option Uuid
  rdp : RdpSettings
  gatewayIdentityId : Option Uuid
  comment : Text
  extra : Extra
deriving DecidableEq

structure GroupPayload where
  workspace : Text
  name : Text
  position : ℤ
  identityId : Option Uuid
  drives : Option DriveRedirection
  extra : Extra
deriving DecidableEq

/-- Username plus how to authenticate. -/
structure IdentityPayload where
  label : Text
  username : Text
  domain : Text
  authType : Text
  keyId : Option Uuid
  passwordSecretId : Option Uuid
  extra : Extra
deriving DecidableEq

structure KeyPayload where
  label : Text
  keyType : Text
  publicKey : Text
  privateSecretId : Option Uuid
  passphraseSecretId : Option Uuid
  extra : Extra
deriving DecidableEq

structure SnippetPayload where
  label : Text
  body : Text
  groupPath : Option Text
  extra : Extra
deriving DecidableEq

structure KnownHostPayload where
  address : Text
  port : UInt16
  algorithm : Text
  fingerprintSha256 : Text
  publicKey : Text
  firstSeenMs : UInt64
  extra : Extra
deriving DecidableEq

end UwuRdp
