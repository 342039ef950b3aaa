import UwuRdp.Proto.Entities

/-!
# What travels between client and server

An envelope is a header and a sealed payload. The seal is ideal: a blob opens exactly under the
key and the header it was sealed with, and a server can hand back any blob it has seen but not make
one. A payload is the value its bytes parse to, or bytes that are none; its length is the length of
its serialisation, which is what the protocol's limits are about.
-/

namespace UwuRdp

/-! ## Manifests -/

def maxManifestEntries : ℕ := 7000

/-- One record as the publishing device holds it. The kind is kept raw. -/
structure ManifestEntry where
  kind : ℕ
  id : Uuid
  updatedAt : Hlc
  deleted : Bool
deriving DecidableEq

namespace ManifestEntry

def new (kind : EntityKind) (id : Uuid) (updatedAt : Hlc) (deleted : Bool) : ManifestEntry :=
  { kind := kind.discriminant, id, updatedAt, deleted }

def kind? (e : ManifestEntry) : Option EntityKind := EntityKind.fromDiscriminant e.kind

def version (e : ManifestEntry) : Version := ⟨e.updatedAt, e.deleted⟩

end ManifestEntry

/-- Everything one device holds, at one moment: no more entries than the format takes. -/
structure Manifest where
  device : UInt32
  createdAt : Hlc
  partialList : Bool
  entries : List ManifestEntry
  length_le : entries.length ≤ maxManifestEntries
deriving DecidableEq

/-! ## Payloads -/

/-- What a sealed record holds: a payload of some kind, or bytes that parse as none. -/
inductive Payload where
  | host (p : HostPayload)
  | group (p : GroupPayload)
  | identity (p : IdentityPayload)
  | key (p : KeyPayload)
  | snippet (p : SnippetPayload)
  | knownHost (p : KnownHostPayload)
  | manifest (m : Manifest)
  | bytes (b : List UInt8)
deriving DecidableEq

/-- The manifest a payload is, if it is exactly one this build can read. -/
def Manifest.decode : Payload → Option Manifest
  | .manifest m => some m
  | _ => none

/-! ## How long a payload is -/

namespace Json

def escape (c : Char) : Text :=
  if c = '"' ∨ c = '\\' then ['\\', c]
  else if c.toNat = 8 then ['\\', 'b']
  else if c.toNat = 9 then ['\\', 't']
  else if c.toNat = 10 then ['\\', 'n']
  else if c.toNat = 12 then ['\\', 'f']
  else if c.toNat = 13 then ['\\', 'r']
  else if c.toNat < 0x20 then
    ['\\', 'u', '0', '0', Nat.digitChar (c.toNat / 16), Nat.digitChar (c.toNat % 16)]
  else [c]

def string (t : Text) : Text := ['"'] ++ t.flatMap escape ++ ['"']

def bool (b : Bool) : Text := if b then "true".toList else "false".toList

/-- An optional value: `null` when there is none. -/
def option {α : Type} (f : α → Text) : Option α → Text
  | none => "null".toList
  | some a => f a

def uuid (n : Uuid) : Text :=
  let digits := Nat.toDigits 16 n
  let hex := List.replicate (32 - digits.length) '0' ++ digits
  string (hex.take 8 ++ ['-'] ++ (hex.drop 8).take 4 ++ ['-'] ++ (hex.drop 12).take 4 ++ ['-'] ++
    (hex.drop 16).take 4 ++ ['-'] ++ hex.drop 20)

def field (name : String) (value : Text) : List (Text × Text) := [(name.toList, value)]

/-- A field that is left out when there is nothing in it. -/
def fieldIf (present : Bool) (name : String) (value : Text) : List (Text × Text) :=
  if present then field name value else []

def object (fields : List (Text × Text)) : Text :=
  ['{'] ++ [','].intercalate (fields.map fun f => string f.1 ++ [':'] ++ f.2) ++ ['}']

def array (items : List Text) : Text := ['['] ++ [','].intercalate items ++ [']']

end Json

def SharedDrive.toJson (d : SharedDrive) : Text :=
  Json.object (Json.field "name" (Json.string d.name) ++ Json.field "path" (Json.string d.path) ++
    d.extra)

def DriveRedirection.toJson (d : DriveRedirection) : Text :=
  Json.object (Json.field "enabled" (Json.bool d.enabled) ++
    Json.field "drives" (Json.array (d.drives.map SharedDrive.toJson)) ++ d.extra)

def GatewaySettings.toJson (g : GatewaySettings) : Text :=
  Json.object (Json.field "address" (Json.string g.address) ++
    Json.field "port" (Text.ofNat g.port.toNat) ++
    Json.field "useHostLogin" (Json.bool g.useHostLogin) ++
    Json.field "bypassLocal" (Json.bool g.bypassLocal) ++ g.extra)

def RdpSettings.toJson (r : RdpSettings) : Text :=
  Json.object (Json.field "display" (Json.string r.display) ++
    Json.field "width" (Text.ofNat r.width.toNat) ++ Json.field "height" (Text.ofNat r.height.toNat) ++
    Json.field "smartSizing" (Json.bool r.smartSizing) ++
    Json.field "colorDepth" (Text.ofNat r.colorDepth.toNat) ++
    Json.field "audio" (Json.string r.audio) ++ Json.field "clipboard" (Json.bool r.clipboard) ++
    Json.field "admin" (Json.bool r.admin) ++ Json.field "nla" (Json.bool r.nla) ++
    Json.field "wallpaper" (Json.bool r.wallpaper) ++
    Json.field "graphicsPipeline" (Json.bool r.graphicsPipeline) ++
    Json.fieldIf r.gateway.isSome "gateway" (Json.option GatewaySettings.toJson r.gateway) ++
    Json.fieldIf r.drives.isSome "drives" (Json.option DriveRedirection.toJson r.drives) ++ r.extra)

def HostPayload.toJson (h : HostPayload) : Text :=
  Json.object (Json.field "name" (Json.string h.name) ++
    Json.field "address" (Json.string h.address) ++ Json.field "port" (Text.ofNat h.port.toNat) ++
    Json.field "workspace" (Json.string h.workspace) ++
    Json.field "position" (Text.ofInt h.position) ++
    Json.field "group_id" (Json.option Json.uuid h.groupId) ++
    Json.field "identity_id" (Json.option Json.uuid h.identityId) ++
    Json.field "rdp" h.rdp.toJson ++
    Json.fieldIf h.gatewayIdentityId.isSome "gateway_identity_id"
      (Json.option Json.uuid h.gatewayIdentityId) ++
    Json.fieldIf (!h.comment.isEmpty) "comment" (Json.string h.comment) ++ h.extra)

def GroupPayload.toJson (g : GroupPayload) : Text :=
  Json.object (Json.field "workspace" (Json.string g.workspace) ++
    Json.field "name" (Json.string g.name) ++ Json.field "position" (Text.ofInt g.position) ++
    Json.fieldIf g.identityId.isSome "identity_id" (Json.option Json.uuid g.identityId) ++
    Json.fieldIf g.drives.isSome "drives" (Json.option DriveRedirection.toJson g.drives) ++ g.extra)

def IdentityPayload.toJson (i : IdentityPayload) : Text :=
  Json.object (Json.field "label" (Json.string i.label) ++
    Json.field "username" (Json.string i.username) ++
    Json.fieldIf (!i.domain.isEmpty) "domain" (Json.string i.domain) ++
    Json.field "auth_type" (Json.string i.authType) ++
    Json.field "key_id" (Json.option Json.uuid i.keyId) ++
    Json.field "password_secret_id" (Json.option Json.uuid i.passwordSecretId) ++ i.extra)

def KeyPayload.toJson (k : KeyPayload) : Text :=
  Json.object (Json.field "label" (Json.string k.label) ++
    Json.field "key_type" (Json.string k.keyType) ++
    Json.field "public_key" (Json.string k.publicKey) ++
    Json.field "private_secret_id" (Json.option Json.uuid k.privateSecretId) ++
    Json.field "passphrase_secret_id" (Json.option Json.uuid k.passphraseSecretId) ++ k.extra)

def SnippetPayload.toJson (s : SnippetPayload) : Text :=
  Json.object (Json.field "label" (Json.string s.label) ++ Json.field "body" (Json.string s.body) ++
    Json.field "group_path" (Json.option Json.string s.groupPath) ++ s.extra)

def KnownHostPayload.toJson (k : KnownHostPayload) : Text :=
  Json.object (Json.field "address" (Json.string k.address) ++
    Json.field "port" (Text.ofNat k.port.toNat) ++ Json.field "algorithm" (Json.string k.algorithm) ++
    Json.field "fingerprint_sha256" (Json.string k.fingerprintSha256) ++
    Json.field "public_key" (Json.string k.publicKey) ++
    Json.field "first_seen_ms" (Text.ofNat k.firstSeenMs.toNat) ++ k.extra)

/-- The bytes of a payload. A manifest is binary: a header and 34 bytes an entry. -/
def Payload.len : Payload → ℕ
  | .host p => p.toJson.utf8Len
  | .group p => p.toJson.utf8Len
  | .identity p => p.toJson.utf8Len
  | .key p => p.toJson.utf8Len
  | .snippet p => p.toJson.utf8Len
  | .knownHost p => p.toJson.utf8Len
  | .manifest m => 29 + 34 * m.entries.length
  | .bytes b => b.length

/-! ## Seals -/

abbrev VaultKey := ℕ

/-- Everything about a record a server must not be able to change. -/
structure Header where
  id : Uuid
  kind : EntityKind
  vaultId : Uuid
  updatedAt : Hlc
  deleted : Bool
deriving DecidableEq

/-- A ciphertext with its nonce. -/
inductive Sealed where
  /-- A record on its way to the server, bound to its whole header. -/
  | synced (key : VaultKey) (header : Header) (plain : Payload)
  /-- A secret in the local store, bound to its id, kind and vault. -/
  | record (key : VaultKey) (id : Uuid) (kind : EntityKind) (vaultId : Uuid) (plain : Payload)
  /-- Bytes no key opens. -/
  | other (len : ℕ)
deriving DecidableEq

namespace Sealed

/-- `x''`: what a placeholder or a wiped secret holds. -/
def empty : Sealed := .other 0

/-- The bytes of a blob: the plaintext and the 16 bytes of the tag. -/
def len : Sealed → ℕ
  | .synced _ _ plain => plain.len + 16
  | .record _ _ _ _ plain => plain.len + 16
  | .other n => n

end Sealed

/-- The vault key, once unlocked. -/
structure UnlockedVault where
  vaultId : Uuid
  key : VaultKey
deriving DecidableEq

namespace UnlockedVault

/-- `UnlockedVault::seal`, for the local store. -/
def sealRecord (v : UnlockedVault) (id : Uuid) (kind : EntityKind) (plain : Payload) : Sealed :=
  .record v.key id kind v.vaultId plain

/-- `UnlockedVault::open`. -/
def openRecord (v : UnlockedVault) (id : Uuid) (kind : EntityKind) : Sealed → Option Payload
  | .record key i k vaultId plain =>
    if key = v.key ∧ i = id ∧ k = kind ∧ vaultId = v.vaultId then some plain else none
  | _ => none

/-- `UnlockedVault::seal_synced`. -/
def sealSynced (v : UnlockedVault) (id : Uuid) (kind : EntityKind) (updatedAt : Hlc)
    (deleted : Bool) (plain : Payload) : Sealed :=
  .synced v.key ⟨id, kind, v.vaultId, updatedAt, deleted⟩ plain

/-- `UnlockedVault::open_synced`. -/
def openSynced (v : UnlockedVault) (id : Uuid) (kind : EntityKind) (updatedAt : Hlc)
    (deleted : Bool) : Sealed → Option Payload
  | .synced key header plain =>
    if key = v.key ∧ header = ⟨id, kind, v.vaultId, updatedAt, deleted⟩ then some plain else none
  | _ => none

end UnlockedVault

/-! ## Envelopes -/

/-- One encrypted record in transit. -/
structure Envelope where
  id : Uuid
  vaultId : Uuid
  kind : EntityKind
  updatedAt : Hlc
  /-- The version this edit was based on, 0 for a record the server has never seen. -/
  baseSeq : ℕ
  deleted : Bool
  blob : Sealed
  /-- Assigned by the server on write; `none` on the way up. -/
  seq : Option ℕ
deriving DecidableEq

def Envelope.version (e : Envelope) : Version := ⟨e.updatedAt, e.deleted⟩

def UnlockedVault.openEnvelope (v : UnlockedVault) (e : Envelope) : Option Payload :=
  v.openSynced e.id e.kind e.updatedAt e.deleted e.blob

def maxBatch : ℕ := 500

def maxBlobBytes : ℕ := 256 * 1024

/-- The most sealed bytes one request carries, either way. -/
def maxBatchBytes : ℕ := 8 * 1024 * 1024

structure PullResponse where
  envelopes : List Envelope
  cursor : ℕ
  hasMore : Bool
deriving DecidableEq

/-- A record the server stored, and the version number it now has. -/
structure Accepted where
  id : Uuid
  seq : ℕ
deriving DecidableEq

structure PushResponse where
  accepted : List Accepted
  /-- Records the server refused because someone else wrote first, as it holds them now. -/
  conflicts : List Envelope
deriving DecidableEq

end UwuRdp
