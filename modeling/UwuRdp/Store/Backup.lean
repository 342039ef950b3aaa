import UwuRdp.Store.Credentials
import UwuRdp.Store.Import

/-!
# Export files

Every host, group, login and trusted certificate in one file, and back in. A file with passwords is
sealed as a whole under a password of its own. Reading one back goes through the import.
-/

namespace UwuRdp

open Lib

/-! ## Text as bytes -/

/-- `str::as_bytes` -/
def Text.toUtf8 (t : Text) : List UInt8 := t.flatMap String.utf8EncodeChar

/-- `str::from_utf8` -/
def Text.ofUtf8 (bytes : List UInt8) : Option Text := (ByteArray.utf8Decode? ⟨bytes.toArray⟩).map Array.toList

theorem Text.ofUtf8_toUtf8 (t : Text) : Text.ofUtf8 t.toUtf8 = some t := by
  have hencoded : (⟨t.toUtf8.toArray⟩ : ByteArray) = t.utf8Encode := by
    unfold List.utf8Encode
    rw [ByteArray.ext_iff, List.data_toByteArray]
    rfl
  unfold Text.ofUtf8
  rw [hencoded, List.utf8Decode?_utf8Encode]
  rfl

/-! ## Lists of what there is -/

/-- A first key decides, and a second one among equals. -/
def lexLe {α β : Type} (r : α → α → Prop) (q : β → β → Prop) (a b : α × β) : Prop :=
  r a.1 b.1 ∧ (a.1 = b.1 → q a.2 b.2)

instance {α β : Type} [DecidableEq α] (r : α → α → Prop) (q : β → β → Prop) [DecidableRel r] [DecidableRel q] :
    DecidableRel (lexLe r q) := fun _ _ => inferInstanceAs (Decidable (_ ∧ (_ → _)))

def textLe (a b : Text) : Prop := Text.le a b = true

instance : DecidableRel textLe := fun _ _ => inferInstanceAs (Decidable (_ = true))

structure GroupRecord where
  workspace : Workspace
  name : Text
  position : ℤ
  login : LoginView
  drives : Option DriveRedirection
deriving DecidableEq

/-- `ORDER BY workspace, position, lower(name)` -/
def groupLe (a b : GroupBody) : Prop :=
  lexLe textLe placeLe (a.workspace.asStr, a.position, a.name) (b.workspace.asStr, b.position, b.name)

instance : DecidableRel groupLe := fun _ _ => inferInstanceAs (Decidable (lexLe _ _ _ _))

def groupRows (db : Db) : List GroupBody :=
  (((db.rows .group).select fun _ r => !r.deleted && !r.body.name.isEmpty).map fun e => e.2.body).insertionSort
    groupLe

def listGroups (db : Db) : List GroupRecord :=
  (groupRows db).map fun b =>
    { workspace := b.workspace, name := b.name, position := b.position, login := readLogin db b.identityId
      drives := b.drives }

/-- `ORDER BY h.workspace, lower(coalesce(g.name, '')), h.position, lower(h.name)` -/
def hostLe (db : Db) (a b : HostBody) : Prop :=
  lexLe textLe (lexLe textLe placeLe)
    (a.workspace.asStr, Text.toAsciiLowercase ((groupPath db a.groupId).getD []), a.position, a.name)
    (b.workspace.asStr, Text.toAsciiLowercase ((groupPath db b.groupId).getD []), b.position, b.name)

instance (db : Db) : DecidableRel (hostLe db) := fun _ _ => inferInstanceAs (Decidable (lexLe _ _ _ _))

def hostRows (db : Db) : List (Uuid × HostBody) :=
  (((db.rows .host).select fun _ r => !r.deleted).map fun e => (e.1, e.2.body)).insertionSort
    fun a b => hostLe db a.2 b.2

def listHosts (db : Db) : List HostRecord := (hostRows db).filterMap fun e => readHost db e.1

/-- `ORDER BY address, port` -/
def knownHostLe (a b : KnownHostPayload) : Prop :=
  lexLe textLe (fun p q : ℕ => p ≤ q) (a.address, a.port.toNat) (b.address, b.port.toNat)

instance : DecidableRel knownHostLe := fun _ _ => inferInstanceAs (Decidable (lexLe _ _ _ _))

def listKnownHosts (db : Db) : List KnownHostRecord :=
  ((((db.rows .knownHost).select fun _ r => !r.deleted).map fun e => e.2.body).insertionSort knownHostLe).map
    KnownHostPayload.answer

/-! ## A backup -/

/-- A login inside a file: username, domain and, in a sealed file, the password. -/
structure BackupLogin where
  username : Text
  domain : Text
  password : Option Text
deriving DecidableEq

structure BackupGroup where
  workspace : Workspace
  name : Text
  login : Option BackupLogin
  drives : Option DriveRedirection
deriving DecidableEq

structure BackupHost where
  name : Text
  address : Text
  port : UInt16
  workspace : Workspace
  group : Option Text
  position : ℤ
  login : Option BackupLogin
  gatewayLogin : Option BackupLogin
  rdp : RdpSettings
  comment : Text
deriving DecidableEq

structure BackupKnownHost where
  address : Text
  port : UInt16
  algorithm : Text
  fingerprint : Text
  publicKey : Text
deriving DecidableEq

structure Backup where
  groups : List BackupGroup
  hosts : List BackupHost
  knownHosts : List BackupKnownHost
deriving DecidableEq

namespace Backup

def logins (b : Backup) : List BackupLogin :=
  b.groups.filterMap BackupGroup.login ++ b.hosts.filterMap BackupHost.login ++
    b.hosts.filterMap BackupHost.gatewayLogin

def hasSecrets (b : Backup) : Bool := b.logins.any fun l => l.password.isSome

end Backup

inductive BackupError where
  | store (e : StoreError)
  | exportPasswordRequired
  | exportPasswordWrong
  | export (problem : Text)
deriving DecidableEq

def BackupError.lift {α : Type} : Except StoreError α → Except BackupError α
  | .ok a => .ok a
  | .error e => .error (.store e)

def secretText : Option Payload → Except BackupError (Option Text)
  | none => .ok none
  | some (.bytes bytes) =>
    match Text.ofUtf8 bytes with
    | some text => .ok (some text)
    | none => .error (.export "a stored secret is not text".toList)
  | some _ => .error (.export "a stored secret is not text".toList)

/-- A login as a file carries it, its password only with `secrets`. -/
def backupLogin (db : Db) (vault : Option UnlockedVault) (secrets : Bool) :
    Option ResolvedLogin → Except BackupError (Option BackupLogin)
  | none => .ok none
  | some login => do
    let revealed ←
      if secrets && login.hasPassword then BackupError.lift (revealLoginPassword db vault login) else .ok none
    let password ← secretText revealed
    .ok (some ⟨login.username, login.domain, password⟩)

/-- `group_login`: the login of a group by workspace and name. -/
def namedGroupLogin (db : Db) (workspace : Workspace) (name : Text) : Option ResolvedLogin :=
  ((db.rows .group).find? fun _ r =>
    r.body.workspace = workspace && r.body.name = name && !r.deleted).bind fun e =>
      resolved db e.2.body.identityId false

def backupGroup (db : Db) (vault : Option UnlockedVault) (secrets : Bool) (group : GroupRecord) :
    Except BackupError BackupGroup := do
  let login ← backupLogin db vault secrets (namedGroupLogin db group.workspace group.name)
  .ok { login, workspace := group.workspace, name := group.name, drives := group.drives }

def backupHost (db : Db) (vault : Option UnlockedVault) (secrets : Bool) (host : HostRecord) :
    Except BackupError BackupHost := do
  let own ← BackupError.lift (hostLogin db host.id)
  let gateway ← BackupError.lift (hostGatewayLogin db host.id)
  let login ← backupLogin db vault secrets (own.filter fun l => !l.fromGroup)
  let gatewayLogin ← backupLogin db vault secrets gateway
  .ok
    { login, gatewayLogin, name := host.name, address := host.address, port := host.port
      workspace := host.workspace, group := host.groupPath, position := host.position, rdp := host.rdp
      comment := host.comment }

def backupKnownHost (k : KnownHostRecord) : BackupKnownHost :=
  ⟨k.address, k.port, k.algorithm, k.fingerprint, k.publicKey⟩

/-- Everything, ready to write. With `secrets`, stored passwords come along. -/
def exportBackup (db : Db) (vault : Option UnlockedVault) (secrets : Bool) : Except BackupError Backup :=
  if secrets && vault.isNone then .error (.store .vaultLocked)
  else do
    let groups ← (listGroups db).mapM (backupGroup db vault secrets)
    let hosts ← (listHosts db).mapM (backupHost db vault secrets)
    .ok ⟨groups, hosts, (listKnownHosts db).map backupKnownHost⟩

/-! ## Reading one back -/

/-- A login goes to the end of the list, and is referenced by its index. -/
def addLogin (logins : List LoginInput) : Option BackupLogin → Option ℕ × List LoginInput
  | none => (none, logins)
  | some l => (some logins.length, logins ++ [⟨l.username, l.domain, l.password.map Text.toUtf8⟩])

def groupInputs (logins : List LoginInput) : List BackupGroup → List GroupInput × List LoginInput
  | [] => ([], logins)
  | g :: rest =>
    let (login, logins) := addLogin logins g.login
    let (inputs, logins) := groupInputs logins rest
    ({ workspace := g.workspace, name := g.name, login, drives := g.drives } :: inputs, logins)

def hostInputs (logins : List LoginInput) : List BackupHost → List HostInput × List LoginInput
  | [] => ([], logins)
  | h :: rest =>
    let (login, logins) := addLogin logins h.login
    let (gatewayLogin, logins) := addLogin logins h.gatewayLogin
    let (inputs, logins) := hostInputs logins rest
    ({ login, gatewayLogin, name := h.name, address := h.address, port := h.port, groupPath := h.group
       workspace := h.workspace, position := none, rdp := h.rdp, comment := h.comment } :: inputs, logins)

def knownHostInput (k : BackupKnownHost) : KnownHostInput where
  address := k.address
  port := k.port
  algorithm := k.algorithm
  publicKey := k.publicKey
  fingerprint := k.fingerprint

/-- What an import is given. A file's certificates only for the hosts it brings. -/
def Backup.importSet (b : Backup) : ImportSet :=
  let (groups, logins) := groupInputs [] b.groups
  let (hosts, logins) := hostInputs logins b.hosts
  let addresses := b.hosts.map fun h => (normalise h.address, h.port)
  { groups, hosts, logins
    knownHosts := (b.knownHosts.filter fun k => addresses.contains (normalise k.address, k.port)).map
      knownHostInput }

/-- Read a backup into the store, skipping what is already there. -/
def importBackup [Platform] (cx : Session) (backup : Backup) : StoreTx Unit := UwuRdp.importSet cx backup.importSet

/-! ## The file -/

/-- What a file's password is turned into a key with, and what is bound to what it seals. -/
structure FileKey where
  password : Password
  salt : ℕ
  kdf : KdfParams
deriving DecidableEq

/-- A backup sealed under a password. -/
structure SealedBody where
  kdf : Text
  params : KdfParams
  salt : ℕ
  key : FileKey
  content : Backup
deriving DecidableEq

structure ExportFile where
  format : Text
  version : ℕ
  createdMs : UInt64
  app : Text
  sealed : Option SealedBody
  data : Option Backup
deriving DecidableEq

def exportFormat : Text := "uwurdp-export".toList

def exportVersion : ℕ := 1

def maxExportBytes : ℕ := 64 * 1024 * 1024

def KdfParams.reasonableForAFile (kdf : KdfParams) : Bool :=
  kdf.withinLimits && kdf.memoryKib ≤ 256 * 1024 && kdf.timeCost ≤ 8 && kdf.parallelism ≤ 8

/-- What is written around a backup: the salt is new each time. -/
structure Writing where
  nowMs : UInt64
  app : Text
  salt : ℕ
  kdf : KdfParams

/-- Write a backup as a file. A password always seals, and secrets need one. -/
def encodeExport (w : Writing) (backup : Backup) (password : Option Password) : Except BackupError ExportFile :=
  let envelope : ExportFile := ⟨exportFormat, exportVersion, w.nowMs, w.app, none, none⟩
  match password.filter fun p => !p.isEmpty with
  | none => if backup.hasSecrets then .error .exportPasswordRequired else .ok { envelope with data := some backup }
  | some password =>
    if !w.kdf.withinLimits then .error (.store (.vault .kdf))
    else .ok { envelope with
      sealed := some ⟨"argon2id".toList, w.kdf, w.salt, ⟨password, w.salt, w.kdf⟩, backup⟩ }

/-- What a file says of itself; `size` is how many bytes it has. -/
def parseEnvelope (size : ExportFile → ℕ) (file : ExportFile) : Except BackupError Unit :=
  if maxExportBytes < size file then .error (.export "the file is too large".toList)
  else if file.format ≠ exportFormat then .error (.export "this is not an UwURDP export".toList)
  else if exportVersion < file.version then
    .error (.export ("the file was written by a newer UwURDP (format ".toList ++ Text.ofNat file.version ++ [')']))
  else .ok ()

def decodeExport (size : ExportFile → ℕ) (file : ExportFile) (password : Option Password) :
    Except BackupError Backup := do
  parseEnvelope size file
  match file.sealed, file.data with
  | some body, _ =>
    match password.filter fun p => !p.isEmpty with
    | none => .error .exportPasswordRequired
    | some password =>
      if body.kdf ≠ "argon2id".toList then .error (.export ("unknown key derivation ".toList ++ body.kdf))
      else if !body.params.reasonableForAFile then
        .error (.export "the file asks for far more key derivation work than an export needs".toList)
      else if body.key = ⟨password, body.salt, body.params⟩ then .ok body.content
      else .error .exportPasswordWrong
  | none, some data => .ok data
  | none, none => .error (.export "the file holds no data".toList)

theorem decode_encode {size : ExportFile → ℕ} {w : Writing} {backup : Backup} {password : Password}
    (hpassword : password ≠ []) (hkdf : w.kdf.reasonableForAFile = true) :
    ∃ file, encodeExport w backup (some password) = .ok file ∧
      decodeExport size file (some password) =
        if size file ≤ maxExportBytes then .ok backup
        else .error (.export "the file is too large".toList) := by
  have hgiven : (some password).filter (fun p => !p.isEmpty) = some password := by
    rw [Option.filter_some, if_pos]
    rw [Bool.not_eq_true', List.isEmpty_eq_false_iff]
    exact hpassword
  have hlimits : w.kdf.withinLimits = true := by
    unfold KdfParams.reasonableForAFile at hkdf
    simp only [Bool.and_eq_true] at hkdf
    exact hkdf.1.1.1
  let file : ExportFile := ⟨exportFormat, exportVersion, w.nowMs, w.app,
    some ⟨"argon2id".toList, w.kdf, w.salt, ⟨password, w.salt, w.kdf⟩, backup⟩, none⟩
  have hwritten : encodeExport w backup (some password) = .ok file := by
    unfold encodeExport
    rw [hgiven]
    show (if (!w.kdf.withinLimits) = true then _ else _) = _
    rw [hlimits]
    rfl
  refine ⟨file, hwritten, ?_⟩
  have hparsed : parseEnvelope size file =
      if size file ≤ maxExportBytes then .ok () else .error (.export "the file is too large".toList) := by
    have hformat : ¬file.format ≠ exportFormat := fun hne => hne rfl
    have hversion : ¬exportVersion < file.version := Nat.lt_irrefl _
    unfold parseEnvelope
    rw [if_neg hformat, if_neg hversion]
    by_cases hfits : size file ≤ maxExportBytes
    · rw [if_pos hfits, if_neg (Nat.not_lt.mpr hfits)]
    · rw [if_neg hfits, if_pos (Nat.lt_of_not_le hfits)]
  have hopened : (match (some password).filter fun p => !p.isEmpty with
      | none => (.error .exportPasswordRequired : Except BackupError Backup)
      | some given =>
        if "argon2id".toList ≠ "argon2id".toList then
          .error (.export ("unknown key derivation ".toList ++ "argon2id".toList))
        else if !w.kdf.reasonableForAFile then
          .error (.export "the file asks for far more key derivation work than an export needs".toList)
        else if FileKey.mk password w.salt w.kdf = FileKey.mk given w.salt w.kdf then .ok backup
        else .error .exportPasswordWrong) = .ok backup := by
    rw [hgiven]
    dsimp only
    rw [hkdf, if_neg (not_not_intro rfl), if_neg (by decide), if_pos rfl]
  unfold decodeExport
  rw [hparsed]
  by_cases hfits : size file ≤ maxExportBytes
  · rw [if_pos hfits, if_pos hfits]
    exact hopened
  · rw [if_neg hfits, if_neg hfits]
    rfl

end UwuRdp
