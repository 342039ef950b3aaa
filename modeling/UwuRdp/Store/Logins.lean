import UwuRdp.Store.Settings

/-!
# Logins

A login is a row of `identities`, and three things point at one: a host, a host's gateway and a
group. Every owner gets a login of its own; a shared one is copied on the first edit. A login
without a username is no login: clearing the username drops it.
-/

namespace UwuRdp

open Lib

/-! ## Secrets -/

/-- A row just written here: live, dirty, and new to the server. -/
def newRow {β : Type} (clock : Hlc) (b : β) : Row β := ⟨clock, false, true, 0, b⟩

/-- Rewrite a row here: the clock moves, and it waits to be pushed. -/
def Row.rewrite {β : Type} (r : Row β) (clock : Hlc) (f : β → β) : Row β :=
  { r with hlc := clock, dirty := true, body := f r.body }

def Row.tombstone {β : Type} (r : Row β) (clock : Hlc) (f : β → β) : Row β :=
  { r with hlc := clock, dirty := true, deleted := true, body := f r.body }

/-- Seal a secret with the unlocked vault and store it, returning its id. -/
def sealSecret (cx : Session) (vault : UnlockedVault) (plain : List UInt8) : StoreTx Uuid := do
  let id ← StoreTx.nowV7 cx
  let clock ← StoreTx.tick cx
  StoreTx.insertRow .secret id (newRow clock (vault.sealRecord id .secret (.bytes plain)))
  pure id

/-- Delete a live row; nothing happens to one that is deleted already. -/
def tombstoneLive (k : EntityKind) (id : Uuid) (clock : Hlc) (f : Body k → Body k) :
    StoreTx Unit :=
  StoreTx.updateRow k id fun r => if r.deleted then r else r.tombstone clock f

/-- Tombstone a secret and drop its ciphertext with it. -/
def forgetSecret (cx : Session) (id : Uuid) : StoreTx Unit := do
  let clock ← StoreTx.tick cx
  tombstoneLive .secret id clock fun _ => Sealed.empty

/-! ## Who points at a login -/

/-- The live rows that point at a login: as a host's own, as a gateway's, as a group's. -/
def references (db : Db) (identity : Uuid) : ℕ :=
  ((db.rows .host).select fun _ r => !r.deleted && r.body.identityId = some identity).length +
  ((db.rows .host).select fun _ r => !r.deleted && r.body.gatewayIdentityId = some identity).length +
  ((db.rows .group).select fun _ r => !r.deleted && r.body.identityId = some identity).length

def secretUsed (db : Db) (secret : Uuid) : Bool :=
  ((db.rows .identity).find? fun _ r => !r.deleted && r.body.passwordSecretId = some secret).isSome

/-! ## Changing a login -/

/-- What happens to a stored password when a form is saved. -/
inductive PasswordChange where
  | keep
  | set (value : List UInt8)
  | forget
deriving DecidableEq

def PasswordChange.sets : PasswordChange → Bool
  | .set _ => true
  | _ => false

/-- What a form says about one login. -/
structure LoginChange where
  username : Text
  domain : Text
  password : PasswordChange
deriving DecidableEq

/-- The login an owner points at after a change, and the one to let go once it does. -/
structure AppliedLogin where
  identity : Option Uuid
  release : Option Uuid
deriving DecidableEq

/-- A username as typed: only control characters and absurd lengths are refused. -/
def cleanUsername (field : String) (value : Text) : Except StoreError Text :=
  let value := Text.trim value
  if value.any Text.isControl then .error (.invalid field "control")
  else if 256 < value.length then .error (.invalid field "too-long")
  else .ok value

def cleanDomain (field : String) (value : Text) : Except StoreError Text :=
  let value := Text.trim value
  if value.any fun c => Text.isControl c || Text.isWhitespace c then
    .error (.invalid field "whitespace")
  else if 255 < value.length then .error (.invalid field "too-long")
  else .ok value

def labelOf (username domain : Text) : Text :=
  if domain.isEmpty then username else domain ++ ['\\'] ++ username

/-- Forget a password once no login uses it any more. -/
def releaseSecret (cx : Session) (secret : Uuid) : StoreTx Unit := do
  let used ← StoreTx.query fun db => secretUsed db secret
  if used then pure () else forgetSecret cx secret

/-- Tombstone a login nothing points at any more, and its password with it. -/
def releaseLogin (cx : Session) (clock : Hlc) (identity : Uuid) : StoreTx Unit := do
  let used ← StoreTx.query fun db => references db identity
  if 0 < used then pure ()
  else do
    let row ← StoreTx.query fun db => db.row .identity identity
    tombstoneLive .identity identity clock id
    match row with
    | none => pure ()
    | some r =>
      if r.deleted then pure () else r.body.passwordSecretId.toList.forM (releaseSecret cx)

def insertLogin (cx : Session) (label username domain : Text) (secret : Option Uuid) (clock : Hlc) :
    StoreTx Uuid := do
  let id ← StoreTx.nowV7 cx
  StoreTx.insertRow .identity id
    (newRow clock ⟨label, username, domain, .password, none, secret, []⟩)
  pure id

/-- The fields of a form, checked: the username and the domain, and that a password that is set has
both itself and a username. -/
def checkLogin (usernameField : String) (change : LoginChange) : Except StoreError (Text × Text) :=
  match cleanUsername usernameField change.username,
      cleanDomain (if usernameField = "username" then "domain" else "gatewayDomain") change.domain with
  | .error e, _ => .error e
  | .ok _, .error e => .error e
  | .ok username, .ok domain =>
    match change.password with
    | .set value =>
      if value.isEmpty then .error (.invalid "password" "required")
      else if username.isEmpty then .error (.invalid usernameField "required")
      else .ok (username, domain)
    | _ => .ok (username, domain)

def oldSecret (db : Db) (current : Option Uuid) : Option Uuid :=
  current.bind fun identity => (db.row .identity identity).bind fun r => r.body.passwordSecretId

def newSecret (cx : Session) (old : Option Uuid) : PasswordChange → StoreTx (Option Uuid)
  | .keep => pure old
  | .forget => pure none
  | .set value => do
    let vault ← Tx.orFail cx.vault .vaultLocked
    let id ← sealSecret cx vault value
    pure (some id)

/-- Give the owner the login: its own one is rewritten, a shared one stays as it is for the others
and this owner gets a copy. -/
def writeLogin (cx : Session) (current : Option Uuid) (shared : Bool)
    (username domain : Text) (secret : Option Uuid) (clock : Hlc) : StoreTx Uuid :=
  match current, shared with
  | some identity, false => do
    StoreTx.updateRow .identity identity fun r => r.rewrite clock fun b =>
      { b with
        label := labelOf username domain, username, domain, authType := .password
        keyId := none, passwordSecretId := secret }
    pure identity
  | _, _ => insertLogin cx (labelOf username domain) username domain secret clock

/-- A replaced password goes once nothing points at it any more. -/
def releaseReplaced (cx : Session) (old secret : Option Uuid) : PasswordChange → StoreTx Unit
  | .keep => pure ()
  | _ => (old.filter fun o => some o ≠ secret).toList.forM (releaseSecret cx)

/-- Apply what a form says to the owner's login today. -/
def applyLogin (cx : Session) (current : Option Uuid) (change : LoginChange)
    (usernameField : String) (clock : Hlc) : StoreTx AppliedLogin :=
  match checkLogin usernameField change with
  | .error e => Tx.fail e
  | .ok (username, domain) =>
    if username.isEmpty then pure ⟨none, current⟩
    else do
      let old ← StoreTx.query fun db => oldSecret db current
      let secret ← newSecret cx old change.password
      let shared ← StoreTx.query fun db => current.any fun i => 1 < references db i
      let identity ← writeLogin cx current shared username domain secret clock
      releaseReplaced cx old secret change.password
      pure ⟨some identity, none⟩

/-! ## Reading a login -/

/-- A login as the interface shows it. -/
structure LoginView where
  username : Text
  domain : Text
  hasPassword : Bool
deriving DecidableEq

def readLogin (db : Db) (identity : Option Uuid) : LoginView :=
  match identity.bind fun i => (db.row .identity i).filter fun r => !r.deleted with
  | none => ⟨[], [], false⟩
  | some r => ⟨r.body.username, r.body.domain, r.body.passwordSecretId.isSome⟩

end UwuRdp
