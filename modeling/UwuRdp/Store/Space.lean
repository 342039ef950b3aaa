import UwuRdp.Lib.Act
import UwuRdp.Store.Vault

/-!
# What a device keeps of UwULock

On UwULock the vault is a space of an account: its id and its key are the space's. Next to the
database's records stand one row about the session, with the refresh token, and one row for each
account this device signed in to, with the space it used there and the ones it left. Adopting a
vault and taking a space are transactions of many statements, and any of them may fail.
-/

namespace UwuRdp

open Lib

/-- A space this device takes as its vault. -/
structure Space where
  id : Uuid
  key : VaultKey
deriving DecidableEq

/-- A row of `lock_accounts`: what this device learnt about one account at earlier sign-ins. -/
structure LockAccount where
  protectedRememberToken : Option (Protected Text)
  kdf : Option Text
  /-- The space this device used on the account. -/
  spaceId : Option Uuid
  /-- The spaces it used before and moved on from, oldest first. -/
  leftSpaces : List Uuid
deriving DecidableEq

def LockAccount.default : LockAccount := ⟨none, none, none, []⟩

/-- A sign-in, on its way into the database. -/
structure LockEnrolment where
  serverUrl : Text
  email : Text
  kdf : Text
  protectedRefreshToken : Option (Protected Text)
  /-- A new token for this account; `none` keeps the one it has. -/
  protectedRememberToken : Option (Protected Text)
deriving DecidableEq

/-- `Joining`: how the records here come along into the space. -/
inductive SpaceJoining where
  /-- A device signing in: what it has is new to the account. -/
  | signIn
  /-- The move from UwUSync copied everything to the space already. -/
  | moved
deriving DecidableEq

/-- The database, with the rest of `lock_state` and the accounts by server and email. -/
structure LockDb where
  db : Db
  refreshToken : Option (Protected Text)
  signedInMs : Option UInt64
  moveStartedMs : Option UInt64
  accounts : Table (Text × Text) LockAccount

/-- The open store, with what it keeps of UwULock. -/
structure LockStore where
  kept : LockDb
  vault : Option UnlockedVault

def LockStore.toStore (s : LockStore) : Store := ⟨s.kept.db, s.vault⟩

@[simp] theorem LockStore.toStore_db (s : LockStore) : s.toStore.db = s.kept.db := rfl

@[simp] theorem LockStore.toStore_vault (s : LockStore) : s.toStore.vault = s.vault := rfl

/-- An account's email as it is kept: trimmed and in lower case. -/
def accountEmail [Platform] (email : Text) : Text := Platform.toLowercase email.trim

/-! ## Statements -/

/-- The statements of these transactions, each of which the database may refuse. -/
inductive LockStatement where
  | begin
  | readVaultId
  | readSecrets
  | writeSecret (id : Uuid)
  | dropHeader
  | storeHeader
  | setVaultId
  | resetSeqs (k : EntityKind)
  | markDirty (k : EntityKind)
  | forgetManifests
  | dropDeviceKey
  | resetCursor
  | keepState
  | readAccount
  | keepAccount
  | forgetUwusync
  | commit
deriving DecidableEq

abbrev LockTx := Tx LockDb StoreError

namespace LockTx

variable (fault : LockStatement → Bool)

def ask (step : LockStatement) : LockTx LockDb := do
  Tx.require (fault step = false) .sqlite
  Tx.read

def statement (step : LockStatement) (f : LockDb → LockDb) : LockTx Unit := do
  Tx.require (fault step = false) .sqlite
  Tx.modify f

theorem ask_eq_ok {step : LockStatement} {s s' a : LockDb} :
    ask fault step s = .ok (a, s') ↔ fault step = false ∧ s = a ∧ s = s' := by
  unfold ask
  rw [Tx.require_bind_eq_ok]
  refine and_congr_right fun _ => ⟨?_, ?_⟩
  · intro h
    cases h
    exact ⟨rfl, rfl⟩
  · rintro ⟨rfl, rfl⟩
    rfl

theorem statement_eq_ok {step : LockStatement} {f : LockDb → LockDb} {s s' : LockDb} {u : Unit} :
    statement fault step f s = .ok (u, s') ↔ fault step = false ∧ s' = f s := by
  unfold statement
  rw [Tx.require_bind_eq_ok]
  refine and_congr_right fun _ => ⟨?_, ?_⟩
  · intro h
    cases h
    rfl
  · rintro rfl
    rfl

/-! ## Adopting a vault -/

def onTable (k : EntityKind) (f : Table Uuid (Row (Body k)) → Table Uuid (Row (Body k)))
    (s : LockDb) : LockDb := { s with db := s.db.setTable k (f (s.db.rows k)) }

/-- Open one secret with the old key and seal it again with the new one. -/
def resealOne (old new : UnlockedVault) (e : Uuid × Row Sealed) : LockTx Unit := do
  let plain ← Tx.orFail (old.openRecord e.1 .secret e.2.body) (.vault .decrypt)
  statement fault (.writeSecret e.1) (onTable .secret fun t =>
    t.modify e.1 fun r => { r with body := new.sealRecord e.1 .secret plain })

/-- Every secret, sealed again; the vault has to be open if there is any. -/
def reseal (old : Option UnlockedVault) (new : UnlockedVault) : LockTx Unit := do
  let s ← ask fault .readSecrets
  let sealed := (s.db.rows .secret).select fun _ r => sealedSecret r
  if sealed.isEmpty then pure ()
  else do
    let old ← Tx.orFail old .vaultLocked
    sealed.forM (resealOne fault old new)

/-- The rows of one kind, in the account's vault. A placeholder keeps the zero clock and stays out of
the outbox. -/
def carryRows (carry : Carry) (k : EntityKind) : LockTx Unit :=
  if k.hasTable then do
    statement fault (.resetSeqs k) (onTable k fun t => t.map fun _ r => { r with serverSeq := 0 })
    if carry = .moved then pure ()
    else
      statement fault (.markDirty k) (onTable k fun t => t.map fun _ r =>
        { r with dirty := if !r.deleted ∧ r.hlc.stamped then true else r.dirty })
  else pure ()

/-- What `adopt` does in its transaction: whether anything was to be done, and committed. -/
def adopt (old : Option UnlockedVault) (header : VaultHeader) (key : VaultKey) (carry : Carry)
    (also : LockTx Unit) : LockTx Bool := do
  Tx.require (fault .begin = false) .sqlite
  let s ← ask fault .readVaultId
  if s.db.vaultId = header.vaultId then pure false
  else do
    reseal fault old ⟨header.vaultId, key⟩
    statement fault .dropHeader fun s => { s with db := { s.db with header := none } }
    statement fault .storeHeader fun s => { s with db := { s.db with header := some header } }
    statement fault .setVaultId fun s => { s with db := { s.db with vaultId := header.vaultId } }
    syncedKinds.forM (carryRows fault carry)
    statement fault .forgetManifests fun s =>
      { s with db := { s.db.setTable .manifest Table.empty with
          superseded := Table.empty, violations := Table.empty, floor := none } }
    Tx.require (fault .dropDeviceKey = false) .sqlite
    statement fault .resetCursor fun s => { s with db := { s.db with cursor := 0 } }
    also
    Tx.require (fault .commit = false) .sqlite
    pure true

end LockTx

abbrev LockCall := Act LockStore StoreError Unit

/-- `Store::adopt`: nothing stays of a transaction that fails, and the new key is only held once it
is committed. -/
def LockStore.adopt (fault : LockStatement → Bool) (header : VaultHeader) (key : VaultKey)
    (carry : Carry) (also : LockTx Unit) : LockCall := fun s =>
  match LockTx.adopt fault s.vault header key carry also s.kept with
  | .ok (true, kept) => (.ok (), ⟨kept, some ⟨header.vaultId, key⟩⟩)
  | .ok (false, _) => (.ok (), s)
  | .error e => (.error e, s)

/-! ## Taking a space -/

/-- The spaces that count as left once a space is taken: never to be taken again. -/
def leftAfter (before : LockAccount) (space : Uuid) : List Uuid :=
  let left := before.leftSpaces
  let left := match before.spaceId with
    | some old => if old ≠ space ∧ old ∉ left then left ++ [old] else left
    | none => left
  left.filter fun id => id ≠ space

/-- The row of an account once a space is taken there; a token it has stays without a new one. -/
def accountAfter (before : LockAccount) (space : Uuid) (e : LockEnrolment) : LockAccount where
  protectedRememberToken := e.protectedRememberToken.or before.protectedRememberToken
  kdf := some e.kdf
  spaceId := some space
  leftSpaces := leftAfter before space

namespace LockTx

variable (fault : LockStatement → Bool) [Platform]

/-- UwULock becomes the backend, and the account's row says what it is known by from now on. -/
def remember (space : Uuid) (joining : SpaceJoining) (e : LockEnrolment) (now : UInt64) :
    LockTx Unit := do
  statement fault .keepState fun s =>
    { s with
      db := { s.db with lock := ⟨true, some e.serverUrl, some e.email, some space⟩ }
      refreshToken := e.protectedRefreshToken
      signedInMs := some now
      moveStartedMs := none }
  let account := (e.serverUrl, accountEmail e.email)
  let s ← ask fault .readAccount
  let before := (s.accounts.get? account).getD .default
  statement fault .keepAccount fun s =>
    { s with accounts := s.accounts.set account (accountAfter before space e) }
  if joining = .moved then
    statement fault .forgetUwusync fun s => { s with db := { s.db with enrolment := none } }
  else pure ()

/-- The vault here is the space already: it only gets the new wrapping. -/
def rewrap (header : VaultHeader) (also : LockTx Unit) : LockTx Unit := do
  Tx.require (fault .begin = false) .sqlite
  statement fault .dropHeader fun s => { s with db := { s.db with header := none } }
  statement fault .storeHeader fun s => { s with db := { s.db with header := some header } }
  Tx.require (fault .dropDeviceKey = false) .sqlite
  also
  Tx.require (fault .commit = false) .sqlite

end LockTx

namespace LockStore

/-- A key for the vault that is here already must open what that vault sealed: one secret is enough
to tell. -/
def checkSpaceKey (vault : UnlockedVault) (s : LockStore) : Except StoreError Unit :=
  match (s.kept.db.rows .secret).find? fun _ r => sealedSecret r with
  | none => .ok ()
  | some (id, r) =>
    if (vault.openRecord id .secret r.body).isSome then .ok ()
    else .error (.invalid "space" "the account's key does not open this vault")

/-- What a join brings besides the sign-in: the password, its costs, a new salt and the time. -/
structure Wrapping where
  password : Password
  kdf : KdfParams
  salt : ℕ
  now : UInt64
deriving DecidableEq

/-- Take a space as this device's vault and UwULock as its backend. -/
def joinSpace [Platform] (fault : LockStatement → Bool) (space : Space) (w : Wrapping)
    (joining : SpaceJoining) (e : LockEnrolment) : LockCall := fun s =>
  match UnlockedVault.rewrap ⟨space.id, space.key⟩ w.salt w.password none w.kdf with
  | .error err => (.error (.vault err), s)
  | .ok header =>
    let remember := LockTx.remember fault space.id joining e w.now
    if fault .readVaultId then (.error .sqlite, s)
    else if s.kept.db.vaultId = space.id then
      match s.checkSpaceKey ⟨space.id, space.key⟩ with
      | .error err => (.error err, s)
      | .ok () =>
        match LockTx.rewrap fault header remember s.kept with
        | .error err => (.error err, s)
        | .ok ((), kept) => (.ok (), ⟨kept, some ⟨space.id, space.key⟩⟩)
    else
      LockStore.adopt fault header space.key (if joining = .signIn then .push else .moved)
        remember s

/-- What is known of an account: its row, or nothing. -/
def account (s : LockStore) (a : Text × Text) : LockAccount := (s.kept.accounts.get? a).getD .default

def onAccount (a : Text × Text) (f : LockAccount → LockAccount) (s : LockStore) : LockStore :=
  { s with kept := { s.kept with accounts := s.kept.accounts.modify a f } }

/-- The statements of `leaveLock` and the calls below, each a change of its own. -/
inductive LeaveStatement where
  | readState
  | forgetRememberToken
  | forgetKdf
  | clearState
  | resetCursor
  | clearViolations
  | keepRememberToken
deriving DecidableEq

/-- A statement outside a transaction: what was done before it stays done if it fails. -/
def alone (fault : LeaveStatement → Bool) (step : LeaveStatement) (f : LockStore → LockStore) :
    LockCall :=
  if fault step then Act.fail .sqlite else Act.modify f

/-- Stop syncing through UwULock. Which spaces the account used stays known. -/
def leaveLock [Platform] (fault : LeaveStatement → Bool) : LockCall := do
  alone fault .readState id
  let s ← Act.get
  (match s.kept.db.lock.serverUrl, s.kept.db.lock.email with
    | some serverUrl, some email => do
      let a := (serverUrl, accountEmail email)
      alone fault .forgetRememberToken (onAccount a fun r => { r with protectedRememberToken := none })
      alone fault .forgetKdf (onAccount a fun r => { r with kdf := none })
    | _, _ => pure ())
  alone fault .clearState fun s =>
    { s with kept := { s.kept with
        db := { s.kept.db with lock := { s.kept.db.lock with active := false } }
        refreshToken := none
        signedInMs := none
        moveStartedMs := none } }
  alone fault .resetCursor fun s =>
    { s with kept := { s.kept with db := { s.kept.db with cursor := 0 } } }
  alone fault .clearViolations fun s =>
    { s with kept := { s.kept with db := { s.kept.db with violations := Table.empty } } }

/-- Keep a "remember this device" token for an account, for a sign-in that got one but did not get as
far as joining a space. -/
def keepLockRememberToken [Platform] (fault : LeaveStatement → Bool) (serverUrl email : Text)
    (token : Protected Text) : LockCall :=
  let a := (serverUrl, accountEmail email)
  alone fault .keepRememberToken fun s =>
    let row := { s.account a with protectedRememberToken := some token }
    { s with kept := { s.kept with accounts := s.kept.accounts.set a row } }

end LockStore

end UwuRdp
