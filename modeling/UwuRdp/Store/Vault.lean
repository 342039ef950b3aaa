import UwuRdp.Store.Manifest

/-!
# The vault and the pairing in the store

The header of the vault is kept in the database and its key in memory, while it is unlocked. A
pairing is kept next to it: who this device is at its server, and the account key, sealed by the
operating system. Adopting the vault of an account seals the secrets here again and makes every
record one the account has not seen.
-/

namespace UwuRdp

open Lib

/-- The open store: the database, and the vault's key while it is in memory. -/
structure Store where
  db : Db
  vault : Option UnlockedVault

/-- What the interface needs to know before it can store or reveal a secret. -/
inductive VaultStatus where
  | absent
  | locked
  | unlocked
deriving DecidableEq

namespace Store

def vaultStatus (s : Store) : VaultStatus :=
  if s.vault.isSome then .unlocked else if s.db.header.isSome then .locked else .absent

/-- Create the vault under a password alone, and leave it unlocked. The key and the salt are new. -/
def createVaultWith (key : VaultKey) (salt : ℕ) (password : Password) (kdf : KdfParams) (s : Store) :
    Except StoreError Store :=
  if s.db.header.isSome then .error .vaultExists
  else
    match UnlockedVault.rewrap ⟨s.db.vaultId, key⟩ salt password none kdf with
    | .error e => .error (.vault e)
    | .ok header => .ok
        { db := { s.db with header := some header }, vault := some ⟨s.db.vaultId, key⟩ }

/-- Unlock with the password and an account key the caller has. -/
def unlockVaultWith (password : Password) (accountKey : Option AccountKey) (s : Store) :
    Except StoreError Store :=
  match s.db.header with
  | none => .error .noVault
  | some header =>
    match header.unlockWith password accountKey with
    | .error e => .error (.vault e)
    | .ok vault => .ok { s with vault := some vault }

def unlockVault (password : Password) (s : Store) : Except StoreError Store :=
  match s.db.header with
  | none => .error .noVault
  | some header =>
    match header.unlock password with
    | .error e => .error (.vault e)
    | .ok vault => .ok { s with vault := some vault }

/-- The header `rewrapVault` would keep, without keeping it. -/
def wrapVaultKey (salt : ℕ) (password : Password) (accountKey : Option AccountKey) (s : Store) :
    Except StoreError VaultHeader :=
  match s.vault with
  | none => .error .vaultLocked
  | some vault =>
    match vault.rewrap salt password accountKey (s.db.header.elim .recommended VaultHeader.kdf) with
    | .error e => .error (.vault e)
    | .ok header => .ok header

/-- Keep a header made by `wrapVaultKey`. It has to wrap the key of the vault that is open. -/
def keepVaultHeader (header : VaultHeader) (s : Store) : Except StoreError Store :=
  match s.vault with
  | none => .error .vaultLocked
  | some vault =>
    if vault.vaultId ≠ header.vaultId then .error .noVault
    else .ok { s with db := { s.db with header := some header } }

def saveEnrolment (e : Enrolment) (s : Store) : Store :=
  { s with db := { s.db with enrolment := some e } }

/-- Unpair: forget the server, the device identity and both secrets. The records stay. -/
def forgetEnrolment (s : Store) : Store :=
  { s with db := { s.db with
      enrolment := none, cursor := 0, floor := none, violations := Table.empty } }

end Store

/-! ## Adopting the vault of an account -/

/-- What becomes of this device's records when it adopts another vault. -/
inductive Carry where
  /-- They are new to the account: every one waits to be pushed. -/
  | push
  /-- They were just copied to the account's server. -/
  | moved
deriving DecidableEq

def sealedSecret (r : Row Sealed) : Bool := !r.deleted && 0 < r.body.len

def resealed (old new : UnlockedVault) (id : Uuid) (r : Row Sealed) : Row Sealed :=
  match old.openRecord id .secret r.body with
  | none => r
  | some plain => { r with body := new.sealRecord id .secret plain }

/-- Every secret sealed for another vault, if the old one opens them all. -/
def resealAll (old : Option UnlockedVault) (new : UnlockedVault) (t : Table Uuid (Row Sealed)) :
    Except StoreError (Table Uuid (Row Sealed)) :=
  let secrets := t.select fun _ r => sealedSecret r
  if secrets.isEmpty then .ok t
  else
    match old with
    | none => .error .vaultLocked
    | some old =>
      if secrets.all fun e => (old.openRecord e.1 .secret e.2.body).isSome then
        .ok (t.map fun id r => if sealedSecret r then resealed old new id r else r)
      else .error (.vault .decrypt)

/-- A row in the vault of an account: its server has not seen it. -/
def adoptRow {β : Type} (carry : Carry) (r : Row β) : Row β :=
  { r with
    serverSeq := 0
    dirty := if carry = .push ∧ !r.deleted ∧ r.hlc.stamped then true else r.dirty }

/-- The tables of an adopted vault. Manifests speak of the old vault's devices. -/
def adoptRows (carry : Carry) (rows : (k : EntityKind) → Table Uuid (Row (Body k))) :
    (k : EntityKind) → Table Uuid (Row (Body k)) := fun k =>
  if k ∈ syncedKinds then (rows k).map fun _ r => adoptRow carry r
  else if k = .manifest then Table.empty
  else rows k

/-- Take over the vault of an account. Nothing happens when it is the vault that is here. -/
def Store.adopt (header : VaultHeader) (key : VaultKey) (carry : Carry) (also : Db → Db) (s : Store) :
    Except StoreError Store :=
  if s.db.vaultId = header.vaultId then .ok s
  else
    match resealAll s.vault ⟨header.vaultId, key⟩ (s.db.rows .secret) with
    | .error e => .error e
    | .ok secrets => .ok
        { db := also { s.db with
            vaultId := header.vaultId
            rows := adoptRows carry (s.db.setTable .secret secrets).rows
            superseded := Table.empty
            violations := Table.empty
            cursor := 0
            floor := none
            header := some header }
          vault := some ⟨header.vaultId, key⟩ }

def Store.adoptVault (header : VaultHeader) (key : VaultKey) (s : Store) : Except StoreError Store :=
  s.adopt header key .push id

end UwuRdp
