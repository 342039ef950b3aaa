import UwuRdp.Store.Vault
import UwuRdp.Sync.Engine

/-!
# Making an account, joining one, leaving it

Each of these changes the vault's header, the pairing and the floor in transactions of their own,
with requests to a server in between. Any step may fail, and that is where the operation ends. What
is random and what a server or another device answers comes from outside.
-/

namespace UwuRdp

open Lib

/-- The steps that can fail on their own: a request, the operating system, the database. -/
inductive FlowStep where
  | readHeader
  | createVault
  | wrapKey
  | loginKey
  | connect
  | createAccount
  | takeOver
  | vaultParams
  | enrol
  | fetchVault
  | unlock
  | adopt
  | protect
  | saveEnrolment
  | keepHeader
  | setFloor
  | unprotect
  | forget
deriving DecidableEq

inductive FlowError where
  | failed (step : FlowStep)
  | transport (e : TransportError)
  | store (e : StoreError)
  | vault (e : VaultError)
  | noAccountKey
  | alreadyPaired
  | usesLock
  | vaultLocked
  | passwordWrong
deriving DecidableEq

/-- The store, and the floor of the handover this device is paired through if it joined with one. -/
structure FlowState extends Store where
  handed : Option (Option ManifestFloor)

abbrev Flow := Act FlowState FlowError

/-- Where the server is, and what to pin. -/
structure Setup where
  serverUrl : Text
  tlsFingerprint : Option Text
deriving DecidableEq

/-- Who the server says this device is. -/
structure Admitted where
  accountId : Uuid
  deviceId : Uuid
deriving DecidableEq

/-- The parameters a server hands out before it hands out the vault. -/
structure VaultParams where
  kdf : KdfParams
  needsAccountKey : Bool
deriving DecidableEq

/-- What the other device hands over. -/
structure Handover where
  setup : Setup
  accountKey : Option AccountKey
  manifest : Option ManifestFloor
deriving DecidableEq

/-- What making an account takes: what the person gives, what is random, what the server answers. -/
structure Creation where
  password : Password
  setup : Setup
  vaultKey : VaultKey
  vaultSalt : ℕ
  accountKey : AccountKey
  salt : ℕ
  deviceKey : ℕ
  admitted : Admitted
deriving DecidableEq

/-- What joining an account takes besides the account key. -/
structure Joining where
  password : Password
  deviceKey : ℕ
  params : VaultParams
  admitted : Admitted
  header : VaultHeader
deriving DecidableEq

namespace Flow

def attempt (fault : Option FlowStep) (step : FlowStep) : Flow Unit :=
  if fault = some step then Act.fail (.failed step) else pure ()

def call (m : Store → Except StoreError Store) : Flow Unit := do
  let s ← Act.get
  match m s.toStore with
  | .error e => Act.fail (.store e)
  | .ok store => Act.modify fun s => { s with toStore := store }

/-- Write down what a pairing agreed on, sealed by the operating system. -/
def remember (fault : Option FlowStep) (setup : Setup) (admitted : Admitted) (deviceKey : ℕ)
    (accountKey : Option AccountKey) (handed : Option (Option ManifestFloor)) : Flow Unit := do
  attempt fault .protect
  attempt fault .saveEnrolment
  Act.modify fun s =>
    { s.toStore.saveEnrolment
        ⟨setup.serverUrl, admitted.accountId, admitted.deviceId, setup.tlsFingerprint, ⟨deviceKey⟩,
          accountKey.map fun key => ⟨key⟩⟩ with handed }

/-- Turn a setup code, or a ticket from signing in, into an account with this device as its first. -/
def createAccountWith (fault : Option FlowStep) (c : Creation) : Flow Unit := do
  attempt fault .readHeader
  let s ← Act.get
  -- A device starting fresh gets a vault under the password alone first.
  (if s.db.header.isNone then do
    attempt fault .createVault
    call (Store.createVaultWith c.vaultKey c.vaultSalt c.password .recommended)
  else pure ())
  attempt fault .wrapKey
  let s ← Act.get
  match s.wrapVaultKey c.salt c.password (some c.accountKey) with
  | .error e => Act.fail (.store e)
  | .ok header => do
    attempt fault .loginKey
    attempt fault .connect
    attempt fault .createAccount
    remember fault c.setup c.admitted c.deviceKey (some c.accountKey) none
    -- Last, so that the vault is never wrapped under a key this device does not have.
    attempt fault .keepHeader
    call (Store.keepVaultHeader header)

def createAccount (fault : Option FlowStep) (c : Creation) : Flow Unit := createAccountWith fault c

def createAccountSso (fault : Option FlowStep) (c : Creation) : Flow Unit :=
  createAccountWith fault c

/-- Whether the login key may be derived from what a joining device downloaded. -/
def loginKeyFrom (params : VaultParams) (accountKey : Option AccountKey) : Except FlowError Unit :=
  if !params.kdf.withinLimits then .error (.transport .refused)
  else if accountKey.isNone && !params.kdf.strongEnough then .error (.transport .refused)
  else .ok ()

/-- `from_wire`: a header asking for more work than a device can do is refused. -/
def fromWire (header : VaultHeader) : Except FlowError VaultHeader :=
  if header.kdf.withinLimits then .ok header else .error (.transport .refused)

/-- The way to the key of the account's vault: its parameters, this device let in, the wrapped key
downloaded and opened. The store is not touched. -/
def approach (fault : Option FlowStep) (j : Joining) (accountKey : Option AccountKey) :
    Flow UnlockedVault := do
  Act.ofExcept (loginKeyFrom j.params accountKey)
  attempt fault .loginKey
  attempt fault .enrol
  attempt fault .fetchVault
  let header ← Act.ofExcept (fromWire j.header)
  match header.unlockWith j.password accountKey with
  | .error e => Act.fail (.vault e)
  | .ok vault => pure vault

/-- The account's vault becomes the one of this device, and then the pairing is written down. -/
def enter (fault : Option FlowStep) (j : Joining) (setup : Setup) (accountKey : Option AccountKey)
    (handed : Option (Option ManifestFloor)) (vault : UnlockedVault) : Flow Unit := do
  attempt fault .adopt
  call (Store.adoptVault j.header vault.key)
  remember fault setup j.admitted j.deviceKey accountKey handed

/-- Join an account from a code the other device showed. -/
def join (fault : Option FlowStep) (handover : Handover) (j : Joining) : Flow Unit := do
  attempt fault .connect
  attempt fault .takeOver
  attempt fault .vaultParams
  if j.params.needsAccountKey && handover.accountKey.isNone then Act.fail .noAccountKey
  else do
    let vault ← approach fault j handover.accountKey
    enter fault j handover.setup handover.accountKey (some handover.manifest) vault
    attempt fault .setFloor
    Act.modify fun s => { s with db := setManifestFloor s.db handover.manifest }

/-- Join an account with a ticket from signing in. The person brings the account key; an account
without one leaves none to mix in. -/
def joinSso (fault : Option FlowStep) (setup : Setup) (accountKey : Option AccountKey) (j : Joining) :
    Flow Unit := do
  attempt fault .connect
  attempt fault .vaultParams
  if j.params.needsAccountKey && accountKey.isNone then Act.fail .noAccountKey
  else do
    let accountKey := accountKey.filter fun _ => j.params.needsAccountKey
    let vault ← approach fault j accountKey
    enter fault j setup accountKey none vault

/-! ## The commands around them -/

def unpaired (m : Flow Unit) : Flow Unit := do
  let s ← Act.get
  if s.db.enrolment.isSome then Act.fail .alreadyPaired
  else if s.db.lock.active then Act.fail .usesLock
  else m

/-- The master password is right: checked against the vault that is here. -/
def checkPassword (password : Password) : Flow Unit := do
  let s ← Act.get
  match s.vaultStatus with
  | .absent => pure ()
  | _ => call (Store.unlockVault password)

def syncConnect (fault : Option FlowStep) (c : Creation) : Flow Unit := unpaired do
  checkPassword c.password
  createAccount fault c

def syncSsoCreate (fault : Option FlowStep) (c : Creation) : Flow Unit := unpaired do
  checkPassword c.password
  createAccountSso fault c

/-- What is here comes along into the account's vault, which needs it opened first. -/
def unlocked (m : Flow Unit) : Flow Unit := do
  let s ← Act.get
  if s.vaultStatus = .locked then Act.fail .vaultLocked else m

def syncJoin (fault : Option FlowStep) (handover : Handover) (j : Joining) : Flow Unit :=
  unpaired (unlocked (join fault handover j))

def syncSsoJoin (fault : Option FlowStep) (setup : Setup) (accountKey : Option AccountKey)
    (j : Joining) : Flow Unit :=
  unpaired (unlocked (joinSso fault setup accountKey j))

/-- Wrap the vault key again under new inputs and keep the new header. -/
def rewrapVault (fault : Option FlowStep) (salt : ℕ) (password : Password)
    (accountKey : Option AccountKey) : Flow Unit := do
  attempt fault .wrapKey
  let s ← Act.get
  match s.wrapVaultKey salt password accountKey with
  | .error e => Act.fail (.store e)
  | .ok header => do
    attempt fault .keepHeader
    call (Store.keepVaultHeader header)

/-- Stop syncing on this device: the vault is wrapped again without the account key. -/
def syncDisconnect (fault : Option FlowStep) (password : Password) (salt : ℕ) : Flow Unit := do
  let s ← Act.get
  match s.db.enrolment, s.db.header with
  | none, _ => pure ()
  | some _, none => Act.fail (.store .noVault)
  | some enrolment, some header => do
    attempt fault .unprotect
    let accountKey := enrolment.protectedAccountKey.map Protected.plain
    match header.unlockWith password accountKey with
    | .error _ => Act.fail .passwordWrong
    | .ok _ => do
      (if s.vaultStatus ≠ .unlocked then do
        attempt fault .unlock
        call (Store.unlockVaultWith password accountKey)
      else pure ())
      rewrapVault fault salt password none
      attempt fault .forget
      Act.modify fun s => { s.toStore.forgetEnrolment with handed := none }

/-- The account key of the pairing, if the operating system opens it. -/
def keptAccountKey (fault : Option FlowStep) (s : Store) : Option AccountKey :=
  if fault = some .unprotect then none
  else (s.db.enrolment.bind Enrolment.protectedAccountKey).map Protected.plain

/-- Unlock with the master password. A synced vault also needs the account key: typed in from the
recovery kit, or kept by the pairing. -/
def unlockVault (fault : Option FlowStep) (password : Password) (recovery : Option AccountKey) :
    Flow Unit := do
  let s ← Act.get
  if s.db.header.any VaultHeader.needsAccountKey then
    match recovery.or (keptAccountKey fault s.toStore) with
    | none => Act.fail .noAccountKey
    | some key => call (Store.unlockVaultWith password (some key))
  else call (Store.unlockVault password)

def lockVault : Flow Unit := Act.modify fun s => { s with vault := none }

end Flow

end UwuRdp
