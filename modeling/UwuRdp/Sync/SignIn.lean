import UwuRdp.Store.Adopt
import UwuRdp.Sync.Lock

/-!
# Signing in to UwULock

A sign-in is held to what this device learnt at earlier ones: it refuses a cheaper key derivation, a
space it left, and, unless the person agreed, any space but the one it used. The space it comes to is
joined in a step of its own, with the sign-in in hand; other calls may come between.
-/

namespace UwuRdp

open Lib

/-! ## Accounts -/

/-- How an account's master key is derived. -/
inductive LockKdf where
  | pbkdf2 (iterations : ℕ)
  | argon2id (iterations memoryMib parallelism : ℕ)
deriving DecidableEq

/-- What the UwULock client library decides: how addresses are compared, which derivation is the
weaker one, and which key opens what. -/
class LockCore where
  normalizeServer : Text → Option Text
  normalizeEmail : Text → Text
  isWeakerThan : LockKdf → LockKdf → Bool
  kdfToText : LockKdf → Text
  kdfOfText : Text → Option LockKdf
  masterKey : Password → Text → LockKdf → Option ℕ
  masterPasswordHash : ℕ → Password → ℕ
  decryptUserKey : ℕ → Text → Option ℕ
  decryptPrivateKey : ℕ → Text → Option ℕ
  wrapSpaceKey : VaultKey → ℕ → Text
  unwrapSpaceKey : Text → ℕ → Option VaultKey

/-- What goes wrong on the way in. -/
inductive SignInError where
  | transport (e : TransportError)
  | crypto
  | wrongPassword
  | weakerKdf
  | noKeyPair
  | keysLost
  /-- The server lists a space this device left. -/
  | spaceLeft (id : Uuid)
deriving DecidableEq

/-- A space other than the one this device used, agreed to. -/
inductive AcceptSpace where
  | listed (id : Uuid)
  | new
deriving DecidableEq

/-- What this device learnt about an account at earlier sign-ins. -/
structure Known where
  kdf : Option LockKdf
  space : Option Uuid
  leftSpaces : List Uuid
deriving DecidableEq

/-- A code for two-step login, or the token that stands for one. -/
structure SecondStep where
  code : Text
  provider : ℕ
  remember : Bool
deriving DecidableEq

/-- What the person typed, and what is known. -/
structure SignIn where
  serverUrl : Text
  email : Text
  password : Password
  twoFactor : Option SecondStep
  rememberToken : Option Text
  known : Known
  acceptSpace : Option AcceptSpace
deriving DecidableEq

structure TokenAnswer where
  key : Option Text
  privateKey : Option Text
  refreshToken : Option Text
  rememberToken : Option Text
deriving DecidableEq

inductive TokenOutcome where
  | granted (answer : TokenAnswer)
  /-- Refused with a status; a refusal may ask for the second step. -/
  | refused (twoFactor : Bool) (status : ℕ)
deriving DecidableEq

/-- A space as the server lists it, with its key under the account's. -/
structure KeyedSpace extends SpaceObject where
  key : Text
deriving DecidableEq

/-- The part of a UwULock Server a sign-in talks to. -/
structure AccountServer (σ : Type) where
  appSyncSwitchedOff : σ → Bool × σ
  prelogin : Text → σ → Except TransportError LockKdf × σ
  token : Text → ℕ → Option SecondStep → σ → Except TransportError TokenOutcome × σ
  /-- `extras_key`: opened, opened and wrapped again, or made. -/
  extrasKey : ℕ → Option ℕ → σ → Except SignInError ℕ × σ
  spaces : σ → Except TransportError (List KeyedSpace) × σ
  createSpace : Uuid → Text → σ → Except TransportError (Reply Unit) × σ

/-- A device signed in, with the space it syncs. -/
structure SignedIn where
  space : Space
  /-- This sign-in made the space. -/
  madeSpace : Bool
  serverUrl : Text
  email : Text
  refreshToken : Option Text
  rememberToken : Option Text
  kdf : LockKdf
deriving DecidableEq

inductive SignInOutcome where
  | signedIn (signed : SignedIn)
  | twoFactor
  /-- The account's space is not the one this device used there. Nothing was taken: ask first. -/
  | spaceChanged (was : Uuid) (now : Option Uuid) (rememberToken : Option Text)
deriving DecidableEq

section Core

variable [LockCore]

/-- What this device learnt about the account of a server and an email. Nothing for an address that
is none. -/
def known [Platform] (s : LockStore) (serverUrl email : Text) : Except SignInError Known :=
  match LockCore.normalizeServer serverUrl with
  | none => .ok ⟨none, none, []⟩
  | some server =>
    let account := s.account (server, accountEmail email)
    match account.kdf with
    | none => .ok ⟨none, account.spaceId, account.leftSpaces⟩
    | some text =>
      match LockCore.kdfOfText text with
      | none => .error .crypto
      | some kdf => .ok ⟨some kdf, account.spaceId, account.leftSpaces⟩

/-! ## The sign-in -/

variable {σ : Type}

abbrev SignInCall (σ : Type) := Act σ SignInError

namespace SignInCall

def ask {α : Type} (f : σ → Except TransportError α × σ) : SignInCall σ α := fun server =>
  match f server with
  | (.ok a, server) => (.ok a, server)
  | (.error e, server) => (.error (.transport e), server)

def need {α : Type} (a : Option α) (e : SignInError) : SignInCall σ α :=
  match a with
  | some a => pure a
  | none => Act.fail e

end SignInCall

open SignInCall

/-- A server that asks for a cheaper derivation than this account used last time is refused. -/
def refuseWeakerKdf (kdf : LockKdf) (known : Known) : SignInCall σ Unit :=
  match known.kdf with
  | some before => if LockCore.isWeakerThan kdf before then Act.fail .weakerKdf else pure ()
  | none => pure ()

/-- What the search for a space came to. -/
inductive Taken where
  | space (space : Space) (made : Bool)
  | changed (was : Uuid) (now : Option Uuid)
deriving DecidableEq

/-- `open` of a listed space. -/
def openSpace (extrasKey : ℕ) (existing : KeyedSpace) : SignInCall σ Taken := do
  let key ← need (LockCore.unwrapSpaceKey existing.key extrasKey) .crypto
  pure (.space ⟨existing.id, key⟩ false)

/-- A new space, or another look when another device made it first. -/
def makeSpace (srv : AccountServer σ) (extrasKey : ℕ) (made : Space) (again : SignInCall σ Taken) :
    SignInCall σ Taken := do
  let reply ← ask (srv.createSpace made.id (LockCore.wrapSpaceKey made.key extrasKey))
  match reply with
  | .done () => pure (.space made true)
  | .refused refusal =>
    if refusal.code = some "exists".toList then again else Act.fail (.transport .refused)

/-- This app's space: the account's, or a new one, as long as it is the one this device used on the
account before, or the person agreed to another. One it left is refused outright. A new space may
turn out to be there already, and the search starts over. -/
def takeSpace (srv : AccountServer σ) (extrasKey : ℕ) (known : Known) (accept : Option AcceptSpace)
    (fresh : ℕ → Space) : ℕ → SignInCall σ Taken
  | 0 => Act.fail (.transport .refused)
  | rounds + 1 => do
    let spaces ← ask srv.spaces
    match spaces.find? fun object => object.space = spaceName with
    | some existing =>
      if existing.id ∈ known.leftSpaces then Act.fail (.spaceLeft existing.id)
      else
        match known.space with
        | some was =>
          if was ≠ existing.id ∧ accept ≠ some (.listed existing.id) then
            pure (.changed was (some existing.id))
          else openSpace extrasKey existing
        | none => openSpace extrasKey existing
    | none =>
      match known.space with
      | some was =>
        if accept ≠ some .new then pure (.changed was none)
        else
          makeSpace srv extrasKey (fresh rounds)
            (takeSpace srv extrasKey known accept fresh rounds)
      | none =>
        makeSpace srv extrasKey (fresh rounds)
          (takeSpace srv extrasKey known accept fresh rounds)

def openPrivateKey (userKey : ℕ) : Option Text → SignInCall σ (Option ℕ)
  | none => pure none
  | some wrapped => do
    let key ← need (LockCore.decryptPrivateKey userKey wrapped) .crypto
    pure (some key)

def switchedOff (srv : AccountServer σ) (server : σ) : Except TransportError Bool × σ :=
  let (off, server) := srv.appSyncSwitchedOff server
  (.ok off, server)

def signIn (srv : AccountServer σ) (request : SignIn) (fresh : ℕ → Space) :
    SignInCall σ SignInOutcome := do
  let base ← need (LockCore.normalizeServer request.serverUrl) (.transport .refused)
  let email := request.email.trim
  if email = [] ∨ request.password = [] then Act.fail .wrongPassword
  else do
    -- Before the key derivation: the server would refuse the login anyway.
    let off ← ask (switchedOff srv)
    if off then Act.fail (.transport .switchedOff)
    else do
      let kdf ← ask (srv.prelogin email)
      refuseWeakerKdf kdf request.known
      let masterKey ← need (LockCore.masterKey request.password email kdf) .crypto
      let hash := LockCore.masterPasswordHash masterKey request.password
      let second := request.twoFactor.or (request.rememberToken.map fun token => ⟨token, 5, false⟩)
      let outcome ← ask (srv.token email hash second)
      match outcome with
      | .refused true _ => pure .twoFactor
      | .refused false status =>
        if status = 400 ∨ status = 401 then do
          let off ← ask (switchedOff srv)
          Act.fail (if off then .transport .switchedOff else .wrongPassword)
        else Act.fail (.transport .refused)
      | .granted answer => do
        let wrapped ← need answer.key .crypto
        let userKey ← need (LockCore.decryptUserKey masterKey wrapped) .crypto
        let privateKey ← openPrivateKey userKey answer.privateKey
        let extrasKey ← (srv.extrasKey userKey privateKey : SignInCall σ ℕ)
        let taken ← takeSpace srv extrasKey request.known request.acceptSpace fresh 2
        match taken with
        | .changed was now => pure (.spaceChanged was now answer.rememberToken)
        | .space space made => pure (.signedIn {
            space := space
            madeSpace := made
            serverUrl := base
            email := LockCore.normalizeEmail email
            refreshToken := answer.refreshToken
            rememberToken := answer.rememberToken
            kdf := kdf })

end Core

end UwuRdp
