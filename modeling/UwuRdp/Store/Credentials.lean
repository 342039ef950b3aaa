import UwuRdp.Store.Hosts

/-!
# Which login a host connects with

A host's own login wins; without one, its group's; without that, the connect dialog asks. A password
is only revealed when it is needed, from a login that still has it, and not while the vault is
locked.
-/

namespace UwuRdp

open Lib

/-- A login as it applies to one connection. -/
structure ResolvedLogin where
  username : Text
  domain : Text
  hasPassword : Bool
  /-- Handed down by the host's group rather than the host's own. -/
  fromGroup : Bool
  identity : Uuid
  secret : Option Uuid
deriving DecidableEq

/-- The login an owner points at, if it is live and has a username. -/
def resolved (db : Db) (identity : Option Uuid) (fromGroup : Bool) : Option ResolvedLogin :=
  identity.bind fun i =>
    ((db.row .identity i).filter fun r => !r.deleted && !r.body.username.isEmpty).map fun r =>
      { username := r.body.username, domain := r.body.domain
        hasPassword := r.body.passwordSecretId.isSome, fromGroup, identity := i
        secret := r.body.passwordSecretId }

def resolvedGroup (db : Db) (group : Option Uuid) : Option ResolvedLogin :=
  (group.bind fun g => (db.row .group g).filter fun r => !r.deleted).bind fun r =>
    resolved db r.body.identityId true

/-- The login a host connects with: its own, else its group's, else none. -/
def hostLogin (db : Db) (host : Uuid) : Except StoreError (Option ResolvedLogin) :=
  match liveHost db host with
  | none => .error (.unknownHost host)
  | some h =>
    match resolved db h.body.identityId false with
    | some login => .ok (some login)
    | none => .ok (resolvedGroup db h.body.groupId)

/-- The login for a host's gateway, when it has one of its own. -/
def hostGatewayLogin (db : Db) (host : Uuid) : Except StoreError (Option ResolvedLogin) :=
  match liveHost db host with
  | none => .error (.unknownHost host)
  | some h => .ok (resolved db h.body.gatewayIdentityId false)

def revealSecret (db : Db) (vault : Option UnlockedVault) (id : Uuid) : Except StoreError Payload :=
  match vault with
  | none => .error .vaultLocked
  | some vault =>
    match (db.row .secret id).filter fun r => !r.deleted with
    | none => .error .noVault
    | some r =>
      match vault.openRecord id .secret r.body with
      | none => .error (.vault .decrypt)
      | some plain => .ok plain

/-- The password stored with a login, if it has one. The login may have changed since it was
resolved; only a secret it still points at is revealed. -/
def revealLoginPassword (db : Db) (vault : Option UnlockedVault) (login : ResolvedLogin) :
    Except StoreError (Option Payload) :=
  let current := ((db.row .identity login.identity).filter fun r => !r.deleted).bind fun r =>
    r.body.passwordSecretId
  match login.secret, current with
  | some secret, some current =>
    if current = secret then (revealSecret db vault secret).map some else .ok none
  | _, _ => .ok none

end UwuRdp
