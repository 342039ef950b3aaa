import UwuRdp.Store.Manifest

/-!
# Server certificates the user has decided to trust

One key per address and port. While the last check found host keys kept back, a key another device
decided on is not answered with.
-/

namespace UwuRdp

open Lib

/-- `normalise`: addresses are compared without regard to case. -/
def normalise (address : Text) : Text := Text.toAsciiLowercase (Text.trim address)

def Db.slot (db : Db) (address : Text) (port : UInt16) : Option (Uuid × Row KnownHostPayload) :=
  (db.rows .knownHost).find? fun _ r => r.body.address = address && r.body.port = port

/-- A trusted key, as it is answered. -/
structure KnownHostRecord where
  address : Text
  port : UInt16
  algorithm : Text
  fingerprint : Text
  publicKey : Text
  firstSeenMs : UInt64
deriving DecidableEq

def KnownHostPayload.answer (b : KnownHostPayload) : KnownHostRecord :=
  ⟨b.address, b.port, b.algorithm, b.fingerprintSha256, b.publicKey, b.firstSeenMs⟩

/-- The row a key is answered from: a live one of this device's own, or any live one while no host
key is in doubt. -/
def trustedRow (db : Db) (device : UInt32) (address : Text) (port : UInt16) :
    Option (Uuid × Row KnownHostPayload) :=
  (db.slot (normalise address) port).filter fun e =>
    !e.2.deleted && (e.2.hlc.device == device || !hostKeysWithheld db)

def knownHost (db : Db) (device : UInt32) (address : Text) (port : UInt16) :
    Option KnownHostRecord :=
  (trustedRow db device address port).map fun e => e.2.body.answer

/-- Trust a key for an address and port, replacing whatever was trusted before. -/
def trustHostKey (cx : Session) (address : Text) (port : UInt16)
    (algorithm fingerprint publicKey : Text) : StoreTx Unit := do
  let clock ← StoreTx.tick cx
  let id ← StoreTx.nowV7 cx
  let firstSeenMs ← StoreTx.nowMs cx
  let slot ← StoreTx.query fun db => db.slot (normalise address) port
  match slot with
  | none =>
    StoreTx.insertRow .knownHost id
      ⟨clock, false, true, 0, ⟨normalise address, port, algorithm, fingerprint, publicKey, firstSeenMs,
        []⟩⟩
  | some (id, _) =>
    StoreTx.updateRow .knownHost id fun r =>
      { r with
        hlc := clock, deleted := false, dirty := true
        body := { r.body with algorithm, fingerprintSha256 := fingerprint, publicKey, firstSeenMs } }

/-- Stop trusting the key for an address and port. Says whether one was trusted. -/
def forgetHostKey (cx : Session) (address : Text) (port : UInt16) : StoreTx Bool := do
  let clock ← StoreTx.tick cx
  let slot ← StoreTx.query fun db => db.slot (normalise address) port
  match slot with
  | none => pure false
  | some (id, r) =>
    if r.deleted then pure false
    else do
      StoreTx.updateRow .knownHost id fun r => { r with hlc := clock, deleted := true, dirty := true }
      pure true

end UwuRdp
