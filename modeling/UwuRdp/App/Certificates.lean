import UwuRdp.Store.Preference
import UwuRdp.Lib.Steps
import Mathlib.Data.List.Induction

/-!
# Trusting a certificate

A connection that ends with an unknown or a changed certificate leaves it in a table, for a while. What
the page may trust is in that table, and where another certificate is trusted it takes an explicit yes.
A key that is not answered with, because host keys are kept back, is none that is trusted.
-/

namespace UwuRdp

open Lib Lib.Steps

namespace Certificates

/-- A certificate a server presented. -/
structure ObservedCertificate where
  fingerprint : Text
  derBase64 : Text
deriving DecidableEq

/-- How long a presented certificate can be trusted, in nanoseconds. -/
def presentedTtl : ℕ := 10 * 60 * 10 ^ 9

def keyFor (address : Text) (port : UInt16) : Text × UInt16 :=
  (Text.toAsciiLowercase (Text.trim address), port)

/-- The parts of the app's state that trusting is about. -/
structure AppState where
  store : Db
  /-- What was presented for an address and port, and when. -/
  presented : Table (Text × UInt16) (ObservedCertificate × ℕ)
  now : ℕ

inductive CommandError where
  | text (message : Text)
  | store (error : StoreError)
deriving DecidableEq

def notPresented : Text :=
  "this certificate was not presented by the server in the last connection attempt".toList

def needsConfirmation : Text := "replacing a trusted certificate needs the user's confirmation".toList

/-- What was presented for an address and port, not too long ago, if it has the fingerprint. -/
def AppState.justPresented (s : AppState) (address : Text) (port : UInt16) (fingerprint : Text) :
    Option ObservedCertificate :=
  (((s.presented.get? (keyFor address port)).filter fun p => s.now - p.2 < presentedTtl).map
    Prod.fst).filter fun observed => observed.fingerprint = fingerprint

/-- Trust the certificate the server just presented; replacing one needs `replace`. -/
def trustCertificate (cx : Session) (address : Text) (port : UInt16) (fingerprint : Text) (replace : Bool)
    (s : AppState) : Except CommandError Unit × AppState :=
  match s.justPresented address port fingerprint with
  | none => (.error (.text notPresented), s)
  | some presented =>
    let replacing := (knownHost s.store cx.device address port).any fun known =>
      known.fingerprint ≠ presented.fingerprint
    if replacing && !replace then (.error (.text needsConfirmation), s)
    else
      match Session.run s.store
          (trustHostKey cx address port "x509".toList presented.fingerprint presented.derBase64) with
      | (.error e, db) => (.error (.store e), { s with store := db })
      | (.ok (), db) => (.ok (), { s with store := db, presented := s.presented.erase (keyFor address port) })

/-- What goes on in the app. -/
inductive Move where
  | elapse (nanoseconds : ℕ)
  /-- A connection ended with an unknown or a changed certificate. -/
  | refuse (address : Text) (port : UInt16) (observed : ObservedCertificate)
  /-- The page started again: `close_all_sessions`. -/
  | reload
  /-- Anything else that changes the store, syncing above all. -/
  | store (change : Db → Db)
  | trust (cx : Session) (address : Text) (port : UInt16) (fingerprint : Text) (replace : Bool)

def step (s : AppState) : Move → AppState
  | .elapse nanoseconds => { s with now := s.now + nanoseconds }
  | .refuse address port observed =>
    { s with presented := s.presented.set (keyFor address port) (observed, s.now) }
  | .reload => { s with presented := .empty }
  | .store change => { s with store := change s.store }
  | .trust cx address port fingerprint replace => (trustCertificate cx address port fingerprint replace s).2

def launch (db : Db) : AppState := ⟨db, .empty, 0⟩

/-! ## What was presented -/

def Move.time : Move → ℕ
  | .elapse nanoseconds => nanoseconds
  | _ => 0

/-- In these moves a fingerprint was presented for an address and port, less than the limit ago. -/
def Shown (moves : List Move) (key : Text × UInt16) (fingerprint : Text) : Prop :=
  ∃ first address port observed later, moves = first ++ .refuse address port observed :: later ∧
    keyFor address port = key ∧ observed.fingerprint = fingerprint ∧
    (later.map Move.time).sum < presentedTtl

variable {db : Db} {moves : List Move} {s : AppState} {cx : Session} {address fingerprint : Text}
  {port : UInt16} {replace : Bool} {observed : ObservedCertificate}

theorem trustCertificate_cases (cx : Session) (address : Text) (port : UInt16) (fingerprint : Text)
    (replace : Bool) (s : AppState) :
    (trustCertificate cx address port fingerprint replace s).2 = s ∨
      ∃ observed t, s.justPresented address port fingerprint = some observed ∧
        observed.fingerprint = fingerprint ∧
        (∀ known, knownHost s.store cx.device address port = some known → known.fingerprint ≠ fingerprint →
          replace = true) ∧
        trustHostKey cx address port "x509".toList fingerprint observed.derBase64 ⟨s.store, 0⟩ = .ok ((), t) ∧
        (trustCertificate cx address port fingerprint replace s).2 =
          { s with store := t.db, presented := s.presented.erase (keyFor address port) } := by
  unfold trustCertificate
  cases hshown : s.justPresented address port fingerprint with
  | none => exact .inl rfl
  | some observed =>
    have hfingerprint : observed.fingerprint = fingerprint :=
      of_decide_eq_true (Option.filter_eq_some_iff.mp hshown).2
    dsimp only
    split
    · exact .inl rfl
    · next hconfirmed =>
      rw [hfingerprint]
      unfold Session.run
      cases htrust : trustHostKey cx address port "x509".toList fingerprint observed.derBase64 ⟨s.store, 0⟩ with
      | error e => exact .inl rfl
      | ok out =>
        obtain ⟨⟨⟩, t⟩ := out
        refine .inr ⟨observed, t, rfl, hfingerprint, fun known hknown hne => ?_, htrust, rfl⟩
        by_contra hnot
        rw [hknown, hfingerprint] at hconfirmed
        simp [hne, Bool.eq_false_iff.mpr hnot] at hconfirmed

theorem trustHostKey_rows {algorithm publicKey : Text} {t : TxState}
    (h : trustHostKey cx address port algorithm fingerprint publicKey ⟨db, 0⟩ = .ok ((), t)) (id : Uuid) : t.db.row
    .knownHost id = db.row .knownHost id ∨ ∃ r', t.db.row .knownHost id = some r' ∧ r'.body.address = normalise
    address ∧ r'.body.port = port ∧ r'.body.fingerprintSha256 = fingerprint ∧ r'.deleted = false ∧ ∀ r, db.row
    .knownHost id = some r → db.slot (normalise address) port = some (id, r) := by
  unfold trustHostKey at h
  obtain ⟨clock, s₁, hclock, h⟩ := Tx.bind_eq_ok.mp h
  obtain ⟨-, hs₁⟩ := tick_eq_ok hclock
  obtain ⟨newId, s₂, hid, h⟩ := Tx.bind_eq_ok.mp h
  obtain ⟨firstSeenMs, s₃, hms, h⟩ := Tx.bind_eq_ok.mp h
  obtain ⟨slot, s₄, hslot, h⟩ := Tx.bind_eq_ok.mp h
  cases hid
  cases hms
  cases hslot
  dsimp only at h
  have hrows : ∀ id, s₁.db.row .knownHost id = db.row .knownHost id := fun id => by rw [hs₁]; rfl
  have hsame : s₁.db.slot (normalise address) port = db.slot (normalise address) port := by rw [hs₁]; rfl
  rw [hsame] at h
  cases hfound : db.slot (normalise address) port with
  | none =>
    rw [hfound] at h
    obtain ⟨ok, s₅, hok, h⟩ := Tx.bind_eq_ok.mp h
    cases hok
    obtain ⟨hadmits, h⟩ := Tx.require_bind_eq_ok.mp h
    cases h
    rw [Bool.and_eq_true] at hadmits
    have hnew : db.row .knownHost (cx.newId s₁.asked) = none := by
      rw [← hrows]
      exact Option.isNone_iff_eq_none.mp hadmits.1
    by_cases heq : id = cx.newId s₁.asked
    · subst heq
      refine .inr ⟨_, Db.row_setRow_self _ _ _ _, rfl, rfl, rfl, rfl, fun r hr => ?_⟩
      cases hnew.symm.trans hr
    · exact .inl ((Db.row_setRow_ne_id heq).trans (hrows id))
  | some e =>
    obtain ⟨i, r⟩ := e
    obtain ⟨hget, hkey⟩ := Table.find?_some hfound
    rw [Bool.and_eq_true, decide_eq_true_iff, decide_eq_true_iff] at hkey
    rw [hfound] at h
    obtain ⟨old, s₅, hold, h⟩ := Tx.bind_eq_ok.mp h
    cases hold
    dsimp only at h
    rw [show s₁.db.row .knownHost i = some r from (hrows i).trans hget] at h
    obtain ⟨ok, s₆, hok, h⟩ := Tx.bind_eq_ok.mp h
    cases hok
    obtain ⟨-, h⟩ := Tx.require_bind_eq_ok.mp h
    cases h
    by_cases heq : id = i
    · subst heq
      refine .inr ⟨_, Db.row_setRow_self _ _ _ _, hkey.1, hkey.2, rfl, rfl, fun r' hr' => ?_⟩
      rw [Option.some.inj (hr'.symm.trans hget)]
    · exact .inl ((Db.row_setRow_ne_id heq).trans (hrows id))

variable {key : Text × UInt16} {seen : ℕ}

theorem presented_step (s : AppState) (move : Move) {observed : ObservedCertificate}
    (h : (step s move).presented.get? key = some (observed, seen)) :
    (step s move).now = s.now + move.time ∧
      (s.presented.get? key = some (observed, seen) ∨
        ∃ address port, move = .refuse address port observed ∧ keyFor address port = key ∧ seen = s.now) := by
  cases move with
  | elapse nanoseconds => exact ⟨rfl, .inl h⟩
  | refuse address port other =>
    refine ⟨rfl, ?_⟩
    replace h : (s.presented.set (keyFor address port) (other, s.now)).get? key = some (observed, seen) := h
    rw [Table.get?_set] at h
    split at h
    · next heq =>
      cases h
      exact .inr ⟨address, port, rfl, heq.symm, rfl⟩
    · exact .inl h
  | reload => cases h
  | store change => exact ⟨rfl, .inl h⟩
  | trust cx address port fingerprint replace =>
    replace h : (trustCertificate cx address port fingerprint replace s).2.presented.get? key =
      some (observed, seen) := h
    show (trustCertificate cx address port fingerprint replace s).2.now = s.now + 0 ∧ _
    rcases trustCertificate_cases cx address port fingerprint replace s with hsame | ⟨-, t, -, -, -, -, hs'⟩
    · rw [hsame] at h ⊢
      exact ⟨rfl, .inl h⟩
    · rw [hs'] at h ⊢
      replace h : (s.presented.erase (keyFor address port)).get? key = some (observed, seen) := h
      rw [Table.get?_erase] at h
      split at h
      · cases h
      · exact ⟨rfl, .inl h⟩

theorem presented_run (db : Db) (moves : List Move) {observed : ObservedCertificate}
    (h : (Steps.run step (launch db) moves).presented.get? key = some (observed, seen)) : ∃ first address port later,
    moves = first ++ .refuse address port observed :: later ∧ keyFor address port = key ∧ seen +
    (later.map Move.time).sum = (Steps.run step (launch db) moves).now := by
  induction moves using List.reverseRecOn with
  | nil => cases h
  | append_singleton moves move ih =>
    rw [run_append] at h ⊢
    obtain ⟨hnow, hold | ⟨address, port, rfl, hkey, rfl⟩⟩ := presented_step _ move h
    · obtain ⟨first, address, port, later, rfl, hkey, htime⟩ := ih hold
      refine ⟨first, address, port, later ++ [move], List.append_assoc .., hkey, ?_⟩
      rw [List.map_append, List.sum_append, List.map_singleton, List.sum_singleton, ← Nat.add_assoc, htime]
      exact hnow.symm
    · exact ⟨moves, address, port, [], rfl, hkey, rfl⟩

theorem knownHost_of_slot {id : Uuid} {r : Row KnownHostPayload} {device : UInt32}
    (hslot : db.slot (normalise address) port = some (id, r)) (hlive : r.deleted = false)
    (hown : r.hlc.device = device ∨ hostKeysWithheld db = false) :
    knownHost db device address port = some r.body.answer := by
  unfold knownHost trustedRow
  rw [hslot, Option.filter_some, if_pos]
  · rfl
  · rcases hown with hown | hown
    · simp [hlive, hown]
    · simp [hlive, hown]

/-- What a call trusts was presented by that address and port just now, and without the user's yes it
changes no key that is trusted. -/
theorem trust_explicit (db : Db) (moves : List Move) (cx : Session) (address : Text) (port : UInt16)
    (fingerprint : Text) (replace : Bool) (id : Uuid) :
    (step (Steps.run step (launch db) moves) (.trust cx address port fingerprint replace)).store.row .knownHost id =
    (Steps.run step (launch db) moves).store.row .knownHost id ∨ ∃ r',
    (step (Steps.run step (launch db) moves) (.trust cx address port fingerprint replace)).store.row .knownHost id =
    some r' ∧ (r'.body.address, r'.body.port) = keyFor address port ∧ r'.deleted = false ∧ r'.body.fingerprintSha256 =
    fingerprint ∧ Shown moves (keyFor address port) fingerprint ∧ ∀ r, (Steps.run step (launch db) moves).store.row
    .knownHost id = some r → r.deleted = false → r.body.fingerprintSha256 ≠ fingerprint → replace = false →
    r.hlc.device ≠ cx.device ∧ hostKeysWithheld (Steps.run step (launch db) moves).store = true := by
  rcases trustCertificate_cases cx address port fingerprint replace (Steps.run step (launch db) moves) with
    hsame | ⟨observed, t, hshown, hfingerprint, hconfirmed, htrust, hs'⟩
  · exact .inl (by rw [show step _ (.trust cx address port fingerprint replace) = _ from hsame])
  · rw [show step _ (.trust cx address port fingerprint replace) = _ from hs']
    dsimp only
    rcases trustHostKey_rows htrust id with hrow | ⟨r', hr', haddress, hport, hstored, hlive, hslot⟩
    · exact .inl hrow
    · refine .inr ⟨r', hr', Prod.ext haddress hport, hlive, hstored, ?_, fun r hr hold hne hno => ?_⟩
      · obtain ⟨⟨other, seen⟩, hfiltered, hother⟩ := Option.map_eq_some_iff.mp (Option.filter_eq_some_iff.mp hshown).1
        obtain ⟨hget, hrecent⟩ := Option.filter_eq_some_iff.mp hfiltered
        obtain rfl : other = observed := hother
        obtain ⟨first, a, p, later, hmoves, hkey, htime⟩ := presented_run db moves hget
        have hshort := of_decide_eq_true hrecent
        exact ⟨first, a, p, other, later, hmoves, hkey, hfingerprint, by dsimp only at hshort; omega⟩
      · by_contra hnot
        have hown : r.hlc.device = cx.device ∨ hostKeysWithheld (Steps.run step (launch db) moves).store = false := by
          by_contra h
          rw [not_or, Bool.not_eq_false] at h
          exact hnot h
        have hyes := hconfirmed _ (knownHost_of_slot (hslot r hr) hold hown) hne
        cases hno.symm.trans hyes

def theirKey : Envelope :=
  sealedAt 1500 6 .knownHost false (.knownHost ⟨['h'], 3389, [], ['a'], [], 0, []⟩) 1

/-- A pull that does not reach the end, and the key of another device is replaced without a yes. -/
theorem hidden_key_replaced :
    letI := asciiPlatform
    ¬∀ (calls : List StoreCall) (moves : List Move) (cx : Session) (address : Text) (port : UInt16)
      (fingerprint : Text) (id : Uuid) (r : Row KnownHostPayload),
      (Steps.run step (launch (runCalls cx.device (Db.fresh 1) calls)) moves).store.row .knownHost id = some r →
      r.deleted = false →
      ∃ r', (step (Steps.run step (launch (runCalls cx.device (Db.fresh 1) calls)) moves)
          (.trust cx address port fingerprint false)).store.row .knownHost id = some r' ∧
        r'.body.fingerprintSha256 = r.body.fingerprintSha256 := by
  let _ := asciiPlatform
  intro h
  obtain ⟨r', hr', hsame⟩ := h [.apply (some ⟨1, 7⟩) 1000 [theirKey], .noteIncompletePull]
    [.refuse ['h'] 3389 ⟨['b'], []⟩] deviceOne ['h'] 3389 ['b'] 6
    ⟨⟨1500, 0, 2⟩, false, false, 1, ⟨['h'], 3389, [], ['a'], [], 0, []⟩⟩ (by decide +kernel) rfl
  have hb : ((step (Steps.run step (launch (runCalls deviceOne.device (Db.fresh 1)
      [.apply (some ⟨1, 7⟩) 1000 [theirKey], .noteIncompletePull])) [.refuse ['h'] 3389 ⟨['b'], []⟩])
      (.trust deviceOne ['h'] 3389 ['b'] false)).store.row .knownHost 6).map (·.body.fingerprintSha256) =
        some ['b'] := by decide +kernel
  rw [hr', Option.map_some, hsame] at hb
  cases hb

end Certificates

end UwuRdp
