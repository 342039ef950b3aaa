import UwuRdp.Lib.Talk
import UwuRdp.Store.Preference
import UwuRdp.Sync.Engine

/-!
# Pairing

Two devices agree on a key from a code read out loud, and what a joining device needs travels sealed
under it, one label for each direction, through a server that carries it. Both exchanges are ideal: a
key is what the code and the two shares make of it, and a message opens under the key and the label it
was sealed with. The device that is in hands nothing over before the other side has shown that it
derived the same key.
-/

namespace UwuRdp

open Lib

/-- What pairing needs of the standard library besides. -/
class Casing extends Platform where
  /-- `str::to_uppercase`. -/
  toUppercase : Text → Text

/-- The side of an exchange: `a` opened the session, `b` joins it. -/
inductive Side where
  | a
  | b
deriving DecidableEq

/-- The labels of the two directions. -/
inductive Direction where
  | aToB
  | bToA
deriving DecidableEq

def Side.sends : Side → Direction
  | a => .aToB
  | b => .bToA

def Side.hears : Side → Direction
  | a => .bToA
  | b => .aToB

/-- The key of a session, from the password and the shares of the two sides. -/
structure PairKey where
  password : Text
  a : ℕ
  b : ℕ
deriving DecidableEq

def PairKey.share (key : PairKey) : Side → ℕ
  | .a => key.a
  | .b => key.b

namespace Pairing

/-- What the device that is already in hands over. -/
structure Handover where
  serverUrl : Text
  tlsFingerprint : Option Text
  accountId : Uuid
  accountKey : Option Text
  /-- A one-time token for joining the account. -/
  enrolment : Text
  manifest : Option ManifestFloor
deriving DecidableEq

/-- What the joining device says back, once it is in. -/
structure Joined where
  deviceName : Text
  deviceId : Uuid
deriving DecidableEq

/-- What a sealed message says. -/
inductive Payload where
  | confirm
  | handover (h : Handover)
  | joined (j : Joined)
  | other (bytes : List UInt8)
deriving DecidableEq

inductive Message where
  /-- A side's first message, marked with the side. -/
  | share (side : Side) (element : ℕ)
  | sealed (key : PairKey) (label : Direction) (nonce : ℕ) (payload : Payload)
  | other (bytes : List UInt8)
deriving DecidableEq

def password [Casing] (id words : Text) : Text :=
  Casing.toUppercase id.trim ++ '|' :: Platform.toLowercase words.trim

/-- `Spake2::finish`: a share marked with the other side gives the key; anything else is refused. -/
def finish (side : Side) (password : Text) (own : ℕ) : Message → Option PairKey
  | .share .b element => if side = .a then some ⟨password, own, element⟩ else none
  | .share .a element => if side = .b then some ⟨password, element, own⟩ else none
  | _ => none

/-- `open`: the payload, if the message was sealed with this key and label. -/
def openMessage (key : PairKey) (label : Direction) : Message → Option Payload
  | .sealed k l _ payload => if k = key ∧ l = label then some payload else none
  | _ => none

abbrev Program := Talk Message TransportError

def check {α β : Type} (m : Message) (result : Option α) (next : α → Program β) : Program β :=
  match result with
  | some a => .accept m (next a)
  | none => .stop .refused

def confirmation : Payload → Option Unit
  | .confirm => some ()
  | _ => none

def handoverOf : Payload → Option Handover
  | .handover h => some h
  | _ => none

def joinedOf : Payload → Option Joined
  | .joined j => some j
  | _ => none

/-! ## The two sides -/

/-- And it says who it is, so the other side can name it. -/
def hearJoined (key : PairKey) : Program Joined :=
  .await fun joined => check joined ((openMessage key .bToA joined).bind joinedOf) .done

/-- Nothing worth having goes out until the other side has shown it derived the same key. -/
def handOverUnder (key : PairKey) (nonce : ℕ) (h : Handover) : Program Joined :=
  .await fun theirs =>
    check theirs ((openMessage key .bToA theirs).bind confirmation) fun () =>
      .put (.sealed key .aToB nonce (.handover h)) (hearJoined key)

/-- The side that is already in: hand the secrets over, once the other side has proved it knows the
code. -/
def handOver (own : ℕ) (password : Text) (nonce : ℕ) (h : Handover) : Program Joined :=
  .put (.share .a own) (.await fun theirs =>
    check theirs (finish .a password own theirs) fun key => handOverUnder key nonce h)

def receiveHandover (key : PairKey) : Program (Handover × PairKey) :=
  .await fun theirs =>
    check theirs ((openMessage key .aToB theirs).bind handoverOf) fun h => .done (h, key)

/-- The joining side: prove the code, take the secrets. -/
def takeOver (own : ℕ) (password : Text) (nonce : ℕ) : Program (Handover × PairKey) :=
  .await fun theirs => .put (.share .b own)
    (check theirs (finish .b password own theirs) fun key =>
      .put (.sealed key .bToA nonce .confirm) (receiveHandover key))

/-- The joining side, once it is in: tell the other device what it is called. -/
def sayJoined (key : PairKey) (nonce : ℕ) (joined : Joined) : Program Unit :=
  .put (.sealed key .bToA nonce (.joined joined)) (.done ())

/-! ## What a log says -/

section Logs

/-- What a note of a side goes with: it posts its share or what it sealed under its own label and a
key it derived, a handover only after a confirmation; what it accepts it received, and never posted. -/
def Sound (side : Side) (code : Text) (own : ℕ) : Note Message → List (Note Message) → Prop
  | .posted m, before => m = .share side own ∨
      ∃ key nonce payload, m = .sealed key side.sends nonce payload ∧ key.password = code ∧
        key.share side = own ∧
        ∀ h, payload = .handover h → side = .a ∧ ∃ c, .accepted c ∈ before ∧
          openMessage key .bToA c = some .confirm
  | .received _, _ => True
  | .accepted m, before => .received m ∈ before ∧ .posted m ∉ before

variable {side : Side} {code : Text} {own : ℕ} {log : List (Note Message)} {m : Message}
  {key : PairKey}

variable {payload : Payload} {α β : Type}

theorem openMessage_eq_some {label : Direction} :
    openMessage key label m = some payload ↔ ∃ nonce, m = .sealed key label nonce payload := by
  unfold openMessage
  split
  · next k l nonce p =>
    constructor
    · intro h
      split at h
      · next heq =>
        obtain ⟨rfl, rfl⟩ := heq
        cases h
        exact ⟨nonce, rfl⟩
      · cases h
    · rintro ⟨nonce', heq⟩
      cases heq
      exact if_pos ⟨rfl, rfl⟩
  · next hne =>
    constructor
    · intro h
      cases h
    · rintro ⟨nonce, rfl⟩
      exact absurd rfl (hne key label nonce payload)

theorem not_posted_of_open (hl : Talk.Preceded (Sound side code own) log)
    (h : openMessage key side.hears m = some payload) : Note.posted m ∉ log := by
  intro hm
  obtain ⟨nonce, rfl⟩ := openMessage_eq_some.mp h
  obtain ⟨before, after, -, hshare | ⟨k, n, p, heq, -⟩⟩ := hl.of_mem hm
  · cases hshare
  · have hlabel : side.hears = side.sends := by
      injection heq
    cases side <;> cases hlabel

theorem finish_eq_some (h : finish side code own m = some key) :
    key.password = code ∧ key.share side = own ∧ ∀ element, m ≠ .share side element := by
  unfold finish at h
  split at h
  · split at h
    · next hside =>
      subst hside
      cases h
      exact ⟨rfl, rfl, fun element hm => by cases hm⟩
    · cases h
  · split at h
    · next hside =>
      subst hside
      cases h
      exact ⟨rfl, rfl, fun element hm => by cases hm⟩
    · cases h
  · cases h

theorem not_posted_of_finish (hl : Talk.Preceded (Sound side code own) log)
    (h : finish side code own m = some key) : Note.posted m ∉ log := by
  intro hm
  obtain ⟨before, after, -, hshare | ⟨k, n, p, rfl, -⟩⟩ := hl.of_mem hm
  · exact (finish_eq_some h).2.2 own hshare
  · cases h

/-! ## What a side does -/

theorem check_keeps {R : β → Prop} {result : Option α} {next : α → Program β}
    (hl : Talk.Preceded (Sound side code own) log) (hr : Note.received m ∈ log)
    (hn : ∀ a, result = some a → Note.posted m ∉ log)
    (hnext : ∀ a, result = some a →
      Talk.Preceded (Sound side code own) (log ++ [.accepted m]) →
        Talk.Keeps (Talk.Preceded (Sound side code own)) R (next a) (log ++ [.accepted m])) :
    Talk.Keeps (Talk.Preceded (Sound side code own)) R (check m result next) log := by
  unfold check
  cases hresult : result with
  | none => exact hl
  | some a =>
    have haccepted : Talk.Preceded (Sound side code own) (log ++ [.accepted m]) :=
      Talk.preceded_concat.mpr ⟨hl, hr, hn a hresult⟩
    exact ⟨hl, hnext a hresult haccepted⟩

theorem posted_keeps {R : β → Prop} {next : Program β}
    (hl : Talk.Preceded (Sound side code own) log) (hp : Sound side code own (.posted m) log)
    (hnext : Talk.Preceded (Sound side code own) (log ++ [.posted m]) →
      Talk.Keeps (Talk.Preceded (Sound side code own)) R next (log ++ [.posted m])) :
    Talk.Keeps (Talk.Preceded (Sound side code own)) R (.put m next) log :=
  ⟨hl, hnext (Talk.preceded_concat.mpr ⟨hl, hp⟩)⟩

theorem hear_keeps {R : β → Prop} {parse : Payload → Option α} {next : α → Program β}
    (hl : Talk.Preceded (Sound side code own) log)
    (hnext : ∀ m a, (openMessage key side.hears m).bind parse = some a → ∀ log,
      Talk.Preceded (Sound side code own) log → .accepted m ∈ log →
        Talk.Keeps (Talk.Preceded (Sound side code own)) R (next a) log) :
    Talk.Keeps (Talk.Preceded (Sound side code own)) R
      (.await fun m => check m ((openMessage key side.hears m).bind parse) next) log := by
  refine ⟨hl, fun m => ?_⟩
  have hreceived : Talk.Preceded (Sound side code own) (log ++ [.received m]) :=
    Talk.preceded_concat.mpr ⟨hl, trivial⟩
  apply check_keeps hreceived
  · exact List.mem_append_right log List.mem_cons_self
  · intro a ha
    obtain ⟨payload, hopen, -⟩ := Option.bind_eq_some_iff.mp ha
    exact not_posted_of_open hreceived hopen
  · intro a ha haccepted
    exact hnext m a ha _ haccepted (List.mem_append_right _ List.mem_cons_self)

theorem confirmation_eq_some {u : Unit} (h : confirmation payload = some u) : payload = .confirm := by
  cases payload with
  | confirm => rfl
  | handover h' | joined j | other bytes => cases h

theorem handOver_keeps (own : ℕ) (code : Text) (nonce : ℕ) (h : Handover) : Talk.Keeps
    (Talk.Preceded (Sound .a code own)) (fun _ => True) (handOver own code nonce h) [] := by
  apply posted_keeps Talk.preceded_nil (.inl rfl)
  intro hl
  refine ⟨hl, fun theirs => ?_⟩
  have hreceived := Talk.preceded_concat.mpr (⟨hl, trivial⟩ : _ ∧ Sound .a code own (.received theirs) _)
  apply check_keeps hreceived
  · exact List.mem_append_right _ List.mem_cons_self
  · exact fun key hkey => not_posted_of_finish hreceived hkey
  intro key hkey hl
  obtain ⟨hcode, hown, -⟩ := finish_eq_some hkey
  apply hear_keeps hl
  intro c u hc log hl hmem
  obtain ⟨payload, hopen, hconfirm⟩ := Option.bind_eq_some_iff.mp hc
  rw [confirmation_eq_some hconfirm] at hopen
  apply posted_keeps hl
  · exact .inr ⟨key, nonce, .handover h, rfl, hcode, hown, fun _ _ => ⟨rfl, c, hmem, hopen⟩⟩
  intro hl
  apply hear_keeps hl
  intro _ _ _ log hl _
  exact ⟨hl, trivial⟩

theorem takeOver_keeps (own : ℕ) (code : Text) (nonce : ℕ) : Talk.Keeps (Talk.Preceded (Sound .b code own))
    (fun taken => taken.2.password = code ∧ taken.2.share .b = own) (takeOver own code nonce) [] := by
  refine ⟨Talk.preceded_nil, fun theirs => ?_⟩
  have hreceived := Talk.preceded_concat.mpr
    (⟨Talk.preceded_nil, trivial⟩ : _ ∧ Sound .b code own (.received theirs) [])
  apply posted_keeps hreceived (.inl rfl)
  intro hl
  apply check_keeps hl
  · exact List.mem_append_left _ (List.mem_append_right _ List.mem_cons_self)
  · exact fun key hkey => not_posted_of_finish hl hkey
  intro key hkey hl
  obtain ⟨hcode, hown, -⟩ := finish_eq_some hkey
  apply posted_keeps hl
  · exact .inr ⟨key, nonce, .confirm, rfl, hcode, hown, fun h heq => by cases heq⟩
  intro hl
  apply hear_keeps hl
  intro _ h _ log hl _
  exact ⟨hl, hcode, hown⟩

theorem sayJoined_keeps {nonce : ℕ} {joined : Joined} (hkey : key.password = code ∧ key.share .b = own)
    (hl : Talk.Preceded (Sound .b code own) log) : Talk.Keeps (Talk.Preceded (Sound .b code own)) (fun _ => True)
    (sayJoined key nonce joined) log := by
  apply posted_keeps hl
  · exact .inr ⟨key, nonce, .joined joined, rfl, hkey.1, hkey.2, fun h heq => by cases heq⟩
  · exact fun hl => ⟨hl, trivial⟩

end Logs

/-! ## Exchanges -/

inductive Role where
  | giver (h : Handover)
  | taker (joined : Joined)
deriving DecidableEq

/-- One side of one session: its role, its code, and what is random besides its share. -/
structure Exchange where
  role : Role
  id : Text
  words : Text
  nonces : ℕ × ℕ
deriving DecidableEq

namespace Exchange

variable [Casing]

def side (s : Exchange) : Side :=
  match s.role with
  | .giver _ => .a
  | .taker _ => .b

def code (s : Exchange) : Text := password s.id s.words

def program (s : Exchange) (own : ℕ) : Program Unit :=
  match s.role with
  | .giver h => (handOver own s.code s.nonces.1 h).bind fun _ => .done ()
  | .taker joined => (takeOver own s.code s.nonces.1).bind fun taken =>
      sayJoined taken.2 s.nonces.2 joined

end Exchange

variable [Casing]

/-- The sides of any number of exchanges, none of which has begun. A share is drawn by one side only,
so it is told by whose it is. -/
def start (exchanges : ℕ → Exchange) : ℕ → Talk.Party Message TransportError Unit :=
  fun i => ⟨(exchanges i).program i, []⟩

/-- What the relay can make itself: anything but what is sealed under a key that takes the code of a
session, which only a side that was told the code derives. -/
def Makes (exchanges : ℕ → Exchange) (m : Message) : Prop :=
  ∀ key label nonce payload, m = .sealed key label nonce payload →
    ∀ i, key.password ≠ (exchanges i).code

theorem program_keeps (s : Exchange) (own : ℕ) :
    Talk.Keeps (Talk.Preceded (Sound s.side s.code own)) (fun _ => True) (s.program own) [] := by
  unfold Exchange.side Exchange.program
  cases s.role with
  | giver h =>
    exact (handOver_keeps own s.code s.nonces.1 h).bind fun _ _ _ hl => ⟨hl, trivial⟩
  | taker joined =>
    exact (takeOver_keeps own s.code s.nonces.1).bind fun _ _ hkey hl => sayJoined_keeps hkey hl

theorem sound_run (exchanges : ℕ → Exchange) (moves : List (ℕ × Talk.Move Message TransportError)) (i : ℕ) :
    Talk.Preceded (Sound (exchanges i).side (exchanges i).code i) (Talk.run (start exchanges) moves i).log :=
  Talk.keeps_run (program_keeps (exchanges i) i) moves

end Pairing

open Pairing in
/-- Whatever the relay does, a handover is only posted after a message that opens to the confirmation,
made by a joining side that was told the same code and derived the same key; and no side accepts what
it posted itself. -/
theorem hands_over_to_confirmed_peer [Casing] (exchanges : ℕ → Exchange)
    (moves : List (ℕ × Talk.Move Message TransportError))
    (hrelay : Talk.Feasible (Makes exchanges) (start exchanges) moves) :
    (∀ i before key label nonce h after,
      (Talk.run (start exchanges) moves i).log =
        before ++ .posted (.sealed key label nonce (.handover h)) :: after →
      ∃ c, .received c ∈ before ∧ openMessage key .bToA c = some .confirm ∧
        key.password = (exchanges i).code ∧ key.a = i ∧
        (exchanges key.b).side = .b ∧ (exchanges key.b).code = (exchanges i).code ∧
        .posted c ∈ (Talk.run (start exchanges) moves key.b).log) ∧
    ∀ i before m after, (Talk.run (start exchanges) moves i).log = before ++ .accepted m :: after →
      Note.posted m ∉ before := by
  constructor
  · intro i before key label nonce h after hlog
    have hsound := sound_run exchanges moves
    have hposted := hsound i before _ after hlog
    rcases hposted with hshare | ⟨k, n, p, heq, hcode, hown, hhandover⟩
    · cases hshare
    injection heq with hk _ _ hp
    subst hk hp
    obtain ⟨hside, c, haccepted, hopen⟩ := hhandover h rfl
    rw [hside] at hown
    -- The confirmation was accepted, so it was received before, and the relay had it.
    have hreceived : Note.received c ∈ before := by
      obtain ⟨first, rest, rfl⟩ := List.append_of_mem haccepted
      have hlog' : (Talk.run (start exchanges) moves i).log =
          first ++ .accepted c :: (rest ++ .posted (.sealed key label nonce (.handover h)) :: after) :=
        by rw [hlog, List.append_assoc, List.cons_append]
      exact List.mem_append_left _ (hsound i first (.accepted c) _ hlog').1
    have havailable := Talk.received_run hrelay (fun j m hm => absurd hm List.not_mem_nil) i c
      (by rw [hlog]; exact List.mem_append_left _ hreceived)
    obtain ⟨nonce', rfl⟩ := openMessage_eq_some.mp hopen
    rcases havailable with hmade | ⟨j, hj⟩
    · exact absurd hcode (hmade key .bToA nonce' .confirm rfl i)
    -- Nobody makes it without the code, so a side that seals in this direction posted it.
    obtain ⟨first, rest, -, hshare | ⟨k, n, p, heq, hcode', hown', -⟩⟩ := (hsound j).of_mem hj
    · cases hshare
    injection heq with hk hlabel _ hp
    subst hk hp
    have hjoin : (exchanges j).side = .b := by
      cases hj : (exchanges j).side with
      | a => rw [hj] at hlabel; cases hlabel
      | b => rfl
    rw [hjoin] at hown'
    obtain rfl : key.b = j := hown'
    exact ⟨_, hreceived, hopen, hcode, hown, hjoin, hcode'.symm.trans hcode, hj⟩
  · intro i before m after hlog
    exact (sound_run exchanges moves i before (.accepted m) after hlog).2

namespace Pairing

/-- Upper and lower case of plain ASCII. -/
@[reducible]
def asciiCasing : Casing where
  toPlatform := asciiPlatform
  toUppercase t := t.map Text.asciiUppercase

def someHandover : Handover := ⟨"https://s".toList, none, 3, none, "once".toList, none⟩

/-- One device that is in and one that joins, with one code. -/
def twoDevices : ℕ → Exchange
  | 0 => ⟨.giver someHandover, "k7".toList, "kiwi".toList, (1, 2)⟩
  | _ => ⟨.taker ⟨"b".toList, 4⟩, "K7".toList, "Kiwi".toList, (3, 4)⟩

def theirKey : PairKey := ⟨"K7|kiwi".toList, 0, 1⟩

/-- A relay that carries everything, up to the handover. -/
def carried : List (ℕ × Talk.Move Message TransportError) :=
  [(0, .carry none), (1, .answer [.share .a 0]), (1, .carry none), (1, .go), (1, .carry none),
    (0, .answer [.share .b 1]), (0, .go), (0, .answer [.sealed theirKey .bToA 3 .confirm]), (0, .go),
    (0, .carry none)]

end Pairing

open Pairing in
theorem hands_over_to_confirmed_peer_carried : letI := asciiCasing
    let log := (Talk.run (start twoDevices) carried 0).log
    Note.posted (.sealed theirKey .aToB 1 (.handover Pairing.someHandover)) ∈ log ∧
      ∃ c, Note.received c ∈ log ∧ openMessage theirKey .bToA c = some .confirm := by
  let _ := asciiCasing
  have hanswer : ∀ (net : ℕ → Talk.Party Message TransportError Unit) (j : ℕ) (m : Message),
      Note.posted m ∈ (net j).log →
        (Talk.Move.answer [m] : Talk.Move Message TransportError).Feasible (Makes twoDevices) net := by
    intro net j m hm m' hm'
    rw [List.mem_singleton.mp hm']
    exact .inr ⟨j, hm⟩
  have hrelay : Talk.Feasible (Makes twoDevices) (start twoDevices) carried :=
    ⟨trivial, hanswer _ 0 _ (by decide +kernel), trivial, trivial, trivial,
      hanswer _ 1 _ (by decide +kernel), trivial, hanswer _ 1 _ (by decide +kernel), trivial, trivial,
      trivial⟩
  have hlog : (Talk.run (start twoDevices) carried 0).log = (Talk.run (start twoDevices) carried 0).log.take 5 ++
        [.posted (.sealed theirKey .aToB 1 (.handover Pairing.someHandover))] := by decide +kernel
  obtain ⟨c, hreceived, hopen, -⟩ := (hands_over_to_confirmed_peer twoDevices carried hrelay).1 0 _
    theirKey .aToB 1 Pairing.someHandover [] hlog
  refine ⟨?_, c, List.mem_of_mem_take hreceived, hopen⟩
  rw [hlog]
  exact List.mem_append_right _ List.mem_cons_self

end UwuRdp
