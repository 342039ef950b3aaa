import UwuRdp.Lib.Steps
import UwuRdp.Sync.Records

/-!
# The realtime channel

UwULock says over one connection at a time that something changed, never what. What is read, what the clocks say (in
milliseconds, and in seconds where the server counts) and the waits that are drawn come with each move.
-/

namespace UwuRdp

open Lib

namespace Live

inductive Event where
  | ready
  | changed
deriving DecidableEq

/-- Why a connection, or the whole channel, ended; `retry 0` where the server named no wait. -/
inductive Ended where
  | stopped
  | retry (wait : ℕ)
  | signIn
  | refused
  | logout (reason : Text)
deriving DecidableEq

/-- What `access_token` and `renew` may answer instead. -/
inductive TokenError where
  | signIn
  | other
deriving DecidableEq

def debounce : ℕ := 250

def heartbeat : ℕ := 25000

def readyWithin : ℕ := 15000

/-- In seconds -/
def renewAhead : ℕ := 60

def stable : ℕ := 60000

/-- What the server's close code asks for, its waits drawn between two numbers of seconds. -/
def afterClose (between : ℕ → ℕ → ℕ) (code : UInt16) : Ended :=
  if code = 1000 ∨ code = 1001 then .retry (between 1 5)
  else if code = 1012 then .retry (between 2 10)
  else if code = 4400 then .retry 60000
  else if code = 4401 then .retry 1000
  else if code = 4403 then .refused
  else if code = 4408 then .retry 1000
  else if code = 4429 then .retry (between 60 75)
  else .retry 0

/-! ## What is heard -/

/-- `message[key]` -/
def item (message : Json.Doc) (key : String) : Json.Doc := (Json.occurrences key message).getLast?.getD .null

def named (message : Json.Doc) (key : String) (what : Text) : Bool :=
  match item message key with
  | .arr list => list.any fun v => Json.readText v = some what
  | _ => false

def concernsUs (message : Json.Doc) : Bool :=
  named message "spaces" spaceName ||
    match item message "spaces" with
    | .null => named message "areas" "suite".toList
    | _ => false

/-- What one read of the socket brings. -/
inductive Read where
  /-- A text, as the document it is, if it is one -/
  | text (message : Option Json.Doc)
  | close (code : Option UInt16)
  | other
  /-- Nothing in time -/
  | nothing
  | broken

/-- The variables of a connection's loop. -/
structure Conn where
  opened : ℕ
  ready : Bool
  heartbeat : ℕ
  expires : ℕ
  lastFrame : ℕ
  due : Option ℕ
deriving DecidableEq

/-- What a turn of the loop meets: what `keep_going` says, what is read and when, and what comes of each call. -/
structure Turn where
  keepGoing : Bool
  read : Read
  readAt : ℕ
  heardAt : ℕ
  flushed : Bool
  now : ℕ
  unixNow : ℕ
  access : Except TokenError ℕ
  renewed : Except TokenError Unit
  sent : Bool
  between : ℕ → ℕ → ℕ

/-- What reading leads to: to the end, to the next turn at once, or through the rest of this one. -/
inductive Heard where
  | ended (e : Ended)
  | again (c : Conn)
  | on (events : List Event) (c : Conn)

def hearText (t : Turn) (c : Conn) (message : Json.Doc) : Heard :=
  let kind := Json.readText (item message "type")
  if kind = some "ready".toList then
    let asked := (Json.readU64 (item message "heartbeat")).map UInt64.toNat
    .on (if c.ready then [] else [.ready])
      { c with
        ready := true
        expires := ((Json.readU64 (item message "expires")).map UInt64.toNat).getD 0
        heartbeat := ((asked.filter fun s => 1 ≤ s ∧ s ≤ 3600).map (· * 1000)).getD Live.heartbeat }
  else if kind = some "changed".toList ∧ concernsUs message = true then
    .on [] { c with due := c.due.or (some (t.heardAt + debounce)) }
  else if kind = some "logout".toList then .ended (.logout ((Json.readText (item message "reason")).getD []))
  else .on [] c

def hearClose (t : Turn) (code : UInt16) : Ended :=
  if code = 4401 then
    match t.renewed with
    | .ok () => afterClose t.between code
    | .error .signIn => .signIn
    | .error .other => .retry 0
  else afterClose t.between code

def hear (t : Turn) (c : Conn) : Heard :=
  match t.read with
  | .text none => .again { c with lastFrame := t.readAt }
  | .text (some message) => hearText t { c with lastFrame := t.readAt } message
  | .close code => .ended (hearClose t (code.getD 1000))
  | .other => .on [] { c with lastFrame := t.readAt }
  | .nothing => .on [] c
  | .broken => .ended (.retry 0)

/-- The token, renewed on the same connection before it runs out. -/
def renewal (t : Turn) (c : Conn) : Ended ⊕ Conn :=
  if c.ready = true ∧ 0 < c.expires ∧ c.expires ≤ t.unixNow + renewAhead then
    match t.access with
    | .ok next =>
      if c.expires < next then
        if t.sent then .inr { c with expires := next } else .inl (.retry 0)
      else .inr { c with expires := 0 }
    | .error .signIn => .inl .signIn
    | .error .other => .inr { c with expires := 0 }
  else .inr c

/-- The change that was held back, told once it is due. -/
def settle (now : ℕ) (c : Conn) : List Event × Conn :=
  if c.due.any (· ≤ now) then ([.changed], { c with due := none }) else ([], c)

/-- One turn of `connection`: what it tells, and whether it goes on. -/
def turn (t : Turn) (c : Conn) : List Event × (Ended ⊕ Conn) :=
  if t.keepGoing = false then ([], .inl .stopped)
  else
    match hear t c with
    | .ended e => ([], .inl e)
    | .again c => ([], .inr c)
    | .on said c =>
      if t.flushed = false then (said, .inl (.retry 0))
      else
        let events := said ++ (settle t.now c).1
        let c := (settle t.now c).2
        if c.ready = false ∧ readyWithin < t.now - c.opened then (events, .inl (.retry 0))
        else if c.heartbeat * 3 < t.now - c.lastFrame then (events, .inl (.retry 0))
        else (events, renewal t c)

/-! ## One connection after the other -/

inductive Phase where
  /-- Before `keep_going` is asked and the next connection is made -/
  | dialling
  | connected (started : ℕ) (c : Conn)
  | waiting (deadline : ℕ)
  | over (e : Ended)

/-- `run`, with the failures its backoff counts. -/
structure Channel where
  failures : ℕ
  phase : Phase

def Channel.new : Channel := ⟨0, .dialling⟩

/-- How a connection begins: its token, its handshake and its first message. -/
structure Dial where
  keepGoing : Bool
  started : ℕ
  token : Except TokenError Unit
  opens : Bool
  sent : Bool
  opened : ℕ

inductive Move where
  | dial (d : Dial) (jittered : ℕ → ℕ) (now : ℕ)
  | turn (t : Turn) (jittered : ℕ → ℕ) (now : ℕ)
  | wait (keepGoing : Bool) (now : ℕ)

/-- After a connection: a stable one resets the backoff, and without a named wait it says how long. -/
def Channel.after (ch : Channel) (jittered : ℕ → ℕ) (started now : ℕ) (e : Ended) : Channel :=
  let failures := if stable ≤ now - started then 0 else ch.failures
  match e with
  | .retry 0 => ⟨failures + 1, .waiting (now + jittered (min (2 ^ min failures 6) 60 * 1000))⟩
  | .retry wait => ⟨failures, .waiting (now + wait)⟩
  | e => ⟨failures, .over e⟩

def Channel.dial (ch : Channel) (d : Dial) (jittered : ℕ → ℕ) (now : ℕ) : Channel :=
  if d.keepGoing = false then ⟨ch.failures, .over .stopped⟩
  else
    match d.token with
    | .error .signIn => ch.after jittered d.started now .signIn
    | .error .other => ch.after jittered d.started now (.retry 0)
    | .ok () =>
      if d.opens && d.sent then
        ⟨ch.failures, .connected d.started ⟨d.opened, false, heartbeat, 0, d.opened, none⟩⟩
      else ch.after jittered d.started now (.retry 0)

def Channel.wait (ch : Channel) (deadline : ℕ) (keepGoing : Bool) (now : ℕ) : Channel :=
  if now < deadline then if keepGoing = false then ⟨ch.failures, .over .stopped⟩ else ch
  else ⟨ch.failures, .dialling⟩

def Channel.step (ch : Channel) (m : Move) : List Event × Channel :=
  match ch.phase, m with
  | .dialling, .dial d jittered now => ([], ch.dial d jittered now)
  | .connected started c, .turn t jittered now =>
    match turn t c with
    | (events, .inl e) => (events, ch.after jittered started now e)
    | (events, .inr c) => (events, ⟨ch.failures, .connected started c⟩)
  | .waiting deadline, .wait keepGoing now => ([], ch.wait deadline keepGoing now)
  | _, _ => ([], ch)

/-! ## What a turn does with a change -/

variable {t : Turn} {c c' : Conn} {events : List Event}

/-- The turn reads that something changed in this app's space. -/
def Turn.hears (t : Turn) : Bool :=
  t.keepGoing &&
    match t.read with
    | .text (some message) =>
      Json.readText (item message "type") = some "changed".toList ∧ concernsUs message = true
    | _ => false

/-- The change a connection holds back after reading: the one it held, or else the one it heard. -/
def Turn.held (t : Turn) (c : Conn) : Option ℕ :=
  c.due.or (if t.hears then some (t.heardAt + debounce) else none)

theorem hear_on (hkeep : t.keepGoing = true) (h : hear t c = .on events c') :
    c'.due = t.held c ∧ .changed ∉ events ∧ (c'.ready = true → c.ready = true ∨ .ready ∈ events) := by
  unfold hear at h
  unfold Turn.held Turn.hears
  rw [hkeep]
  split at h
  case h_2 message hread =>
    unfold hearText at h
    dsimp only at h
    simp only [hread]
    split at h
    · next hkind =>
      cases h
      simp only [hkind]
      cases c.ready <;> simp
    split at h
    · next hchanged =>
      cases h
      simp [hchanged]
    split at h
    · cases h
    · next hchanged _ =>
      cases h
      rw [if_neg (by rwa [Bool.true_and, decide_eq_true_iff]), Option.or_none]
      simp
  all_goals
    cases h
    try simp_all

theorem hear_again (h : hear t c = .again c') :
    c'.due = t.held c ∧ (c'.ready = true → c.ready = true) ∧ t.read = .text none := by
  unfold hear at h
  unfold Turn.held Turn.hears
  split at h
  case h_1 hread =>
    cases h
    simp [hread]
  case h_2 =>
    unfold hearText at h
    dsimp only at h
    split at h <;> [skip; split at h <;> [skip; split at h]] <;> cases h
  all_goals cases h

theorem renewal_inr (h : renewal t c = .inr c') : c'.due = c.due ∧ c'.ready = c.ready := by
  unfold renewal at h
  split at h
  · split at h
    · split at h
      · split at h <;> cases h
        exact ⟨rfl, rfl⟩
      · cases h
        exact ⟨rfl, rfl⟩
    · cases h
    · cases h
      exact ⟨rfl, rfl⟩
  · cases h
    exact ⟨rfl, rfl⟩

theorem mem_settle : .changed ∈ (settle t.now c).1 ↔ ∃ d ∈ c.due, d ≤ t.now := by
  unfold settle
  cases hdue : c.due with
  | none => simp
  | some d => by_cases h : d ≤ t.now <;> simp [h]

theorem settle_spec : (settle t.now c).2.ready = c.ready ∧
    ((settle t.now c).2.due = c.due ∧ (∀ d ∈ c.due, t.now < d) ∨
      (settle t.now c).2.due = none ∧ .changed ∈ (settle t.now c).1) := by
  unfold settle
  split
  · exact ⟨rfl, .inr ⟨rfl, List.mem_singleton_self _⟩⟩
  · next htold => exact ⟨rfl, .inl ⟨rfl, fun d hd => by simpa [Option.mem_def.mp hd] using htold⟩⟩

theorem turn_changed (h : .changed ∈ (turn t c).1) : ∃ d ∈ t.held c, d ≤ t.now := by
  unfold turn at h
  split at h
  · simp at h
  next hkeep =>
  split at h
  · simp at h
  · simp at h
  next said c₁ hhear =>
  obtain ⟨hdue, hquiet, -⟩ := hear_on (Bool.eq_true_of_not_eq_false hkeep) hhear
  split at h
  · exact absurd h hquiet
  rw [← hdue, ← mem_settle]
  have htold : .changed ∈ said ++ (settle t.now c₁).1 := by
    dsimp only at h
    split at h
    · exact h
    split at h <;> exact h
  exact (List.mem_append.mp htold).resolve_left hquiet

/-- A turn that goes on keeps a change it does not tell, and becoming ready is told. -/
theorem turn_inr (h : turn t c = (events, .inr c')) :
    (c'.ready = true → c.ready = true ∨ .ready ∈ events) ∧
      (c'.due = t.held c ∧ .changed ∉ events ∧ (t.read ≠ .text none → ∀ d ∈ c'.due, t.now < d) ∨
        c'.due = none ∧ .changed ∈ events) := by
  unfold turn at h
  split at h
  · cases h
  next hkeep =>
  split at h
  · cases h
  · next c₁ hhear =>
    cases h
    obtain ⟨hdue, hready, hread⟩ := hear_again hhear
    exact ⟨fun h => .inl (hready h), .inl ⟨hdue, List.not_mem_nil, fun h => absurd hread h⟩⟩
  next said c₁ hhear =>
  obtain ⟨hdue, hquiet, hready⟩ := hear_on (Bool.eq_true_of_not_eq_false hkeep) hhear
  split at h
  · cases h
  dsimp only at h
  split at h
  · cases h
  split at h
  · cases h
  obtain ⟨rfl, hrenew⟩ := Prod.mk.inj h
  obtain ⟨hdue', hready'⟩ := renewal_inr hrenew
  obtain ⟨hsettled, hcases⟩ := settle_spec (t := t) (c := c₁)
  rw [hdue', hready', hsettled, ← hdue]
  refine ⟨fun h => (hready h).imp_right (List.mem_append_left _), ?_⟩
  rcases hcases with ⟨hkept, hlater⟩ | ⟨hnone, htold⟩
  · refine .inl ⟨hkept, fun h => ?_, fun _ => hkept ▸ hlater⟩
    obtain ⟨d, hd, hle⟩ := mem_settle.mp ((List.mem_append.mp h).resolve_left hquiet)
    exact absurd (hlater d hd) (Nat.not_lt.mpr hle)
  · exact .inr ⟨hnone, List.mem_append_right _ htold⟩

/-! ## What a move of the channel does -/

variable {ch : Channel} {m : Move} {started : ℕ} {jittered : ℕ → ℕ} {now : ℕ}

theorem Channel.after_phase {begun : ℕ} {e : Ended} :
    (ch.after jittered begun now e).phase ≠ .connected started c := by
  unfold Channel.after
  dsimp only
  split <;> simp

theorem Channel.dial_phase {d : Dial} (h : (ch.dial d jittered now).phase = .connected started c) :
    c.ready = false ∧ c.due = none := by
  unfold Channel.dial at h
  split at h
  · cases h
  split at h
  · exact absurd h Channel.after_phase
  · exact absurd h Channel.after_phase
  split at h
  · cases h
    exact ⟨rfl, rfl⟩
  · exact absurd h Channel.after_phase

theorem Channel.told_turn {e : Event} (h : e ∈ (ch.step m).1) :
    ∃ started c t jittered now, ch.phase = .connected started c ∧ m = .turn t jittered now ∧ e ∈ (turn t c).1 := by
  unfold Channel.step at h
  split at h
  case h_2 started c t jittered now hphase =>
    refine ⟨started, c, t, jittered, now, hphase, rfl, ?_⟩
    rcases hturn : turn t c with ⟨events, e | c'⟩ <;> simpa [hturn] using h
  all_goals simp at h

/-- A connection after a move is the one before it after a turn, or as it was, or new. -/
theorem Channel.step_connected (h : (ch.step m).2.phase = .connected started c') :
    (∃ c t jittered now, ch.phase = .connected started c ∧ m = .turn t jittered now ∧ turn t c = ((ch.step m).1, .inr c')) ∨
      (ch.phase = .connected started c' ∧ ∀ t jittered now, m ≠ .turn t jittered now) ∨
      c'.ready = false ∧ c'.due = none := by
  unfold Channel.step at h ⊢
  split at h
  · exact .inr (.inr (Channel.dial_phase h))
  · next c t jittered now hphase =>
    rcases hturn : turn t c with ⟨events, e | c₁⟩
    · simp only [hturn] at h
      exact absurd h Channel.after_phase
    · simp only [hturn] at h
      cases h
      exact .inl ⟨c, t, jittered, now, hphase, rfl, by simp [hturn]⟩
  · next deadline keepGoing now hphase =>
    unfold Channel.wait at h
    split at h
    · split at h
      · cases h
      · rw [hphase] at h
        cases h
    · cases h
  · next hno _ =>
    refine .inr (.inl ⟨h, fun t jittered now hm => ?_⟩)
    exact hno started c' t jittered now h hm

end Live

end UwuRdp
