import UwuRdp.Sync.Live

/-!
# From the realtime channel to a pass

The thread that listens to UwULock, and the worker that passes. Both threads, and the commands that ask for a pass, meet
in three fields: the request, and whether the channel is open.
-/

namespace UwuRdp

open Lib

namespace Live

def pullEvery : ℕ := 60000

def backoff : ℕ := 30000

def switchedOffWait : ℕ := 300000

def quietPull : ℕ := 840000

/-- The listening thread's run of the channel, the shared fields, and the worker: what it took of `wake`, and its
times. -/
structure Desk where
  channel : Option Channel
  live : Bool
  wake : Bool
  asked : Option Bool
  nextPull : ℕ
  notBefore : ℕ

def Desk.start (now : ℕ) : Desk := ⟨none, false, false, none, now + 3000, now⟩

inductive PassEnd where
  | ok
  | switchedOff
  | failed
deriving DecidableEq

/-- What the worker finds once it is awake, and how its pass ends if it begins one. -/
structure Look where
  paired : Bool
  onLock : Bool
  unlocked : Bool
  waiting : Bool
  now : ℕ
  passEnd : PassEnd
  ended : ℕ

inductive Act where
  /-- `live::run` begins. -/
  | listen
  | channel (m : Move)
  /-- `live::run` has returned. -/
  | hangUp
  | poke
  /-- The worker wakes, asked or by itself. -/
  | take
  | look (l : Look)

def Desk.due (s : Desk) (asked : Bool) (l : Look) : Bool :=
  let listening := l.onLock && s.live
  let pullDue := decide (s.nextPull ≤ l.now) && !(listening && decide (l.now < s.nextPull + quietPull))
  asked || pullDue || l.waiting && decide (s.notBefore ≤ l.now)

def Look.mayPass (l : Look) : Bool := (l.paired || l.onLock) && l.unlocked

def Desk.look (s : Desk) (asked : Bool) (l : Look) : Desk :=
  if l.mayPass && s.due asked l then
    match l.passEnd with
    | .ok => { s with asked := none, nextPull := l.ended + pullEvery, notBefore := l.ended }
    | .switchedOff => { s with asked := none, nextPull := l.ended + switchedOffWait, notBefore := l.ended + switchedOffWait }
    | .failed => { s with asked := none, nextPull := l.ended + backoff, notBefore := l.ended + backoff }
  else { s with asked := none }

/-- What a move of the channel tells the listening thread. -/
def Desk.told (s : Desk) : Act → List Event
  | .channel m => (s.channel.map fun ch => (ch.step m).1).getD []
  | _ => []

def Desk.step (s : Desk) (m : Act) : Desk :=
  match m with
  | .listen => if s.channel.isSome then s else { s with channel := some .new }
  | .channel m =>
    { s with
      channel := s.channel.map fun ch => (ch.step m).2
      live := s.live || (s.told (.channel m)).contains .ready
      wake := s.wake || !(s.told (.channel m)).isEmpty }
  | .hangUp =>
    match s.channel with
    | some ⟨_, .over _⟩ => { s with channel := none, live := false }
    | _ => s
  | .poke => { s with wake := true }
  | .take => if s.asked.isSome then s else { s with asked := some s.wake, wake := false }
  | .look l =>
    match s.asked with
    | some asked => s.look asked l
    | none => s

abbrev Desk.run : Desk → List Act → Desk := Steps.run Desk.step

/-! ## What a move does -/

def Desk.connection (s : Desk) (started : ℕ) (c : Conn) : Prop :=
  ∃ ch, s.channel = some ch ∧ ch.phase = .connected started c

/-- The move reads, on the open connection, that something changed in this app's space. -/
def Desk.hears (s : Desk) (m : Act) (t : Turn) : Prop :=
  ∃ started c jittered now, s.connection started c ∧ m = .channel (.turn t jittered now) ∧ t.hears = true

/-- The move begins a pass. -/
def Desk.begins (s : Desk) : Act → Bool
  | .look l => s.asked.any fun asked => l.mayPass && s.due asked l
  | _ => false

/-- The worker finds the vault locked, or no account. -/
def Desk.idles (s : Desk) : Act → Bool
  | .look l => s.asked.isSome && !l.mayPass
  | _ => false

variable {s : Desk} {m : Act} {started : ℕ} {c' : Conn} {t : Turn}

theorem Desk.look_fields (asked : Bool) (l : Look) : (s.look asked l).channel = s.channel ∧
    (s.look asked l).live = s.live ∧ (s.look asked l).wake = s.wake ∧ (s.look asked l).asked = none := by
  unfold Desk.look
  split
  · split <;> exact ⟨rfl, rfl, rfl, rfl⟩
  · exact ⟨rfl, rfl, rfl, rfl⟩

theorem Desk.told_turn {e : Event} (h : e ∈ s.told m) :
    ∃ started c t jittered now, s.connection started c ∧ m = .channel (.turn t jittered now) ∧ e ∈ (turn t c).1 := by
  unfold Desk.told at h
  split at h
  · next m =>
    cases hch : s.channel with
    | none => simp [hch] at h
    | some ch =>
      obtain ⟨started, c, t, jittered, now, hphase, rfl, he⟩ := Channel.told_turn (by simpa [hch] using h)
      exact ⟨started, c, t, jittered, now, ⟨ch, hch, hphase⟩, rfl, he⟩
  · cases h

/-- A connection after a move is the one before it after a turn, or as it was, or new. -/
theorem Desk.step_connection (h : (s.step m).connection started c') :
    (∃ c t jittered now, s.connection started c ∧ m = .channel (.turn t jittered now) ∧ turn t c = (s.told m, .inr c')) ∨
      (s.connection started c' ∧ ∀ t jittered now, m ≠ .channel (.turn t jittered now)) ∨
      c'.ready = false ∧ c'.due = none := by
  obtain ⟨ch', hch', hphase⟩ := h
  unfold Desk.step at hch'
  split at hch'
  · split at hch'
    · exact .inr (.inl ⟨⟨ch', hch', hphase⟩, by simp⟩)
    · cases hch'
      cases hphase
  · next n =>
    obtain ⟨ch, hch, rfl⟩ := Option.map_eq_some_iff.mp hch'
    rcases Channel.step_connected hphase with ⟨c, t, jittered, now, hc, rfl, hturn⟩ | ⟨hc, hno⟩ | hnew
    · exact .inl ⟨c, t, jittered, now, ⟨ch, hch, hc⟩, rfl, by simpa [Desk.told, hch] using hturn⟩
    · exact .inr (.inl ⟨⟨ch, hch, hc⟩, fun t jittered now hm => hno t jittered now (Act.channel.inj hm)⟩)
    · exact .inr (.inr hnew)
  · split at hch'
    · cases hch'
    · exact .inr (.inl ⟨⟨ch', hch', hphase⟩, by simp⟩)
  · exact .inr (.inl ⟨⟨ch', hch', hphase⟩, by simp⟩)
  · split at hch' <;> exact .inr (.inl ⟨⟨ch', hch', hphase⟩, by simp⟩)
  · split at hch'
    · rw [(Desk.look_fields _ _).1] at hch'
      exact .inr (.inl ⟨⟨ch', hch', hphase⟩, by simp⟩)
    · exact .inr (.inl ⟨⟨ch', hch', hphase⟩, by simp⟩)

theorem Desk.wake_of_told {e : Event} (h : e ∈ s.told m) : (s.step m).wake = true := by
  obtain ⟨_, _, t, jittered, now, -, rfl, -⟩ := Desk.told_turn h
  have hne : (s.told (.channel (.turn t jittered now))).isEmpty = false := by
    rw [List.isEmpty_eq_false_iff_exists_mem]
    exact ⟨e, h⟩
  show (s.wake || !(s.told (.channel (.turn t jittered now))).isEmpty) = true
  rw [hne, Bool.not_false, Bool.or_true]

theorem Desk.run_concat (s : Desk) (history : List Act) (m : Act) : s.run (history ++ [m]) = (s.run history).step m :=
  Steps.run_append s history [m]

/-! ## A change that was heard -/

/-- The connection, where it is ready, holds a change back. -/
def Desk.Awaits (s : Desk) : Prop := ∀ started c, s.connection started c → c.ready = true → c.due.isSome = true

/-- A pass is asked for, or will be. -/
def Desk.Asking (s : Desk) : Prop := s.asked = some true ∨ s.wake = true ∨ s.Awaits

theorem Desk.awaits_step (h : s.Awaits ∨ ∃ t, s.hears m t) : (s.step m).wake = true ∨ (s.step m).Awaits := by
  by_cases htold : s.told m = []
  case neg =>
    obtain ⟨e, he⟩ := List.exists_mem_of_ne_nil _ htold
    exact .inl (Desk.wake_of_told he)
  refine .inr fun started c' hc' hready => ?_
  rcases Desk.step_connection hc' with ⟨c, t, jittered, now, hc, rfl, hturn⟩ | ⟨hc, hno⟩ | ⟨hnew, -⟩
  · rw [htold] at hturn
    obtain ⟨hwas, ⟨hdue, -, -⟩ | ⟨-, hchanged⟩⟩ := turn_inr hturn
    · rw [hdue, Turn.held, Option.isSome_or, Bool.or_eq_true]
      rcases h with h | ⟨t', _, _, _, _, -, hm, hhears⟩
      · exact .inl (h started c hc ((hwas hready).resolve_right List.not_mem_nil))
      · cases hm
        simp [hhears]
    · cases hchanged
  · rcases h with h | ⟨t, ht⟩
    · exact h started c' hc hready
    · obtain ⟨_, _, jittered, now, -, hm, -⟩ := ht
      exact absurd hm (hno t jittered now)
  · rw [hnew] at hready
    cases hready

theorem Desk.request_step (h : s.asked = some true ∨ s.wake = true) (hbegins : s.begins m = false)
    (hidles : s.idles m = false) : (s.step m).asked = some true ∨ (s.step m).wake = true := by
  cases m with
  | listen | hangUp =>
    unfold Desk.step
    dsimp only
    split <;> exact h
  | channel n =>
    refine h.imp id fun hwake => ?_
    show (s.wake || !(s.told (.channel n)).isEmpty) = true
    rw [hwake, Bool.true_or]
  | poke => exact .inr rfl
  | take =>
    unfold Desk.step
    dsimp only
    split
    · exact h
    · next hnone =>
      refine .inl (congrArg some (h.resolve_left fun hasked => hnone ?_))
      rw [hasked]
      rfl
  | look l =>
    unfold Desk.step
    cases hasked : s.asked with
    | none => exact .inr (h.resolve_left (by simp [hasked]))
    | some asked =>
      refine .inr ?_
      rw [(Desk.look_fields asked l).2.2.1]
      refine h.resolve_left fun htrue => ?_
      unfold Desk.begins Desk.due at hbegins
      unfold Desk.idles at hidles
      simp_all

/-- **Every change that is heard is passed on.** From then until the worker begins a pass, or finds the vault locked
or no account, a pass is asked for, or the connection that heard it holds it back, or no connection is ready and the
next one that is asks. -/
theorem heard_is_passed_on {s₀ : Desk} {history : List Act}
    (h : Steps.Since (fun before m => ∃ t, (s₀.run before).hears m t)
      (fun before m => (s₀.run before).begins m = false ∧ (s₀.run before).idles m = false) history) :
    (s₀.run history).Asking := by
  induction history using List.reverseRecOn with
  | nil => exact absurd h Steps.not_since_nil
  | append_singleton history m ih =>
    rw [Desk.run_concat]
    rcases Steps.since_concat.mp h with hhears | ⟨⟨hbegins, hidles⟩, hsince⟩
    · exact .inr (Desk.awaits_step (.inr hhears))
    · rcases ih hsince with hasked | hwake | hawaits
      · exact (Desk.request_step (.inl hasked) hbegins hidles).imp id .inl
      · exact (Desk.request_step (.inr hwake) hbegins hidles).imp id .inl
      · exact .inr (Desk.awaits_step (.inl hawaits))

def changeOfSuite : Turn where
  keepGoing := true
  read := .text (some (.obj [("type".toList, .str "changed".toList), ("areas".toList, .arr [.str "suite".toList])]))
  readAt := 0
  heardAt := 0
  flushed := true
  now := 0
  unixNow := 0
  access := .ok 0
  renewed := .ok ()
  sent := true
  between := fun least _ => least

theorem heard_is_passed_on_at_once : ((Desk.start 0).run ([.listen, .channel (.dial ⟨true, 0, .ok (), true, true, 0⟩ id 0)]
    ++ [.channel (.turn changeOfSuite id 0)])).Asking :=
  heard_is_passed_on (Steps.since_concat.mpr (.inl
    ⟨changeOfSuite, 0, _, id, 0, ⟨_, rfl, rfl⟩, rfl, by decide +kernel⟩))

/-! ## When a change is told -/

/-- The move hears a change that is due at `d`. -/
def Desk.hearsFor (s : Desk) (d : ℕ) (m : Act) : Prop := ∃ t, s.hears m t ∧ t.heardAt + debounce = d

/-- A change that is held back was heard a debounce before it is due, and none was told since. -/
theorem held_since {s₀ : Desk} (hs₀ : s₀.channel = none) {history : List Act} {started : ℕ} {c : Conn} {d : ℕ}
    (hc : (s₀.run history).connection started c) (hd : d ∈ c.due) : Steps.Since
    (fun before m => (s₀.run before).hearsFor d m) (fun before m => .changed ∉ (s₀.run before).told m) history := by
  induction history using List.reverseRecOn generalizing started c with
  | nil =>
    obtain ⟨ch, hch, -⟩ := hc
    cases hs₀.symm.trans hch
  | append_singleton history m ih =>
    rw [Desk.run_concat] at hc
    rw [Steps.since_concat]
    rcases Desk.step_connection hc with ⟨c₀, t, jittered, now, hc₀, rfl, hturn⟩ | ⟨hc₀, hno⟩ | ⟨-, hnone⟩
    · obtain ⟨-, ⟨hdue, hquiet, -⟩ | ⟨hnone, -⟩⟩ := turn_inr hturn
      · rw [hdue, Turn.held, Option.mem_def, Option.or_eq_some_iff] at hd
        rcases hd with hd | ⟨-, hd⟩
        · exact .inr ⟨hquiet, ih hc₀ hd⟩
        · split at hd
          · next hhears => exact .inl ⟨t, ⟨started, c₀, jittered, now, hc₀, rfl, hhears⟩, Option.some.inj hd⟩
          · cases hd
      · rw [hnone] at hd
        cases hd
    · refine .inr ⟨fun htold => ?_, ih hc₀ hd⟩
      obtain ⟨_, _, t, jittered, now, -, hm, -⟩ := Desk.told_turn htold
      exact hno t jittered now hm
    · rw [hnone] at hd
      cases hd

/-- **A change is told neither early nor late, and none that was not heard.** Each was heard a debounce before, and
none was told in between; a turn that goes on past what it read leaves none untold that is due. -/
theorem changed_in_time (start : ℕ) (history : List Act) (m : Act) :
    let s₀ := Desk.start start
    (.changed ∈ (s₀.run history).told m → ∃ t jittered now d, m = .channel (.turn t jittered now) ∧ d ≤ t.now ∧
      ((s₀.run history).hearsFor d m ∨ Steps.Since (fun before m => (s₀.run before).hearsFor d m)
        (fun before m => .changed ∉ (s₀.run before).told m) history)) ∧
    ∀ t jittered now started c d, m = .channel (.turn t jittered now) → t.read ≠ .text none →
      (s₀.run (history ++ [m])).connection started c → d ∈ c.due → t.now < d := by
  intro s₀
  have hs₀ : s₀.channel = none := rfl
  constructor
  · intro h
    obtain ⟨started, c, t, jittered, now, hc, rfl, hchanged⟩ := Desk.told_turn h
    obtain ⟨d, hd, hle⟩ := turn_changed hchanged
    refine ⟨t, jittered, now, d, rfl, hle, ?_⟩
    rw [Turn.held, Option.mem_def, Option.or_eq_some_iff] at hd
    rcases hd with hd | ⟨-, hd⟩
    · exact .inr (held_since hs₀ hc hd)
    · split at hd
      · next hhears => exact .inl ⟨t, ⟨started, c, jittered, now, hc, rfl, hhears⟩, Option.some.inj hd⟩
      · cases hd
  · rintro t jittered now started c d rfl hread hc hd
    rw [Desk.run_concat] at hc
    rcases Desk.step_connection hc with ⟨c₀, t', _, _, -, hm, hturn⟩ | ⟨-, hno⟩ | ⟨-, hnone⟩
    · cases hm
      obtain ⟨-, ⟨-, -, hlater⟩ | ⟨hnone, -⟩⟩ := turn_inr hturn
      · exact hlater hread d hd
      · rw [hnone] at hd
        cases hd
    · exact absurd rfl (hno t jittered now)
    · rw [hnone] at hd
      cases hd

end Live

end UwuRdp
