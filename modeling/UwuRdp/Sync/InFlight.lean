import UwuRdp.Store.Preference
import UwuRdp.Store.Outbox
import UwuRdp.Sync.Engine

/-!
# Edits while a push is in flight

What was sent to the server is acknowledged after any number of further edits. A row is taken off
the outbox only by the acknowledgement of the version it still has, or by a record of the server
that stands against it.
-/

namespace UwuRdp

open Lib

/-- The address and port a row holds, if it is a host key's. -/
def slotOf : (k : EntityKind) → Body k → Option (Text × UInt16)
  | .knownHost, b => some (b.address, b.port)
  | _, _ => none

/-- Why a row need not wait any more once a record of the server was applied. -/
inductive Overruled (vault : UnlockedVault) (env : Envelope) (k : EntityKind) (id : Uuid)
    (r : Row (Body k)) : Prop where
  /-- The server has this very version. -/
  | confirmed {payload : Payload} (opens : Opens vault env payload) (kind : env.kind = k)
      (same : env.id = id) (version : r.version = env.version)
  /-- The server has a version that is preferred. -/
  | replaced {payload : Payload} (opens : Opens vault env payload) (kind : env.kind = k)
      (same : env.id = id) (preferred : resolve r.version env.version = .takeRemote)
  /-- A host key that is not older took its address and port. -/
  | slotTaken {p : KnownHostPayload} (opens : Opens vault env (.knownHost p))
      (kind : env.kind = .knownHost) (other : env.id ≠ id) (live : env.deleted = false)
      (slot : slotOf k r.body = some (p.normalized.address, p.normalized.port))
      (older : r.hlc ≤ env.updatedAt)

variable {device : UInt32} {vault : UnlockedVault} {env : Envelope} {db db' : Db}
  {rep : ApplyReport} {k : EntityKind} {id : Uuid} {r : Row (Body k)}

theorem Overruled.of_seq {n : ℕ} (h : Overruled vault env k id { r with serverSeq := n }) :
    Overruled vault env k id r := by
  cases h with
  | confirmed ho hk hi hv => exact .confirmed ho hk hi hv
  | replaced ho hk hi hp => exact .replaced ho hk hi hp
  | slotTaken ho hk hi hl hs hc => exact .slotTaken ho hk hi hl hs hc

theorem row_evict_ne {i : Uuid} {clock : Hlc} (h : ¬(k = .knownHost ∧ id = i)) :
    (evict db i clock).row k id = db.row k id := by
  by_cases hk : k = .knownHost
  · subst hk
    have hi : id ≠ i := fun hi => h ⟨rfl, hi⟩
    unfold Db.row evict
    rw [Db.setTable_rows_self, Table.get?_erase, if_neg hi]
  · unfold Db.row evict
    rw [Db.setTable_rows_ne _ hk, rows_supersede]

theorem SlotApplied.waits {p : KnownHostPayload} (h : SlotApplied env p db db') (hk : env.kind = .knownHost)
    (ho : Opens vault env (.knownHost p)) (hd : env.deleted = false) (hr : db.row k id = some r)
    (hne : ¬(k = env.kind ∧ id = env.id)) : db'.row k id = some r ∨ Overruled vault env k id r := by
  have hne' : ¬(k = .knownHost ∧ id = env.id) := by rwa [← hk]
  rcases h with ⟨-, -, rfl⟩ | ⟨rivalId, rival, hrival, ⟨-, rfl⟩ | ⟨hc, -, rfl⟩⟩
  · rw [Db.row_setRow_ne hne']
    exact .inl hr
  · left
    unfold Db.row
    rw [rows_supersede]
    exact hr
  · obtain ⟨hrow, hother, ha, hp⟩ := Db.rival_some hrival
    rw [Db.row_setRow_ne hne']
    by_cases hev : k = .knownHost ∧ id = rivalId
    · obtain ⟨rfl, rfl⟩ := hev
      rw [hrow] at hr
      cases hr
      refine .inr (.slotTaken ho hk (Ne.symm hother) hd ?_ hc)
      rw [← ha, ← hp]
      rfl
    · rw [row_evict_ne hev]
      exact .inl hr

section Apply

variable [Platform]

theorem applyOne_waits (h : applyOne device vault env db = .ok (rep, db'))
    (hr : db.row k id = some r) :
    (∃ n, db'.row k id = some { r with serverSeq := n }) ∨ Overruled vault env k id r := by
  have same : db.row k id = some { r with serverSeq := r.serverSeq } := hr
  -- Of the row the record is about, the decision says what became of it.
  have here : k = env.kind ∧ id = env.id → ∀ payload, Opens vault env payload →
      (∀ r' : Row (Body env.kind), db.row env.kind env.id = some r' → r'.version < env.version) →
      Overruled vault env k id r := by
    rintro ⟨rfl, rfl⟩ payload ho hv
    exact .replaced ho rfl rfl (resolve_eq_takeRemote.mpr (hv r hr))
  cases applyOne_cases h with
  | foreign | noTable | absent => exact .inl ⟨_, same⟩
  | identical payload ho r' hr' hv =>
    by_cases hh : k = env.kind ∧ id = env.id
    · obtain ⟨rfl, rfl⟩ := hh
      rw [hr'] at hr
      cases hr
      exact .inr (.confirmed ho rfl rfl hv)
    · rw [Db.row_setRow_ne hh]
      exact .inl ⟨_, same⟩
  | kept payload ho r' hr' hv =>
    by_cases hh : k = env.kind ∧ id = env.id
    · obtain ⟨rfl, rfl⟩ := hh
      rw [hr'] at hr
      cases hr
      exact .inl ⟨_, Db.row_setRow_self ..⟩
    · rw [Db.row_setRow_ne hh]
      exact .inl ⟨_, same⟩
  | tombstoned payload ho r' hr' hv hd =>
    by_cases hh : k = env.kind ∧ id = env.id
    · refine .inr (here hh payload ho fun r'' hr'' => ?_)
      rw [hr'] at hr''
      cases hr''
      exact hv
    · rw [Db.row_setRow_ne hh]
      exact .inl ⟨_, same⟩
  | inserted payload ho _ _ hv hd hi =>
    by_cases hh : k = env.kind ∧ id = env.id
    · exact .inr (here hh payload ho hv)
    rcases insertRecord_spec hi with ⟨rfl, -⟩ | ⟨-, -, db₁, b, hs, -, -, rfl⟩ | ⟨hk, -, p, rfl, hslot⟩
    · exact .inl ⟨_, same⟩
    · rw [Db.row_setRow_ne hh]
      exact .inl ⟨_, hs.rows k id _ same⟩
    · rcases hslot.waits hk ho hd hr hh with hrow | hover
      · exact .inl ⟨r.serverSeq, hrow⟩
      · exact .inr hover

theorem Applied.waits {envs : List Envelope} (h : Applied device vault envs db db')
    (hr : db.row k id = some r) :
    (∃ n, db'.row k id = some { r with serverSeq := n }) ∨
      ∃ env ∈ envs, Overruled vault env k id r := by
  induction h generalizing r with
  | nil db => exact .inl ⟨r.serverSeq, hr⟩
  | cons env rest db db₁ db' rep hone _ ih =>
    rcases applyOne_waits hone hr with ⟨n, hr₁⟩ | hover
    · rcases ih hr₁ with ⟨m, hr'⟩ | ⟨e, he, hover⟩
      · exact .inl ⟨m, hr'⟩
      · exact .inr ⟨e, List.mem_cons_of_mem env he, hover.of_seq⟩
    · exact .inr ⟨env, List.mem_cons_self, hover⟩

end Apply

/-! ## Pushes on their way -/

/-- A store, and the requests that went out of it. -/
structure Flight where
  db : Db
  sent : List (List Envelope)

/-- What can happen between a push and its answer. -/
inductive FlightCall where
  /-- An edit, or any other call of the store but an acknowledgement. -/
  | store (call : StoreCall) (unmarked : ∀ records, call ≠ .markPushed records)
  /-- `pending_envelopes`: rows are taken, and sent. -/
  | take (vault : UnlockedVault) (limit : ℕ)
  /-- `pending_manifest`. -/
  | takeManifest (vault : UnlockedVault)
  /-- `mark_pushed`, with what the server accepted of one of the requests. -/
  | acknowledge (request : ℕ) (accepted : List Accepted)

/-- The records of a request that takes the rows waiting. -/
def takenRows (db : Db) (vault : UnlockedVault) (limit : ℕ) : List Envelope :=
  match pendingEnvelopes db (some vault) limit with
  | .ok (envelopes, _) => envelopes
  | .error _ => []

def takenManifest (db : Db) (vault : UnlockedVault) : List Envelope :=
  match pendingManifest db (some vault) with
  | .ok manifest => manifest.toList
  | .error _ => []

theorem outgoing_of_taken (h : (∃ limit, env ∈ takenRows db vault limit) ∨
    env ∈ takenManifest db vault) : ∃ r, Outgoing db vault env r := by
  rcases h with ⟨limit, h⟩ | h
  · unfold takenRows at h
    split at h
    · next envelopes leftOut hp => exact (outgoing_of_pendingEnvelopes hp h).2
    · cases h
  · unfold takenManifest at h
    split at h
    · next manifest hp =>
      rw [Option.mem_toList] at h
      subst h
      exact (outgoing_of_pendingManifest hp).2
    · cases h

theorem mem_pushedOf {sent : List Envelope} {accepted : List Accepted} {p : Pushed}
    (h : p ∈ Engine.pushedOf sent accepted) : ∃ env ∈ sent, env.kind = p.kind ∧ env.id = p.id ∧ env.updatedAt =
    p.updatedAt ∧ ⟨p.id, p.seq⟩ ∈ accepted := by
  obtain ⟨taken, hm, hp⟩ := List.mem_filterMap.mp h
  obtain ⟨env, henv, rfl⟩ := Option.map_eq_some_iff.mp hp
  have hid : env.id = taken.id := by simpa using List.find?_some henv
  exact ⟨env, List.mem_of_find?_eq_some henv, rfl, hid, rfl, hm⟩

namespace Flight

def request (f : Flight) (n : ℕ) : List Envelope := f.sent.getD n []

/-- The clock of the device has not come to the last millisecond there is. -/
def ClockLeft (f : Flight) : Prop := f.db.clockWallMs.toNat < u64Max

/-- What a device may rely on while requests of it are under way. -/
structure Sound (device : UInt32) (f : Flight) : Prop where
  /-- A row that waits under a clock of this device is not ahead of the device. -/
  behind : f.ClockLeft → ∀ k id h, f.db.head k id = some h → h.dirty = true →
    h.hlc.device = device → h.hlc ≤ f.db.clock device
  /-- Nor is what was sent. -/
  sentBehind : f.ClockLeft → ∀ n, ∀ env ∈ f.request n, env.updatedAt.device = device →
    env.updatedAt ≤ f.db.clock device
  /-- A row that waits with the clock of what was sent is what was sent. -/
  unchanged : f.ClockLeft → ∀ n, ∀ env ∈ f.request n, ∀ h, f.db.head env.kind env.id = some h →
    h.dirty = true → h.hlc = env.updatedAt → h.version = env.version

variable {f : Flight}

variable {batch : List Envelope} {ps : List Pushed}

theorem mem_request_append {n : ℕ}
    (h : env ∈ Flight.request ⟨db, f.sent ++ [batch]⟩ n) : env ∈ f.request n ∨ env ∈ batch := by
  unfold request at h ⊢
  simp only [List.getD_eq_getElem?_getD, List.getElem?_append] at h ⊢
  split at h
  · exact .inl h
  · next hn =>
    have hn : f.sent.length ≤ n := by omega
    rw [List.getElem?_singleton] at h
    split at h
    · exact .inr h
    · cases h

theorem sound_fresh (device : UInt32) (vaultId : Uuid) : Sound device ⟨Db.fresh vaultId, []⟩ := by
  have none_sent : ∀ n, Flight.request ⟨Db.fresh vaultId, []⟩ n = [] := fun n => rfl
  refine ⟨fun _ k id h hh => ?_, fun _ n env he => ?_, fun _ n env he => ?_⟩
  · rw [Db.head_fresh] at hh
    cases hh
  · rw [none_sent] at he
    cases he
  · rw [none_sent] at he
    cases he

/-- A write of the store keeps it: a row that waits afterwards did so before, in the same version,
or its clock is a new one of this device. -/
theorem Sound.write {db' : Db} (h : Sound device f) (hl : Later device f.db db')
    (hrows : ∀ k id h', db'.head k id = some h' → h'.dirty = true →
      (∃ h₀, f.db.head k id = some h₀ ∧ h₀.dirty = true ∧ h₀.version = h'.version) ∨
        Issued device f.db db' h'.hlc) : Sound device { f with db := db' } := by
  have left : ClockLeft { f with db := db' } → f.ClockLeft := fun hw => hl.wall_lt hw
  refine ⟨fun hw k id h' hh' hd hdev => ?_, fun hw n env he hdev => ?_, fun hw n env he h' hh' hd hc => ?_⟩
  · rcases hrows k id h' hh' hd with ⟨h₀, hh₀, hd₀, hv⟩ | hi
    · have hc : h₀.hlc = h'.hlc := congrArg Version.updatedAt hv
      rw [← hc] at hdev ⊢
      exact (h.behind (left hw) k id h₀ hh₀ hd₀ hdev).trans (hl.2 hw)
    · exact (hi.2 hw).2
  · exact (h.sentBehind (left hw) n env he hdev).trans (hl.2 hw)
  · rcases hrows _ _ h' hh' hd with ⟨h₀, hh₀, hd₀, hv⟩ | hi
    · rw [← hv]
      exact h.unchanged (left hw) n env he h₀ hh₀ hd₀ ((congrArg Version.updatedAt hv).trans hc)
    · -- A new clock is later than anything this device sent.
      have hdev : env.updatedAt.device = device := by rw [← hc]; exact hi.1
      have hle := h.sentBehind (left hw) n env he hdev
      rw [← hc] at hle
      exact absurd hle (not_le.mpr (hi.2 hw).1)

theorem Sound.take (h : Sound device f)
    (hbatch : ∀ env ∈ batch, ∃ r, Outgoing f.db vault env r) :
    Sound device { f with sent := f.sent ++ [batch] } := by
  refine ⟨h.behind, fun hw n env he hdev => ?_, fun hw n env he h' hh' hd hc => ?_⟩
  · rcases mem_request_append he with he | he
    · exact h.sentBehind hw n env he hdev
    · obtain ⟨r, ho⟩ := hbatch env he
      rw [ho.updatedAt] at hdev ⊢
      exact h.behind hw env.kind env.id r.head (Db.head_eq_some.mpr ⟨r, ho.row, rfl⟩) ho.dirty hdev
  · rcases mem_request_append he with he | he
    · exact h.unchanged hw n env he h' hh' hd hc
    · obtain ⟨r, ho⟩ := hbatch env he
      obtain ⟨r', hr', rfl⟩ := Db.head_eq_some.mp hh'
      rw [ho.row] at hr'
      cases hr'
      show (⟨r.hlc, r.deleted⟩ : Version) = ⟨env.updatedAt, env.deleted⟩
      rw [ho.updatedAt, ho.deleted]

theorem head_acknowledged {h' : Head} (hh' : (UwuRdp.markPushed db ps).1.head k id = some h') : ∃
    h, db.head k id = some h ∧ h' = markAll ps k id h ∧ h.version = h'.version := by
  rw [head_markPushed] at hh'
  obtain ⟨h, hh, rfl⟩ := Option.map_eq_some_iff.mp hh'
  exact ⟨h, hh, rfl, (markAll_version ps k id h).symm⟩

theorem dirty_markAll {ps : List Pushed} {h : Head} (hd : h.dirty = true) :
    (markAll ps k id h).dirty = true ∨ ∃ p ∈ ps, p.kind = k ∧ p.id = id ∧ h.hlc = p.updatedAt := by
  induction ps generalizing h with
  | nil => exact .inl hd
  | cons p ps ih =>
    show (markAll ps k id (p.mark k id h)).dirty = true ∨ _
    by_cases hp : p.kind = k ∧ p.id = id ∧ h.hlc = p.updatedAt
    · exact .inr ⟨p, List.mem_cons_self, hp⟩
    · have hm : p.mark k id h = h := if_neg hp
      rw [hm]
      rcases ih hd with hw | ⟨q, hq, hq'⟩
      · exact .inl hw
      · exact .inr ⟨q, List.mem_cons_of_mem p hq, hq'⟩

theorem dirty_of_markAll {h : Head} (hd : (markAll ps k id h).dirty = true) : h.dirty = true := by
  induction ps generalizing h with
  | nil => exact hd
  | cons p ps ih =>
    have hm := ih (h := p.mark k id h) hd
    unfold Pushed.mark at hm
    split at hm
    · cases hm
    · exact hm

section Steps

variable [Platform]

theorem waited_of_applied {vault : UnlockedVault} {envs : List Envelope} {h' : Head}
    (happ : Applied device vault envs db db') (hh' : db'.head k id = some h')
    (hd : h'.dirty = true) : ∃ h, db.head k id = some h ∧ h.dirty = true ∧ h.version = h'.version := by
  induction happ with
  | nil db => exact ⟨h', hh', hd, rfl⟩
  | cons env rest db db₁ db' rep hone _ ih =>
    obtain ⟨h₁, hh₁, hd₁, hv₁⟩ := ih hh'
    have he := applyOne_effect hone k id
    rw [hh₁] at he
    generalize hold : db.head k id = old at he
    cases he with
    | same => exact ⟨h₁, rfl, hd₁, hv₁⟩
    | stub | identical => cases hd₁
    | kept h => exact ⟨h, rfl, hd₁, hv₁⟩
    | taken => cases hd₁

theorem applied_of_commit {vault : Option UnlockedVault} {now : UInt64} {envs : List Envelope} :
    (applyEnvelopes device vault now envs).commit db = db ∨ ∃ v db₁, vault = some v ∧ Applied device v
    (applySort envs) db db₁ ∧ Later device db ((applyEnvelopes device vault now envs).commit db) ∧
    ((applyEnvelopes device vault now envs).commit db).rows = db₁.rows := by
  unfold Tx.commit
  split
  swap
  · exact .inl rfl
  next rep db' happ =>
  rcases applyEnvelopes_spec happ with ⟨-, rfl⟩ | ⟨v, out, db₁, hv, hall, rfl⟩
  · exact .inl rfl
  have hrun := (applyAll_spec hall).1
  have hl₁ : Later device db db₁ := Later.of_clock_eq hrun.rest.clockWallMs hrun.rest.clockCounter
  right
  cases hout : out.2 with
  | none => exact ⟨v, db₁, hv, hrun, hl₁, rfl⟩
  | some c => exact ⟨v, db₁, hv, hrun, hl₁.trans (later_merge device db₁ c now), rfl⟩

variable {f : Flight}

theorem Sound.call (h : Sound device f) (call : StoreCall) :
    Sound device { f with db := call.run device f.db } := by
  have same : ∀ db' : Db, db'.rows = f.db.rows → db'.clockWallMs = f.db.clockWallMs →
      db'.clockCounter = f.db.clockCounter → Sound device { f with db := db' } := by
    intro db' hrows hw hc
    refine h.write (Later.of_clock_eq hw hc) fun k id h' hh' hd => .inl ⟨h', ?_, hd, rfl⟩
    rw [← hh', Db.head, Db.head, row_of_rows_eq hrows]
  cases call with
  | edit cx op =>
    obtain ⟨n, hw⟩ := LocalOp.run_all { cx with device } op f.db
    refine h.write hw.later fun k id h' hh' hd => ?_
    have hwr := hw.heads k id
    change (op.run { cx with device } f.db).head k id = some h' at hh'
    rw [hh'] at hwr
    generalize hold : f.db.head k id = old at hwr
    cases hwr with
    | same => exact .inl ⟨h', rfl, hd, rfl⟩
    | created c d _ hc | rewritten h₀ c d _ _ _ hc => exact .inr hc
  | apply vault now envs =>
    show Sound device { f with db := (applyEnvelopes device vault now envs).commit f.db }
    rcases @applied_of_commit device f.db _ _ _ _ with he | ⟨v, db₁, -, happ, hl, hrows⟩
    · rw [he]
      exact h
    · refine h.write hl fun k id h' hh' hd => .inl (waited_of_applied happ ?_ hd)
      rw [← hh', Db.head, Db.head, row_of_rows_eq hrows]
  | markPushed records =>
    have hr := markPushed_rest records f.db
    refine h.write (Later.of_clock_eq hr.clockWallMs hr.clockCounter) fun k id h' hh' hd => ?_
    obtain ⟨h₀, hh₀, rfl, hv⟩ := head_acknowledged hh'
    exact .inl ⟨h₀, hh₀, dirty_of_markAll hd, hv⟩
  | refreshManifest cx =>
    simp only [StoreCall.run]
    rcases refreshManifest_spec { cx with device } f.db with he | ⟨now, m, he⟩
    · rw [he]
      exact h
    · rw [he]
      refine h.write (later_tick device f.db now) fun k id h' hh' hd => ?_
      rw [Db.head_setRow] at hh'
      split at hh'
      · cases hh'
        exact .inr (issued_tick (Later.refl device f.db))
      · exact .inl ⟨h', hh', hd, rfl⟩
  | checkManifests | noteIncompletePull => exact same _ rfl rfl rfl
  | setManifestFloor floor =>
    obtain ⟨violations, he⟩ := setManifestFloor_eq f.db floor
    simp only [StoreCall.run, he]
    exact same _ rfl rfl rfl
  | setSyncCursor cursor => exact same _ rfl rfl rfl

def step (device : UInt32) (f : Flight) : FlightCall → Flight
  | .store call _ => { f with db := call.run device f.db }
  | .take vault limit => { f with sent := f.sent ++ [takenRows f.db vault limit] }
  | .takeManifest vault => { f with sent := f.sent ++ [takenManifest f.db vault] }
  | .acknowledge n accepted =>
    { f with db := (UwuRdp.markPushed f.db (Engine.pushedOf (f.request n) accepted)).1 }

def run (device : UInt32) (f : Flight) (calls : List FlightCall) : Flight :=
  calls.foldl (step device) f

theorem Sound.step (h : Sound device f) (call : FlightCall) : Sound device (f.step device call) := by
  cases call with
  | store call _ => exact h.call call
  | take vault limit => exact h.take fun env he => outgoing_of_taken (.inl ⟨limit, he⟩)
  | takeManifest vault => exact h.take fun env he => outgoing_of_taken (.inr he)
  | acknowledge n accepted => exact h.call (.markPushed (Engine.pushedOf (f.request n) accepted))

theorem sound_run (h : Sound device f) (calls : List FlightCall) : Sound device (f.run device calls) := by
  induction calls generalizing f with
  | nil => exact h
  | cons call rest ih => exact ih (h.step call)

def Waits (db : Db) (k : EntityKind) (id : Uuid) : Prop :=
  ∃ r, db.row k id = some r ∧ r.dirty = true

/-- Why a row that waited need not wait any more after a call. -/
inductive Answered (f : Flight) (k : EntityKind) (id : Uuid) (r : Row (Body k)) :
    FlightCall → Prop where
  /-- The version it has was pushed, and the server accepted that. -/
  | pushed {n seq : ℕ} {accepted : List Accepted} {env : Envelope} (sent : env ∈ f.request n)
      (kind : env.kind = k) (same : env.id = id) (version : env.version = r.version)
      (word : ⟨id, seq⟩ ∈ accepted) : Answered f k id r (.acknowledge n accepted)
  /-- A record of the server overruled it. -/
  | overruled {v : UnlockedVault} {now : UInt64} {envs : List Envelope} {env : Envelope}
      {unmarked : ∀ records, StoreCall.apply (some v) now envs ≠ .markPushed records}
      (arrived : env ∈ envs) (why : Overruled v env k id r) :
      Answered f k id r (.store (.apply (some v) now envs) unmarked)

omit [Platform] in
theorem waits_of_head {h : Head} (hh : db.head k id = some h) (hd : h.dirty = true) : Waits db k id := by
  obtain ⟨r, hr, rfl⟩ := Db.head_eq_some.mp hh
  exact ⟨r, hr, hd⟩

theorem edit_waits (cx : Session) (op : LocalOp) (db : Db) (k : EntityKind) (id : Uuid) :
    (op.run cx db).head k id = db.head k id ∨ Waits (op.run cx db) k id := by
  obtain ⟨n, hw⟩ := LocalOp.run_all cx op db
  have hwr := hw.heads k id
  generalize hold : db.head k id = old at hwr
  generalize hnew : (op.run cx db).head k id = new at hwr
  cases hwr with
  | same => exact .inl rfl
  | created | rewritten => exact .inr (waits_of_head hnew rfl)

theorem Sound.waits (h : Sound device f) (call : FlightCall)
    (hw : (f.step device call).ClockLeft) (hr : f.db.row k id = some r) (hd : r.dirty = true) :
    Waits (f.step device call).db k id ∨ Answered f k id r call := by
  have here : Waits f.db k id := ⟨r, hr, hd⟩
  have hh : f.db.head k id = some r.head := Db.head_eq_some.mpr ⟨r, hr, rfl⟩
  have same : ∀ db' : Db, db'.rows = f.db.rows → Waits db' k id := by
    intro db' hrows
    exact ⟨r, by rw [row_of_rows_eq hrows, hr], hd⟩
  cases call with
  | take vault limit | takeManifest vault => exact .inl here
  | acknowledge n accepted =>
    have hhead : (f.step device (.acknowledge n accepted)).db.head k id =
        some (markAll (Engine.pushedOf (f.request n) accepted) k id r.head) := by
      show (UwuRdp.markPushed f.db _).1.head k id = _
      rw [head_markPushed, hh, Option.map_some]
    rcases @dirty_markAll k id (Engine.pushedOf (f.request n) accepted) r.head hd with hm | ⟨p, hp, rfl, rfl, hc⟩
    · exact .inl (waits_of_head hhead hm)
    · -- The clock is that of a record of the request, and so is the version.
      obtain ⟨env, he, hkind, hid, hclock, hword⟩ := mem_pushedOf hp
      have hleft : f.ClockLeft := by
        have hrest := markPushed_rest (Engine.pushedOf (f.request n) accepted) f.db
        unfold ClockLeft at hw ⊢
        rw [← hrest.clockWallMs]
        exact hw
      refine .inr (.pushed he hkind hid ?_ hword)
      refine (h.unchanged hleft n env he r.head ?_ hd (hc.trans hclock.symm)).symm
      rw [hkind, hid]
      exact hh
  | store call unmarked =>
    cases call with
    | edit cx op =>
      rcases edit_waits { cx with device } op f.db k id with he | hwait
      · exact .inl (waits_of_head (he.trans hh) hd)
      · exact .inl hwait
    | apply vault now envs =>
      rcases @applied_of_commit device f.db _ vault now envs with he | ⟨v, db₁, rfl, happ, -, hrows⟩
      · exact .inl (same _ (congrArg Db.rows he))
      · rcases happ.waits hr with ⟨n, hr'⟩ | ⟨env, he, hover⟩
        · exact .inl ⟨{ r with serverSeq := n }, (row_of_rows_eq hrows k id).trans hr', hd⟩
        · exact Or.inr (.overruled (mem_applySort.mp he) hover)
    | markPushed records => exact absurd rfl (unmarked records)
    | refreshManifest cx =>
      left
      show Waits (Session.run f.db (UwuRdp.refreshManifest { cx with device })).2 k id
      rcases refreshManifest_spec { cx with device } f.db with he | ⟨now, m, he⟩
      · rw [he]
        exact here
      · rw [he]
        by_cases hid : k = .manifest ∧ id = Platform.manifestId f.db.vaultId device
        · obtain ⟨rfl, rfl⟩ := hid
          exact ⟨_, Db.row_setRow_self .., rfl⟩
        · exact ⟨r, by rw [Db.row_setRow_ne hid]; exact hr, hd⟩
    | checkManifests | noteIncompletePull => exact .inl (same _ rfl)
    | setManifestFloor floor =>
      left
      show Waits (UwuRdp.setManifestFloor f.db floor) k id
      obtain ⟨violations, he⟩ := setManifestFloor_eq f.db floor
      rw [he]
      exact same _ rfl
    | setSyncCursor cursor => exact .inl (same _ rfl)

end Steps

end Flight

/-- **An edit waits until it is answered.** However edits, requests, acknowledgements and records of
the server interleave: an edit makes the rows it writes wait, and a row that waits does so after
whatever happens next, unless that is the acknowledgement of a request that carried the version the
row has, or a record of the server that has this version or is preferred to it, or takes a host
key's address and port. -/
theorem waits_until_answered [Platform] (device : UInt32) (vaultId : Uuid)
    (calls : List FlightCall) (call : FlightCall) (k : EntityKind) (id : Uuid)
    (hwall : ((Flight.run device ⟨Db.fresh vaultId, []⟩ calls).step device call).ClockLeft) :
    (∀ r, (Flight.run device ⟨Db.fresh vaultId, []⟩ calls).db.row k id = some r → r.dirty = true →
      Flight.Waits ((Flight.run device ⟨Db.fresh vaultId, []⟩ calls).step device call).db k id ∨
        Flight.Answered (Flight.run device ⟨Db.fresh vaultId, []⟩ calls) k id r call) ∧
      ∀ cx op unmarked, call = .store (.edit cx op) unmarked →
        ((Flight.run device ⟨Db.fresh vaultId, []⟩ calls).step device call).db.head k id =
            (Flight.run device ⟨Db.fresh vaultId, []⟩ calls).db.head k id ∨
          Flight.Waits ((Flight.run device ⟨Db.fresh vaultId, []⟩ calls).step device call).db k id := by
  have hsound := Flight.sound_run (Flight.sound_fresh device vaultId) calls
  refine ⟨fun r hr hd => hsound.waits call hwall hr hd, ?_⟩
  rintro cx op unmarked rfl
  exact Flight.edit_waits { cx with device } op _ k id

/-- A group that is renamed while its creation is under way. -/
def renamedInFlight : List FlightCall :=
  [.store (.edit deviceOne (.createGroup .priv ['a'])) (by simp), .take ⟨1, 7⟩ maxBatch,
    .store (.edit deviceOne (.renameGroup .priv ['a'] ['b'])) (by simp)]

/-- The server accepts the creation, and the new name still waits. -/
theorem waits_until_answered_renamed :
    letI := asciiPlatform
    (Flight.run 1 ⟨Db.fresh 1, []⟩ renamedInFlight).request 0 ≠ [] ∧
      Flight.Waits ((Flight.run 1 ⟨Db.fresh 1, []⟩ renamedInFlight).step 1
        (.acknowledge 0 [⟨101, 5⟩])).db .group 101 := by
  let _ := asciiPlatform
  refine ⟨by decide +kernel, ?_⟩
  have hrow : ∃ r, (Flight.run 1 ⟨Db.fresh 1, []⟩ renamedInFlight).db.row .group 101 = some r ∧
      r.dirty = true ∧ ∀ env ∈ (Flight.run 1 ⟨Db.fresh 1, []⟩ renamedInFlight).request 0,
        env.version ≠ r.version := by
    refine ⟨⟨⟨1000, 1, 1⟩, false, true, 0, ⟨.priv, ['b'], 0, none, none, []⟩⟩, ?_⟩
    decide +kernel
  obtain ⟨r, hr, hd, hv⟩ := hrow
  rcases (waits_until_answered 1 1 renamedInFlight (.acknowledge 0 [⟨101, 5⟩]) .group 101
    (by unfold Flight.ClockLeft; decide +kernel)).1 r hr hd with hw | ha
  · exact hw
  · cases ha with
    | pushed sent _ _ version => exact absurd version (hv _ sent)

/-- The host key of another device for the machine this device trusted a key of. -/
def rivalKey : Envelope :=
  sealedAt 1500 6 .knownHost false (.knownHost ⟨['h'], 22, ['e'], ['y'], ['y'], 0, []⟩) 1

/-- The key trusted here is gone before it was pushed, and no version of it ever came back. -/
theorem key_gone_unpushed :
    letI := asciiPlatform
    ¬∀ (device : UInt32) (vaultId : Uuid) (calls : List FlightCall) (call : FlightCall)
      (k : EntityKind) (id : Uuid) (r : Row (Body k)),
      (Flight.run device ⟨Db.fresh vaultId, []⟩ calls).db.row k id = some r → r.dirty = true →
      Flight.Waits ((Flight.run device ⟨Db.fresh vaultId, []⟩ calls).step device call).db k id ∨
        (∃ n accepted, call = .acknowledge n accepted) ∨
        ∃ v now envs unmarked, call = .store (.apply (some v) now envs) unmarked ∧
          ∃ env ∈ envs, env.kind = k ∧ env.id = id := by
  let _ := asciiPlatform
  intro hall
  have hrow : ∃ r, (Flight.run 1 ⟨Db.fresh 1, []⟩ [.store (.edit deviceOne
      (.trustHostKey ['h'] 22 ['e'] ['x'] ['x'])) (by simp)]).db.row .knownHost 101 = some r ∧
      r.dirty = true := by
    refine ⟨⟨⟨1000, 0, 1⟩, false, true, 0, ⟨['h'], 22, ['e'], ['x'], ['x'], 1000, []⟩⟩, ?_⟩
    decide +kernel
  obtain ⟨r, hr, hd⟩ := hrow
  rcases hall 1 1 _ (.store (.apply (some ⟨1, 7⟩) 1000 [rivalKey]) (by simp)) .knownHost 101 r hr hd
    with ⟨r', hr', -⟩ | ⟨n, accepted, h⟩ | ⟨v, now, envs, unmarked, h, env, he, -, hid⟩
  · have hgone : ((Flight.run 1 ⟨Db.fresh 1, []⟩ [.store (.edit deviceOne
        (.trustHostKey ['h'] 22 ['e'] ['x'] ['x'])) (by simp)]).step 1
          (.store (.apply (some ⟨1, 7⟩) 1000 [rivalKey]) (by simp))).db.row .knownHost 101 = none := by
      decide +kernel
    rw [hgone] at hr'
    cases hr'
  · cases h
  · cases h
    rw [List.mem_singleton] at he
    subst he
    exact absurd hid (by decide)

end UwuRdp
