import UwuRdp.Lib.Steps
import UwuRdp.Sync.Turns

/-!
# Passes and accounts

The worker's passes, the commands that take the connection they use, and the commands that leave and join accounts,
thread by thread. A pass reads what this device is paired with before it begins, and keeps its connection to the end;
what it may do to the store in between is any step of its script. The move to UwULock takes the flag of the passes,
the other commands that leave or join do not.
-/

namespace UwuRdp

open Lib

namespace Passes

/-- Who a device syncs with: an account of a UwUSync server, or a space of a UwULock one. -/
inductive Account where
  | uwuSync (account : Uuid)
  | uwuLock (space : Uuid)
deriving DecidableEq

/-- The commands that leave and join accounts, with what the network and the person bring. -/
inductive Change where
  /-- `sync_connect` and `sync_sso_create` -/
  | connect (e : Enrolment) (header : VaultHeader)
  /-- `sync_join` and `sync_sso_join` -/
  | join (e : Enrolment) (header : VaultHeader) (key : VaultKey) (floor : Option ManifestFloor)
  /-- `sync_disconnect`, with the vault wrapped without the account key -/
  | disconnect (header : VaultHeader)
  /-- `lock_sign_in` -/
  | signIn (fault : LockStatement → Bool) (space : Space) (w : LockStore.Wrapping) (e : LockEnrolment)
  /-- `lock_move` -/
  | move (fault : LockStatement → Bool) (space : Space) (w : LockStore.Wrapping) (e : LockEnrolment)
  /-- `lock_sign_out` -/
  | signOut (fault : LockStore.LeaveStatement → Bool)

/-- What a connection is taken for. -/
inductive Purpose where
  | pass
  /-- A command that syncs nothing, as listing the devices. -/
  | call
  /-- To tell the server that this device leaves. -/
  | leave (header : VaultHeader)
  | move (fault : LockStatement → Bool) (space : Space) (w : LockStore.Wrapping) (e : LockEnrolment)

/-- How far a thread is, between two of its steps. -/
inductive Phase where
  /-- A pass, before `lock_state` is read -/
  | deciding
  /-- `server` or `connection`, before the kept connection is looked at -/
  | taking (purpose : Purpose) (onLock : Bool)
  /-- No connection is kept; before the pairing is read -/
  | reading (purpose : Purpose) (onLock : Bool)
  /-- Before the keys of the pairing are opened -/
  | unsealing (purpose : Purpose) (account : Uuid)
  | connecting (purpose : Purpose) (account : Account)
  /-- `sync_once` over a connection; whether its request is on the way -/
  | working (purpose : Purpose) (account : Account) (left : Pass Withheld) (sent : Bool)
  /-- A pass is over: whether it was on UwULock, and if it failed, whether the session had ended -/
  | ending (onLock : Bool) (failure : Option Bool)
  | dropping (onLock : Bool) (failure : Option Bool)
  /-- A command that leaves or joins, before it looks whether it may -/
  | checking (c : Change)
  /-- Before what the server and the password say -/
  | asking (c : Change)
  /-- The move waits for a pass to finish. -/
  | waiting (fault : LockStatement → Bool) (space : Space) (w : LockStore.Wrapping) (e : LockEnrolment)
  | preparing (c : Change)
  /-- Before the store changes who this device is paired with -/
  | committing (c : Change)
  | settling (c : Change)
  /-- Before the kept connection is dropped -/
  | clearing (c : Change)
  /-- Before the new connection is kept -/
  | caching (c : Change)
  | ended

/-- The app: the store, the kept connections by what they are signed in to, and the threads. -/
structure Desk where
  shared : Shared
  server : Option Uuid
  lock : Option Uuid
  running : Bool
  calls : List Phase

/-- What the system and the network make of a step. -/
inductive Outcome where
  | ok
  | failed
  /-- What was sealed will never open here. -/
  | lost
deriving DecidableEq

inductive Answered where
  | pushed (answer : Except TransportError PushResponse)
  | pulled (answer : Except TransportError (PullResponse × Bool))

inductive Move where
  | startPass
  | startCall (onLock : Bool)
  | start (c : Change)
  /-- A thread goes on. -/
  | go (call : ℕ) (outcome : Outcome)
  /-- Its server answers. -/
  | answer (call : ℕ) (answer : Answered)
  /-- Records are edited, the vault is locked or unlocked. -/
  | edit (db : Db) (vault : Option UnlockedVault)
  /-- The app ends and starts again. -/
  | restart

namespace Desk

variable (s : Desk)

def db : Db := s.shared.db

def account : Option Account :=
  if s.db.lock.active then s.db.lock.spaceId.map .uwuLock else s.db.enrolment.map fun e => .uwuSync e.accountId

def put (call : ℕ) (phase : Phase) : Desk := { s with calls := s.calls.set call phase }

def begin (phase : Phase) : Desk := { s with calls := s.calls ++ [phase] }

def withShared (shared : Shared) : Desk := { s with shared }

/-- A call of the store without what it keeps of UwULock. -/
def onStore (f : Store → Store) : Desk :=
  let store := f s.shared.store.toStore
  s.withShared { s.shared with store := ⟨{ s.shared.store.kept with db := store.db }, store.vault⟩ }

def onLockStore (store : LockStore) : Desk := s.withShared { s.shared with store }

def kept (onLock : Bool) : Option Account := if onLock then s.lock.map .uwuLock else s.server.map .uwuSync

def keep : Account → Desk
  | .uwuSync account => { s with server := some account }
  | .uwuLock space => { s with lock := some space }

end Desk

section Step

variable [Platform] (cx : Session) (turns : ℕ) (s : Desk) (call : ℕ) (outcome : Outcome)

def obtained (account : Account) : Purpose → Desk
  | .pass => s.put call (.working .pass account (Turns.syncOnce cx turns) false)
  | .move fault space w e => s.put call (.working (.move fault space w e) account (Turns.syncOnce cx turns) false)
  | .call => s.put call .ended
  | .leave header => s.put call (.preparing (.disconnect header))

def missed (onLock signIn : Bool) : Purpose → Desk
  | .pass => s.put call (.ending onLock (some signIn))
  | .move .. => { s with running := false }.put call .ended
  | .call => s.put call .ended
  -- The server cannot be told, and this device leaves all the same.
  | .leave header => s.put call (.preparing (.disconnect header))

/-- What is needed for a connection is read from the store. -/
def read (purpose : Purpose) (onLock : Bool) : Desk :=
  if onLock then
    match s.db.lock.active, s.db.lock.spaceId with
    | true, some space =>
      if s.shared.store.kept.refreshToken.isSome then s.put call (.connecting purpose (.uwuLock space))
      else missed s call true true purpose
    | _, _ => missed s call true false purpose
  else
    match s.db.enrolment with
    | some e => s.put call (.unsealing purpose e.accountId)
    | none => missed s call false false purpose

/-- `enrolment_keys`: a pairing whose keys are lost is forgotten. -/
def openKeys (purpose : Purpose) (account : Uuid) : Desk :=
  match s.db.enrolment, outcome with
  | none, _ | _, .failed => missed s call false false purpose
  | some _, .lost => missed (s.onStore Store.forgetEnrolment) call false false purpose
  | some _, .ok => s.put call (.connecting purpose (.uwuSync account))

def finished (account : Account) (result : Except SyncError Withheld) : Purpose → Desk
  | .move fault space w e =>
    match result with
    | .ok _ => s.put call (.preparing (.move fault space w e))
    | .error _ => { s with running := false }.put call .ended
  | _ =>
    let onLock := match account with | .uwuLock _ => true | .uwuSync _ => false
    let failure := match result with
      | .ok _ => none
      | .error (.transport .signIn) => some true
      | .error _ => some false
    s.put call (.ending onLock failure)

/-- One step of a script. A request is sent, and then answered. -/
def work (purpose : Purpose) (account : Account) (sent : Bool) : Pass Withheld → Desk
  | .done withheld => finished s call account (.ok withheld) purpose
  | .stop e => finished s call account (.error e) purpose
  | .act change next =>
    (s.withShared (change s.shared)).put call (.working purpose account (next s.shared) false)
  | .ask q next =>
    if sent then s else s.put call (.working purpose account (.ask q next) true)

/-- Whether a command may leave or join: the first thing it looks at. -/
def allowed : Change → Bool
  | .connect .. | .join .. => s.db.enrolment.isNone && !s.db.lock.active
  | .disconnect .. | .move .. => s.db.enrolment.isSome
  | .signIn .. => s.db.enrolment.isNone
  | .signOut .. => s.db.lock.active

def ask (c : Change) : Desk :=
  if outcome ≠ .ok then s.put call .ended
  else
    match c with
    | .disconnect header => s.put call (.taking (.leave header) false)
    | .move fault space w e => s.put call (.waiting fault space w e)
    | c => s.put call (.preparing c)

/-- A command that gives up; the move lets go of the flag it took. -/
def giveUp : Change → Desk
  | .move .. => { s with running := false }.put call .ended
  | _ => s.put call .ended

/-- What comes before the change: the vault is wrapped again, the account's is adopted, everything is copied. -/
def prepare (c : Change) : Desk :=
  if outcome ≠ .ok then giveUp s call c
  else
    match c with
    | .join _ header key _ =>
      match s.shared.store.toStore.adoptVault header key with
      | .error _ => s.put call .ended
      | .ok store => (s.onStore fun _ => store).put call (.committing c)
    | .disconnect header =>
      (s.onStore fun store => { store with db := { store.db with header := some header } }).put call (.committing c)
    | c => s.put call (.committing c)

def commit (c : Change) : Desk :=
  if outcome ≠ .ok then giveUp s call c
  else
    match c with
    | .connect e _ | .join e _ _ _ => (s.onStore fun store => store.saveEnrolment e).put call (.settling c)
    | .disconnect _ => (s.onStore Store.forgetEnrolment).put call (.clearing c)
    | .signIn fault space w e =>
      match LockStore.joinSpace fault space w .signIn e s.shared.store with
      | (.error _, store) => (s.onLockStore store).put call .ended
      | (.ok (), store) => (s.onLockStore store).put call (.caching c)
    | .move fault space w e =>
      match LockStore.joinSpace fault space w .moved e s.shared.store with
      | (.error _, store) => giveUp (s.onLockStore store) call c
      | (.ok (), store) => (s.onLockStore store).put call (.settling c)
    | .signOut fault =>
      match LockStore.leaveLock fault s.shared.store with
      | (.error _, store) => (s.onLockStore store).put call .ended
      | (.ok (), store) => (s.onLockStore store).put call (.clearing c)

def settle (c : Change) : Desk :=
  match c with
  | .connect _ header =>
    match outcome, s.shared.store.toStore.keepVaultHeader header with
    | .ok, .ok store => (s.onStore fun _ => store).put call (.caching c)
    | _, _ => s.put call .ended
  | .join _ _ _ floor =>
    if outcome = .ok then
      (s.onStore fun store => { store with db := { store.db with floor } }).put call (.caching c)
    else s.put call .ended
  | .move .. => { s with running := false }.put call (.clearing c)
  | c => s.put call (.clearing c)

def clear : Change → Desk
  | .signOut _ => { s with lock := none }.put call .ended
  | .move fault space w e => { s with server := none }.put call (.caching (.move fault space w e))
  | _ => { s with server := none }.put call .ended

def cache : Change → Desk
  | .connect e _ | .join e _ _ _ => { s with server := some e.accountId }.put call .ended
  | .signIn _ space _ _ | .move _ space _ _ => { s with lock := some space.id }.put call .ended
  | _ => s.put call .ended

def proceed : Phase → Desk
  | .deciding => s.put call (.taking .pass s.db.lock.active)
  | .taking purpose onLock =>
    match s.kept onLock with
    | some account => obtained cx turns s call account purpose
    | none => s.put call (.reading purpose onLock)
  | .reading purpose onLock => read s call purpose onLock
  | .unsealing purpose account => openKeys s call outcome purpose account
  | .connecting purpose account =>
    if outcome = .ok then obtained cx turns (s.keep account) call account purpose
    else missed s call (match account with | .uwuLock _ => true | .uwuSync _ => false) false purpose
  | .working purpose account left sent => work s call purpose account sent left
  | .ending onLock failure => { s with running := false }.put call (.dropping onLock failure)
  | .dropping onLock failure =>
    let ended := onLock && failure == some true
    { s with
      -- `session_ended`
      shared := if ended then { s.shared with store := { s.shared.store with
        kept := { s.shared.store.kept with refreshToken := none } } } else s.shared
      lock := if ended then none else s.lock
      server := if failure.isSome then none else s.server }.put call .ended
  | .checking c => s.put call (if allowed s c then .asking c else .ended)
  | .asking c => ask s call outcome c
  | .waiting fault space w e =>
    if outcome = .failed then s.put call .ended
    else if s.running then s
    else { s with running := true }.put call (.taking (.move fault space w e) false)
  | .preparing c => prepare s call outcome c
  | .committing c => commit s call outcome c
  | .settling c => settle s call outcome c
  | .clearing c => clear s call c
  | .caching c => cache s call c
  | .ended => s

def answered (purpose : Purpose) (account : Account) : Pass Withheld → Answered → Desk
  | .ask (.push _) next, .pushed a => s.put call (.working purpose account (next a) false)
  | .ask (.pull _) next, .pulled a => s.put call (.working purpose account (next a) false)
  | _, _ => s

def step (s : Desk) : Move → Desk
  | .startPass => if s.running then s else { s with running := true }.begin .deciding
  | .startCall onLock => s.begin (.taking .call onLock)
  | .start c => s.begin (.checking c)
  | .go call outcome =>
    match s.calls[call]? with
    | some phase => proceed cx turns s call outcome phase
    | none => s
  | .answer call answer =>
    match s.calls[call]? with
    | some (.working purpose account left true) => answered s call purpose account left answer
    | _ => s
  | .edit db vault =>
    s.onStore fun _ => ⟨{ db with enrolment := s.db.enrolment, lock := s.db.lock }, vault⟩
  | .restart => { s with server := none, lock := none, running := false, calls := [] }

def fresh (vaultId : Uuid) : Desk :=
  ⟨⟨⟨⟨Db.fresh vaultId, none, none, none, Table.empty⟩, none⟩, 0⟩, none, none, false, []⟩

end Step

/-! ## One at a time -/

def Purpose.holds : Purpose → Bool
  | .pass | .move .. => true
  | .call | .leave _ => false

def Change.holds : Change → Bool
  | .move .. => true
  | _ => false

/-- The thread has the flag `running`: a pass until it is over, the move from the pass it makes to the switch. -/
def Phase.holds : Phase → Bool
  | .deciding | .working .. | .ending .. => true
  | .taking p _ | .reading p _ | .unsealing p _ | .connecting p _ => p.holds
  | .preparing c | .committing c | .settling c => c.holds
  | _ => false

/-- As many threads have the flag as it is set. -/
def Desk.Exclusive (s : Desk) : Prop := s.calls.countP Phase.holds = s.running.toNat

section Exclusive

variable {s s' : Desk} {call : ℕ} {phase phase' : Phase} {left : Pass Withheld} {sent : Bool}

/-- The thread does nothing, or goes on with the flag as it was, or lets go of it, or sets it. -/
def Handed (s : Desk) (call : ℕ) (phase : Phase) (s' : Desk) : Prop :=
  s'.calls = s.calls ∧ s'.running = s.running ∨ ∃ phase', s'.calls = s.calls.set call phase' ∧
    (phase'.holds = phase.holds ∧ s'.running = s.running ∨
      phase.holds = true ∧ phase'.holds = false ∧ s'.running = false ∨
      phase.holds = false ∧ phase'.holds = true ∧ s.running = false ∧ s'.running = true)

theorem Desk.Exclusive.handed (h : s.Exclusive) (hi : s.calls[call]? = some phase) (hg : Handed s call phase s') :
    s'.Exclusive := by
  obtain ⟨hcalls, hrunning⟩ | ⟨phase', hcalls, hflag⟩ := hg
  · rw [Desk.Exclusive, hcalls, hrunning]
    exact h
  obtain ⟨hlt, rfl⟩ := List.getElem?_eq_some_iff.mp hi
  have hpos : s.calls[call].holds = true → 0 < s.calls.countP Phase.holds := fun hp =>
    List.countP_pos_iff.mpr ⟨_, List.getElem_mem hlt, hp⟩
  unfold Desk.Exclusive at h ⊢
  rw [hcalls, List.countP_set hlt]
  rcases hflag with ⟨hphase, hrunning⟩ | ⟨hp, hp', hrunning⟩ | ⟨hp, hp', hfree, hrunning⟩
  · rw [hphase, hrunning, ← h]
    by_cases hp : s.calls[call].holds = true
    · have := hpos hp
      simp only [hp, if_true]
      omega
    · simp [hp]
  · have := hpos hp
    have := s.running.toNat_le
    simp only [hp, hp', hrunning, if_true, Bool.false_eq_true, if_false, Bool.toNat_false]
    omega
  · simp [hp, hp', hrunning, h, hfree]

theorem Handed.same (hcalls : s'.calls = s.calls.set call phase') (hphase : phase'.holds = phase.holds)
    (hrunning : s'.running = s.running) : Handed s call phase s' :=
  .inr ⟨phase', hcalls, .inl ⟨hphase, hrunning⟩⟩

theorem Handed.letGo (hphase : phase.holds = true) : Handed s call phase ({ s with running := false }.put call .ended) :=
  .inr ⟨.ended, rfl, .inr (.inl ⟨hphase, rfl, rfl⟩)⟩

theorem handed_missed {p : Purpose} (h : phase.holds = p.holds) (onLock signIn : Bool) :
    Handed s call phase (missed s call onLock signIn p) := by
  cases p with
  | move => exact .letGo h
  | _ => exact .same rfl h.symm rfl

theorem handed_giveUp {c : Change} (h : phase.holds = c.holds) : Handed s call phase (giveUp s call c) := by
  cases c with
  | move => exact .letGo h
  | _ => exact .same rfl h.symm rfl

theorem handed_finished (account : Account) (result : Except SyncError Withheld) (p : Purpose) :
    Handed s call (.working p account left sent) (finished s call account result p) := by
  cases p with
  | move =>
    cases result with
    | ok => exact .same rfl rfl rfl
    | error => exact .letGo rfl
  | _ => exact .same rfl rfl rfl

variable [Platform] {cx : Session} {turns : ℕ} {outcome : Outcome}

theorem handed_obtained {p : Purpose} (h : phase.holds = p.holds) (account : Account) :
    Handed s call phase (obtained cx turns s call account p) := by
  cases p <;> exact .same rfl h.symm rfl

theorem handed_proceed : Handed s call phase (proceed cx turns s call outcome phase) := by
  cases phase with
  | deciding => exact .same rfl rfl rfl
  | taking purpose onLock =>
    rw [proceed]
    split
    · exact handed_obtained rfl _
    · exact .same rfl rfl rfl
  | reading purpose onLock =>
    rw [proceed, read]
    split
    · split
      · split
        · exact .same rfl rfl rfl
        · exact handed_missed rfl _ _
      · exact handed_missed rfl _ _
    · split
      · exact .same rfl rfl rfl
      · exact handed_missed rfl _ _
  | unsealing purpose account =>
    unfold proceed openKeys
    dsimp only
    split
    · exact handed_missed rfl _ _
    · exact handed_missed rfl _ _
    · exact handed_missed (s := s.onStore _) rfl _ _
    · exact .same rfl rfl rfl
  | connecting purpose account =>
    unfold proceed
    dsimp only
    split
    · cases account <;> exact handed_obtained (s := s.keep _) rfl _
    · exact handed_missed rfl _ _
  | working purpose account left sent =>
    unfold proceed work
    dsimp only
    split
    · exact handed_finished _ _ _
    · exact handed_finished _ _ _
    · exact .same rfl rfl rfl
    · split
      · exact .inl ⟨rfl, rfl⟩
      · exact .same rfl rfl rfl
  | ending onLock failure => exact .inr ⟨_, rfl, .inr (.inl ⟨rfl, rfl, rfl⟩)⟩
  | dropping onLock failure => exact .same rfl rfl rfl
  | checking c =>
    rw [proceed]
    split <;> exact .same rfl rfl rfl
  | asking c =>
    unfold proceed ask
    dsimp only
    split
    · exact .same rfl rfl rfl
    · cases c <;> exact .same rfl rfl rfl
  | waiting fault space w e =>
    rw [proceed]
    split
    · exact .same rfl rfl rfl
    split
    · exact .inl ⟨rfl, rfl⟩
    · next hfree => exact .inr ⟨_, rfl, .inr (.inr ⟨rfl, rfl, Bool.eq_false_of_not_eq_true hfree, rfl⟩)⟩
  | preparing c =>
    unfold proceed prepare
    dsimp only
    split
    · exact handed_giveUp rfl
    split
    · split <;> exact .same rfl rfl rfl
    · exact .same rfl rfl rfl
    · exact .same rfl rfl rfl
  | committing c =>
    unfold proceed commit
    dsimp only
    split
    · exact handed_giveUp rfl
    cases c with
    | move fault space w e =>
      dsimp only
      split
      · exact handed_giveUp (s := s.onLockStore _) rfl
      · exact .same rfl rfl rfl
    | connect | join | disconnect => exact .same rfl rfl rfl
    | signIn | signOut =>
      dsimp only
      split <;> exact .same rfl rfl rfl
  | settling c =>
    unfold proceed settle
    cases c with
    | move => exact .inr ⟨_, rfl, .inr (.inl ⟨rfl, rfl, rfl⟩)⟩
    | connect | join =>
      dsimp only
      split <;> exact .same rfl rfl rfl
    | _ => exact .same rfl rfl rfl
  | clearing c | caching c => cases c <;> exact .same rfl rfl rfl
  | ended => exact .inl ⟨rfl, rfl⟩

theorem Desk.Exclusive.step (h : s.Exclusive) (m : Move) : (step cx turns s m).Exclusive := by
  cases m with
  | startPass =>
    show (if s.running then s else _ : Desk).Exclusive
    split
    · exact h
    · next hfree =>
      have hnone : s.calls.countP Phase.holds = 0 := by
        rw [h, Bool.eq_false_of_not_eq_true hfree]
        rfl
      show (s.calls ++ [Phase.deciding]).countP Phase.holds = 1
      rw [List.countP_append, hnone]
      rfl
  | startCall | start =>
    show (s.calls ++ [_]).countP Phase.holds = s.running.toNat
    rw [List.countP_append, h]
    rfl
  | go call outcome =>
    unfold Passes.step
    dsimp only
    split
    · next phase hi => exact h.handed hi handed_proceed
    · exact h
  | answer call answer =>
    unfold Passes.step answered
    dsimp only
    split
    · next hi => split <;> first | exact h.handed hi (.same rfl rfl rfl) | exact h
    · exact h
  | edit | restart => first | exact h | rfl

/-- **No two at once.** At every moment of every interleaving at most one thread is in a pass or in the copying of a
move, and the flag is set exactly while one is. -/
theorem one_pass_at_once (vaultId : Uuid) (moves : List Move) :
    let s := Steps.run (step cx turns) (fresh vaultId) moves
    (∀ (i j : ℕ) (p q : Phase), s.calls[i]? = some p → s.calls[j]? = some q → p.holds = true → q.holds = true → i = j) ∧
      (s.running = true ↔ ∃ p ∈ s.calls, p.holds = true) := by
  intro s
  have h : s.Exclusive := (Steps.along_of_forall (P := fun _ _ => True) (fun _ _ => trivial) _ moves).invariant
    (I := Desk.Exclusive) rfl fun _ m h _ => h.step m
  have hle := s.running.toNat_le
  unfold Desk.Exclusive at h
  constructor
  · intro i j p q hi hj hp hq
    by_contra hne
    obtain ⟨hlt, rfl⟩ := List.getElem?_eq_some_iff.mp hi
    -- Without the one there would still be the other.
    have hset := List.countP_set (p := Phase.holds) (a := .ended) hlt
    have hpos : 0 < (s.calls.set i .ended).countP Phase.holds :=
      List.countP_pos_iff.mpr ⟨q, List.mem_of_getElem? ((List.getElem?_set_ne hne).trans hj), hq⟩
    simp only [hp, if_true, show Phase.ended.holds = false from rfl, Bool.false_eq_true, if_false] at hset
    omega
  · rw [← List.countP_pos_iff, h]
    cases s.running <;> simp

end Exclusive


end Passes

end UwuRdp
