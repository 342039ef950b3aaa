import UwuRdp.Lib.Script
import UwuRdp.Store.Runs
import UwuRdp.Store.Space
import UwuRdp.Sync.Engine

/-!
# A pass among others

The pass of `Engine` once more, as the script of its store calls and requests: each store call is one step, and
between two of them other threads may use the store.
-/

namespace UwuRdp

open Lib

/-- What the threads of the app share of the store, and how often the system was asked. -/
structure Shared where
  store : LockStore
  asked : ℕ

namespace Shared

variable (s : Shared)

def db : Db := s.store.kept.db

def withDb (db : Db) : Shared := { s with store := { s.store with kept := { s.store.kept with db } } }

@[simp] theorem withDb_db (db : Db) : (s.withDb db).db = db := rfl

end Shared

/-- What a pass asks its server for; a pull also says whether to start over. -/
inductive Ask where
  | push (envelopes : List Envelope)
  | pull (cursor : ℕ)

abbrev Ask.Answer : Ask → Type
  | push _ => Except TransportError PushResponse
  | pull _ => Except TransportError (PullResponse × Bool)

abbrev Pass := Script Shared Ask Ask.Answer SyncError

namespace Turns

variable [Platform]

def session (cx : Session) (s : Shared) : Session := { cx with vault := s.store.vault }

def orStop {α : Type} : Except SyncError α → Pass α
  | .ok a => pure a
  | .error e => .stop e

def answered {α : Type} : Except TransportError α → Pass α
  | .ok a => pure a
  | .error e => .stop (.transport e)

/-- `apply_envelopes` -/
def applied (cx : Session) (envelopes : List Envelope) (s : Shared) : Except SyncError ApplyReport × Shared :=
  let s := { s with asked := s.asked + 1 }
  match UwuRdp.applyEnvelopes cx.device s.store.vault (cx.now (s.asked - 1)) envelopes s.db with
  | .error e => (.error (.ofStore e), s)
  | .ok (report, db) => (.ok report, s.withDb db)

def applyEnvelopes (cx : Session) (envelopes : List Envelope) : Pass ApplyReport := do
  let result ← Script.call (applied cx envelopes)
  orStop result

/-- `mark_pushed` -/
def marked (records : List Pushed) (s : Shared) : ℕ × Shared :=
  ((UwuRdp.markPushed s.db records).2, s.withDb (UwuRdp.markPushed s.db records).1)

def setSyncCursor (cursor : ℕ) : Pass Unit := Script.change fun s => s.withDb (UwuRdp.setSyncCursor s.db cursor)

def mergeConflicts (cx : Session) (conflicts : List Envelope) : Pass Unit :=
  if conflicts.isEmpty then pure ()
  else do
    let _ ← applyEnvelopes cx conflicts
    pure ()

/-- What is ready to be pushed, and how much is left out. -/
def pending (s : Shared) : Except SyncError (List Envelope × ℕ) :=
  (pendingEnvelopes s.db s.store.vault maxBatch).mapError .ofStore

/-- One batch: the conflicts so far, and whether something moved. -/
def pushTurn (cx : Session) (conflicts : ℕ) : Pass (ℕ × Bool) := do
  let found ← Script.look pending
  let (envelopes, _) ← orStop found
  if envelopes.isEmpty then pure (conflicts, false)
  else do
    let answer ← Script.request (.push envelopes)
    let response ← answered answer
    let accepted := Engine.pushedOf envelopes response.accepted
    let cleared ← Script.call (marked accepted)
    mergeConflicts cx response.conflicts
    pure (conflicts + response.conflicts.length, !(accepted.isEmpty || cleared = 0))

/-- Batches as long as something moves, for so many turns. -/
def pushAll (cx : Session) : ℕ → ℕ → Pass ℕ
  | 0, _ => .stop (.conflictLoop 0)
  | turns + 1, conflicts => do
    let (conflicts, more) ← pushTurn cx conflicts
    if more then pushAll cx turns conflicts else pure conflicts

def pullPages (cx : Session) : ℕ → Pass Bool
  | 0 => pure false
  | pages + 1 => do
    let cursor ← Script.look fun s => s.db.cursor
    let answer ← Script.request (.pull cursor)
    let (page, reset) ← answered answer
    if reset then
      if cursor = 0 then pure false
      else do
        setSyncCursor 0
        pullPages cx pages
    else if page.envelopes.isEmpty then pure true
    else do
      let report ← applyEnvelopes cx page.envelopes
      if report.rejected = page.envelopes.length then pure true
      else if cursor < page.cursor then do
        setSyncCursor page.cursor
        if page.hasMore then pullPages cx pages else pure true
      else pure true

def pullAll (cx : Session) : Pass Bool := pullPages cx maxPages

/-- `check_manifests` -/
def checkManifests : Pass Withheld :=
  Script.call fun s => (UwuRdp.withheld (UwuRdp.checkManifests s.db), s.withDb (UwuRdp.checkManifests s.db))

/-- `note_incomplete_pull` -/
def noteIncompletePull : Pass Withheld :=
  Script.call fun s => (UwuRdp.withheld (UwuRdp.noteIncompletePull s.db), s.withDb (UwuRdp.noteIncompletePull s.db))

def check (cx : Session) (complete : Bool) : Pass Withheld :=
  if !complete then noteIncompletePull
  else do
    let alarmed ← Script.look fun s => Engine.alarmed s.db
    let found ← checkManifests
    if !found.any || alarmed then pure found
    else do
      setSyncCursor 0
      let complete ← pullAll cx
      if complete then checkManifests else noteIncompletePull

/-- `refresh_manifest` -/
def refreshed (cx : Session) (s : Shared) : Except SyncError Unit × Shared :=
  match UwuRdp.refreshManifest (session cx s) ⟨s.db, s.asked⟩ with
  | .error e => (.error (.ofStore e), s)
  | .ok (_, tx) => (.ok (), { s with asked := tx.asked }.withDb tx.db)

def publishManifest (cx : Session) : Pass Bool := do
  let result ← Script.call (refreshed cx)
  orStop result
  let pending ← Script.look fun s => (pendingManifest s.db s.store.vault).mapError SyncError.ofStore
  let pending ← orStop pending
  match pending with
  | none => pure true
  | some manifest => do
    let answer : Except TransportError PushResponse ← Script.request (Ask.push [manifest])
    match answer with
    | .error _ => pure true
    | .ok response => do
      let _ ← Script.call (marked (Engine.pushedManifest manifest response.accepted))
      mergeConflicts cx response.conflicts
      pullAll cx

def settle (cx : Session) (complete : Bool) : Pass Withheld := do
  let complete ← (if complete then publishManifest cx else pure false)
  check cx complete

def rounds (cx : Session) (turns : ℕ) : ℕ → Pass Withheld
  | 0 => .stop (.conflictLoop maxRounds)
  | left + 1 => do
    let conflicts ← pushAll cx turns 0
    let complete ← pullAll cx
    if conflicts = 0 then settle cx complete else rounds cx turns left

/-- `sync_once`, for at most so many batches a round. -/
def syncOnce (cx : Session) (turns : ℕ) : Pass Withheld := rounds cx turns maxRounds

/-! ## What a pass leaves alone -/

/-- The pairing and what is kept of UwULock stay. -/
structure SamePairing (s s' : Shared) : Prop where
  enrolment : s'.db.enrolment = s.db.enrolment
  lock : s'.db.lock = s.db.lock

omit [Platform] in
theorem SamePairing.refl (s : Shared) : SamePairing s s := ⟨rfl, rfl⟩

variable {cx : Session}

theorem samePairing_applied (envelopes : List Envelope) (s : Shared) : SamePairing s (applied cx envelopes s).2 := by
  unfold applied
  dsimp only
  split
  · exact ⟨rfl, rfl⟩
  · next report db h =>
    rcases applyEnvelopes_spec h with ⟨-, rfl⟩ | ⟨vault, out, db₁, -, hall, rfl⟩
    · exact ⟨rfl, rfl⟩
    · have hrest := (applyAll_spec hall).1.rest
      cases out.2 with
      | none | some c => exact ⟨hrest.enrolment, hrest.lock⟩

omit [Platform] in
theorem samePairing_marked (records : List Pushed) (s : Shared) : SamePairing s (marked records s).2 := by
  have hmark : ∀ (records : List Pushed) (db : Db), (UwuRdp.markPushed db records).1.enrolment = db.enrolment ∧
      (UwuRdp.markPushed db records).1.lock = db.lock := by
    intro records
    induction records with
    | nil => exact fun _ => ⟨rfl, rfl⟩
    | cons p rest ih => exact fun db => ih (markOne db p)
  exact ⟨(hmark records s.db).1, (hmark records s.db).2⟩

theorem samePairing_refreshed (s : Shared) : SamePairing s (refreshed cx s).2 := by
  unfold refreshed
  split
  · exact .refl s
  · next u tx h =>
    unfold UwuRdp.refreshManifest at h
    obtain ⟨id, s₁, h₁, h⟩ := Tx.bind_eq_ok.mp h
    cases h₁
    obtain ⟨all, s₂, h₂, h⟩ := Tx.bind_eq_ok.mp h
    cases h₂
    obtain ⟨previous, s₃, h₃, h⟩ := Tx.bind_eq_ok.mp h
    cases h₃
    split at h
    · obtain ⟨-, rfl⟩ := Tx.pure_eq_ok.mp h
      exact .refl s
    · obtain ⟨c, s₄, h₄, h⟩ := Tx.bind_eq_ok.mp h
      cases h₄
      obtain ⟨_, s₅, h₅, h⟩ := Tx.bind_eq_ok.mp h
      cases h₅
      obtain ⟨-, rfl⟩ := Tx.pure_eq_ok.mp h
      exact ⟨rfl, rfl⟩

abbrev Settled {α : Type} (m : Pass α) : Prop := m.Keeps SamePairing

omit [Platform] in
theorem settled_look {α : Type} (f : Shared → α) : Settled (Script.look f) := Script.keeps_look SamePairing.refl f

omit [Platform] in
theorem settled_orStop {α : Type} (result : Except SyncError α) : Settled (orStop result) := by
  cases result <;> trivial

omit [Platform] in
theorem settled_answered {α : Type} (answer : Except TransportError α) : Settled (answered answer) := by
  cases answer <;> trivial

theorem settled_applyEnvelopes (envelopes : List Envelope) : Settled (applyEnvelopes cx envelopes) :=
  (Script.keeps_call (samePairing_applied envelopes)).bind settled_orStop

theorem settled_mergeConflicts (conflicts : List Envelope) : Settled (mergeConflicts cx conflicts) := by
  unfold mergeConflicts
  split
  · trivial
  · exact (settled_applyEnvelopes conflicts).bind fun _ => trivial

omit [Platform] in
theorem settled_setSyncCursor (cursor : ℕ) : Settled (setSyncCursor cursor) :=
  Script.keeps_change fun _ => ⟨rfl, rfl⟩

theorem settled_pushTurn (conflicts : ℕ) : Settled (pushTurn cx conflicts) := by
  refine (settled_look _).bind fun found => (settled_orStop found).bind fun ready => ?_
  dsimp only
  split
  · trivial
  · refine (Script.keeps_request _).bind fun answer => (settled_answered answer).bind fun response => ?_
    refine (Script.keeps_call (samePairing_marked _)).bind fun cleared => ?_
    exact (settled_mergeConflicts _).bind fun _ => trivial

theorem settled_pushAll (turns conflicts : ℕ) : Settled (pushAll cx turns conflicts) := by
  induction turns generalizing conflicts with
  | zero => trivial
  | succ turns ih =>
    refine (settled_pushTurn conflicts).bind fun turn => ?_
    obtain ⟨conflicts', more⟩ := turn
    dsimp only
    split
    · exact ih conflicts'
    · trivial

theorem settled_pullPages (pages : ℕ) : Settled (pullPages cx pages) := by
  induction pages with
  | zero => trivial
  | succ pages ih =>
    refine (settled_look _).bind fun cursor => (Script.keeps_request _).bind fun answer => ?_
    refine (settled_answered answer).bind fun pulled => ?_
    obtain ⟨page, reset⟩ := pulled
    dsimp only
    split
    · split
      · trivial
      · exact (settled_setSyncCursor 0).bind fun _ => ih
    split
    · trivial
    refine (settled_applyEnvelopes _).bind fun report => ?_
    split
    · trivial
    split
    · refine (settled_setSyncCursor _).bind fun _ => ?_
      split
      · exact ih
      · trivial
    · trivial

omit [Platform] in
theorem settled_checkManifests : Settled checkManifests := Script.keeps_call fun _ => ⟨rfl, rfl⟩

omit [Platform] in
theorem settled_noteIncompletePull : Settled noteIncompletePull := Script.keeps_call fun _ => ⟨rfl, rfl⟩

theorem settled_check (complete : Bool) : Settled (check cx complete) := by
  unfold check
  split
  · exact settled_noteIncompletePull
  refine (settled_look _).bind fun alarmed => settled_checkManifests.bind fun found => ?_
  split
  · trivial
  refine (settled_setSyncCursor 0).bind fun _ => (settled_pullPages maxPages).bind fun complete => ?_
  split
  · exact settled_checkManifests
  · exact settled_noteIncompletePull

theorem settled_publishManifest : Settled (publishManifest cx) := by
  refine (Script.keeps_call samePairing_refreshed).bind fun result => (settled_orStop result).bind fun _ => ?_
  refine (settled_look _).bind fun pending => (settled_orStop pending).bind fun pending => ?_
  cases pending with
  | none => trivial
  | some manifest =>
    refine (Script.keeps_request _).bind fun answer => ?_
    cases answer with
    | error e => trivial
    | ok response =>
      refine (Script.keeps_call (samePairing_marked _)).bind fun _ => ?_
      exact (settled_mergeConflicts _).bind fun _ => settled_pullPages maxPages

theorem settled_rounds (turns left : ℕ) : Settled (rounds cx turns left) := by
  induction left with
  | zero => trivial
  | succ left ih =>
    refine (settled_pushAll turns 0).bind fun conflicts => (settled_pullPages maxPages).bind fun complete => ?_
    split
    · refine Script.Keeps.bind ?_ fun complete => settled_check complete
      split
      · exact settled_publishManifest
      · trivial
    · exact ih

theorem settled_syncOnce (turns : ℕ) : Settled (syncOnce cx turns) := settled_rounds turns maxRounds

end Turns

end UwuRdp
