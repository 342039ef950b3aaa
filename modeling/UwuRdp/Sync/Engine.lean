import UwuRdp.Lib.Act
import UwuRdp.Store.KnownHosts

/-!
# One pass of syncing

Hand the server what is here, then take what it has, and go round again while it reports conflicts;
then publish this device's manifest and hold everyone's against what is here. A pass is made of store
calls and requests, each of which is done when the next one starts, so a pass that fails leaves what
it did so far. The server is any party that answers requests.
-/

namespace UwuRdp

open Lib

/-! ## The other side -/

inductive TransportError where
  | refused
  | unreachable
  | signIn
  | switchedOff
deriving DecidableEq

inductive SyncError where
  | vaultLocked
  | store (e : StoreError)
  | transport (e : TransportError)
  | conflictLoop (rounds : ℕ)
deriving DecidableEq

def SyncError.ofStore : StoreError → SyncError
  | .vaultLocked => .vaultLocked
  | e => .store e

/-- What the client needs from a server: it answers from a state of its own. -/
structure Transport (σ : Type) where
  pull : ℕ → ℕ → σ → Except TransportError PullResponse × σ
  push : List Envelope → σ → Except TransportError PushResponse × σ
  /-- Whether the last pull was answered with "start over". Asking clears it. -/
  takeReset : σ → Bool × σ

/-! ## The state of a pass -/

/-- What one pass did. -/
structure SyncReport where
  pulled : ℕ := 0
  pushed : ℕ := 0
  conflicts : ℕ := 0
  rounds : ℕ := 0
  oversized : ℕ := 0
  apply : ApplyReport := {}
  cursor : ℕ := 0
  withheld : Withheld := ⟨0, false⟩
  complete : Bool := false
deriving DecidableEq

/-- What happened in a pass: a page went into the store, a pull had come to the end and the manifests
were checked, or something failed and that was the end of the pass. -/
inductive PassEvent where
  | page (before after : Db)
  | checked
  | stopped (db : Db)

/-- Where a pass is: the database, the server, how often the system was asked, how many requests
went out, what there is to report, and what happened, the last first. -/
structure PassState (σ : Type) where
  db : Db
  server : σ
  asked : ℕ
  requests : ℕ
  report : SyncReport
  events : List PassEvent

def PassState.start {σ : Type} (db : Db) (server : σ) : PassState σ where
  db := db
  server := server
  asked := 0
  requests := 0
  report := {}
  events := []

def maxRounds : ℕ := 3

def maxPages : ℕ := 1000

namespace Engine

variable {σ : Type}

abbrev Pass (σ : Type) := Act (PassState σ) SyncError

def store (f : Db → Db) : Pass σ Unit := Act.modify fun s => { s with db := f s.db }

def look {α : Type} (f : Db → α) : Pass σ α := do
  let s ← Act.get
  pure (f s.db)

def note (f : SyncReport → SyncReport) : Pass σ Unit :=
  Act.modify fun s => { s with report := f s.report }

def log (e : PassEvent) : Pass σ Unit := Act.modify fun s => { s with events := e :: s.events }

/-- `now_ms`. -/
def nowMs (cx : Session) : Pass σ UInt64 := do
  let s ← Act.get
  Act.modify fun s => { s with asked := s.asked + 1 }
  pure (cx.now s.asked)

def request {α : Type} (f : σ → Except TransportError α × σ) : Pass σ (Except TransportError α) := do
  let s ← Act.get
  let answer := f s.server
  Act.modify fun s => { s with server := answer.2, requests := s.requests + 1 }
  pure answer.1

def stop {α : Type} (e : SyncError) : Pass σ α := do
  Act.modify fun s => { s with events := .stopped s.db :: s.events }
  Act.fail e

def orStop {α : Type} : Except TransportError α → Pass σ α
  | .ok a => pure a
  | .error e => stop (.transport e)

/-- `take_reset`. -/
def takeReset (t : Transport σ) : Pass σ Bool := do
  let s ← Act.get
  let answer := t.takeReset s.server
  Act.modify fun s => { s with server := answer.2 }
  pure answer.1

variable [Platform]

/-- `apply_envelopes`: one transaction, which leaves the database as it was if it fails. -/
def applyEnvelopes (cx : Session) (envelopes : List Envelope) : Pass σ ApplyReport := do
  let now ← nowMs cx
  let s ← Act.get
  match UwuRdp.applyEnvelopes cx.device cx.vault now envelopes s.db with
  | .error e => stop (.ofStore e)
  | .ok (applied, db) => do
    store fun _ => db
    note fun r => { r with apply := r.apply.add applied }
    pure applied

/-- What the server accepted of what was sent, by the version that was sent. -/
def pushedOf (sent : List Envelope) (accepted : List Accepted) : List Pushed :=
  accepted.filterMap fun taken =>
    (sent.find? fun env => env.id = taken.id).map fun env =>
      ⟨taken.id, env.kind, env.updatedAt, taken.seq⟩

/-- `mark_pushed`. Says how many rows are still the ones that were pushed. -/
def markPushed (records : List Pushed) : Pass σ ℕ := do
  let s ← Act.get
  let marked := UwuRdp.markPushed s.db records
  store fun _ => marked.1
  pure marked.2

/-- Merge what the server holds instead of what was pushed. -/
def mergeConflicts (cx : Session) (conflicts : List Envelope) : Pass σ Unit :=
  if conflicts.isEmpty then pure ()
  else do
    let _ ← applyEnvelopes cx conflicts
    pure ()

/-- One batch: what is waiting goes out, what the server took is marked, what it holds instead is
merged, which gives the next push the right version to build on. Returns the conflicts so far, and
whether something moved, so that there may be more to push. -/
def pushTurn (cx : Session) (t : Transport σ) (conflicts : ℕ) : Pass σ (ℕ × Bool) := do
  let pending ← look fun db => pendingEnvelopes db cx.vault maxBatch
  match pending with
  | .error e => stop (.ofStore e)
  | .ok (envelopes, oversized) => do
    note fun r => { r with oversized }
    if envelopes.isEmpty then pure (conflicts, false)
    else do
      let answer ← request (t.push envelopes)
      let response ← orStop answer
      let accepted := pushedOf envelopes response.accepted
      let cleared ← markPushed accepted
      note fun r => { r with
        pushed := r.pushed + accepted.length, conflicts := r.conflicts + response.conflicts.length }
      mergeConflicts cx response.conflicts
      pure (conflicts + response.conflicts.length, !(accepted.isEmpty || cleared = 0))

/-- Everything waiting here, in batches, as long as something moves. Returns how many records the
server refused as conflicts. -/
def pushBatches (cx : Session) (t : Transport σ) : ℕ → ℕ → Pass σ ℕ
  | 0, conflicts => pure conflicts
  | turns + 1, conflicts => do
    let turn ← pushTurn cx t conflicts
    if turn.2 then pushBatches cx t turns turn.1 else pure turn.1

/-- Each turn that goes on clears a row, so there are no more turns than rows waiting. -/
def pushAll (cx : Session) (t : Transport σ) : Pass σ ℕ := do
  let waiting ← look pendingCount
  pushBatches cx t (waiting + 1) 0

/-- Everything the server has that this device has not seen, page by page. Returns whether the pull
got to the end of what the server offers. -/
def pullPages (cx : Session) (t : Transport σ) : ℕ → Pass σ Bool
  | 0 => pure false
  | pages + 1 => do
    let cursor ← look Db.cursor
    let answer ← request (t.pull cursor maxBatch)
    let page ← orStop answer
    let reset ← takeReset t
    if reset then
      -- From the start already, and still told to start over, makes no sense.
      if cursor = 0 then pure false
      else do
        store fun db => setSyncCursor db 0
        pullPages cx t pages
    else if page.envelopes.isEmpty then pure true
    else do
      note fun r => { r with
        pulled := r.pulled + page.envelopes.countP fun env => env.kind ≠ .manifest }
      let before ← look id
      let applied ← applyEnvelopes cx page.envelopes
      let after ← look id
      log (.page before after)
      -- A page of nothing but records that fail their seal is a server making things up.
      if applied.rejected = page.envelopes.length then pure true
      else if cursor < page.cursor then do
        store fun db => setSyncCursor db page.cursor
        if page.hasMore then pullPages cx t pages else pure true
      else pure true

def pullAll (cx : Session) (t : Transport σ) : Pass σ Bool := pullPages cx t maxPages

/-- `check_manifests` after a pull that reached the end. -/
def checkManifests : Pass σ Withheld := do
  store UwuRdp.checkManifests
  log .checked
  look UwuRdp.withheld

/-- `note_incomplete_pull`. -/
def noteIncompletePull : Pass σ Withheld := do
  store UwuRdp.noteIncompletePull
  look UwuRdp.withheld

def alarmed (db : Db) : Bool :=
  (db.violations.find? fun _ problem => problem = .missing || problem = .older).isSome

/-- Hold the manifests against what is here; before the alarm goes up for the first time, pull
everything once more from the start. -/
def check (cx : Session) (t : Transport σ) (complete : Bool) : Pass σ Withheld :=
  if !complete then noteIncompletePull
  else do
    let alarmed ← look alarmed
    let found ← checkManifests
    if !found.any || alarmed then pure found
    else do
      store fun db => setSyncCursor db 0
      let complete ← pullAll cx t
      if complete then checkManifests
      else do
        note fun r => { r with complete := false }
        noteIncompletePull

def pushedManifest (manifest : Envelope) (accepted : List Accepted) : List Pushed :=
  (accepted.filter fun taken => taken.id = manifest.id).map fun taken =>
    ⟨taken.id, manifest.kind, manifest.updatedAt, taken.seq⟩

/-- `refresh_manifest`. -/
def refreshManifest (cx : Session) : Pass σ Unit := do
  let s ← Act.get
  match UwuRdp.refreshManifest cx ⟨s.db, s.asked⟩ with
  | .error e => stop (.ofStore e)
  | .ok (_, tx) => Act.modify fun s => { s with db := tx.db, asked := tx.asked }

/-- Write this device's manifest if what it holds changed, and push it on its own. Returns whether the
pull that follows reached the end. -/
def publishManifest (cx : Session) (t : Transport σ) : Pass σ Bool := do
  refreshManifest cx
  let pending ← look fun db => pendingManifest db cx.vault
  match pending with
  | .error e => stop (.ofStore e)
  | .ok none => pure true
  | .ok (some manifest) => do
    let answer ← request (t.push [manifest])
    match answer with
    -- A manifest that does not get through is left for the next pass.
    | .error _ => pure true
    | .ok response => do
      let _ ← markPushed (pushedManifest manifest response.accepted)
      mergeConflicts cx response.conflicts
      pullAll cx t

/-- The end of a round without conflicts: the manifest goes out, and everyone's is checked. -/
def settle (cx : Session) (t : Transport σ) (complete : Bool) : Pass σ SyncReport := do
  let complete ← (if complete then publishManifest cx t else pure false)
  note fun r => { r with complete }
  let withheld ← check cx t complete
  note fun r => { r with withheld }
  let cursor ← look Db.cursor
  note fun r => { r with cursor }
  let s ← Act.get
  pure s.report

/-- Rounds of pushing and pulling, until one has no conflicts. -/
def rounds (cx : Session) (t : Transport σ) : ℕ → Pass σ SyncReport
  | 0 => stop (.conflictLoop maxRounds)
  | left + 1 => do
    note fun r => { r with rounds := r.rounds + 1 }
    let conflicts ← pushAll cx t
    let complete ← pullAll cx t
    if conflicts = 0 then settle cx t complete else rounds cx t left

def syncOnce (cx : Session) (t : Transport σ) : Pass σ SyncReport := do
  note fun _ => {}
  rounds cx t maxRounds

end Engine

end UwuRdp
