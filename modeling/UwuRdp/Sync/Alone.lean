import UwuRdp.Sync.Termination
import UwuRdp.Sync.Turns

/-!
# A pass by itself

The script of `Turns` and the pass of `Engine` are the same pass: where no other thread comes between, the script
leaves the database, the server and the clock as the pass does, and comes to what the pass reports.
-/

namespace UwuRdp

open Lib

namespace Turns

variable {σ : Type}

def serve (t : Transport σ) : (q : Ask) → σ → q.Answer × σ
  | .push envelopes, server => t.push envelopes server
  | .pull cursor, server =>
    match t.pull cursor maxBatch server with
    | (.error e, server) => (.error e, server)
    | (.ok page, server) => (.ok (page, (t.takeReset server).1), (t.takeReset server).2)

/-- The script and the pass see one vault, one database, one clock and one server. -/
def Together (cx : Session) (x : Shared × σ) (s : PassState σ) : Prop :=
  x.1.store.vault = cx.vault ∧ x.1.db = s.db ∧ x.1.asked = s.asked ∧ x.2 = s.server

variable {α β γ δ : Type} {cx : Session} {t : Transport σ} {R : α → γ → Prop} {T : β → δ → Prop}
  {m : Pass α} {m' : Engine.Pass σ γ} {f : α → Pass β} {g : γ → Engine.Pass σ δ}

def Follows (cx : Session) (t : Transport σ) (R : α → γ → Prop) (m : Pass α) (m' : Engine.Pass σ γ) : Prop :=
  ∀ x s, Together cx x s → Script.Agree (Together cx) R (m.alone (serve t) x) (m' s)

theorem Follows.bind (h : Follows cx t R m m') (hf : ∀ a b, R a b → Follows cx t T (f a) (g b)) :
    Follows cx t T (m >>= f) (m' >>= g) := fun x s hs => (h x s hs).bind fun a b x' s' _ hR hS => hf a b hR x' s' hS

theorem Follows.step {m' : Engine.Pass σ α} {g : α → Engine.Pass σ δ} (h : Follows cx t Eq m m')
    (hf : ∀ a, Follows cx t T (f a) (g a)) : Follows cx t T (m >>= f) (m' >>= g) := h.bind fun a _ he => he ▸ hf a

theorem Follows.pure {a : α} {b : γ} (h : R a b) : Follows cx t R (pure a) (pure b) := fun _ _ hs => .ok h hs

theorem follows_stop (e : SyncError) : Follows cx t R (.stop e) (Engine.stop e) := fun _ _ hs => .error hs

theorem follows_look {f : Shared → α} {g : Db → γ} (h : ∀ x s, Together (σ := σ) cx x s → R (f x.1) (g s.db)) :
    Follows cx t R (Script.look f) (Engine.look g) := fun x s hs => .ok (h x s hs) hs

/-! What the pass only reports, the script does not do. -/

theorem Follows.note (h : Follows cx t R m m') (f : SyncReport → SyncReport) :
    Follows cx t R m (Engine.note f >>= fun _ => m') := fun x _ hs => h x _ hs

theorem Follows.log (h : Follows cx t R m m') (e : PassEvent) : Follows cx t R m (Engine.log e >>= fun _ => m') :=
  fun x _ hs => h x _ hs

theorem Follows.sees {f : Db → β} {k : β → Engine.Pass σ γ} (h : ∀ b, Follows cx t R m (k b)) :
    Follows cx t R m (Engine.look f >>= k) := fun x s hs => h _ x s hs

theorem follows_answered (a : Except TransportError α) :
    Follows cx t Eq (answered a) (Engine.orStop a) := by
  cases a with
  | ok => exact .pure rfl
  | error => exact follows_stop _

/-- A step on the database alone. -/
theorem follows_call (f : Db → α × Db) {e : Engine.Pass σ α} (he : ∀ s, ∃ s', e s = (.ok (f s.db).1, s') ∧
    s'.db = (f s.db).2 ∧ s'.asked = s.asked ∧ s'.server = s.server) :
    Follows cx t Eq (Script.call fun x => ((f x.db).1, x.withDb (f x.db).2)) e := by
  rintro x s ⟨hv, hdb, hasked, hserver⟩
  obtain ⟨s', he, hdb', hasked', hserver'⟩ := he s
  rw [he]
  rw [← hdb] at hdb' ⊢
  exact .ok rfl ⟨hv, hdb'.symm, hasked.trans hasked'.symm, hserver.trans hserver'.symm⟩

theorem follows_markPushed (records : List Pushed) :
    Follows cx t Eq (Script.call (marked records)) (Engine.markPushed records) :=
  follows_call (fun db => ((UwuRdp.markPushed db records).2, (UwuRdp.markPushed db records).1))
    fun _ => ⟨_, rfl, rfl, rfl, rfl⟩

theorem follows_push (envelopes : List Envelope) :
    Follows (α := Except TransportError PushResponse) cx t Eq (Script.request (Ask.push envelopes))
      (Engine.request (t.push envelopes)) := by
  rintro x s ⟨hv, hdb, hasked, hserver⟩
  refine .ok ?_ ⟨hv, hdb, hasked, ?_⟩
  · show (t.push envelopes x.2).1 = _
    rw [hserver]
  · show (t.push envelopes x.2).2 = _
    rw [hserver]

theorem follows_setSyncCursor (cursor : ℕ) :
    Follows cx t Eq (setSyncCursor cursor) (Engine.store fun db => UwuRdp.setSyncCursor db cursor) :=
  follows_call (fun db => ((), UwuRdp.setSyncCursor db cursor)) fun _ => ⟨_, rfl, rfl, rfl, rfl⟩

theorem follows_pull (cursor : ℕ) {k : PullResponse × Bool → Pass β} {k' : PullResponse → Bool → Engine.Pass σ δ}
    (hk : ∀ page reset, Follows cx t T (k (page, reset)) (k' page reset)) :
    Follows cx t T (Script.request (.pull cursor) >>= fun answer => answered answer >>= k)
      (Engine.request (t.pull cursor maxBatch) >>= fun answer => Engine.orStop answer >>= fun page =>
        Engine.takeReset t >>= k' page) := by
  rintro ⟨x, server⟩ s ⟨hv, hdb, hasked, rfl⟩
  show Script.Agree _ _ (Script.alone (serve t) (answered (serve t (.pull cursor) s.server).1 >>= k)
    (x, (serve t (.pull cursor) s.server).2)) _
  rw [Act.bind_of_ok (show Engine.request (t.pull cursor maxBatch) s = (.ok (t.pull cursor maxBatch s.server).1, { s with
    server := (t.pull cursor maxBatch s.server).2, requests := s.requests + 1 }) from rfl), serve]
  rcases t.pull cursor maxBatch s.server with ⟨e | page, server⟩
  · exact .error ⟨hv, hdb, hasked, rfl⟩
  · exact hk page _ _ _ ⟨hv, hdb, hasked, rfl⟩

theorem follows_checkManifests : Follows cx t Eq checkManifests Engine.checkManifests :=
  follows_call (fun db => (withheld (UwuRdp.checkManifests db), UwuRdp.checkManifests db))
    fun _ => ⟨_, rfl, rfl, rfl, rfl⟩

theorem follows_noteIncompletePull : Follows cx t Eq noteIncompletePull Engine.noteIncompletePull :=
  follows_call (fun db => (withheld (UwuRdp.noteIncompletePull db), UwuRdp.noteIncompletePull db))
    fun _ => ⟨_, rfl, rfl, rfl, rfl⟩

variable [Platform]

theorem follows_applyEnvelopes (envelopes : List Envelope) :
    Follows cx t Eq (applyEnvelopes cx envelopes) (Engine.applyEnvelopes cx envelopes) := by
  rintro ⟨⟨store, asked⟩, server⟩ s ⟨hv, hdb, rfl, rfl⟩
  change store.vault = cx.vault at hv
  change store.kept.db = s.db at hdb
  unfold applyEnvelopes applied Engine.applyEnvelopes
  show Script.Agree _ _ (Script.alone _ (orStop _) _) _
  simp only [Shared.db, hv, hdb, Nat.add_sub_cancel]
  rw [Act.bind_of_ok (show Engine.nowMs cx s = (.ok (cx.now s.asked), { s with asked := s.asked + 1 }) from rfl),
    Act.get_bind]
  dsimp only
  cases UwuRdp.applyEnvelopes cx.device cx.vault (cx.now s.asked) envelopes s.db with
  | error e => exact .error ⟨hv, hdb, rfl, rfl⟩
  | ok applied => exact .ok rfl ⟨hv, rfl, rfl, rfl⟩

theorem follows_mergeConflicts (conflicts : List Envelope) :
    Follows cx t Eq (mergeConflicts cx conflicts) (Engine.mergeConflicts cx conflicts) := by
  unfold mergeConflicts Engine.mergeConflicts
  split
  · exact .pure rfl
  · exact (follows_applyEnvelopes conflicts).bind fun _ _ _ => .pure rfl

theorem follows_pushTurn (conflicts : ℕ) :
    Follows cx t Eq (pushTurn cx conflicts) (Engine.pushTurn cx t conflicts) := by
  refine (follows_look (R := fun a b => a = b.mapError SyncError.ofStore) fun x s hs => ?_).bind ?_
  · show (pendingEnvelopes x.1.db x.1.store.vault maxBatch).mapError _ = _
    rw [hs.1, hs.2.1]
  rintro _ (e | ⟨envelopes, oversized⟩) rfl
  · exact follows_stop _
  show Follows cx t Eq (if envelopes.isEmpty then _ else _) (Engine.note _ >>= fun _ => if envelopes.isEmpty then _ else _)
  refine .note ?_ _
  split
  · exact .pure rfl
  refine (follows_push envelopes).step fun answer => (follows_answered answer).step fun response => ?_
  refine (follows_markPushed _).step fun cleared => .note ?_ _
  exact (follows_mergeConflicts _).step fun _ => .pure rfl

theorem agrees_pushAll {turns : ℕ} (conflicts : ℕ) {x : Shared × σ} {s : PassState σ} (hs : Together cx x s)
    (hturns : pendingCount s.db < turns) : Script.Agree (Together cx) Eq
      ((pushAll cx turns conflicts).alone (serve t) x) (Engine.pushBatches cx t turns conflicts s) := by
  induction turns generalizing conflicts x s with
  | zero => exact absurd hturns (Nat.not_lt_zero _)
  | succ turns ih =>
    refine (follows_pushTurn conflicts x s hs).bind ?_
    rintro ⟨conflicts', more⟩ _ x' s' hturn rfl hs'
    cases more with
    | false => exact .ok rfl hs'
    | true =>
      have hlt := (Engine.pushTurn_lt conflicts s).of_ok rfl hturn rfl
      exact ih conflicts' hs' (by omega)

theorem follows_pullPages (pages : ℕ) : Follows cx t Eq (pullPages cx pages) (Engine.pullPages cx t pages) := by
  induction pages with
  | zero => exact .pure rfl
  | succ pages ih =>
    refine (follows_look (R := Eq) fun x s hs => hs.2.1 ▸ rfl).step fun cursor => ?_
    refine follows_pull cursor fun page reset => ?_
    dsimp only
    split
    · split
      · exact .pure rfl
      · exact (follows_setSyncCursor 0).step fun _ => ih
    split
    · exact .pure rfl
    refine .note (.sees fun before => ?_) _
    refine (follows_applyEnvelopes page.envelopes).step fun report => ?_
    refine .sees fun after => .log ?_ _
    split
    · exact .pure rfl
    split
    · refine (follows_setSyncCursor page.cursor).step fun _ => ?_
      split
      · exact ih
      · exact .pure rfl
    · exact .pure rfl

theorem follows_check (complete : Bool) : Follows cx t Eq (check cx complete) (Engine.check cx t complete) := by
  unfold check Engine.check
  split
  · exact follows_noteIncompletePull
  refine (follows_look (R := Eq) fun x s hs => hs.2.1 ▸ rfl).step fun alarmed => follows_checkManifests.step fun found => ?_
  split
  · exact .pure rfl
  refine (follows_setSyncCursor 0).step fun _ => (follows_pullPages maxPages).step fun complete => ?_
  split
  · exact follows_checkManifests
  · exact .note follows_noteIncompletePull _

theorem follows_refreshManifest : Follows cx t Eq (Script.call (refreshed cx) >>= orStop) (Engine.refreshManifest cx) := by
  rintro ⟨⟨store, asked⟩, server⟩ s ⟨hv, hdb, rfl, rfl⟩
  change store.vault = cx.vault at hv
  change store.kept.db = s.db at hdb
  have hcx : session cx ⟨store, s.asked⟩ = cx := by rw [session, hv]
  unfold Engine.refreshManifest
  show Script.Agree _ _ (Script.alone _ (orStop (refreshed cx ⟨store, s.asked⟩).1) _) _
  simp only [refreshed, hcx, Shared.db, hdb, Act.get_bind]
  cases UwuRdp.refreshManifest cx ⟨s.db, s.asked⟩ with
  | error e => exact .error ⟨hv, hdb, rfl, rfl⟩
  | ok tx => exact .ok rfl ⟨hv, rfl, rfl, rfl⟩

theorem follows_publishManifest : Follows cx t Eq (publishManifest cx) (Engine.publishManifest cx t) := by
  have hrefreshed (k : Unit → Pass Bool) : (Script.call (refreshed cx) >>= fun result => orStop result >>= k) =
      (Script.call (refreshed cx) >>= orStop) >>= k := rfl
  unfold publishManifest
  rw [hrefreshed]
  refine follows_refreshManifest.step fun _ => ?_
  refine (follows_look (R := fun a b => a = b.mapError SyncError.ofStore) fun x s hs => ?_).bind ?_
  · show (pendingManifest x.1.db x.1.store.vault).mapError _ = _
    rw [hs.1, hs.2.1]
  rintro _ (e | _ | manifest) rfl
  · exact follows_stop _
  · exact .pure rfl
  refine (follows_push [manifest]).step fun answer => ?_
  cases answer with
  | error e => exact .pure rfl
  | ok response =>
    refine (follows_markPushed _).step fun _ => ?_
    exact (follows_mergeConflicts _).step fun _ => follows_pullPages maxPages

theorem follows_settle (complete : Bool) :
    Follows cx t (fun found report => report.withheld = found) (settle cx complete) (Engine.settle cx t complete) := by
  refine Follows.step ?_ fun complete => .note (fun x s hs => ?_) _
  · split
    · exact follows_publishManifest
    · exact .pure rfl
  · refine (follows_check complete x s hs).after fun found _ x' s' h hs' => ?_
    subst h
    exact .ok rfl hs'

theorem agrees_rounds {turns : ℕ} (left : ℕ) {x : Shared × σ} {s : PassState σ} (hs : Together cx x s)
    (hturns : pendingCount s.db < turns) : Script.Agree (Together cx) (fun found report => report.withheld = found)
      ((rounds cx turns left).alone (serve t) x) (Engine.rounds cx t left s) := by
  induction left generalizing x s with
  | zero => exact follows_stop _ x s hs
  | succ left ih =>
    obtain ⟨extra, rfl⟩ := Nat.exists_eq_add_of_lt hturns
    have kept : ∀ db db', pendingCount db ≤ pendingCount s.db → DirtyWithin db db' → pendingCount db' ≤ pendingCount s.db :=
      fun _ _ h hd => hd.pendingCount_le.trans h
    let s₁ : PassState σ := { s with report := { s.report with rounds := s.report.rounds + 1 } }
    -- A turn more than there are rows waiting is never taken.
    have hpush : Engine.pushAll cx t s₁ = Engine.pushBatches cx t (pendingCount s.db + extra + 1) 0 s₁ := by
      rw [Nat.add_right_comm]
      exact (Engine.pushBatches_add extra 0 (Nat.lt_succ_self _)).symm
    have hpushed := agrees_pushAll (t := t) (s := s₁) 0 hs hturns
    rw [← hpush] at hpushed
    refine hpushed.bind fun conflicts _ x₂ s₂ hok h hs₂ => ?_
    subst h
    rw [hpush] at hok
    have hle₂ := (Act.Ends.of_ok (s := s₁) (Engine.costs_pushBatches kept _ 0 s₁.requests) ⟨le_refl _, le_refl _⟩ hok).1
    refine (follows_pullPages maxPages x₂ s₂ hs₂).bind fun complete _ x₃ s₃ hok' h hs₃ => ?_
    subst h
    have hle₃ := ((Engine.costs_pullAll kept s₂.requests).of_ok ⟨hle₂, le_refl _⟩ hok').1
    split
    · exact follows_settle complete x₃ s₃ hs₃
    · exact ih hs₃ (hle₃.trans_lt hturns)

/-- **A pass that nobody interrupts is the pass.** Given a batch more than there are rows waiting, the script that
other threads may come between reports what the pass does, and leaves what it leaves. -/
theorem syncOnce_alone (cx : Session) (t : Transport σ) (store : LockStore) (server : σ) (extra : ℕ) :
    let cx := { cx with vault := store.vault }
    let script := (syncOnce cx (pendingCount store.kept.db + extra + 1)).alone (serve t) (⟨store, 0⟩, server)
    let pass := Engine.syncOnce cx t (.start store.kept.db server)
    script.1 = pass.1.map SyncReport.withheld ∧ script.2.1.db = pass.2.db ∧ script.2.1.asked = pass.2.asked ∧
      script.2.2 = pass.2.server := by
  intro cx script pass
  have h : Script.Agree (Together cx) (fun found report => report.withheld = found) script pass :=
    agrees_rounds maxRounds ⟨rfl, rfl, rfl, rfl⟩ (by show pendingCount store.kept.db < _; omega)
  generalize script = l, pass = r at h
  cases h with
  | ok hR hS => exact ⟨congrArg Except.ok hR.symm, hS.2⟩
  | error hS => exact ⟨rfl, hS.2⟩

end Turns

end UwuRdp
