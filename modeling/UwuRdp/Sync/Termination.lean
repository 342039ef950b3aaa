import UwuRdp.Store.Outbox
import UwuRdp.Store.Preference
import UwuRdp.Sync.Engine
import Mathlib.Algebra.Order.BigOperators.Group.List
import Mathlib.Algebra.Order.Ring.Nat

/-!
# A pass ends

Pages and rounds are counted; the loop that pushes is not. What it goes by is the number of rows
waiting: a turn after which there is another one cleared a row, and nothing a server answers makes a
row wait that did not. So a pass makes no more requests than its counters and that number allow.
-/

namespace UwuRdp

open Lib

/-! ## Rows that wait -/

/-- Every row that waits in the second database waits in the first. -/
def DirtyWithin (db db' : Db) : Prop :=
  ∀ k id h', db'.head k id = some h' → h'.dirty = true →
    ∃ h, db.head k id = some h ∧ h.dirty = true

variable {db db₁ db' : Db}

theorem DirtyWithin.refl (db : Db) : DirtyWithin db db := fun _ _ h' hh' hd => ⟨h', hh', hd⟩

theorem DirtyWithin.trans (h : DirtyWithin db db₁) (h' : DirtyWithin db₁ db') : DirtyWithin db db' := by
  intro k id hd hh hdirty
  obtain ⟨h₁, hh₁, hd₁⟩ := h' k id hd hh hdirty
  exact h k id h₁ hh₁ hd₁

theorem DirtyWithin.rows (h : DirtyWithin db db') (k : EntityKind) (id : Uuid) (r' : Row (Body k))
    (hr : (db'.rows k).get? id = some r') (hd : r'.dirty = true) :
    ∃ r, (db.rows k).get? id = some r ∧ r.dirty = true := by
  obtain ⟨hd₀, hh₀, hdirty⟩ := h k id r'.head (Db.head_eq_some.mpr ⟨r', hr, rfl⟩) hd
  obtain ⟨r, hrow, rfl⟩ := Db.head_eq_some.mp hh₀
  exact ⟨r, hrow, hdirty⟩

theorem DirtyWithin.pendingCount_le (h : DirtyWithin db db') : pendingCount db' ≤ pendingCount db := by
  apply List.sum_le_sum
  intro k _
  exact Table.length_select_le fun id r' hr hd => h.rows k id r' hr hd

variable {k : EntityKind} {id : Uuid} {ps : List Pushed}

theorem DirtyWithin.pendingCount_lt (h : DirtyWithin db db') (hk : k ∈ syncedKinds) {hd : Head} (hh : db.head k id = some hd) (hdirty : hd.dirty = true)
    (hn : ∀ h', db'.head k id = some h' → h'.dirty = false) : pendingCount db' < pendingCount db := by
  obtain ⟨r, hr, rfl⟩ := Db.head_eq_some.mp hh
  apply List.sum_lt_sum
  · intro k _
    exact Table.length_select_le fun id r' hr hd => h.rows k id r' hr hd
  · refine ⟨k, hk, Table.length_select_lt (fun id r' hr hd => h.rows k id r' hr hd) hr hdirty ?_⟩
    intro r' hr'
    exact hn r'.head (Db.head_eq_some.mpr ⟨r', hr', rfl⟩)

/-! ## What marking and applying do to them -/

variable {h : Head}

theorem markAll_dirty (hd : (markAll ps k id h).dirty = true) : h.dirty = true := by
  unfold markAll at hd
  induction ps generalizing h with
  | nil => exact hd
  | cons p ps ih =>
    have hp : (p.mark k id h).dirty = true := ih hd
    unfold Pushed.mark at hp
    split at hp
    · cases hp
    · exact hp

theorem markAll_clears {p : Pushed} (hp : p ∈ ps) (hk : p.kind = k) (hid : p.id = id)
    (hc : h.hlc = p.updatedAt) : (markAll ps k id h).dirty = false := by
  induction ps generalizing h with
  | nil => cases hp
  | cons q ps ih =>
    have hstep : markAll (q :: ps) k id h = markAll ps k id (q.mark k id h) := rfl
    rw [hstep]
    rcases List.mem_cons.mp hp with rfl | hp
    · have hmark : (p.mark k id h).dirty = false := by
        unfold Pushed.mark
        rw [if_pos ⟨hk, hid, hc⟩]
      rw [Bool.eq_false_iff]
      intro hd
      rw [markAll_dirty hd] at hmark
      cases hmark
    · refine ih hp ?_
      rw [← hc]
      unfold Pushed.mark
      split <;> rfl

theorem dirtyWithin_markPushed (db : Db) (ps : List Pushed) : DirtyWithin db (markPushed db ps).1 := by
  intro k id h' hh' hd
  rw [head_markPushed, Option.map_eq_some_iff] at hh'
  obtain ⟨h, hh, rfl⟩ := hh'
  exact ⟨h, hh, markAll_dirty hd⟩

theorem exists_of_cleared {db : Db} (h : (markPushed db ps).2 ≠ 0) :
    ∃ p ∈ ps, ∃ hd, db.head p.kind p.id = some hd ∧ hd.hlc = p.updatedAt := by
  induction ps generalizing db with
  | nil => exact absurd rfl h
  | cons p ps ih =>
    by_cases hc : clears db p = true
    · unfold clears at hc
      rw [Bool.and_eq_true] at hc
      obtain ⟨r, hr, hclock⟩ := Option.map_eq_some_iff.mp (eq_of_beq hc.2)
      exact ⟨p, List.mem_cons_self, r.head, Db.head_eq_some.mpr ⟨r, hr, rfl⟩, hclock⟩
    · have hrest : (markPushed (markOne db p) ps).2 ≠ 0 := by
        intro h0
        refine h ?_
        show (markPushed (markOne db p) ps).2 + (if clears db p then 1 else 0) = 0
        rw [h0, if_neg hc]
      obtain ⟨q, hq, hd, hh, hclock⟩ := ih hrest
      rw [head_markOne, Option.map_eq_some_iff] at hh
      obtain ⟨h₀, hh₀, rfl⟩ := hh
      refine ⟨q, List.mem_cons_of_mem p hq, h₀, hh₀, ?_⟩
      rw [← hclock]
      unfold Pushed.mark
      split <;> rfl

namespace Engine

variable {σ α β : Type}

/-! ## What a pass's actions do to the database and the count of requests -/

/-- A fact about the database and how many requests went out. -/
def On (P : Db → ℕ → Prop) (s : PassState σ) : Prop := P s.db s.requests

variable {P P' : Db → ℕ → Prop} {E : SyncError → PassState σ → Prop} {t : Transport σ}

theorem look_on (f : Db → α) :
    Act.Ends (On P) (look f : Pass σ α) (fun a s => On (fun db n => P db n ∧ a = f db) s) E :=
  fun _ hs => ⟨hs, rfl⟩

theorem note_on (f : SyncReport → SyncReport) :
    Act.Ends (On P) (note f : Pass σ Unit) (fun _ => On P) E := fun _ hs => hs

theorem request_on {f : σ → Except TransportError α × σ} (h : ∀ db n, P db n → P' db (n + 1)) :
    Act.Ends (On P) (request f) (fun _ => On P') E := fun s hs => h s.db s.requests hs

theorem stop_on {e : SyncError} {Q : α → PassState σ → Prop} (h : ∀ db n, P db n → P' db n) :
    Act.Ends (On P) (stop e : Pass σ α) Q fun _ => On P' := fun s hs => h s.db s.requests hs

theorem orStop_on {answer : Except TransportError α} (h : ∀ db n, P db n → P' db n) :
    Act.Ends (On P) (orStop answer : Pass σ α) (fun _ => On P) fun _ => On P' := by
  unfold orStop
  split
  · exact .pure fun _ hs => hs
  · exact stop_on h

theorem markPushed_on {records : List Pushed} {P' : ℕ → Db → ℕ → Prop}
    (h : ∀ db n, P db n → P' (UwuRdp.markPushed db records).2 (UwuRdp.markPushed db records).1 n) : Act.Ends (On P)
    (markPushed records : Pass σ ℕ) (fun cleared => On (P' cleared)) E :=
  fun s hs => h s.db s.requests hs

variable {sent : List Envelope} {accepted : List Accepted} {f : α → Pass σ β}

theorem mem_pushedOf {p : Pushed} (h : p ∈ pushedOf sent accepted) :
    ∃ env ∈ sent, p.id = env.id ∧ p.kind = env.kind ∧ p.updatedAt = env.updatedAt := by
  obtain ⟨taken, -, hm⟩ := List.mem_filterMap.mp h
  obtain ⟨env, hfind, rfl⟩ := Option.map_eq_some_iff.mp hm
  have hid : env.id = taken.id := by simpa using List.find?_some hfind
  exact ⟨env, List.mem_of_find?_eq_some hfind, hid.symm, rfl, rfl⟩

theorem pendingCount_markPushed_lt {vault : Option UnlockedVault} {limit : ℕ} {leftOut : ℕ} (hp : pendingEnvelopes db vault limit = .ok (sent, leftOut)) (hc : (UwuRdp.markPushed db (pushedOf sent accepted)).2 ≠ 0) :
    pendingCount (UwuRdp.markPushed db (pushedOf sent accepted)).1 < pendingCount db := by
  obtain ⟨p, hmem, hd, hh, hclock⟩ := exists_of_cleared hc
  obtain ⟨env, henv, hid, hkind, -⟩ := mem_pushedOf hmem
  cases vault with
  | none => cases hp
  | some vault =>
    obtain ⟨hsynced, r, hout⟩ := outgoing_of_pendingEnvelopes hp henv
    have hdirty : hd.dirty = true := by
      rw [hkind, hid, Db.head_eq_some.mpr ⟨r, hout.row, rfl⟩] at hh
      rw [← Option.some.inj hh]
      exact hout.dirty
    refine (dirtyWithin_markPushed db _).pendingCount_lt (hkind ▸ hsynced) hh hdirty ?_
    intro h' hh'
    rw [head_markPushed, hh] at hh'
    rw [← Option.some.inj hh']
    exact markAll_clears hmem rfl rfl hclock

/-! ## How many requests there are -/

/-- An action that keeps `I`, with at most `c` requests. -/
def Costs (I : Db → Prop) (c : ℕ) (m : Pass σ α) : Prop :=
  ∀ a, Act.Ends (On fun db n => I db ∧ n ≤ a) m (fun _ => On fun db n => I db ∧ n ≤ a + c)
    fun _ => On fun _ n => n ≤ a + c

variable {I : Db → Prop} {c d : ℕ} {m : Pass σ α}

theorem Costs.mono (hm : Costs I c m) (h : c ≤ d) : Costs I d m := by
  intro a
  refine (hm a).conseq (fun _ hs => hs) (fun _ s hs => ⟨hs.1, ?_⟩) fun _ s hs => ?_
  · exact hs.2.trans (Nat.add_le_add_left h a)
  · exact le_trans (show s.requests ≤ a + c from hs) (Nat.add_le_add_left h a)

theorem Costs.bind (hm : Costs I c m) (hf : ∀ x, Costs I d (f x)) : Costs I (c + d) (m >>= f) := by
  intro a
  refine .bind (R := fun _ => On fun db n => I db ∧ n ≤ a + c) ?_ fun x => ?_
  · refine (hm a).conseq (fun _ hs => hs) (fun _ _ hs => hs) fun _ s hs => ?_
    exact le_trans (show s.requests ≤ a + c from hs) (by omega)
  · rw [← Nat.add_assoc]
    exact hf x (a + c)

theorem Costs.free_bind (hm : Costs I 0 m) (hf : ∀ x, Costs I c (f x)) :
    Costs I c (m >>= f) := (hm.bind hf).mono (by omega)

theorem Costs.ite {b : Prop} [Decidable b] {m' : Pass σ α} (ht : Costs I c m) (hf : Costs I c m') :
    Costs I c (if b then m else m') := fun a => .ite (fun _ => ht a) fun _ => hf a

theorem costs_pure (x : α) : Costs I c (pure x : Pass σ α) :=
  fun a _ hs => ⟨hs.1, hs.2.trans (Nat.le_add_right a c)⟩

theorem costs_stop (e : SyncError) : Costs I c (stop e : Pass σ α) :=
  fun a s hs => show s.requests ≤ a + c from hs.2.trans (Nat.le_add_right a c)

theorem costs_look (f : Db → α) : Costs I 0 (look f : Pass σ α) := fun _ _ hs => hs

theorem costs_note (f : SyncReport → SyncReport) : Costs I 0 (note f : Pass σ Unit) := fun _ _ hs => hs

theorem costs_log (e : PassEvent) : Costs I 0 (log e : Pass σ Unit) := fun _ _ hs => hs

theorem costs_takeReset : Costs I 0 (takeReset t) := fun _ _ hs => hs

theorem costs_request (f : σ → Except TransportError α × σ) : Costs I 1 (request f) :=
  fun _ _ hs => ⟨hs.1, Nat.succ_le_succ hs.2⟩

theorem costs_orStop (answer : Except TransportError α) : Costs I 0 (orStop answer : Pass σ α) := by
  unfold orStop
  split
  · exact costs_pure _
  · exact costs_stop _

section Kept

variable (hI : ∀ db db', I db → DirtyWithin db db' → I db')

include hI

theorem costs_store {f : Db → Db} (hf : ∀ db, DirtyWithin db (f db)) :
    Costs I 0 (store f : Pass σ Unit) := fun _ s hs => ⟨hI s.db _ hs.1 (hf s.db), hs.2⟩

theorem costs_markPushed (records : List Pushed) : Costs I 0 (markPushed records : Pass σ ℕ) :=
  fun _ s hs => ⟨hI s.db _ hs.1 (dirtyWithin_markPushed s.db records), hs.2⟩

end Kept

end Engine

section Platform

variable [Platform] {device : UInt32} {vault : UnlockedVault}

variable {rep : ApplyReport} {envs : List Envelope}

theorem dirtyWithin_applyOne {env : Envelope}
    (h : applyOne device vault env db = .ok (rep, db')) : DirtyWithin db db' := by
  intro k id h' hh' hd
  have he := applyOne_effect h k id
  rw [hh'] at he
  generalize db.head k id = old at he
  cases he with
  | same => exact ⟨h', rfl, hd⟩
  | stub | identical => cases hd
  | kept h₀ => exact ⟨h₀, rfl, hd⟩
  | taken => cases hd

theorem dirtyWithin_applied (h : Applied device vault envs db db') : DirtyWithin db db' := by
  induction h with
  | nil db => exact DirtyWithin.refl db
  | cons env rest db db₁ db' rep h _ ih => exact (dirtyWithin_applyOne h).trans ih

theorem dirtyWithin_applyEnvelopes {vault : Option UnlockedVault} {now : UInt64} (h : applyEnvelopes device vault now envs db = .ok (rep, db')) : DirtyWithin db db' := by
  rcases applyEnvelopes_spec h with ⟨-, rfl⟩ | ⟨v, out, db₁, -, hall, rfl⟩
  · exact DirtyWithin.refl db'
  · have happ := dirtyWithin_applied (applyAll_spec hall).1
    cases out.2 with
    | none | some c => exact happ

namespace Engine

variable {σ α β : Type} {P P' : Db → ℕ → Prop} {cx : Session} {t : Transport σ}

theorem applyEnvelopes_on {envs : List Envelope} (h : ∀ db db' n, P db n → DirtyWithin db db' → P db' n) : Act.Ends
    (On P) (applyEnvelopes cx envs : Pass σ ApplyReport) (fun _ => On P) fun _ => On P := by
  refine Act.Ends.bind (R := fun _ => On P) (fun _ hs => hs) fun now => ?_
  apply Act.Ends.get_bind
  intro s hs
  split
  · exact fun s' hs' => hs' ▸ hs
  · next rep db' hap =>
    rintro s' rfl
    exact h s'.db db' s'.requests hs (dirtyWithin_applyEnvelopes hap)

theorem mergeConflicts_on {conflicts : List Envelope} (h : ∀ db db' n, P db n → DirtyWithin db db' → P db' n) :
    Act.Ends (On P) (mergeConflicts cx conflicts : Pass σ Unit) (fun _ => On P) fun _ => On P :=
  .ite (fun _ => .pure fun _ hs => hs) fun _ =>
    .bind (applyEnvelopes_on h) fun _ => .pure fun _ hs => hs

/-! ## A turn that goes on cleared a row -/

theorem pushTurn_lt (conflicts : ℕ) (s₀ : PassState σ) :
    Act.Ends (On fun db _ => db = s₀.db) (pushTurn cx t conflicts)
      (fun turn s => turn.2 = true → pendingCount s.db < pendingCount s₀.db) fun _ _ => True := by
  refine .bind (look_on _) fun pending => ?_
  split
  · exact fun _ _ => trivial
  · next envelopes oversized =>
    refine .bind (note_on _) fun _ => .ite (fun _ => ?_) fun _ => ?_
    · exact .pure fun _ _ h => nomatch h
    refine .bind (@request_on _ _ _ (fun db _ => db = s₀.db ∧
      pendingEnvelopes db cx.vault maxBatch = .ok (envelopes, oversized)) _ _ fun _ _ h => ⟨h.1, h.2.symm⟩) fun answer => ?_
    refine .bind (@orStop_on _ _ _ (fun _ _ => True) _ fun _ _ _ => trivial) fun response => ?_
    refine .bind (@markPushed_on _ _ _ _ (fun cleared db _ => cleared ≠ 0 →
      pendingCount db < pendingCount s₀.db) ?_) fun cleared => ?_
    · rintro db n ⟨rfl, hp⟩ hc
      exact pendingCount_markPushed_lt hp hc
    refine .bind (note_on _) fun _ => ?_
    refine .bind ((mergeConflicts_on fun db db' _ h hd hc => ?_).conseq (fun _ h => h)
      (fun _ _ h => h) fun _ _ _ => trivial) fun _ => .pure fun s h hmore => h ?_
    · exact hd.pendingCount_le.trans_lt (h hc)
    · rintro rfl
      simp at hmore

theorem pushBatches_add (extra : ℕ) {turns : ℕ} (conflicts : ℕ) {s : PassState σ} (h : pendingCount s.db < turns) :
    pushBatches cx t (turns + extra) conflicts s = pushBatches cx t turns conflicts s := by
  induction turns generalizing conflicts s with
  | zero => exact absurd h (Nat.not_lt_zero _)
  | succ turns ih =>
    rw [Nat.succ_add]
    unfold pushBatches
    apply Act.bind_congr
    rintro ⟨conflicts', more⟩ s' hturn
    cases more with
    | false => rfl
    | true =>
      have hlt := (@pushTurn_lt _ _ cx t conflicts s).of_ok rfl hturn rfl
      exact ih conflicts' (by omega)

section Kept

variable {I : Db → Prop} (hI : ∀ db db', I db → DirtyWithin db db' → I db')

include hI

theorem costs_applyEnvelopes (envs : List Envelope) : Costs I 0 (applyEnvelopes cx envs : Pass σ ApplyReport) := by
  intro a
  refine (applyEnvelopes_on fun db db' n h hd => ?_).conseq (fun _ hs => hs) (fun _ _ hs => hs) fun _ _ hs => hs.2
  exact ⟨hI db db' h.1 hd, h.2⟩

theorem costs_mergeConflicts (conflicts : List Envelope) : Costs I 0 (mergeConflicts cx conflicts : Pass σ Unit) :=
  Costs.ite (costs_pure _) ((costs_applyEnvelopes hI conflicts).free_bind fun _ => costs_pure _)

theorem costs_pushTurn (conflicts : ℕ) : Costs I 1 (pushTurn cx t conflicts) := by
  refine (costs_look _).free_bind fun pending => ?_
  split
  · exact costs_stop _
  · refine (costs_note _).free_bind fun _ => Costs.ite (costs_pure _) ?_
    refine Costs.bind (d := 0) (costs_request _) fun answer => ?_
    refine (costs_orStop answer).free_bind fun response => ?_
    refine (costs_markPushed hI _).free_bind fun cleared => (costs_note _).free_bind fun _ => ?_
    exact (costs_mergeConflicts hI _).free_bind fun _ => costs_pure _

theorem costs_pushBatches (turns conflicts : ℕ) : Costs I turns (pushBatches cx t turns conflicts) := by
  induction turns generalizing conflicts with
  | zero => exact costs_pure _
  | succ turns ih =>
    refine Costs.mono (c := 1 + turns) ?_ (by omega)
    refine (costs_pushTurn hI conflicts).bind fun turn => ?_
    exact Costs.ite (ih _) (costs_pure _)

theorem costs_pullPages (pages : ℕ) : Costs I pages (pullPages cx t pages) := by
  induction pages with
  | zero => exact costs_pure _
  | succ pages ih =>
    refine Costs.mono (c := 1 + pages) ?_ (by omega)
    refine (costs_look _).free_bind fun cursor => (costs_request _).bind fun answer => ?_
    refine (costs_orStop answer).free_bind fun page => costs_takeReset.free_bind fun reset => ?_
    have cursor_kept (c : ℕ) (db : Db) : DirtyWithin db (setSyncCursor db c) := DirtyWithin.refl db
    refine Costs.ite (Costs.ite (costs_pure _) ?_) (Costs.ite (costs_pure _) ?_)
    · exact (costs_store hI (cursor_kept 0)).free_bind fun _ => ih
    · refine (costs_note _).free_bind fun _ => (costs_look _).free_bind fun before => ?_
      refine (costs_applyEnvelopes hI _).free_bind fun applied => (costs_look _).free_bind fun after => ?_
      refine (costs_log _).free_bind fun _ => Costs.ite (costs_pure _) (Costs.ite ?_ (costs_pure _))
      exact (costs_store hI (cursor_kept _)).free_bind fun _ => Costs.ite ih (costs_pure _)

theorem costs_pullAll : Costs I maxPages (pullAll cx t) := costs_pullPages hI maxPages

end Kept

/-! ## The whole pass -/

theorem costs_publishManifest : Costs (fun _ => True) (1 + maxPages) (publishManifest cx t) := by
  have kept : ∀ db db' : Db, True → DirtyWithin db db' → True := fun _ _ _ _ => trivial
  have refreshed : Costs (fun _ => True) 0 (refreshManifest cx : Pass σ Unit) := by
    intro a
    apply Act.Ends.get_bind
    intro s hs
    split
    · rintro s' rfl
      exact hs.2
    · rintro s' rfl
      exact hs
  refine refreshed.free_bind fun _ => (costs_look _).free_bind fun pending => ?_
  split
  · exact costs_stop _
  · exact costs_pure _
  · refine (costs_request _).bind fun answer => ?_
    split
    · exact costs_pure _
    · refine (costs_markPushed kept _).free_bind fun _ => ?_
      exact (costs_mergeConflicts kept _).free_bind fun _ => costs_pullAll kept

theorem costs_check (complete : Bool) : Costs (fun _ => True) maxPages (check cx t complete) := by
  have kept : ∀ db db' : Db, True → DirtyWithin db db' → True := fun _ _ _ _ => trivial
  have stored (f : Db → Db) : Costs (fun _ => True) 0 (store f : Pass σ Unit) := fun _ _ hs => hs
  have checked : Costs (fun _ => True) 0 (checkManifests : Pass σ Withheld) :=
    (stored _).free_bind fun _ => (costs_log _).free_bind fun _ => costs_look _
  have noted : Costs (fun _ => True) 0 (noteIncompletePull : Pass σ Withheld) :=
    (stored _).free_bind fun _ => costs_look _
  refine Costs.ite (noted.mono (Nat.zero_le _)) ?_
  refine (costs_look _).free_bind fun alarmed => checked.free_bind fun found => ?_
  refine Costs.ite (costs_pure _) ((stored _).free_bind fun _ => ?_)
  refine Costs.bind (d := 0) (costs_pullAll kept) fun complete => ?_
  exact Costs.ite checked ((costs_note _).free_bind fun _ => noted)

theorem costs_settle (complete : Bool) : Costs (fun _ => True) (1 + maxPages + maxPages) (settle cx t complete) := by
  refine Costs.bind (Costs.ite costs_publishManifest (costs_pure _)) fun complete => ?_
  refine (costs_note _).free_bind fun _ => Costs.bind (d := 0) (costs_check complete) fun withheld => ?_
  refine (costs_note _).free_bind fun _ => (costs_look _).free_bind fun cursor => ?_
  exact (costs_note _).free_bind fun _ => fun _ _ hs => hs

/-- The most requests a pass makes with `waiting` rows to push and some rounds to go. -/
def requestBound (waiting left : ℕ) : ℕ := left * (waiting + 1 + maxPages) + (1 + 2 * maxPages)

theorem rounds_requests (waiting left a : ℕ) : Act.Ends (On fun db n => pendingCount db ≤ waiting ∧ n ≤ a)
    (rounds cx t left) (fun _ => On fun _ n => n ≤ a + requestBound waiting left) fun _ => On fun _ n => n ≤ a +
    requestBound waiting left := by
  have kept : ∀ db db' : Db, pendingCount db ≤ waiting → DirtyWithin db db' →
      pendingCount db' ≤ waiting := fun _ _ h hd => hd.pendingCount_le.trans h
  induction left generalizing a with
  | zero => exact fun s hs => show s.requests ≤ _ from hs.2.trans (Nat.le_add_right a _)
  | succ left ih =>
    have hbound : requestBound waiting (left + 1) = (waiting + 1 + maxPages) + requestBound waiting left := by
      unfold requestBound
      rw [Nat.succ_mul]
      omega
    have pushed : Costs (fun db => pendingCount db ≤ waiting) (waiting + 1) (pushAll cx t) :=
      fun a s hs => (costs_pushBatches kept (pendingCount s.db + 1) 0).mono
        (Nat.succ_le_succ hs.1) a s hs
    have widen {α : Type} {m : Pass σ α} {I : Db → Prop} {c a' : ℕ} (hm : Costs I c m)
        (hle : a' + c ≤ a + requestBound waiting (left + 1)) :
        Act.Ends (On fun db n => I db ∧ n ≤ a') m (fun _ => On fun db n => I db ∧ n ≤ a' + c)
          fun _ => On fun _ n => n ≤ a + requestBound waiting (left + 1) :=
      (hm a').conseq (fun _ hs => hs) (fun _ _ hs => hs)
        fun _ s hs => le_trans (show s.requests ≤ a' + c from hs) hle
    refine .bind (widen (costs_note _) (by omega)) fun _ => ?_
    refine .bind (widen pushed (by omega)) fun conflicts => ?_
    refine .bind (widen (costs_pullAll kept) (by omega)) fun complete => ?_
    have hsettle : 1 + maxPages + maxPages ≤ requestBound waiting left := by
      unfold requestBound
      omega
    apply Act.Ends.ite
    · intro _
      refine (costs_settle complete _).conseq (fun s hs => ⟨trivial, hs.2⟩) (fun _ s hs => ?_) fun _ s hs => ?_
      · exact hs.2.trans (by omega)
      · exact le_trans (show s.requests ≤ _ from hs) (by omega)
    · intro _
      refine (ih (a + 0 + (waiting + 1) + maxPages)).conseq (fun _ hs => hs) (fun _ s hs => ?_) fun _ s hs => ?_
      · exact le_trans (show s.requests ≤ _ from hs) (by omega)
      · exact le_trans (show s.requests ≤ _ from hs) (by omega)

theorem syncOnce_requests (s : PassState σ) :
    (syncOnce cx t s).2.requests ≤ s.requests + requestBound (pendingCount s.db) maxRounds := by
  have h := Act.Ends.bind (P := On fun db n => pendingCount db ≤ pendingCount s.db ∧ n ≤ s.requests)
    (note_on fun _ => {}) fun _ =>
      @rounds_requests _ _ cx t (pendingCount s.db) maxRounds s.requests
  exact h.always ⟨le_refl _, le_refl _⟩

end Engine

/-- **A pass ends.** Against every transport and from every state: the requests of a pass are bounded
by its counters and the rows waiting; a turn of the push loop after which there is another one left
fewer rows waiting, so that the turns counted are all the turns there are; and applying records makes
no row wait. -/
theorem syncOnce_ends {σ : Type} (cx : Session) (t : Transport σ) (s : PassState σ) :
    (Engine.syncOnce cx t s).2.requests ≤ s.requests +
        (maxRounds * (pendingCount s.db + 1 + maxPages) + (1 + 2 * maxPages)) ∧
      (∀ conflicts turn s', Engine.pushTurn cx t conflicts s = (.ok turn, s') → turn.2 = true →
        pendingCount s'.db < pendingCount s.db) ∧
      (∀ extra conflicts, Engine.pushBatches cx t (pendingCount s.db + 1 + extra) conflicts s =
        Engine.pushBatches cx t (pendingCount s.db + 1) conflicts s) ∧
      ∀ now envs rep db', applyEnvelopes cx.device cx.vault now envs s.db = .ok (rep, db') →
        DirtyWithin s.db db' :=
  ⟨Engine.syncOnce_requests s,
    fun conflicts _ _ hturn hmore => (Engine.pushTurn_lt conflicts s).of_ok rfl hturn hmore,
    fun extra conflicts => Engine.pushBatches_add extra conflicts (Nat.lt_succ_self _),
    fun _ _ _ _ h => dirtyWithin_applyEnvelopes h⟩

end Platform

def takesAll : Transport Unit where
  pull _ _ s := (.ok ⟨[], 0, false⟩, s)
  push envs s := (.ok ⟨envs.map fun env => ⟨env.id, 1⟩, []⟩, s)
  takeReset s := (false, s)

def oneWaiting : Db :=
  letI := asciiPlatform
  (LocalOp.trustHostKey ['h'] 3389 [] ['f'] []).run deviceOne (Db.fresh 1)

def pushedTurn : Except SyncError (ℕ × Bool) × PassState Unit :=
  letI := asciiPlatform
  Engine.pushTurn deviceOne takesAll 0 (.start oneWaiting ())

/-- It leaves none. -/
theorem syncOnce_ends_takesAll : pendingCount pushedTurn.2.db < pendingCount oneWaiting := by
  have hturn : pushedTurn.1 = .ok (0, true) := by decide +kernel
  obtain ⟨-, hless, -⟩ := @syncOnce_ends asciiPlatform Unit deviceOne takesAll (.start oneWaiting ())
  have hpair (p : Except SyncError (ℕ × Bool) × PassState Unit) (h : p.1 = .ok (0, true)) :
      p = (.ok (0, true), p.2) := by rw [← h]
  exact hless 0 (0, true) pushedTurn.2 (hpair pushedTurn hturn) rfl

end UwuRdp
