import UwuRdp.Store.Apply
import UwuRdp.Store.GroupCalls

/-!
# Runs of a store

Every call that changes the database of one device, and what each of them does to the header of a
row. `LocalOp` is an edit made here; `StoreCall` adds what syncing does. A run is a list of calls, on
the database of a fresh install.
-/

namespace UwuRdp

open Lib

/-! ## Edits -/

/-- An edit made on this device. -/
inductive LocalOp where
  | saveHost (draft : HostDraft)
  | deleteHost (id : Uuid)
  | setHostLogin (id : Uuid) (username domain : Text) (password : Option (List UInt8))
  | forgetHostPassword (id : Uuid)
  | moveHost (id : Uuid) (workspace : Workspace) (group : Option Text) (before : Option Uuid)
  | createGroup (workspace : Workspace) (name : Text)
  | setGroupDrives (workspace : Workspace) (name : Text) (drives : Option DriveRedirection)
  | setGroupLogin (workspace : Workspace) (name : Text) (change : LoginChange)
  | renameGroup (workspace : Workspace) (src dst : Text)
  | moveGroup (workspace : Workspace) (name : Text) (dst : Workspace) (before : Option Text)
  | deleteGroup (workspace : Workspace) (name : Text)
  | trustHostKey (address : Text) (port : UInt16) (algorithm fingerprint publicKey : Text)
  | forgetHostKey (address : Text) (port : UInt16)
  | importSet (set : ImportSet)
deriving DecidableEq

def StoreTx.ignore {α : Type} (m : StoreTx α) : StoreTx Unit := do
  let _ ← m
  pure ()

/-- What an edit may touch, as its lemma asks for it. -/
def LocalOp.InScope {db₀ : Db} (sc : Scope db₀) : LocalOp → Prop
  | saveHost draft => sc.Save draft
  | deleteHost id => sc.Delete id
  | setHostLogin id username domain password =>
    sc.HostLogin id ⟨username, domain, password.elim .keep .set⟩
  | forgetHostPassword id => ∀ host, readHost db₀ id = some host → sc.Save host.withoutPassword
  | moveHost _ _ _ _ => ∀ id, sc.rows .host id
  | createGroup _ _ => True
  | setGroupDrives workspace name _ =>
    ∀ g, groupId db₀ workspace name = some g → sc.rows .group g
  | setGroupLogin workspace name change =>
    ∀ g, groupId db₀ workspace name = some g → sc.GroupLogin g change
  | renameGroup workspace src dst => (∀ id, sc.rows .host id) ∧
      (∀ g d, groupId db₀ workspace src = some g → required dst = .ok d → src ≠ d →
        sc.rows .group g) ∧
      ∀ g d, groupId db₀ workspace src = some g → required dst = .ok d → src ≠ d →
        groupId db₀ workspace d ≠ none → sc.Group g
  | moveGroup workspace name dst before => sc.MoveGroup workspace name dst before
  | deleteGroup workspace name => (∀ id, sc.rows .host id) ∧
      ∀ g, groupId db₀ workspace name = some g → sc.Group g
  | trustHostKey _ _ _ _ _ => ∀ id, sc.rows .knownHost id
  | forgetHostKey _ _ => ∀ id, sc.rows .knownHost id
  | importSet _ => sc.Named

variable {db₀ : Db} {sc : Scope db₀} {cx : Session} {op : LocalOp}

theorem ignore_ensures {α : Type} {P : TxState → Prop} {Q : TxState → Prop} {m : StoreTx α}
    (h : Tx.Ensures P m fun _ => Q) : Tx.Ensures P m.ignore fun _ => Q :=
  Tx.Ensures.bind h fun _ => Tx.Ensures.pure _ fun _ hs => hs

theorem Scope.edit_all (current : Option Uuid) (change : LoginChange) : (Scope.all db₀).Edit current change :=
  ⟨fun _ _ _ _ => ⟨trivial, fun _ => trivial⟩, fun _ _ _ _ _ _ => .inl trivial⟩

theorem Scope.release_all (n : Uuid → ℕ) (i : Uuid) : (Scope.all db₀).Release n i :=
  ⟨fun _ => ⟨trivial, trivial⟩, fun _ _ _ => .inl trivial⟩

theorem LocalOp.inScope_all (op : LocalOp) : op.InScope (Scope.all db₀) := by
  have save : ∀ d, (Scope.all db₀).Save d := fun d =>
    ⟨fun _ _ => trivial, fun _ _ _ _ => Scope.edit_all _ _, fun _ _ _ _ => Scope.edit_all _ _,
      fun _ _ _ _ _ _ => Scope.release_all _ _⟩
  have group : ∀ g, (Scope.all db₀).Group g := fun g => ⟨trivial, fun _ _ _ _ => Scope.release_all _ _⟩
  cases op with
  | saveHost draft => exact save draft
  | deleteHost id => exact ⟨trivial, fun _ _ _ _ => Scope.release_all _ _⟩
  | setHostLogin id username domain password =>
    exact ⟨trivial, fun _ _ => Scope.edit_all _ _, fun _ _ _ _ _ => Scope.release_all _ _⟩
  | forgetHostPassword id => exact fun host _ => save _
  | moveHost id workspace group before => exact fun _ => trivial
  | createGroup workspace name => exact trivial
  | setGroupDrives workspace name drives => exact fun _ _ => trivial
  | setGroupLogin workspace name change =>
    exact fun _ _ =>
      ⟨trivial, fun _ _ => Scope.edit_all _ _, fun _ _ _ _ _ => Scope.release_all _ _⟩
  | renameGroup workspace src dst =>
    exact ⟨fun _ => trivial, fun _ _ _ _ _ => trivial, fun g _ _ _ _ _ => group g⟩
  | moveGroup workspace name dst before =>
    exact ⟨fun _ => trivial, fun g _ _ => ⟨trivial, fun _ => group g⟩, fun _ _ => trivial⟩
  | deleteGroup workspace name => exact ⟨fun _ => trivial, fun g _ => group g⟩
  | trustHostKey address port algorithm fingerprint publicKey => exact fun _ => trivial
  | forgetHostKey address port => exact fun _ => trivial
  | importSet set => exact fun _ _ _ _ _ _ _ _ => trivial

/-! ## Marking what was pushed -/

/-- What one accepted record does to the header of a row. -/
def Pushed.mark (p : Pushed) (k : EntityKind) (id : Uuid) (h : Head) : Head :=
  if p.kind = k ∧ p.id = id ∧ h.hlc = p.updatedAt then
    { h with dirty := false, serverSeq := p.seq }
  else h

theorem head_markOne (db : Db) (p : Pushed) (k : EntityKind) (id : Uuid) :
    (markOne db p).head k id = (db.head k id).map (p.mark k id) := by
  by_cases hk : p.kind = k
  · subst hk
    rw [Db.head, Db.row, markOne, Db.setTable_rows_self, Table.get?_modify, Db.head, Db.row]
    cases hr : (db.rows p.kind).get? id with
    | none => simp
    | some r =>
      by_cases hid : p.id = id
      · subst hid
        simp only [if_true, Option.map_some, Option.some.injEq, Pushed.mark, true_and]
        change Row.head (if r.hlc = p.updatedAt then _ else _) =
          if r.hlc = p.updatedAt then _ else _
        split <;> rfl
      · simp [Ne.symm hid, Pushed.mark, hid]
  · rw [Db.head, Db.row, markOne, Db.setTable_rows_ne _ (Ne.symm hk), Db.head, Db.row]
    cases hr : (db.rows k).get? id with
    | none => rfl
    | some r => simp [Pushed.mark, hk]

def markAll (ps : List Pushed) (k : EntityKind) (id : Uuid) (h : Head) : Head :=
  ps.foldl (fun h p => p.mark k id h) h

theorem head_markPushed (ps : List Pushed) (db : Db) (k : EntityKind) (id : Uuid) :
    (markPushed db ps).1.head k id = (db.head k id).map (markAll ps k id) := by
  induction ps generalizing db with
  | nil =>
    rw [markPushed]
    exact Option.map_id'.symm
  | cons p ps ih =>
    rw [markPushed, ih, head_markOne, Option.map_map]
    rfl

theorem markAll_version (ps : List Pushed) (k : EntityKind) (id : Uuid) (h : Head) :
    (markAll ps k id h).version = h.version := by
  unfold markAll
  induction ps generalizing h with
  | nil => rfl
  | cons p ps ih =>
    rw [List.foldl_cons, ih, Pushed.mark]
    split <;> rfl

theorem markPushed_rest (ps : List Pushed) (db : Db) : SameRest db (markPushed db ps).1 := by
  induction ps generalizing db with
  | nil => exact SameRest.refl db
  | cons p ps ih => exact (SameRest.setTable db _ _).trans (ih (markOne db p))

variable {envs : List Envelope} {device : UInt32} {db db' : Db} {rep : ApplyReport}

variable {env : Envelope} {vault : UnlockedVault}

theorem mem_applySort :
    env ∈ applySort envs ↔ env ∈ envs := List.mem_insertionSort _

/-! ## Running an edit -/

variable [Platform]

def LocalOp.call (cx : Session) : LocalOp → StoreTx Unit
  | saveHost draft => (UwuRdp.saveHost cx draft).ignore
  | deleteHost id => UwuRdp.deleteHost cx id
  | setHostLogin id username domain password =>
    (UwuRdp.setHostLogin cx id username domain password).ignore
  | forgetHostPassword id => (UwuRdp.forgetHostPassword cx id).ignore
  | moveHost id workspace group before => (UwuRdp.moveHost cx id workspace group before).ignore
  | createGroup workspace name => (UwuRdp.createGroup cx workspace name).ignore
  | setGroupDrives workspace name drives => UwuRdp.setGroupDrives cx workspace name drives
  | setGroupLogin workspace name change => UwuRdp.setGroupLogin cx workspace name change
  | renameGroup workspace src dst => UwuRdp.renameGroup cx workspace src dst
  | moveGroup workspace name dst before => UwuRdp.moveGroup cx workspace name dst before
  | deleteGroup workspace name => UwuRdp.deleteGroup cx workspace name
  | trustHostKey address port algorithm fingerprint publicKey =>
    UwuRdp.trustHostKey cx address port algorithm fingerprint publicKey
  | forgetHostKey address port => (UwuRdp.forgetHostKey cx address port).ignore
  | importSet set => UwuRdp.importSet cx set

/-- The database after an edit; one that fails leaves it as it was. -/
def LocalOp.run (cx : Session) (op : LocalOp) (db : Db) : Db := (Session.run db (op.call cx)).2

theorem LocalOp.call_done (h : op.InScope sc) :
    Tx.Ensures (fun s => s.db = db₀) (op.call cx) fun _ s => ∃ n, Mid sc n cx [] s := by
  cases op with
  | saveHost draft => exact ignore_ensures (saveHost_done h)
  | deleteHost id => exact deleteHost_done h
  | setHostLogin id username domain password => exact ignore_ensures (setHostLogin_done h)
  | forgetHostPassword id => exact ignore_ensures (forgetHostPassword_done h)
  | moveHost id workspace group before => exact ignore_ensures (moveHost_done h)
  | createGroup workspace name => exact ignore_ensures createGroup_done
  | setGroupDrives workspace name drives => exact setGroupDrives_done h
  | setGroupLogin workspace name change => exact setGroupLogin_done h
  | renameGroup workspace src dst => exact renameGroup_done h.1 h.2.1 h.2.2
  | moveGroup workspace name dst before => exact moveGroup_done h
  | deleteGroup workspace name => exact deleteGroup_done h.1 h.2
  | trustHostKey address port algorithm fingerprint publicKey => exact trustHostKey_done h
  | forgetHostKey address port => exact ignore_ensures (forgetHostKey_done h)
  | importSet set => exact importSet_done h

theorem LocalOp.run_wrote (cx : Session) (h : op.InScope sc) : ∃ n, Wrote sc n cx.device (op.run cx db₀) := by
  unfold LocalOp.run Session.run
  cases hm : op.call cx ⟨db₀, 0⟩ with
  | ok r =>
    obtain ⟨a, s⟩ := r
    obtain ⟨n, hs⟩ := LocalOp.call_done h ⟨db₀, 0⟩ rfl a s hm
    exact ⟨n, hs.1⟩
  | error e => exact ⟨_, Wrote.refl sc cx.device⟩

theorem LocalOp.run_all (cx : Session) (op : LocalOp) (db : Db) :
    ∃ n, Wrote (Scope.all db) n cx.device (op.run cx db) :=
  LocalOp.run_wrote cx op.inScope_all

/-! ## Calls of syncing -/

/-- A call on the store of one device. -/
inductive StoreCall where
  | edit (cx : Session) (op : LocalOp)
  | apply (vault : Option UnlockedVault) (now : UInt64) (envelopes : List Envelope)
  | markPushed (records : List Pushed)
  | refreshManifest (cx : Session)
  | checkManifests
  | noteIncompletePull
  | setManifestFloor (floor : Option ManifestFloor)
  | setSyncCursor (cursor : ℕ)

def StoreCall.run (device : UInt32) : StoreCall → Db → Db
  | edit cx op, db => op.run { cx with device } db
  | apply vault now envelopes, db => (applyEnvelopes device vault now envelopes).commit db
  | markPushed records, db => (UwuRdp.markPushed db records).1
  | refreshManifest cx, db => (Session.run db (UwuRdp.refreshManifest { cx with device })).2
  | checkManifests, db => UwuRdp.checkManifests db
  | noteIncompletePull, db => UwuRdp.noteIncompletePull db
  | setManifestFloor floor, db => UwuRdp.setManifestFloor db floor
  | setSyncCursor cursor, db => UwuRdp.setSyncCursor db cursor

/-- The database after some calls, one after the other. -/
def runCalls (device : UInt32) (db : Db) (calls : List StoreCall) : Db :=
  calls.foldl (fun db call => call.run device db) db

/-! ## Applying a batch -/

theorem applyOne_rejected (h : applyOne device vault env db = .ok (rep, db')) (hr : rep.rejected ≠ 0) : db' = db := by
  cases applyOne_cases h with
  | foreign | noTable | absent => rfl
  | identical | kept | tombstoned => exact absurd rfl hr
  | inserted payload ho _ _ hv hd hi =>
    rcases insertRecord_spec hi with ⟨rfl, -⟩ | ⟨-, h0, -⟩ | ⟨-, h0, -⟩
    · rfl
    · exact absurd h0 hr
    · exact absurd h0 hr

/-- The ways a batch goes: one record after the other. -/
inductive Applied (device : UInt32) (vault : UnlockedVault) : List Envelope → Db → Db → Prop where
  | nil (db : Db) : Applied device vault [] db db
  | cons (env : Envelope) (rest : List Envelope) (db db₁ db' : Db) (rep : ApplyReport)
      (h : applyOne device vault env db = .ok (rep, db₁)) (hrest : Applied device vault rest db₁ db') :
      Applied device vault (env :: rest) db db'

theorem applyAll_spec {newest : Option Hlc} {out : ApplyReport × Option Hlc}
    (h : applyAll device vault envs rep newest db = .ok (out, db')) : Applied device vault envs db db' ∧
    (∀ c, newest = some c → ∃ c', out.2 = some c' ∧ c ≤ c') ∧
    (∀ c, out.2 = some c → newest = some c ∨ ∃ env ∈ envs, c = env.updatedAt) ∧ ∀ k id hd, db'.head k id = some hd →
    (∃ h₀, db.head k id = some h₀ ∧ h₀.hlc = hd.hlc) ∨ hd.hlc = Hlc.zero ∨ ∃ c, out.2 = some c ∧ hd.hlc ≤ c := by
  induction envs generalizing rep newest db with
  | nil =>
    obtain ⟨rfl, rfl⟩ := Tx.pure_eq_ok.mp h
    exact ⟨.nil db', fun c hc => ⟨c, hc, le_refl c⟩, fun c hc => .inl hc, fun k id hd hh => .inl ⟨hd, hh, rfl⟩⟩
  | cons env rest ih =>
    obtain ⟨o, db₁, h₁, h₂⟩ := Tx.bind_eq_ok.mp h
    obtain ⟨happ, hge, hfrom, hrows⟩ := ih h₂
    refine ⟨.cons env rest db db₁ db' o h₁ happ, fun c hc => ?_, fun c hc => ?_, fun k id hd hh => ?_⟩
    · by_cases hrej : o.rejected = 0
      · rw [if_pos hrej] at hge
        obtain ⟨c', hc', hle⟩ := hge _ rfl
        refine ⟨c', hc', le_trans ?_ hle⟩
        rw [hc]
        exact le_max_left _ _
      · rw [if_neg hrej] at hge
        exact hge c hc
    · rcases hfrom c hc with hn | ⟨e, he, rfl⟩
      · by_cases hrej : o.rejected = 0
        · rw [if_pos hrej] at hn
          have hn := Option.some.inj hn
          cases newest with
          | none => exact .inr ⟨env, List.mem_cons_self, hn.symm⟩
          | some c₀ =>
            rcases le_total env.updatedAt c₀ with hm | hm
            · exact .inl (congrArg some ((max_eq_left hm).symm.trans hn))
            · exact .inr ⟨env, List.mem_cons_self, hn.symm.trans (max_eq_right hm)⟩
        · rw [if_neg hrej] at hn
          exact .inl hn
      · exact .inr ⟨e, List.mem_cons_of_mem env he, rfl⟩
    · rcases hrows k id hd hh with ⟨h₀, hh₀, hhlc⟩ | hz | hc
      swap; · exact .inr (.inl hz)
      swap; · exact .inr (.inr hc)
      by_cases hrej : o.rejected = 0
      swap
      · rw [applyOne_rejected h₁ hrej] at hh₀
        exact .inl ⟨h₀, hh₀, hhlc⟩
      have he := applyOne_effect h₁ k id
      rw [hh₀] at he
      generalize hold : db.head k id = old at he
      cases he with
      | same => exact .inl ⟨h₀, rfl, hhlc⟩
      | stub => exact .inr (.inl hhlc.symm)
      | identical h' | kept h' => exact .inl ⟨h', rfl, hhlc⟩
      | taken =>
        rw [if_pos hrej] at hge
        obtain ⟨c', hc', hle⟩ := hge _ rfl
        refine .inr (.inr ⟨c', hc', ?_⟩)
        rw [← hhlc]
        refine le_trans ?_ hle
        cases newest with
        | none => exact le_refl _
        | some c₀ => exact le_max_right _ _

theorem applyEnvelopes_spec {vault : Option UnlockedVault} {now : UInt64}
    (h : applyEnvelopes device vault now envs db = .ok (rep, db')) : (envs = [] ∧ db' = db) ∨ ∃ v out db₁, vault =
    some v ∧ applyAll device v (applySort envs) {} none db = .ok (out, db₁) ∧ db' = out.2.elim db₁ fun c =>
    db₁.setClock ((db₁.clock device).merge c now) := by
  unfold applyEnvelopes at h
  split at h
  · next he =>
    obtain ⟨-, rfl⟩ := Tx.pure_eq_ok.mp h
    exact Or.inl ⟨List.isEmpty_iff.mp he, rfl⟩
  · cases vault with
    | none => cases h
    | some v =>
      obtain ⟨out, db₁, h₁, h⟩ := Tx.bind_eq_ok.mp h
      obtain ⟨_, db₂, h₂, h⟩ := Tx.bind_eq_ok.mp h
      obtain ⟨-, rfl⟩ := Tx.pure_eq_ok.mp h
      refine .inr ⟨v, out, db₁, rfl, h₁, ?_⟩
      cases ho : out.2 with
      | none | some c =>
        rw [ho] at h₂
        cases h₂
        rfl

theorem Applied.rest (h : Applied device vault envs db db') : SameRest db db' := by
  induction h with
  | nil db => exact SameRest.refl db
  | cons env rest db db₁ db' rep h _ ih => exact (applyOne_rest h).trans ih

/-! ## The manifest of this device -/

theorem refreshManifest_spec (cx : Session) (db : Db) :
    (Session.run db (refreshManifest cx)).2 = db ∨ ∃ now m,
      (Session.run db (refreshManifest cx)).2 =
        ((db.setClock ((db.clock cx.device).tick now)).setRow .manifest
          (Platform.manifestId db.vaultId cx.device)
          ⟨(db.clock cx.device).tick now, false, true,
            (db.row .manifest (Platform.manifestId db.vaultId cx.device)).elim 0 Row.serverSeq, m⟩) := by
  unfold Session.run
  cases hm : refreshManifest cx ⟨db, 0⟩ with
  | error e => exact .inl rfl
  | ok r =>
    obtain ⟨a, s⟩ := r
    unfold refreshManifest at hm
    obtain ⟨id, s₁, h₁, hm⟩ := Tx.bind_eq_ok.mp hm
    cases h₁
    obtain ⟨all, s₂, h₂, hm⟩ := Tx.bind_eq_ok.mp hm
    cases h₂
    obtain ⟨previous, s₃, h₃, hm⟩ := Tx.bind_eq_ok.mp hm
    cases h₃
    split at hm
    · obtain ⟨-, rfl⟩ := Tx.pure_eq_ok.mp hm
      exact .inl rfl
    · obtain ⟨c, s₄, h₄, hm⟩ := Tx.bind_eq_ok.mp hm
      cases h₄
      obtain ⟨_, s₅, h₅, hm⟩ := Tx.bind_eq_ok.mp hm
      cases h₅
      obtain ⟨-, rfl⟩ := Tx.pure_eq_ok.mp hm
      exact .inr ⟨_, _, rfl⟩

end UwuRdp
