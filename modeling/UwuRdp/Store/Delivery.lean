import UwuRdp.Lib.Lww
import UwuRdp.Store.Arrive
import UwuRdp.Store.Preference

/-!
# Records in any order

A set of records can arrive in any order, more than once and split into any batches. Every row is a
last-writer-wins cell (`applyOne_cell`): what arrives is put into it, except a tombstone for a record
that is not here, which is passed over. So what a delivery leaves is the greatest version of every
record, unless such a tombstone comes before the version it deletes.
-/

namespace UwuRdp

open Lib

variable {device : UInt32} {vault : UnlockedVault} {env : Envelope} {db db' db₁ : Db}
  {k : EntityKind} {id : Uuid}

/-! ## Cells -/

def Version.blank : Version := ⟨Hlc.zero, false⟩

/-- The record in a row: its version and, while it lives, its columns. A placeholder is no record. -/
def Row.cell {β : Type} (r : Row β) : Option (Version × Option β) :=
  if r.version = Version.blank then none
  else some (r.version, if r.deleted then none else some r.body)

def Db.cell (db : Db) (k : EntityKind) (id : Uuid) : Option (Version × Option (Body k)) :=
  (db.row k id).bind Row.cell

variable {r : Row (Body k)} {v : Version × Option (Body k)}

theorem cell_of_row (h : db.row k id = some r) : db.cell k id = r.cell := by
  rw [Db.cell, h, Option.bind_some]

theorem cell_of_none (h : db.row k id = none) : db.cell k id = none := by
  rw [Db.cell, h, Option.bind_none]

@[simp] theorem cell_setClock (db : Db) (c : Hlc) (k : EntityKind) (id : Uuid) :
    (db.setClock c).cell k id = db.cell k id := rfl

theorem cell_setRow_self (db : Db) (k : EntityKind) (id : Uuid) (r : Row (Body k)) :
    (db.setRow k id r).cell k id = r.cell :=
  cell_of_row (Db.row_setRow_self db k id r)

theorem cell_setRow_ne {k' : EntityKind} {id' : Uuid}
    (h : ¬(k' = k ∧ id' = id)) : (db.setRow k id r).cell k' id' = db.cell k' id' := by
  rw [Db.cell, Db.row_setRow_ne h, Db.cell]

theorem cell_placeholders (refs : List (EntityKind × Uuid)) (db : Db) (k : EntityKind) (id : Uuid) :
    (placeholders refs db).cell k id = db.cell k id := by
  cases hr : db.row k id with
  | some r => rw [cell_of_row hr, cell_of_row (row_placeholders_of_some hr)]
  | none =>
    rw [cell_of_none hr]
    by_cases hm : (k, id) ∈ refs
    · cases hb : blank k with
      | some b =>
        rw [cell_of_row (row_placeholders_mem hb hm), hr]
        rfl
      | none =>
        rw [cell_of_none]
        rw [← hr]
        exact row_placeholders_of_blank hb
    · rw [cell_of_none]
      rw [row_placeholders_not_mem hm, hr]

theorem blank_lt_version (h : Hlc.zero < env.updatedAt) : Version.blank < env.version := by
  rw [Version.lt_iff]
  cases hd : env.deleted with
  | true =>
    refine .inl ?_
    rw [Envelope.version, hd]
    exact Bool.false_lt_true
  | false => exact Or.inr ⟨by rw [Envelope.version, hd]; rfl, h⟩

variable [Platform]

def Envelope.value (vault : UnlockedVault) (k : EntityKind) (env : Envelope) :
    Version × Option (Body k) :=
  (env.version,
    if env.deleted then none else (vault.openEnvelope env).bind (columns vault env.id k))

def about (vault : UnlockedVault) (k : EntityKind) (id : Uuid) (envs : List Envelope) :
    List (Version × Option (Body k)) :=
  (envs.filter fun env => env.kind = k ∧ env.id = id).map (Envelope.value vault k)

/-- An envelope of the vault with the clock of some write, of a kind whose rows are cells. -/
structure Plain (vault : UnlockedVault) (env : Envelope) : Prop where
  opens : ∃ payload, Opens vault env payload
  notKnownHost : env.kind ≠ .knownHost
  notManifest : env.kind ≠ .manifest
  clock : Hlc.zero < env.updatedAt

theorem value_of_opens {payload : Payload} (ho : Opens vault env payload) (hd : env.deleted = false) :
    env.value vault env.kind = (env.version, columns vault env.id env.kind payload) := by
  unfold Envelope.value
  rw [ho.2.2, hd]
  rfl

theorem value_of_deleted (hd : env.deleted = true) : env.value vault k = (env.version, none) := by
  unfold Envelope.value
  rw [hd]
  rfl

omit [Platform] in
theorem cell_row_of_lt (hv : r.version < v.1) : put r.cell v = some v := by
  unfold Row.cell
  split
  · rfl
  · exact put_of_lt hv

omit [Platform] in
theorem cell_row_of_le (hb : Version.blank < v.1) (hv : v.1 ≤ r.version) : put r.cell v = r.cell := by
  unfold Row.cell
  rw [if_neg (ne_of_gt (hb.trans_le hv))]
  exact put_of_le hv

omit [Platform] in
theorem cell_written {b : Body env.kind} (hc : Hlc.zero < env.updatedAt)
    (hd : env.deleted = false) : (env.row b).cell = some (env.version, some b) := by
  have hv : (env.row b).version = env.version := by
    rw [Envelope.version, hd]
    rfl
  unfold Row.cell
  rw [hv, if_neg (ne_of_gt (blank_lt_version hc))]
  rfl

/-- **What applying a record does to the cells.** -/
structure CellStep (vault : UnlockedVault) (env : Envelope) (db db' : Db) : Prop where
  rows : ∀ k id, (db.row k id).isSome → (db'.row k id).isSome
  other : ∀ k id, ¬(k = env.kind ∧ id = env.id) → db'.cell k id = db.cell k id
  own : (db.row env.kind env.id).isSome ∨ env.deleted = false →
    db'.cell env.kind env.id = put (db.cell env.kind env.id) (env.value vault env.kind)
  absent : db.row env.kind env.id = none → env.deleted = true → db' = db

theorem CellStep.of_setRow {r' : Row (Body env.kind)} {r : Row (Body env.kind)}
    (hr : db.row env.kind env.id = some r)
    (hown : r'.cell = put r.cell (env.value vault env.kind)) :
    CellStep vault env db (db.setRow env.kind env.id r') where
  rows k id h := isSome_setRow db env.kind env.id r' h
  other k id h := cell_setRow_ne h
  own _ := by rw [cell_setRow_self, cell_of_row hr, hown]
  absent h := by
    rw [hr] at h
    cases h

variable {rep : ApplyReport} {schedule : List (UInt64 × List Envelope)} {es order : List Envelope} {e : Envelope}

theorem applyOne_cell (hp : Plain vault env)
    (h : applyOne device vault env db = .ok (rep, db')) : CellStep vault env db db' := by
  have hblank := blank_lt_version hp.clock
  cases applyOne_cases h with
  | foreign hf => exact absurd hp.opens (not_exists.mpr hf)
  | noTable ht =>
    obtain ⟨_, ho⟩ := hp.opens
    rw [ho.2.1] at ht
    cases ht
  | absent payload ho hr hd =>
    refine ⟨fun _ _ h => h, fun _ _ _ => rfl, fun hor => ?_, fun _ _ => rfl⟩
    rw [hr, hd] at hor
    simp at hor
  | identical payload ho r hr hv =>
    refine .of_setRow hr ?_
    rw [cell_row_of_le hblank hv.symm.le]
    rfl
  | kept payload ho r hr hv =>
    refine .of_setRow hr ?_
    rw [cell_row_of_le hblank hv.le]
    rfl
  | tombstoned payload ho r hr hv hd =>
    refine .of_setRow hr ?_
    rw [cell_row_of_lt hv, value_of_deleted hd]
    unfold Row.cell
    rw [if_neg]
    · rw [Envelope.version, hd]
      rfl
    · intro he
      have hdel : true = false := congrArg Version.deleted he
      cases hdel
  | inserted payload ho rep db' hv hd hi =>
    cases hc : columns vault env.id env.kind payload with
    | none =>
      rw [insertRecord_unreadable ho.2.1 hp.notManifest hc] at hi
      cases hi
    | some b =>
      rw [insertRecord_eq hp.notKnownHost hp.notManifest hc] at hi
      cases hi
      refine ⟨fun k id hs => ?_, fun k id hne => ?_, fun _ => ?_, fun _ hdel => ?_⟩
      · refine isSome_setRow _ _ _ _ ?_
        obtain ⟨r, hr⟩ := Option.isSome_iff_exists.mp hs
        rw [row_placeholders_of_some hr]
        rfl
      · rw [cell_setRow_ne hne, cell_placeholders]
      · rw [cell_setRow_self, cell_written hp.clock hd, value_of_opens ho hd, hc]
        cases hr : db.row env.kind env.id with
        | none => rw [cell_of_none hr]; rfl
        | some r => rw [cell_of_row hr, cell_row_of_lt (hv r hr)]
      · rw [hd] at hdel
        cases hdel

/-! ## A delivery -/

/-- Batches applied one after the other, each at some time of the system clock. -/
def deliver (device : UInt32) (vault : UnlockedVault) : List (UInt64 × List Envelope) → DbTx Unit
  | [] => pure ()
  | batch :: rest => do
    let _ ← applyEnvelopes device (some vault) batch.1 batch.2
    deliver device vault rest

/-- The order in which the records of a delivery have their turns. -/
def turns (schedule : List (UInt64 × List Envelope)) : List Envelope :=
  schedule.flatMap fun batch => applySort batch.2

omit [Platform] in
theorem mem_turns : env ∈ turns schedule ↔ ∃ batch ∈ schedule, env ∈ batch.2 := by
  simp only [turns, List.mem_flatMap, applySort, List.mem_insertionSort]

theorem about_append (vault : UnlockedVault) (k : EntityKind) (id : Uuid) (es es' : List Envelope) :
    about vault k id (es ++ es') = about vault k id es ++ about vault k id es' := by
  rw [about, List.filter_append, List.map_append]
  rfl

theorem about_cons_self (vault : UnlockedVault) (env : Envelope) (es : List Envelope) : about vault env.kind env.id
    (env :: es) = env.value vault env.kind :: about vault env.kind env.id es := by
  rw [about, List.filter_cons_of_pos (by simp), List.map_cons]
  rfl

theorem about_cons_ne (h : ¬(k = env.kind ∧ id = env.id)) (es : List Envelope) :
    about vault k id (env :: es) = about vault k id es := by
  rw [about, List.filter_cons_of_neg]
  · rfl
  · rw [decide_eq_true_eq]
    rintro ⟨rfl, rfl⟩
    exact h ⟨rfl, rfl⟩

theorem mem_about {x : Version × Option (Body k)} :
    x ∈ about vault k id es ↔ ∃ e ∈ es, e.kind = k ∧ e.id = id ∧ e.value vault k = x := by
  simp only [about, List.mem_map, List.mem_filter, decide_eq_true_eq]
  constructor
  · rintro ⟨e, ⟨he, hk, hid⟩, hx⟩
    exact ⟨e, he, hk, hid, hx⟩
  · rintro ⟨e, he, hk, hid, hx⟩
    exact ⟨e, ⟨he, hk, hid⟩, hx⟩

/-- A record is here, or nothing that arrives deletes it. -/
def Settled (db : Db) (es : List Envelope) (k : EntityKind) (id : Uuid) : Prop :=
  (db.row k id).isSome ∨ ∀ e ∈ es, e.kind = k → e.id = id → e.deleted = false

theorem Applied.cell (h : Applied device vault order db db') (hp : ∀ e ∈ order, Plain vault e)
    (hs : Settled db order k id) : (∀ k id, (db.row k id).isSome → (db'.row k id).isSome) ∧ db'.cell k id =
    (about vault k id order).foldl put (db.cell k id) := by
  induction h with
  | nil db => exact ⟨fun _ _ h => h, rfl⟩
  | cons env rest db db₁ db' rep hone _ ih =>
    have hstep := applyOne_cell (hp env List.mem_cons_self) hone
    have hs' : Settled db₁ rest k id := by
      rcases hs with hs | hs
      · exact .inl (hstep.rows k id hs)
      · exact .inr fun e he => hs e (List.mem_cons_of_mem env he)
    obtain ⟨hrows, hcell⟩ := ih (fun e he => hp e (List.mem_cons_of_mem env he)) hs'
    refine ⟨fun k id h => hrows k id (hstep.rows k id h), ?_⟩
    rw [hcell]
    by_cases hh : k = env.kind ∧ id = env.id
    · obtain ⟨rfl, rfl⟩ := hh
      rw [about_cons_self, List.foldl_cons, hstep.own]
      exact hs.imp_right fun h => h env List.mem_cons_self rfl rfl
    · rw [about_cons_ne hh, hstep.other k id hh]

theorem applyEnvelopes_applied {now : UInt64} (h : applyEnvelopes device (some vault) now es db = .ok (rep, db')) : ∃
    db₁ c, Applied device vault (applySort es) db db₁ ∧ db' = db₁.setClock c := by
  rcases applyEnvelopes_spec h with ⟨rfl, rfl⟩ | ⟨v, out, db₁, hv, hall, rfl⟩
  · exact ⟨db', ⟨db'.clockWallMs, db'.clockCounter, 0⟩, .nil db', rfl⟩
  · cases hv
    refine ⟨db₁, out.2.elim ⟨db₁.clockWallMs, db₁.clockCounter, 0⟩ fun c =>
      (db₁.clock device).merge c now, (applyAll_spec hall).1, ?_⟩
    cases out.2 <;> rfl

theorem deliver_cons_eq_ok {batch : UInt64 × List Envelope} {rest : List (UInt64 × List Envelope)} {u : Unit} :
    deliver device vault (batch :: rest) db = .ok (u, db') ↔ ∃ rep db₁, applyEnvelopes device (some vault) batch.1
    batch.2 db = .ok (rep, db₁) ∧ deliver device vault rest db₁ = .ok (u, db') :=
  Tx.bind_eq_ok

theorem deliver_cell {schedule : List (UInt64 × List Envelope)} {u : Unit}
    (h : deliver device vault schedule db = .ok (u, db')) (hp : ∀ e ∈ turns schedule, Plain vault e)
    (hs : Settled db (turns schedule) k id) :
    db'.cell k id = (about vault k id (turns schedule)).foldl put (db.cell k id) := by
  induction schedule generalizing db with
  | nil =>
    cases h
    rfl
  | cons batch rest ih =>
    obtain ⟨rep, db₁, h₁, h₂⟩ := deliver_cons_eq_ok.mp h
    obtain ⟨db₂, c, happ, rfl⟩ := applyEnvelopes_applied h₁
    have ht : turns (batch :: rest) = applySort batch.2 ++ turns rest := rfl
    rw [ht] at hp hs ⊢
    have hs₁ : Settled db (applySort batch.2) k id := hs.imp_right fun h e he => h e (List.mem_append_left _ he)
    obtain ⟨hrows, hcell⟩ := happ.cell (fun e he => hp e (List.mem_append_left _ he)) hs₁
    have hs₂ : Settled (db₂.setClock c) (turns rest) k id := by
      rcases hs with hs | hs
      · exact .inl (hrows k id hs)
      · exact .inr fun e he => hs e (List.mem_append_right _ he)
    rw [ih h₂ (fun e he => hp e (List.mem_append_right _ he)) hs₂, cell_setClock, hcell,
      about_append, List.foldl_append]

/-! ## Coming out -/

theorem Held.applyOne (h : Held db e) (hk : e.kind ≠ .knownHost)
    (hone : applyOne device vault env db = .ok (rep, db')) : Held db' e := by
  obtain ⟨hd, hh, hle⟩ := h
  have heff := applyOne_effect hone e.kind e.id
  rw [hh] at heff
  generalize hnew : db'.head e.kind e.id = new at heff
  cases heff with
  | same => exact ⟨hd, hnew, hle⟩
  | identical | kept => exact ⟨_, hnew, hle⟩
  | taken _ _ _ hv => exact ⟨_, hnew, hle.trans (hv hd rfl).le⟩
  | evicted _ hk' => exact absurd hk' hk

/-- A record whose payload can be read, or that is here already. -/
def Takeable (vault : UnlockedVault) (db : Db) (env : Envelope) : Prop :=
  env.deleted = true ∨ (env.value vault env.kind).2.isSome ∨ Held db env

theorem applyOne_takeable (hp : Plain vault env) (h : Takeable vault db env) :
    ∃ rep db', applyOne device vault env db = .ok (rep, db') := by
  obtain ⟨payload, ho⟩ := hp.opens
  by_cases hh : Held db env
  · obtain ⟨hd, hhead, -⟩ := id hh
    obtain ⟨r, hr, -⟩ := Db.head_eq_some.mp hhead
    rw [applyOne_of_opens ho]
    simp only [hr]
    cases hv : resolve r.version env.version with
    | identical | keepLocal => exact ⟨_, _, rfl⟩
    | takeRemote => exact absurd hv (resolve_of_held hr hh)
  cases hd : env.deleted with
  | true =>
    rw [applyOne_of_opens ho]
    cases hr : db.row env.kind env.id with
    | none =>
      simp only [hd, if_true]
      exact ⟨_, _, rfl⟩
    | some r =>
      have hres : resolve r.version env.version = .takeRemote := by
        by_contra hn
        exact hh (held_of_resolve hr hn)
      simp only [hres, hd, if_true]
      exact ⟨_, _, rfl⟩
  | false =>
    have hc : (env.value vault env.kind).2.isSome := by
      rcases h with h | h | h
      · rw [hd] at h
        cases h
      · exact h
      · exact absurd h hh
    rw [value_of_opens ho hd] at hc
    obtain ⟨b, hb⟩ := Option.isSome_iff_exists.mp hc
    rw [applyOne_wanted ho hd hh, insertRecord_eq hp.notKnownHost hp.notManifest hb]
    exact ⟨_, _, rfl⟩

theorem Takeable.applyOne (h : Takeable vault db e) (hk : e.kind ≠ .knownHost)
    (hone : applyOne device vault env db = .ok (rep, db')) : Takeable vault db' e :=
  h.imp_right fun h => h.imp_right fun h => h.applyOne hk hone

theorem Applied.takeable
    (h : Applied device vault order db db') (ht : Takeable vault db e) (hk : e.kind ≠ .knownHost) :
    Takeable vault db' e := by
  induction h with
  | nil db => exact ht
  | cons env rest db db₁ db' rep hone _ ih => exact ih (ht.applyOne hk hone)

theorem applyAll_takeable (order : List Envelope) (rep : ApplyReport) (newest : Option Hlc)
    (hp : ∀ e ∈ order, Plain vault e) (ht : ∀ e ∈ order, Takeable vault db e) :
    ∃ out db', applyAll device vault order rep newest db = .ok (out, db') := by
  induction order generalizing db rep newest with
  | nil => exact ⟨_, _, rfl⟩
  | cons env order ih =>
    obtain ⟨o, db₁, hone⟩ := @applyOne_takeable device _ _ _ _ (hp env List.mem_cons_self) (ht env List.mem_cons_self)
    unfold applyAll
    rw [Tx.bind_of_ok hone]
    refine ih _ _ (fun e he => hp e (List.mem_cons_of_mem env he)) fun e he => ?_
    have hm := List.mem_cons_of_mem env he
    exact (ht e hm).applyOne (hp e hm).notKnownHost hone

theorem applyEnvelopes_takeable {es : List Envelope} (now : UInt64) (hp : ∀ e ∈ es, Plain vault e)
    (ht : ∀ e ∈ es, Takeable vault db e) :
    ∃ rep db', applyEnvelopes device (some vault) now es db = .ok (rep, db') := by
  have hmem : ∀ e ∈ applySort es, e ∈ es := fun e he => by
    rwa [applySort, List.mem_insertionSort] at he
  obtain ⟨out, db₁, hall⟩ := @applyAll_takeable device _ _ _ (applySort es) {} none
    (fun e he => hp e (hmem e he)) fun e he => ht e (hmem e he)
  obtain ⟨c, hc⟩ := catchUp_eq device now out.2 db₁
  refine ⟨out.1, db₁.setClock c, ?_⟩
  rw [applyEnvelopes_eq, Tx.bind_of_ok hall, Tx.bind_of_ok hc]
  rfl

theorem deliver_takeable (hp : ∀ e ∈ turns schedule, Plain vault e) (ht : ∀ e ∈ turns schedule, Takeable vault db e) :
    ∃ db', deliver device vault schedule db = .ok ((), db') := by
  induction schedule generalizing db with
  | nil => exact ⟨db, rfl⟩
  | cons batch rest ih =>
    have hb : ∀ e ∈ batch.2, e ∈ turns (batch :: rest) := fun e he =>
      mem_turns.mpr ⟨batch, List.mem_cons_self, he⟩
    have hr : ∀ e ∈ turns rest, e ∈ turns (batch :: rest) := fun e he =>
      List.mem_append_right _ he
    obtain ⟨rep, db₁, h₁⟩ := @applyEnvelopes_takeable device _ _ _ _ batch.1 (fun e he => hp e (hb e he))
      fun e he => ht e (hb e he)
    obtain ⟨db₂, c, happ, rfl⟩ := applyEnvelopes_applied h₁
    obtain ⟨db', h₂⟩ := @ih (db₂.setClock c) (fun e he => hp e (hr e he)) fun e he =>
      happ.takeable (ht e (hr e he)) (hp e (hr e he)).notKnownHost
    exact ⟨db', deliver_cons_eq_ok.mpr ⟨rep, _, h₁, h₂⟩⟩

/-! ## Any order -/

def deliveredKinds : List EntityKind := [.group, .identity, .secret, .host]

/-- An envelope some device of the account sealed: its seal holds, and it has the clock of a write. -/
structure Authentic (vault : UnlockedVault) (env : Envelope) : Prop where
  opens : ∃ payload, Opens vault env payload
  kind : env.kind ∈ deliveredKinds
  clock : Hlc.zero < env.updatedAt

omit [Platform] in
theorem Authentic.plain (h : Authentic vault env) : Plain vault env := by
  refine ⟨h.opens, ?_, ?_, h.clock⟩
  · intro hk
    have hm := h.kind
    rw [hk] at hm
    exact absurd hm (by decide)
  · intro hk
    have hm := h.kind
    rw [hk] at hm
    exact absurd hm (by decide)

/-- A delivery of exactly these envelopes, in some order, some of them perhaps more than once. -/
structure Delivers (schedule : List (UInt64 × List Envelope)) (es : List Envelope) : Prop where
  only : ∀ batch ∈ schedule, ∀ e ∈ batch.2, e ∈ es
  all : ∀ e ∈ es, ∃ batch ∈ schedule, e ∈ batch.2

/-- Every delivery of these envelopes comes out, leaves the greatest version of every record among
what was here and what arrived, and leaves the same as every other one. -/
structure OrderFree (device : UInt32) (vault : UnlockedVault) (es : List Envelope) (db : Db) :
    Prop where
  comes : ∀ schedule, Delivers schedule es →
    ∃ db', deliver device vault schedule db = .ok ((), db')
  greatest : ∀ schedule db', Delivers schedule es →
    deliver device vault schedule db = .ok ((), db') → ∀ k ∈ deliveredKinds, ∀ id,
      Greatest (Offered (db.cell k id) (about vault k id es)) (db'.cell k id)
  same : ∀ schedule schedule' db' db'', Delivers schedule es → Delivers schedule' es →
    deliver device vault schedule db = .ok ((), db') →
    deliver device vault schedule' db = .ok ((), db'') → ∀ k ∈ deliveredKinds, ∀ id,
      db'.cell k id = db''.cell k id

/-- What is deleted is here; what lives can be read, or is here already; and a version beyond what is
here has one payload. -/
structure Orderly (vault : UnlockedVault) (es : List Envelope) (db : Db) : Prop where
  tombstones : ∀ e ∈ es, e.deleted = true → (db.row e.kind e.id).isSome
  readable : ∀ e ∈ es, Takeable vault db e
  onePayload : ∀ e ∈ es, ∀ e' ∈ es, e'.kind = e.kind → e'.id = e.id → e'.version = e.version →
    (∀ x ∈ es, x.kind = e.kind → x.id = e.id → x.version ≤ e.version) → ¬Held db e →
    e'.value vault e.kind = e.value vault e.kind

omit [Platform] in
theorem Delivers.mem_turns (h : Delivers schedule es) : env ∈ turns schedule ↔ env ∈ es := by
  rw [UwuRdp.mem_turns]
  exact ⟨fun ⟨b, hb, he⟩ => h.only b hb env he, h.all env⟩

theorem Delivers.mem_about (h : Delivers schedule es) (x : Version × Option (Body k)) : x ∈ about vault k id
    (turns schedule) ↔ x ∈ about vault k id es := by
  simp only [UwuRdp.mem_about, h.mem_turns]

omit [Platform] in
theorem delivers_after {es first : List Envelope} (hf : ∀ e ∈ first, e ∈ es) : Delivers [(0, first), (0, es)] es := by
  refine ⟨fun batch hb e he => ?_, fun e he => ⟨(0, es), by simp, he⟩⟩
  simp only [List.mem_cons, List.not_mem_nil, or_false] at hb
  rcases hb with rfl | rfl
  · exact hf e he
  · exact he

theorem Orderly.settled (h : Orderly vault es db) (hd : Delivers schedule es) (k : EntityKind) (id : Uuid) : Settled
    db (turns schedule) k id := by
  by_cases ht : ∃ e ∈ es, e.kind = k ∧ e.id = id ∧ e.deleted = true
  · obtain ⟨e, he, rfl, rfl, hdel⟩ := ht
    exact .inl (h.tombstones e he hdel)
  · refine .inr fun e he hk hid => ?_
    by_contra hdel
    exact ht ⟨e, hd.mem_turns.mp he, hk, hid, by simpa using hdel⟩

omit [Platform] in
theorem cell_of_held (hc : Hlc.zero < env.updatedAt)
    (h : Held db env) : ∃ cur, db.cell env.kind env.id = some cur ∧ env.version ≤ cur.1 := by
  obtain ⟨hd, hh, hle⟩ := h
  obtain ⟨r, hr, rfl⟩ := Db.head_eq_some.mp hh
  have hle : env.version ≤ r.version := hle
  refine ⟨(r.version, if r.deleted then none else some r.body), ?_, hle⟩
  rw [cell_of_row hr, Row.cell, if_neg (ne_of_gt ((blank_lt_version hc).trans_le hle))]

theorem orderFree_of_orderly (ha : ∀ e ∈ es, Authentic vault e)
    (h : Orderly vault es db) : OrderFree device vault es db := by
  have hplain : ∀ schedule, Delivers schedule es → ∀ e ∈ turns schedule, Plain vault e :=
    fun schedule hd e he => (ha e (hd.mem_turns.mp he)).plain
  refine ⟨fun schedule hd => ?_, fun schedule db' hd hdel k _ id => ?_,
    fun schedule schedule' db' db'' hd hd' hdel hdel' k _ id => ?_⟩
  · exact deliver_takeable (hplain schedule hd) fun e he => h.readable e (hd.mem_turns.mp he)
  · rw [deliver_cell hdel (hplain schedule hd) (h.settled hd k id)]
    have hg := foldl_put_greatest (db.cell k id) (about vault k id (turns schedule))
    have hoff : Offered (db.cell k id) (about vault k id (turns schedule)) =
        Offered (db.cell k id) (about vault k id es) := by
      funext x
      rw [Offered, Offered, hd.mem_about]
    rwa [hoff] at hg
  · rw [deliver_cell hdel (hplain schedule hd) (h.settled hd k id),
      deliver_cell hdel' (hplain schedule' hd') (h.settled hd' k id)]
    refine foldl_put_eq (fun x => (hd.mem_about x).trans (hd'.mem_about x).symm) ?_
    intro x hx y hy hxy htop hbeyond
    obtain ⟨e, he, rfl, rfl, rfl⟩ := mem_about.mp hx
    obtain ⟨e', he', hk', hid', rfl⟩ := mem_about.mp hy
    have he := hd.mem_turns.mp he
    refine (h.onePayload e he e' (hd.mem_turns.mp he') hk' hid' hxy.symm ?_ ?_).symm
    · intro z hz hzk hzid
      refine htop (z.value vault e.kind) (.inr ?_)
      exact mem_about.mpr ⟨z, hd.mem_turns.mpr hz, hzk, hzid, rfl⟩
    · intro hheld
      obtain ⟨cur, hcur, hle⟩ := cell_of_held (ha e he).clock hheld
      exact absurd (hbeyond cur hcur) (not_lt.mpr hle)

/-! ## Deliveries that show what is missing -/

theorem Applied.skipped (h : Applied device vault order db db') (hp : ∀ e ∈ order, Plain vault e)
    (hr : db.row k id = none) (ht : ∀ e ∈ order, e.kind = k ∧ e.id = id ∧ e.deleted = true) : db' = db := by
  induction h with
  | nil db => rfl
  | cons env rest db db₁ db' rep hone _ ih =>
    obtain ⟨rfl, rfl, hd⟩ := ht env List.mem_cons_self
    have he : db₁ = db := (applyOne_cell (hp env List.mem_cons_self) hone).absent hr hd
    rw [ih (fun e he => hp e (List.mem_cons_of_mem env he)) (by rw [he]; exact hr)
      (fun e he => ht e (List.mem_cons_of_mem env he)), he]

theorem OrderFree.tombstones (ha : ∀ e ∈ es, Authentic vault e) (h : OrderFree device vault es db) (he : e ∈ es)
    (hdel : e.deleted = true) : (db.row e.kind e.id).isSome := by
  by_contra hn
  have hnone : db.row e.kind e.id = none := by simpa using hn
  let t : Envelope → Bool := fun x => x.kind = e.kind && x.id = e.id && x.deleted
  have ht : ∀ x, t x = true ↔ x.kind = e.kind ∧ x.id = e.id ∧ x.deleted = true := by
    intro x
    simp only [t, Bool.and_eq_true, decide_eq_true_eq, and_assoc]
  have hd : Delivers [(0, es.filter t), (0, es.filter fun x => !t x)] es := by
    refine ⟨fun batch hb x hx => ?_, fun x hx => ?_⟩
    · simp only [List.mem_cons, List.not_mem_nil, or_false] at hb
      rcases hb with rfl | rfl <;> exact List.mem_of_mem_filter hx
    · cases htx : t x with
      | true => exact ⟨_, List.mem_cons_self, List.mem_filter.mpr ⟨hx, htx⟩⟩
      | false =>
        refine ⟨_, List.mem_cons_of_mem _ List.mem_cons_self, List.mem_filter.mpr ⟨hx, ?_⟩⟩
        rw [htx]
        rfl
  obtain ⟨db', hok⟩ := h.comes _ hd
  have hg := h.greatest _ db' hd hok e.kind (ha e he).kind e.id
  -- The first batch leaves the rows as they were.
  obtain ⟨rep, db₁, h₁, h₂⟩ := deliver_cons_eq_ok.mp hok
  obtain ⟨db₂, c, happ, rfl⟩ := applyEnvelopes_applied h₁
  have hfirst : ∀ x ∈ applySort (es.filter t), x ∈ es ∧ t x = true := fun x hx => by
    rwa [applySort, List.mem_insertionSort, List.mem_filter] at hx
  have hsame : db₂ = db := happ.skipped (fun x hx => (ha x (hfirst x hx).1).plain) hnone
    fun x hx => (ht x).mp (hfirst x hx).2
  subst hsame
  -- Nothing in the second one deletes the record.
  have hsecond : ∀ x ∈ turns [(0, es.filter fun x => !t x)], x ∈ es ∧ t x = false := by
    intro x hx
    obtain ⟨batch, hb, hxb⟩ := mem_turns.mp hx
    rw [List.mem_singleton.mp hb, List.mem_filter] at hxb
    exact ⟨hxb.1, by simpa using hxb.2⟩
  have hlive : ∀ x ∈ turns [(0, es.filter fun x => !t x)], x.kind = e.kind → x.id = e.id → x.deleted = false := by
    intro x hx hxk hxid
    by_contra hxd
    have := (ht x).mpr ⟨hxk, hxid, by simpa using hxd⟩
    rw [(hsecond x hx).2] at this
    cases this
  have hcell := @deliver_cell _ _ _ _ e.kind e.id _ _ _ h₂ (fun x hx => (ha x (hsecond x hx).1).plain) (.inr hlive)
  rw [cell_setClock, cell_of_none hnone] at hcell
  have hg' := foldl_put_greatest (none : Option (Version × Option (Body e.kind)))
    (about vault e.kind e.id (turns [(0, es.filter fun x => !t x)]))
  rw [← hcell] at hg'
  have hoffered : Offered (db₂.cell e.kind e.id) (about vault e.kind e.id es)
      (e.value vault e.kind) := Or.inr (mem_about.mpr ⟨e, he, rfl, rfl, rfl⟩)
  cases hx : db'.cell e.kind e.id with
  | none =>
    rw [hx] at hg
    exact hg _ hoffered
  | some x =>
    rw [hx] at hg hg'
    have hle : e.version ≤ x.1 := hg.2 _ hoffered
    obtain ⟨y, hy, hyk, hyid, rfl⟩ := mem_about.mp (hg'.1.resolve_left (by simp))
    have hyd : y.version.deleted = false := hlive y hy hyk hyid
    rcases Version.le_iff.mp hle with hlt | ⟨heq, -⟩
    · have hlt : e.deleted < y.version.deleted := hlt
      rw [hdel, hyd] at hlt
      cases hlt
    · have heq : e.deleted = y.version.deleted := heq
      rw [hdel, hyd] at heq
      cases heq

theorem OrderFree.takeable (ha : ∀ e ∈ es, Authentic vault e)
    (h : OrderFree device vault es db) (he : e ∈ es) : Takeable vault db e := by
  by_contra hn
  unfold Takeable at hn
  push Not at hn
  obtain ⟨hd, hc, hh⟩ := hn
  have hd : e.deleted = false := by simpa using hd
  obtain ⟨payload, ho⟩ := (ha e he).opens
  obtain ⟨db', hok⟩ := h.comes _ (@delivers_after es [e] (by simpa using he))
  obtain ⟨rep, db₁, h₁, -⟩ := deliver_cons_eq_ok.mp hok
  obtain ⟨db₂, c, happ, -⟩ := applyEnvelopes_applied h₁
  rw [value_of_opens ho hd] at hc
  have herr := @applyOne_wanted device _ _ _ _ _ ho hd hh
  rw [insertRecord_unreadable ho.2.1 (ha e he).plain.notManifest (by simpa using hc)] at herr
  cases happ with
  | cons _ _ _ _ _ _ hone =>
    rw [herr] at hone
    cases hone

theorem deliver_first (ha : ∀ e ∈ es, Authentic vault e) (he : e ∈ es) (hd : e.deleted = false)
    (htop : ∀ x ∈ es, x.kind = e.kind → x.id = e.id → x.version ≤ e.version) (hh : ¬Held db e)
    (hok : deliver device vault [(0, [e]), (0, es)] db = .ok ((), db')) : db'.cell e.kind e.id = some
    (e.value vault e.kind) := by
  have hdel : Delivers [(0, [e]), (0, es)] es := delivers_after (by simpa using he)
  have hlive : ∀ x ∈ turns [(0, [e]), (0, es)], x.kind = e.kind → x.id = e.id → x.deleted = false := by
    intro x hx hk hid
    rcases Version.le_iff.mp (htop x (hdel.mem_turns.mp hx) hk hid) with hlt | ⟨heq, -⟩
    · have hlt : x.deleted < e.deleted := hlt
      rw [hd] at hlt
      exact absurd hlt (not_lt.mpr bot_le)
    · exact heq.trans hd
  rw [deliver_cell hok (fun x hx => (ha x (hdel.mem_turns.mp hx)).plain) (Or.inr hlive)]
  have hturns : turns [(0, [e]), (0, es)] = e :: turns [(0, es)] := rfl
  have hput : put (db.cell e.kind e.id) (e.value vault e.kind) = some (e.value vault e.kind) := by
    cases hr : db.row e.kind e.id with
    | none => rw [cell_of_none hr]; rfl
    | some r =>
      rw [cell_of_row hr]
      refine cell_row_of_lt (not_le.mp fun hle => hh ?_)
      exact ⟨r.head, Db.head_eq_some.mpr ⟨r, hr, rfl⟩, hle⟩
  rw [hturns, about_cons_self, List.foldl_cons, hput]
  refine foldl_put_of_le fun y hy => ?_
  obtain ⟨x, hx, hk, hid, rfl⟩ := mem_about.mp hy
  refine htop x (hdel.mem_turns.mp ?_) hk hid
  rw [hturns]
  exact List.mem_cons_of_mem e hx

/-- **Every delivery of some envelopes leaves the greatest version of every record exactly when what
they delete is here, what lives can be read, and a version has one payload.** -/
theorem orderFree_iff {es : List Envelope} (ha : ∀ e ∈ es, Authentic vault e) :
    OrderFree device vault es db ↔ Orderly vault es db := by
  refine ⟨fun h => ⟨fun e he => h.tombstones ha he, fun e he => h.takeable ha he, ?_⟩, orderFree_of_orderly ha⟩
  intro e he e' he' hk hid hv htop hh
  cases hd : e.deleted with
  | true =>
    have hd' : e'.deleted = true := (congrArg Version.deleted hv).trans hd
    rw [value_of_deleted hd, value_of_deleted hd', hv]
  | false =>
    have hd' : e'.deleted = false := (congrArg Version.deleted hv).trans hd
    have hh' : ¬Held db e' := by
      unfold Held at hh ⊢
      rw [hk, hid, hv]
      exact hh
    have hdel := @delivers_after es [e] (by simpa using he)
    have hdel' := @delivers_after es [e'] (by simpa using he')
    obtain ⟨db₁, hok⟩ := h.comes _ hdel
    obtain ⟨db₂, hok'⟩ := h.comes _ hdel'
    have hsame := h.same _ _ db₁ db₂ hdel hdel' hok hok' e.kind (ha e he).kind e.id
    have h₁ := deliver_first ha he hd htop hh hok
    have h₂ := deliver_first ha he' hd' (fun x hx hxk hxid => by
      rw [hv]
      exact htop x hx (hxk.trans hk) (hxid.trans hid)) hh' hok'
    rw [hk, hid] at h₂
    rw [h₁, h₂] at hsame
    exact (Option.some.inj hsame).symm

def renamedGroup : List Envelope :=
  [sealedAt 950 6 .group false (groupOf "b") 2, sealedAt 900 6 .group false (groupOf "a") 1]

omit [Platform] in
theorem orderFree_renamed :
    letI := asciiPlatform
    OrderFree 1 ⟨1, 7⟩ renamedGroup (Db.fresh 1) := by
  let _ := asciiPlatform
  have hauth : ∀ e ∈ renamedGroup, Authentic ⟨1, 7⟩ e := by
    intro e he
    rcases List.mem_cons.mp he with rfl | he
    · exact ⟨⟨groupOf "b", rfl, rfl, by decide⟩, by decide, by decide⟩
    · rw [List.mem_singleton.mp he]
      exact ⟨⟨groupOf "a", rfl, rfl, by decide⟩, by decide, by decide⟩
  have hlive : ∀ e ∈ renamedGroup, e.deleted = false ∧ (e.value ⟨1, 7⟩ e.kind).2.isSome = true := by decide +kernel
  have hone : ∀ e ∈ renamedGroup, ∀ e' ∈ renamedGroup, e'.version = e.version → e' = e := by
    decide +kernel
  refine (orderFree_iff hauth).mpr ⟨fun e he hd => ?_, fun e he => ?_, ?_⟩
  · rw [(hlive e he).1] at hd
    cases hd
  · exact .inr (.inl (hlive e he).2)
  · intro e he e' he' _ _ hv _ _
    rw [hone e he e' he' hv]

def deletedGroup : List Envelope :=
  [sealedAt 950 6 .group true (.bytes []) 2, sealedAt 900 6 .group false (groupOf "a") 1]

omit [Platform] in
/-- The tombstone can come first, and is lost then. -/
theorem tombstone_first_lost :
    letI := asciiPlatform
    ¬∀ (device : UInt32) (vault : UnlockedVault) (es : List Envelope) (db : Db),
      (∀ k id r, db.row k id = some r → r.dirty = false) → (∀ e ∈ es, Authentic vault e) →
      OrderFree device vault es db := by
  let _ := asciiPlatform
  intro hall
  have hauth : ∀ e ∈ deletedGroup, Authentic ⟨1, 7⟩ e := by
    intro e he
    rcases List.mem_cons.mp he with rfl | he
    · exact ⟨⟨.bytes [], rfl, rfl, by decide⟩, by decide, by decide⟩
    · rw [List.mem_singleton.mp he]
      exact ⟨⟨groupOf "a", rfl, rfl, by decide⟩, by decide, by decide⟩
  have hclean : ∀ k id r, (Db.fresh 1).row k id = some r → r.dirty = false := by
    intro k id r hr
    rw [Db.row_fresh] at hr
    cases hr
  have hhere := (hall 1 ⟨1, 7⟩ deletedGroup (Db.fresh 1) hclean hauth).tombstones hauth List.mem_cons_self rfl
  rw [Db.row_fresh] at hhere
  cases hhere

/-- The tombstone in one batch and the group in the next leave the group alive. -/
example :
    letI := asciiPlatform
    ((deliver 1 ⟨1, 7⟩ (deletedGroup.map fun e => (0, [e])) (Db.fresh 1)).toOption.bind fun r =>
      (r.2.cell .group 6).map fun x => x.1.deleted) = some false := by
  decide +kernel

end UwuRdp
