import UwuRdp.Store.Sync

/-!
# What applying a record can do

`HeadEffect` says everything that happens to the sync header of a row when one envelope is applied:
nothing, a placeholder appears for what the record points at, the envelope's own row is confirmed,
kept or replaced, and a host key gives up its slot. `applyOne_effect` is the one place that takes
`applyOne` apart; what a batch does follows from it.
-/

namespace UwuRdp

open Lib

/-! ## What an envelope points at -/

def Payload.refs : EntityKind → Payload → List (EntityKind × Uuid)
  | .host, .host p => p.groupId.toList.map (EntityKind.group, ·) ++
      p.identityId.toList.map (EntityKind.identity, ·) ++
      p.gatewayIdentityId.toList.map (EntityKind.identity, ·)
  | .group, .group p => p.identityId.toList.map (EntityKind.identity, ·)
  | .identity, .identity p => p.keyId.toList.map (EntityKind.key, ·) ++
      p.passwordSecretId.toList.map (EntityKind.secret, ·)
  | .key, .key p => p.privateSecretId.toList.map (EntityKind.secret, ·) ++
      p.passphraseSecretId.toList.map (EntityKind.secret, ·)
  | _, _ => []

/-- The records an envelope points at, for whoever has the vault's key. -/
def Envelope.refs (vault : UnlockedVault) (env : Envelope) : List (EntityKind × Uuid) :=
  (vault.openEnvelope env).elim [] (Payload.refs env.kind)

def stubHead : Head := ⟨Hlc.zero, false, false, 0⟩

/-- What one envelope can do to the header of a row. -/
inductive HeadEffect (refs : List (EntityKind × Uuid)) (env : Envelope) (k : EntityKind)
    (id : Uuid) : Option Head → Option Head → Prop where
  | same (h : Option Head) : HeadEffect refs env k id h h
  /-- A placeholder for a record that has not arrived. -/
  | stub (href : (k, id) ∈ refs) : HeadEffect refs env k id none (some stubHead)
  /-- The server confirms what is here. -/
  | identical (h : Head) (hk : k = env.kind) (hid : id = env.id) (hv : h.version = env.version) :
      HeadEffect refs env k id (some h) (some { h with dirty := false, serverSeq := env.seq.getD 0 })
  /-- What is here is preferred and stays. -/
  | kept (h : Head) (hk : k = env.kind) (hid : id = env.id) (hv : env.version < h.version) :
      HeadEffect refs env k id (some h) (some { h with serverSeq := env.seq.getD 0 })
  /-- The server's version is taken. -/
  | taken (old : Option Head) (hk : k = env.kind) (hid : id = env.id)
      (hv : ∀ h, old = some h → h.version < env.version) (hn : old = none → env.deleted = false) :
      HeadEffect refs env k id old (some ⟨env.updatedAt, env.deleted, false, env.seq.getD 0⟩)
  /-- A host key gives up its slot to a record that is not older. -/
  | evicted (h : Head) (hk : k = .knownHost) (hkind : env.kind = .knownHost) (hid : id ≠ env.id)
      (hd : env.deleted = false) (hc : h.hlc ≤ env.updatedAt) :
      HeadEffect refs env k id (some h) none

/-- Two databases that differ in their rows and in what was superseded only. -/
structure SameRest (db db' : Db) : Prop where
  vaultId : db'.vaultId = db.vaultId
  clockWallMs : db'.clockWallMs = db.clockWallMs
  clockCounter : db'.clockCounter = db.clockCounter
  violations : db'.violations = db.violations
  cursor : db'.cursor = db.cursor
  floor : db'.floor = db.floor
  header : db'.header = db.header
  enrolment : db'.enrolment = db.enrolment
  lock : db'.lock = db.lock

namespace SameRest

variable {db db₁ db' : Db}

theorem refl (db : Db) : SameRest db db := ⟨rfl, rfl, rfl, rfl, rfl, rfl, rfl, rfl, rfl⟩

theorem trans (h : SameRest db db₁) (h' : SameRest db₁ db') : SameRest db db' :=
  ⟨h'.vaultId.trans h.vaultId, h'.clockWallMs.trans h.clockWallMs,
    h'.clockCounter.trans h.clockCounter, h'.violations.trans h.violations,
    h'.cursor.trans h.cursor, h'.floor.trans h.floor, h'.header.trans h.header,
    h'.enrolment.trans h.enrolment, h'.lock.trans h.lock⟩

theorem setRow (db : Db) (k : EntityKind) (id : Uuid) (r : Row (Body k)) :
    SameRest db (db.setRow k id r) := ⟨rfl, rfl, rfl, rfl, rfl, rfl, rfl, rfl, rfl⟩

theorem setTable (db : Db) (k : EntityKind) (t : Table Uuid (Row (Body k))) :
    SameRest db (db.setTable k t) := ⟨rfl, rfl, rfl, rfl, rfl, rfl, rfl, rfl, rfl⟩

theorem supersede (db : Db) (id : Uuid) (clock : Hlc) : SameRest db (supersede db id clock) := by
  unfold UwuRdp.supersede
  split
  · exact ⟨rfl, rfl, rfl, rfl, rfl, rfl, rfl, rfl, rfl⟩
  · split
    · exact ⟨rfl, rfl, rfl, rfl, rfl, rfl, rfl, rfl, rfl⟩
    · exact refl db

end SameRest

@[simp] theorem rows_supersede (db : Db) (id : Uuid) (clock : Hlc) :
    (supersede db id clock).rows = db.rows := by
  unfold supersede
  split
  · rfl
  · split <;> rfl

@[simp] theorem head_supersede (db : Db) (id : Uuid) (clock : Hlc) (k : EntityKind) (i : Uuid) :
    (supersede db id clock).head k i = db.head k i := by
  rw [Db.head, Db.row, rows_supersede, Db.head, Db.row]

/-! ## Placeholders -/

/-- Placeholders were made for some of `refs`, and nothing else happened. -/
structure Stubbed (refs : List (EntityKind × Uuid)) (db db' : Db) : Prop where
  heads : ∀ k id, db'.head k id = db.head k id ∨
    (db.head k id = none ∧ (k, id) ∈ refs ∧ db'.head k id = some stubHead)
  rows : ∀ k id r, db.row k id = some r → db'.row k id = some r
  bare : ∀ k id r, db'.row k id = some r → db.row k id = some r ∨ Body.refs k r.body = []
  knownHost : db'.rows .knownHost = db.rows .knownHost
  superseded : db'.superseded = db.superseded
  rest : SameRest db db'

namespace Stubbed

variable {db db₁ db' : Db} {refs refs' : List (EntityKind × Uuid)}

theorem refl (refs : List (EntityKind × Uuid)) (db : Db) : Stubbed refs db db :=
  ⟨fun _ _ => .inl rfl, fun _ _ _ h => h, fun _ _ _ h => .inl h, rfl, rfl, SameRest.refl db⟩

theorem trans (h : Stubbed refs db db₁) (h' : Stubbed refs' db₁ db') :
    Stubbed (refs ++ refs') db db' where
  heads k id := by
    rcases h.heads k id with e | ⟨hn, hm, hs⟩
    · rcases h'.heads k id with e' | ⟨hn', hm', hs'⟩
      · exact .inl (e'.trans e)
      · exact .inr ⟨e ▸ hn', List.mem_append_right _ hm', hs'⟩
    · rcases h'.heads k id with e' | ⟨hn', -, -⟩
      · exact .inr ⟨hn, List.mem_append_left _ hm, e'.trans hs⟩
      · rw [hs] at hn'
        cases hn'
  rows k id r hr := h'.rows k id r (h.rows k id r hr)
  bare k id r hr := (h'.bare k id r hr).elim (h.bare k id r) .inr
  knownHost := h'.knownHost.trans h.knownHost
  superseded := h'.superseded.trans h.superseded
  rest := h.rest.trans h'.rest

end Stubbed

variable {k : EntityKind} {id : Uuid} {payload : Payload}

variable {b : Body k} {u : Unit} {p : KnownHostPayload}

theorem stubbed_of_stub {db db' : Db} (hk : k ≠ .knownHost) (hb : Body.refs k b = [])
    (h : stub k b id db = .ok (u, db')) : Stubbed [(k, id)] db db' := by
  have e : db' = if (db.row k id).isSome then db else db.setRow k id (placeholder b) := by
    cases h; rfl
  subst e
  split
  · exact Stubbed.refl _ db
  · next hn =>
    have hn : db.row k id = none := by simpa using hn
    refine ⟨fun k' id' => ?_, fun k' id' r hr => ?_, fun k' id' r hr => ?_, ?_, rfl, SameRest.setRow db k id _⟩
    · by_cases hh : k' = k ∧ id' = id
      · obtain ⟨rfl, rfl⟩ := hh
        refine Or.inr ⟨Db.head_eq_none.mpr hn, List.mem_singleton.mpr rfl, ?_⟩
        rw [Db.head_setRow_self]
        rfl
      · exact .inl (Db.head_setRow_ne hh)
    · rw [Db.row_setRow_ne]
      · exact hr
      · rintro ⟨rfl, rfl⟩
        rw [hn] at hr
        cases hr
    · by_cases hh : k' = k ∧ id' = id
      · obtain ⟨rfl, rfl⟩ := hh
        rw [Db.row_setRow_self] at hr
        cases hr
        exact .inr hb
      · rw [Db.row_setRow_ne hh] at hr
        exact .inl hr
    · rw [Db.setRow, Db.setTable_rows_ne _ hk.symm]

theorem stubbed_of_option {o : Option Uuid} {db db' : Db} {u : PUnit} (hk : k ≠ .knownHost) (hb : Body.refs k b = [])
    (h : (o.toList.forM (stub k b)) db = .ok (u, db')) : Stubbed (o.toList.map (k, ·)) db db' := by
  cases o with
  | none =>
    cases h
    exact Stubbed.refl _ db
  | some id =>
    obtain ⟨_, db₁, h₁, h₂⟩ := Tx.bind_eq_ok.mp h
    cases h₂
    exact stubbed_of_stub hk hb h₁

/-! ## Writing a record -/

variable {device : UInt32} {vault : UnlockedVault} {env : Envelope} {db db' : Db}
  {rep : ApplyReport}

def Envelope.row (env : Envelope) {β : Type} (b : β) : Row β :=
  ⟨env.updatedAt, false, false, env.seq.getD 0, b⟩

/-- What a record points at got placeholders, and the record was written. -/
def InsertedAs (k : EntityKind) (refs : List (EntityKind × Uuid)) (env : Envelope)
    (db db' : Db) : Prop :=
  ∃ db₁ b, Stubbed refs db db₁ ∧ db₁.admits k env.id b = true ∧ Body.refs k b = refs ∧
    db' = db₁.setRow k env.id (env.row b)

theorem upsert_eq_ok : upsert env k b db = .ok (u, db') ↔ db.admits k env.id b = true ∧ db' =
    db.setRow k env.id (env.row b) := by
  unfold upsert
  rw [Tx.read_bind, Tx.require_bind_eq_ok]
  refine and_congr_right fun _ => ⟨fun h => by cases h; rfl, fun h => by subst h; rfl⟩

theorem insertGroup_spec {p : GroupPayload} (h : insertGroup env p db = .ok (rep, db')) :
    InsertedAs .group (Payload.refs .group (.group p)) env db db' ∧ rep = { applied := 1 } := by
  obtain ⟨_, db₁, h₁, h⟩ := Tx.bind_eq_ok.mp h
  obtain ⟨_, db₂, h₂, h⟩ := Tx.bind_eq_ok.mp h
  obtain ⟨rfl, rfl⟩ := Tx.pure_eq_ok.mp h
  obtain ⟨ha, rfl⟩ := upsert_eq_ok.mp h₂
  exact ⟨⟨db₁, _, stubbed_of_option (by decide) rfl h₁, ha, rfl, rfl⟩, rfl⟩

theorem insertIdentity_spec {p : IdentityPayload} (h : insertIdentity env p db = .ok (rep, db')) : InsertedAs
    .identity (Payload.refs .identity (.identity p)) env db db' ∧ rep = { applied := 1 } := by
  obtain ⟨_, db₁, h₁, h⟩ := Tx.bind_eq_ok.mp h
  obtain ⟨_, db₂, h₂, h⟩ := Tx.bind_eq_ok.mp h
  obtain ⟨_, db₃, h₃, h⟩ := Tx.bind_eq_ok.mp h
  obtain ⟨rfl, rfl⟩ := Tx.pure_eq_ok.mp h
  obtain ⟨ha, rfl⟩ := upsert_eq_ok.mp h₃
  have hs := (stubbed_of_option (by decide) rfl h₁).trans (stubbed_of_option (by decide) rfl h₂)
  exact ⟨⟨db₂, _, hs, ha, rfl, rfl⟩, rfl⟩

theorem insertKey_spec {p : KeyPayload} (h : insertKey env p db = .ok (rep, db')) :
    InsertedAs .key (Payload.refs .key (.key p)) env db db' ∧ rep = { applied := 1 } := by
  obtain ⟨_, db₁, h₁, h⟩ := Tx.bind_eq_ok.mp h
  obtain ⟨_, db₂, h₂, h⟩ := Tx.bind_eq_ok.mp h
  obtain ⟨_, db₃, h₃, h⟩ := Tx.bind_eq_ok.mp h
  obtain ⟨rfl, rfl⟩ := Tx.pure_eq_ok.mp h
  obtain ⟨ha, rfl⟩ := upsert_eq_ok.mp h₃
  have hs := (stubbed_of_option (by decide) rfl h₁).trans (stubbed_of_option (by decide) rfl h₂)
  exact ⟨⟨db₂, _, hs, ha, rfl, rfl⟩, rfl⟩

theorem insertedAs_of_upsert (hr : Body.refs k b = [])
    (h : upsert env k b db = .ok (u, db')) : InsertedAs k [] env db db' := by
  obtain ⟨ha, rfl⟩ := upsert_eq_ok.mp h
  exact ⟨db, b, Stubbed.refl [] db, ha, hr, rfl⟩

def evict (db : Db) (id : Uuid) (clock : Hlc) : Db :=
  (supersede db id clock).setTable .knownHost ((db.rows .knownHost).erase id)

/-- What a host key's record does to its slot: it takes a free one, it loses it to a newer key, or
it takes it from a key that is not newer. -/
def SlotApplied (env : Envelope) (p : KnownHostPayload) (db db' : Db) : Prop :=
  (db.rival env.id p.normalized.address p.normalized.port = none ∧
      db.admits .knownHost env.id p.normalized = true ∧
      db' = db.setRow .knownHost env.id (env.row p.normalized)) ∨
    ∃ rivalId rival, db.rival env.id p.normalized.address p.normalized.port =
        some (rivalId, rival) ∧
      ((env.updatedAt < rival.hlc ∧ db' = supersede db env.id env.updatedAt) ∨
        (rival.hlc ≤ env.updatedAt ∧
          (evict db rivalId rival.hlc).admits .knownHost env.id p.normalized = true ∧
          db' = (evict db rivalId rival.hlc).setRow .knownHost env.id (env.row p.normalized)))

theorem insertKnownHost_spec (h : insertKnownHost device env p db = .ok (rep, db')) :
    rep.rejected = 0 ∧ SlotApplied env p db db' := by
  unfold SlotApplied
  unfold insertKnownHost at h
  rw [Tx.read_bind] at h
  cases hr : db.rival env.id p.normalized.address p.normalized.port with
  | none =>
    simp only [hr] at h
    obtain ⟨_, db₁, h₁, h⟩ := Tx.bind_eq_ok.mp h
    obtain ⟨rfl, rfl⟩ := Tx.pure_eq_ok.mp h
    obtain ⟨ha, rfl⟩ := upsert_eq_ok.mp h₁
    exact ⟨rfl, .inl ⟨rfl, ha, rfl⟩⟩
  | some e =>
    obtain ⟨rivalId, rival⟩ := e
    simp only [hr] at h
    split at h
    · next hlt =>
      rw [Tx.modify_bind] at h
      obtain ⟨rfl, rfl⟩ := Tx.pure_eq_ok.mp h
      exact ⟨rfl, .inr ⟨rivalId, rival, rfl, .inl ⟨hlt, rfl⟩⟩⟩
    · next hle =>
      rw [Tx.modify_bind, Tx.modify_bind] at h
      obtain ⟨_, db₁, h₁, h⟩ := Tx.bind_eq_ok.mp h
      obtain ⟨rfl, rfl⟩ := Tx.pure_eq_ok.mp h
      obtain ⟨ha, rfl⟩ := upsert_eq_ok.mp h₁
      rw [rows_supersede] at ha ⊢
      exact ⟨rfl, Or.inr ⟨rivalId, rival, rfl, Or.inr ⟨not_lt.mp hle, ha, rfl⟩⟩⟩

/-! ## What a written record does to the rows -/

theorem Db.rival_some {i : Uuid} {address : Text} {port : UInt16} {r : Row KnownHostPayload}
    (h : db.rival id address port = some (i, r)) : db.row .knownHost i = some r ∧ i ≠ id ∧ r.body.address = address ∧
    r.body.port = port := by
  obtain ⟨hr, hp⟩ := Table.find?_some h
  simp only [Bool.and_eq_true, decide_eq_true_eq] at hp
  exact ⟨hr, by simpa using hp.2, hp.1.1, hp.1.2⟩

theorem head_evict (db : Db) (id : Uuid) (clock : Hlc) (k : EntityKind) (i : Uuid) :
    (evict db id clock).head k i = if k = .knownHost ∧ i = id then none else db.head k i := by
  by_cases hk : k = .knownHost
  · subst hk
    rw [Db.head, Db.row, evict, Db.setTable_rows_self, Table.get?_erase]
    by_cases hi : i = id <;> simp [hi, Db.head, Db.row]
  · rw [Db.head, Db.row, evict, Db.setTable_rows_ne _ hk, rows_supersede, if_neg (by simp [hk])]
    rfl

theorem InsertedAs.effect {refs : List (EntityKind × Uuid)} (h : InsertedAs env.kind refs env db db')
    (hv : ∀ r, db.row env.kind env.id = some r → r.version < env.version) (hd : env.deleted = false) (k : EntityKind)
    (id : Uuid) : HeadEffect refs env k id (db.head k id) (db'.head k id) := by
  obtain ⟨db₁, b, hs, -, -, rfl⟩ := h
  by_cases hh : k = env.kind ∧ id = env.id
  · obtain ⟨rfl, rfl⟩ := hh
    rw [Db.head_setRow_self]
    have he : (env.row b).head = ⟨env.updatedAt, env.deleted, false, env.seq.getD 0⟩ := by
      rw [hd]; rfl
    rw [he]
    refine .taken _ rfl rfl (fun h' hh' => ?_) fun _ => hd
    obtain ⟨r, hr, rfl⟩ := Db.head_eq_some.mp hh'
    exact hv r hr
  · rw [Db.head_setRow_ne hh]
    rcases hs.heads k id with e | ⟨hn, hm, hst⟩
    · rw [e]; exact .same _
    · rw [hn, hst]; exact .stub hm

theorem SlotApplied.effect (hk : env.kind = .knownHost) (h : SlotApplied env p db db')
    (hv : ∀ r, db.row env.kind env.id = some r → r.version < env.version) (hd : env.deleted = false)
    (refs : List (EntityKind × Uuid)) (k : EntityKind) (id : Uuid) : HeadEffect refs env k id (db.head k id)
    (db'.head k id) := by
  have he : (env.row p.normalized).head = ⟨env.updatedAt, env.deleted, false, env.seq.getD 0⟩ := by
    rw [hd]; rfl
  have hold : ∀ h', db.head .knownHost env.id = some h' → h'.version < env.version := by
    intro h' hh'
    rw [← hk] at hh'
    obtain ⟨r, hr, rfl⟩ := Db.head_eq_some.mp hh'
    exact hv r hr
  rcases h with ⟨-, -, rfl⟩ | ⟨rivalId, rival, hr, ⟨-, rfl⟩ | ⟨hc, -, rfl⟩⟩
  · by_cases hh : k = .knownHost ∧ id = env.id
    · obtain ⟨rfl, rfl⟩ := hh
      rw [Db.head_setRow_self, he]
      exact .taken _ hk.symm rfl hold fun _ => hd
    · rw [Db.head_setRow_ne hh]
      exact .same _
  · rw [head_supersede]
    exact .same _
  · obtain ⟨hrow, hne, -, -⟩ := Db.rival_some hr
    by_cases hh : k = .knownHost ∧ id = env.id
    · obtain ⟨rfl, rfl⟩ := hh
      rw [Db.head_setRow_self, he]
      exact .taken _ hk.symm rfl hold fun _ => hd
    · rw [Db.head_setRow_ne hh, head_evict]
      split
      · next hev =>
        obtain ⟨rfl, rfl⟩ := hev
        rw [Db.head_eq_some (k := .knownHost) |>.mpr ⟨rival, hrow, rfl⟩]
        exact .evicted _ rfl hk hne hd hc
      · exact .same _

variable [Platform]

/-! ## Writing a record, by its kind -/

theorem insertHost_spec {p : HostPayload} (h : insertHost env p db = .ok (rep, db')) :
    InsertedAs .host (Payload.refs .host (.host p)) env db db' ∧ rep = { applied := 1 } := by
  obtain ⟨_, db₁, h₁, h⟩ := Tx.bind_eq_ok.mp h
  obtain ⟨_, db₂, h₂, h⟩ := Tx.bind_eq_ok.mp h
  obtain ⟨_, db₃, h₃, h⟩ := Tx.bind_eq_ok.mp h
  obtain ⟨_, db₄, h₄, h⟩ := Tx.bind_eq_ok.mp h
  obtain ⟨rfl, rfl⟩ := Tx.pure_eq_ok.mp h
  obtain ⟨ha, rfl⟩ := upsert_eq_ok.mp h₄
  have hs := ((stubbed_of_option (by decide) rfl h₁).trans (stubbed_of_option (by decide) rfl h₂)).trans
    (stubbed_of_option (by decide) rfl h₃)
  exact ⟨⟨db₃, _, hs, ha, rfl, rfl⟩, rfl⟩

theorem insertManifest_spec
    (h : insertManifest env payload db = .ok (rep, db')) :
    (db' = db ∧ ∀ m, Manifest.decode payload = some m →
        env.id ≠ Platform.manifestId env.vaultId m.device ∧ rep.rejected = 1) ∨
      ∃ m, Manifest.decode payload = some m ∧ env.id = Platform.manifestId env.vaultId m.device ∧
        db' = db.setRow .manifest env.id (env.row m) ∧ rep.rejected = 0 := by
  unfold insertManifest at h
  cases hm : Manifest.decode payload with
  | none =>
    simp only [hm] at h
    obtain ⟨rfl, rfl⟩ := Tx.pure_eq_ok.mp h
    exact .inl ⟨rfl, fun m hm' => absurd hm' (by simp)⟩
  | some m =>
    simp only [hm] at h
    split at h
    · next hid =>
      obtain ⟨rfl, rfl⟩ := Tx.pure_eq_ok.mp h
      refine .inl ⟨rfl, fun m' hm' => ?_⟩
      cases hm'
      exact ⟨hid, rfl⟩
    · next hid =>
      obtain ⟨_, db₁, h₁, h⟩ := Tx.bind_eq_ok.mp h
      obtain ⟨rfl, rfl⟩ := Tx.pure_eq_ok.mp h
      obtain ⟨-, rfl⟩ := upsert_eq_ok.mp h₁
      exact Or.inr ⟨m, rfl, not_not.mp hid, rfl, rfl⟩

theorem insertRecord_spec (h : insertRecord device vault env payload db = .ok (rep, db')) :
    (db' = db ∧ (env.kind = .manifest ∨ env.kind.hasTable = false)) ∨
    (env.kind ≠ .knownHost ∧ rep.rejected = 0 ∧ InsertedAs env.kind (Payload.refs env.kind payload) env db db') ∨
    (env.kind = .knownHost ∧ rep.rejected = 0 ∧ ∃ p, payload = .knownHost p ∧ SlotApplied env p db db') := by
  obtain ⟨id, vaultId, kind, updatedAt, baseSeq, deleted, blob, seq⟩ := env
  cases kind with
  | host =>
    cases payload with
    | host p =>
      obtain ⟨hi, rfl⟩ := insertHost_spec h
      exact .inr (.inl ⟨by simp, rfl, hi⟩)
    | _ => cases h
  | group =>
    cases payload with
    | group p =>
      obtain ⟨hi, rfl⟩ := insertGroup_spec h
      exact .inr (.inl ⟨by simp, rfl, hi⟩)
    | _ => cases h
  | identity =>
    cases payload with
    | identity p =>
      obtain ⟨hi, rfl⟩ := insertIdentity_spec h
      exact .inr (.inl ⟨by simp, rfl, hi⟩)
    | _ => cases h
  | key =>
    cases payload with
    | key p =>
      obtain ⟨hi, rfl⟩ := insertKey_spec h
      exact .inr (.inl ⟨by simp, rfl, hi⟩)
    | _ => cases h
  | snippet =>
    cases payload with
    | snippet p =>
      obtain ⟨_, db₁, h₁, h⟩ := Tx.bind_eq_ok.mp h
      obtain ⟨rfl, rfl⟩ := Tx.pure_eq_ok.mp h
      exact .inr (.inl ⟨by simp, rfl, insertedAs_of_upsert rfl h₁⟩)
    | _ => cases h
  | knownHost =>
    cases payload with
    | knownHost p =>
      obtain ⟨hr, hs⟩ := insertKnownHost_spec h
      exact .inr (.inr ⟨rfl, hr, p, rfl, hs⟩)
    | _ => cases h
  | secret =>
    obtain ⟨_, db₁, h₁, h⟩ := Tx.bind_eq_ok.mp h
    obtain ⟨rfl, rfl⟩ := Tx.pure_eq_ok.mp h
    have hr : Payload.refs .secret payload = [] := by cases payload <;> rfl
    refine .inr (.inl ⟨by simp, rfl, ?_⟩)
    change InsertedAs .secret (Payload.refs .secret payload) _ _ _
    rw [hr]
    exact insertedAs_of_upsert rfl h₁
  | manifest =>
    rcases insertManifest_spec h with ⟨rfl, -⟩ | ⟨m, hm, hid, rfl, hr⟩
    · exact .inl ⟨rfl, .inl rfl⟩
    · refine .inr (.inl ⟨by simp, hr, db, m, ?_, rfl, ?_, rfl⟩)
      · exact Stubbed.refl _ db
      · cases payload <;> rfl
  | portForward | terminalProfile =>
    obtain ⟨rfl, rfl⟩ := Tx.pure_eq_ok.mp h
    exact .inl ⟨rfl, .inr rfl⟩

/-! ## Applying one record -/

/-- An envelope of this vault, of a kind with a table, that holds its seal. -/
def Opens (vault : UnlockedVault) (env : Envelope) (payload : Payload) : Prop :=
  env.vaultId = vault.vaultId ∧ env.kind.hasTable = true ∧ vault.openEnvelope env = some payload

/-- The ways applying one record can go. -/
inductive ApplyCase (device : UInt32) (vault : UnlockedVault) (env : Envelope) (db : Db) :
    ApplyReport → Db → Prop where
  /-- It is of another vault, or its seal does not hold. -/
  | foreign (h : ∀ payload, ¬Opens vault env payload) : ApplyCase device vault env db { rejected := 1 } db
  /-- There is no table for its kind. -/
  | noTable (h : env.kind.hasTable = false) : ApplyCase device vault env db { skipped := 1 } db
  /-- It deletes something that was never here. -/
  | absent (payload : Payload) (ho : Opens vault env payload)
      (hr : db.row env.kind env.id = none) (hd : env.deleted = true) :
      ApplyCase device vault env db { skipped := 1 } db
  | identical (payload : Payload) (ho : Opens vault env payload) (r : Row (Body env.kind))
      (hr : db.row env.kind env.id = some r) (hv : r.version = env.version) :
      ApplyCase device vault env db { identical := 1 }
        (db.setRow env.kind env.id { r with dirty := false, serverSeq := env.seq.getD 0 })
  | kept (payload : Payload) (ho : Opens vault env payload) (r : Row (Body env.kind))
      (hr : db.row env.kind env.id = some r) (hv : env.version < r.version) :
      ApplyCase device vault env db { kept := 1 }
        (db.setRow env.kind env.id { r with serverSeq := env.seq.getD 0 })
  | tombstoned (payload : Payload) (ho : Opens vault env payload) (r : Row (Body env.kind))
      (hr : db.row env.kind env.id = some r) (hv : r.version < env.version)
      (hd : env.deleted = true) :
      ApplyCase device vault env db { applied := 1 }
        (db.setRow env.kind env.id
          ⟨env.updatedAt, true, false, env.seq.getD 0, Body.wipe env.kind r.body⟩)
  | inserted (payload : Payload) (ho : Opens vault env payload) (rep : ApplyReport) (db' : Db)
      (hv : ∀ r, db.row env.kind env.id = some r → r.version < env.version)
      (hd : env.deleted = false) (h : insertRecord device vault env payload db = .ok (rep, db')) :
      ApplyCase device vault env db rep db'

theorem applyOne_cases (h : applyOne device vault env db = .ok (rep, db')) :
    ApplyCase device vault env db rep db' := by
  unfold applyOne at h
  split at h
  · next hv =>
    obtain ⟨rfl, rfl⟩ := Tx.pure_eq_ok.mp h
    exact .foreign fun payload ho => hv ho.1
  next hv =>
  split at h
  · next ht =>
    obtain ⟨rfl, rfl⟩ := Tx.pure_eq_ok.mp h
    exact .noTable (by simpa using ht)
  next ht =>
  cases ho : vault.openEnvelope env with
  | none =>
    simp only [ho] at h
    obtain ⟨rfl, rfl⟩ := Tx.pure_eq_ok.mp h
    exact .foreign fun payload hp => by rw [hp.2.2] at ho; cases ho
  | some payload =>
    simp only [ho] at h
    rw [Tx.read_bind] at h
    have hopen : Opens vault env payload := ⟨not_not.mp hv, by simpa using ht, ho⟩
    cases hr : db.row env.kind env.id with
    | none =>
      simp only [hr] at h
      split at h
      · next hd =>
        obtain ⟨rfl, rfl⟩ := Tx.pure_eq_ok.mp h
        exact .absent payload hopen hr hd
      · next hd =>
        exact .inserted payload hopen rep db' (fun r hr' => by rw [hr] at hr'; cases hr') (by simpa using hd) h
    | some r =>
      simp only [hr] at h
      cases hres : resolve r.version env.version with
      | identical =>
        simp only [hres] at h
        rw [Tx.modify_bind] at h
        obtain ⟨rfl, rfl⟩ := Tx.pure_eq_ok.mp h
        exact .identical payload hopen r hr (resolve_eq_identical.mp hres)
      | keepLocal =>
        simp only [hres] at h
        rw [Tx.modify_bind] at h
        obtain ⟨rfl, rfl⟩ := Tx.pure_eq_ok.mp h
        exact .kept payload hopen r hr (resolve_eq_keepLocal.mp hres)
      | takeRemote =>
        simp only [hres] at h
        have hlt := resolve_eq_takeRemote.mp hres
        split at h
        · next hd =>
          unfold tombstoneRecord at h
          rw [Tx.modify_bind] at h
          obtain ⟨rfl, rfl⟩ := Tx.pure_eq_ok.mp h
          exact .tombstoned payload hopen r hr hlt hd
        · next hd =>
          refine .inserted payload hopen rep db' (fun r' hr' => ?_) (by simpa using hd) h
          rw [hr] at hr'
          cases hr'
          exact hlt

/-! ## What it does to the rows -/

theorem applyOne_effect (h : applyOne device vault env db = .ok (rep, db')) (k : EntityKind)
    (id : Uuid) : HeadEffect (env.refs vault) env k id (db.head k id) (db'.head k id) := by
  have setRow_effect : ∀ r r' : Row (Body env.kind), db.row env.kind env.id = some r →
      HeadEffect (env.refs vault) env env.kind env.id (some r.head) (some r'.head) →
      HeadEffect (env.refs vault) env k id (db.head k id)
        ((db.setRow env.kind env.id r').head k id) := by
    intro r r' hr he
    by_cases hh : k = env.kind ∧ id = env.id
    · obtain ⟨rfl, rfl⟩ := hh
      rw [Db.head_setRow_self, Db.head_eq_some.mpr ⟨r, hr, rfl⟩]
      exact he
    · rw [Db.head_setRow_ne hh]
      exact .same _
  cases applyOne_cases h with
  | foreign | noTable | absent => exact .same _
  | identical payload ho r hr hv => exact setRow_effect r _ hr (.identical r.head rfl rfl hv)
  | kept payload ho r hr hv => exact setRow_effect r _ hr (.kept r.head rfl rfl hv)
  | tombstoned payload ho r hr hv hd =>
    refine setRow_effect r _ hr ?_
    have he : HeadEffect (env.refs vault) env env.kind env.id (some r.head)
        (some ⟨env.updatedAt, env.deleted, false, env.seq.getD 0⟩) :=
      .taken _ rfl rfl (fun h' hh' => by cases hh'; exact hv) fun hn => absurd hn (by simp)
    rw [hd] at he
    exact he
  | inserted payload ho _ _ hv hd hi =>
    have hrefs : env.refs vault = Payload.refs env.kind payload := by
      rw [Envelope.refs, ho.2.2]; rfl
    rcases insertRecord_spec hi with ⟨rfl, -⟩ | ⟨-, -, hins⟩ | ⟨hk, -, p, -, hs⟩
    · exact .same _
    · rw [hrefs]; exact hins.effect hv hd k id
    · exact hs.effect hk hv hd _ k id

theorem applyOne_rest (h : applyOne device vault env db = .ok (rep, db')) : SameRest db db' := by
  cases applyOne_cases h with
  | foreign | noTable | absent => exact SameRest.refl db
  | identical | kept | tombstoned => exact SameRest.setRow ..
  | inserted payload ho _ _ hv hd hi =>
    rcases insertRecord_spec hi with ⟨rfl, -⟩ | ⟨-, -, db₁, b, hs, -, -, rfl⟩ | ⟨-, -, p, -, hs⟩
    · exact SameRest.refl _
    · exact hs.rest.trans (SameRest.setRow ..)
    · rcases hs with ⟨-, -, rfl⟩ | ⟨rivalId, rival, -, ⟨-, rfl⟩ | ⟨-, -, rfl⟩⟩
      · exact SameRest.setRow ..
      · exact SameRest.supersede ..
      · exact ((SameRest.supersede ..).trans (SameRest.setTable ..)).trans (SameRest.setRow ..)

theorem applyOne_frame {r : Row (Body k)} (h : applyOne device vault env db = .ok (rep, db')) (hk : k ≠ .knownHost)
    (hr : db.row k id = some r) (hne : ∀ payload, Opens vault env payload → ¬(k = env.kind ∧ id = env.id)) : db'.row k
    id = some r := by
  cases applyOne_cases h with
  | foreign | noTable | absent => exact hr
  | identical payload ho | kept payload ho => rw [Db.row_setRow_ne (hne payload ho)]; exact hr
  | tombstoned payload ho => rw [Db.row_setRow_ne (hne payload ho)]; exact hr
  | inserted payload ho _ _ hv hd hi =>
    rcases insertRecord_spec hi with ⟨rfl, -⟩ | ⟨-, -, db₁, b, hs, -, -, rfl⟩ | ⟨hkind, -, p, -, hs⟩
    · exact hr
    · rw [Db.row_setRow_ne (hne payload ho)]
      exact hs.rows k id r hr
    · rcases hs with ⟨-, -, rfl⟩ | ⟨rivalId, rival, -, ⟨-, rfl⟩ | ⟨-, -, rfl⟩⟩
      · rw [Db.row_setRow_ne_kind hk]
        exact hr
      · rw [Db.row, rows_supersede]
        exact hr
      · rw [Db.row_setRow_ne_kind hk, Db.row, evict, Db.setTable_rows_ne _ hk, rows_supersede]
        exact hr

end UwuRdp
