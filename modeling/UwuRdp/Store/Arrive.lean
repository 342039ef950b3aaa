import UwuRdp.Store.Runs

/-!
# What an arriving record leaves

`insertRecord` as an equation: the columns a payload becomes (`columns`), placeholders for what the
record points at (`placeholders`), and the row. The foreign keys always hold then, so the only
thing that can go wrong is a payload that is not one of its kind.
-/

namespace UwuRdp

open Lib

/-! ## Placeholders, all at once -/

/-- The empty columns of a placeholder, for the kinds that get one. -/
def blank : (k : EntityKind) → Option (Body k)
  | .group => some ⟨.priv, [], 0, none, none, []⟩
  | .identity => some ⟨[], [], [], .password, none, none, []⟩
  | .key => some ⟨[], [], [], none, none, []⟩
  | .secret => some Sealed.empty
  | _ => none

def Db.withStub (db : Db) (k : EntityKind) (id : Uuid) : Db :=
  match blank k with
  | none => db
  | some b => if (db.row k id).isSome then db else db.setRow k id (placeholder b)

def placeholders : List (EntityKind × Uuid) → Db → Db
  | [], db => db
  | ref :: refs, db => placeholders refs (db.withStub ref.1 ref.2)

variable {device : UInt32} {vault : UnlockedVault} {env : Envelope} {db db' : Db}
  {k : EntityKind} {id : Uuid}

theorem placeholders_append (refs refs' : List (EntityKind × Uuid)) (db : Db) :
    placeholders (refs ++ refs') db = placeholders refs' (placeholders refs db) := by
  induction refs generalizing db with
  | nil => rfl
  | cons ref refs ih => exact ih _

variable {r : Row (Body k)} {b : Body k}

theorem row_withStub_self (h : db.row k id = some r) (k' : EntityKind)
    (id' : Uuid) : (db.withStub k' id').row k id = some r := by
  unfold Db.withStub
  split
  · exact h
  · split
    · exact h
    · next hn =>
      rw [Db.row_setRow_ne, h]
      rintro ⟨rfl, rfl⟩
      rw [h] at hn
      exact hn rfl

theorem row_withStub_new (hb : blank k = some b) (h : db.row k id = none) :
    (db.withStub k id).row k id = some (placeholder b) := by
  unfold Db.withStub
  simp only [hb, h, Option.isSome_none, Bool.false_eq_true, if_false]
  exact Db.row_setRow_self ..

theorem row_withStub_ne {k' : EntityKind} {id' : Uuid} (h : ¬(k = k' ∧ id = id')) :
    (db.withStub k' id').row k id = db.row k id := by
  unfold Db.withStub
  split
  · rfl
  · split
    · rfl
    · exact Db.row_setRow_ne h

variable {refs : List (EntityKind × Uuid)} {p : KnownHostPayload} {rivalId : Uuid} {rival : Row KnownHostPayload}
  {payload : Payload}

theorem row_placeholders_of_some (h : db.row k id = some r) : (placeholders refs db).row k id = some r := by
  induction refs generalizing db with
  | nil => exact h
  | cons ref refs ih => exact ih (row_withStub_self h ref.1 ref.2)

theorem row_placeholders_not_mem (h : (k, id) ∉ refs) : (placeholders refs db).row k id = db.row k id := by
  induction refs generalizing db with
  | nil => rfl
  | cons ref refs ih =>
    rw [List.mem_cons, not_or] at h
    rw [placeholders, ih h.2, row_withStub_ne]
    rintro ⟨rfl, rfl⟩
    exact h.1 rfl

theorem row_placeholders_mem (hb : blank k = some b) (h : (k, id) ∈ refs) : (placeholders refs db).row k
    id = some ((db.row k id).getD (placeholder b)) := by
  cases hr : db.row k id with
  | some r => exact row_placeholders_of_some hr
  | none =>
    induction refs generalizing db with
    | nil => cases h
    | cons ref refs ih =>
      by_cases he : (k, id) = ref
      · subst he
        change (placeholders refs (db.withStub k id)).row k id = _
        exact row_placeholders_of_some (row_withStub_new hb hr)
      · have hm := (List.mem_cons.mp h).resolve_left he
        refine ih hm ?_
        rw [row_withStub_ne, hr]
        rintro ⟨rfl, rfl⟩
        exact he rfl

theorem row_placeholders_of_blank (hb : blank k = none) : (placeholders refs db).row k id = db.row k id := by
  induction refs generalizing db with
  | nil => rfl
  | cons ref refs ih =>
    rw [placeholders, ih]
    by_cases h : k = ref.1 ∧ id = ref.2
    · obtain ⟨rfl, rfl⟩ := h
      unfold Db.withStub
      rw [hb]
    · exact row_withStub_ne h

theorem blank_of_ref {ref : EntityKind × Uuid} (h : ref ∈ Body.refs k b) : ∃ c, blank ref.1 = some c := by
  cases k with
  | host =>
    simp only [Body.refs, List.mem_append, List.mem_map] at h
    obtain (⟨_, -, rfl⟩ | ⟨_, -, rfl⟩) | ⟨_, -, rfl⟩ := h <;> exact ⟨_, rfl⟩
  | group =>
    simp only [Body.refs, List.mem_map] at h
    obtain ⟨_, -, rfl⟩ := h
    exact ⟨_, rfl⟩
  | identity | key =>
    simp only [Body.refs, List.mem_append, List.mem_map] at h
    obtain ⟨_, -, rfl⟩ | ⟨_, -, rfl⟩ := h <;> exact ⟨_, rfl⟩
  | snippet | knownHost | secret | manifest => exact absurd h (by simp [Body.refs])
  | portForward | terminalProfile => exact b.elim

theorem refsExist_placeholders (k : EntityKind) (b : Body k) (db : Db) :
    (placeholders (Body.refs k b) db).refsExist k b = true := by
  refine List.all_eq_true.mpr fun ref hm => ?_
  obtain ⟨c, hc⟩ := blank_of_ref hm
  rw [row_placeholders_mem hc hm]
  rfl

theorem admits_placeholders (hk : k ≠ .knownHost) (id : Uuid) (db : Db) :
    (placeholders (Body.refs k b) db).admits k id b = true := by
  unfold Db.admits
  rw [refsExist_placeholders, Bool.true_and]
  cases k <;> first | rfl | exact absurd rfl hk

theorem forM_stub (o : Option Uuid) (k : EntityKind) (b : Body k) (hb : blank k = some b) (db : Db) :
    (o.toList.forM (stub k b) : DbTx PUnit) db = .ok (⟨⟩, placeholders (o.toList.map (k, ·)) db) := by
  have he : ∀ id, db.withStub k id =
      if (db.row k id).isSome then db else db.setRow k id (placeholder b) := by
    intro id
    unfold Db.withStub
    rw [hb]
  cases o with
  | none => rfl
  | some id =>
    change Except.ok (PUnit.unit,
      if (db.row k id).isSome then db else db.setRow k id (placeholder b)) = _
    rw [← he id]
    rfl

theorem upsert_placeholders (hk : k ≠ .knownHost) (db : Db) :
    (do upsert env k b; pure { applied := 1 } : DbTx ApplyReport)
        (placeholders (Body.refs k b) db) =
      .ok ({ applied := 1 }, (placeholders (Body.refs k b) db).setRow k env.id (env.row b)) := by
  have h : upsert env k b (placeholders (Body.refs k b) db) = .ok ((), _) :=
    upsert_eq_ok.mpr ⟨admits_placeholders hk env.id db, rfl⟩
  rw [Tx.bind_of_ok h]
  rfl

/-! ## Slots -/

theorem SlotsUnique.of_bodies (h : SlotsUnique db)
    (hb : ∀ i r', db'.row .knownHost i = some r' → ∃ r, db.row .knownHost i = some r ∧ r.body = r'.body) : SlotsUnique
    db' := by
  intro i j r r' hi hj ha hp
  obtain ⟨s, hs, hse⟩ := hb i r hi
  obtain ⟨s', hs', hse'⟩ := hb j r' hj
  rw [← hse, ← hse'] at ha hp
  exact h i j s s' hs hs' ha hp

theorem row_evict (db : Db) (rivalId : Uuid) (clock : Hlc) (i : Uuid) :
    (evict db rivalId clock).row .knownHost i =
      if i = rivalId then none else db.row .knownHost i := by
  rw [Db.row, evict, Db.setTable_rows_self, Table.get?_erase]
  rfl

theorem slotsUnique_evict (h : SlotsUnique db) (rivalId : Uuid) (clock : Hlc) :
    SlotsUnique (evict db rivalId clock) := by
  refine h.of_bodies fun i r' hr => ?_
  rw [row_evict] at hr
  split at hr
  · cases hr
  · exact ⟨r', hr, rfl⟩

theorem admits_evict (h : SlotsUnique db) (hr : db.rival id p.address p.port = some (rivalId, rival)) (clock : Hlc) :
    (evict db rivalId clock).admits .knownHost id p = true := by
  obtain ⟨hrow, -, haddr, hport⟩ := Db.rival_some hr
  have hfree : (evict db rivalId clock).rival id p.address p.port = none := by
    by_contra hn
    obtain ⟨⟨j, r⟩, hj⟩ := Option.ne_none_iff_exists'.mp hn
    obtain ⟨hjr, -, hja, hjp⟩ := Db.rival_some hj
    rw [row_evict] at hjr
    split at hjr
    · cases hjr
    · next hne =>
      exact hne (h j rivalId r rival hjr hrow (hja.trans haddr.symm) (hjp.trans hport.symm))
  simp only [Db.admits, Db.refsExist, Body.refs, Db.slotFree, hfree, List.all_nil, Option.isNone_none, Bool.and_self]

theorem admits_of_rival_none (hr : db.rival id p.address p.port = none) : db.admits .knownHost id p = true := by
  simp only [Db.admits, Db.refsExist, Body.refs, Db.slotFree, hr, List.all_nil, Option.isNone_none, Bool.and_self]

theorem insertKnownHost_free (hr : db.rival env.id p.normalized.address p.normalized.port = none) : insertKnownHost
    device env p db = .ok ({ applied := 1 }, db.setRow .knownHost env.id (env.row p.normalized)) := by
  unfold insertKnownHost
  rw [Tx.read_bind]
  simp only [hr]
  have h : upsert env .knownHost p.normalized db = .ok ((), _) := upsert_eq_ok.mpr ⟨admits_of_rival_none hr, rfl⟩
  rw [Tx.bind_of_ok h]
  rfl

/-- Whether two devices trusted a different key for one slot. -/
def keyConflict (device : UInt32) (env : Envelope) (p : KnownHostPayload)
    (rival : Row KnownHostPayload) : ℕ :=
  if rival.body.fingerprintSha256 ≠ p.fingerprintSha256 ∧ env.updatedAt.device ≠ device then 1 else 0

theorem insertKnownHost_newer (hr : db.rival env.id p.normalized.address p.normalized.port = some (rivalId, rival))
    (hn : rival.hlc > env.updatedAt) : insertKnownHost device env p db = .ok
    ({ kept := 1, hostKeyConflicts := keyConflict device env p rival }, supersede db env.id env.updatedAt) := by
  unfold insertKnownHost
  rw [Tx.read_bind]
  simp only [hr]
  rw [if_pos hn]
  rfl

theorem insertKnownHost_evicts
    (hs : SlotsUnique db)
    (hr : db.rival env.id p.normalized.address p.normalized.port = some (rivalId, rival))
    (hn : ¬rival.hlc > env.updatedAt) :
    insertKnownHost device env p db =
      .ok ({ applied := 1, hostKeyConflicts := keyConflict device env p rival },
        (evict db rivalId rival.hlc).setRow .knownHost env.id (env.row p.normalized)) := by
  unfold insertKnownHost
  rw [Tx.read_bind]
  simp only [hr]
  rw [if_neg hn, Tx.modify_bind, Tx.modify_bind, rows_supersede]
  have h : upsert env .knownHost p.normalized (evict db rivalId rival.hlc) = .ok ((), _) :=
    upsert_eq_ok.mpr ⟨admits_evict hs hr rival.hlc, rfl⟩
  exact Tx.bind_of_ok h

theorem catchUp_eq (device : UInt32) (now : UInt64) (newest : Option Hlc) (db : Db) :
    ∃ c, catchUp device now newest db = .ok ((), db.setClock c) := by
  cases newest with
  | none => exact ⟨⟨db.clockWallMs, db.clockCounter, 0⟩, rfl⟩
  | some remote => exact ⟨_, rfl⟩

/-! ## What is here already -/

/-- The store has a record in the version of an envelope or a preferred one. -/
def Held (db : Db) (env : Envelope) : Prop :=
  ∃ h, db.head env.kind env.id = some h ∧ env.version ≤ h.version

theorem held_of_resolve {r : Row (Body env.kind)} (hr : db.row env.kind env.id = some r)
    (hv : resolve r.version env.version ≠ .takeRemote) : Held db env := by
  refine ⟨r.head, Db.head_eq_some.mpr ⟨r, hr, rfl⟩, not_lt.mp fun hlt => hv ?_⟩
  exact resolve_eq_takeRemote.mpr hlt

theorem resolve_of_held {r : Row (Body env.kind)} (hr : db.row env.kind env.id = some r)
    (h : Held db env) : resolve r.version env.version ≠ .takeRemote := by
  obtain ⟨hd, hh, hle⟩ := h
  obtain ⟨r', hr', rfl⟩ := Db.head_eq_some.mp hh
  rw [hr] at hr'
  cases hr'
  exact fun he => absurd (resolve_eq_takeRemote.mp he) (not_lt.mpr hle)

/-! ## The row a payload becomes -/

variable [Platform]

/-- The columns of the row an authentic payload becomes, if it is one of its kind. -/
def columns (vault : UnlockedVault) (id : Uuid) : (k : EntityKind) → Payload → Option (Body k)
  | .host, .host p => some
      { name := p.name, address := p.address, port := max p.port 1
        workspace := Workspace.parse p.workspace, position := p.position, groupId := p.groupId
        identityId := p.identityId, rdp := normalizeRdp p.rdp, comment := p.comment
        gatewayIdentityId := p.gatewayIdentityId, extra := p.extra }
  | .group, .group p => some
      { workspace := Workspace.parse p.workspace, name := p.name, position := p.position
        identityId := p.identityId, drives := p.drives, extra := p.extra }
  | .identity, .identity p => some
      { label := p.label, username := p.username, domain := p.domain
        authType := AuthType.parse p.authType, keyId := p.keyId
        passwordSecretId := p.passwordSecretId, extra := p.extra }
  | .key, .key p => some p
  | .snippet, .snippet p => some p
  | .knownHost, .knownHost p => some p.normalized
  | .secret, p => some (vault.sealRecord id .secret p)
  | .manifest, p => Manifest.decode p
  | _, _ => none

theorem insertRecord_eq {b : Body env.kind} (hk : env.kind ≠ .knownHost) (hm : env.kind ≠ .manifest)
    (hb : columns vault env.id env.kind payload = some b) : insertRecord device vault env payload db = .ok
    ({ applied := 1 }, (placeholders (Body.refs env.kind b) db).setRow env.kind env.id (env.row b)) := by
  obtain ⟨id, vaultId, kind, updatedAt, baseSeq, deleted, blob, seq⟩ := env
  cases kind with
  | host =>
    cases payload with
    | host p =>
      cases hb
      change insertHost _ p db = _
      unfold insertHost stubGroup stubIdentity
      rw [Tx.bind_of_ok (forM_stub _ .group _ rfl db), Tx.bind_of_ok (forM_stub _ .identity _ rfl _),
        Tx.bind_of_ok (forM_stub _ .identity _ rfl _), ← placeholders_append,
        ← placeholders_append, ← List.append_assoc]
      exact upsert_placeholders (k := .host) (by decide) db
    | _ => cases hb
  | group =>
    cases payload with
    | group p =>
      cases hb
      change insertGroup _ p db = _
      unfold insertGroup stubIdentity
      rw [Tx.bind_of_ok (forM_stub _ .identity _ rfl _)]
      exact upsert_placeholders (k := .group) (by decide) db
    | _ => cases hb
  | identity =>
    cases payload with
    | identity p =>
      cases hb
      change insertIdentity _ p db = _
      unfold insertIdentity stubKey stubSecret
      rw [Tx.bind_of_ok (forM_stub _ .key _ rfl db), Tx.bind_of_ok (forM_stub _ .secret _ rfl _),
        ← placeholders_append]
      exact upsert_placeholders (k := .identity) (by decide) db
    | _ => cases hb
  | key =>
    cases payload with
    | key p =>
      cases hb
      change insertKey _ b db = _
      unfold insertKey stubSecret
      rw [Tx.bind_of_ok (forM_stub _ .secret _ rfl db), Tx.bind_of_ok (forM_stub _ .secret _ rfl _),
        ← placeholders_append]
      exact upsert_placeholders (k := .key) (by decide) db
    | _ => cases hb
  | snippet =>
    cases payload with
    | snippet p =>
      cases hb
      exact upsert_placeholders (k := .snippet) (by decide) db
    | _ => cases hb
  | secret =>
    cases hb
    exact upsert_placeholders (k := .secret) (by decide) db
  | knownHost => exact absurd rfl hk
  | manifest => exact absurd rfl hm
  | portForward | terminalProfile => cases payload <;> cases hb

theorem insertRecord_unreadable (ht : env.kind.hasTable = true)
    (hm : env.kind ≠ .manifest) (hb : columns vault env.id env.kind payload = none) :
    insertRecord device vault env payload db = .error (.invalid "record" "unreadable") := by
  obtain ⟨id, vaultId, kind, updatedAt, baseSeq, deleted, blob, seq⟩ := env
  cases kind with
  | manifest => exact absurd rfl hm
  | portForward | terminalProfile => cases ht
  | secret => cases payload <;> cases hb
  | _ => cases payload <;> first | rfl | cases hb

theorem applyOne_of_opens (ho : Opens vault env payload) (db : Db) :
    applyOne device vault env db =
      match db.row env.kind env.id with
      | none =>
        if env.deleted then .ok ({ skipped := 1 }, db) else insertRecord device vault env payload db
      | some r =>
        match resolve r.version env.version with
        | .identical => .ok ({ identical := 1 }, db.setRow env.kind env.id
            { r with dirty := false, serverSeq := env.seq.getD 0 })
        | .keepLocal => .ok ({ kept := 1 }, db.setRow env.kind env.id
            { r with serverSeq := env.seq.getD 0 })
        | .takeRemote =>
          if env.deleted then .ok ({ applied := 1 }, db.setRow env.kind env.id
            ⟨env.updatedAt, true, false, env.seq.getD 0, Body.wipe env.kind r.body⟩)
          else insertRecord device vault env payload db := by
  obtain ⟨hv, ht, hp⟩ := ho
  unfold applyOne
  rw [if_neg (not_not.mpr hv), if_neg (by rw [ht]; decide)]
  simp only [hp]
  rw [Tx.read_bind]
  cases hr : db.row env.kind env.id with
  | none => simp only []; split <;> rfl
  | some r =>
    simp only []
    cases resolve r.version env.version with
    | identical | keepLocal => rfl
    | takeRemote => simp only []; split <;> rfl

theorem applyOne_wanted {payload : Payload} (ho : Opens vault env payload) (hd : env.deleted = false)
    (h : ¬Held db env) : applyOne device vault env db = insertRecord device vault env payload db := by
  rw [applyOne_of_opens ho]
  cases hr : db.row env.kind env.id with
  | none => simp only [hd, Bool.false_eq_true, if_false]
  | some r =>
    have hres : resolve r.version env.version = .takeRemote := by
      by_contra hn
      exact h (held_of_resolve hr hn)
    simp only [hres, hd, Bool.false_eq_true, if_false]

theorem applyEnvelopes_eq (now : UInt64) (envs : List Envelope) (db : Db) :
    applyEnvelopes device (some vault) now envs db = (do
      let result ← applyAll device vault (applySort envs) {} none
      catchUp device now result.2
      pure result.1 : DbTx ApplyReport) db := by
  unfold applyEnvelopes
  cases envs with
  | nil | cons env envs => rfl

end UwuRdp
