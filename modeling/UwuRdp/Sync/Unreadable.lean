import UwuRdp.Lib.Sort
import UwuRdp.Store.Arrive
import UwuRdp.Store.Preference
import UwuRdp.Sync.Pages

/-!
# Records that cannot be read

A batch holds whatever the server sends: records of another vault or of a kind without a table,
records that fail their seal, and authentic ones whose payload is not what this build takes their
kind to be. `Alike` says that two databases hold the same records, whatever they know about the
server's copies; a readable record does the same to both, and one that cannot be read leaves its
database alike, or ends the whole batch.
-/

namespace UwuRdp

open Lib

variable {device : UInt32} {vault : UnlockedVault} {env : Envelope} {db db' db₁ db₂ : Db}
  {k : EntityKind} {id : Uuid}

/-! ## The same records -/

/-- What a row says about its record, without what it knows about the server's copy. -/
def Row.record {β : Type} (r : Row β) : Version × β := (r.version, r.body)

/-- Two databases with the same records. -/
structure Alike (db db' : Db) : Prop where
  rows : ∀ k id, (db'.row k id).map Row.record = (db.row k id).map Row.record
  superseded : db'.superseded = db.superseded

namespace Alike

theorem refl (db : Db) : Alike db db := ⟨fun _ _ => rfl, rfl⟩

theorem symm (h : Alike db db') : Alike db' db :=
  ⟨fun k id => (h.rows k id).symm, h.superseded.symm⟩

theorem trans (h : Alike db db₁) (h' : Alike db₁ db') : Alike db db' :=
  ⟨fun k id => (h'.rows k id).trans (h.rows k id), h'.superseded.trans h.superseded⟩

theorem none (h : Alike db₁ db₂) (hr : db₁.row k id = Option.none) : db₂.row k id = Option.none := by
  have he := h.rows k id
  rw [hr] at he
  exact Option.map_eq_none_iff.mp he

variable {r r' : Row (Body k)} {address : Text} {port : UInt16}

theorem some (h : Alike db₁ db₂) (hr : db₁.row k id = Option.some r) :
    ∃ r', db₂.row k id = Option.some r' ∧ r'.version = r.version ∧ r'.body = r.body := by
  have he := h.rows k id
  rw [hr, Option.map_some] at he
  obtain ⟨r', hr', hrec⟩ := Option.map_eq_some_iff.mp he
  exact ⟨r', hr', congrArg Prod.fst hrec, congrArg Prod.snd hrec⟩

theorem setRow (h : Alike db₁ db₂) (hr : r'.record = r.record) : Alike (db₁.setRow k id r) (db₂.setRow k id r') := by
  refine ⟨fun k' id' => ?_, h.superseded⟩
  by_cases hh : k' = k ∧ id' = id
  · obtain ⟨rfl, rfl⟩ := hh
    rw [Db.row_setRow_self, Db.row_setRow_self, Option.map_some, Option.map_some, hr]
  · rw [Db.row_setRow_ne hh, Db.row_setRow_ne hh, h.rows]

theorem setRow_self (hrow : db.row k id = Option.some r)
    (hr : r'.record = r.record) : Alike db (db.setRow k id r') := by
  refine ⟨fun k' id' => ?_, rfl⟩
  by_cases hh : k' = k ∧ id' = id
  · obtain ⟨rfl, rfl⟩ := hh
    rw [Db.row_setRow_self, hrow, Option.map_some, Option.map_some, hr]
  · rw [Db.row_setRow_ne hh]

theorem placeholders (h : Alike db₁ db₂) (refs : List (EntityKind × Uuid)) :
    Alike (placeholders refs db₁) (placeholders refs db₂) := by
  induction refs generalizing db₁ db₂ with
  | nil => exact h
  | cons ref refs ih =>
    refine ih ?_
    unfold Db.withStub
    split
    · exact h
    · cases hr : db₁.row ref.1 ref.2 with
      | none =>
        rw [h.none hr]
        exact h.setRow rfl
      | some r =>
        obtain ⟨r', hr', -⟩ := h.some hr
        rw [hr']
        exact h

theorem supersede (h : Alike db₁ db₂) (i : Uuid) (clock : Hlc) :
    Alike (supersede db₁ i clock) (supersede db₂ i clock) := by
  refine ⟨fun k' id' => ?_, ?_⟩
  · rw [Db.row, rows_supersede, Db.row, rows_supersede]
    exact h.rows k' id'
  · unfold UwuRdp.supersede
    rw [h.superseded]
    split
    · rfl
    · split
      · rfl
      · exact h.superseded

theorem evict (h : Alike db₁ db₂) (i : Uuid) (clock : Hlc) : Alike (evict db₁ i clock) (evict db₂ i clock) := by
  refine ⟨fun k' id' => ?_, (h.supersede i clock).superseded⟩
  by_cases hk : k' = .knownHost
  · subst hk
    rw [row_evict, row_evict]
    split
    · rfl
    · exact h.rows _ _
  · rw [Db.row, UwuRdp.evict, Db.setTable_rows_ne _ hk, rows_supersede, Db.row, UwuRdp.evict,
      Db.setTable_rows_ne _ hk, rows_supersede]
    exact h.rows _ _

theorem slotsUnique (h : Alike db₁ db₂) (hs : SlotsUnique db₁) : SlotsUnique db₂ := by
  refine hs.of_bodies fun i r' hr' => ?_
  obtain ⟨r, hr, -, hb⟩ := h.symm.some hr'
  exact ⟨r, hr, hb⟩

theorem rival_none (h : Alike db₁ db₂)
    (hr : db₁.rival id address port = Option.none) : db₂.rival id address port = Option.none := by
  by_contra hn
  obtain ⟨⟨j, r'⟩, hj⟩ := Option.ne_none_iff_exists'.mp hn
  obtain ⟨hrow, hne, ha, hp⟩ := Db.rival_some hj
  obtain ⟨r, hr', -, hb⟩ := h.symm.some hrow
  have hf := Table.find?_none hr hr'
  rw [hb, ha, hp] at hf
  simp [hne] at hf

theorem rival_some (h : Alike db₁ db₂) (hs : SlotsUnique db₁) {i : Uuid} {r : Row KnownHostPayload}
    (hr : db₁.rival id address port = Option.some (i, r)) : ∃ r', db₂.rival id address port = Option.some (i, r') ∧
    r'.version = r.version ∧ r'.body = r.body := by
  obtain ⟨hrow, hne, ha, hp⟩ := Db.rival_some hr
  obtain ⟨r', hrow', hv, hb⟩ := h.some hrow
  cases hj : db₂.rival id address port with
  | none =>
    rw [h.symm.rival_none hj] at hr
    cases hr
  | some e =>
    obtain ⟨j, s⟩ := e
    obtain ⟨hjrow, -, hja, hjp⟩ := Db.rival_some hj
    have hij : j = i := h.slotsUnique hs j i s r' hjrow hrow' (by rw [hb, ha, hja]) (by rw [hb, hp, hjp])
    subst hij
    rw [hrow'] at hjrow
    cases hjrow
    exact ⟨r', rfl, hv, hb⟩

end Alike

/-- Two databases with the same records that differ in nothing else but the clock. -/
structure SameRecords (db db' : Db) : Prop extends Alike db db' where
  vaultId : db'.vaultId = db.vaultId
  violations : db'.violations = db.violations
  cursor : db'.cursor = db.cursor
  floor : db'.floor = db.floor
  header : db'.header = db.header
  enrolment : db'.enrolment = db.enrolment
  lock : db'.lock = db.lock

theorem SameRecords.of_rest {c c' : Hlc} (h : Alike db₁ db₂) (h₁ : SameRest db db₁)
    (h₂ : SameRest db db₂) : SameRecords (db₁.setClock c) (db₂.setClock c') where
  rows := h.rows
  superseded := h.superseded
  vaultId := h₂.vaultId.trans h₁.vaultId.symm
  violations := h₂.violations.trans h₁.violations.symm
  cursor := h₂.cursor.trans h₁.cursor.symm
  floor := h₂.floor.trans h₁.floor.symm
  header := h₂.header.trans h₁.header.symm
  enrolment := h₂.enrolment.trans h₁.enrolment.symm
  lock := h₂.lock.trans h₁.lock.symm

/-! ## Slots -/

theorem slotsUnique_fresh (vaultId : Uuid) : SlotsUnique (Db.fresh vaultId) := by
  intro i j r r' hi
  rw [Db.row_fresh] at hi
  cases hi

theorem blank_eq_none (hk : k = .knownHost) : blank k = none := by
  subst hk
  rfl

theorem wipe_eq_self (hk : k ≠ .secret) (b : Body k) : Body.wipe k b = b := by
  cases k <;> first | rfl | exact absurd rfl hk

theorem slotsUnique_setRow_of_ne (hs : SlotsUnique db) (hk : k ≠ .knownHost) (r : Row (Body k)) :
    SlotsUnique (db.setRow k id r) := by
  refine hs.of_bodies fun j s hj => ⟨s, ?_, rfl⟩
  rwa [Db.row_setRow_ne_kind hk.symm] at hj

theorem slotsUnique_placeholders (hs : SlotsUnique db) (refs : List (EntityKind × Uuid)) :
    SlotsUnique (placeholders refs db) := by
  induction refs generalizing db with
  | nil => exact hs
  | cons ref refs ih =>
    refine ih ?_
    unfold Db.withStub
    split
    · exact hs
    · next b hb =>
      split
      · exact hs
      · refine slotsUnique_setRow_of_ne hs ?_ _
        intro hk
        rw [blank_eq_none hk] at hb
        cases hb

theorem slotsUnique_setRow_body (hs : SlotsUnique db) {r r' : Row (Body k)} (hr : db.row k id = some r)
    (hb : k = .knownHost → r'.body = r.body) : SlotsUnique (db.setRow k id r') := by
  by_cases hk : k = .knownHost
  · subst hk
    refine hs.of_bodies fun j s hj => ?_
    by_cases hji : j = id
    · subst hji
      rw [Db.row_setRow_self] at hj
      cases hj
      exact ⟨r, hr, (hb rfl).symm⟩
    · rw [Db.row_setRow_ne_id hji] at hj
      exact ⟨s, hj, rfl⟩
  · exact slotsUnique_setRow_of_ne hs hk r'

/-! ## Counting -/

/-- What `n` records that are not applied add to the report. -/
structure Counted (n : ℕ) (rest : ApplyReport) : Prop where
  applied : rest.applied = 0
  hostKeyConflicts : rest.hostKeyConflicts = 0
  total : rest.kept + rest.identical + rest.skipped + rest.rejected + rest.manifests = n

def ApplyReport.after (report : ApplyReport) (env : Envelope) (outcome : ApplyReport) :
    ApplyReport :=
  if env.kind = .manifest ∧ outcome.rejected = 0 then
    { report with manifests := report.manifests + 1 }
  else report.add outcome

theorem after_add_counted {rep rest outcome : ApplyReport} {n : ℕ} (hr : Counted n rest) (ho : Counted 1 outcome) : ∃
    rest', (rep.add rest).after env outcome = rep.add rest' ∧ Counted (n + 1) rest' := by
  unfold ApplyReport.after
  split
  · refine ⟨{ rest with manifests := rest.manifests + 1 }, by rw [ApplyReport.add]; rfl, hr.applied,
      hr.hostKeyConflicts, ?_⟩
    have := hr.total
    simp only
    omega
  · refine ⟨rest.add outcome, ?_, ?_, ?_, ?_⟩
    · simp only [ApplyReport.add, Nat.add_assoc]
    · rw [ApplyReport.add, hr.applied, ho.applied]
    · rw [ApplyReport.add, hr.hostKeyConflicts, ho.hostKeyConflicts]
    · have := hr.total
      have := ho.total
      simp only [ApplyReport.add]
      omega

variable {rep : ApplyReport} {payload : Payload} {rest : List Envelope}

theorem after_add {rest outcome : ApplyReport} :
    (rep.add rest).after env outcome = (rep.after env outcome).add rest := by
  unfold ApplyReport.after
  split
  · simp only [ApplyReport.add, ApplyReport.mk.injEq, true_and]
    omega
  · simp only [ApplyReport.add, ApplyReport.mk.injEq]
    omega

/-! ## Host keys -/

/-- Two runs that say the same and leave the same records. -/
def Together (x y : Except StoreError (ApplyReport × Db)) : Prop :=
  ∃ rep db₁ db₂, x = .ok (rep, db₁) ∧ y = .ok (rep, db₂) ∧ Alike db₁ db₂ ∧ SlotsUnique db₁

theorem insertKnownHost_together {p : KnownHostPayload} (h : Alike db₁ db₂) (hs : SlotsUnique db₁) : Together
    (insertKnownHost device env p db₁) (insertKnownHost device env p db₂) := by
  cases hr : db₁.rival env.id p.normalized.address p.normalized.port with
  | none =>
    rw [insertKnownHost_free hr, insertKnownHost_free (h.rival_none hr)]
    exact ⟨_, _, _, rfl, rfl, h.setRow rfl, hs.setRow (admits_of_rival_none hr)⟩
  | some e =>
    obtain ⟨i, r⟩ := e
    obtain ⟨r', hr', hv, hb⟩ := h.rival_some hs hr
    have hc : r'.hlc = r.hlc := congrArg Version.updatedAt hv
    have hkc : keyConflict device env p r' = keyConflict device env p r := by
      unfold keyConflict
      rw [hb]
    by_cases hn : r.hlc > env.updatedAt
    · rw [insertKnownHost_newer hr hn, insertKnownHost_newer hr' (hc ▸ hn), hkc]
      refine ⟨_, _, _, rfl, rfl, h.supersede _ _, hs.of_bodies fun j s hj => ?_⟩
      rw [Db.row, rows_supersede] at hj
      exact ⟨s, hj, rfl⟩
    · rw [insertKnownHost_evicts hs hr hn, insertKnownHost_evicts (h.slotsUnique hs) hr' (hc ▸ hn), hkc, hc]
      exact ⟨_, _, _, rfl, rfl, (h.evict i r.hlc).setRow rfl,
        (slotsUnique_evict hs i r.hlc).setRow (admits_evict hs hr r.hlc)⟩

variable [Platform]

/-! ## One record -/

/-- A record this build can make something of: its seal holds, and its payload is one of its kind.
A tombstone has none. -/
def Envelope.readable (vault : UnlockedVault) (env : Envelope) : Bool :=
  env.vaultId = vault.vaultId && env.kind.hasTable &&
    (vault.openEnvelope env).any fun payload =>
      env.deleted || (columns vault env.id env.kind payload).isSome

/-- A live record whose seal holds and whose payload is not one of its kind. A manifest of a newer
build is passed over and does not count. -/
def Envelope.garbled (vault : UnlockedVault) (env : Envelope) : Bool :=
  env.vaultId = vault.vaultId && env.kind.hasTable && env.kind ≠ .manifest && !env.deleted &&
    (vault.openEnvelope env).any fun payload => (columns vault env.id env.kind payload).isNone

theorem readable_iff : env.readable vault = true ↔ ∃ payload, Opens vault env payload ∧
    (env.deleted = true ∨ ∃ b, columns vault env.id env.kind payload = some b) := by
  simp only [Envelope.readable, Opens, Bool.and_eq_true, decide_eq_true_eq, Option.any_eq_true,
    Bool.or_eq_true, Option.isSome_iff_exists]
  constructor
  · rintro ⟨⟨hv, ht⟩, payload, ho, hd⟩
    exact ⟨payload, ⟨hv, ht, ho⟩, hd⟩
  · rintro ⟨payload, ⟨hv, ht, ho⟩, hd⟩
    exact ⟨⟨hv, ht⟩, payload, ho, hd⟩

theorem garbled_iff : env.garbled vault = true ↔ ∃ payload, Opens vault env payload ∧ env.kind ≠ .manifest ∧
    env.deleted = false ∧ columns vault env.id env.kind payload = none := by
  simp only [Envelope.garbled, Opens, Bool.and_eq_true, decide_eq_true_eq, Option.any_eq_true,
    Bool.not_eq_true', Option.isNone_iff_eq_none]
  constructor
  · rintro ⟨⟨⟨⟨hv, ht⟩, hm⟩, hd⟩, payload, ho, hc⟩
    exact ⟨payload, ⟨hv, ht, ho⟩, hm, hd, hc⟩
  · rintro ⟨payload, ⟨hv, ht, ho⟩, hm, hd, hc⟩
    exact ⟨⟨⟨⟨hv, ht⟩, hm⟩, hd⟩, payload, ho, hc⟩

theorem insertManifest_together {m : Manifest} (h : Alike db₁ db₂) (hs : SlotsUnique db₁) :
    Together (insertManifest env (.manifest m) db₁) (insertManifest env (.manifest m) db₂) := by
  unfold insertManifest
  simp only [Manifest.decode]
  split
  · exact ⟨_, _, _, rfl, rfl, h, hs⟩
  · have hr : ∀ db : Db, upsert env .manifest m db = .ok ((), db.setRow .manifest env.id (env.row m)) := fun db =>
      upsert_eq_ok.mpr ⟨rfl, rfl⟩
    rw [Tx.bind_of_ok (hr db₁), Tx.bind_of_ok (hr db₂)]
    exact ⟨_, _, _, rfl, rfl, h.setRow rfl, hs.setRow (k := .manifest) rfl⟩

theorem insertRecord_together {b : Body env.kind} (h : Alike db₁ db₂) (hs : SlotsUnique db₁)
    (hb : columns vault env.id env.kind payload = some b) : Together (insertRecord device vault env payload db₁)
    (insertRecord device vault env payload db₂) := by
  by_cases hk : env.kind = .knownHost
  · obtain ⟨id, vaultId, kind, updatedAt, baseSeq, deleted, blob, seq⟩ := env
    cases hk
    cases payload with
    | knownHost p => exact insertKnownHost_together h hs
    | _ => cases hb
  by_cases hm : env.kind = .manifest
  · obtain ⟨id, vaultId, kind, updatedAt, baseSeq, deleted, blob, seq⟩ := env
    cases hm
    cases payload with
    | manifest m => exact insertManifest_together h hs
    | _ => cases hb
  rw [insertRecord_eq hk hm hb, insertRecord_eq hk hm hb]
  exact ⟨_, _, _, rfl, rfl, (h.placeholders _).setRow rfl,
    slotsUnique_setRow_of_ne (slotsUnique_placeholders hs _) hk _⟩

theorem applyOne_together (h : Alike db₁ db₂) (hs : SlotsUnique db₁) (hr : env.readable vault = true) : Together
    (applyOne device vault env db₁) (applyOne device vault env db₂) := by
  obtain ⟨payload, ho, hd⟩ := readable_iff.mp hr
  rw [applyOne_of_opens ho db₁, applyOne_of_opens ho db₂]
  have hins : env.deleted = false → Together (insertRecord device vault env payload db₁)
      (insertRecord device vault env payload db₂) := by
    intro hlive
    rcases hd with hd | ⟨b, hb⟩
    · rw [hlive] at hd
      cases hd
    · exact insertRecord_together h hs hb
  cases hr₁ : db₁.row env.kind env.id with
  | none =>
    rw [h.none hr₁]
    by_cases hdel : env.deleted = true
    · simp only [hdel, if_true]
      exact ⟨_, _, _, rfl, rfl, h, hs⟩
    · simp only [hdel, Bool.false_eq_true, if_false]
      exact hins (by simpa using hdel)
  | some r₁ =>
    obtain ⟨r₂, hr₂, hv, hb⟩ := h.some hr₁
    rw [hr₂]
    simp only [hv]
    cases resolve r₁.version env.version with
    | identical | keepLocal =>
      refine ⟨_, _, _, rfl, rfl, h.setRow (Prod.ext ?_ hb), slotsUnique_setRow_body hs hr₁ fun _ => rfl⟩
      exact hv
    | takeRemote =>
      by_cases hdel : env.deleted = true
      · simp only [hdel, if_true]
        refine ⟨_, _, _, rfl, rfl, h.setRow (Prod.ext rfl (congrArg (Body.wipe _) hb)),
          slotsUnique_setRow_body hs hr₁ fun hk => wipe_eq_self (by rw [hk]; decide) _⟩
      · simp only [hdel, Bool.false_eq_true, if_false]
        exact hins (by simpa using hdel)

theorem applyOne_held (ho : Opens vault env payload) (h : Held db env) :
    ∃ rep db', applyOne device vault env db = .ok (rep, db') ∧ Alike db db' ∧ Counted 1 rep := by
  obtain ⟨hd, hh, -⟩ := id h
  obtain ⟨r, hr, -⟩ := Db.head_eq_some.mp hh
  have hres := resolve_of_held hr h
  rw [applyOne_of_opens ho]
  simp only [hr]
  cases hv : resolve r.version env.version with
  | identical | keepLocal => exact ⟨_, _, rfl, Alike.setRow_self hr rfl, rfl, rfl, rfl⟩
  | takeRemote => exact absurd hv hres

theorem insertRecord_unknownManifest (hk : env.kind = .manifest) (hb : columns vault env.id env.kind payload = none) :
    insertRecord device vault env payload db = .ok ({ skipped := 1 }, db) := by
  obtain ⟨id, vaultId, kind, updatedAt, baseSeq, deleted, blob, seq⟩ := env
  cases hk
  change insertManifest _ payload db = _
  unfold insertManifest
  rw [show Manifest.decode payload = none from hb]
  rfl

/-- **A record that cannot be read leaves the same records**, and is counted once, unless it is a
garbled one that is not here yet. -/
theorem applyOne_unreadable (hr : env.readable vault = false) (hg : env.garbled vault = true → Held db env) : ∃ rep
    db', applyOne device vault env db = .ok (rep, db') ∧ Alike db db' ∧ Counted 1 rep := by
  by_cases hv : env.vaultId ≠ vault.vaultId
  · refine ⟨{ rejected := 1 }, db, ?_, Alike.refl db, rfl, rfl, rfl⟩
    unfold applyOne
    rw [if_pos hv]
    rfl
  by_cases ht : env.kind.hasTable = true
  swap
  · refine ⟨{ skipped := 1 }, db, ?_, Alike.refl db, rfl, rfl, rfl⟩
    unfold applyOne
    rw [if_neg hv, if_pos (by simpa using ht)]
    rfl
  cases hp : vault.openEnvelope env with
  | none =>
    refine ⟨{ rejected := 1 }, db, ?_, Alike.refl db, rfl, rfl, rfl⟩
    unfold applyOne
    rw [if_neg hv, if_neg (by rw [ht]; decide)]
    simp only [hp]
    rfl
  | some payload =>
    have ho : Opens vault env payload := ⟨not_not.mp hv, ht, hp⟩
    by_cases hh : Held db env
    · exact applyOne_held ho hh
    have hn : ¬∃ p, Opens vault env p ∧ (env.deleted = true ∨ ∃ b, columns vault env.id env.kind p = some b) := by
      rw [← readable_iff, hr]
      decide
    have hd : env.deleted = false := by
      by_contra hd
      exact hn ⟨payload, ho, .inl (by simpa using hd)⟩
    have hc : columns vault env.id env.kind payload = none := by
      by_contra hc
      exact hn ⟨payload, ho, Or.inr (Option.ne_none_iff_exists'.mp hc)⟩
    by_cases hm : env.kind = .manifest
    · rw [applyOne_wanted ho hd hh, insertRecord_unknownManifest hm hc]
      exact ⟨_, _, rfl, Alike.refl db, rfl, rfl, rfl⟩
    · exact absurd (hg (garbled_iff.mpr ⟨payload, ho, hm, hd, hc⟩)) hh

theorem applyOne_garbled (hg : env.garbled vault = true) (hh : ¬Held db env) :
    applyOne device vault env db = .error (.invalid "record" "unreadable") := by
  obtain ⟨payload, ho, hm, hd, hc⟩ := garbled_iff.mp hg
  rw [applyOne_wanted ho hd hh, insertRecord_unreadable ho.2.1 hm hc]

/-! ## A batch -/

/-- Whenever a garbled record of the batch has its turn, it is here already. -/
def Spared (device : UInt32) (vault : UnlockedVault) (order : List Envelope) (db : Db) : Prop :=
  ∀ pre env post db₁, order = pre ++ env :: post → env.garbled vault = true →
    Applied device vault pre db db₁ → Held db₁ env

theorem Spared.head (h : Spared device vault (env :: rest) db) (hg : env.garbled vault = true) : Held db env :=
  h [] env rest db rfl hg (.nil db)

theorem Spared.tail (h : Spared device vault (env :: rest) db)
    (hone : applyOne device vault env db = .ok (rep, db')) : Spared device vault rest db' := by
  intro pre e post db₁ hord hg happ
  refine h (env :: pre) e post db₁ (by rw [hord]; rfl) hg ?_
  exact .cons env pre db db' db₁ rep hone happ

theorem applyAll_together (order : List Envelope) {rep rest : ApplyReport} {n : ℕ} {newest newest' : Option Hlc}
    (h : Alike db₂ db₁) (hs : SlotsUnique db₁) (hsp : Spared device vault order db₁) (hc : Counted n rest) : ∃ out
    out₀ rest' db₁' db₂', applyAll device vault order (rep.add rest) newest db₁ = .ok (out, db₁') ∧ applyAll device
    vault (order.filter (·.readable vault)) rep newest' db₂ = .ok (out₀, db₂') ∧ Alike db₂' db₁' ∧ out.1 = out₀.1.add
    rest' ∧ Counted (n + order.countP fun env => !env.readable vault) rest' := by
  induction order generalizing rep rest n newest newest' db₁ db₂ with
  | nil => exact ⟨_, _, rest, db₁, db₂, rfl, rfl, h, rfl, hc⟩
  | cons env order ih =>
    cases hr : env.readable vault with
    | true =>
      obtain ⟨o, db₁', db₂', e₁, e₂, ha, hs'⟩ := @applyOne_together device _ _ _ _ _ h.symm hs hr
      rw [List.filter_cons_of_pos hr, List.countP_cons_of_neg (by rw [hr]; decide)]
      unfold applyAll
      rw [Tx.bind_of_ok e₁, Tx.bind_of_ok e₂]
      change ∃ out out₀ rest' db₁'' db₂'',
        applyAll device vault order ((rep.add rest).after env o) _ db₁' = .ok (out, db₁'') ∧
        applyAll device vault _ (rep.after env o) _ db₂' = .ok (out₀, db₂'') ∧ _
      rw [after_add]
      exact ih ha.symm hs' (hsp.tail e₁) hc
    | false =>
      obtain ⟨o, db₁', e₁, ha, ho⟩ := @applyOne_unreadable device _ _ _ _ hr hsp.head
      rw [List.filter_cons_of_neg (by rw [hr]; decide), List.countP_cons_of_pos (by rw [hr]; rfl)]
      obtain ⟨rest', hrest', hc'⟩ := @after_add_counted env rep _ _ _ hc ho
      conv in applyAll device vault (env :: order) _ _ => unfold applyAll
      rw [Tx.bind_of_ok e₁]
      change ∃ out out₀ rest' db₁'' db₂'',
        applyAll device vault order ((rep.add rest).after env o) _ db₁' = .ok (out, db₁'') ∧ _
      rw [hrest', Nat.add_comm (order.countP _) 1, ← Nat.add_assoc]
      exact ih (h.trans ha) (ha.slotsUnique hs) (hsp.tail e₁) hc'

theorem applyAll_stops {pre post : List Envelope} {e : StoreError} (h : Applied device vault pre db db₁)
    (hone : applyOne device vault env db₁ = .error e) (rep : ApplyReport) (newest : Option Hlc) : applyAll device
    vault (pre ++ env :: post) rep newest db = .error e := by
  induction h generalizing rep newest with
  | nil db =>
    rw [List.nil_append]
    unfold applyAll
    exact Tx.bind_of_error hone
  | cons env' rest db db₁ db' rep' h _ ih =>
    rw [List.cons_append]
    unfold applyAll
    rw [Tx.bind_of_ok h]
    exact ih hone _ _

/-- One bad record does not block the others: a batch comes out, with the records it would have left
without the unreadable ones, and these are counted. A pull goes on behind such a page, unless every
record of it was rejected, which ends the pull by design. -/
structure Unblocked (device : UInt32) (vault : UnlockedVault) (envs : List Envelope) (db : Db) :
    Prop where
  applied : ∀ now, ∃ rep db' rep₀ db₀ rest,
    applyEnvelopes device (some vault) now envs db = .ok (rep, db') ∧
    applyEnvelopes device (some vault) now (envs.filter (·.readable vault)) db = .ok (rep₀, db₀) ∧
    SameRecords db₀ db' ∧ rep = rep₀.add rest ∧
    Counted (envs.countP fun env => !env.readable vault) rest
  pulled : ∀ {σ : Type} (t : Transport σ) (cx : Session) (s : PassState σ) (page : PullResponse)
    (sv sv' : σ), cx.device = device → cx.vault = some vault → s.db = db →
    t.pull s.db.cursor maxBatch s.server = (.ok page, sv) → t.takeReset sv = (false, sv') →
    page.envelopes = envs → s.db.cursor < page.cursor →
    (∀ rep db', applyEnvelopes device (some vault) (cx.now s.asked) envs db = .ok (rep, db') →
      rep.rejected ≠ envs.length) →
    (Engine.pullPages cx t 1 s).2.db.cursor = page.cursor

theorem applyEnvelopes_of_spared {envs : List Envelope} (hs : SlotsUnique db)
    (hsp : Spared device vault (applySort envs) db) (now : UInt64) : ∃ rep db' rep₀ db₀ rest, applyEnvelopes device
    (some vault) now envs db = .ok (rep, db') ∧ applyEnvelopes device (some vault) now
    (envs.filter (·.readable vault)) db = .ok (rep₀, db₀) ∧ SameRecords db₀ db' ∧ rep = rep₀.add rest ∧ Counted
    (envs.countP fun env => !env.readable vault) rest := by
  obtain ⟨out, out₀, rest, db₁, db₂, h₁, h₂, ha, hrep, hc⟩ :=
    @applyAll_together _ _ _ _ _ (applySort envs) ({}) ({}) 0 none none (Alike.refl db) hs hsp ⟨rfl, rfl, rfl⟩
  have hsort : (applySort envs).filter (·.readable vault) = applySort (envs.filter (·.readable vault)) :=
    have : IsTrans Envelope fun a b => toLex (a.kind.applyRank, a.seq.getD 0) ≤
        toLex (b.kind.applyRank, b.seq.getD 0) := ⟨fun _ _ _ => le_trans⟩
    have : Std.Total fun a b : Envelope => toLex (a.kind.applyRank, a.seq.getD 0) ≤
        toLex (b.kind.applyRank, b.seq.getD 0) := ⟨fun _ _ => le_total _ _⟩
    filter_insertionSort envs
  rw [hsort] at h₂
  rw [show ApplyReport.add {} {} = {} from rfl] at h₁
  obtain ⟨c₁, hc₁⟩ := catchUp_eq device now out.2 db₁
  obtain ⟨c₂, hc₂⟩ := catchUp_eq device now out₀.2 db₂
  refine ⟨out.1, db₁.setClock c₁, out₀.1, db₂.setClock c₂, rest, ?_, ?_, SameRecords.of_rest ha (applyAll_spec h₂).1.rest
    (applyAll_spec h₁).1.rest, hrep, ?_⟩
  · rw [applyEnvelopes_eq, Tx.bind_of_ok h₁, Tx.bind_of_ok hc₁]
    rfl
  · rw [applyEnvelopes_eq, Tx.bind_of_ok h₂, Tx.bind_of_ok hc₂]
    rfl
  · rw [Nat.zero_add, applySort, (List.perm_insertionSort _ envs).countP_eq] at hc
    exact hc

/-- A group of this vault between a record of another one and a manifest of a newer build. -/
def mixedBatch : List Envelope :=
  [{ sealedAt 900 5 .group false (groupOf "a") 1 with vaultId := 2 },
    sealedAt 900 6 .group false (groupOf "b") 2, sealedAt 900 7 .manifest false (.bytes []) 3]

/-- A host whose payload is an empty object, and a group. -/
def garbledBatch : List Envelope :=
  [sealedAt 900 5 .host false (.bytes [0x7b, 0x7d]) 1, sealedAt 900 6 .group false (groupOf "b") 2]

end UwuRdp
