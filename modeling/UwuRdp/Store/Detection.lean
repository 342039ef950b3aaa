import UwuRdp.Store.KnownHosts

/-!
# The check of the manifests is complete

Whatever a server handed over, what a manifest held here lists is accounted for by what is here or
written down as a violation. Two exemptions are deliberate: a listed delete of something this device
never had needs no row, and a tombstone here accounts for every version of its record.
-/

namespace UwuRdp

open Lib

def Recorded (db : Db) (kind : ℕ) (id : Uuid) : Prop := (db.violations.get? (kind, id)).isSome

/-- A listed version is accounted for by what is here: the record is deleted here, or here at that
version or a preferred one; it was deleted and never here; or a version of it that is not older
arrived and gave up its slot. -/
def Accounted (db : Db) (kind : EntityKind) (e : ManifestEntry) : Prop :=
  (∃ h, db.head kind e.id = some h ∧ (h.deleted = true ∨ e.version ≤ h.version)) ∨
    (db.head kind e.id = none ∧ e.deleted = true) ∨
    ∃ clock, db.superseded.get? e.id = some clock ∧ e.updatedAt ≤ clock

/-- A record listed as deleted that is live here with a clock that is not before its deletion. -/
def LiveDespiteDelete (db : Db) (kind : EntityKind) (e : ManifestEntry) : Prop :=
  e.deleted = true ∧ ∃ h, db.head kind e.id = some h ∧ h.deleted = false ∧ e.updatedAt ≤ h.hlc

/-! ## One entry -/

variable {db : Db} {kind : EntityKind} {e : ManifestEntry}

theorem hasTable_of_mem_syncedKinds (h : kind ∈ syncedKinds) : kind.hasTable = true := by
  revert h
  cases kind <;> decide

theorem accounted_of_checkEntry (hk : kind.hasTable = true) (hl : ¬LiveDespiteDelete db kind e)
    (h : checkEntry db kind e = none) : Accounted db kind e := by
  have superseded_of : (db.superseded.get? e.id).any (fun clock => decide (e.updatedAt ≤ clock)) →
      Accounted db kind e := by
    intro hs
    obtain ⟨clock, hc, hle⟩ := (Option.any_eq_true _ _).mp hs
    exact .inr (.inr ⟨clock, hc, by simpa using hle⟩)
  simp only [checkEntry, hk, Bool.not_true, Bool.false_eq_true, if_false] at h
  cases hr : db.row kind e.id with
  | none =>
    simp only [hr] at h
    split at h
    · next hd => exact Or.inr (Or.inl ⟨Db.head_eq_none.mpr hr, hd⟩)
    · split at h
      · next hs => exact superseded_of hs
      · cases h
  | some r =>
    have hh := Db.head_eq_some.mpr ⟨r, hr, rfl⟩
    simp only [hr] at h
    split at h
    · next hd => exact .inl ⟨r.head, hh, .inl hd⟩
    next hd =>
    split at h
    · next hc =>
      refine .inl ⟨r.head, hh, .inr ?_⟩
      -- A live row at the listed clock or later: preferred unless a delete was listed.
      have hrd : r.deleted = false := by simpa using hd
      have hed : e.deleted = false := by
        by_contra hed
        exact hl ⟨by simpa using hed, r.head, hh, hrd, hc⟩
      rw [Version.le_iff]
      exact .inr ⟨hed.trans hrd.symm, hc⟩
    · split at h
      · next hs => exact superseded_of hs
      · cases h

/-! ## The whole check -/

theorem mem_heldManifests {id : Uuid} {r : Row Manifest} :
    (id, r) ∈ heldManifests db ↔ db.row .manifest id = some r ∧ r.deleted = false := by
  rw [heldManifests, Table.mem_select, Db.row]
  simp

theorem recorded_checkManifests {n : ℕ} {i : Uuid} :
    Recorded (checkManifests db) n i ↔
      (∃ id r, db.row .manifest id = some r ∧ r.deleted = false ∧ ∃ e ∈ r.body.entries,
        ∃ problem, verdict db e = some ((n, i), problem)) ∨
      ∃ problem, floorVerdict db = some ((n, i), problem) := by
  have held : ((checkHeld db).get? (n, i)).isSome ↔ ∃ id r, db.row .manifest id = some r ∧
      r.deleted = false ∧ ∃ e ∈ r.body.entries, ∃ problem,
        verdict db e = some ((n, i), problem) := by
    rw [checkHeld, Table.isSome_foldl_record]
    simp only [Table.get?_empty, Option.isSome_none, Bool.false_eq_true, false_or, List.mem_flatMap]
    constructor
    · rintro ⟨e, ⟨⟨id, r⟩, hm, he⟩, problem, hv⟩
      exact ⟨id, r, (mem_heldManifests.mp hm).1, (mem_heldManifests.mp hm).2, e, he, problem, hv⟩
    · rintro ⟨id, r, hr, hd, e, he, problem, hv⟩
      exact ⟨e, ⟨(id, r), mem_heldManifests.mpr ⟨hr, hd⟩, he⟩, problem, hv⟩
  rw [← held, Recorded, checkManifests]
  cases hf : floorVerdict db with
  | none => simp [Table.record]
  | some f =>
    obtain ⟨key, problem⟩ := f
    simp only [Table.record, Table.get?_set]
    by_cases hkey : (n, i) = key
    · subst hkey; simp
    · rw [if_neg hkey]
      constructor
      · exact .inl
      · rintro (h | ⟨p, hp⟩)
        · exact h
        · exact absurd (congrArg Prod.fst (Option.some.inj hp)).symm hkey

theorem recorded_of_checkEntry {id : Uuid} {r : Row Manifest} {problem : Problem} (hr : db.row .manifest id = some r)
    (hd : r.deleted = false) (he : e ∈ r.body.entries) (hk : e.kind? = some kind) (hs : kind ∈ syncedKinds)
    (hc : checkEntry db kind e = some problem) : Recorded (checkManifests db) kind.discriminant e.id := by
  refine recorded_checkManifests.mpr (Or.inl ⟨id, r, hr, hd, e, he, problem, ?_⟩)
  simp [verdict, hk, hs, hc]

theorem recorded_of_floor {floor : ManifestFloor} (hf : db.floor = some floor)
    (h : ∀ r, db.row .manifest floor.id = some r → r.deleted = false → r.hlc < floor.clock) :
    Recorded (checkManifests db) EntityKind.manifest.discriminant floor.id := by
  have hc : ∃ problem, checkFloor db floor = some problem := by
    unfold checkFloor
    cases hm : (heldManifests db).find? fun m => decide (m.1 = floor.id) with
    | none => exact ⟨.missing, rfl⟩
    | some m =>
      have hid : m.1 = floor.id := by simpa using List.find?_some hm
      obtain ⟨hr, hd⟩ := mem_heldManifests.mp (List.mem_of_find?_eq_some hm : (m.1, m.2) ∈ _)
      exact ⟨.older, if_neg (not_le.mpr (h m.2 (hid ▸ hr) hd))⟩
  obtain ⟨problem, hc⟩ := hc
  exact recorded_checkManifests.mpr (Or.inr ⟨problem, by simp [floorVerdict, hf, hc]⟩)

theorem knownHost_answer {device : UInt32} {address : Text} {port : UInt16} {answer : KnownHostRecord}
    (h : knownHost db device address port = some answer) : ∃ id r, db.row .knownHost id = some r ∧ r.deleted = false ∧
    r.body.answer = answer ∧ (r.hlc.device = device ∨ ∀ n i, n ∈ hostKeyKinds → ¬Recorded db n i) := by
  obtain ⟨⟨id, r⟩, ht, ha⟩ := Option.map_eq_some_iff.mp h
  obtain ⟨hs, hp⟩ := Option.filter_eq_some_iff.mp ht
  simp only [Bool.and_eq_true, Bool.not_eq_eq_eq_not, Bool.not_true, Bool.or_eq_true, beq_iff_eq] at hp
  refine ⟨id, r, (Table.find?_some hs).1, hp.1, ha, hp.2.imp_right fun hw n i hn hrec => ?_⟩
  obtain ⟨problem, hi⟩ := Option.isSome_iff_exists.mp hrec
  have hnone : db.violations.find? (fun key _ => hostKeyKinds.contains key.1) = none := by
    simpa [hostKeysWithheld] using hw
  have := Table.find?_none hnone hi
  simp [hn] at this

/-- **Detection.** After the check, in every state of the store: an entry of a checked kind in a
manifest held here is accounted for or written down; a floor whose manifest is absent or older is
written down; and a key of another device is answered only while nothing about host keys is. -/
theorem checkManifests_complete (db : Db) (device : UInt32) :
    (∀ id r, db.row .manifest id = some r → r.deleted = false → ∀ e ∈ r.body.entries,
      ∀ kind ∈ syncedKinds, e.kind? = some kind → ¬LiveDespiteDelete db kind e →
        Accounted db kind e ∨ Recorded (checkManifests db) kind.discriminant e.id) ∧
    (∀ floor, db.floor = some floor →
      (∀ r, db.row .manifest floor.id = some r → r.deleted = false → r.hlc < floor.clock) →
        Recorded (checkManifests db) EntityKind.manifest.discriminant floor.id) ∧
    ∀ address port answer, knownHost (checkManifests db) device address port = some answer →
      ∃ id r, db.row .knownHost id = some r ∧ r.deleted = false ∧ r.body.answer = answer ∧
        (r.hlc.device = device ∨ ∀ n i, n ∈ hostKeyKinds → ¬Recorded (checkManifests db) n i) := by
  refine ⟨fun id r hr hd e he kind hs hk hl => ?_, fun floor hf h => recorded_of_floor hf h,
    fun address port answer h => knownHost_answer h⟩
  cases hc : checkEntry db kind e with
  | none => exact .inl (accounted_of_checkEntry (hasTable_of_mem_syncedKinds hs) hl hc)
  | some problem => exact .inr (recorded_of_checkEntry hr hd he hk hs hc)

/-- A store with a manifest of device 2 that lists one entry, a newer floor for it, and a host key
of device 1. -/
def listing (e : ManifestEntry) : Db :=
  { (((Db.fresh 1).setRow .manifest 9
        ⟨⟨5, 0, 2⟩, false, false, 1, ⟨2, ⟨5, 0, 2⟩, false, [e], by simp [maxManifestEntries]⟩⟩).setRow
      .knownHost 3 ⟨⟨4, 0, 1⟩, false, false, 2, ⟨['h'], 3389, [], ['f'], [], 0, []⟩⟩) with
    floor := some ⟨9, ⟨6, 0, 2⟩⟩ }

/-- A host that was kept back, a manifest below its floor, and a key of this device. -/
theorem checkManifests_complete_listing :
    let e : ManifestEntry := ⟨0, 7, ⟨5, 0, 2⟩, false⟩
    (Accounted (listing e) .host e ∨ Recorded (checkManifests (listing e)) 0 7) ∧
    Recorded (checkManifests (listing e)) 9 9 ∧
    ∃ id r, (listing e).row .knownHost id = some r ∧ r.deleted = false ∧
      r.body.answer = ⟨['h'], 3389, [], ['f'], [], 0⟩ ∧
      (r.hlc.device = 1 ∨ ∀ n i, n ∈ hostKeyKinds → ¬Recorded (checkManifests (listing e)) n i) := by
  intro e
  obtain ⟨hentry, hfloor, hkey⟩ := checkManifests_complete (listing e) 1
  refine ⟨hentry 9 _ rfl rfl e List.mem_cons_self .host (by decide) rfl ?_, ?_, ?_⟩
  · exact fun h => absurd h.1 (by decide)
  · exact hfloor ⟨9, ⟨6, 0, 2⟩⟩ rfl fun r hr _ => by cases hr; decide
  · exact hkey ['h'] 3389 _ (by decide +kernel)

/-- A listed delete of something that was never here has no row, and is no violation. -/
theorem deleted_elsewhere_not_recorded : ¬∀ (db : Db) (id : Uuid) (r : Row Manifest), db.row .manifest id = some r →
    r.deleted = false → ∀ e ∈ r.body.entries, ∀ kind ∈ syncedKinds, e.kind? = some kind →
    (∃ h, db.head kind e.id = some h ∧ e.version ≤ h.version) ∨
    (∃ clock, db.superseded.get? e.id = some clock ∧ e.updatedAt ≤ clock) ∨ Recorded (checkManifests db)
    kind.discriminant e.id := by
  intro h
  have hn : (listing ⟨0, 7, ⟨5, 0, 2⟩, true⟩).head .host 7 = none := by decide +kernel
  have hr : ¬Recorded (checkManifests (listing ⟨0, 7, ⟨5, 0, 2⟩, true⟩)) 0 7 := by
    unfold Recorded
    decide +kernel
  rcases h (listing ⟨0, 7, ⟨5, 0, 2⟩, true⟩) 9 _ rfl rfl _ List.mem_cons_self .host (by decide) rfl
    with ⟨h', hh, -⟩ | ⟨clock, hc, -⟩ | hrec
  · rw [hn] at hh
    cases hh
  · cases hc
  · exact hr hrec

end UwuRdp
