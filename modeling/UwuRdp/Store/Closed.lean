import UwuRdp.Store.Runs

/-!
# What rows point at is there

A row that points at another one is written only where that one exists, and a record that arrives
brings placeholders for what it points at. So in every run, whatever a row points at has a row.
-/

namespace UwuRdp

open Lib

theorem refs_ne_knownHost {k : EntityKind} {b : Body k} {ref : EntityKind × Uuid}
    (h : ref ∈ Body.refs k b) : ref.1 ≠ .knownHost := by
  cases k <;> simp only [Body.refs, List.mem_append, List.mem_map, List.not_mem_nil] at h
  · rcases h with (⟨i, -, rfl⟩ | ⟨i, -, rfl⟩) | ⟨i, -, rfl⟩ <;> simp
  · obtain ⟨i, -, rfl⟩ := h
    simp
  · rcases h with ⟨i, -, rfl⟩ | ⟨i, -, rfl⟩ <;> simp
  · rcases h with ⟨i, -, rfl⟩ | ⟨i, -, rfl⟩ <;> simp
  · cases b
  · cases b

variable {db db' : Db} {device : UInt32} {vault : UnlockedVault}

theorem RefsClosed.stubbed {refs : List (EntityKind × Uuid)} (h : RefsClosed db)
    (hs : Stubbed refs db db') : RefsClosed db' := by
  intro k id r hr ref href
  rcases hs.bare k id r hr with h₀ | hb
  · obtain ⟨r', hr'⟩ := Option.isSome_iff_exists.mp (h k id r h₀ ref href)
    rw [hs.rows _ _ r' hr']
    rfl
  · rw [hb] at href
    cases href

theorem RefsClosed.of_rows {db db' : Db} (h : RefsClosed db)
    (hsub : ∀ k id r, db'.row k id = some r → db.row k id = some r)
    (hrows : ∀ k id, k ≠ .knownHost → db'.row k id = db.row k id) : RefsClosed db' := by
  intro k id r hr ref href
  rw [hrows _ _ (refs_ne_knownHost href)]
  exact h k id r (hsub k id r hr) ref href

theorem row_markOne (db : Db) (p : Pushed) (k : EntityKind) (id : Uuid) :
    ∃ f : Row (Body k) → Row (Body k), (∀ r, (f r).body = r.body ∧ (f r).hlc = r.hlc ∧
      (f r).deleted = r.deleted ∧ (r.dirty = false → (f r).dirty = false)) ∧
      (markOne db p).row k id = (db.row k id).map f := by
  by_cases hk : p.kind = k
  · subst hk
    rw [Db.row, markOne, Db.setTable_rows_self, Table.get?_modify, Db.row]
    by_cases hid : id = p.id
    · rw [if_pos hid]
      refine ⟨_, fun r => ?_, rfl⟩
      split
      · exact ⟨rfl, rfl, rfl, fun _ => rfl⟩
      · exact ⟨rfl, rfl, rfl, fun h => h⟩
    · rw [if_neg hid]
      exact ⟨fun r => r, fun r => ⟨rfl, rfl, rfl, fun h => h⟩, Option.map_id'.symm⟩
  · rw [Db.row, markOne, Db.setTable_rows_ne _ (Ne.symm hk), Db.row]
    exact ⟨fun r => r, fun r => ⟨rfl, rfl, rfl, fun h => h⟩, Option.map_id'.symm⟩

theorem row_markPushed (ps : List Pushed) (db : Db) (k : EntityKind) (id : Uuid) :
    ∃ f : Row (Body k) → Row (Body k), (∀ r, (f r).body = r.body ∧ (f r).hlc = r.hlc ∧
      (f r).deleted = r.deleted ∧ (r.dirty = false → (f r).dirty = false)) ∧
      (markPushed db ps).1.row k id = (db.row k id).map f := by
  induction ps generalizing db with
  | nil => exact ⟨fun r => r, fun r => ⟨rfl, rfl, rfl, fun h => h⟩, Option.map_id'.symm⟩
  | cons p ps ih =>
    obtain ⟨f, hf, h₁⟩ := row_markOne db p k id
    obtain ⟨g, hg, h₂⟩ := ih (markOne db p)
    refine ⟨g ∘ f, fun r => ⟨?_, ?_, ?_, fun hd => ?_⟩, ?_⟩
    · exact (hg (f r)).1.trans (hf r).1
    · exact (hg (f r)).2.1.trans (hf r).2.1
    · exact (hg (f r)).2.2.1.trans (hf r).2.2.1
    · exact (hg (f r)).2.2.2 ((hf r).2.2.2 hd)
    · rw [markPushed, h₂, h₁, Option.map_map]

variable [Platform]

theorem RefsClosed.applyOne {env : Envelope} {rep : ApplyReport} (hc : RefsClosed db)
    (h : applyOne device vault env db = .ok (rep, db')) : RefsClosed db' := by
  have wipe : ∀ b : Body env.kind, ∀ ref ∈ Body.refs env.kind (Body.wipe env.kind b), ref ∈ Body.refs env.kind b := by
    intro b ref href
    revert b
    cases env.kind <;> intro b href <;> exact href
  cases applyOne_cases h with
  | foreign | noTable | absent => exact hc
  | identical payload ho r hr hv => exact hc.setRow fun ref href => hc _ _ r hr ref href
  | kept payload ho r hr hv => exact hc.setRow fun ref href => hc _ _ r hr ref href
  | tombstoned payload ho r hr hv hd =>
    exact hc.setRow fun ref href => hc _ _ r hr ref (wipe r.body ref href)
  | inserted payload ho _ _ hv hd hi =>
    rcases insertRecord_spec hi with ⟨rfl, -⟩ | ⟨-, -, db₁, b, hs, ha, -, rfl⟩ | ⟨-, -, p, -, hs⟩
    · exact hc
    · exact (hc.stubbed hs).setRow (refs_of_admits ha)
    · have norefs : ∀ ref ∈ Body.refs .knownHost p.normalized, False := fun ref href => by cases href
      have super : ∀ i c, RefsClosed (supersede db i c) := fun i c =>
        hc.of_rows (fun k id r hr => by rw [Db.row, rows_supersede] at hr; exact hr)
          fun k id _ => by rw [Db.row, rows_supersede, Db.row]
      rcases hs with ⟨-, -, rfl⟩ | ⟨rivalId, rival, -, ⟨-, rfl⟩ | ⟨-, -, rfl⟩⟩
      · exact hc.setRow fun ref href => (norefs ref href).elim
      · exact super _ _
      · refine RefsClosed.setRow ?_ fun ref href => (norefs ref href).elim
        refine hc.of_rows (fun k id r hr => ?_) fun k id hk => ?_
        · by_cases hk : k = .knownHost
          · subst hk
            rw [Db.row, evict, Db.setTable_rows_self, Table.get?_erase] at hr
            split at hr
            · cases hr
            · exact hr
          · rw [Db.row, evict, Db.setTable_rows_ne _ hk, rows_supersede] at hr
            exact hr
        · rw [Db.row, evict, Db.setTable_rows_ne _ hk, rows_supersede, Db.row]

theorem RefsClosed.applied {envs : List Envelope} (hc : RefsClosed db) (h : Applied device vault envs db db') : RefsClosed db' := by
  induction h with
  | nil db => exact hc
  | cons env rest db db₁ db' rep h _ ih => exact ih (hc.applyOne h)

theorem RefsClosed.run (hc : RefsClosed db) (device : UInt32) (call : StoreCall) :
    RefsClosed (call.run device db) := by
  have same : ∀ db' : Db, db'.rows = db.rows → RefsClosed db' := fun db' hrows =>
    hc.of_rows (fun k id r hr => by rw [← row_of_rows_eq hrows]; exact hr)
      fun k id _ => row_of_rows_eq hrows k id
  cases call with
  | edit cx op =>
    obtain ⟨n, hw⟩ := LocalOp.run_all { cx with device } op db
    exact hw.refs hc
  | apply vault now envs =>
    show RefsClosed ((applyEnvelopes device vault now envs).commit db)
    unfold Tx.commit
    split
    · next rep db' h =>
      rcases applyEnvelopes_spec h with ⟨-, rfl⟩ | ⟨v, out, db₁, -, happ, rfl⟩
      · exact hc
      · have h₁ := hc.applied (applyAll_spec happ).1
        cases out.2 with
        | none | some c => exact h₁
    · exact hc
  | markPushed records =>
    intro k id r hr ref href
    obtain ⟨f, hf, he⟩ := row_markPushed records db k id
    obtain ⟨g, -, he'⟩ := row_markPushed records db ref.1 ref.2
    have hr' : (UwuRdp.markPushed db records).1.row k id = some r := hr
    rw [he] at hr'
    obtain ⟨r₀, hr₀, rfl⟩ := Option.map_eq_some_iff.mp hr'
    show ((UwuRdp.markPushed db records).1.row ref.1 ref.2).isSome
    rw [he', Option.isSome_map]
    rw [(hf r₀).1] at href
    exact hc k id r₀ hr₀ ref href
  | refreshManifest cx =>
    simp only [StoreCall.run]
    rcases refreshManifest_spec { cx with device } db with he | ⟨now, m, he⟩
    · rw [he]
      exact hc
    · rw [he]
      exact (hc : RefsClosed (db.setClock _)).setRow fun ref href => by cases href
  | checkManifests | noteIncompletePull => exact same _ rfl
  | setManifestFloor floor =>
    obtain ⟨violations, he⟩ := setManifestFloor_eq db floor
    simp only [StoreCall.run, he]
    exact same _ rfl
  | setSyncCursor cursor => exact same _ rfl

end UwuRdp
