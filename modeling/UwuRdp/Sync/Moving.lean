import UwuRdp.Sync.Lock

/-!
# Moving to UwULock

The records read from a UwUSync server are sealed again for the space and pushed in requests the
protocol allows. `batches_bounds` says what these are.
-/

namespace UwuRdp

open Lib

def tagBytes : ℕ := 16

/-- One record as it was read from UwUSync and opened. -/
structure Opened where
  id : Uuid
  kind : EntityKind
  updatedAt : Hlc
  deleted : Bool
  payload : Payload
deriving DecidableEq

def Opened.size (o : Opened) : ℕ := o.payload.len + tagBytes

abbrev Waiting := Opened × ℕ

def startsBatch (bytes size : ℕ) : Option (List Waiting) → Bool
  | none => true
  | some batch => maxBatch ≤ batch.length || maxBatchBytes < bytes + size

/-- Fill requests, `bytes` in the last one so far. -/
def fillBatches (out : List (List Waiting)) (bytes : ℕ) : List Waiting → List (List Waiting)
  | [] => out
  | item :: rest =>
    if startsBatch bytes item.1.size out.getLast? then
      fillBatches (out ++ [[item]]) item.1.size rest
    else
      fillBatches (out.dropLast ++ [out.getLast?.getD [] ++ [item]]) (bytes + item.1.size) rest

/-- Records to push in requests the protocol allows: at most `maxBatch` and `maxBatchBytes` each,
and one record whatever its size. -/
def batches (waiting : List Waiting) : List (List Waiting) := fillBatches [] 0 waiting

/-- A record sealed for the space it moves to, unless it is too large. -/
def Opened.sealFor (target : UnlockedVault) (item : Waiting) : Except LockError Envelope :=
  let o := item.1
  let blob := target.sealSynced o.id o.kind o.updatedAt o.deleted o.payload
  if maxBlobBytes < blob.len then .error (.transport .refused)
  else .ok ⟨o.id, target.vaultId, o.kind, o.updatedAt, item.2, o.deleted, blob, none⟩

/-! ## What a request holds -/

def Allowed (batch : List Waiting) : Prop :=
  batch.length ≤ maxBatch ∧
    (batch.length ≤ 1 ∨ (batch.map fun item => item.1.size).sum ≤ maxBatchBytes)

theorem allowed_singleton (item : Waiting) : Allowed [item] :=
  ⟨by simp [maxBatch], Or.inl (by simp)⟩

variable {out : List (List Waiting)} {bytes : ℕ} {waiting : List Waiting}

theorem fillBatches_allowed (ha : ∀ batch ∈ out, Allowed batch)
    (hb : ∀ batch, out.getLast? = some batch → (batch.map fun item => item.1.size).sum = bytes) : ∀ batch ∈
    fillBatches out bytes waiting, Allowed batch := by
  induction waiting generalizing out bytes with
  | nil => exact ha
  | cons item rest ih =>
    unfold fillBatches
    cases hs : startsBatch bytes item.1.size out.getLast? with
    | true =>
      rw [if_pos rfl]
      refine ih ?_ ?_
      · intro batch hm
        rcases List.mem_append.mp hm with hm | hm
        · exact ha batch hm
        · rw [List.mem_singleton.mp hm]
          exact allowed_singleton item
      · intro batch hl
        rw [List.getLast?_concat] at hl
        cases hl
        simp
    | false =>
      rw [if_neg Bool.false_ne_true]
      cases hlast : out.getLast? with
      | none => rw [hlast] at hs; cases hs
      | some last =>
        rw [hlast] at hs
        simp only [startsBatch, Bool.or_eq_false_iff, decide_eq_false_iff_not, Nat.not_le, Nat.not_lt] at hs
        have hsum : ((last ++ [item]).map fun item => item.1.size).sum = bytes + item.1.size := by
          simp [hb last hlast]
        rw [Option.getD_some]
        refine ih ?_ ?_
        · intro batch hm
          rcases List.mem_append.mp hm with hm | hm
          · exact ha batch ((List.dropLast_sublist out).subset hm)
          · rw [List.mem_singleton.mp hm]
            refine ⟨?_, .inr (hsum ▸ hs.2)⟩
            rw [List.length_append, List.length_singleton]
            exact hs.1
        · intro batch hl
          rw [List.getLast?_concat] at hl
          cases hl
          exact hsum

variable {batch : List Waiting} {target : UnlockedVault}

theorem batches_allowed (h : batch ∈ batches waiting) : Allowed batch :=
  fillBatches_allowed (fun _ hm => absurd hm List.not_mem_nil) (fun _ hl => by cases hl) batch h

theorem flatten_fillBatches : (fillBatches out bytes waiting).flatten = out.flatten ++ waiting := by
  induction waiting generalizing out bytes with
  | nil => exact (List.append_nil _).symm
  | cons item rest ih =>
    unfold fillBatches
    split
    · rw [ih, List.flatten_concat, List.append_assoc, List.singleton_append]
    · next hs =>
      cases hlast : out.getLast? with
      | none => exact absurd (by rw [hlast]; rfl) hs
      | some last =>
        obtain ⟨front, rfl⟩ := List.getLast?_eq_some_iff.mp hlast
        rw [ih, List.dropLast_concat, Option.getD_some, List.flatten_concat, List.flatten_concat]
        simp only [List.append_assoc, List.singleton_append]

theorem flatten_batches (waiting : List Waiting) : (batches waiting).flatten = waiting :=
  flatten_fillBatches

theorem fillBatches_ne_nil
    (ho : ∀ batch ∈ out, batch ≠ []) : ∀ batch ∈ fillBatches out bytes waiting, batch ≠ [] := by
  induction waiting generalizing out bytes with
  | nil => exact ho
  | cons item rest ih =>
    unfold fillBatches
    split
    · apply ih
      intro batch hm
      rcases List.mem_append.mp hm with hm | hm
      · exact ho batch hm
      · rw [List.mem_singleton.mp hm]
        exact List.cons_ne_nil item []
    · apply ih
      intro batch hm
      rcases List.mem_append.mp hm with hm | hm
      · exact ho batch ((List.dropLast_sublist out).subset hm)
      · rw [List.mem_singleton.mp hm]
        exact List.append_ne_nil_of_right_ne_nil _ (List.cons_ne_nil item [])

theorem batches_ne_nil (h : batch ∈ batches waiting) : batch ≠ [] :=
  fillBatches_ne_nil (fun _ hm => absurd hm List.not_mem_nil) batch h

theorem sealFor_ok {item : Waiting} {env : Envelope} (h : Opened.sealFor target item = .ok env) : env.vaultId =
    target.vaultId ∧ env.blob.len = item.1.size ∧ env.blob.len ≤ maxBlobBytes := by
  unfold Opened.sealFor at h
  simp only at h
  split at h
  · cases h
  · next hle =>
    cases h
    exact ⟨rfl, rfl, Nat.not_lt.mp hle⟩

theorem mapM_sealFor {items : List Waiting} {batch : List Envelope}
    (h : items.mapM (Opened.sealFor target) = .ok batch) : batch.length = items.length ∧
    (batch.map fun env => env.blob.len) = items.map (fun item => item.1.size) ∧ ∀ env ∈ batch, env.vaultId =
    target.vaultId ∧ env.blob.len ≤ maxBlobBytes := by
  induction items generalizing batch with
  | nil =>
    cases h
    exact ⟨rfl, rfl, fun env he => absurd he List.not_mem_nil⟩
  | cons item rest ih =>
    rw [List.mapM_cons] at h
    cases hseal : Opened.sealFor target item with
    | error e => rw [hseal] at h; cases h
    | ok env =>
      cases hrest : rest.mapM (Opened.sealFor target) with
      | error e => rw [hseal, hrest] at h; cases h
      | ok envs =>
        rw [hseal, hrest] at h
        cases h
        obtain ⟨hlen, hsizes, hall⟩ := ih hrest
        obtain ⟨hv, hsize, hle⟩ := sealFor_ok hseal
        refine ⟨by rw [List.length_cons, hlen, List.length_cons],
          by rw [List.map_cons, hsize, hsizes, List.map_cons], ?_⟩
        intro e he
        rcases List.mem_cons.mp he with rfl | he
        · exact ⟨hv, hle⟩
        · exact hall e he

end UwuRdp
