import UwuRdp.Sync.Sizes

/-!
# What a push may weigh

The outbox and the move to UwULock each fill requests by a running total of their own, and a server
refuses a request with too many records, with too many bytes, or with a record that is too large.
Nothing sealed here is refused for any of the three (`pushes_fit`). What the move counts is not yet
sealed: a record larger than the protocol allows gets a request of its own, and sealing it fails
before anything is sent.
-/

namespace UwuRdp

open Lib

/-- A request within all three limits. -/
structure Fits (batch : List Envelope) : Prop where
  count : batch.length ≤ maxBatch
  bytes : (batch.map fun env => env.blob.len).sum ≤ maxBatchBytes
  blob : ∀ env ∈ batch, env.blob.len ≤ maxBlobBytes

/-- A push that is not refused, or only because the account holds another vault. -/
def PushTaken (m : MemoryServer) (vault : UnlockedVault) (batch : List Envelope) : Prop :=
  (∃ answer, (m.push batch).1 = .ok answer) ∨ ∃ v, m.vaultId = some v ∧ v ≠ vault.vaultId

variable {m : MemoryServer} {vault : UnlockedVault} {batch : List Envelope}

theorem bytes_le_of_single (hb : ∀ env ∈ batch, env.blob.len ≤ maxBlobBytes)
    (h : batch.length ≤ 1 ∨ (batch.map fun env => env.blob.len).sum ≤ maxBatchBytes) :
    (batch.map fun env => env.blob.len).sum ≤ maxBatchBytes := by
  rcases h with hone | hle
  · cases batch with
    | nil => exact Nat.zero_le _
    | cons env rest =>
      have hnil : rest = [] := List.eq_nil_of_length_eq_zero (Nat.le_zero.mp (Nat.le_of_succ_le_succ hone))
      have hcap : maxBlobBytes ≤ maxBatchBytes := by decide
      rw [hnil, List.map_singleton, List.sum_singleton]
      exact (hb env List.mem_cons_self).trans hcap
  · exact hle

theorem fits_of_admits (h : m.Admits vault.vaultId batch) : Fits batch :=
  ⟨h.count, bytes_le_of_single h.blob h.bytes, h.blob⟩

theorem fits_of_built (h : Built m vault batch) : Fits batch ∧ PushTaken m vault batch := by
  have hempty : Built MemoryServer.new vault batch := by
    cases h with
    | pending h => exact .pending h
    | manifest h => exact .manifest h
    | moving hm h => exact .moving hm h
  refine ⟨fits_of_admits (admits_of_built hempty (.inl rfl)), ?_⟩
  by_cases hv : m.vaultId = none ∨ m.vaultId = some vault.vaultId
  · obtain ⟨m', hpush⟩ := MemoryServer.push_eq (admits_of_built h hv)
    exact .inl ⟨_, congrArg Prod.fst hpush⟩
  · obtain ⟨hnone, hother⟩ := not_or.mp hv
    obtain ⟨v, hsome⟩ := Option.ne_none_iff_exists'.mp hnone
    refine .inr ⟨v, hsome, ?_⟩
    intro heq
    exact hother (heq ▸ hsome)

/-- **Nothing sealed for a push is too large.** A request of the outbox is within all three limits.
The requests of a move hold the waiting records in order, none of them empty; each has at most
`maxBatch` records, and at most `maxBatchBytes` unless it is a single record; once sealed it is
within all three limits too. So a server that holds no other vault takes each of them. -/
theorem pushes_fit (m : MemoryServer) (vault : UnlockedVault) :
    (∀ (db : Db) (envs : List Envelope) (leftOut : ℕ),
      pendingEnvelopes db (some vault) maxBatch = .ok (envs, leftOut) →
        Fits envs ∧ PushTaken m vault envs) ∧
    ∀ waiting : List Waiting, (batches waiting).flatten = waiting ∧
      ∀ items ∈ batches waiting, items ≠ [] ∧ items.length ≤ maxBatch ∧
        (items.length = 1 ∨ (items.map fun item => item.1.size).sum ≤ maxBatchBytes) ∧
        ∀ envs, items.mapM (Opened.sealFor vault) = .ok envs →
          envs.length = items.length ∧ Fits envs ∧ PushTaken m vault envs := by
  refine ⟨?_, ?_⟩
  · intro db envs leftOut h
    exact fits_of_built (.pending h)
  · intro waiting
    refine ⟨flatten_batches waiting, ?_⟩
    intro items hm
    have hne : items ≠ [] := batches_ne_nil hm
    obtain ⟨hcount, hbytes⟩ := batches_allowed hm
    refine ⟨hne, hcount, ?_, ?_⟩
    · rcases hbytes with hone | hle
      · exact Or.inl (Nat.le_antisymm hone (List.length_pos_iff.mpr hne))
      · exact .inr hle
    · intro envs hseal
      obtain ⟨hfits, htaken⟩ := fits_of_built (m := m) (.moving hm hseal)
      exact ⟨(mapM_sealFor hseal).1, hfits, htaken⟩

/-- The record a device forgot, on its way to a server nobody has written to. -/
theorem pushes_fit_forgotten : Fits [forgottenEnvelope] ∧ PushTaken MemoryServer.new ⟨1, 7⟩ [forgottenEnvelope] ∧
    (batches [(⟨5, .secret, ⟨900, 0, 1⟩, true, .bytes []⟩, 0)]).flatten.length = 1 := by
  have h := pushes_fit MemoryServer.new ⟨1, 7⟩
  have hout := h.1 forgotten [forgottenEnvelope] 0 pending_forgotten
  have hmove := (h.2 [(⟨5, .secret, ⟨900, 0, 1⟩, true, .bytes []⟩, 0)]).1
  exact ⟨hout.1, hout.2, congrArg List.length hmove⟩

/-- A secret of a given length, as it was read from a server that takes such records. -/
def secretOf (bytes : ℕ) : Opened :=
  ⟨7, .secret, ⟨1, 0, 1⟩, false, .bytes (List.replicate bytes 0)⟩

theorem size_secretOf (bytes : ℕ) : (secretOf bytes).size = bytes + tagBytes := by
  show (List.replicate bytes (0 : UInt8)).length + tagBytes = bytes + tagBytes
  rw [List.length_replicate]

theorem batches_singleton (item : Waiting) : batches [item] = [[item]] := by
  simp only [batches, fillBatches, startsBatch, List.getLast?_nil, if_true, List.nil_append]

/-- A record above the limit of one record waits in a request of its own. -/
theorem oversized_in_batch : ¬∀ waiting : List Waiting, ∀ items ∈ batches waiting, ∀ item ∈ items, item.1.size ≤
    maxBlobBytes := by
  intro hall
  have hle : (secretOf maxBlobBytes).size ≤ maxBlobBytes := by
    apply hall [(secretOf maxBlobBytes, 0)] [(secretOf maxBlobBytes, 0)] ?_ (secretOf maxBlobBytes, 0)
    · exact List.mem_cons_self
    · rw [batches_singleton]
      exact List.mem_cons_self
  rw [size_secretOf, tagBytes] at hle
  omega

end UwuRdp
