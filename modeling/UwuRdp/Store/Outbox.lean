import UwuRdp.Store.Apply

/-!
# What is in the outbox

An envelope in a request is a row that waits to be pushed, sealed as it is: `Outgoing` says which
row, with which header and which payload. Nothing else is ever pushed.
-/

namespace UwuRdp

open Lib

/-- An envelope made from a dirty row: its header is the row's, its payload the row's fields, and it
is sealed for this vault. -/
structure Outgoing (db : Db) (vault : UnlockedVault) (env : Envelope) (r : Row (Body env.kind)) :
    Prop where
  row : db.row env.kind env.id = some r
  dirty : r.dirty = true
  vaultId : env.vaultId = vault.vaultId
  updatedAt : env.updatedAt = r.hlc
  deleted : env.deleted = r.deleted
  baseSeq : env.baseSeq = r.serverSeq
  seq : env.seq = none
  payload : vault.openEnvelope env = rowPayload vault env.kind env.id r
  payload_isSome : (rowPayload vault env.kind env.id r).isSome

variable {db : Db} {vault : UnlockedVault} {env : Envelope} {k : EntityKind}

variable {id : Uuid} {r : Row (Body k)} {p : Pending} {rows : List Pending} {kinds : List EntityKind}

theorem mem_dirtyRows : (id, r) ∈ dirtyRows db k ↔ db.row k id = some r ∧ r.dirty = true := by
  rw [dirtyRows, List.mem_insertionSort, Table.mem_select, Db.row]

theorem outgoing_of_pendingOf
    (hr : db.row k id = some r) (hd : r.dirty = true) (hp : pendingOf vault k id r = some p) :
    (p.envelope vault).kind = k ∧ (p.envelope vault).id = id ∧
      ∃ r', Outgoing db vault (p.envelope vault) r' := by
  obtain ⟨payload, hpay, rfl⟩ := Option.map_eq_some_iff.mp hp
  refine ⟨rfl, rfl, r, hr, hd, rfl, rfl, rfl, rfl, rfl, ?_, ?_⟩
  · show vault.openSynced id k r.hlc r.deleted (vault.sealSynced id k r.hlc r.deleted payload) =
      rowPayload vault k id r
    rw [hpay]
    simp only [UnlockedVault.sealSynced, UnlockedVault.openSynced, and_self, if_true]
  · show (rowPayload vault k id r).isSome = true
    rw [hpay]
    rfl

variable {limit leftOut : ℕ} {b : Batch} {envs : List Envelope}

theorem outgoing_of_mem_pendingRows (h : p ∈ (pendingRows db vault k limit).1) : (p.envelope vault).kind = k ∧ ∃ r,
    Outgoing db vault (p.envelope vault) r := by
  obtain ⟨⟨id, r⟩, hm, hp⟩ := List.mem_filterMap.mp h
  obtain ⟨hr, hd⟩ := mem_dirtyRows.mp (List.mem_of_mem_take hm)
  obtain ⟨hk, -, ho⟩ := outgoing_of_pendingOf hr hd hp
  exact ⟨hk, ho⟩

theorem mem_addRows (h : env ∈ (b.addRows vault rows).1.envelopes) : env ∈ b.envelopes ∨ ∃ p ∈
    rows, env = p.envelope vault := by
  induction rows generalizing b with
  | nil => exact .inl h
  | cons p rest ih =>
    unfold Batch.addRows at h
    simp only at h
    split at h
    · rcases ih h with h | ⟨q, hq, he⟩
      · exact .inl h
      · exact .inr ⟨q, List.mem_cons_of_mem p hq, he⟩
    · split at h
      · exact .inl h
      · rcases ih h with h | ⟨q, hq, he⟩
        · rcases List.mem_append.mp h with h | h
          · exact .inl h
          · exact Or.inr ⟨p, List.mem_cons_self, List.mem_singleton.mp h⟩
        · exact .inr ⟨q, List.mem_cons_of_mem p hq, he⟩

theorem mem_addKinds (h : env ∈ (b.addKinds db vault limit kinds).envelopes) : env ∈ b.envelopes ∨ ∃ k ∈ kinds, ∃ x ∈
    (dirtyRows db k).take limit, ∃ p, pendingOf vault k x.1 x.2 = some p ∧ env = p.envelope vault := by
  induction kinds generalizing b with
  | nil => exact .inl h
  | cons k ks ih =>
    have step : ∀ {b' : Batch}, env ∈ (b'.addRows vault
          (pendingRows db vault k (limit - b.envelopes.length)).1).1.envelopes →
        b'.envelopes = b.envelopes →
        env ∈ b.envelopes ∨ ∃ k' ∈ k :: ks, ∃ x ∈ (dirtyRows db k').take limit, ∃ p,
          pendingOf vault k' x.1 x.2 = some p ∧ env = p.envelope vault := by
      intro b' hm hb
      rcases mem_addRows hm with hm | ⟨p, hp, rfl⟩
      · exact .inl (hb ▸ hm)
      · obtain ⟨x, hx, hpend⟩ := List.mem_filterMap.mp hp
        have hle : limit - b.envelopes.length ≤ limit := Nat.sub_le limit _
        exact .inr ⟨k, List.mem_cons_self, x, (List.take_subset_take_left _ hle) hx, p, hpend, rfl⟩
    unfold Batch.addKinds at h
    simp only at h
    split at h
    · exact .inl h
    · split at h
      · exact step h rfl
      · rcases ih h with h | ⟨k', hk, hx⟩
        · exact step h rfl
        · exact .inr ⟨k', List.mem_cons_of_mem k hk, hx⟩

theorem mem_pendingEnvelopes (h : pendingEnvelopes db (some vault) limit = .ok (envs, leftOut)) (he : env ∈ envs) : ∃
    k ∈ syncedKinds, ∃ x ∈ (dirtyRows db k).take limit, ∃ p, pendingOf vault k x.1 x.2 = some p ∧ env = p.envelope
    vault := by
  have hb : (Batch.addKinds db vault limit ⟨[], 0, 0⟩ syncedKinds).envelopes = envs :=
    congrArg Prod.fst (Except.ok.inj h)
  rw [← hb] at he
  exact (mem_addKinds he).resolve_left List.not_mem_nil

theorem outgoing_of_pendingEnvelopes (h : pendingEnvelopes db (some vault) limit = .ok (envs, leftOut))
    (he : env ∈ envs) : env.kind ∈ syncedKinds ∧ ∃ r, Outgoing db vault env r := by
  obtain ⟨k, hk, ⟨id, r⟩, hx, p, hp, rfl⟩ := mem_pendingEnvelopes h he
  obtain ⟨hr, hd⟩ := mem_dirtyRows.mp (List.mem_of_mem_take hx)
  obtain ⟨hkind, -, ho⟩ := outgoing_of_pendingOf hr hd hp
  exact ⟨hkind.symm ▸ hk, ho⟩

theorem outgoing_of_pendingManifest (h : pendingManifest db (some vault) = .ok (some env)) :
    env.kind = .manifest ∧ ∃ r, Outgoing db vault env r := by
  unfold pendingManifest at h
  simp only at h
  split at h
  · cases h
  · next p rest hp =>
    split at h
    · cases h
    · cases h
      exact outgoing_of_mem_pendingRows (by rw [hp]; exact List.mem_cons_self)

/-! ## What a request weighs -/

theorem pendingManifest_blob_le (h : pendingManifest db (some vault) = .ok (some env)) :
    env.blob.len ≤ maxBlobBytes := by
  unfold pendingManifest at h
  simp only at h
  split at h
  · cases h
  · split at h
    · cases h
    · next hle =>
      cases h
      exact Nat.not_lt.mp hle

/-- A request the protocol allows, with room for `limit` records. -/
structure Batch.Within (vault : UnlockedVault) (limit : ℕ) (b : Batch) : Prop where
  count : b.envelopes.length ≤ limit
  weighed : b.bytes = (b.envelopes.map fun env => env.blob.len).sum
  bytes : b.envelopes.length ≤ 1 ∨ b.bytes ≤ maxBatchBytes
  blob : ∀ env ∈ b.envelopes, env.blob.len ≤ maxBlobBytes
  vaultId : ∀ env ∈ b.envelopes, env.vaultId = vault.vaultId

theorem Batch.Within.leaveOut {n : ℕ} (h : b.Within vault limit) :
    { b with leftOut := n }.Within vault limit :=
  ⟨h.count, h.weighed, h.bytes, h.blob, h.vaultId⟩

theorem addRows_within (h : b.Within vault limit)
    (hn : b.envelopes.length + rows.length ≤ limit) : (b.addRows vault rows).1.Within vault limit := by
  induction rows generalizing b with
  | nil => exact h
  | cons row rest ih =>
    rw [List.length_cons] at hn
    unfold Batch.addRows
    simp only
    split
    · exact ih h.leaveOut (show b.envelopes.length + rest.length ≤ limit by omega)
    · next hblob =>
      split
      · exact h
      · next hroom =>
        have hlen : (b.envelopes ++ [row.envelope vault]).length = b.envelopes.length + 1 := by
          rw [List.length_append, List.length_singleton]
        refine ih ⟨?_, ?_, ?_, ?_, ?_⟩ ?_
        · rw [hlen]
          omega
        · simp [h.weighed]
        · show (b.envelopes ++ [row.envelope vault]).length ≤ 1 ∨ _
          rcases not_and_or.mp hroom with hnil | hle
          · rw [not_not] at hnil
            exact Or.inl (by simp [hnil])
          · exact Or.inr (Nat.not_lt.mp hle)
        · intro env hm
          rcases List.mem_append.mp hm with hm | hm
          · exact h.blob env hm
          · rw [List.mem_singleton.mp hm]
            exact Nat.not_lt.mp hblob
        · intro env hm
          rcases List.mem_append.mp hm with hm | hm
          · exact h.vaultId env hm
          · rw [List.mem_singleton.mp hm]
            rfl
        · show (b.envelopes ++ [row.envelope vault]).length + rest.length ≤ limit
          rw [hlen]
          omega

theorem length_pendingRows_le : (pendingRows db vault k limit).1.length ≤ limit :=
  (List.length_filterMap_le _ _).trans (List.length_take_le limit _)

theorem addKinds_within (h : b.Within vault limit) : (b.addKinds db vault limit kinds).Within vault limit := by
  induction kinds generalizing b with
  | nil => exact h
  | cons k ks ih =>
    unfold Batch.addKinds
    simp only
    split
    · exact h
    · next hroom =>
      have hle : (pendingRows db vault k (limit - b.envelopes.length)).1.length ≤
          limit - b.envelopes.length := length_pendingRows_le
      have hnext := addRows_within (h.leaveOut (n := b.leftOut + (pendingRows db vault k
        (limit - b.envelopes.length)).2)) (show b.envelopes.length + (pendingRows db vault k
        (limit - b.envelopes.length)).1.length ≤ limit by omega)
      split
      · exact hnext
      · exact ih hnext

theorem pendingEnvelopes_within (h : pendingEnvelopes db (some vault) limit = .ok (envs, leftOut)) : ∃ b : Batch,
    b.envelopes = envs ∧ b.Within vault limit := by
  refine ⟨Batch.addKinds db vault limit ⟨[], 0, 0⟩ syncedKinds,
    congrArg Prod.fst (Except.ok.inj h), addKinds_within ⟨Nat.zero_le limit, rfl, ?_, ?_, ?_⟩⟩
  · exact .inl (Nat.zero_le 1)
  · exact fun env hm => absurd hm List.not_mem_nil
  · exact fun env hm => absurd hm List.not_mem_nil

end UwuRdp
