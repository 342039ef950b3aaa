import UwuRdp.Store.Outbox
import UwuRdp.Sync.Memory
import UwuRdp.Sync.Moving

/-!
# How long an answer may be

The client reads an answer up to a limit and takes a longer one for a refusal. A page of records is
held to a limit that every page of an honest server keeps (`pull_fits`). The answer to a push is
not: it repeats the records in conflict whole, as many as the batch has, and through a UwUSync
server it is read like "everything else", a few hundred bytes. `answersFit_iff` says exactly which
answers come through.
-/

namespace UwuRdp

open Lib

/-! ## The limits -/

def maxPageBytes : ℕ := maxBatchBytes * 2 + 2 ^ 20

def maxAnswerBytes : ℕ := 256 * 1024

/-- `read_limited`: the body, or a refusal when it is longer than the limit. -/
def readLimited (limit : ℕ) (body : Text) : Except TransportError Text :=
  if limit < body.utf8Len then .error .refused else .ok body

variable {limit bytes : ℕ} {record : Envelope → Text}

theorem readLimited_eq_ok {body : Text} : readLimited limit body = .ok body ↔ body.utf8Len ≤ limit := by
  unfold readLimited
  split
  · next h => exact iff_of_false (fun he => nomatch he) (Nat.not_le.mpr h)
  · next h => exact iff_of_true rfl (Nat.not_lt.mp h)

/-! ## What UwULock writes -/

def Hlc.toSuiteJson (t : Hlc) : Text :=
  Json.object (Json.field "wallMs" (Text.ofNat t.wallMs.toNat) ++
    Json.field "counter" (Text.ofNat t.counter.toNat) ++
    Json.field "device" (Text.ofNat t.device.toNat))

theorem Hlc.utf8Len_toSuiteJson (t : Hlc) : t.toSuiteJson.utf8Len = t.digits + 32 := by
  unfold toSuiteJson digits Json.field
  rw [Json.utf8Len_object]
  simp only [List.cons_append, List.nil_append, List.map_cons, List.map_nil, List.sum_cons,
    List.sum_nil, utf8Len_ofNat]
  rw [show (Json.string "wallMs".toList).utf8Len = 8 from rfl,
    show (Json.string "counter".toList).utf8Len = 9 from rfl,
    show (Json.string "device".toList).utf8Len = 8 from rfl]
  omega

/-- A `WireRecord`, serialised: no vault id, and no number for a record that has none. -/
def Envelope.toSuiteJson (c : Cipher) (e : Envelope) : Text :=
  Json.object (Json.field "id" (Json.uuid e.id) ++
    Json.field "kind" (Json.string (kindName e.kind)) ++
    Json.field "updatedAt" e.updatedAt.toSuiteJson ++
    Json.field "baseSeq" (Text.ofNat e.baseSeq) ++ Json.field "deleted" (Json.bool e.deleted) ++
    Json.field "nonce" (Json.string (Base64.encode (c.nonce e.blob))) ++
    Json.field "blob" (Json.string (Base64.encode (c.bytes e.blob))) ++
    Json.fieldIf e.seq.isSome "seq" (Json.option Text.ofNat e.seq))

variable {e : Envelope} {since k : ℕ} {batch : List Envelope}

theorem Envelope.utf8Len_toSuiteJson {c : Cipher} (h : e.InRange)
    (hs : e.seq.isSome) : (e.toSuiteJson c).utf8Len = e.weight + 182 := by
  unfold toSuiteJson weight Json.fieldIf Json.field
  rw [hs, if_pos rfl, Json.utf8Len_object]
  simp only [List.cons_append, List.nil_append, List.map_cons, List.map_nil, List.sum_cons,
    List.sum_nil, utf8Len_ofNat, Json.utf8Len_uuid h.id, utf8Len_string_kindName,
    Hlc.utf8Len_toSuiteJson, Json.utf8Len_bool, Base64.utf8Len_string_encode, c.nonce_length,
    c.bytes_length, utf8Len_option_ofNat, utf8Len_names]
  rw [show (Json.string "updatedAt".toList).utf8Len = 11 from rfl,
    show (Json.string "baseSeq".toList).utf8Len = 9 from rfl]
  omega

/-- A `SuitePull` that does not start over. -/
def PullResponse.toSuiteJson (c : Cipher) (r : PullResponse) : Text :=
  Json.object (Json.field "reset" (Json.bool false) ++
    Json.field "records" (Json.array (r.envelopes.map (Envelope.toSuiteJson c))) ++
    Json.field "cursor" (Text.ofNat r.cursor) ++ Json.field "hasMore" (Json.bool r.hasMore))

/-! ## Pages -/

/-- A record as a server holds it. -/
structure Stored (e : Envelope) : Prop where
  range : e.InRange
  numbered : e.seq.isSome
  blob : e.blob.len ≤ maxBlobBytes

/-- A server holds records the protocol allows, in every version it hands out. -/
structure MemoryServer.Sound (m : MemoryServer) : Prop where
  records : ∀ id e, m.records.get? id = some e → Stored e
  stale : ∀ id e, m.stale.get? id = some e → Stored e

variable {m : MemoryServer} {c : Cipher}

theorem stored_handedOut (hm : m.Sound) (he : Stored e) : Stored (m.handedOut e) := by
  unfold MemoryServer.handedOut
  split
  · next old hold =>
    have ho := hm.stale e.id old hold
    exact ⟨⟨ho.range.id, ho.range.vaultId, ho.range.baseSeq, he.range.seq⟩, he.numbered, ho.blob⟩
  · exact he

theorem stored_of_mem_waiting (hm : m.Sound) (h : e ∈ m.waiting since) : Stored e := by
  unfold MemoryServer.waiting at h
  rw [List.mem_insertionSort] at h
  obtain ⟨e', he', rfl⟩ := List.mem_map.mp h
  have hv : e' ∈ m.values := List.mem_of_mem_filter (List.mem_of_mem_filter he')
  obtain ⟨⟨id, e''⟩, hp, rfl⟩ := List.mem_map.mp hv
  rw [List.mem_insertionSort, Table.mem_entries] at hp
  exact stored_handedOut hm (hm.records id e'' hp)

theorem fitting_le_length (bytes : ℕ) (l : List Envelope) : MemoryServer.fitting bytes l ≤ l.length := by
  induction l generalizing bytes with
  | nil => exact Nat.le_refl 0
  | cons e l ih =>
    unfold MemoryServer.fitting
    split
    · exact Nat.succ_le_succ (ih _)
    · exact Nat.zero_le _

theorem sum_take_fitting (h : bytes ≤ maxBatchBytes) (l : List Envelope) : bytes +
    ((l.take (MemoryServer.fitting bytes l)).map fun e => e.blob.len).sum ≤ maxBatchBytes := by
  induction l generalizing bytes with
  | nil => exact h
  | cons e l ih =>
    unfold MemoryServer.fitting
    split
    · next hle =>
      rw [List.take_succ_cons, List.map_cons, List.sum_cons, ← Nat.add_assoc]
      exact ih hle
    · exact h

theorem pull_within (hm : m.Sound) (since limit : ℕ) : (m.pull since limit).envelopes.length ≤ maxBatch ∧
    ((m.pull since limit).envelopes.map fun e => e.blob.len).sum ≤ maxBatchBytes ∧ ∀ e ∈
    (m.pull since limit).envelopes, Stored e := by
  set l := m.waiting since with hl
  set k := MemoryServer.fitting 0 (l.take (min limit maxBatch)) with hk
  have hpage : (m.pull since limit).envelopes = l.take (min (max k 1) l.length) := rfl
  have hklen : k ≤ min limit maxBatch := (fitting_le_length 0 _).trans (List.length_take_le _ _)
  have hstored : ∀ e ∈ l.take (min (max k 1) l.length), Stored e :=
    fun e he => stored_of_mem_waiting hm (List.mem_of_mem_take he)
  rw [hpage]
  refine ⟨?_, ?_, hstored⟩
  · have hone : 1 ≤ maxBatch := by decide
    have := List.length_take_le (min (max k 1) l.length) l
    omega
  · by_cases hzero : k = 0
    · -- One record, whatever its size.
      rw [hzero] at hstored ⊢
      cases hcase : l with
      | nil => exact Nat.zero_le _
      | cons e rest =>
        rw [hcase] at hstored
        have htake : (e :: rest).take (min (max 0 1) (e :: rest).length) = [e] := by simp
        rw [htake] at hstored ⊢
        have hblob := (hstored e List.mem_cons_self).blob
        have hle : maxBlobBytes ≤ maxBatchBytes := by decide
        simpa using hblob.trans hle
    · have hbudget := sum_take_fitting (Nat.zero_le maxBatchBytes) (l.take (min limit maxBatch))
      rw [← hk, Nat.zero_add, List.take_take, Nat.min_eq_left hklen] at hbudget
      have htake : l.take (min (max k 1) l.length) = l.take k := by
        rw [Nat.max_eq_left (by omega), ← List.take_take, List.take_length]
      rw [htake]
      exact hbudget

theorem sum_records_le (record : Envelope → Text) {l : List Envelope}
    (hr : ∀ e ∈ l, (record e).utf8Len = e.weight + k) (hs : ∀ e ∈ l, Stored e) :
    3 * ((l.map record).map fun t => t.utf8Len + 1).sum ≤
      4 * (l.map fun e => e.blob.len).sum + (3 * k + 314) * l.length := by
  induction l with
  | nil => exact Nat.le_refl 0
  | cons e l ih =>
    have hw := Envelope.weight_le (hs e List.mem_cons_self).range
    have hsize := Base64.size_le e.blob.len
    have hrest := ih (fun e' he => hr e' (List.mem_cons_of_mem e he)) (fun e' he => hs e' (List.mem_cons_of_mem e he))
    simp only [List.map_cons, List.sum_cons, List.length_cons, hr e List.mem_cons_self, Nat.mul_add, Nat.mul_one]
    omega

theorem pull_cursor_lt (hm : m.Sound) (limit : ℕ) (h : since < 2 ^ 64) : (m.pull since limit).cursor < 2 ^ 64 := by
  have hcur : (m.pull since limit).cursor =
      ((m.pull since limit).envelopes.getLast?.bind Envelope.seq).getD since := rfl
  rw [hcur]
  cases hlast : (m.pull since limit).envelopes.getLast? with
  | none => exact h
  | some e =>
    have hst := (pull_within hm since limit).2.2 e (List.mem_of_getLast? hlast)
    cases hseq : e.seq with
    | none => rw [Option.bind_some, hseq]; exact h
    | some n =>
      rw [Option.bind_some, hseq]
      exact hst.range.seq n hseq

theorem pull_fits (hm : m.Sound) (limit : ℕ) (h : since < 2 ^ 64) :
    ((m.pull since limit).toJson c).utf8Len ≤ maxPageBytes := by
  obtain ⟨hcount, hbytes, hstored⟩ := pull_within hm since limit
  have hrec := sum_records_le (Envelope.toJson c) (fun e he => Envelope.utf8Len_toJson (hstored e he).range) hstored
  have hcur := decimals_le (pull_cursor_lt hm limit h)
  have hmore : (if (m.pull since limit).hasMore then 4 else 5) ≤ 5 := by split <;> decide
  unfold PullResponse.toJson Json.field
  rw [Json.utf8Len_object]
  simp only [List.cons_append, List.nil_append, List.map_cons, List.map_nil, List.sum_cons,
    List.sum_nil, utf8Len_ofNat, Json.utf8Len_array, Json.utf8Len_bool]
  rw [show (Json.string "envelopes".toList).utf8Len = 11 from rfl,
    show (Json.string "cursor".toList).utf8Len = 8 from rfl,
    show (Json.string "has_more".toList).utf8Len = 10 from rfl]
  unfold maxPageBytes maxBatchBytes at *
  unfold maxBatch at hcount
  omega

theorem pull_fits_suite (hm : m.Sound) (limit : ℕ) (h : since < 2 ^ 64) :
    ((m.pull since limit).toSuiteJson c).utf8Len ≤ maxPageBytes := by
  obtain ⟨hcount, hbytes, hstored⟩ := pull_within hm since limit
  have hrec := sum_records_le (Envelope.toSuiteJson c)
    (fun e he => Envelope.utf8Len_toSuiteJson (hstored e he).range (hstored e he).numbered) hstored
  have hcur := decimals_le (pull_cursor_lt hm limit h)
  have hmore : (if (m.pull since limit).hasMore then 4 else 5) ≤ 5 := by split <;> decide
  unfold PullResponse.toSuiteJson Json.field
  rw [Json.utf8Len_object]
  simp only [List.cons_append, List.nil_append, List.map_cons, List.map_nil, List.sum_cons,
    List.sum_nil, utf8Len_ofNat, Json.utf8Len_array, Json.utf8Len_bool]
  rw [show (Json.string "reset".toList).utf8Len = 7 from rfl,
    show (Json.string "records".toList).utf8Len = 9 from rfl,
    show (Json.string "cursor".toList).utf8Len = 8 from rfl,
    show (Json.string "hasMore".toList).utf8Len = 9 from rfl]
  unfold maxPageBytes maxBatchBytes at *
  unfold maxBatch at hcount
  simp only [Bool.false_eq_true, if_false]
  omega

/-! ## Answers to a push -/

/-- A batch this device builds for the account's server: what waits, its manifest, or a part of what
moves to UwULock. -/
inductive Built (m : MemoryServer) (vault : UnlockedVault) : List Envelope → Prop
  | pending {db : Db} {envs : List Envelope} {leftOut : ℕ}
      (h : pendingEnvelopes db (some vault) maxBatch = .ok (envs, leftOut)) : Built m vault envs
  | manifest {db : Db} {env : Envelope} (h : pendingManifest db (some vault) = .ok (some env)) :
      Built m vault [env]
  | moving {waiting items : List Waiting} {envs : List Envelope} (hm : items ∈ batches waiting)
      (h : items.mapM (Opened.sealFor vault) = .ok envs) : Built m vault envs

theorem admits_of_built {vault : UnlockedVault} (h : Built m vault batch)
    (ha : m.vaultId = none ∨ m.vaultId = some vault.vaultId) : m.Admits vault.vaultId batch := by
  cases h with
  | pending h =>
    obtain ⟨b, rfl, hb⟩ := pendingEnvelopes_within h
    exact ⟨hb.count, hb.weighed ▸ hb.bytes, hb.blob, hb.vaultId, ha⟩
  | @manifest db env h =>
    obtain ⟨-, r, hr⟩ := outgoing_of_pendingManifest h
    refine ⟨by simp [maxBatch], Or.inl (by simp), ?_, ?_, ha⟩
    · intro e he
      rw [List.mem_singleton.mp he]
      exact pendingManifest_blob_le h
    · intro e he
      rw [List.mem_singleton.mp he]
      exact hr.vaultId
  | moving hm h =>
    obtain ⟨hcount, hbytes⟩ := batches_allowed hm
    obtain ⟨hlen, hsizes, hall⟩ := mapM_sealFor h
    exact ⟨hlen ▸ hcount, by rw [hlen, hsizes]; exact hbytes, fun e he => (hall e he).2,
      fun e he => (hall e he).1, ha⟩

/-- What an answer to a push weighs when a record in conflict takes `record` characters and a comma
beside what it weighs itself: the acceptances, the versions that stand against the batch, the
cursor, and the names of the fields. -/
def pushLoad (record : ℕ) (m : MemoryServer) (batch : List Envelope) : ℕ :=
  (((m.taken batch).map fun a => decimals a.seq + 53).sum - 1) +
    (((m.against batch).map fun e => e.weight + record + 1).sum - 1) +
    decimals (m.seq + (m.taken batch).length) + 40

theorem stored_accept (hm : m.Sound) (he : e.InRange)
    (hb : e.blob.len ≤ maxBlobBytes) (hseq : m.seq + 1 < 2 ^ 64) : (m.accept e).Sound := by
  refine ⟨?_, hm.stale⟩
  intro id e' h
  unfold MemoryServer.accept at h
  simp only [Table.get?_set] at h
  split at h
  · cases h
    refine ⟨⟨he.id, he.vaultId, he.baseSeq, ?_⟩, rfl, hb⟩
    intro n hn
    cases hn
    exact hseq
  · exact hm.records id e' h

theorem stored_of_mem_against (hm : m.Sound)
    (hr : ∀ e ∈ batch, e.InRange) (hb : ∀ e ∈ batch, e.blob.len ≤ maxBlobBytes)
    (hseq : m.seq + batch.length < 2 ^ 64) : ∀ e ∈ m.against batch, Stored e := by
  induction batch generalizing m with
  | nil => exact fun e he => absurd he List.not_mem_nil
  | cons env rest ih =>
    rw [List.length_cons] at hseq
    have hr' : ∀ e ∈ rest, e.InRange := fun e he => hr e (List.mem_cons_of_mem env he)
    have hb' : ∀ e ∈ rest, e.blob.len ≤ maxBlobBytes := fun e he => hb e (List.mem_cons_of_mem env he)
    intro e he
    unfold MemoryServer.against at he
    cases hst : m.standing env with
    | some current =>
      rw [hst] at he
      rcases List.mem_cons.mp he with rfl | he
      · have hget := (Option.filter_eq_some_iff.mp hst).1
        exact hm.records env.id _ hget
      · exact ih hm hr' hb' (by omega) e he
    | none =>
      rw [hst] at he
      refine ih (stored_accept hm (hr env List.mem_cons_self) (hb env List.mem_cons_self) (by omega)) hr' hb' ?_ e he
      show m.seq + 1 + rest.length < 2 ^ 64
      omega

theorem id_lt_of_mem_taken (hr : ∀ e ∈ batch, e.InRange) : ∀ a ∈ m.taken batch, a.id < 2 ^ 128 := by
  induction batch generalizing m with
  | nil => exact fun a ha => absurd ha List.not_mem_nil
  | cons env rest ih =>
    have hr' : ∀ e ∈ rest, e.InRange := fun e he => hr e (List.mem_cons_of_mem env he)
    intro a ha
    unfold MemoryServer.taken at ha
    cases hst : m.standing env with
    | some current =>
      rw [hst] at ha
      exact ih hr' a ha
    | none =>
      rw [hst] at ha
      rcases List.mem_cons.mp ha with rfl | ha
      · exact (hr env List.mem_cons_self).id
      · exact ih hr' a ha

theorem utf8Len_pushAnswer {cursor : ℕ}
    (hr : ∀ e ∈ batch, e.InRange)
    (hrec : ∀ e ∈ m.against batch, (record e).utf8Len = e.weight + k)
    (hcur : cursor = m.seq + (m.taken batch).length) :
    (PushAnswer.toJson record ⟨⟨m.taken batch, m.against batch⟩, cursor⟩).utf8Len =
      pushLoad k m batch := by
  have hacc : ((m.taken batch).map Accepted.toJson).map (fun t => t.utf8Len + 1) =
      (m.taken batch).map fun a => decimals a.seq + 53 := by
    rw [List.map_map]
    refine List.map_congr_left fun a ha => ?_
    show a.toJson.utf8Len + 1 = decimals a.seq + 53
    rw [Accepted.utf8Len_toJson (id_lt_of_mem_taken hr a ha)]
  have hcon : ((m.against batch).map record).map (fun t => t.utf8Len + 1) =
      (m.against batch).map fun e => e.weight + k + 1 := by
    rw [List.map_map]
    refine List.map_congr_left fun e he => ?_
    show (record e).utf8Len + 1 = e.weight + k + 1
    rw [hrec e he]
  unfold PushAnswer.toJson pushLoad Json.field
  rw [Json.utf8Len_object]
  simp only [List.cons_append, List.nil_append, List.map_cons, List.map_nil, List.sum_cons,
    List.sum_nil, utf8Len_ofNat, Json.utf8Len_array]
  rw [hacc, hcon, hcur, show (Json.string "accepted".toList).utf8Len = 10 from rfl,
    show (Json.string "conflicts".toList).utf8Len = 11 from rfl,
    show (Json.string "cursor".toList).utf8Len = 8 from rfl]
  omega

/-! ## What comes through -/

/-- Every page, and every answer to a push of the batch, can be read, as a server writes pages and
records and as the client limits the answer to a push. -/
structure AnswersFit (page : PullResponse → Text) (record : Envelope → Text) (limit : ℕ)
    (m : MemoryServer) (batch : List Envelope) : Prop where
  pull : ∀ since count, since < 2 ^ 64 →
    readLimited maxPageBytes (page (m.pull since count)) = .ok (page (m.pull since count))
  push : ∀ answer m', m.push batch = (.ok answer, m') →
    readLimited limit (answer.toJson record) = .ok (answer.toJson record)

/-- A UwUSync server, read by `Server`. -/
def ServerFits (c : Cipher) : MemoryServer → List Envelope → Prop :=
  AnswersFit (PullResponse.toJson c) (Envelope.toJson c) maxAnswerBytes

/-- A UwULock Server, read by `Lock`. -/
def LockFits (c : Cipher) : MemoryServer → List Envelope → Prop :=
  AnswersFit (PullResponse.toSuiteJson c) (Envelope.toSuiteJson c) maxPageBytes

theorem answersFit_of_load {page : PullResponse → Text} {vault : Uuid}
    (ha : m.Admits vault batch) (hr : ∀ e ∈ batch, e.InRange)
    (hpage : ∀ since count, since < 2 ^ 64 → (page (m.pull since count)).utf8Len ≤ maxPageBytes)
    (hrec : ∀ e ∈ m.against batch, (record e).utf8Len = e.weight + k) : AnswersFit page record limit m batch ↔
    pushLoad k m batch ≤ limit := by
  obtain ⟨m', hm'⟩ := MemoryServer.push_eq ha
  have hlen := utf8Len_pushAnswer hr hrec rfl
  constructor
  · intro hfit
    have hread := hfit.push _ m' hm'
    rw [readLimited_eq_ok, hlen] at hread
    exact hread
  · intro hload
    refine ⟨fun since count hs => readLimited_eq_ok.mpr (hpage since count hs), ?_⟩
    intro answer m'' hpush
    rw [hm'] at hpush
    cases hpush
    rw [readLimited_eq_ok, hlen]
    exact hload

/-- **Which answers come through.** Every page of an honest server can be read. The answer to a push
of a batch built here can be read exactly when its acceptances and the versions that stand against
the batch, in base64 and with their headers, come to no more than the limit. -/
theorem answersFit_iff {vault : UnlockedVault} {batch : List Envelope} (hm : m.Sound) (hb : Built m vault batch)
    (ha : m.vaultId = none ∨ m.vaultId = some vault.vaultId) (hr : ∀ e ∈ batch, e.InRange)
    (hseq : m.seq + batch.length < 2 ^ 64) : (ServerFits c m batch ↔ pushLoad 235 m batch ≤ maxAnswerBytes) ∧
    (LockFits c m batch ↔ pushLoad 182 m batch ≤ maxPageBytes) := by
  have had := admits_of_built hb ha
  have hst := stored_of_mem_against hm hr had.blob hseq
  constructor
  · exact answersFit_of_load had hr (fun since count hs => pull_fits hm count hs)
      fun e he => Envelope.utf8Len_toJson (hst e he).range
  · exact answersFit_of_load had hr (fun since count hs => pull_fits_suite hm count hs)
      fun e he => Envelope.utf8Len_toSuiteJson (hst e he).range (hst e he).numbered

/-! ## One large record in conflict -/

def zeroCipher : Cipher where
  nonce _ := List.replicate 24 0
  bytes s := List.replicate s.len 0
  nonce_length _ := List.length_replicate
  bytes_length _ := List.length_replicate

/-- A device that waits to push one password it forgot. -/
def forgotten : Db :=
  (Db.fresh 1).setRow .secret 5 ⟨⟨900, 0, 1⟩, true, true, 0, .empty⟩

def forgottenEnvelope : Envelope :=
  ⟨5, 1, .secret, ⟨900, 0, 1⟩, 0, true,
    (⟨1, 7⟩ : UnlockedVault).sealSynced 5 .secret ⟨900, 0, 1⟩ true (.bytes []), none⟩

/-- A record of a given size that another device wrote. -/
def largeRecord (bytes : ℕ) : Envelope :=
  ⟨5, 1, .secret, ⟨950, 0, 2⟩, 0, false, .other bytes, some 3⟩

def holding (e : Envelope) : MemoryServer :=
  { MemoryServer.new with seq := 3, vaultId := some 1, records := Table.empty.set e.id e }

theorem pending_forgotten : pendingEnvelopes forgotten (some ⟨1, 7⟩) maxBatch =
    .ok ([forgottenEnvelope], 0) := by decide +kernel

theorem sound_holding (h : bytes ≤ maxBlobBytes) : (holding (largeRecord bytes)).Sound := by
  refine ⟨?_, fun id e he => nomatch he⟩
  intro id e he
  unfold holding at he
  simp only [Table.get?_set, Table.get?_empty] at he
  split at he
  · cases he
    refine ⟨⟨?_, ?_, ?_, ?_⟩, rfl, h⟩
    · show (5 : ℕ) < 2 ^ 128
      decide
    · show (1 : ℕ) < 2 ^ 128
      decide
    · show (0 : ℕ) < 2 ^ 64
      decide
    · intro n hn
      cases hn
      decide
  · cases he

theorem inRange_forgotten : ∀ e ∈ [forgottenEnvelope], e.InRange := by
  intro e he
  rw [List.mem_singleton.mp he]
  exact ⟨by decide, by decide, by decide, fun n hn => nomatch hn⟩

/-- A small record in conflict comes through either way. -/
theorem answersFit_small : ServerFits zeroCipher (holding (largeRecord 100)) [forgottenEnvelope] ∧ LockFits zeroCipher
    (holding (largeRecord 100)) [forgottenEnvelope] := by
  have hsound : (holding (largeRecord 100)).Sound := sound_holding (by decide)
  have h := answersFit_iff (c := zeroCipher) hsound (Built.pending pending_forgotten)
    (.inr rfl) inRange_forgotten (by decide)
  exact ⟨h.1.mpr (by decide +kernel), h.2.mpr (by decide +kernel)⟩

/-- One of the largest records the protocol carries does not come through `Server`. -/
theorem large_conflict_unread : ¬∀ (c : Cipher) (m : MemoryServer) (vault : UnlockedVault) (batch : List Envelope),
    m.Sound → Built m vault batch → (m.vaultId = none ∨ m.vaultId = some vault.vaultId) → (∀ e ∈ batch, e.InRange) →
    m.seq + batch.length < 2 ^ 64 → ServerFits c m batch ∧ LockFits c m batch := by
  intro hall
  have hsound : (holding (largeRecord maxBlobBytes)).Sound := sound_holding (Nat.le_refl _)
  have hfit := (hall zeroCipher (holding (largeRecord maxBlobBytes)) ⟨1, 7⟩ [forgottenEnvelope]
    hsound (.pending pending_forgotten) (.inr rfl) inRange_forgotten (by decide)).1
  have hrec : ∀ e ∈ (holding (largeRecord maxBlobBytes)).against [forgottenEnvelope],
      (e.toJson zeroCipher).utf8Len = e.weight + 235 := fun e he => Envelope.utf8Len_toJson
    (stored_of_mem_against hsound inRange_forgotten (by decide +kernel) (by decide) e he).range
  have hadm := admits_of_built (m := holding (largeRecord maxBlobBytes)) (.pending pending_forgotten) (.inr rfl)
  have hload := (answersFit_of_load hadm inRange_forgotten
    (fun since count hs => pull_fits hsound count hs) hrec).mp hfit
  exact absurd hload (by decide +kernel)

end UwuRdp
