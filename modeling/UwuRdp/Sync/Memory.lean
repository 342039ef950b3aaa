import UwuRdp.Proto.Wire
import UwuRdp.Sync.Engine

/-!
# A server in memory

The whole server, minus the network, the accounts and the disk: it hands out sequence numbers, keeps
the newest version of each record, pages through them from a cursor, and refuses a write whose
`base_seq` is not the version it holds. These are the rules a real server follows. `standing` is its
whole conflict detection; `taken` and `against` say how a batch comes out, record by record.
-/

namespace UwuRdp

open Lib

structure MemoryServer where
  /-- The last sequence number handed out. -/
  seq : ℕ
  /-- The newest version of every record. -/
  records : Table Uuid Envelope
  /-- The vault this account holds, set by the first record that arrives. -/
  vaultId : Option Uuid
  /-- Records the server pretends not to have when asked for them. -/
  withheld : List Uuid
  /-- Older versions handed out in place of the newest one it holds. -/
  stale : Table Uuid Envelope

namespace MemoryServer

def new : MemoryServer := ⟨0, Table.empty, none, [], Table.empty⟩

/-! ## Pulling -/

def values (m : MemoryServer) : List Envelope :=
  (m.records.entries.insertionSort fun a b => a.1 ≤ b.1).map Prod.snd

/-- A record as it is handed out: an older version at the newest one's place in the order, if the
server rolls it back. -/
def handedOut (m : MemoryServer) (env : Envelope) : Envelope :=
  match m.stale.get? env.id with
  | some old => { old with seq := env.seq }
  | none => env

/-- How many records the byte budget takes, `bytes` of it spent. -/
def fitting (bytes : ℕ) : List Envelope → ℕ
  | [] => 0
  | env :: rest =>
    if bytes + env.blob.len ≤ maxBatchBytes then fitting (bytes + env.blob.len) rest + 1 else 0

def waiting (m : MemoryServer) (since : ℕ) : List Envelope :=
  (((m.values.filter fun env => since < env.seq.getD 0).filter fun env =>
    env.id ∉ m.withheld).map m.handedOut).insertionSort fun a b => a.seq.getD 0 ≤ b.seq.getD 0

/-- A page ends at the count or at the byte budget, and holds one record whatever its size. -/
def pull (m : MemoryServer) (since limit : ℕ) : PullResponse :=
  let envelopes := m.waiting since
  let fits := min (max (fitting 0 (envelopes.take (min limit maxBatch))) 1) envelopes.length
  let page := envelopes.take fits
  { envelopes := page
    cursor := (page.getLast?.bind Envelope.seq).getD since
    hasMore := fits < envelopes.length }

/-! ## Pushing -/

/-- The version a write is refused for: the one held, if it is not the one the write is based on. -/
def standing (m : MemoryServer) (env : Envelope) : Option Envelope :=
  (m.records.get? env.id).filter fun current => current.seq.getD 0 ≠ env.baseSeq

def claim (m : MemoryServer) (vault : Uuid) : MemoryServer := { m with vaultId := some vault }

def accept (m : MemoryServer) (env : Envelope) : MemoryServer :=
  { m with
    seq := m.seq + 1
    records := m.records.set env.id { env with seq := some (m.seq + 1) } }

/-- The records of a push, one after the other. What was taken before a refusal stays. A nonce is
always 24 bytes here. -/
def pushEach (response : PushAnswer) : List Envelope → MemoryServer →
    Except TransportError PushAnswer × MemoryServer
  | [], m => (.ok { response with cursor := m.seq }, m)
  | env :: rest, m =>
    if maxBlobBytes < env.blob.len then (.error .refused, m)
    else if m.vaultId.any fun vault => vault ≠ env.vaultId then (.error .refused, m)
    else
      let m := m.claim env.vaultId
      match m.standing env with
      | some current =>
        pushEach { response with conflicts := response.conflicts ++ [current] } rest m
      | none =>
        pushEach { response with accepted := response.accepted ++ [⟨env.id, m.seq + 1⟩] } rest
          (m.accept env)

def push (envelopes : List Envelope) (m : MemoryServer) :
    Except TransportError PushAnswer × MemoryServer :=
  if maxBatch < envelopes.length then (.error .refused, m)
  else if 1 < envelopes.length ∧ maxBatchBytes < (envelopes.map fun env => env.blob.len).sum then
    (.error .refused, m)
  else pushEach ⟨⟨[], []⟩, 0⟩ envelopes m

/-- The server, as a device without a network talks to it. -/
def transport : Transport MemoryServer where
  pull since limit m := (.ok (m.pull since limit), m)
  push envelopes m :=
    match m.push envelopes with
    | (.ok answer, m) => (.ok answer.toPushResponse, m)
    | (.error e, m) => (.error e, m)
  takeReset m := (false, m)

/-! ## How a batch comes out -/

/-- The versions that stand against a batch, each at its turn. -/
def against (m : MemoryServer) : List Envelope → List Envelope
  | [] => []
  | env :: rest =>
    match m.standing env with
    | some current => current :: m.against rest
    | none => (m.accept env).against rest

/-- The records of a batch that are taken, each at its turn. -/
def taken (m : MemoryServer) : List Envelope → List Accepted
  | [] => []
  | env :: rest =>
    match m.standing env with
    | some _ => m.taken rest
    | none => ⟨env.id, m.seq + 1⟩ :: (m.accept env).taken rest

/-- A batch the protocol allows, for the vault of this account. -/
structure Admits (m : MemoryServer) (vault : Uuid) (batch : List Envelope) : Prop where
  count : batch.length ≤ maxBatch
  bytes : batch.length ≤ 1 ∨ (batch.map fun env => env.blob.len).sum ≤ maxBatchBytes
  blob : ∀ env ∈ batch, env.blob.len ≤ maxBlobBytes
  vaultId : ∀ env ∈ batch, env.vaultId = vault
  account : m.vaultId = none ∨ m.vaultId = some vault

variable {m : MemoryServer} {vault : Uuid} {batch : List Envelope}

theorem against_claim : (m.claim vault).against batch = m.against batch := by
  induction batch generalizing m with
  | nil => rfl
  | cons env rest ih =>
    have hs : (m.claim vault).standing env = m.standing env := rfl
    unfold against
    rw [hs]
    cases m.standing env with
    | some current => exact congrArg (current :: ·) ih
    | none => exact ih (m := m.accept env)

theorem taken_claim : (m.claim vault).taken batch = m.taken batch := by
  induction batch generalizing m with
  | nil => rfl
  | cons env rest ih =>
    have hs : (m.claim vault).standing env = m.standing env := rfl
    unfold taken
    rw [hs]
    cases m.standing env with
    | some current => exact ih
    | none => exact congrArg (_ :: ·) (ih (m := m.accept env))

theorem pushEach_eq {response : PushAnswer} (hb : ∀ env ∈ batch, env.blob.len ≤ maxBlobBytes)
    (hv : ∀ env ∈ batch, env.vaultId = vault) (ha : m.vaultId = none ∨ m.vaultId = some vault) :
    ∃ m', pushEach response batch m = (.ok ⟨⟨response.accepted ++ m.taken batch,
      response.conflicts ++ m.against batch⟩, m.seq + (m.taken batch).length⟩, m') := by
  induction batch generalizing m response with
  | nil => exact ⟨m, by simp [pushEach, taken, against]⟩
  | cons env rest ih =>
    have hblob : ¬ maxBlobBytes < env.blob.len := Nat.not_lt.mpr (hb env List.mem_cons_self)
    have hvault : env.vaultId = vault := hv env List.mem_cons_self
    have hsame : ¬ (m.vaultId.any fun v => v ≠ env.vaultId) = true := by
      rcases ha with ha | ha <;> simp [ha, hvault]
    have hrest : ∀ (m' : MemoryServer) (response : PushAnswer), m'.vaultId = some env.vaultId →
        ∃ m'', pushEach response rest m' = (.ok ⟨⟨response.accepted ++ m'.taken rest,
          response.conflicts ++ m'.against rest⟩, m'.seq + (m'.taken rest).length⟩, m'') :=
      fun m' response h => ih (fun e he => hb e (List.mem_cons_of_mem env he))
        (fun e he => hv e (List.mem_cons_of_mem env he)) (.inr (h.trans (congrArg some hvault)))
    have hs : (m.claim env.vaultId).standing env = m.standing env := rfl
    unfold pushEach
    rw [if_neg hblob, if_neg hsame]
    simp only [hs]
    unfold taken against
    cases hst : m.standing env with
    | some current =>
      obtain ⟨m', hm'⟩ := hrest (m.claim env.vaultId)
        { response with conflicts := response.conflicts ++ [current] } rfl
      refine ⟨m', hm'.trans ?_⟩
      simp only [taken_claim, against_claim, List.append_assoc, List.singleton_append]
      rfl
    | none =>
      obtain ⟨m', hm'⟩ := hrest ((m.accept env).claim env.vaultId)
        { response with accepted := response.accepted ++ [⟨env.id, m.seq + 1⟩] } rfl
      refine ⟨m', hm'.trans ?_⟩
      have hseq : ((m.accept env).claim env.vaultId).seq = m.seq + 1 := rfl
      simp only [taken_claim, against_claim, hseq, List.append_assoc, List.singleton_append,
        List.length_cons, Nat.add_assoc, Nat.add_comm 1]

theorem push_eq (h : m.Admits vault batch) : ∃ m', m.push batch =
    (.ok ⟨⟨m.taken batch, m.against batch⟩, m.seq + (m.taken batch).length⟩, m') := by
  have hcount : ¬ maxBatch < batch.length := Nat.not_lt.mpr h.count
  have hbytes : ¬ (1 < batch.length ∧ maxBatchBytes < (batch.map fun env => env.blob.len).sum) := by
    rintro ⟨hone, hlt⟩
    rcases h.bytes with hle | hle <;> omega
  unfold push
  rw [if_neg hcount, if_neg hbytes]
  exact pushEach_eq h.blob h.vaultId h.account

end MemoryServer

end UwuRdp
