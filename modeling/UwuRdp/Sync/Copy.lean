import UwuRdp.Store.Space
import UwuRdp.Sync.Moving

/-!
# The move, end to end

Everything the source has is read and opened, sealed again and pushed where the space does not hold
it at least as new, and then the copy is read back and held against what was read. Both servers may
answer anything; what counts is the last read.
-/

namespace UwuRdp

open Lib

/-! ## Reading a server -/

/-- `each_record`, with the server it leaves; `refuse` says what becomes of a refusal. -/
def readEach {ρ ε α : Type} (refuse : TransportError → ε) (t : Transport ρ)
    (each : α → Envelope → Except ε α) : ℕ → ℕ → α → Act ρ ε α
  | 0, _, _ => Act.fail (refuse .refused)
  | pages + 1, cursor, acc => fun server =>
    match t.pull cursor maxBatch server with
    | (.error e, server) => (.error (refuse e), server)
    | (.ok page, server) =>
      let (reset, server) := t.takeReset server
      if reset then (.error (refuse .refused), server)
      else
        match page.envelopes.foldlM each acc with
        | .error e => (.error e, server)
        | .ok acc =>
          if page.envelopes.isEmpty || !page.hasMore then (.ok acc, server)
          else if page.cursor ≤ cursor then (.error (refuse .refused), server)
          else readEach refuse t each pages page.cursor acc server

def readRecords {ρ : Type} (t : Transport ρ) : Act ρ TransportError (List Envelope) :=
  readEach id t (fun acc e => .ok (acc ++ [e])) maxPages 0 []

/-! ## What a move keeps -/

def maxRecords : ℕ := 50000

def maxBytes : ℕ := 256 * 1024 * 1024

/-- `Problem`: what is wrong with a record of the copy. -/
inductive CopyProblem where
  /-- Not there at all, or not opening there with the space's key. -/
  | missing
  /-- There in an older version. -/
  | older
deriving DecidableEq

/-- A record the copy does not hold as it should. -/
structure Difference where
  id : Uuid
  kind : EntityKind
  problem : CopyProblem
deriving DecidableEq

def Difference.before (a b : Difference) : Bool :=
  a.kind.discriminant < b.kind.discriminant ||
    a.kind.discriminant = b.kind.discriminant && a.id ≤ b.id

/-- What goes wrong during a move. -/
inductive MoveError where
  | transport (e : TransportError)
  | crypto
  | vaultLocked
  | check (differences : List Difference)
deriving DecidableEq

/-- How much of a server's records this device took in. -/
structure Budget where
  records : ℕ
  bytes : ℕ
deriving DecidableEq

def Budget.take (b : Budget) (bytes : ℕ) : Except MoveError Budget :=
  let b : Budget := ⟨b.records + 1, min (b.bytes + bytes) (2 ^ 64 - 1)⟩
  if maxRecords < b.records ∨ maxBytes < b.bytes then .error (.transport .refused) else .ok b

/-- What a move did. -/
structure MoveReport where
  read : ℕ
  copied : ℕ
  alreadyThere : ℕ
  newerThere : ℕ
  unreadable : ℕ
deriving DecidableEq

def Opened.version (o : Opened) : Version := ⟨o.updatedAt, o.deleted⟩

/-- What the space holds of a record: its version and the number to base a push on. -/
structure HeldThere where
  version : Version
  seq : ℕ
deriving DecidableEq

def HeldThere.of (e : Envelope) : HeldThere := ⟨e.version, e.seq.getD 0⟩

/-- A record as it came from the server, opened with the vault that is open here; `none` when its
seal does not hold or it belongs to another vault. -/
def Store.openEnvelope (s : Store) (e : Envelope) : Except MoveError (Option Payload) :=
  match s.vault with
  | none => .error .vaultLocked
  | some vault => if e.vaultId ≠ vault.vaultId then .ok none else .ok (vault.openEnvelope e)

/-! ## The steps of a move -/

/-- This device, the server it moves from and the space it moves to. -/
structure MoveState (σ τ : Type) where
  store : Store
  source : σ
  space : Lock τ

abbrev MoveCall (σ τ : Type) := Act (MoveState σ τ) MoveError

section Copy

variable {σ τ α : Type}

def onSource (m : Act σ MoveError α) : MoveCall σ τ α := fun s =>
  match m s.source with
  | (result, source) => (result, { s with source })

def onSpace (m : Act (Lock τ) MoveError α) : MoveCall σ τ α := fun s =>
  match m s.space with
  | (result, space) => (result, { s with space })

/-- What was read so far: the records, the budget and how many did not open. -/
structure Reading where
  opened : List Opened
  budget : Budget
  unreadable : ℕ
deriving DecidableEq

def takeRecord (store : Store) (acc : Reading) (e : Envelope) : Except MoveError Reading :=
  if e.kind = .manifest then .ok acc
  else
    match store.openEnvelope e with
    | .error err => .error err
    | .ok none => .ok { acc with unreadable := acc.unreadable + 1 }
    | .ok (some payload) =>
      match acc.budget.take (payload.len + tagBytes) with
      | .error err => .error err
      | .ok budget => .ok { acc with
          opened := acc.opened ++ [⟨e.id, e.kind, e.updatedAt, e.deleted, payload⟩]
          budget := budget }

/-- One record of the space, by its header; a later one of the same id counts. -/
def takeHeader (acc : Table Uuid HeldThere × Budget) (e : Envelope) :
    Except MoveError (Table Uuid HeldThere × Budget) :=
  match acc.2.take e.blob.len with
  | .error err => .error err
  | .ok budget => .ok (acc.1.set e.id (HeldThere.of e), budget)

/-- `opens`: whether a record opens with the space's key, its header bound in. -/
def opensFor (target : UnlockedVault) (e : Envelope) : Bool :=
  e.vaultId = target.vaultId && (target.openEnvelope e).isSome

/-- One record of the copy, if it is wanted and opens; of two, the newer one counts. -/
def takeCopy (target : UnlockedVault) (wanted : List Uuid) (acc : Table Uuid HeldThere × Budget)
    (e : Envelope) : Except MoveError (Table Uuid HeldThere × Budget) :=
  match acc.2.take e.blob.len with
  | .error err => .error err
  | .ok budget =>
    if e.id ∉ wanted then .ok (acc.1, budget)
    else if !opensFor target e then .ok (acc.1, budget)
    else
      match acc.1.get? e.id with
      | none => .ok (acc.1.set e.id (HeldThere.of e), budget)
      | some held =>
        if resolve (HeldThere.of e).version held.version = .keepLocal then
          .ok (acc.1.set e.id (HeldThere.of e), budget)
        else .ok (acc.1, budget)

/-- The headers of everything in the space, to decide what to push. The seals are not opened here. -/
def headers (srv : SuiteServer τ) : Act (Lock τ) MoveError (Table Uuid HeldThere) := do
  let acc ← readEach MoveError.transport (Lock.transport srv) takeHeader maxPages 0
    (Table.empty, ⟨0, 0⟩)
  pure acc.1

/-- The versions of the wanted records the space holds, as far as they open. -/
def openedCopy (srv : SuiteServer τ) (target : UnlockedVault) (wanted : List Uuid) :
    Act (Lock τ) MoveError (Table Uuid HeldThere) := do
  let acc ← readEach MoveError.transport (Lock.transport srv) (takeCopy target wanted) maxPages 0
    (Table.empty, ⟨0, 0⟩)
  pure acc.1

/-- What is to be pushed, and what is there already. -/
structure Plan where
  waiting : List Waiting
  report : MoveReport
deriving DecidableEq

/-- Whether one record of the source is to be pushed. -/
def planOne (there : Table Uuid HeldThere) (plan : Plan) (o : Opened) : Plan :=
  match there.get? o.id with
  | none => { plan with waiting := plan.waiting ++ [(o, 0)] }
  | some held =>
    match resolve o.version held.version with
    | .identical =>
      { plan with report := { plan.report with alreadyThere := plan.report.alreadyThere + 1 } }
    | .takeRemote =>
      { plan with report := { plan.report with newerThere := plan.report.newerThere + 1 } }
    | .keepLocal => { plan with waiting := plan.waiting ++ [(o, held.seq)] }

/-- A conflict: someone else wrote this record meanwhile, and the merge rule decides. -/
def settleConflict (batch : List Waiting) (acc : Plan) (conflict : Envelope) : Plan :=
  match batch.find? fun item => item.1.id = conflict.id with
  | none => acc
  | some item =>
    match resolve item.1.version conflict.version with
    | .keepLocal => { acc with waiting := acc.waiting ++ [(item.1, conflict.seq.getD 0)] }
    | .identical =>
      { acc with report := { acc.report with alreadyThere := acc.report.alreadyThere + 1 } }
    | .takeRemote =>
      { acc with report := { acc.report with newerThere := acc.report.newerThere + 1 } }

def pushBatch (srv : SuiteServer τ) (target : UnlockedVault) (acc : Plan) (batch : List Waiting) :
    Act (Lock τ) MoveError Plan := fun l =>
  match batch.mapM (Opened.sealFor target) with
  | .error (.transport e) => (.error (.transport e), l)
  | .error .crypto => (.error .crypto, l)
  | .ok envelopes =>
    match Lock.push srv envelopes l with
    | (.error e, l) => (.error (.transport e), l)
    | (.ok response, l) =>
      let report := { acc.report with copied := acc.report.copied + response.accepted.length }
      (.ok (response.conflicts.foldl (settleConflict batch) { acc with report }), l)

/-- Push what waits, and what is to be pushed again after conflicts. -/
def pushRounds (srv : SuiteServer τ) (target : UnlockedVault) :
    ℕ → Plan → Act (Lock τ) MoveError MoveReport
  | 0, plan => pure plan.report
  | rounds + 1, plan =>
    if plan.waiting.isEmpty then pure plan.report
    else do
      let plan ← (batches plan.waiting).foldlM (pushBatch srv target) ⟨[], plan.report⟩
      pushRounds srv target rounds plan

/-- Everything the source has, copied to the space where the space does not hold it at least as new. -/
def copyRecords (source : Transport σ) (srv : SuiteServer τ) (space : Space) :
    MoveCall σ τ (List Opened × MoveReport) := do
  let s ← Act.get
  let reading ← onSource (readEach MoveError.transport source (takeRecord s.store) maxPages 0
    ⟨[], ⟨0, 0⟩, 0⟩)
  let there ← onSpace (headers srv)
  let report : MoveReport := ⟨reading.opened.length, 0, 0, 0, reading.unreadable⟩
  let plan := reading.opened.foldl (planOne there) ⟨[], report⟩
  let report ← onSpace (pushRounds srv ⟨space.id, space.key⟩ maxRounds plan)
  pure (reading.opened, report)

def difference (there : Table Uuid HeldThere) (o : Opened) : Option Difference :=
  match there.get? o.id with
  | none => some ⟨o.id, o.kind, .missing⟩
  | some held =>
    if resolve o.version held.version = .keepLocal then some ⟨o.id, o.kind, .older⟩ else none

/-- Read the copy back, open it, and hold it against what was read. -/
def checkCopy (srv : SuiteServer τ) (space : Space) (opened : List Opened) : MoveCall σ τ Unit := do
  let there ← onSpace (openedCopy srv ⟨space.id, space.key⟩ (opened.map Opened.id))
  let differences := opened.filterMap (difference there)
  if differences.isEmpty then pure ()
  else Act.fail (.check (differences.insertionSort fun a b => a.before b = true))

/-- Copy everything from the source to the space, and check the copy. -/
def copyToLock (source : Transport σ) (srv : SuiteServer τ) (space : Space) :
    MoveCall σ τ MoveReport := do
  let s ← Act.get
  if s.space.space ≠ some space.id then Act.fail (.transport .refused)
  else do
    let copied ← copyRecords source srv space
    checkCopy srv space copied.1
    pure copied.2

end Copy

/-! ## What a read hands over -/

section Reads

variable {ρ ε α : Type} {refuse : TransportError → ε} {t : Transport ρ}
  {each : α → Envelope → Except ε α}

variable {acc b : α} {pages cursor : ℕ} {server server' : ρ}

theorem foldlM_append_ok {l l' : List Envelope} : (l ++ l').foldlM each acc = .ok b ↔ ∃ a, l.foldlM each acc = .ok a ∧
    l'.foldlM each a = .ok b := by
  rw [List.foldlM_append]
  cases l.foldlM each acc with
  | error e =>
    constructor
    · intro h
      cases h
    · rintro ⟨a, h, -⟩
      cases h
  | ok a =>
    constructor
    · exact fun h => ⟨a, rfl, h⟩
    · rintro ⟨a', h, h'⟩
      cases h
      exact h'

theorem foldlM_snoc (l acc : List Envelope) :
    l.foldlM (fun acc e => (.ok (acc ++ [e]) : Except ε (List Envelope))) acc = .ok (acc ++ l) := by
  induction l generalizing acc with
  | nil => rw [List.append_nil]; rfl
  | cons e l ih =>
    show l.foldlM (fun acc e => (.ok (acc ++ [e]) : Except ε (List Envelope))) (acc ++ [e]) = _
    rw [ih, List.append_assoc, List.singleton_append]

theorem readEach_succ :
    readEach refuse t each (pages + 1) cursor acc server = (.ok b, server') ↔
      ∃ page server₁ server₂ a, t.pull cursor maxBatch server = (.ok page, server₁) ∧
        t.takeReset server₁ = (false, server₂) ∧ page.envelopes.foldlM each acc = .ok a ∧
        if page.envelopes.isEmpty || !page.hasMore then a = b ∧ server₂ = server'
        else cursor < page.cursor ∧
          readEach refuse t each pages page.cursor a server₂ = (.ok b, server') := by
  rw [readEach]
  constructor
  · intro h
    cases hpull : t.pull cursor maxBatch server with
    | mk result server₁ =>
      cases result with
      | error e =>
        simp only [hpull] at h
        cases h
      | ok page =>
        cases hreset : t.takeReset server₁ with
        | mk reset server₂ =>
          simp only [hpull, hreset] at h
          split at h
          · cases h
          next hfalse =>
          cases hfold : page.envelopes.foldlM each acc with
          | error e =>
            simp only [hfold] at h
            cases h
          | ok a =>
            simp only [hfold] at h
            refine ⟨page, server₁, server₂, a, rfl, ?_, hfold, ?_⟩
            · rw [hreset, Bool.eq_false_iff.mpr hfalse]
            split at h
            · next hdone =>
              cases h
              rw [if_pos hdone]
              exact ⟨rfl, rfl⟩
            · next hdone =>
              rw [if_neg hdone]
              split at h
              · cases h
              · next hcursor => exact ⟨not_le.mp hcursor, h⟩
  · rintro ⟨page, server₁, server₂, a, hpull, hreset, hfold, hrest⟩
    simp only [hpull, hreset, hfold]
    rw [if_neg Bool.false_ne_true]
    split at hrest
    · next hdone =>
      obtain ⟨rfl, rfl⟩ := hrest
      rw [if_pos hdone]
    · next hdone =>
      rw [if_neg hdone, if_neg (not_le.mpr hrest.1)]
      exact hrest.2

theorem readEach_records
    (h : readEach refuse t each pages cursor acc server = (.ok b, server')) :
    ∃ records, (∀ before, readEach id t (fun acc e => .ok (acc ++ [e])) pages cursor before server =
      (.ok (before ++ records), server')) ∧ records.foldlM each acc = .ok b := by
  induction pages generalizing cursor acc server with
  | zero => cases h
  | succ pages ih =>
    obtain ⟨page, server₁, server₂, a, hpull, hreset, hfold, hrest⟩ := readEach_succ.mp h
    by_cases hdone : (page.envelopes.isEmpty || !page.hasMore) = true
    · rw [if_pos hdone] at hrest
      obtain ⟨rfl, rfl⟩ := hrest
      refine ⟨page.envelopes, fun before => readEach_succ.mpr ?_, hfold⟩
      exact ⟨page, server₁, server₂, _, hpull, hreset, foldlM_snoc _ _, by rw [if_pos hdone]; simp⟩
    · rw [if_neg hdone] at hrest
      obtain ⟨records, hread, hfold'⟩ := ih hrest.2
      refine ⟨page.envelopes ++ records, fun before => readEach_succ.mpr ?_, foldlM_append_ok.mpr ⟨a, hfold, hfold'⟩⟩
      refine ⟨page, server₁, server₂, _, hpull, hreset, foldlM_snoc _ _, ?_⟩
      rw [if_neg hdone, hread, List.append_assoc]
      exact ⟨hrest.1, rfl⟩

theorem readEach_of_records {before full : List Envelope}
    (h : readEach id t (fun acc e => .ok (acc ++ [e])) pages cursor before server = (.ok full, server')) : ∃ records,
    full = before ++ records ∧ ∀ acc b, records.foldlM each acc = .ok b → readEach refuse t each pages cursor acc
    server = (.ok b, server') := by
  induction pages generalizing cursor before server with
  | zero => cases h
  | succ pages ih =>
    obtain ⟨page, server₁, server₂, a, hpull, hreset, hfold, hrest⟩ := readEach_succ.mp h
    rw [foldlM_snoc] at hfold
    cases hfold
    by_cases hdone : (page.envelopes.isEmpty || !page.hasMore) = true
    · rw [if_pos hdone] at hrest
      obtain ⟨rfl, rfl⟩ := hrest
      refine ⟨page.envelopes, rfl, fun acc b hb => readEach_succ.mpr ?_⟩
      exact ⟨page, server₁, server₂, b, hpull, hreset, hb, by rw [if_pos hdone]; simp⟩
    · rw [if_neg hdone] at hrest
      obtain ⟨records, rfl, hagain⟩ := ih hrest.2
      refine ⟨page.envelopes ++ records, List.append_assoc _ _ _, fun acc b hb => ?_⟩
      obtain ⟨a, hpage, hrecords⟩ := foldlM_append_ok.mp hb
      refine readEach_succ.mpr ⟨page, server₁, server₂, a, hpull, hreset, hpage, ?_⟩
      rw [if_neg hdone]
      exact ⟨hrest.1, hagain a b hrecords⟩

theorem readEach_eq_ok {acc b : α} {server server' : ρ} :
    readEach refuse t each maxPages 0 acc server = (.ok b, server') ↔
      ∃ records, readRecords t server = (.ok records, server') ∧
        records.foldlM each acc = .ok b := by
  constructor
  · intro h
    obtain ⟨records, hread, hfold⟩ := readEach_records h
    exact ⟨records, hread [], hfold⟩
  · rintro ⟨records, hread, hfold⟩
    obtain ⟨records', rfl, hagain⟩ := readEach_of_records hread
    exact hagain acc b hfold

theorem readEach_eachRecord {each : α → Envelope → Except LockError α} (pages cursor : ℕ) (acc : α) (server : ρ) :
    (readEach LockError.transport t each pages cursor acc server).1 = eachRecord t each pages cursor server acc := by
  induction pages generalizing cursor acc server with
  | zero => rfl
  | succ pages ih =>
    rw [readEach, eachRecord]
    beta_reduce
    cases t.pull cursor maxBatch server with
    | mk result server₁ =>
      cases result with
      | error e => rfl
      | ok page =>
        show (if (t.takeReset server₁).1 = true then _ else _ : Except LockError α × ρ).1 =
          if (t.takeReset server₁).1 = true then _ else _
        by_cases hreset : (t.takeReset server₁).1 = true
        · rw [if_pos hreset, if_pos hreset]
        rw [if_neg hreset, if_neg hreset]
        cases page.envelopes.foldlM each acc with
        | error e => rfl
        | ok a =>
          show (if _ then _ else if _ then _ else _ : Except LockError α × ρ).1 =
            if _ then _ else if _ then _ else _
          split
          · rfl
          split
          · rfl
          · exact ih page.cursor a (t.takeReset server₁).2

end Reads

/-! ## What is taken of the records -/

section Records

variable {store : Store} {target : UnlockedVault} {wanted : List Uuid} {records : List Envelope}

variable {e : Envelope} {acc' : Table Uuid HeldThere × Budget} {id : Uuid} {held : HeldThere}

theorem takeRecord_opened {acc acc' : Reading}
    (h : takeRecord store acc e = .ok acc') : acc.opened ⊆ acc'.opened ∧
      ∀ vault, store.vault = some vault → e.kind ≠ .manifest → e.vaultId = vault.vaultId →
        ∀ payload, vault.openEnvelope e = some payload →
          (⟨e.id, e.kind, e.updatedAt, e.deleted, payload⟩ : Opened) ∈ acc'.opened := by
  unfold takeRecord at h
  split at h
  · next hk =>
    cases h
    exact ⟨List.Subset.refl _, fun _ _ hne => absurd hk hne⟩
  have hopen : ∀ vault, store.vault = some vault → e.vaultId = vault.vaultId →
      store.openEnvelope e = .ok (vault.openEnvelope e) := by
    intro vault hv hid
    unfold Store.openEnvelope
    rw [hv]
    exact if_neg (not_not.mpr hid)
  split at h
  · cases h
  · next hnone =>
    cases h
    refine ⟨List.Subset.refl _, fun vault hv _ hid payload hp => ?_⟩
    rw [hopen vault hv hid, hp] at hnone
    cases hnone
  · next payload hsome =>
    split at h
    · cases h
    · cases h
      refine ⟨List.subset_append_left _ _, fun vault hv _ hid payload' hp => ?_⟩
      rw [hopen vault hv hid, hp] at hsome
      cases hsome
      exact List.mem_append_right _ List.mem_cons_self

theorem foldlM_takeRecord {acc acc' : Reading} (h : records.foldlM (takeRecord store) acc = .ok acc') : acc.opened ⊆
    acc'.opened ∧ ∀ e ∈ records, ∀ vault, store.vault = some vault → e.kind ≠ .manifest → e.vaultId = vault.vaultId →
    ∀ payload, vault.openEnvelope e = some payload → (⟨e.id, e.kind, e.updatedAt, e.deleted, payload⟩ : Opened) ∈
    acc'.opened := by
  induction records generalizing acc with
  | nil =>
    cases h
    exact ⟨List.Subset.refl _, fun e he => absurd he List.not_mem_nil⟩
  | cons e records ih =>
    rw [List.foldlM_cons] at h
    cases hone : takeRecord store acc e with
    | error err =>
      rw [hone] at h
      cases h
    | ok acc₁ =>
      rw [hone] at h
      obtain ⟨hsub, hrest⟩ := ih h
      obtain ⟨hsub₁, hfirst⟩ := takeRecord_opened hone
      refine ⟨List.Subset.trans hsub₁ hsub, fun e' he' vault hv hk hid payload hp => ?_⟩
      rcases List.mem_cons.mp he' with rfl | he'
      · exact hsub (hfirst vault hv hk hid payload hp)
      · exact hrest e' he' vault hv hk hid payload hp

theorem takeCopy_held {acc : Table Uuid HeldThere × Budget}
    (h : takeCopy target wanted acc e = .ok acc') (hid : acc'.1.get? id = some held) :
    (e.id = id ∧ opensFor target e = true ∧ HeldThere.of e = held) ∨ acc.1.get? id = some held := by
  have hset : opensFor target e = true → acc'.1 = acc.1.set e.id (HeldThere.of e) →
      (e.id = id ∧ opensFor target e = true ∧ HeldThere.of e = held) ∨ acc.1.get? id = some held := by
    intro hopens heq
    rw [heq, Table.get?_set] at hid
    split at hid
    · next hsame => exact .inl ⟨hsame.symm, hopens, Option.some.inj hid⟩
    · exact .inr hid
  unfold takeCopy at h
  split at h
  · cases h
  split at h
  · cases h
    exact .inr hid
  split at h
  · cases h
    exact .inr hid
  · next hopens =>
    have hopens : opensFor target e = true := by simpa using hopens
    split at h
    · cases h
      exact hset hopens rfl
    · split at h
      · cases h
        exact hset hopens rfl
      · cases h
        exact .inr hid

theorem foldlM_takeCopy {acc : Table Uuid HeldThere × Budget}
    (h : records.foldlM (takeCopy target wanted) acc = .ok acc') (hid : acc'.1.get? id = some held) :
    (∃ e ∈ records, e.id = id ∧ opensFor target e = true ∧ HeldThere.of e = held) ∨ acc.1.get? id = some held := by
  induction records generalizing acc with
  | nil =>
    cases h
    exact .inr hid
  | cons e records ih =>
    rw [List.foldlM_cons] at h
    cases hone : takeCopy target wanted acc e with
    | error err =>
      rw [hone] at h
      cases h
    | ok acc₁ =>
      rw [hone] at h
      rcases ih h with ⟨e', he', hrest⟩ | hold
      · exact .inl ⟨e', List.mem_cons_of_mem e he', hrest⟩
      · rcases takeCopy_held hone hold with hnew | hold
        · exact .inl ⟨e, List.mem_cons_self, hnew⟩
        · exact .inr hold

theorem foldlM_takeHeader {acc : Table Uuid HeldThere × Budget} {t : Table Uuid HeldThere}
    (h : records.foldlM (takeCopy target wanted) acc = .ok acc') (hn : (records.map Envelope.id).Nodup) : ∃ t',
    records.foldlM takeHeader (t, acc.2) = .ok (t', acc'.2) ∧ (∀ e ∈ records, t'.get? e.id = some (HeldThere.of e)) ∧
    ∀ id, id ∉ records.map Envelope.id → t'.get? id = t.get? id := by
  induction records generalizing acc t with
  | nil =>
    cases h
    exact ⟨t, rfl, fun e he => absurd he List.not_mem_nil, fun _ _ => rfl⟩
  | cons e records ih =>
    rw [List.map_cons, List.nodup_cons] at hn
    rw [List.foldlM_cons] at h
    cases hone : takeCopy target wanted acc e with
    | error err =>
      rw [hone] at h
      cases h
    | ok acc₁ =>
      rw [hone] at h
      have hbudget : acc.2.take e.blob.len = .ok acc₁.2 := by
        unfold takeCopy at hone
        split at hone
        · cases hone
        · next budget hb =>
          rw [hb]
          split at hone
          · cases hone; rfl
          split at hone
          · cases hone; rfl
          split at hone
          · cases hone; rfl
          · split at hone <;> (cases hone; rfl)
      obtain ⟨t', hfold, hmem, hother⟩ := ih (t := t.set e.id (HeldThere.of e)) h hn.2
      have htake : takeHeader (t, acc.2) e = .ok (t.set e.id (HeldThere.of e), acc₁.2) := by
        unfold takeHeader
        rw [hbudget]
      refine ⟨t', ?_, ?_, ?_⟩
      · rw [List.foldlM_cons, htake]
        exact hfold
      · intro e' he'
        rcases List.mem_cons.mp he' with rfl | he'
        · rw [hother _ hn.1, Table.get?_set_self]
        · exact hmem e' he'
      · intro id hid
        rw [List.map_cons, List.mem_cons, not_or] at hid
        rw [hother id hid.2, Table.get?_set_ne hid.1]

end Records

/-! ## The whole move -/

section Move

variable {σ τ α : Type} {source : Transport σ} {srv : SuiteServer τ} {space : Space}
  {s s' : MoveState σ τ}

variable {m : Act σ MoveError α} {a : α} {report : MoveReport} {opened : List Opened}

theorem onSource_eq_ok :
    onSource m s = (.ok a, s') ↔ ∃ src, m s.source = (.ok a, src) ∧ s' = { s with source := src } := by
  unfold onSource
  constructor
  · intro h
    split at h
    next result src hm =>
    cases h
    exact ⟨src, hm, rfl⟩
  · rintro ⟨src, hm, rfl⟩
    rw [hm]

theorem onSpace_eq_ok {m : Act (Lock τ) MoveError α} :
    onSpace m s = (.ok a, s') ↔ ∃ l, m s.space = (.ok a, l) ∧ s' = { s with space := l } := by
  unfold onSpace
  constructor
  · intro h
    split at h
    next result l hm =>
    cases h
    exact ⟨l, hm, rfl⟩
  · rintro ⟨l, hm, rfl⟩
    rw [hm]

theorem onSource_ends {store : Store} : Act.Ends (fun s : MoveState σ τ => s.store = store)
    (onSource m) (fun _ s => s.store = store) fun _ s => s.store = store := by
  intro s hs
  unfold onSource
  cases m s.source with
  | mk result src => cases result <;> exact hs

theorem onSpace_ends {m : Act (Lock τ) MoveError α} {store : Store} :
    Act.Ends (fun s : MoveState σ τ => s.store = store) (onSpace m) (fun _ s => s.store = store)
      fun _ s => s.store = store := by
  intro s hs
  unfold onSpace
  cases m s.space with
  | mk result l => cases result <;> exact hs

theorem copyToLock_store (s : MoveState σ τ) : (copyToLock source srv space s).2.store = s.store := by
  suffices h : Act.Ends (fun s' : MoveState σ τ => s'.store = s.store)
      (copyToLock source srv space) (fun _ s' => s'.store = s.store) fun _ s' => s'.store = s.store
    from h.always rfl
  apply Act.Ends.get_bind
  intro s₀ hs₀
  have heq : ∀ s₁ : MoveState σ τ, s₁ = s₀ → s₁.store = s.store := fun s₁ h => h ▸ hs₀
  apply Act.Ends.ite
  · exact fun _ => .fail heq
  intro _
  refine .conseq (P := fun s' : MoveState σ τ => s'.store = s.store) ?_ heq (fun _ _ h => h) fun _ _ h => h
  refine Act.Ends.bind (R := fun _ s' => s'.store = s.store) ?_ fun copied => ?_
  · apply Act.Ends.get_bind
    intro s₁ hs₁
    refine .conseq (P := fun s' : MoveState σ τ => s'.store = s.store) ?_
      (fun s₂ h => h ▸ hs₁) (fun _ _ h => h) fun _ _ h => h
    refine .bind onSource_ends fun reading => ?_
    refine .bind onSpace_ends fun there => ?_
    exact .bind onSpace_ends fun report => .pure fun _ h => h
  · refine .bind (R := fun _ s' => s'.store = s.store) ?_ fun _ => .pure fun _ h => h
    refine .bind onSpace_ends fun there => ?_
    apply Act.Ends.ite
    · exact fun _ => Act.Ends.pure fun _ h => h
    · exact fun _ => .fail fun _ h => h

theorem copyToLock_eq_ok : copyToLock source srv space s = (.ok report, s') ↔ s.space.space =
    some space.id ∧ ∃ opened s₁, copyRecords source srv space s = (.ok (opened, report), s₁) ∧ checkCopy srv space
    opened s₁ = (.ok (), s') := by
  unfold copyToLock
  rw [Act.get_bind]
  constructor
  · intro h
    split at h
    · cases h
    next hspace =>
    obtain ⟨copied, s₁, hcopy, h⟩ := Act.bind_eq_ok.mp h
    obtain ⟨⟨⟩, s₂, hcheck, h⟩ := Act.bind_eq_ok.mp h
    obtain ⟨rfl, rfl⟩ := Act.pure_eq_ok.mp h
    exact ⟨not_not.mp hspace, copied.1, s₁, hcopy, hcheck⟩
  · rintro ⟨hspace, opened, s₁, hcopy, hcheck⟩
    rw [if_neg (not_not.mpr hspace), Act.bind_of_ok hcopy, Act.bind_of_ok hcheck]
    rfl

theorem copyRecords_eq_ok
    (h : copyRecords source srv space s = (.ok (opened, report), s')) : ∃ served src reading, readRecords source
    s.source = (.ok served, src) ∧ served.foldlM (takeRecord s.store) ⟨[], ⟨0, 0⟩, 0⟩ = .ok reading ∧ opened =
    reading.opened := by
  unfold copyRecords at h
  rw [Act.get_bind] at h
  obtain ⟨reading, s₁, hread, h⟩ := Act.bind_eq_ok.mp h
  obtain ⟨src, hread, -⟩ := onSource_eq_ok.mp hread
  obtain ⟨served, hserved, hfold⟩ := readEach_eq_ok.mp hread
  obtain ⟨there, s₂, -, h⟩ := Act.bind_eq_ok.mp h
  obtain ⟨report', s₃, -, h⟩ := Act.bind_eq_ok.mp h
  cases (Act.pure_eq_ok.mp h).1
  exact ⟨served, src, reading, hserved, hfold, rfl⟩

theorem checkCopy_eq_ok (h : checkCopy srv space opened s = (.ok (), s')) : ∃ readBack copy,
    readRecords (Lock.transport srv) s.space = (.ok readBack, s'.space) ∧ readBack.foldlM
    (takeCopy ⟨space.id, space.key⟩ (opened.map Opened.id)) (Table.empty, ⟨0, 0⟩) = .ok copy ∧ ∀ o ∈ opened, ∃ held,
    copy.1.get? o.id = some held ∧ resolve o.version held.version ≠ .keepLocal := by
  unfold checkCopy at h
  obtain ⟨there, s₁, hspace, h⟩ := Act.bind_eq_ok.mp h
  obtain ⟨l, hcopy, rfl⟩ := onSpace_eq_ok.mp hspace
  unfold openedCopy at hcopy
  obtain ⟨copy, l₁, hread, hpure⟩ := Act.bind_eq_ok.mp hcopy
  obtain ⟨rfl, rfl⟩ := Act.pure_eq_ok.mp hpure
  obtain ⟨readBack, hrecords, hfold⟩ := readEach_eq_ok.mp hread
  split at h
  · next hempty =>
    obtain ⟨-, rfl⟩ := Act.pure_eq_ok.mp h
    refine ⟨readBack, copy, hrecords, hfold, fun o ho => ?_⟩
    have hnone : difference copy.1 o = none := List.filterMap_eq_nil_iff.mp (List.isEmpty_iff.mp hempty) o ho
    unfold difference at hnone
    split at hnone
    · cases hnone
    · next held hheld =>
      split at hnone
      · cases hnone
      · next hne => exact ⟨held, hheld, hne⟩
  · cases h

theorem foldl_planOne {opened : List Opened} {there : Table Uuid HeldThere} {plan : Plan}
    (hp : plan.waiting = [] ∧ plan.report.copied = 0)
    (h : ∀ o ∈ opened, ∃ held, there.get? o.id = some held ∧ resolve o.version held.version ≠ .keepLocal) :
    (opened.foldl (planOne there) plan).waiting = [] ∧ (opened.foldl (planOne there) plan).report.copied = 0 := by
  induction opened generalizing plan with
  | nil => exact hp
  | cons o opened ih =>
    rw [List.foldl_cons]
    refine ih ?_ fun o' ho' => h o' (List.mem_cons_of_mem o ho')
    obtain ⟨held, hheld, hne⟩ := h o List.mem_cons_self
    unfold planOne
    cases hr : resolve o.version held.version with
    | identical | takeRemote => simpa only [hheld, hr] using hp
    | keepLocal => exact absurd hr hne

theorem copyRecords_nothing {served : List Envelope} {src : σ} {l : Lock τ} {reading : Reading}
    {there : Table Uuid HeldThere × Budget} {listed : List Envelope}
    (hserved : readRecords source s.source = (.ok served, src))
    (hfold : served.foldlM (takeRecord s.store) ⟨[], ⟨0, 0⟩, 0⟩ = .ok reading)
    (hlisted : readRecords (Lock.transport srv) s.space = (.ok listed, l))
    (hheaders : listed.foldlM takeHeader (Table.empty, ⟨0, 0⟩) = .ok there)
    (hall : ∀ o ∈ reading.opened, ∃ held, there.1.get? o.id = some held ∧
      resolve o.version held.version ≠ .keepLocal) :
    ∃ report, copyRecords source srv space s =
      (.ok (reading.opened, report), ⟨s.store, src, l⟩) ∧ report.copied = 0 := by
  have hread := (@readEach_eq_ok _ _ _ MoveError.transport _ _ _ _ _ _).mpr ⟨served, hserved, hfold⟩
  have hlook := (@readEach_eq_ok _ _ _ MoveError.transport _ _ _ _ _ _).mpr ⟨listed, hlisted, hheaders⟩
  have hplan := @foldl_planOne _ _ ⟨[], ⟨reading.opened.length, 0, 0, 0, reading.unreadable⟩⟩ ⟨rfl, rfl⟩ hall
  refine ⟨_, ?_, hplan.2⟩
  unfold copyRecords
  rw [Act.get_bind, Act.bind_of_ok (onSource_eq_ok.mpr ⟨src, hread, rfl⟩)]
  have hhead : headers srv s.space = (.ok there.1, l) := by
    unfold headers
    rw [Act.bind_of_ok hlook]
    rfl
  have hhead' : onSpace (headers srv) ({ s with source := src } : MoveState σ τ) =
      (.ok there.1, ⟨s.store, src, l⟩) := onSpace_eq_ok.mpr ⟨l, hhead, rfl⟩
  rw [Act.bind_of_ok hhead']
  have hpush : pushRounds srv ⟨space.id, space.key⟩ maxRounds (reading.opened.foldl (planOne there.1)
        ⟨[], ⟨reading.opened.length, 0, 0, 0, reading.unreadable⟩⟩) l =
      (.ok (reading.opened.foldl (planOne there.1)
        ⟨[], ⟨reading.opened.length, 0, 0, 0, reading.unreadable⟩⟩).report, l) := by
    unfold pushRounds maxRounds
    dsimp only
    rw [hplan.1]
    rfl
  have hpush' := (onSpace_eq_ok (s := (⟨s.store, src, l⟩ : MoveState σ τ))).mpr ⟨l, hpush, rfl⟩
  exact Act.bind_of_ok hpush'

theorem version_of_not_keepLocal {a b : Version} (h : resolve a b ≠ .keepLocal) :
    b = a ∨ resolve a b = .takeRemote := by
  cases hr : resolve a b with
  | keepLocal => exact absurd hr h
  | takeRemote => exact .inr rfl
  | identical => exact Or.inl (resolve_eq_identical.mp hr).symm

end Move

/-- A move that goes through left every record it could read in the space, sealed for it and at least
as new; the store is not written; and where the space lists no id twice, moving again copies
nothing. -/
theorem copyToLock_sound {σ τ : Type} (source : Transport σ) (srv : SuiteServer τ) (space : Space)
    (s : MoveState σ τ) :
    (copyToLock source srv space s).2.store = s.store ∧
    ∀ report s', copyToLock source srv space s = (.ok report, s') →
      ∃ served readBack, (readRecords source s.source).1 = .ok served ∧
        (readRecords (Lock.transport srv) (copyRecords source srv space s).2.space).1 = .ok readBack ∧
        (∀ vault, s.store.vault = some vault → ∀ e ∈ served, e.kind ≠ .manifest →
          e.vaultId = vault.vaultId → (vault.openEnvelope e).isSome →
          ∃ c ∈ readBack, c.id = e.id ∧ c.vaultId = space.id ∧
            (UnlockedVault.openEnvelope ⟨space.id, space.key⟩ c).isSome ∧
            (c.version = e.version ∨ resolve e.version c.version = .takeRemote)) ∧
        ((readBack.map Envelope.id).Nodup → ∀ again : MoveState σ τ, again.store = s.store →
          (readRecords source again.source).1 = .ok served →
          (readRecords (Lock.transport srv) again.space).1 = .ok readBack →
          (∀ report' s'', copyToLock source srv space again = (.ok report', s'') →
            report'.copied = 0) ∧
          (copyRecords source srv space again).2.space =
            (readRecords (Lock.transport srv) again.space).2) := by
  refine ⟨copyToLock_store s, fun report s' hmove => ?_⟩
  obtain ⟨-, opened, s₁, hcopy, hcheck⟩ := copyToLock_eq_ok.mp hmove
  obtain ⟨served, src, reading, hserved, hfold, rfl⟩ := copyRecords_eq_ok hcopy
  obtain ⟨readBack, copy, hread, hcopied, hall⟩ := checkCopy_eq_ok hcheck
  have hfound : ∀ o ∈ reading.opened, ∃ c ∈ readBack, c.id = o.id ∧
      opensFor ⟨space.id, space.key⟩ c = true ∧ resolve o.version c.version ≠ .keepLocal := by
    intro o ho
    obtain ⟨held, hheld, hne⟩ := hall o ho
    rcases foldlM_takeCopy hcopied hheld with ⟨c, hc, hid, hopens, rfl⟩ | hempty
    · exact ⟨c, hc, hid, hopens, hne⟩
    · cases hempty
  refine ⟨served, readBack, by rw [hserved], by rw [hcopy, hread], ?_, ?_⟩
  · intro vault hv e he hk hid hopen
    obtain ⟨payload, hpayload⟩ := Option.isSome_iff_exists.mp hopen
    have ho := (foldlM_takeRecord hfold).2 e he vault hv hk hid payload hpayload
    obtain ⟨c, hc, hcid, hopens, hne⟩ := hfound _ ho
    unfold opensFor at hopens
    rw [Bool.and_eq_true, decide_eq_true_iff] at hopens
    exact ⟨c, hc, hcid, hopens.1, hopens.2, version_of_not_keepLocal hne⟩
  · intro hn again hstore hsource hspace
    obtain ⟨there, hheaders, hmem, -⟩ := foldlM_takeHeader (t := Table.empty) hcopied hn
    have hlists : ∀ o ∈ reading.opened, ∃ held, there.get? o.id = some held ∧
        resolve o.version held.version ≠ .keepLocal := by
      intro o ho
      obtain ⟨c, hc, hid, -, hne⟩ := hfound o ho
      exact ⟨HeldThere.of c, hid ▸ hmem c hc, hne⟩
    rw [← hstore] at hfold
    have hnothing : ∃ report₂, copyRecords source srv space again =
        (.ok (reading.opened, report₂), ⟨again.store, _, _⟩) ∧ report₂.copied = 0 :=
      copyRecords_nothing
        (Prod.ext hsource rfl : readRecords source again.source = (.ok served, _)) hfold
        (Prod.ext hspace rfl : readRecords (Lock.transport srv) again.space = (.ok readBack, _))
        hheaders hlists
    obtain ⟨report₂, hagain, hnone⟩ := hnothing
    constructor
    · intro report' s'' hmove'
      obtain ⟨-, opened', s₂, hcopy', -⟩ := copyToLock_eq_ok.mp hmove'
      rw [hagain] at hcopy'
      cases hcopy'
      exact hnone
    · rw [hagain]

/-! ## Two servers -/

/-- A secret that device 2 wrote at the first second, sealed for a vault. -/
def movedSecret (vault : UnlockedVault) (seq : ℕ) : Envelope where
  id := 5
  vaultId := vault.vaultId
  kind := .secret
  updatedAt := ⟨1000, 0, 2⟩
  baseSeq := 0
  deleted := false
  blob := vault.sealSynced 5 .secret ⟨1000, 0, 2⟩ false (.bytes [1])
  seq := some seq

def secretSource : Transport Unit where
  pull _ _ server := (.ok ⟨[movedSecret ⟨1, 7⟩ 1], 1, false⟩, server)
  push _ server := (.error .refused, server)
  takeReset server := (false, server)

/-- A space that lists some records and takes what is pushed. -/
def spaceListing (records : List WireRecord) : SuiteServer Unit where
  spaces server := (.ok [⟨spaceName, 9⟩], server)
  records _ _ server := (.ok (.done ⟨false, records, records.length, false⟩), server)
  push _ _ server := (.ok (.done ⟨[⟨5, 3⟩], []⟩), server)

def secretInSpace : WireRecord := WireRecord.fromEnvelope (movedSecret ⟨9, 70⟩ 1)

def madeUp : WireRecord :=
  { secretInSpace with updatedAt := ⟨1, 0, 2⟩, blob := some (.other 20), seq := some 2 }

/-- A device whose vault opens the secret, before the move. -/
def beforeMove : MoveState Unit Unit := ⟨⟨Db.fresh 1, some ⟨1, 7⟩⟩, (), ⟨some 9, false, ()⟩⟩

/-- Applied to a space that has the secret already. -/
theorem copyToLock_sound_secret :
    let srv := spaceListing [secretInSpace]
    ∃ readBack, (readRecords (Lock.transport srv)
        (copyRecords secretSource srv ⟨9, 70⟩ beforeMove).2.space).1 = .ok readBack ∧
      ∃ c ∈ readBack, c.id = 5 ∧ (UnlockedVault.openEnvelope ⟨9, 70⟩ c).isSome := by
  have hok : (copyToLock secretSource (spaceListing [secretInSpace]) ⟨9, 70⟩ beforeMove).1 =
      .ok ⟨1, 0, 1, 0, 0⟩ := by decide +kernel
  obtain ⟨served, readBack, hserved, hread, hall, -⟩ :=
    (copyToLock_sound secretSource (spaceListing [secretInSpace]) ⟨9, 70⟩ beforeMove).2
      ⟨1, 0, 1, 0, 0⟩ _ (Prod.ext hok rfl)
  have hone : (readRecords secretSource beforeMove.source).1 = .ok [movedSecret ⟨1, 7⟩ 1] := by
    decide +kernel
  obtain rfl := Except.ok.inj (hone.symm.trans hserved)
  obtain ⟨c, hc, hid, -, hopen, -⟩ := hall ⟨1, 7⟩ rfl (movedSecret ⟨1, 7⟩ 1) List.mem_cons_self
    (by decide) rfl (by decide +kernel)
  exact ⟨readBack, hread, c, hc, hid, hopen⟩

/-- A space that lists a made-up version after the real one is pushed to again and again, by a move
that goes through each time. -/
theorem copied_again :
    let srv := spaceListing [secretInSpace, madeUp]
    let first := copyToLock secretSource srv ⟨9, 70⟩ beforeMove
    let second := copyToLock secretSource srv ⟨9, 70⟩ first.2
    first.1 = .ok ⟨1, 1, 0, 0, 0⟩ ∧ second.1 = .ok ⟨1, 1, 0, 0, 0⟩ := by
  decide +kernel

end UwuRdp
