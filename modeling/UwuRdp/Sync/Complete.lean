import UwuRdp.Store.Preference
import UwuRdp.Sync.Lock

/-!
# A pull that says it is complete

An honest server hands out the records of its space in order, page by page. The transport leaves
records of unknown kinds out of a page, and the engine takes a page without records for the end. So
a pull reaches the end of a space, and a move reads all of it, unless a page has nothing but unknown
kinds with records of known ones behind it.
-/

namespace UwuRdp

open Lib

/-! ## Honest servers -/

def WireRecord.number (r : WireRecord) : ℕ := r.seq.getD 0

def after (records : List WireRecord) (cursor : ℕ) : List WireRecord :=
  records.filter fun r => cursor < r.number

/-- The records behind a cursor in order, at most as many as asked for and at least one if there are
any, with the number of the last one and the word whether there are more. -/
structure HonestPage (records : List WireRecord) (since limit : ℕ) (page : SuitePull) : Prop where
  reset : page.reset = false
  front : ∃ n ≤ limit, (after records since ≠ [] → 0 < n) ∧
    page.records = (after records since).take n ∧
    (page.hasMore = true ↔ n < (after records since).length)
  cursor : page.cursor = (page.records.getLast?.map WireRecord.number).getD since

/-- A server whose account has the space, and whose answers are honest. -/
structure HonestSpace {σ : Type} (srv : SuiteServer σ) (space : Uuid) (records : List WireRecord)
    (answer : ℕ → ℕ → SuitePull) : Prop where
  ordered : records.Pairwise fun a b => a.number < b.number
  spaces : ∀ s, ∃ objects object s', srv.spaces s = (.ok objects, s') ∧
    (objects.find? fun o => o.space = spaceName) = some object ∧ object.id = space
  pages : ∀ since limit s, ∃ s', srv.records since limit s = (.ok (.done (answer since limit)), s')
  honest : ∀ since limit, 0 < limit → HonestPage records since limit (answer since limit)

section Order

variable {records l : List WireRecord} {c : ℕ}

theorem after_after (records : List WireRecord) {c d : ℕ} (h : c ≤ d) :
    after records d = after (after records c) d := by
  unfold after
  rw [List.filter_filter]
  refine List.filter_congr fun r _ => ?_
  rw [← Bool.decide_and]
  exact decide_eq_decide.mpr ⟨fun hd => ⟨hd, h.trans_lt hd⟩, fun hd => hd.1⟩

theorem after_last (hl : l.Pairwise fun a b => a.number < b.number) {n : ℕ} {r : WireRecord}
    (hr : (l.take n).getLast? = some r) : after l r.number = l.drop n := by
  have hsplit := List.take_append_drop n l
  rw [← hsplit, List.pairwise_append] at hl
  obtain ⟨hfront, -, hcross⟩ := hl
  have hmem : r ∈ l.take n := List.mem_of_getLast? hr
  have hnone : after (l.take n) r.number = [] := by
    refine List.filter_eq_nil_iff.mpr fun a ha => ?_
    rw [decide_eq_true_eq, not_lt]
    obtain ⟨ys, hys⟩ := List.getLast?_eq_some_iff.mp hr
    rw [hys, List.pairwise_append] at hfront
    rw [hys, List.mem_append, List.mem_singleton] at ha
    rcases ha with ha | rfl
    · exact (hfront.2.2 a ha r (List.mem_singleton.mpr rfl)).le
    · exact le_refl _
  have hall : after (l.drop n) r.number = l.drop n := by
    refine List.filter_eq_self.mpr fun a ha => ?_
    rw [decide_eq_true_eq]
    exact hcross r hmem a ha
  conv_lhs => rw [← hsplit]
  unfold after at hnone hall ⊢
  rw [List.filter_append, hnone, hall, List.nil_append]

theorem HonestPage.split {limit : ℕ} {page : SuitePull} (h : HonestPage records c limit page)
    (ho : records.Pairwise fun a b => a.number < b.number) : page.records ++ after records page.cursor = after records
    c ∧ (page.records ≠ [] → c < page.cursor) ∧ (page.hasMore = true ↔ after records page.cursor ≠ []) := by
  obtain ⟨n, -, hpos, hrec, hmore⟩ := h.front
  have hcur := h.cursor
  cases hlast : page.records.getLast? with
  | none =>
    have hnil : page.records = [] := List.getLast?_eq_none_iff.mp hlast
    have hafter : after records c = [] := by
      by_contra hn
      rw [hrec, List.take_eq_nil_iff] at hnil
      rcases hnil with hz | hz
      · exact absurd (hpos hn) (by omega)
      · exact hn hz
    rw [hlast] at hcur
    rw [hmore, hnil, show page.cursor = c from hcur, hafter]
    simp
  | some r =>
    rw [hlast] at hcur
    have hcur : page.cursor = r.number := hcur
    have hmem : r ∈ page.records := List.mem_of_getLast? hlast
    have hlt : c < r.number := by
      rw [hrec] at hmem
      have := List.mem_of_mem_take hmem
      rw [after, List.mem_filter, decide_eq_true_eq] at this
      exact this.2
    rw [hrec] at hlast
    have hdrop : after records page.cursor = (after records c).drop n := by
      rw [hcur, after_after records hlt.le]
      exact after_last (ho.filter _) hlast
    refine ⟨?_, fun _ => hcur ▸ hlt, ?_⟩
    · rw [hdrop, hrec, List.take_append_drop]
    · rw [hmore, hdrop, Ne, List.drop_eq_nil_iff, not_le]

end Order

/-! ## The transport on an honest server -/

section Honest

variable {σ : Type} {srv : SuiteServer σ} {space : Uuid} {records : List WireRecord}
  {answer : ℕ → ℕ → SuitePull}

def pageOf (space : Uuid) (page : SuitePull) : PullResponse :=
  ⟨page.records.filterMap (WireRecord.intoEnvelope space), page.cursor, page.hasMore⟩

/-- This device is in the space, and was not told to start over. -/
def InSpace (space : Uuid) (l : Lock σ) : Prop := l.space = some space ∧ l.reset = false

section Honest

variable (h : HonestSpace srv space records answer)

include h

theorem checkSpace_honest {l : Lock σ}
    (hl : InSpace space l) : ∃ l', Lock.checkSpace srv space l = (.ok (), l') ∧ InSpace space l' := by
  obtain ⟨objects, object, s', hs, hfind, hid⟩ := h.spaces l.server
  have hask : Lock.ask srv.spaces l = (.ok objects, { l with server := s' }) := by
    unfold Lock.ask
    rw [Act.get_bind, hs]
    rfl
  refine ⟨{ l with server := s' }, ?_, hl⟩
  unfold Lock.checkSpace
  rw [Act.bind_of_ok hask, hfind]
  simp only [hid, if_true]
  rfl

theorem callSpace_honest {l : Lock σ} (hl : InSpace space l)
    (since limit : ℕ) : ∃ l', Lock.callSpace srv space (srv.records since limit) l = (.ok (answer since limit), l') ∧
    InSpace space l' := by
  obtain ⟨s', hs⟩ := h.pages since limit l.server
  have hask : Lock.ask (srv.records since limit) l = (.ok (.done (answer since limit)), { l with server := s' }) := by
    unfold Lock.ask
    rw [Act.get_bind, hs]
    rfl
  refine ⟨{ l with server := s' }, ?_, hl⟩
  unfold Lock.callSpace
  rw [Act.bind_of_ok hask]
  rfl

theorem pull_honest {l : Lock σ} (hl : InSpace space l) (since : ℕ) : ∃ l',
    Lock.pull srv since maxBatch l = (.ok (pageOf space (answer since maxBatch)), l') ∧ InSpace space l' := by
  have hspace : Lock.spaceId l = (.ok space, l) := by
    unfold Lock.spaceId
    rw [Act.get_bind, hl.1]
    rfl
  have hreset : (answer since maxBatch).reset = false := (h.honest since maxBatch (by decide)).reset
  have htail : ∀ l₁ : Lock σ, InSpace space l₁ → ∃ l', (do
      let page ← Lock.callSpace srv space (srv.records since (min maxBatch maxBatch))
      if page.reset then do
        Lock.checkSpace srv space
        Act.modify fun l => { l with reset := true }
        pure ⟨[], since, false⟩
      else
        pure ⟨page.records.filterMap (WireRecord.intoEnvelope space), page.cursor,
          page.hasMore⟩ : Lock.Call σ PullResponse) l₁ =
        (.ok (pageOf space (answer since maxBatch)), l') ∧ InSpace space l' := by
    intro l₁ hl₁
    obtain ⟨l₂, hcall, hl₂⟩ := callSpace_honest h hl₁ since (min maxBatch maxBatch)
    refine ⟨l₂, ?_, hl₂⟩
    rw [Act.bind_of_ok hcall, min_self]
    simp only [hreset, Bool.false_eq_true, if_false]
    rfl
  unfold Lock.pull
  rw [Act.bind_of_ok hspace]
  by_cases hs : since = 0
  · obtain ⟨l₁, hcheck, hl₁⟩ := checkSpace_honest h hl
    simp only [hs, if_true]
    rw [Act.bind_of_ok hcheck]
    subst hs
    exact htail l₁ hl₁
  · simp only [hs, if_false]
    exact htail l hl

theorem answered_honest {s : PassState (Lock σ)}
    (hs : InSpace space s.server) : ∃ sv, Answered (Lock.transport srv) s (pageOf space (answer s.db.cursor maxBatch))
    false sv ∧ InSpace space sv := by
  obtain ⟨l, hpull, hl⟩ := pull_honest h hs s.db.cursor
  refine ⟨{ l with reset := false }, ⟨l, hpull, ?_⟩, hl.1, rfl⟩
  change (l.reset, _) = _
  rw [hl.2]

end Honest

end Honest

/-! ## Records nobody made up -/

variable [Platform]

/-- A record a device of the account pushed: its seal holds, and a manifest is under the id of the
device it lists for. -/
structure Genuine (vault : UnlockedVault) (env : Envelope) : Prop where
  vaultId : env.vaultId = vault.vaultId
  opens : env.kind.hasTable = true → ∃ payload, vault.openEnvelope env = some payload ∧
    (env.kind = .manifest → ∀ m, Manifest.decode payload = some m →
      env.id = Platform.manifestId env.vaultId m.device)

section Rejected

variable {device : UInt32} {vault : UnlockedVault} {env : Envelope} {db db' : Db}
  {rep : ApplyReport}

theorem insertManifest_genuine {payload : Payload}
    (hid : ∀ m, Manifest.decode payload = some m → env.id = Platform.manifestId env.vaultId m.device)
    (h : insertManifest env payload db = .ok (rep, db')) : rep.rejected = 0 := by
  unfold insertManifest at h
  cases hm : Manifest.decode payload with
  | none =>
    rw [hm] at h
    obtain ⟨rfl, -⟩ := Tx.pure_eq_ok.mp h
    rfl
  | some m =>
    rw [hm] at h
    simp only [hid m hm, ne_eq, not_true_eq_false, if_false] at h
    obtain ⟨_, _, -, h⟩ := Tx.bind_eq_ok.mp h
    obtain ⟨rfl, -⟩ := Tx.pure_eq_ok.mp h
    rfl

theorem applyOne_genuine (hg : Genuine vault env)
    (h : applyOne device vault env db = .ok (rep, db')) : rep.rejected = 0 := by
  by_cases ht : env.kind.hasTable = true
  swap
  · unfold applyOne at h
    rw [if_neg (not_not.mpr hg.vaultId), if_pos (by simpa using ht)] at h
    obtain ⟨rfl, -⟩ := Tx.pure_eq_ok.mp h
    rfl
  obtain ⟨payload, hp, hid⟩ := hg.opens ht
  cases applyOne_cases h with
  | foreign hf => exact absurd ⟨hg.vaultId, ht, hp⟩ (hf payload)
  | noTable hn | absent | identical | kept | tombstoned => rfl
  | inserted payload' ho _ _ _ _ hi =>
    have he : payload' = payload := Option.some.inj (ho.2.2.symm.trans hp)
    subst he
    by_cases hm : env.kind = .manifest
    · refine @insertManifest_genuine _ _ db db' _ _ (hid hm) ?_
      rw [← hi]
      unfold insertRecord
      rw [hm]
    · rcases insertRecord_spec hi with ⟨-, hk⟩ | ⟨-, hr, -⟩ | ⟨-, hr, -⟩
      · rcases hk with hk | hk
        · exact absurd hk hm
        · rw [ht] at hk
          cases hk
      · exact hr
      · exact hr

theorem applyAll_genuine {order : List Envelope} {newest : Option Hlc} {out : ApplyReport × Option Hlc}
    (hg : ∀ e ∈ order, Genuine vault e) (h : applyAll device vault order rep newest db = .ok (out, db')) :
    out.1.rejected = rep.rejected := by
  induction order generalizing rep newest db with
  | nil =>
    cases h
    rfl
  | cons env order ih =>
    unfold applyAll at h
    obtain ⟨o, db₁, hone, hrest⟩ := Tx.bind_eq_ok.mp h
    have ho := applyOne_genuine (hg env List.mem_cons_self) hone
    rw [ih (fun e he => hg e (List.mem_cons_of_mem env he)) hrest]
    split
    · rfl
    · rw [ApplyReport.add, ho, Nat.add_zero]

theorem applyEnvelopes_genuine {now : UInt64} {envs : List Envelope} (hg : ∀ e ∈ envs, Genuine vault e)
    (h : applyEnvelopes device (some vault) now envs db = .ok (rep, db')) : rep.rejected = 0 := by
  unfold applyEnvelopes at h
  split at h
  · obtain ⟨rfl, -⟩ := Tx.pure_eq_ok.mp h
    rfl
  · obtain ⟨out, db₁, hall, h⟩ := Tx.bind_eq_ok.mp h
    obtain ⟨_, _, -, h⟩ := Tx.bind_eq_ok.mp h
    obtain ⟨rfl, -⟩ := Tx.pure_eq_ok.mp h
    refine (applyAll_genuine (fun e he => hg e ?_) hall).trans rfl
    rwa [applySort, List.mem_insertionSort] at he

end Rejected

/-! ## To the end -/

section Complete

variable {σ : Type} {srv : SuiteServer σ} {space : Uuid} {records : List WireRecord}
  {answer : ℕ → ℕ → SuitePull} {vault : UnlockedVault}

/-- The envelopes of the records of known kinds behind a cursor. -/
def offered (space : Uuid) (records : List WireRecord) (cursor : ℕ) : List Envelope :=
  (after records cursor).filterMap (WireRecord.intoEnvelope space)

/-- A space of authentic records: base64, sealed for the space, some of kinds this build does not
know. -/
structure AuthenticSpace (vault : UnlockedVault) (space : Uuid) (records : List WireRecord) :
    Prop where
  vaultId : vault.vaultId = space
  base64 : ∀ r ∈ records, r.blob.isSome
  genuine : ∀ r ∈ records, ∀ env, r.intoEnvelope space = some env → Genuine vault env

/-- A pull that says it is complete handed the store every record of a known kind behind its cursor,
once and in order, and its cursor is past the last of them; and a move reads all of them. -/
structure PullsEverything (srv : SuiteServer σ) (space : Uuid) (records : List WireRecord)
    (vault : UnlockedVault) : Prop where
  pulled : ∀ (cx : Session) (s s' : PassState (Lock σ)), cx.vault = some vault →
    InSpace space s.server → Engine.pullAll cx (Lock.transport srv) s = (.ok true, s') →
    ∃ pages, PullRun cx (Lock.transport srv) maxPages s pages true s' ∧
      pages.flatten = offered space records s.db.cursor ∧
      ∀ r ∈ after records s.db.cursor, (kindOf r.kind).isSome → r.number ≤ s'.db.cursor
  read : ∀ {τ : Type} (each : τ → Envelope → Except LockError τ) (l : Lock σ) (acc acc' : τ),
    InSpace space l → eachRecord (Lock.transport srv) each maxPages 0 l acc = .ok acc' →
    (offered space records 0).foldlM each acc = .ok acc'

/-- No page of nothing but unknown kinds has a record of a known one behind it. -/
def NoBlindPage (records : List WireRecord) (answer : ℕ → ℕ → SuitePull) : Prop :=
  ∀ cursor, (∀ r ∈ (answer cursor maxBatch).records, kindOf r.kind = none) →
    ∀ r ∈ after records cursor, kindOf r.kind = none

variable {r : WireRecord} {cx : Session} {n : ℕ}

omit [Platform] in
theorem intoEnvelope_eq_none (hb : r.blob.isSome) : r.intoEnvelope space = none ↔ kindOf r.kind = none := by
  obtain ⟨blob, hblob⟩ := Option.isSome_iff_exists.mp hb
  unfold WireRecord.intoEnvelope
  rw [hblob]
  cases kindOf r.kind <;> simp

omit [Platform] in
theorem filterMap_eq_nil_iff {l : List WireRecord} (hb : ∀ r ∈ l, r.blob.isSome) :
    l.filterMap (WireRecord.intoEnvelope space) = [] ↔ ∀ r ∈ l, kindOf r.kind = none := by
  rw [List.filterMap_eq_nil_iff]
  exact forall₂_congr fun r hr => intoEnvelope_eq_none (hb r hr)

omit [Platform] in
theorem mem_of_mem_after {c : ℕ} (h : r ∈ after records c) : r ∈ records :=
  List.mem_of_mem_filter h

omit [Platform] in
theorem mem_of_mem_page {c : ℕ} (h : HonestSpace srv space records answer)
    (hr : r ∈ (answer c maxBatch).records) : r ∈ after records c := by
  rw [← ((h.honest c maxBatch (by decide)).split h.ordered).1]
  exact List.mem_append_left _ hr

variable {t : Transport σ} {s : PassState σ} {page : PullResponse} {sv : σ} {pages : List (List Envelope)}
  {b : Bool}

omit [Platform] in
theorem Answered.unique {page' : PullResponse} {reset reset' : Bool} {sv' : σ} (h : Answered t s page reset sv)
    (h' : Answered t s page' reset' sv') : page' = page ∧ reset' = reset ∧ sv' = sv := by
  obtain ⟨sv₀, hp, hr⟩ := h
  obtain ⟨sv₁, hp', hr'⟩ := h'
  rw [hp] at hp'
  cases hp'
  rw [hr] at hr'
  cases hr'
  exact ⟨rfl, rfl, rfl⟩

omit [Platform] in
theorem offered_split (h : HonestSpace srv space records answer) (c : ℕ) :
    (pageOf space (answer c maxBatch)).envelopes ++ offered space records (answer c maxBatch).cursor = offered space
    records c := by
  unfold offered pageOf
  rw [← List.filterMap_append, ((h.honest c maxBatch (by decide)).split h.ordered).1]

omit [Platform] in
theorem offered_of_empty (h : HonestSpace srv space records answer) (ha : ∀ r ∈ records, r.blob.isSome)
    (hb : NoBlindPage records answer) {c : ℕ} (he : (pageOf space (answer c maxBatch)).envelopes = []) : ∀ r ∈ after
    records c, kindOf r.kind = none :=
  hb c ((filterMap_eq_nil_iff fun r hr => ha r (mem_of_mem_after (mem_of_mem_page h hr))).mp he)

theorem movesOn_honest {c : ℕ} {now : UInt64} {db db' : Db} {applied : ApplyReport}
    (h : HonestSpace srv space records answer) (ha : AuthenticSpace vault space records)
    (hcx : cx.vault = some vault) (he : (pageOf space (answer c maxBatch)).envelopes ≠ [])
    (happ : applyEnvelopes cx.device cx.vault now (pageOf space (answer c maxBatch)).envelopes db =
      .ok (applied, db')) : MovesOn c (pageOf space (answer c maxBatch)) applied := by
  have hgen : ∀ e ∈ (pageOf space (answer c maxBatch)).envelopes, Genuine vault e := by
    intro e hm
    obtain ⟨r, hr, hre⟩ := List.mem_filterMap.mp hm
    exact ha.genuine r (mem_of_mem_after (mem_of_mem_page h hr)) e hre
  rw [hcx] at happ
  refine ⟨?_, ((h.honest c maxBatch (by decide)).split h.ordered).2.1 fun hn => he ?_⟩
  · rw [applyEnvelopes_genuine hgen happ]
    exact fun hz => he (List.length_eq_zero_iff.mp hz.symm)
  · rw [pageOf, hn]
    rfl

theorem PullRun.complete {s s' : PassState (Lock σ)} (h : HonestSpace srv space records answer)
    (ha : AuthenticSpace vault space records) (hb : NoBlindPage records answer) (hcx : cx.vault = some vault)
    (hs : InSpace space s.server) (hrun : PullRun cx (Lock.transport srv) n s pages b s') (hend : b = true) :
    s.db.cursor ≤ s'.db.cursor ∧ pages.flatten = offered space records s.db.cursor ∧ ∀ r ∈ after records s.db.cursor,
    (kindOf r.kind).isSome → r.number ≤ s'.db.cursor := by
  induction hrun with
  | limit => cases hend
  | noSense hans | again hans =>
    obtain ⟨sv, hans', -⟩ := answered_honest h hs
    cases (hans'.unique hans).2.1
  | @empty n s page sv hans he =>
    obtain ⟨sv', hans', -⟩ := answered_honest h hs
    obtain ⟨rfl, -, -⟩ := hans'.unique hans
    have hnone := offered_of_empty h ha.base64 hb he
    refine ⟨le_refl _, ?_, fun r hr hk => ?_⟩
    · rw [offered, (filterMap_eq_nil_iff fun r hr => ha.base64 r (mem_of_mem_after hr)).mpr hnone]
      rfl
    · rw [hnone r hr] at hk
      cases hk
  | @stay n s page sv applied db' hans he happ hm =>
    obtain ⟨sv', hans', -⟩ := answered_honest h hs
    obtain ⟨rfl, -, -⟩ := hans'.unique hans
    exact absurd (movesOn_honest h ha hcx he happ) hm
  | @last n s page sv applied db' hans he happ hm hl =>
    obtain ⟨sv', hans', -⟩ := answered_honest h hs
    obtain ⟨rfl, -, -⟩ := hans'.unique hans
    obtain ⟨hsplit, -, hmore⟩ := (h.honest s.db.cursor maxBatch (by decide)).split h.ordered
    have hnone : after records (answer s.db.cursor maxBatch).cursor = [] := by
      by_contra hn
      have hl : (answer s.db.cursor maxBatch).hasMore = false := hl
      rw [hmore.mpr hn] at hl
      cases hl
    refine ⟨hm.2.le, ?_, fun r hr _ => ?_⟩
    · have := @offered_split _ _ space _ _ h s.db.cursor
      rw [offered, hnone, List.filterMap_nil, List.append_nil] at this
      rw [List.flatten_cons, List.flatten_nil, List.append_nil, this]
    · by_contra hlt
      have : r ∈ after records (answer s.db.cursor maxBatch).cursor :=
        List.mem_filter.mpr ⟨mem_of_mem_after hr, decide_eq_true (not_le.mp hlt)⟩
      rw [hnone] at this
      cases this
  | @more n s s' page sv applied db' pages b hans he happ hm hl hrest ih =>
    obtain ⟨sv', hans', hsv⟩ := answered_honest h hs
    obtain ⟨rfl, -, rfl⟩ := hans'.unique hans
    obtain ⟨hle, hflat, hcur⟩ := ih hsv hend
    have hle : (answer s.db.cursor maxBatch).cursor ≤ s'.db.cursor := hle
    have hflat : pages.flatten = offered space records (answer s.db.cursor maxBatch).cursor := hflat
    refine ⟨hm.2.le.trans hle, ?_, fun r hr hk => ?_⟩
    · rw [List.flatten_cons, hflat, offered_split h]
    · by_cases hlt : (answer s.db.cursor maxBatch).cursor < r.number
      · exact hcur r (List.mem_filter.mpr ⟨mem_of_mem_after hr, decide_eq_true hlt⟩) hk
      · exact (not_lt.mp hlt).trans hle

omit [Platform] in
theorem eachRecord_complete {τ : Type} (h : HonestSpace srv space records answer) (ha : ∀ r ∈ records, r.blob.isSome)
    (hb : NoBlindPage records answer) (each : τ → Envelope → Except LockError τ) {c : ℕ} {l : Lock σ} {acc acc' : τ}
    (hl : InSpace space l) (hok : eachRecord (Lock.transport srv) each n c l acc = .ok acc') :
    (offered space records c).foldlM each acc = .ok acc' := by
  induction n generalizing c l acc with
  | zero => cases hok
  | succ n ih =>
    obtain ⟨l₁, hpull, hl₁⟩ := pull_honest h hl c
    have hpull : (Lock.transport srv).pull c maxBatch l = (.ok (pageOf space (answer c maxBatch)), l₁) := hpull
    have hreset : (Lock.transport srv).takeReset l₁ = (false, { l₁ with reset := false }) := by
      change (l₁.reset, _) = _
      rw [hl₁.2]
    unfold eachRecord at hok
    simp only [hpull, hreset, Bool.false_eq_true, if_false] at hok
    rw [← offered_split h, List.foldlM_append]
    cases hfold : (pageOf space (answer c maxBatch)).envelopes.foldlM each acc with
    | error e =>
      simp only [hfold] at hok
      cases hok
    | ok acc₁ =>
      simp only [hfold] at hok
      change (offered space records (answer c maxBatch).cursor).foldlM each acc₁ = _
      by_cases he : (pageOf space (answer c maxBatch)).envelopes = []
      · rw [he] at hok
        cases hok
        have hnone := offered_of_empty h ha hb he
        have hempty : offered space records c = [] :=
          (filterMap_eq_nil_iff fun r hr => ha r (mem_of_mem_after hr)).mpr hnone
        rw [← offered_split h, he, List.nil_append] at hempty
        rw [hempty]
        rfl
      have hisEmpty : (pageOf space (answer c maxBatch)).envelopes.isEmpty = false := List.isEmpty_eq_false_iff.mpr he
      obtain ⟨-, -, hmore⟩ := (h.honest c maxBatch (by decide)).split h.ordered
      cases hm : (answer c maxBatch).hasMore with
      | false =>
        have hdone : (pageOf space (answer c maxBatch)).hasMore = false := hm
        simp only [hisEmpty, hdone, Bool.not_false, Bool.or_true, if_true] at hok
        have hnil : after records (answer c maxBatch).cursor = [] := by
          by_contra hn
          rw [hmore.mpr hn] at hm
          cases hm
        rw [offered, hnil]
        exact hok
      | true =>
        have hdone : (pageOf space (answer c maxBatch)).hasMore = true := hm
        simp only [hisEmpty, hdone, Bool.not_true, Bool.or_false, Bool.false_eq_true, if_false] at hok
        split at hok
        · cases hok
        · exact ih (l := { l₁ with reset := false }) ⟨hl₁.1, rfl⟩ hok

theorem pullsEverything_of_noBlindPage (h : HonestSpace srv space records answer)
    (ha : AuthenticSpace vault space records) (hb : NoBlindPage records answer) :
    PullsEverything srv space records vault := by
  refine ⟨fun cx s s' hcx hs hok => ?_, fun each l acc acc' hl hok => ?_⟩
  · obtain ⟨pages, hrun⟩ := Engine.pullPages_run hok
    exact ⟨pages, hrun, (hrun.complete h ha hb hcx hs rfl).2⟩
  · exact eachRecord_complete h ha.base64 hb each hl hok

theorem PullRun.pages_of_empty {s' : PassState σ} (h : PullRun cx t n s pages b s') (hans : Answered t s page false sv)
    (he : page.envelopes = []) : pages = [] := by
  cases h with
  | limit | noSense => rfl
  | again hans' => cases (hans.unique hans').2.1
  | empty => rfl
  | stay hans' hne | last hans' hne | more hans' hne => exact absurd ((hans.unique hans').1 ▸ he) hne

theorem noBlindPage_of_pullsEverything [Inhabited σ] (h : HonestSpace srv space records answer)
    (ha : AuthenticSpace vault space records) (hp : PullsEverything srv space records vault) :
    NoBlindPage records answer := by
  intro c hc
  have hempty : (pageOf space (answer c maxBatch)).envelopes = [] := (filterMap_eq_nil_iff fun r hr =>
      ha.base64 r (mem_of_mem_after (mem_of_mem_page h hr))).mpr hc
  let cx : Session := ⟨0, some vault, fun _ => 0, fun n => n⟩
  let s : PassState (Lock σ) :=
    .start { Db.fresh space with cursor := c } ⟨some space, false, default⟩
  obtain ⟨sv, hans, -⟩ := answered_honest h (s := s) ⟨rfl, rfl⟩
  have hrun : PullRun cx (Lock.transport srv) maxPages s [] true (s.heard sv) := .empty (n := 999) hans hempty
  obtain ⟨pages, hrun', hflat, -⟩ := hp.pulled cx s _ rfl ⟨rfl, rfl⟩ (Engine.pullPages_of_run hrun)
  -- The first page is empty, so nothing was handed over.
  rw [hrun'.pages_of_empty hans hempty, List.flatten_nil] at hflat
  exact (filterMap_eq_nil_iff fun r hr => ha.base64 r (mem_of_mem_after hr)).mp hflat.symm

/-- **Pulling from an honest server, and moving to it, come to everything exactly when no page of
nothing but unknown kinds has a record of a known one behind it.** -/
theorem pullsEverything_iff [Inhabited σ] (h : HonestSpace srv space records answer)
    (ha : AuthenticSpace vault space records) :
    PullsEverything srv space records vault ↔ NoBlindPage records answer :=
  ⟨noBlindPage_of_pullsEverything h ha, pullsEverything_of_noBlindPage h ha⟩

end Complete

/-! ## A server of full pages -/

section FullPages

def fullPage (records : List WireRecord) (since limit : ℕ) : SuitePull where
  reset := false
  records := (after records since).take limit
  cursor := (((after records since).take limit).getLast?.map WireRecord.number).getD since
  hasMore := limit < (after records since).length

/-- A server that hands out full pages of a space that does not change. -/
def fullServer (space : Uuid) (records : List WireRecord) : SuiteServer Unit where
  spaces _ := (.ok [⟨spaceName, space⟩], ())
  records since limit _ := (.ok (.done (fullPage records since limit)), ())
  push _ _ _ := (.error .refused, ())

omit [Platform] in
theorem honestSpace_fullServer (space : Uuid) {records : List WireRecord}
    (ho : records.Pairwise fun a b => a.number < b.number) :
    HonestSpace (fullServer space records) space records (fullPage records) where
  ordered := ho
  spaces _ := ⟨_, _, (), rfl, rfl, rfl⟩
  pages _ _ _ := ⟨(), rfl⟩
  honest _ limit hl :=
    ⟨rfl, ⟨limit, le_refl _, fun _ => hl, rfl, decide_eq_true_iff⟩, rfl⟩

def newerKind (seq : ℕ) : WireRecord :=
  { WireRecord.fromEnvelope (sealedAt 900 6 .group false (groupOf "a") seq) with
    kind := "tunnel".toList }

def knownKind (seq : ℕ) : WireRecord :=
  WireRecord.fromEnvelope (sealedAt 900 6 .group false (groupOf "a") seq)

omit [Platform] in
theorem intoEnvelope_newerKind (seq : ℕ) : (newerKind seq).intoEnvelope 1 = none := rfl

theorem genuine_knownKind {seq : ℕ} {env : Envelope}
    (h : (knownKind seq).intoEnvelope 1 = some env) : Genuine ⟨1, 7⟩ env := by
  have he : env = sealedAt 900 6 .group false (groupOf "a") seq := (Option.some.inj h).symm
  subst he
  refine ⟨rfl, fun _ => ⟨groupOf "a", rfl, nofun⟩⟩

theorem authenticSpace_of {records : List WireRecord}
    (h : ∀ r ∈ records, ∃ seq, r = newerKind seq ∨ r = knownKind seq) : AuthenticSpace ⟨1, 7⟩ 1 records := by
  refine ⟨rfl, fun r hr => ?_, fun r hr env he => ?_⟩
  · obtain ⟨seq, rfl | rfl⟩ := h r hr <;> rfl
  · obtain ⟨seq, rfl | rfl⟩ := h r hr
    · rw [intoEnvelope_newerKind] at he
      cases he
    · exact genuine_knownKind he

omit [Platform] in
/-- A record of an unknown kind on a page with a known one does no harm. -/
theorem pullsEverything_mixed :
    letI := asciiPlatform
    PullsEverything (fullServer 1 [newerKind 1, knownKind 2]) 1 [newerKind 1, knownKind 2]
      ⟨1, 7⟩ := by
  let _ := asciiPlatform
  have ho : [newerKind 1, knownKind 2].Pairwise fun a b => a.number < b.number := by decide
  refine (pullsEverything_iff (honestSpace_fullServer 1 ho) (authenticSpace_of ?_)).mpr ?_
  · intro r hr
    rcases List.mem_cons.mp hr with rfl | hr
    · exact ⟨1, .inl rfl⟩
    · exact ⟨2, Or.inr (List.mem_singleton.mp hr)⟩
  · intro c hc r hr
    refine hc r ?_
    change r ∈ (after _ c).take maxBatch
    rw [List.take_of_length_le]
    · exact hr
    · exact (List.length_filter_le _ _).trans (by decide)

/-- Five hundred records of an unknown kind, and a group behind them. -/
def hiddenGroup : List WireRecord := (List.range 500).map (fun n => newerKind (n + 1)) ++ [knownKind 501]

omit [Platform] in
theorem ordered_hiddenGroup : hiddenGroup.Pairwise fun a b => a.number < b.number := by
  refine List.pairwise_append.mpr ⟨?_, List.pairwise_singleton _ _, fun a ha b hb => ?_⟩
  · exact List.pairwise_map.mpr (List.pairwise_lt_range.imp fun h => Nat.succ_lt_succ h)
  · obtain ⟨n, hn, rfl⟩ := List.mem_map.mp ha
    rw [List.mem_singleton.mp hb]
    exact Nat.succ_lt_succ (List.mem_range.mp hn)

omit [Platform] in
/-- The pull stops at the first page, which has none of a known kind, and the group does not
arrive. -/
theorem group_hidden :
    letI := asciiPlatform
    ¬∀ (srv : SuiteServer Unit) (space : Uuid) (records : List WireRecord)
      (answer : ℕ → ℕ → SuitePull) (vault : UnlockedVault), HonestSpace srv space records answer →
      AuthenticSpace vault space records → PullsEverything srv space records vault := by
  let _ := asciiPlatform
  intro hall
  have hauth : AuthenticSpace ⟨1, 7⟩ 1 hiddenGroup := by
    refine authenticSpace_of fun r hr => ?_
    rcases List.mem_append.mp hr with hr | hr
    · obtain ⟨n, -, rfl⟩ := List.mem_map.mp hr
      exact ⟨n + 1, .inl rfl⟩
    · exact ⟨501, Or.inr (List.mem_singleton.mp hr)⟩
  have hhonest := honestSpace_fullServer 1 ordered_hiddenGroup
  have hblind := noBlindPage_of_pullsEverything hhonest hauth (hall _ 1 _ _ ⟨1, 7⟩ hhonest hauth)
  have hafter : after hiddenGroup 0 = hiddenGroup := by
    refine List.filter_eq_self.mpr fun r hr => ?_
    rcases List.mem_append.mp hr with hr | hr
    · obtain ⟨n, -, rfl⟩ := List.mem_map.mp hr
      exact decide_eq_true (Nat.succ_pos n)
    · rw [List.mem_singleton.mp hr]
      rfl
  have hpage : (fullPage hiddenGroup 0 maxBatch).records = (List.range 500).map fun n => newerKind (n + 1) := by
    unfold fullPage
    rw [hafter, hiddenGroup, List.take_left']
    rw [List.length_map, List.length_range, maxBatch]
  have hnone := hblind 0 (fun r hr => by
    rw [hpage] at hr
    obtain ⟨n, -, rfl⟩ := List.mem_map.mp hr
    rfl) (knownKind 501) (by
      rw [hafter]
      exact List.mem_append_right _ (List.mem_singleton.mpr rfl))
  rw [show kindOf (knownKind 501).kind = some .group from kindOf_kindName .group] at hnone
  cases hnone

end FullPages

end UwuRdp
