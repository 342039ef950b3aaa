import UwuRdp.Lib.Sort
import UwuRdp.Lib.Window
import UwuRdp.Sync.Memory
import UwuRdp.Sync.Termination

/-!
# Rows nobody gets to

The outbox looks at the first dirty rows of each kind, as many as a request has room for, and leaves
out those that cannot be read or are too large only after that. Such rows stay dirty, so they take up
their room in every request: a row that could be pushed is, unless as many of them stand before it as
the window is wide (`outbox_window`, `pushPasses_drained`).
-/

namespace UwuRdp

open Lib

variable {db db' db₁ : Db} {vault : UnlockedVault} {k : EntityKind} {limit : ℕ}

/-! ## What a request takes -/

/-- A row that can be sealed within the protocol's limit. -/
def seals (vault : UnlockedVault) (k : EntityKind) (x : Uuid × Row (Body k)) : Bool :=
  (pendingOf vault k x.1 x.2).any fun p => (p.envelope vault).blob.len ≤ maxBlobBytes

variable {x : Uuid × Row (Body k)}

theorem seals_eq_true : seals vault k x = true ↔
    ∃ p, pendingOf vault k x.1 x.2 = some p ∧ (p.envelope vault).blob.len ≤ maxBlobBytes := by
  rw [seals, Option.any_eq_true]
  simp only [decide_eq_true_eq]

theorem addRows_eq_nil {b : Batch} {rows : List Pending} :
    (b.addRows vault rows).1.envelopes = [] ↔
      b.envelopes = [] ∧ ∀ p ∈ rows, maxBlobBytes < (p.envelope vault).blob.len := by
  induction rows generalizing b with
  | nil => exact ⟨fun h => ⟨h, fun p hp => absurd hp List.not_mem_nil⟩, fun h => h.1⟩
  | cons p rest ih =>
    rw [List.forall_mem_cons]
    unfold Batch.addRows
    simp only
    split
    · next hlarge =>
      rw [ih]
      exact ⟨fun h => ⟨h.1, hlarge, h.2⟩, fun h => ⟨h.1, h.2.2⟩⟩
    · next hfits =>
      have hno : ¬(b.envelopes = [] ∧ maxBlobBytes < (p.envelope vault).blob.len ∧
          ∀ p ∈ rest, maxBlobBytes < (p.envelope vault).blob.len) := fun h => hfits h.2.1
      split
      · next hfull => exact iff_of_false hfull.1 hno
      · rw [ih]
        exact iff_of_false (fun h => List.append_ne_nil_of_right_ne_nil _ (List.cons_ne_nil _ _) h.1) hno

theorem addRows_stops {b : Batch} {rows : List Pending} (h : (b.addRows vault rows).2 = true) :
    (b.addRows vault rows).1.envelopes ≠ [] := by
  induction rows generalizing b with
  | nil => cases h
  | cons p rest ih =>
    unfold Batch.addRows at h ⊢
    simp only at h ⊢
    split at h <;> rename_i hlarge
    · rw [if_pos hlarge]
      exact ih h
    · rw [if_neg hlarge]
      split at h <;> rename_i hfull
      · rw [if_pos hfull]
        exact hfull.1
      · rw [if_neg hfull]
        exact ih h

theorem pendingRows_too_large : (∀ p ∈ (pendingRows db vault k limit).1, maxBlobBytes < (p.envelope vault).blob.len) ↔
    ∀ x ∈ (dirtyRows db k).take limit, seals vault k x = false := by
  constructor
  · intro h x hx
    rw [Bool.eq_false_iff]
    intro hs
    obtain ⟨p, hp, hle⟩ := seals_eq_true.mp hs
    have hlt := h p (List.mem_filterMap.mpr ⟨x, hx, hp⟩)
    omega
  · intro h p hp
    obtain ⟨x, hx, hpend⟩ := List.mem_filterMap.mp hp
    by_contra hle
    have hs : seals vault k x = true := seals_eq_true.mpr ⟨p, hpend, Nat.not_lt.mp hle⟩
    rw [h x hx] at hs
    cases hs

theorem addKinds_eq_nil (hl : 1 ≤ limit) {b : Batch} {kinds : List EntityKind} :
    (b.addKinds db vault limit kinds).envelopes = [] ↔ b.envelopes = [] ∧ ∀ k ∈ kinds, ∀ x ∈ (dirtyRows db k).take
    limit, seals vault k x = false := by
  induction kinds generalizing b with
  | nil => exact ⟨fun h => ⟨h, fun k hk => absurd hk List.not_mem_nil⟩, fun h => h.1⟩
  | cons k ks ih =>
    rw [List.forall_mem_cons]
    unfold Batch.addKinds
    simp only
    split
    · next hfull =>
      have hne : b.envelopes ≠ [] := by
        rintro hnil
        rw [hnil, List.length_nil] at hfull
        omega
      exact iff_of_false hne fun h => hne h.1
    · have hnil : (Batch.addRows vault { b with leftOut := b.leftOut + (pendingRows db vault k
          (limit - b.envelopes.length)).2 } (pendingRows db vault k
          (limit - b.envelopes.length)).1).1.envelopes = [] ↔ b.envelopes = [] ∧
            ∀ x ∈ (dirtyRows db k).take limit, seals vault k x = false := by
        rw [addRows_eq_nil]
        apply and_congr_right
        intro hb
        have hempty : b.envelopes = [] := hb
        rw [hempty, List.length_nil, Nat.sub_zero]
        exact pendingRows_too_large
      split
      · next hstop =>
        have hne := addRows_stops hstop
        refine iff_of_false hne ?_
        rintro ⟨hb, hk, -⟩
        exact hne (hnil.mpr ⟨hb, hk⟩)
      · rw [ih, hnil, and_assoc]

/-- Fewer than `limit` dirty rows of its kind that cannot be sealed stand before a row. -/
def InWindow (db : Db) (vault : UnlockedVault) (k : EntityKind) (limit : ℕ)
    (x : Uuid × Row (Body k)) : Prop :=
  InReach (seals vault k) limit (dirtyRows db k) x

/-- **What the outbox offers.** A request is empty exactly if no dirty row that can be sealed has
fewer than `limit` before it that cannot. -/
theorem outbox_nil_iff (hl : 1 ≤ limit) : (Batch.addKinds db vault limit ⟨[], 0, 0⟩ syncedKinds).envelopes = [] ↔ ∀ k
    ∈ syncedKinds, ∀ x, seals vault k x = true → ¬InWindow db vault k limit x := by
  rw [addKinds_eq_nil hl]
  refine (and_iff_right rfl).trans (forall₂_congr fun k _ => ?_)
  have hwindow := exists_mem_take_iff (p := seals vault k) (n := limit) (l := dirtyRows db k)
  constructor
  · intro h x hs hx
    obtain ⟨y, hy, hp⟩ := hwindow.mpr ⟨x, hs, hx⟩
    rw [h y hy] at hp
    cases hp
  · intro h x hx
    rw [Bool.eq_false_iff]
    intro hs
    exact h x hs (inReach_of_mem_take hx)

/-! ## What a pass leaves -/

theorem dirtyRows_markOne (p : Pushed) : dirtyRows (markOne db p) k =
    (dirtyRows db k).filter fun x => !(decide (p.kind = k ∧ p.id = x.1 ∧ x.2.hlc = p.updatedAt)) := by
  have hsort : ∀ (l : List (Uuid × Row (Body k))) (q : Uuid × Row (Body k) → Bool),
      (l.insertionSort fun a b => toLex (signed a.2.hlc.wallMs, a.2.hlc.counter.toNat) ≤
        toLex (signed b.2.hlc.wallMs, b.2.hlc.counter.toNat)).filter q =
      (l.filter q).insertionSort fun a b => toLex (signed a.2.hlc.wallMs, a.2.hlc.counter.toNat) ≤
        toLex (signed b.2.hlc.wallMs, b.2.hlc.counter.toNat) := by
    intro l q
    have : IsTrans (Uuid × Row (Body k)) fun a b =>
        toLex (signed a.2.hlc.wallMs, a.2.hlc.counter.toNat) ≤
          toLex (signed b.2.hlc.wallMs, b.2.hlc.counter.toNat) := ⟨fun _ _ _ => le_trans⟩
    have : Std.Total fun a b : Uuid × Row (Body k) =>
        toLex (signed a.2.hlc.wallMs, a.2.hlc.counter.toNat) ≤
          toLex (signed b.2.hlc.wallMs, b.2.hlc.counter.toNat) := ⟨fun _ _ => le_total _ _⟩
    exact filter_insertionSort l
  rw [dirtyRows, dirtyRows, hsort]
  congr 1
  by_cases hk : p.kind = k
  · subst hk
    rw [markOne, Db.setTable_rows_self]
    rw [@Table.select_modify _ _ _ _ _ _ _ (fun r => decide (r.hlc = p.updatedAt))]
    · apply List.filter_congr
      intro x _
      simp [eq_comm]
    · intro r hr
      rw [if_pos (of_decide_eq_true hr)]
    · intro r hr
      rw [if_neg (of_decide_eq_false hr)]
  · rw [markOne, Db.setTable_rows_ne _ (Ne.symm hk)]
    symm
    apply List.filter_eq_self.mpr
    intro x _
    simp [hk]

def marked (ps : List Pushed) (k : EntityKind) (x : Uuid × Row (Body k)) : Bool :=
  ps.any fun p => decide (p.kind = k ∧ p.id = x.1 ∧ x.2.hlc = p.updatedAt)

theorem dirtyRows_markPushed (ps : List Pushed) : dirtyRows (markPushed db ps).1 k =
    (dirtyRows db k).filter fun x => !marked ps k x := by
  induction ps generalizing db with
  | nil => exact (List.filter_eq_self.mpr fun _ _ => rfl).symm
  | cons p ps ih =>
    rw [markPushed, ih, dirtyRows_markOne, List.filter_filter]
    apply List.filter_congr
    intro x _
    show (!marked ps k x && !_) = !(_ || marked ps k x)
    rw [Bool.not_or, Bool.and_comm]

/-- What pushing may do to the rows that wait: those that are gone could be sealed and were in the
window, the others stand as they stood. -/
structure Pruned (vault : UnlockedVault) (db db' : Db) : Prop where
  rows : ∀ k, ∃ keep : Uuid × Row (Body k) → Bool,
    dirtyRows db' k = (dirtyRows db k).filter keep ∧ ∀ x ∈ dirtyRows db k, keep x = false →
      seals vault k x = true ∧ InWindow db vault k maxBatch x
  version : ∀ k id h, db.head k id = some h → ∃ h', db'.head k id = some h' ∧ h'.version = h.version

theorem Pruned.refl (vault : UnlockedVault) (db : Db) : Pruned vault db db where
  rows _ := ⟨fun _ => true, (List.filter_eq_self.mpr fun _ _ => rfl).symm, fun _ _ h => nomatch h⟩
  version _ _ h hh := ⟨h, hh, rfl⟩

theorem inWindow_filter {keep : Uuid × Row (Body k) → Bool} (hdirty : dirtyRows db' k = (dirtyRows db k).filter keep)
    (hkeep : ∀ x ∈ dirtyRows db k, keep x = false → seals vault k x = true ∧ InWindow db vault k maxBatch x) : InWindow db' vault k maxBatch x ↔ keep x = true ∧ InWindow db vault k maxBatch x := by
  unfold InWindow
  rw [hdirty]
  apply inReach_filter
  intro y hy hseal
  by_contra hgone
  rw [(hkeep y hy (Bool.eq_false_iff.mpr hgone)).1] at hseal
  cases hseal

theorem Pruned.trans (h : Pruned vault db db₁) (h' : Pruned vault db₁ db') :
    Pruned vault db db' where
  rows k := by
    obtain ⟨keep, hdirty, hkeep⟩ := h.rows k
    obtain ⟨keep', hdirty', hkeep'⟩ := h'.rows k
    refine ⟨fun x => keep' x && keep x, ?_, ?_⟩
    · rw [hdirty', hdirty, List.filter_filter]
    · intro x hx hgone
      by_cases hk : keep x = true
      · have hx₁ : x ∈ dirtyRows db₁ k := hdirty ▸ List.mem_filter.mpr ⟨hx, hk⟩
        replace hgone : (keep' x && keep x) = false := hgone
        rw [hk, Bool.and_true] at hgone
        obtain ⟨hs, hw⟩ := hkeep' x hx₁ hgone
        exact ⟨hs, ((inWindow_filter hdirty hkeep).mp hw).2⟩
      · exact hkeep x hx (Bool.eq_false_iff.mpr hk)
  version k id hd hh := by
    obtain ⟨h₁, hh₁, hv₁⟩ := h.version k id hd hh
    obtain ⟨h₂, hh₂, hv₂⟩ := h'.version k id h₁ hh₁
    exact ⟨h₂, hh₂, hv₂.trans hv₁⟩

/-- Nothing that waits is in the window and can be sealed. -/
def Drained (vault : UnlockedVault) (db : Db) : Prop :=
  ∀ k ∈ syncedKinds, ∀ x, seals vault k x = true → ¬InWindow db vault k maxBatch x

theorem Drained.pruned (h : Drained vault db) (hp : Pruned vault db db') : Drained vault db' := by
  intro k hk x hs hw
  obtain ⟨keep, hdirty, hkeep⟩ := hp.rows k
  exact h k hk x hs ((inWindow_filter hdirty hkeep).mp hw).2

theorem Pruned.waits_iff (hp : Pruned vault db db') (hd : Drained vault db') (hk : k ∈ syncedKinds) (hx : x ∈ dirtyRows db k) (hs : seals vault k x = true) :
    x ∈ dirtyRows db' k ↔ ¬InWindow db vault k maxBatch x := by
  obtain ⟨keep, hdirty, hkeep⟩ := hp.rows k
  constructor
  · intro hx' hw
    rw [hdirty] at hx'
    exact hd k hk x hs ((inWindow_filter hdirty hkeep).mpr ⟨(List.mem_filter.mp hx').2, hw⟩)
  · intro hw
    rw [hdirty, List.mem_filter]
    refine ⟨hx, ?_⟩
    by_contra hgone
    exact hw (hkeep x hx (Bool.eq_false_iff.mpr hgone)).2

namespace Engine

variable {envs : List Envelope}

theorem inWindow_of_sent {leftOut : ℕ} {env : Envelope}
    (h : pendingEnvelopes db (some vault) maxBatch = .ok (envs, leftOut)) (he : env ∈ envs) : ∃ x ∈ dirtyRows db
    env.kind, x.1 = env.id ∧ x.2.hlc = env.updatedAt ∧ seals vault env.kind x = true ∧ InWindow db vault env.kind
    maxBatch x := by
  obtain ⟨b, rfl, hb⟩ := pendingEnvelopes_within h
  have hle := hb.blob env he
  obtain ⟨k, -, x, hx, p, hp, rfl⟩ := mem_pendingEnvelopes h he
  obtain ⟨payload, -, rfl⟩ := Option.map_eq_some_iff.mp hp
  exact ⟨x, List.mem_of_mem_take hx, rfl, rfl, seals_eq_true.mpr ⟨_, hp, hle⟩, inReach_of_mem_take hx⟩

theorem dirtyRows_unique {x y : Uuid × Row (Body k)} (hx : x ∈ dirtyRows db k)
    (hy : y ∈ dirtyRows db k) (h : x.1 = y.1) : x = y := by
  obtain ⟨hrx, -⟩ := mem_dirtyRows.mp hx
  obtain ⟨hry, -⟩ := mem_dirtyRows.mp hy
  rw [h, hry] at hrx
  exact Prod.ext h (Option.some.inj hrx).symm

theorem pruned_markPushed {leftOut : ℕ}
    (h : pendingEnvelopes db (some vault) maxBatch = .ok (envs, leftOut)) (accepted : List Accepted) :
    Pruned vault db (UwuRdp.markPushed db (pushedOf envs accepted)).1 where
  rows k := by
    refine ⟨_, dirtyRows_markPushed _, ?_⟩
    intro x hx hgone
    rw [Bool.not_eq_false', marked, List.any_eq_true] at hgone
    obtain ⟨p, hp, hhit⟩ := hgone
    obtain ⟨hkind, hid, -⟩ := of_decide_eq_true hhit
    obtain ⟨env, henv, hpid, hpkind, -⟩ := mem_pushedOf hp
    obtain rfl : env.kind = k := hpkind.symm.trans hkind
    obtain ⟨y, hy, hyid, -, hseals, hwindow⟩ := inWindow_of_sent h henv
    have hxy : x = y := dirtyRows_unique hx hy (hid.symm.trans (hpid.trans hyid.symm))
    exact hxy ▸ ⟨hseals, hwindow⟩
  version k id hd hh := by
    rw [head_markPushed, hh]
    exact ⟨_, rfl, markAll_version _ k id hd⟩

theorem markPushed_counts {ps : List Pushed} {p : Pushed} {h : Head} (hp : p ∈ ps) (ht : p.kind.hasTable = true)
    (hh : db.head p.kind p.id = some h) (hc : h.hlc = p.updatedAt) : (UwuRdp.markPushed db ps).2 ≠ 0 := by
  induction ps generalizing db h with
  | nil => cases hp
  | cons q ps ih =>
    show (UwuRdp.markPushed (markOne db q) ps).2 + (if clears db q then 1 else 0) ≠ 0
    rcases List.mem_cons.mp hp with rfl | hp
    · obtain ⟨r, hr, rfl⟩ := Db.head_eq_some.mp hh
      have hclears : clears db p = true := by
        rw [clears, ht, hr, Bool.true_and, Option.map_some, show r.hlc = p.updatedAt from hc]
        exact beq_self_eq_true _
      rw [if_pos hclears]
      exact Nat.succ_ne_zero _
    · have hrest : (UwuRdp.markPushed (markOne db q) ps).2 ≠ 0 := by
        apply ih hp (h := q.mark p.kind p.id h)
        · rw [head_markOne, hh]
          rfl
        · rw [← hc]
          unfold Pushed.mark
          split <;> rfl
      omega

theorem hasTable_of_synced (h : k ∈ syncedKinds) : k.hasTable = true := by
  revert h
  cases k <;> decide

/-- A server that reports no conflict took something of what it was sent. -/
def Answers {σ : Type} (t : Transport σ) : Prop :=
  ∀ envs s answer, envs ≠ [] → (t.push envs s).1 = .ok answer → answer.conflicts = [] →
    ∃ taken ∈ answer.accepted, ∃ env ∈ envs, env.id = taken.id

variable {σ : Type} {t : Transport σ}

theorem cleared_of_answers (ht : Answers t) {leftOut : ℕ} {s : σ} {answer : PushResponse}
    (h : pendingEnvelopes db (some vault) maxBatch = .ok (envs, leftOut)) (hne : envs ≠ [])
    (ha : (t.push envs s).1 = .ok answer) (hc : answer.conflicts = []) : (pushedOf envs answer.accepted).isEmpty =
    false ∧ (UwuRdp.markPushed db (pushedOf envs answer.accepted)).2 ≠ 0 := by
  obtain ⟨taken, htaken, env₀, henv₀, hid₀⟩ := ht envs s answer hne ha hc
  obtain ⟨env, hfind⟩ : ∃ env, envs.find? (fun env => env.id = taken.id) = some env := by
    rw [← Option.isSome_iff_exists, List.find?_isSome]
    exact ⟨env₀, henv₀, by simpa using hid₀⟩
  have hid : env.id = taken.id := by simpa using List.find?_some hfind
  have henv : env ∈ envs := List.mem_of_find?_eq_some hfind
  have hp : (⟨taken.id, env.kind, env.updatedAt, taken.seq⟩ : Pushed) ∈ pushedOf envs answer.accepted := by
    refine List.mem_filterMap.mpr ⟨taken, htaken, ?_⟩
    rw [hfind]
    rfl
  obtain ⟨hsynced, r, hout⟩ := outgoing_of_pendingEnvelopes h henv
  refine ⟨?_, ?_⟩
  · rw [List.isEmpty_eq_false_iff]
    exact List.ne_nil_of_mem hp
  · apply markPushed_counts hp (hasTable_of_synced hsynced) (h := r.head)
    · show db.head env.kind taken.id = _
      rw [← hid]
      exact Db.head_eq_some.mpr ⟨r, hout.row, rfl⟩
    · exact hout.updatedAt.symm

/-- How a turn comes out: nothing is offered, the server takes it, or it reports conflicts. -/
inductive Turned (t : Transport σ) (vault : Option UnlockedVault) (db : Db) (conflicts : ℕ) :
    ℕ × Bool → Db → Prop
  | idle {leftOut : ℕ} (h : pendingEnvelopes db vault maxBatch = .ok ([], leftOut)) :
      Turned t vault db conflicts (conflicts, false) db
  | sent {envs : List Envelope} {leftOut : ℕ} {s : σ} {answer : PushResponse}
      (h : pendingEnvelopes db vault maxBatch = .ok (envs, leftOut)) (hne : envs ≠ [])
      (ha : (t.push envs s).1 = .ok answer) (hc : answer.conflicts = []) :
      Turned t vault db conflicts (conflicts, !((pushedOf envs answer.accepted).isEmpty ||
        (UwuRdp.markPushed db (pushedOf envs answer.accepted)).2 = 0))
        (UwuRdp.markPushed db (pushedOf envs answer.accepted)).1
  | conflicted {turn : ℕ × Bool} {db' : Db} (h : conflicts < turn.1) :
      Turned t vault db conflicts turn db'

section Turned

variable {conflicts : ℕ} {turn : ℕ × Bool}

theorem Turned.le (h : Turned t (some vault) db conflicts turn db') : conflicts ≤ turn.1 := by
  cases h with
  | idle _ | sent _ _ _ _ => exact Nat.le_refl _
  | conflicted hlt => exact Nat.le_of_lt hlt

theorem Turned.pruned (h : Turned t (some vault) db conflicts turn db') (hc : turn.1 = conflicts) :
    Pruned vault db db' := by
  cases h with
  | idle _ => exact Pruned.refl vault db
  | sent hp _ _ _ => exact pruned_markPushed hp _
  | conflicted hlt => exact absurd hc.symm (Nat.ne_of_lt hlt)

theorem Turned.drained (ht : Answers t) (h : Turned t (some vault) db conflicts turn db')
    (hc : turn.1 = conflicts) (hlast : ¬turn.2 = true) : Drained vault db' := by
  cases h with
  | idle hp =>
    have hnil : (Batch.addKinds db vault maxBatch ⟨[], 0, 0⟩ syncedKinds).envelopes = [] :=
      congrArg Prod.fst (Except.ok.inj hp)
    exact (outbox_nil_iff (by decide)).mp hnil
  | sent hp hne ha hconflicts =>
    obtain ⟨hsome, hcleared⟩ := cleared_of_answers ht hp hne ha hconflicts
    exact absurd (by simp [hsome, hcleared]) hlast
  | conflicted hlt => exact absurd hc.symm (Nat.ne_of_lt hlt)

end Turned

variable [Platform] {cx : Session}

theorem pushTurn_turned {conflicts : ℕ} {s s' : PassState σ} {turn : ℕ × Bool}
    (h : pushTurn cx t conflicts s = (.ok turn, s')) : Turned t cx.vault s.db conflicts turn s'.db := by
  unfold pushTurn at h
  obtain ⟨pending, s₁, hlook, h⟩ := Act.bind_eq_ok.mp h
  obtain ⟨hpending, rfl⟩ : pendingEnvelopes s.db cx.vault maxBatch = pending ∧ s = s₁ := by
    cases hlook
    exact ⟨rfl, rfl⟩
  split at h
  · cases h
  next envelopes leftOut =>
  obtain ⟨_, s₂, hnote, h⟩ := Act.bind_eq_ok.mp h
  have hdb₂ : s₂.db = s.db := by
    cases hnote
    rfl
  split at h
  · next hempty =>
    obtain ⟨rfl, rfl⟩ := Act.pure_eq_ok.mp h
    rw [List.isEmpty_iff.mp hempty] at hpending
    rw [hdb₂]
    exact .idle hpending
  next hne =>
  rw [List.isEmpty_iff] at hne
  obtain ⟨answer, s₃, hrequest, h⟩ := Act.bind_eq_ok.mp h
  obtain ⟨hanswer, hdb₃⟩ : (t.push envelopes s₂.server).1 = answer ∧ s₃.db = s.db := by
    cases hrequest
    exact ⟨rfl, hdb₂⟩
  obtain ⟨response, s₄, hstop, h⟩ := Act.bind_eq_ok.mp h
  obtain ⟨rfl, rfl⟩ : answer = .ok response ∧ s₃ = s₄ := by
    cases answer with
    | error e => cases hstop
    | ok a =>
      obtain ⟨rfl, rfl⟩ := Act.pure_eq_ok.mp hstop
      exact ⟨rfl, rfl⟩
  obtain ⟨cleared, s₅, hmark, h⟩ := Act.bind_eq_ok.mp h
  obtain ⟨hcleared, hdb₅⟩ : (UwuRdp.markPushed s.db (pushedOf envelopes response.accepted)).2 = cleared ∧
        s₅.db = (UwuRdp.markPushed s.db (pushedOf envelopes response.accepted)).1 := by
    rw [← hdb₃]
    cases hmark
    exact ⟨rfl, rfl⟩
  obtain ⟨_, s₆, hreport, h⟩ := Act.bind_eq_ok.mp h
  have hdb₆ : s₆.db = s₅.db := by
    cases hreport
    rfl
  obtain ⟨_, s₇, hmerge, h⟩ := Act.bind_eq_ok.mp h
  obtain ⟨rfl, rfl⟩ := Act.pure_eq_ok.mp h
  by_cases hc : response.conflicts = []
  · rw [hc] at hmerge
    obtain ⟨-, rfl⟩ := Act.pure_eq_ok.mp (show (pure () : Pass σ Unit) s₆ = _ from hmerge)
    rw [hdb₆, hdb₅, ← hcleared, hc, List.length_nil, Nat.add_zero]
    exact .sent hpending hne hanswer hc
  · exact .conflicted (Nat.lt_add_of_pos_right (List.length_pos_iff.mpr hc))

theorem pushBatches_drained (ht : Answers t) (hv : cx.vault = some vault) {turns conflicts n : ℕ} {s s' : PassState σ}
    (hfuel : pendingCount s.db < turns) (h : pushBatches cx t turns conflicts s = (.ok n, s')) : conflicts ≤ n ∧
    (n = conflicts → Pruned vault s.db s'.db ∧ Drained vault s'.db) := by
  induction turns generalizing conflicts s with
  | zero => exact absurd hfuel (Nat.not_lt_zero _)
  | succ turns ih =>
    unfold pushBatches at h
    obtain ⟨turn, s₁, hturn, h⟩ := Act.bind_eq_ok.mp h
    have hturned := pushTurn_turned hturn
    rw [hv] at hturned
    have hle : conflicts ≤ turn.1 := hturned.le
    split at h
    · next hmore =>
      have hless := (@pushTurn_lt _ _ cx t conflicts s).of_ok rfl hturn hmore
      obtain ⟨hle', hrest⟩ := ih (by omega) h
      refine ⟨hle.trans hle', ?_⟩
      intro hn
      obtain ⟨hpruned, hdrained⟩ := hrest (by omega)
      exact ⟨(hturned.pruned (by omega)).trans hpruned, hdrained⟩
    · next hlast =>
      obtain ⟨rfl, rfl⟩ := Act.pure_eq_ok.mp h
      exact ⟨hle, fun hn => ⟨hturned.pruned hn, hturned.drained ht hn hlast⟩⟩

/-- Passes of pushing, one after the other: how many conflicts there were. -/
def pushPasses (cx : Session) (t : Transport σ) : ℕ → Pass σ ℕ
  | 0 => pure 0
  | passes + 1 => do
    let conflicts ← pushAll cx t
    let more ← pushPasses cx t passes
    pure (conflicts + more)

theorem pushPasses_pruned (ht : Answers t) (hv : cx.vault = some vault) {passes : ℕ} {s s' : PassState σ}
    (h : pushPasses cx t passes s = (.ok 0, s')) : Pruned vault s.db s'.db ∧ (passes ≠ 0 → Drained vault s'.db) := by
  induction passes generalizing s with
  | zero =>
    obtain ⟨-, rfl⟩ := Act.pure_eq_ok.mp h
    exact ⟨Pruned.refl vault s'.db, fun hne => absurd rfl hne⟩
  | succ passes ih =>
    unfold pushPasses at h
    obtain ⟨conflicts, s₁, hpass, h⟩ := Act.bind_eq_ok.mp h
    obtain ⟨more, s₂, hrest, h⟩ := Act.bind_eq_ok.mp h
    obtain ⟨hzero, rfl⟩ := Act.pure_eq_ok.mp h
    obtain ⟨rfl, rfl⟩ : conflicts = 0 ∧ more = 0 := by omega
    have hbatches : pushBatches cx t (pendingCount s.db + 1) 0 s = (.ok 0, s₁) := hpass
    obtain ⟨hpruned, hdrained⟩ := (pushBatches_drained ht hv (Nat.lt_succ_self _) hbatches).2 rfl
    obtain ⟨hpruned', -⟩ := ih hrest
    exact ⟨hpruned.trans hpruned', fun _ => hdrained.pruned hpruned'⟩

end Engine

theorem MemoryServer.pushEach_answer {envs : List Envelope} {m m' : MemoryServer} {response answer : PushAnswer}
    (h : pushEach response envs m = (.ok answer, m')) : answer.accepted.length + answer.conflicts.length =
    response.accepted.length + response.conflicts.length + envs.length ∧ ∀ taken ∈ answer.accepted, taken ∈
    response.accepted ∨ ∃ env ∈ envs, env.id = taken.id := by
  induction envs generalizing m response with
  | nil =>
    cases h
    exact ⟨rfl, fun taken ht => .inl ht⟩
  | cons env rest ih =>
    unfold pushEach at h
    split at h
    · cases h
    split at h
    · cases h
    simp only at h
    split at h
    · next current _ =>
      obtain ⟨hlen, hmem⟩ := ih h
      refine ⟨?_, ?_⟩
      · simp only [List.length_append, List.length_cons, List.length_nil] at hlen ⊢
        omega
      · intro taken ht
        rcases hmem taken ht with hold | ⟨e, he, hid⟩
        · exact .inl hold
        · exact .inr ⟨e, List.mem_cons_of_mem env he, hid⟩
    · obtain ⟨hlen, hmem⟩ := ih h
      refine ⟨?_, ?_⟩
      · simp only [List.length_append, List.length_cons, List.length_nil] at hlen ⊢
        omega
      · intro taken ht
        rcases hmem taken ht with hold | ⟨e, he, hid⟩
        · rcases List.mem_append.mp hold with hold | hnew
          · exact .inl hold
          · rw [List.mem_singleton.mp hnew]
            exact .inr ⟨env, List.mem_cons_self, rfl⟩
        · exact .inr ⟨e, List.mem_cons_of_mem env he, hid⟩

theorem MemoryServer.answers : Engine.Answers MemoryServer.transport := by
  intro envs m answer hne ha hc
  obtain ⟨whole, m', hpush, rfl⟩ : ∃ whole m', m.push envs = (.ok whole, m') ∧ whole.toPushResponse = answer := by
    unfold MemoryServer.transport at ha
    dsimp only at ha
    split at ha
    · next whole m' hpush => exact ⟨whole, m', hpush, Except.ok.inj ha⟩
    · cases ha
  unfold MemoryServer.push at hpush
  split at hpush
  · cases hpush
  split at hpush
  · cases hpush
  obtain ⟨hlen, hmem⟩ := MemoryServer.pushEach_answer hpush
  rw [hc, List.length_nil, Nat.add_zero, List.length_nil, Nat.zero_add] at hlen
  have hpos : 0 < whole.accepted.length := by
    rw [hlen]
    exact List.length_pos_iff.mpr hne
  obtain ⟨taken, ht⟩ := List.exists_mem_of_length_pos hpos
  exact ⟨taken, ht, (hmem taken ht).resolve_left List.not_mem_nil⟩

/-! ## Who is reached -/

/-- Some row of a synced kind waits that can be sealed. -/
def Sealable (db : Db) (vault : UnlockedVault) : Prop :=
  ∃ k ∈ syncedKinds, ∃ x ∈ dirtyRows db k, seals vault k x = true

def Offers (db : Db) (vault : UnlockedVault) (limit : ℕ) : Prop :=
  ∃ envs leftOut, pendingEnvelopes db (some vault) limit = .ok (envs, leftOut) ∧ envs ≠ []

theorem offers_iff (hl : 1 ≤ limit) : Offers db vault limit ↔
    ∃ k ∈ syncedKinds, ∃ x, seals vault k x = true ∧ InWindow db vault k limit x := by
  have hoffers : Offers db vault limit ↔ ¬(Batch.addKinds db vault limit ⟨[], 0, 0⟩ syncedKinds).envelopes = [] := by
    constructor
    · rintro ⟨envs, leftOut, h, hne⟩ hnil
      exact hne ((congrArg Prod.fst (Except.ok.inj h)).symm.trans hnil)
    · intro hne
      exact ⟨_, _, rfl, hne⟩
  rw [hoffers, outbox_nil_iff hl]
  simp only [not_forall, not_not, exists_prop]

/-- **Who gets out.** As long as some row waits that can be sealed, the outbox offers something if and
only if such a row has fewer than `limit` dirty rows of its kind before it that cannot be sealed. And
of the rows that wait before any number of passes without a conflict, such a row is clean after them
if and only if fewer than `maxBatch` that cannot be sealed stood before it. -/
theorem outbox_reaches [Platform] (vault : UnlockedVault) :
    (∀ (db : Db) (limit : ℕ), 1 ≤ limit →
      ((Sealable db vault → Offers db vault limit) ↔
        (Sealable db vault →
          ∃ k ∈ syncedKinds, ∃ x, seals vault k x = true ∧ InWindow db vault k limit x))) ∧
    ∀ (cx : Session) (passes : ℕ) (s s' : PassState MemoryServer), cx.vault = some vault →
      passes ≠ 0 → Engine.pushPasses cx MemoryServer.transport passes s = (.ok 0, s') →
      ∀ k ∈ syncedKinds, ∀ id r, s.db.row k id = some r → r.dirty = true →
        seals vault k (id, r) = true →
        ((∃ h', s'.db.head k id = some h' ∧ h'.version = r.version ∧ h'.dirty = false) ↔
          InWindow s.db vault k maxBatch (id, r)) := by
  refine ⟨?_, ?_⟩
  · intro db limit hl
    rw [offers_iff hl]
  · intro cx passes s s' hv hpasses hrun k hk id r hr hdirty hseals
    obtain ⟨hpruned, hdrained⟩ := Engine.pushPasses_pruned MemoryServer.answers hv hrun
    have hx : (id, r) ∈ dirtyRows s.db k := mem_dirtyRows.mpr ⟨hr, hdirty⟩
    have hwaits := hpruned.waits_iff (hdrained hpasses) hk hx hseals
    obtain ⟨h', hh', hversion⟩ := hpruned.version k id r.head (Db.head_eq_some.mpr ⟨r, hr, rfl⟩)
    obtain ⟨r', hr', rfl⟩ := Db.head_eq_some.mp hh'
    -- The row is as it was, or does not wait any more.
    have hsame : r'.dirty = true → r' = r := by
      intro hd'
      obtain ⟨keep, hkept, -⟩ := hpruned.rows k
      have hx' : (id, r') ∈ dirtyRows s'.db k := mem_dirtyRows.mpr ⟨hr', hd'⟩
      rw [hkept] at hx'
      exact congrArg Prod.snd (Engine.dirtyRows_unique (List.mem_filter.mp hx').1 hx rfl)
    rw [← not_iff_not, ← hwaits]
    constructor
    · intro hno
      have hd' : r'.dirty = true := by
        by_contra hclean
        exact hno ⟨r'.head, hh', hversion, Bool.eq_false_iff.mpr hclean⟩
      rw [hsame hd'] at hr'
      exact mem_dirtyRows.mpr ⟨hr', hdirty⟩
    · rintro hstays ⟨h₂, hh₂, -, hclean⟩
      obtain ⟨hrow, -⟩ := mem_dirtyRows.mp hstays
      rw [Db.head_eq_some.mpr ⟨r, hrow, rfl⟩] at hh₂
      rw [← Option.some.inj hh₂] at hclean
      exact absurd (hdirty.symm.trans hclean) (by decide)

/-! ## A window of rows that cannot be read -/

/-- A password that waits: the first `n` were sealed under another key. -/
def secretRow (n i : ℕ) : Row Sealed :=
  ⟨⟨UInt64.ofNat (1000 + i), 0, 1⟩, false, true, 0,
    (⟨1, if i < n then 8 else 7⟩ : UnlockedVault).sealRecord i .secret (.bytes [1])⟩

/-- A device with `n` passwords it cannot read and a newer one that it can. -/
def unreadableFirst (n : ℕ) : Db :=
  (Db.fresh 1).setTable .secret
    { entries := (List.range (n + 1)).map fun i => (i, secretRow n i)
      nodup := by
        rw [List.map_map]
        show ((List.range (n + 1)).map fun i => i).Nodup
        rw [List.map_id']
        exact List.nodup_range }

/-- Five hundred of them fill the window of a push, and the one that could go out never does. -/
theorem unreadable_block : ¬∀ (db : Db) (vault : UnlockedVault) (limit : ℕ), 1 ≤ limit →
    Sealable db vault → Offers db vault limit := by
  intro hall
  have hsealable : Sealable (unreadableFirst maxBatch) ⟨1, 7⟩ := by
    refine ⟨.secret, by decide, (maxBatch, secretRow maxBatch maxBatch), ?_, ?_⟩
    · decide +kernel
    · decide +kernel
  obtain ⟨envs, leftOut, h, hne⟩ := hall (unreadableFirst maxBatch) ⟨1, 7⟩ maxBatch (by decide) hsealable
  have hpending : pendingEnvelopes (unreadableFirst maxBatch) (some ⟨1, 7⟩) maxBatch =
      .ok ([], maxBatch) := by decide +kernel
  rw [hpending] at h
  cases h
  exact hne rfl

/-- A pass with one password behind two that cannot be read. -/
def reachedPass : Except SyncError ℕ × PassState MemoryServer :=
  letI := asciiPlatform
  Engine.pushPasses deviceOne MemoryServer.transport 1 (.start (unreadableFirst 2) MemoryServer.new)

/-- It goes out. -/
theorem outbox_reaches_third : Offers (unreadableFirst 2) ⟨1, 7⟩ 3 ∧ ∃ h', reachedPass.2.db.head .secret 2 = some h' ∧
    h'.version = (secretRow 2 2).version ∧ h'.dirty = false := by
  have hrow : (unreadableFirst 2).row .secret 2 = some (secretRow 2 2) := by decide +kernel
  have hreach : ∀ limit, 3 ≤ limit → InWindow (unreadableFirst 2) ⟨1, 7⟩ .secret limit (2, secretRow 2 2) := by
    intro limit hl
    have hmem : (2, secretRow 2 2) ∈ (dirtyRows (unreadableFirst 2) .secret).take 3 := by
      decide +kernel
    exact inReach_of_mem_take (List.take_subset_take_left _ hl hmem)
  obtain ⟨hoffers, hpasses⟩ := @outbox_reaches asciiPlatform ⟨1, 7⟩
  have hseals : seals ⟨1, 7⟩ .secret (2, secretRow 2 2) = true := by decide +kernel
  refine ⟨?_, ?_⟩
  · apply (hoffers (unreadableFirst 2) 3 (by decide)).mpr
    · intro _
      exact ⟨.secret, by decide, _, hseals, hreach 3 (Nat.le_refl 3)⟩
    · exact ⟨.secret, by decide, _, mem_dirtyRows.mpr ⟨hrow, rfl⟩, hseals⟩
  · have hok : reachedPass.1 = .ok 0 := by decide +kernel
    have hrun : reachedPass = (.ok 0, reachedPass.2) := by rw [← hok]
    exact (hpasses deviceOne 1 _ reachedPass.2 rfl (by decide) hrun .secret (by decide) 2 _ hrow rfl
      hseals).mpr (hreach maxBatch (by decide))

end UwuRdp
