import UwuRdp.Store.Calls

/-!
# What calls on groups, host keys and imports write

A group that is deleted or merged into another one lets go of its login. Moving a group renumbers the
groups whose place is not the position they have; `reordered` says which those are from the database
the call starts from.
-/

namespace UwuRdp

open Lib

variable {db₀ : Db} {sc : Scope db₀} {n n' : Uuid → ℕ} {cx : Session} {cs cs' : List Hlc}
  {c clock : Hlc} {k : EntityKind} {id : Uuid}

/-! ## One table left alone -/

def Kept (k : EntityKind) (t : Table Uuid (Row (Body k))) (s : TxState) : Prop := s.db.rows k = t

variable {t : Table Uuid (Row (Body k))}

theorem tick_kept : Tx.Ensures (Kept k t) (StoreTx.tick cx) fun _ => Kept k t := by
  intro s hs c s' hm
  unfold Kept
  rw [(tick_eq_ok hm).2]
  exact hs

variable {α : Type} {r₀ r : Row GroupBody} {workspace dst : Workspace} {db db' : Db} {before : Option Text}
  {address : Text} {port : UInt16}

theorem query_kept (f : Db → α) : Tx.Ensures (Kept k t) (StoreTx.query f) fun _ => Kept k t :=
  .conseq (query_ensures f) (fun _ h => h) fun _ _ h => h.1

theorem updateRow_kept {k' : EntityKind} (hk : k ≠ k') {f : Row (Body k') → Row (Body k')} :
    Tx.Ensures (Kept k t) (StoreTx.updateRow k' id f) fun _ => Kept k t := by
  refine .bind (query_kept _) fun old => ?_
  cases old with
  | none => exact .pure _ fun _ h => h
  | some r =>
    refine .bind (query_kept _) fun ok => ?_
    refine .bind (R := fun _ => Kept k t) (.require fun _ h _ => h) fun _ => ?_
    refine .modify fun s h => ?_
    exact (Db.setTable_rows_ne _ hk).trans h

theorem releaseAll_kept (hi : k ≠ .identity) (hs : k ≠ .secret) (identities : List Uuid) :
    Tx.Ensures (Kept k t) (releaseAll cx clock identities) fun _ => Kept k t := by
  have secret : ∀ o, Tx.Ensures (Kept k t) (releaseSecret cx o) fun _ => Kept k t := fun o =>
    .bind (query_kept _) fun used =>
      .ite (fun _ => .pure _ fun _ h => h) fun _ =>
        .bind tick_kept fun _ => updateRow_kept hs
  refine .forM fun i _ => ?_
  refine .bind (query_kept _) fun used => ?_
  refine .ite (fun _ => .pure _ fun _ h => h) fun _ => ?_
  refine .bind (query_kept _) fun row => ?_
  refine .bind (updateRow_kept hi) fun _ => ?_
  cases row with
  | none => exact .pure _ fun _ h => h
  | some r =>
    exact .ite (fun _ => .pure _ fun _ h => h) fun _ =>
      .forM fun o _ => secret o

theorem placeHosts_kept (hk : k ≠ .host) (workspace : Workspace) (group : Option Uuid) (hosts : List Uuid)
    (position : ℤ) : Tx.Ensures (Kept k t) (placeHosts workspace group clock position hosts) fun _ => Kept k t := by
  induction hosts generalizing position with
  | nil => exact .pure _ fun _ h => h
  | cons id rest ih => exact .bind (updateRow_kept hk) fun _ => ih (position + 1)

theorem moveMembers_kept (hk : k ≠ .host) (src : Uuid) (workspace : Workspace) (dst : Option Uuid) : Tx.Ensures
    (Kept k t) (moveMembers cx src workspace dst) fun _ => Kept k t := by
  refine .bind (query_kept _) fun hosts => ?_
  refine .ite (fun _ => .pure _ fun _ h => h) fun _ => ?_
  refine .bind (nextPosition_ensures workspace dst) fun first => ?_
  exact .bind tick_kept fun clock => placeHosts_kept hk workspace dst _ first

/-! ## Members -/

theorem placeHost_mid {f : HostBody → HostBody} (hw : sc.rows .host id) (hc : clock ∈ cs)
    (hf : ∀ b, (f b).identityId = b.identityId ∧ (f b).gatewayIdentityId = b.gatewayIdentityId) : Tx.Ensures
    (Mid sc n cx cs) (StoreTx.updateRow .host id fun r => r.rewrite clock f) fun _ => Mid sc n cx cs := by
  refine updateRow_mid (fun _ h => h) (fun i => le_refl (n i)) fun s r _ _ => .inr ⟨?_, hc⟩
  refine rewrite_ok hw (by decide) (fun i => ?_) rfl rfl
  simp only [points, Row.rewrite, (hf r.body).1, (hf r.body).2]

theorem placeHosts_mid (hh : ∀ id, sc.rows .host id) (workspace : Workspace) (group : Option Uuid) (hosts : List Uuid)
    (position : ℤ) (hc : clock ∈ cs) : Tx.Ensures (Mid sc n cx cs) (placeHosts workspace group clock position hosts)
    fun _ => Mid sc n cx cs := by
  induction hosts generalizing position with
  | nil => exact .pure _ fun _ h => h
  | cons id rest ih =>
    exact .bind (placeHost_mid (hh id) hc fun _ => ⟨rfl, rfl⟩) fun _ => ih (position + 1)

theorem moveMembers_mid (hh : ∀ id, sc.rows .host id) (src : Uuid) (workspace : Workspace) (dst : Option Uuid) :
    Tx.Ensures (Mid sc n cx cs) (moveMembers cx src workspace dst) fun _ => Mid sc n cx cs := by
  refine .bind (query_ensures _) fun hosts => ?_
  refine .ite (fun _ => .pure _ fun _ h => h.1) fun _ => ?_
  refine .bind (.conseq (nextPosition_ensures workspace dst) (fun _ h => h) fun _ _ h => h.1) fun first => ?_
  refine .bind tick_mid fun clock => ?_
  exact .conseq (placeHosts_mid hh workspace dst _ first List.mem_cons_self) (fun _ h => h)
    fun _ s h => h.mono (fun _ => le_refl _) (List.subset_cons_self _ _)

/-! ## Deleting and merging -/

/-- What a group that goes may touch: its own row, and the login it lets go. -/
structure Scope.Group (sc : Scope db₀) (g : Uuid) : Prop where
  row : sc.rows .group g
  release : ∀ r i, db₀.row .group g = some r → r.body.identityId = some i →
    sc.Release (points .group r) i

variable {g : Uuid} {name : Text}

theorem tombstoneGroup_mid (hg : sc.Group g) (h₀ : db₀.row .group g = some r₀) : Tx.Ensures
    (Mid (sc.without .group) noneReleased cx cs) (tombstoneGroup cx g) fun _ => Mid sc (points .group r₀) cx cs := by
  refine .bind tick_mid fun clock => ?_
  have hc : clock ∈ clock :: cs := List.mem_cons_self
  refine .bind (query_ensures _) fun row => ?_
  intro s hs
  have hrow : ∀ i, (row.bind fun r => r.body.identityId) = some i → r₀.body.identityId = some i := by
    intro i hi
    obtain ⟨r, hr, hi⟩ := Option.bind_eq_some_iff.mp hi
    rw [hs.2] at hr
    have := (Option.filter_eq_some_iff.mp hr).1
    rw [hs.1.row_eq h₀] at this
    rw [Option.some.inj this, hi]
  refine Tx.Ensures.bind (tombstoneLive_mid hg.row (by decide) (by decide) h₀ hc) (fun _ => ?_) s hs.1
  refine Tx.Ensures.conseq (releaseAll_mid (fun i hi => ?_) hc) (fun _ h => h)
    fun _ s h => h.mono (fun _ => le_refl _) (List.subset_cons_self _ _)
  exact hg.release r₀ i h₀ (hrow i (Option.mem_toList.mp hi))

theorem knownGroup_begun : Tx.Ensures (Begun sc cx cs) (knownGroup workspace name) fun g s =>
    Begun sc cx cs s ∧ groupId db₀ workspace name = some g := by
  refine .bind (query_ensures _) fun found => .orFail fun s h g hg => ⟨h.1, ?_⟩
  rw [← groupId_of_rows_eq h.1.2, ← h.2, hg]

theorem createGroup_done : Tx.Ensures (fun s => s.db = db₀) (createGroup cx workspace name)
    fun _ s => ∃ n, Mid sc n cx [] s := by
  unfold createGroup
  cases required name with
  | error e => exact .fail e
  | ok name =>
    refine .bind (query_ensures _) fun found => ?_
    refine .bind (R := fun _ => Mid sc noneReleased cx [])
      (.require fun s h _ => (begun_start sc cx h.1).1) fun _ => ?_
    exact .conseq ensureGroup_mid (fun _ h => h) fun _ s h => ⟨_, h.1⟩

theorem placeGroup_mid {f : GroupBody → GroupBody} (hw : sc.rows .group id) (hc : clock ∈ cs)
    (hf : ∀ b, (f b).identityId = b.identityId) : Tx.Ensures (Mid sc n cx cs)
    (StoreTx.updateRow .group id fun r => r.rewrite clock f) fun _ => Mid sc n cx cs := by
  refine updateRow_mid (fun _ h => h) (fun i => le_refl (n i)) fun s r _ _ => .inr ⟨?_, hc⟩
  refine rewrite_ok hw (by decide) (fun i => ?_) rfl rfl
  simp only [points, Row.rewrite, hf r.body]

theorem setGroupDrives_done [Platform] {drives : Option DriveRedirection}
    (hw : ∀ g, groupId db₀ workspace name = some g → sc.rows .group g) : Tx.Ensures (fun s => s.db = db₀)
    (setGroupDrives cx workspace name drives) fun _ s => ∃ n, Mid sc n cx [] s := by
  refine .bind (.conseq knownGroup_begun (fun s h => begun_start sc cx h) fun _ _ h => h) fun g => .intro fun hg => ?_
  refine .bind tick_begun fun clock => ?_
  exact .conseq (placeGroup_mid (hw g hg) List.mem_cons_self fun _ => rfl)
    (fun _ h => h.1) fun _ s h => ⟨_, h.mono (fun _ => le_refl _) (List.nil_subset _)⟩

/-- What a group that gets a login may touch. -/
structure Scope.GroupLogin (sc : Scope db₀) (g : Uuid) (change : LoginChange) : Prop where
  row : sc.rows .group g
  login : ∀ r, db₀.row .group g = some r → sc.Edit r.body.identityId change
  release : ∀ r i, db₀.row .group g = some r → r.body.identityId = some i →
    Text.trim change.username = [] → sc.Release (points .group r) i

theorem setGroupLogin_done {change : LoginChange}
    (hsc : ∀ g, groupId db₀ workspace name = some g → sc.GroupLogin g change) : Tx.Ensures (fun s => s.db = db₀)
    (setGroupLogin cx workspace name change) fun _ s => ∃ n, Mid sc n cx [] s := by
  refine .bind (R := fun _ => Begun (sc.without .group) cx []) (.require fun s h _ => begun_start _ cx h) fun _ => ?_
  refine .bind knownGroup_begun fun g => .intro fun hg => ?_
  obtain ⟨r, hr, -⟩ := groupId_some hg
  refine .bind (R := fun current s => Mid (sc.without .group) noneReleased cx [] s ∧
    current = r.body.identityId) (.conseq (query_ensures _) (fun _ h => h)
      fun current s h => ⟨h.1.1, ?_⟩) fun current => .intro fun hcur => ?_
  · rw [h.2, row_of_rows_eq h.1.2, hr]
    rfl
  subst hcur
  refine .bind tick_mid fun clock => ?_
  have hc : clock ∈ [clock] := List.mem_cons_self
  refine .bind (applyLogin_mid (((hsc g hg).login r hr).without (by decide) (by decide))
    hc) fun login => .intro fun hlogin => ?_
  refine .bind (ownRow_mid (hsc g hg).row (by decide) (by decide) hr
    (fun i => Nat.le_add_left _ _) fun r' => .inr ⟨hc, rfl, rfl, le_refl _⟩) fun _ => ?_
  refine .conseq (releaseAll_mid (fun i hi => ?_) hc) (fun _ h => h)
    fun _ s h => ⟨_, h.mono (fun _ => le_refl _) (List.nil_subset _)⟩
  obtain ⟨hi, hu⟩ := hlogin i (Option.mem_toList.mp hi)
  exact (hsc g hg).release r i hr hi hu

theorem dissolve_done {dst : Option Uuid}
    (hh : ∀ id, sc.rows .host id) (hg : sc.Group g) (h₀ : db₀.row .group g = some r₀) :
    Tx.Ensures (Begun (sc.without .group) cx cs)
      (do moveMembers cx g workspace dst; tombstoneGroup cx g)
      fun _ s => ∃ n, Mid sc n cx cs s := by
  have hh' : ∀ id, (sc.without .group).rows .host id := fun id => ⟨hh id, fun e => by cases e⟩
  refine .bind (.conseq (moveMembers_mid hh' g workspace dst) (fun _ h => h.1) fun _ _ h => h) fun _ => ?_
  exact .conseq (tombstoneGroup_mid hg h₀) (fun _ h => h) fun _ s h => ⟨_, h⟩

theorem renameGroup_done {src dst : Text} (hh : ∀ id, sc.rows .host id)
    (hrow : ∀ g d, groupId db₀ workspace src = some g → required dst = .ok d → src ≠ d →
      sc.rows .group g)
    (hmerge : ∀ g d, groupId db₀ workspace src = some g → required dst = .ok d → src ≠ d →
      groupId db₀ workspace d ≠ none → sc.Group g) :
    Tx.Ensures (fun s => s.db = db₀) (renameGroup cx workspace src dst)
      fun _ s => ∃ n, Mid sc n cx [] s := by
  unfold renameGroup
  cases hd : required dst with
  | error e => exact .fail e
  | ok d =>
    refine .ite (fun _ => .pure _ fun s h => ⟨_, (begun_start sc cx h).1⟩) fun hne => ?_
    refine .bind (.conseq knownGroup_begun (fun s h => begun_start (sc.without .group) cx h) fun _ _ h => h)
      fun g => .intro fun hg => ?_
    obtain ⟨r, hr, -⟩ := groupId_some hg
    refine .bind (R := fun found s => Begun (sc.without .group) cx [] s ∧
      found = groupId db₀ workspace d) (.conseq (query_ensures _) (fun _ h => h)
        fun found s h => ⟨h.1, ?_⟩) fun found => .intro fun hfound => ?_
    · rw [h.2, groupId_of_rows_eq h.1.2]
    cases found with
    | some dstId => exact dissolve_done hh (hmerge g d hg hd hne (by rw [← hfound]; simp)) hr
    | none =>
      refine .bind tick_begun fun clock => ?_
      exact .conseq (placeGroup_mid (hrow g d hg hd hne) List.mem_cons_self fun _ => rfl)
        (fun _ h => h.1.widen) fun _ s h => ⟨_, h.mono (fun _ => le_refl _) (List.nil_subset _)⟩

theorem deleteGroup_done (hh : ∀ id, sc.rows .host id) (hsc : ∀ g, groupId db₀ workspace name = some g → sc.Group g) :
    Tx.Ensures (fun s => s.db = db₀) (deleteGroup cx workspace name) fun _ s => ∃ n, Mid sc n cx [] s := by
  refine .bind (.conseq knownGroup_begun (fun s h => begun_start (sc.without .group) cx h) fun _ _ h => h)
    fun g => .intro fun hg => ?_
  obtain ⟨r, hr, -⟩ := groupId_some hg
  exact dissolve_done hh (hsc g hg) hr

/-! ## Moving a group -/

/-- The live groups of a workspace, with their places. -/
def groupsOf (db : Db) (workspace : Workspace) : List (Uuid × ℤ × Text) :=
  ((db.rows .group).select fun _ r => !r.deleted && r.body.workspace = workspace).map
    fun r => (r.1, r.2.body.position, r.2.body.name)

def groupNamed (groups : List (Uuid × ℤ × Text)) (name : Text) : Option Uuid :=
  (((groups.filter fun g => g.2.2 = name).map Prod.fst).insertionSort (· ≤ ·)).head?

theorem groupOrder_eq (db : Db) (workspace : Workspace) :
    groupOrder db workspace = inOrder (groupsOf db workspace) := rfl

theorem groupId_eq (db : Db) (workspace : Workspace) (name : Text) :
    groupId db workspace name = groupNamed (groupsOf db workspace) name := by
  unfold groupId groupNamed namedGroups groupsOf Table.select
  rw [List.filter_map, List.filter_filter, List.map_map]
  congr 3
  refine List.filter_congr fun e _ => ?_
  simp only [Function.comp_apply]
  rw [Bool.and_comm]

/-- The group a group is once it is in another workspace, and the groups there: onto one of the same
name it merges, else it comes to the ones there. -/
def entered (db : Db) (named : Uuid) (name : Text) (dst : Workspace) :
    Uuid × List (Uuid × ℤ × Text) :=
  match groupId db dst name with
  | some target => (target, groupsOf db dst)
  | none => (named, ((db.rows .group).select fun id r =>
      !r.deleted && (r.body.workspace = dst || id = named)).map
        fun r => (r.1, r.2.body.position, r.2.body.name))

/-- The groups whose place changes when a group is put before another one. -/
def outOfOrder (id : Uuid) (groups : List (Uuid × ℤ × Text)) (before : Option Text) : List Uuid :=
  match (inOrder groups).find? fun e => e.1 = id with
  | none => []
  | some entry => (outOfPlace (moved (inOrder groups) entry (before.bind (groupNamed groups)))).map
      Prod.fst

def reordered (db : Db) (workspace : Workspace) (name : Text) (dst : Workspace)
    (before : Option Text) : List Uuid :=
  match groupId db workspace name with
  | none => []
  | some named =>
    let target := if dst ≠ workspace then entered db named name dst else (named, groupsOf db dst)
    outOfOrder target.1 target.2 before

theorem groupsOf_tombstone
    (hr : db.row .group g = some r) (hd : r.body.workspace ≠ dst)
    (h : db'.rows .group = (db.rows .group).set g (if r.deleted then r else r.tombstone clock fun b => b)) :
    groupsOf db' dst = groupsOf db dst := by
  have hbody : (if r.deleted then r else r.tombstone clock fun b => b).body = r.body := by
    split <;> rfl
  unfold groupsOf
  rw [h, Table.map_select_set hr (by simp only [hbody])]
  congr 1
  unfold Table.select
  refine List.filter_congr fun e he => ?_
  by_cases hg : e.1 = g
  · have := Table.mem_entries.mp (he : (e.1, e.2) ∈ (db.rows .group).entries)
    rw [hg] at this
    have her : e.2 = r := by
      rw [Db.row, this] at hr
      exact Option.some.inj hr
    simp only [hg, if_true, hbody, her, hd, decide_false, Bool.and_false]
  · simp only [hg, if_false]

theorem groupsOf_enter
    (hr : db.row .group g = some r) (hd : r.deleted = false)
    (h : db'.rows .group = (db.rows .group).set g
      (r.rewrite clock fun b => { b with workspace := dst })) :
    groupsOf db' dst = ((db.rows .group).select fun id r =>
      !r.deleted && (r.body.workspace = dst || id = g)).map
        fun r => (r.1, r.2.body.position, r.2.body.name) := by
  unfold groupsOf
  rw [h, Table.map_select_set hr (by rfl)]
  congr 1
  unfold Table.select
  refine List.filter_congr fun e he => ?_
  by_cases hg : e.1 = g
  · have := Table.mem_entries.mp (he : (e.1, e.2) ∈ (db.rows .group).entries)
    rw [hg] at this
    have her : e.2 = r := by
      rw [Db.row, this] at hr
      exact Option.some.inj hr
    simp [hg, her, Row.rewrite, hd]
  · simp only [hg, if_false, decide_false, Bool.or_false]

theorem updateRow_table {r : Row (Body k)} {f : Row (Body k) → Row (Body k)} (hr : t.get? id = some r) : Tx.Ensures
    (Kept k t) (StoreTx.updateRow k id f) fun _ => Kept k (t.set id (f r)) := by
  intro s hs _ s' hm
  have hrow : s.db.row k id = some r := by rw [Db.row, hs, hr]
  obtain ⟨old, s₁, h₁, hm⟩ := Tx.bind_eq_ok.mp hm
  cases h₁
  simp only [hrow] at hm
  obtain ⟨ok, s₁, h₁, hm⟩ := Tx.bind_eq_ok.mp hm
  cases h₁
  obtain ⟨-, hm⟩ := Tx.require_bind_eq_ok.mp hm
  cases hm
  unfold Kept at hs ⊢
  rw [← hs]
  exact Db.setTable_rows_self ..

theorem tombstoneGroup_table {t : Table Uuid (Row GroupBody)}
    (hr : t.get? g = some r) :
    Tx.Ensures (Kept .group t) (tombstoneGroup cx g) fun _ s => ∃ clock,
      Kept .group (t.set g (if r.deleted then r else r.tombstone clock fun b => b)) s := by
  refine .bind tick_kept fun clock => ?_
  refine .bind (query_kept _) fun row => ?_
  refine .bind (updateRow_table hr) fun _ => ?_
  exact .conseq (releaseAll_kept (by decide) (by decide) _) (fun _ h => h) fun _ s h => ⟨clock, h⟩

/-- What a group that enters another workspace may touch. -/
structure Scope.Enter (sc : Scope db₀) (g : Uuid) (name : Text) (dst : Workspace) : Prop where
  row : sc.rows .group g
  merge : groupId db₀ dst name ≠ none → sc.Group g

theorem enterWorkspace_mid (hh : ∀ id, sc.rows .host id)
    (hsc : sc.Enter g name dst) (hr : db₀.row .group g = some r) (hlive : r.deleted = false)
    (hd : r.body.workspace ≠ dst) : Tx.Ensures (Begun (sc.without .group) cx []) (enterWorkspace cx g name dst) fun id
    s => (∃ n, Mid sc n cx [] s) ∧ (id, groupsOf s.db dst) = entered db₀ g name dst := by
  have hkept : ∀ s, Begun (sc.without .group) cx [] s → Kept .group (db₀.rows .group) s := fun s h => congrFun h.2 _
  refine .bind (R := fun found s => Begun (sc.without .group) cx [] s ∧
    found = groupId db₀ dst name) (.conseq (query_ensures _) (fun _ h => h)
      fun found s h => ⟨h.1, ?_⟩) fun found => .intro fun hfound => ?_
  · rw [h.2, groupId_of_rows_eq h.1.2]
  cases found with
  | some target =>
    have hentered : entered db₀ g name dst = (target, groupsOf db₀ dst) := by
      rw [entered, ← hfound]
    have hm : Tx.Ensures (Begun (sc.without .group) cx [])
        (do moveMembers cx g dst (some target); tombstoneGroup cx g)
        fun _ s => ∃ n, Mid sc n cx [] s :=
      dissolve_done hh (hsc.merge (by rw [← hfound]; simp)) hr
    have ht : Tx.Ensures (Kept .group (db₀.rows .group))
        (do moveMembers cx g dst (some target); tombstoneGroup cx g) fun _ s =>
          groupsOf s.db dst = groupsOf db₀ dst := by
      refine .bind (moveMembers_kept (by decide) g dst (some target)) fun _ => ?_
      exact .conseq (tombstoneGroup_table hr) (fun _ h => h) fun _ s ⟨clock, h⟩ => groupsOf_tombstone hr hd h
    have hboth := Tx.Ensures.bind (Tx.Ensures.and hm ht) (f := fun _ => (pure target : StoreTx Uuid))
      (Q := fun id s => (∃ n, Mid sc n cx [] s) ∧ (id, groupsOf s.db dst) = entered db₀ g name dst)
      fun _ => .pure _ fun s h => ⟨h.1, by rw [h.2, hentered]⟩
    intro s hs a s' hrun
    refine hboth s ⟨hs, hkept s hs⟩ a s' ?_
    -- The same calls, bracketed differently.
    obtain ⟨_, s₁, h₁, hrun⟩ := Tx.bind_eq_ok.mp hrun
    obtain ⟨_, s₂, h₂, hrun⟩ := Tx.bind_eq_ok.mp hrun
    exact Tx.bind_eq_ok.mpr ⟨_, s₂, Tx.bind_eq_ok.mpr ⟨_, s₁, h₁, h₂⟩, hrun⟩
  | none =>
    have hentered : entered db₀ g name dst = (g, ((db₀.rows .group).select fun id r =>
        !r.deleted && (r.body.workspace = dst || id = g)).map
          fun r => (r.1, r.2.body.position, r.2.body.name)) := by
      rw [entered, ← hfound]
    refine .conseq (.and (?_ : Tx.Ensures (Begun (sc.without .group) cx []) _
        fun _ s => ∃ n, Mid sc n cx [] s) (?_ : Tx.Ensures (Kept .group (db₀.rows .group)) _
        fun id s => (id, groupsOf s.db dst) = entered db₀ g name dst))
      (fun s h => ⟨h, hkept s h⟩) fun _ _ h => h
    · refine .bind tick_begun fun clock => ?_
      refine .bind (.conseq (placeGroup_mid hsc.row List.mem_cons_self fun _ => rfl)
        (fun _ h => h.1.widen) fun _ _ h => h) fun _ => ?_
      refine .bind (query_ensures _) fun hosts => ?_
      refine .bind (.conseq (.forM fun id _ => placeHost_mid (hh id)
        List.mem_cons_self fun _ => ⟨rfl, rfl⟩) (fun _ h => h.1) fun _ _ h => h) fun _ => ?_
      exact .pure _ fun s h => ⟨_, h.mono (fun _ => le_refl _) (List.nil_subset _)⟩
    · refine .bind tick_kept fun clock => ?_
      refine .bind (updateRow_table hr) fun _ => ?_
      refine .bind (query_kept _) fun hosts => ?_
      refine .bind (.forM fun id _ => updateRow_kept (by decide)) fun _ => ?_
      refine .pure _ fun s h => ?_
      rw [hentered, groupsOf_enter hr hlive h]

theorem renumber_mid {places : List (Uuid × ℕ)} (hw : ∀ e ∈ places, sc.rows .group e.1) (hc : clock ∈ cs) : Tx.Ensures
    (Mid sc n cx cs) (renumber clock places) fun _ => Mid sc n cx cs :=
  .forM fun e he => placeGroup_mid (hw e he) hc fun _ => rfl

theorem reorder_done {groups : List (Uuid × ℤ × Text)} (hw : ∀ i ∈ outOfOrder g groups before, sc.rows .group i) :
    Tx.Ensures (fun s => (∃ n, Mid sc n cx [] s) ∧ groupsOf s.db dst = groups)
      (do
        let beforeId ← StoreTx.query fun db => before.bind (groupId db dst)
        let order ← StoreTx.query fun db => groupOrder db dst
        match order.find? fun e => e.1 = g with
        | none => pure ()
        | some entry => do
          let clock ← StoreTx.tick cx
          renumber clock (outOfPlace (moved order entry beforeId)))
      fun _ s => ∃ n, Mid sc n cx [] s := by
  refine .bind (query_ensures _) fun beforeId => ?_
  refine .bind (query_ensures _) fun order => ?_
  rintro s ⟨⟨⟨⟨n, hs⟩, hgroups⟩, hbefore⟩, horder⟩
  have hb : beforeId = before.bind (groupNamed groups) := by
    rw [hbefore, ← hgroups]
    congr 1
    funext name
    exact groupId_eq s.db dst name
  have ho : order = inOrder groups := by rw [horder, groupOrder_eq, hgroups]
  subst hb ho
  unfold outOfOrder at hw
  cases hf : (inOrder groups).find? fun e => decide (e.1 = g) with
  | none => exact Tx.Ensures.pure _ (fun s h => ⟨n, h⟩) s hs
  | some entry =>
    simp only [hf] at hw
    refine Tx.Ensures.bind tick_mid (fun clock => ?_) s hs
    refine Tx.Ensures.conseq (renumber_mid (fun e he => hw e.1 (List.mem_map_of_mem he))
      List.mem_cons_self) (fun _ h => h) fun _ s h => ⟨n, h.mono (fun _ => le_refl _) (List.nil_subset _)⟩

/-- What a move of a group may touch. -/
structure Scope.MoveGroup (sc : Scope db₀) (workspace : Workspace) (name : Text) (dst : Workspace)
    (before : Option Text) : Prop where
  hosts : ∀ id, sc.rows .host id
  enter : ∀ g, groupId db₀ workspace name = some g → dst ≠ workspace → sc.Enter g name dst
  order : ∀ g ∈ reordered db₀ workspace name dst before, sc.rows .group g

theorem moveGroup_done (hsc : sc.MoveGroup workspace name dst before) : Tx.Ensures (fun s => s.db = db₀)
    (moveGroup cx workspace name dst before) fun _ s => ∃ n, Mid sc n cx [] s := by
  refine .bind (.conseq knownGroup_begun (fun s h => begun_start (sc.without .group) cx h) fun _ _ h => h)
    fun g => .intro fun hg => ?_
  obtain ⟨r, hr, hlive, hws, -⟩ := groupId_some hg
  have horder := hsc.order
  unfold reordered at horder
  simp only [hg] at horder
  by_cases hd : dst ≠ workspace
  · simp only [if_pos hd] at horder ⊢
    refine .bind (.conseq (enterWorkspace_mid hsc.hosts (hsc.enter g hg hd) hr
      hlive (hws ▸ hd.symm)) (fun _ h => h) fun id s h => (⟨⟨h.1, congrArg Prod.snd h.2⟩,
        congrArg Prod.fst h.2⟩ : ((∃ n, Mid sc n cx [] s) ∧
          groupsOf s.db dst = (entered db₀ g name dst).2) ∧ id = (entered db₀ g name dst).1))
      fun id => .intro fun hid => ?_
    subst hid
    exact reorder_done horder
  · simp only [if_neg hd] at horder ⊢
    refine .bind (.pure g (Q := fun id s => Begun (sc.without .group) cx [] s ∧
      id = g) fun s h => ⟨h, rfl⟩) fun id => .intro fun hid => ?_
    subst hid
    refine .conseq (reorder_done horder) (fun s h => ⟨⟨_, h.1.widen⟩, ?_⟩) fun _ _ h => h
    rw [groupsOf, h.2, groupsOf]

/-! ## Moving a host -/

theorem moveHost_done {group : Option Text} {before : Option Uuid} (hh : ∀ id, sc.rows .host id) : Tx.Ensures
    (fun s => s.db = db₀) (moveHost cx id workspace group before) fun _ s => ∃ n, Mid sc n cx [] s := by
  unfold moveHost
  cases groupName group with
  | error e => exact .fail e
  | ok path =>
    refine .bind (query_ensures _) fun row => ?_
    refine .bind (R := fun _ => Mid sc noneReleased cx [])
      (.orFail fun s h r _ => (begun_start sc cx h.1).1) fun r => ?_
    refine .bind ensureGroupPath_mid fun groupId => ?_
    refine .bind (query_ensures _) fun order => ?_
    refine .bind (.conseq tick_mid (fun _ h => h.1) fun _ _ h => h) fun clock => ?_
    refine .bind (.forM fun e _ => placeHost_mid (hh e.1) List.mem_cons_self fun _ => ⟨rfl, rfl⟩) fun _ => ?_
    refine .bind (query_ensures _) fun record => .orFail fun s h _ _ => ?_
    exact ⟨_, h.1.mono (fun _ => le_refl _) (List.nil_subset _)⟩

/-! ## Host keys -/

theorem trustHostKey_done {algorithm fingerprint publicKey : Text}
    (hw : ∀ id, sc.rows .knownHost id) : Tx.Ensures (fun s => s.db = db₀)
    (trustHostKey cx address port algorithm fingerprint publicKey) fun _ s => ∃ n, Mid sc n cx [] s := by
  refine .bind (.conseq tick_mid (fun s h => (begun_start sc cx h).1) fun _ _ h => h) fun clock => ?_
  refine .bind nowV7_mid fun id => ?_
  refine .bind nowMs_mid fun firstSeenMs => ?_
  refine .bind (query_ensures _) fun slot => ?_
  refine .conseq (?_ : Tx.Ensures (Mid sc noneReleased cx [clock]) _
    fun _ => Mid sc noneReleased cx [clock]) (fun _ h => h.1)
    fun _ s h => ⟨_, h.mono (fun _ => le_refl _) (List.nil_subset _)⟩
  cases slot with
  | none => exact insertRow_mid (by decide) List.mem_cons_self
  | some e =>
    refine updateRow_mid (fun _ h => h) (fun i => le_refl 0) fun s r _ _ =>
      .inr ⟨?_, List.mem_cons_self⟩
    refine ⟨hw e.1, by decide, rfl, rfl, fun hk => absurd rfl hk, fun _ => le_refl _, ?_, ?_⟩
    · exact fun o ho => by cases ho
    · exact fun o ho => by cases ho

theorem forgetHostKey_done (hw : ∀ id, sc.rows .knownHost id) : Tx.Ensures
    (fun s => s.db = db₀) (forgetHostKey cx address port) fun _ s => ∃ n, Mid sc n cx [] s := by
  have done : ∀ {clock : Hlc} {s : TxState}, Mid sc noneReleased cx [clock] s →
      ∃ n, Mid sc n cx [] s := fun h => ⟨_, h.mono (fun _ => le_refl _) (List.nil_subset _)⟩
  refine .bind (.conseq tick_mid (fun s h => (begun_start sc cx h).1) fun _ _ h => h) fun clock => ?_
  refine .bind (query_ensures _) fun slot => ?_
  cases slot with
  | none => exact .pure _ fun s h => done h.1
  | some e =>
    refine .ite (fun _ => .pure _ fun s h => done h.1) fun _ => ?_
    refine .bind (.conseq (updateRow_mid (P := Mid sc noneReleased cx [clock])
      (fun _ h => h) (fun i => le_refl 0) fun s r _ _ => .inr ⟨?_, List.mem_cons_self⟩)
      (fun _ h => h.1) fun _ _ h => h) fun _ => .pure _ fun s h => done h
    refine ⟨hw e.1, by decide, rfl, rfl, fun hk => absurd rfl hk, fun _ => le_refl _, ?_, ?_⟩
    · exact fun o ho => by cases ho
    · exact fun o ho => by cases ho

/-! ## Imports -/

/-- A group that an import found by its name, or made. -/
def Scope.Named (sc : Scope db₀) : Prop :=
  ∀ (db : Db) (n : Uuid → ℕ) (device : UInt32) (g : Uuid) (r : Row GroupBody),
    Wrote sc n device db → db.row .group g = some r → r.body.name ≠ [] → sc.rows .group g

theorem importLogin_mid {set : ImportSet} {index : Option ℕ} :
    Tx.Ensures (Mid sc n cx cs) (importLogin cx set index) fun _ => Mid sc n cx cs := by
  unfold importLogin
  split
  · exact .pure _ fun _ h => h
  · split
    · refine .ite (fun _ => .pure _ fun _ h => h) fun _ => ?_
      refine .bind (R := fun _ => Mid sc n cx cs) ?_ fun secret => ?_
      · unfold importSecret
        split
        · exact .pure _ fun _ h => h
        · refine .ite (fun _ => .pure _ fun _ h => h) fun _ => ?_
          refine .bind (R := fun _ => Mid sc n cx cs) (.orFail fun _ h _ _ => h) fun vault => ?_
          exact .bind sealSecret_mid fun id => .pure _ fun s h => h.1
      · refine .bind tick_mid fun clock => ?_
        refine .bind (insertLogin_mid List.mem_cons_self) fun id => ?_
        exact .pure _ fun s h => h.mono (fun _ => le_refl _) (List.subset_cons_self _ _)
    · exact .pure _ fun _ h => h

/-- What holds after each part of an import: it never lets go of a login. -/
def Imported (sc : Scope db₀) (cx : Session) (s : TxState) : Prop := ∃ n, Mid sc n cx [] s

theorem Imported.lift {m : StoreTx α} (h : ∀ n, Tx.Ensures (Mid sc n cx []) m fun _ s => Imported sc cx s) :
    Tx.Ensures (Imported sc cx) m fun _ => Imported sc cx :=
  fun s ⟨n, hs⟩ a s' hm => h n s hs a s' hm

theorem importGroupLogin_imported {set : ImportSet} {login : Option ℕ} (hw : sc.rows .group id) :
    Tx.Ensures (Imported sc cx) (importGroupLogin cx set id login) fun _ => Imported sc cx := by
  refine Imported.lift fun n => ?_
  refine .bind (query_ensures _) fun hasLogin => ?_
  refine .ite (fun _ => .pure _ fun s h => ⟨n, h.1⟩) fun _ => ?_
  refine .bind (.conseq importLogin_mid (fun _ h => h.1) fun _ _ h => h) fun login => ?_
  cases login with
  | none => exact .pure _ fun s h => ⟨n, h⟩
  | some identity =>
    refine .bind tick_mid fun clock => ?_
    refine .conseq (updateRow_mid (fun _ h => h) (fun i => Nat.le_succ (n i))
      fun s r _ _ => .inr ⟨?_, List.mem_cons_self⟩) (fun _ h => h)
      fun _ s h => ⟨_, h.mono (fun _ => le_refl _) (List.nil_subset _)⟩
    refine ⟨hw, by decide, rfl, rfl, fun _ => le_refl _, fun i => ?_, ?_, ?_⟩
    · have : points .group r i ≤ 1 := by
        change (if _ then 1 else 0) ≤ 1
        split <;> omega
      omega
    · exact fun o ho => by cases ho
    · exact fun o ho => by cases ho

theorem groupName_ne_nil {value : Option Text} (h : groupName value = .ok (some name)) : name ≠ [] := by
  unfold groupName at h
  cases hb : blankToNone value with
  | none =>
    rw [hb] at h
    cases h
  | some v =>
    rw [hb] at h
    simp only at h
    split at h
    · cases h
    · split at h
      · cases h
      · cases h
        have := (Option.filter_eq_some_iff.mp hb).2
        intro he
        rw [he] at this
        cases this

section Import

variable [Platform]

theorem importDrives_mid {drives : Option DriveRedirection} (hw : sc.rows .group id) :
    Tx.Ensures (Mid sc n cx cs) (importDrives cx id drives) fun _ => Mid sc n cx cs := by
  cases drives with
  | none => exact .pure _ fun _ h => h
  | some drives =>
    refine .bind tick_mid fun clock => ?_
    refine .conseq (updateRow_mid (fun _ h => h) (fun i => le_refl (n i)) fun s r _ _ => ?_)
      (fun _ h => h) fun _ s h => h.mono (fun _ => le_refl _) (List.subset_cons_self _ _)
    split
    · exact .inl rfl
    · exact .inr ⟨rewrite_ok hw (by decide) (fun _ => rfl) rfl rfl, List.mem_cons_self⟩

variable {set : ImportSet}

theorem importGroup_imported {group : GroupInput} (hn : sc.Named) :
    Tx.Ensures (Imported sc cx) (importGroup cx set group) fun _ => Imported sc cx := by
  unfold importGroup
  cases hname : groupName (some group.name) with
  | error e => exact .fail e
  | ok o =>
    cases o with
    | none => exact .pure _ fun _ h => h
    | some name =>
      refine Imported.lift fun n => ?_
      refine .bind (.conseq ensureGroup_mid (fun _ h => h) fun id s h =>
        (⟨h.1, ?_⟩ : Mid sc n cx [] s ∧ sc.rows .group id)) fun id => .intro fun hw => ?_
      · obtain ⟨r, hr, hrn⟩ := h.2
        exact hn s.db n cx.device id r h.1.1 hr (hrn ▸ groupName_ne_nil hname)
      · refine .bind (importDrives_mid hw) fun _ => ?_
        exact .conseq (importGroupLogin_imported hw) (fun s h => ⟨n, h⟩) fun _ _ h => h

theorem writeHost_mid {host : HostInput} {login gatewayLogin : Option Uuid} :
    Tx.Ensures (Mid sc n cx cs) (writeHost cx host login gatewayLogin) fun _ => Mid sc n cx cs := by
  unfold writeHost
  cases groupName host.groupPath with
  | error e => exact .fail e
  | ok path =>
    refine .bind ensureGroupPath_mid fun group => ?_
    refine .bind (R := fun _ => Mid sc n cx cs) ?_ fun position => ?_
    · unfold importPosition
      split
      · exact .pure _ fun _ h => h
      · exact nextPosition_ensures _ _
    · refine .bind tick_mid fun clock => ?_
      refine .bind nowV7_mid fun id => ?_
      exact .conseq (insertRow_mid (by decide) List.mem_cons_self) (fun _ h => h)
        fun _ s h => h.mono (fun _ => le_refl _) (List.subset_cons_self _ _)

theorem importHosts_mid (hosts : List HostInput) (added : List (Text × UInt16)) :
    Tx.Ensures (Mid sc n cx cs) (importHosts cx set hosts added) fun _ => Mid sc n cx cs := by
  induction hosts generalizing added with
  | nil => exact .pure _ fun _ h => h
  | cons host rest ih =>
    refine .bind (query_ensures _) fun there => ?_
    refine .ite (fun _ => .conseq (ih added) (fun _ h => h.1) fun _ _ h => h) fun _ => ?_
    refine .bind (.conseq importLogin_mid (fun _ h => h.1) fun _ _ h => h) fun login => ?_
    refine .bind importLogin_mid fun gatewayLogin => ?_
    exact .bind writeHost_mid fun _ => ih _

omit [Platform] in
theorem writeKnownHost_mid {known : KnownHostInput} :
    Tx.Ensures (Mid sc n cx cs) (writeKnownHost cx known) fun _ => Mid sc n cx cs := by
  refine .bind (query_ensures _) fun slot => ?_
  cases slot with
  | some e => exact .pure _ fun s h => h.1
  | none =>
    refine .bind (.conseq tick_mid (fun _ h => h.1) fun _ _ h => h) fun clock => ?_
    refine .bind nowV7_mid fun id => ?_
    refine .bind nowMs_mid fun firstSeenMs => ?_
    exact .conseq (insertRow_mid (by decide) List.mem_cons_self) (fun _ h => h)
      fun _ s h => h.mono (fun _ => le_refl _) (List.subset_cons_self _ _)

theorem importSet_done (hn : sc.Named) :
    Tx.Ensures (fun s => s.db = db₀) (importSet cx set) fun _ s => ∃ n, Mid sc n cx [] s := by
  refine .bind (R := fun _ => Imported sc cx) (.require fun s h _ =>
    ⟨_, (begun_start sc cx h).1⟩) fun _ => ?_
  refine .bind (.forM fun group _ => importGroup_imported hn) fun _ => ?_
  refine .bind (Imported.lift fun n => .conseq (importHosts_mid set.hosts [])
    (fun _ h => h) fun _ s h => ⟨n, h⟩) fun added => ?_
  exact .forM fun known _ => Imported.lift fun n =>
    .conseq writeKnownHost_mid (fun _ h => h) fun _ s h => ⟨n, h⟩

end Import

end UwuRdp
