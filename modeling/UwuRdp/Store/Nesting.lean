import UwuRdp.Store.Ownership

/-!
# Groups have names of their own, hosts the workspace of their group

What a device that syncs with nobody holds, whatever it edits: no two live groups of a workspace share
a name, and a live host is in the workspace of the group it is in. A group enters another workspace
before its hosts do, so between these steps some hosts are still to follow.
-/

namespace UwuRdp

open Lib

variable {cx : Session} {db db' : Db} {k : EntityKind} {id g : Uuid} {s s' : TxState} {clock : Hlc}
  {workspace : Workspace} {group : Option Uuid}

def GroupIn (db : Db) (workspace : Workspace) (group : Option Uuid) : Prop :=
  ∀ g, group = some g → ∃ q, db.row .group g = some q ∧ q.body.workspace = workspace

structure Nested (db : Db) : Prop where
  unique : ∀ g g' r r', db.row .group g = some r → r.deleted = false → db.row .group g' = some r' →
    r'.deleted = false → r.body.workspace = r'.body.workspace → r.body.name = r'.body.name → g = g'
  placed : ∀ h r, db.row .host h = some r → r.deleted = false →
    GroupIn db r.body.workspace r.body.groupId

theorem nested_fresh (vaultId : Uuid) : Nested (Db.fresh vaultId) :=
  ⟨fun _ _ _ _ h => (nomatch h), fun _ _ h => (nomatch h)⟩

variable {name : Text} {path : Option Text} {set : ImportSet}

variable {r r' : Row GroupBody} {change : LoginChange}

/-! ## Rows -/

theorem GroupIn.congr (h : GroupIn db workspace group) (hg : db'.rows .group = db.rows .group) :
    GroupIn db' workspace group := by
  intro g hgroup
  obtain ⟨q, hq, hw⟩ := h g hgroup
  refine ⟨q, ?_, hw⟩
  unfold Db.row at hq ⊢
  rw [hg]
  exact hq

theorem GroupIn.setGroup (h : GroupIn db workspace group)
    (hw : ∀ q, db.row .group id = some q → r'.body.workspace = q.body.workspace) :
    GroupIn (db.setRow .group id r') workspace group := by
  intro g hgroup
  obtain ⟨q, hq, hws⟩ := h g hgroup
  by_cases hself : g = id
  · subst hself
    exact ⟨r', Db.row_setRow_self .., (hw q hq).trans hws⟩
  · exact ⟨q, (Db.row_setRow_ne_id hself).trans hq, hws⟩

theorem Nested.congr (h : Nested db) (hg : db'.rows .group = db.rows .group)
    (hh : db'.rows .host = db.rows .host) : Nested db' := by
  have hgroup : ∀ i, db'.row .group i = db.row .group i := fun i => by unfold Db.row; rw [hg]
  have hhost : ∀ i, db'.row .host i = db.row .host i := fun i => by unfold Db.row; rw [hh]
  refine ⟨fun g g' r r' hr hd hr' => ?_, fun i r hr hd => ?_⟩
  · rw [hgroup] at hr hr'
    exact h.unique g g' r r' hr hd hr'
  · rw [hhost] at hr
    exact (h.placed i r hr hd).congr hg

theorem Nested.of_rows (h : Nested db) (hr : db'.rows = db.rows) : Nested db' :=
  h.congr (by rw [hr]) (by rw [hr])

theorem Nested.setHost (h : Nested db) {r' : Row HostBody} (hr : db'.rows = (db.setRow .host id r').rows)
    (hin : r'.deleted = false → GroupIn db r'.body.workspace r'.body.groupId) : Nested db' := by
  have hgroups : (db.setRow .host id r').rows .group = db.rows .group := rows_setRow_ne (by decide)
  refine @Nested.of_rows (db.setRow .host id r') _ ?_ hr
  refine ⟨fun g g' r r'' hg hd hg' => ?_, fun i r hi hd => ?_⟩
  · rw [Db.row_setRow_ne_kind (by decide)] at hg hg'
    exact h.unique g g' r r'' hg hd hg'
  · by_cases hself : i = id
    · subst hself
      rw [Db.row_setRow_self] at hi
      cases hi
      exact (hin hd).congr hgroups
    · rw [Db.row_setRow_ne_id hself] at hi
      exact (h.placed i r hi hd).congr hgroups

/-- What a group that is written has to keep to: its name is its own in its workspace. -/
def NameFree (db : Db) (id : Uuid) (b : GroupBody) : Prop :=
  ∀ g r, g ≠ id → db.row .group g = some r → r.deleted = false → r.body.workspace = b.workspace →
    r.body.name ≠ b.name

theorem unique_setGroup (h : Nested db) (hfree : r'.deleted = false → NameFree db id r'.body)
    {g₁ g₂ : Uuid} {r₁ r₂ : Row GroupBody} (h₁ : (db.setRow .group id r').row .group g₁ = some r₁)
    (hd₁ : r₁.deleted = false) (h₂ : (db.setRow .group id r').row .group g₂ = some r₂) (hd₂ : r₂.deleted = false)
    (hw : r₁.body.workspace = r₂.body.workspace) (hn : r₁.body.name = r₂.body.name) : g₁ = g₂ := by
  by_cases hs₁ : g₁ = id
  · by_cases hs₂ : g₂ = id
    · exact hs₁.trans hs₂.symm
    · rw [hs₁, Db.row_setRow_self] at h₁
      cases h₁
      rw [Db.row_setRow_ne_id hs₂] at h₂
      exact absurd hn.symm (hfree hd₁ g₂ r₂ hs₂ h₂ hd₂ hw.symm)
  · rw [Db.row_setRow_ne_id hs₁] at h₁
    by_cases hs₂ : g₂ = id
    · rw [hs₂, Db.row_setRow_self] at h₂
      cases h₂
      exact absurd hn (hfree hd₂ g₁ r₁ hs₁ h₁ hd₁ hw)
    · rw [Db.row_setRow_ne_id hs₂] at h₂
      exact h.unique g₁ g₂ r₁ r₂ h₁ hd₁ h₂ hd₂ hw hn

theorem Nested.setGroup (h : Nested db) (hr : db'.rows = (db.setRow .group id r').rows)
    (hfree : r'.deleted = false → NameFree db id r'.body)
    (hw : ∀ q, db.row .group id = some q → r'.body.workspace = q.body.workspace) : Nested db' := by
  refine @Nested.of_rows (db.setRow .group id r') _ ?_ hr
  refine ⟨fun g g' r r'' hg hd hg' hd' hws hn => unique_setGroup h hfree hg hd hg' hd' hws hn, fun i r hi hd => ?_⟩
  rw [Db.row_setRow_ne_kind (by decide)] at hi
  exact (h.placed i r hi hd).setGroup hw

theorem Nested.nameFree (h : Nested db) (hr : db.row .group id = some r)
    (hd : r.deleted = false) : NameFree db id r.body := by
  intro g r₂ hne hr₂ hd₂ hw hn
  exact hne (h.unique g id r₂ r hr₂ hd₂ hr hd hw hn)

/-! ## Steps -/

def Nests (s : TxState) : Prop := Nested s.db

def NestsIn (workspace : Workspace) (group : Option Uuid) (s : TxState) : Prop :=
  Nests s ∧ GroupIn s.db workspace group

theorem NestsIn.of_rows (h : NestsIn workspace group s) (hr : s'.db.rows = s.db.rows) : NestsIn workspace group s' :=
  ⟨Nested.of_rows h.1 hr, h.2.congr (by rw [hr])⟩

theorem tick_nests : Tx.Ensures Nests (StoreTx.tick cx) fun _ => Nests :=
  fun _ hs _ _ hm => Nested.of_rows hs (by rw [(tick_eq_ok hm).2]; rfl)

theorem tick_nestsIn : Tx.Ensures (NestsIn workspace group) (StoreTx.tick cx) fun _ => NestsIn workspace group :=
  fun _ hs _ _ hm => hs.of_rows (by rw [(tick_eq_ok hm).2]; rfl)

theorem query_nests {α : Type} (f : Db → α) : Tx.Ensures Nests (StoreTx.query f) fun _ => Nests :=
  .conseq (query_ensures f) (fun _ h => h) fun _ _ h => h.1

theorem Nested.setKnownHost {r : Row KnownHostPayload} (h : Nested db) : Nested (db.setRow .knownHost id r) :=
  h.congr (rows_setRow_ne (by decide)) (rows_setRow_ne (by decide))

theorem updateKnownHost_nests {f : Row KnownHostPayload → Row KnownHostPayload} :
    Tx.Ensures Nests (StoreTx.updateRow .knownHost id f) fun _ => Nests :=
  updateRow_keeps (P := Nested) fun hs _ => hs.setKnownHost

theorem insertKnownHost_nests {r : Row KnownHostPayload} :
    Tx.Ensures Nests (StoreTx.insertRow .knownHost id r) fun _ => Nests := by
  intro s hs _ s' hm
  unfold Nests
  rw [(insertRow_ok hm).2.2]
  exact Nested.setKnownHost hs

theorem nowV7_nests : Tx.Ensures Nests (StoreTx.nowV7 cx) fun _ => Nests := by
  intro s hs _ s' hm
  cases hm
  exact hs

theorem nowMs_nests : Tx.Ensures Nests (StoreTx.nowMs cx) fun _ => Nests := by
  intro s hs _ s' hm
  cases hm
  exact hs

theorem updateGroup_nests {f : Row GroupBody → Row GroupBody}
    (hf : ∀ r, ((f r).deleted = false → r.deleted = false) ∧ (f r).body.workspace = r.body.workspace ∧
      (f r).body.name = r.body.name) :
    Tx.Ensures Nests (StoreTx.updateRow .group id f) fun _ => Nests := by
  refine updateRow_keeps (P := Nested) fun {db r} hs hr => ?_
  obtain ⟨hlive, hw, hn⟩ := hf r
  refine hs.setGroup rfl (fun hd => ?_) fun q hq => ?_
  · intro g₂ r₂ hne hr₂ hd₂ hws hname
    exact hs.nameFree hr (hlive hd) g₂ r₂ hne hr₂ hd₂ (hws.trans hw) (hname.trans hn)
  · rw [hr] at hq
    cases hq
    exact hw

theorem updateHost_nestsIn {f : HostBody → HostBody} (hf : ∀ b, (f b).workspace = workspace ∧ (f b).groupId = group) :
    Tx.Ensures (NestsIn workspace group) (StoreTx.updateRow .host id fun r => r.rewrite clock f) fun _ => NestsIn
    workspace group := by
  intro s hs _ s' hm
  rcases updateRow_ok hm with ⟨-, he⟩ | ⟨r, hr, -, he⟩
  · exact hs.of_rows (by rw [he])
  · refine ⟨Nested.setHost hs.1 (by rw [he]) fun _ => ?_, hs.2.congr ?_⟩
    · show GroupIn s.db (f r.body).workspace (f r.body).groupId
      rw [(hf _).1, (hf _).2]
      exact hs.2
    · rw [he]
      exact rows_setRow_ne (by decide)

theorem FindsGroup.nested (hf : FindsGroup workspace db db' path group) (h : Nested db) :
    Nested db' ∧ GroupIn db' workspace group := by
  cases hf with
  | ungrouped hr => exact ⟨h.of_rows hr, fun g hg => by cases hg⟩
  | found hn hr =>
    refine ⟨h.of_rows hr, fun g hg => ?_⟩
    cases hg
    obtain ⟨r, hrow, -, hw, -⟩ := groupId_some hn
    exact ⟨r, (row_congr hr _ _).trans hrow, hw⟩
  | made hn hnew hr =>
    refine ⟨h.setGroup hr (fun _ g r hne hrow hd hw => groupId_none hn hrow hd hw) fun q hq => ?_, fun g hg => ?_⟩
    · rw [hnew] at hq
      cases hq
    · cases hg
      exact ⟨_, by rw [row_congr hr]; exact Db.row_setRow_self .., rfl⟩

theorem ensureGroupPath_nests :
    Tx.Ensures Nests (ensureGroupPath cx workspace path) fun group => NestsIn workspace group :=
  fun _ hs _ _ hm => (ensureGroupPath_ok hm).nested hs

/-! ## Hosts -/

theorem Saves.nested {d : HostDraft} (hs : Saves cx d db db' id) (h : Nested db) : Nested db' := by
  cases hs with
  | @mk existing workspace position group own gateway db₁ db₂ db₃ db₄ steps =>
    obtain ⟨h₁, hin⟩ := steps.found.nested h
    have hrows : ∀ k, k ≠ .identity → k ≠ .secret → db₃.rows k = db₁.rows k := fun k hi hs =>
      (steps.through.rows_ne hi hs).trans (steps.login.rows_ne hi hs)
    have h₃ : Nested db₃ := h₁.congr (hrows _ (by decide) (by decide)) (hrows _ (by decide) (by decide))
    have hin₃ : GroupIn db₃ workspace group := hin.congr (hrows _ (by decide) (by decide))
    have h₄ : Nested db₄ := by
      cases steps.wrote with
      | edited _ _ _ rows | added _ _ rows => exact h₃.setHost rows fun _ => hin₃
    exact h₄.congr (steps.released.rows_ne (by decide) (by decide)) (steps.released.rows_ne (by decide) (by decide))

theorem SetsLogin.nested (hs : SetsLogin cx id change db db') (h : Nested db) : Nested db' := by
  cases hs with
  | @mk r a clock db₁ db₂ hrow live login rows released =>
    have h₁ : Nested db₁ := h.congr (login.rows_ne (by decide) (by decide)) (login.rows_ne (by decide) (by decide))
    have h₂ : Nested db₂ := h₁.setHost rows fun hd =>
      (h.placed id r hrow hd).congr (login.rows_ne (by decide) (by decide))
    exact h₂.congr (released.rows_ne (by decide) (by decide)) (released.rows_ne (by decide) (by decide))

theorem DeletesHost.nested (hs : DeletesHost id db db') (h : Nested db) : Nested db' := by
  cases hs with
  | @mk r clock db₁ hrow live rows released =>
    have h₁ : Nested db₁ := h.setHost rows fun hd => by cases hd
    exact h₁.congr (released.rows_ne (by decide) (by decide)) (released.rows_ne (by decide) (by decide))

theorem SetsGroupLogin.nested (hs : SetsGroupLogin cx id change db db') (h : Nested db) : Nested db' := by
  cases hs with
  | @mk r a clock db₁ db₂ hrow live login rows released =>
    have hgroups : db₁.rows .group = db.rows .group := login.rows_ne (by decide) (by decide)
    have h₁ : Nested db₁ := h.congr hgroups (login.rows_ne (by decide) (by decide))
    have hrow₁ : db₁.row .group id = some r := by
      unfold Db.row at hrow ⊢
      rw [hgroups]
      exact hrow
    have h₂ : Nested db₂ := by
      have hfree := h₁.nameFree hrow₁ live
      refine h₁.setGroup rows (fun _ => hfree) fun q hq => ?_
      rw [hrow₁] at hq
      cases hq
      rfl
    exact h₂.congr (released.rows_ne (by decide) (by decide)) (released.rows_ne (by decide) (by decide))

theorem moveHost_nests {before : Option Uuid} :
    Tx.Ensures Nests (moveHost cx id workspace path before) fun _ => Nests := by
  unfold moveHost
  split
  · exact .fail _
  · refine .bind (query_nests _) fun row => ?_
    refine .bind (R := fun _ => Nests) (.orFail fun _ h _ _ => h) fun r => ?_
    refine .bind ensureGroupPath_nests fun groupId => ?_
    refine .bind (.conseq (query_ensures _) (fun _ h => h) fun _ _ h => h.1) fun order => ?_
    refine .bind tick_nestsIn fun clock => ?_
    refine .bind (.forM fun e _ => updateHost_nestsIn fun _ => ⟨rfl, rfl⟩) fun _ => ?_
    refine .bind (.conseq (query_nests _) (fun _ h => h.1) fun _ _ h => h) fun record => ?_
    exact .orFail fun _ h _ _ => h

/-! ## Groups -/

theorem placeHosts_nestsIn (hosts : List Uuid) (position : ℤ) : Tx.Ensures (NestsIn workspace group)
    (placeHosts workspace group clock position hosts) fun _ => NestsIn workspace group := by
  induction hosts generalizing position with
  | nil => exact .pure _ fun _ h => h
  | cons id rest ih => exact .bind (updateHost_nestsIn fun _ => ⟨rfl, rfl⟩) fun _ => ih (position + 1)

theorem moveMembers_nestsIn {src : Uuid} : Tx.Ensures (NestsIn workspace group) (moveMembers cx src workspace group)
    fun _ => NestsIn workspace group := by
  refine .bind (.conseq (query_ensures _) (fun _ h => h) fun _ _ h => h.1) fun hosts => ?_
  refine .ite (fun _ => .pure _ fun _ h => h) fun _ => ?_
  refine .bind (nextPosition_ensures workspace group) fun first => ?_
  exact .bind tick_nestsIn fun clock => placeHosts_nestsIn _ first

theorem releaseAll_nests {identities : List Uuid} :
    Tx.Ensures Nests (releaseAll cx clock identities) fun _ => Nests := by
  intro s hs _ s' hm
  have hrel := releaseAll_ok hm
  exact Nested.congr hs (hrel.rows_ne (by decide) (by decide)) (hrel.rows_ne (by decide) (by decide))

theorem tombstoneGroup_nests : Tx.Ensures Nests (tombstoneGroup cx g) fun _ => Nests := by
  refine .bind tick_nests fun clock => .bind (query_nests _) fun row => ?_
  refine .bind (updateGroup_nests fun r => ?_) fun _ => releaseAll_nests
  split
  · exact ⟨fun h => h, rfl, rfl⟩
  · refine ⟨fun h => ?_, rfl, rfl⟩
    cases h

/-- The hosts of one group that are still to follow it into its new workspace. -/
structure Following (g : Uuid) (workspace : Workspace) (rest : List Uuid) (s : TxState) : Prop where
  unique : ∀ g₁ g₂ r₁ r₂, s.db.row .group g₁ = some r₁ → r₁.deleted = false →
    s.db.row .group g₂ = some r₂ → r₂.deleted = false → r₁.body.workspace = r₂.body.workspace →
    r₁.body.name = r₂.body.name → g₁ = g₂
  entered : GroupIn s.db workspace (some g)
  members : ∀ h ∈ rest, ∀ r, s.db.row .host h = some r → r.body.groupId = some g
  placed : ∀ h r, s.db.row .host h = some r → r.deleted = false →
    h ∈ rest ∨ GroupIn s.db r.body.workspace r.body.groupId

theorem updateHost_following {rest : List Uuid} :
    Tx.Ensures (Following g workspace (id :: rest))
      (StoreTx.updateRow .host id fun r => r.rewrite clock fun b => { b with workspace })
      fun _ => Following g workspace rest := by
  intro s hs _ s' hm
  have hother : ∀ h r, h ≠ id → s.db.row .host h = some r → r.deleted = false →
      h ∈ rest ∨ GroupIn s.db r.body.workspace r.body.groupId := fun h r hne hr hd =>
    (hs.placed h r hr hd).imp_left fun hin => (List.mem_cons.mp hin).resolve_left hne
  rcases updateRow_ok hm with ⟨hn, he⟩ | ⟨r, hr, -, he⟩
  · refine ⟨he ▸ hs.unique, he ▸ hs.entered, fun h hh => ?_, fun h q hq hd => ?_⟩
    · rw [he]
      exact hs.members h (List.mem_cons_of_mem id hh)
    · rw [he] at hq ⊢
      refine hother h q (fun hself => ?_) hq hd
      rw [hself, hn] at hq
      cases hq
  · have hgroups : s'.db.rows .group = s.db.rows .group := by
      rw [he]
      exact rows_setRow_ne (by decide)
    have hgroup : ∀ i, s'.db.row .group i = s.db.row .group i := fun i => by
      unfold Db.row
      rw [hgroups]
    have hmine : r.body.groupId = some g := hs.members id List.mem_cons_self r hr
    refine ⟨fun g₁ g₂ r₁ r₂ h₁ hd₁ h₂ => ?_, hs.entered.congr hgroups, fun h hh q hq => ?_, fun h q hq hd => ?_⟩
    · rw [hgroup] at h₁ h₂
      exact hs.unique g₁ g₂ r₁ r₂ h₁ hd₁ h₂
    · rw [he] at hq
      by_cases hself : h = id
      · rw [hself, Db.row_setRow_self] at hq
        cases hq
        exact hmine
      · rw [Db.row_setRow_ne_id hself] at hq
        exact hs.members h (List.mem_cons_of_mem id hh) q hq
    · rw [he] at hq
      by_cases hself : h = id
      · rw [hself, Db.row_setRow_self] at hq
        cases hq
        refine .inr (@GroupIn.congr s.db _ _ _ ?_ hgroups)
        show GroupIn s.db workspace r.body.groupId
        rw [hmine]
        exact hs.entered
      · rw [Db.row_setRow_ne_id hself] at hq
        exact (hother h q hself hq hd).imp_right fun hin => hin.congr hgroups

theorem setWorkspaces_following (hosts : List Uuid) :
    Tx.Ensures (Following g workspace hosts) (setWorkspaces workspace clock hosts) fun _ => Nests := by
  induction hosts with
  | nil =>
    refine .pure _ fun s hs => ⟨hs.unique, fun h r hr hd => ?_⟩
    exact (hs.placed h r hr hd).resolve_left List.not_mem_nil
  | cons id rest ih => exact .bind updateHost_following fun _ => ih

theorem following_of_entered (hs : Nested s.db) (hr : s.db.row .group g = some r)
    (hn : ∀ g₂ r₂, s.db.row .group g₂ = some r₂ → r₂.deleted = false → r₂.body.workspace = workspace →
      r₂.body.name ≠ r.body.name)
    (he : s'.db = s.db.setRow .group g (r.rewrite clock fun b => { b with workspace }))
    (hosts : List Uuid) (hh : hosts = ((s'.db.rows .host).select fun _ r =>
      !r.deleted && r.body.groupId = some g).map Prod.fst) : Following g workspace hosts s' := by
  have hhost : ∀ i, s'.db.row .host i = s.db.row .host i := fun i => by
    rw [he]
    exact Db.row_setRow_ne_kind (by decide)
  have hfree : NameFree s.db g (r.rewrite clock fun b => { b with workspace }).body :=
    fun g₂ r₂ _ hr₂ hd₂ hw₂ => hn g₂ r₂ hr₂ hd₂ hw₂
  refine ⟨fun g₁ g₂ r₁ r₂ h₁ hd₁ h₂ hd₂ hw hname => ?_, fun g' hg' => ?_, fun h hmem q hq => ?_, fun h q hq hd => ?_⟩
  · rw [he] at h₁ h₂
    exact unique_setGroup hs (fun _ => hfree) h₁ hd₁ h₂ hd₂ hw hname
  · cases hg'
    exact ⟨_, by rw [he]; exact Db.row_setRow_self .., rfl⟩
  · rw [hh, Table.mem_keys_select] at hmem
    obtain ⟨q', hq', hp⟩ := hmem
    have hsame : q' = q := Option.some.inj (hq'.symm.trans hq)
    rw [hsame] at hp
    simp only [Bool.and_eq_true, decide_eq_true_eq] at hp
    exact hp.2
  · by_cases hmine : q.body.groupId = some g
    · refine .inl ?_
      rw [hh, Table.mem_keys_select]
      exact ⟨q, hq, by simp [hd, hmine]⟩
    · refine .inr fun g' hg' => ?_
      rw [hhost] at hq
      obtain ⟨p, hp, hw⟩ := hs.placed h q hq hd g' hg'
      refine ⟨p, ?_, hw⟩
      have hother : g' ≠ g := by
        rintro rfl
        exact hmine hg'
      rw [he, Db.row_setRow_ne_id hother]
      exact hp

theorem enterWorkspace_nests : Tx.Ensures (fun s => Nests s ∧ ∃ r, s.db.row .group g = some r ∧ r.body.name = name)
    (enterWorkspace cx g name workspace) fun _ => Nests := by
  refine .bind (query_ensures _) fun found => ?_
  cases found with
  | some target =>
    refine .bind (R := fun _ => NestsIn workspace (some target)) (fun s hs => ?_) fun _ =>
      .bind (.conseq tombstoneGroup_nests (fun _ h => h.1) fun _ _ h => h) fun _ =>
        .pure _ fun _ h => h
    obtain ⟨r, hr, -, hw, -⟩ := groupId_some hs.2.symm
    refine moveMembers_nestsIn s ⟨hs.1.1, fun d hd => ?_⟩
    cases hd
    exact ⟨r, hr, hw⟩
  | none =>
    intro s hs _ s' hm
    obtain ⟨clock, s₁, h₁, hm⟩ := Tx.bind_eq_ok.mp hm
    obtain ⟨_, s₂, h₂, hm⟩ := Tx.bind_eq_ok.mp hm
    obtain ⟨hosts, s₃, h₃, hm⟩ := Tx.bind_eq_ok.mp hm
    cases h₃
    obtain ⟨_, s₄, h₄, hm⟩ := Tx.bind_eq_ok.mp hm
    cases hm
    have hrows : s₁.db.rows = s.db.rows := by rw [(tick_eq_ok h₁).2]; rfl
    have hnest : Nested s₁.db := Nested.of_rows hs.1.1 hrows
    have hunnamed : groupId s₁.db workspace name = none := by
      rw [groupId_of_rows_eq hrows]
      exact hs.2.symm
    obtain ⟨q, hq, hname⟩ := hs.1.2
    rcases updateRow_ok h₂ with ⟨hn, -⟩ | ⟨r, hr, -, he⟩
    · rw [row_congr hrows, hq] at hn
      cases hn
    · have hsame : q = r := Option.some.inj ((hq.symm.trans (row_congr hrows _ _).symm).trans hr)
      rw [hsame] at hname
      refine setWorkspaces_following _ s₂ (following_of_entered hnest hr (fun g₂ r₂ hr₂ hd₂ hw₂ => ?_) he _ rfl) _ _ h₄
      rw [hname]
      exact groupId_none hunnamed hr₂ hd₂ hw₂

theorem moveGroup_nests {dst : Workspace} {before : Option Text} :
    Tx.Ensures Nests (moveGroup cx workspace name dst before) fun _ => Nests := by
  refine moveGroup_ensures query_nests tick_nests (fun _ _ => ?_) fun g _ => ?_
  · exact .forM fun e _ => updateGroup_nests fun r => ⟨fun h => h, rfl, rfl⟩
  · refine .conseq enterWorkspace_nests (fun s hs => ⟨hs.1, ?_⟩) fun _ _ h => h
    obtain ⟨r, hr, -, -, hname⟩ := groupId_some hs.2
    exact ⟨r, hr, hname⟩

theorem renameGroup_nests {src dst : Text} : Tx.Ensures Nests (renameGroup cx workspace src dst) fun _ => Nests := by
  unfold renameGroup
  split
  · exact .fail _
  · next name _ =>
    refine .ite (fun _ => .pure _ fun _ h => h) fun hne => ?_
    refine .bind (knownGroup_ensures workspace src) fun srcId => ?_
    refine .bind (query_ensures _) fun found => ?_
    cases found with
    | some dstId =>
      refine .bind (R := fun _ => NestsIn workspace (some dstId)) (fun s hs => ?_) fun _ =>
        .conseq tombstoneGroup_nests (fun _ h => h.1) fun _ _ h => h
      obtain ⟨r, hr, -, hw, -⟩ := groupId_some hs.2.symm
      refine moveMembers_nestsIn s ⟨hs.1.1, fun d hd => ?_⟩
      cases hd
      exact ⟨r, hr, hw⟩
    | none =>
      intro s hs _ s' hm
      obtain ⟨clock, s₁, h₁, hm⟩ := Tx.bind_eq_ok.mp hm
      have hrows : s₁.db.rows = s.db.rows := by rw [(tick_eq_ok h₁).2]; rfl
      have hnest : Nested s₁.db := Nested.of_rows hs.1.1 hrows
      have hunnamed : groupId s₁.db workspace name = none := by
        rw [groupId_of_rows_eq hrows]
        exact hs.2.symm
      rcases updateRow_ok hm with ⟨-, he⟩ | ⟨r, hr, -, he⟩
      · exact Nested.of_rows hnest (by rw [he])
      · obtain ⟨r', hr', -, hws, -⟩ := groupId_some hs.1.2
        rw [row_congr hrows] at hr
        rw [hr] at hr'
        cases hr'
        refine Nested.setGroup hnest (by rw [he]) (fun _ g₂ r₂ _ hr₂ hd₂ hw₂ => ?_) fun q hq => ?_
        · exact groupId_none hunnamed hr₂ hd₂ (hw₂.trans hws)
        · rw [row_congr hrows, hr] at hq
          cases hq
          rfl

theorem deleteGroup_nests : Tx.Ensures Nests (deleteGroup cx workspace name) fun _ => Nests := by
  refine .bind (knownGroup_ensures workspace name) fun g => ?_
  refine .bind (.conseq moveMembers_nestsIn (fun s hs => ⟨hs.1, fun g hg => by cases hg⟩) fun _ _ h => h) fun _ => ?_
  exact .conseq tombstoneGroup_nests (fun _ h => h.1) fun _ _ h => h

/-! ## Imports -/

theorem importLogin_nests {index : Option ℕ} : Tx.Ensures Nests (importLogin cx set index) fun _ => Nests := by
  intro s hs _ s' hm
  rcases importLogin_ok hm with ⟨-, hrows⟩ | ⟨change, ha⟩
  · exact Nested.of_rows hs hrows
  · exact Nested.congr hs (ha.rows_ne (by decide) (by decide)) (ha.rows_ne (by decide) (by decide))

theorem ensureGroup_nests : Tx.Ensures Nests (ensureGroup cx workspace name) fun _ => Nests := by
  intro s hs g s' hm
  have hpath : ensureGroupPath cx workspace (some name) s = .ok (some g, s') := Tx.bind_eq_ok.mpr ⟨g, s', hm, rfl⟩
  exact ((ensureGroupPath_ok hpath).nested hs).1

variable [Platform]

theorem importGroup_nests {input : GroupInput} : Tx.Ensures Nests (importGroup cx set input) fun _ => Nests := by
  unfold importGroup
  split
  · exact .fail _
  · exact .pure _ fun _ h => h
  · refine .bind ensureGroup_nests fun g => ?_
    refine .bind (R := fun _ => Nests) ?_ fun _ => ?_
    · cases input.drives with
      | none => exact .pure _ fun _ h => h
      | some drives =>
        refine .bind tick_nests fun clock => updateGroup_nests fun r => ?_
        split <;> exact ⟨fun h => h, rfl, rfl⟩
    · refine .bind (query_nests _) fun has => ?_
      refine .ite (fun _ => .pure _ fun _ h => h) fun _ => ?_
      refine .bind importLogin_nests fun login => ?_
      cases login with
      | none => exact .pure _ fun _ h => h
      | some identity =>
        exact .bind tick_nests fun clock => updateGroup_nests fun r => ⟨fun h => h, rfl, rfl⟩

theorem writeHost_nests {host : HostInput} {login gatewayLogin : Option Uuid} :
    Tx.Ensures Nests (writeHost cx host login gatewayLogin) fun _ => Nests := by
  unfold writeHost
  split
  · exact .fail _
  · refine .bind ensureGroupPath_nests fun group => ?_
    refine .bind (R := fun _ => NestsIn host.workspace group) ?_ fun position => ?_
    · cases host.position with
      | some p => exact .pure _ fun _ h => h
      | none => exact nextPosition_ensures host.workspace group
    · refine .bind tick_nestsIn fun clock => ?_
      intro s hs _ s' hm
      obtain ⟨id, s₁, h₁, hm⟩ := Tx.bind_eq_ok.mp hm
      cases h₁
      exact Nested.setHost hs.1 (by rw [(insertRow_ok hm).2.2]) fun _ => hs.2

theorem importHosts_nests (hosts : List HostInput) (added : List (Text × UInt16)) :
    Tx.Ensures Nests (importHosts cx set hosts added) fun _ => Nests := by
  induction hosts generalizing added with
  | nil => exact .pure _ fun _ h => h
  | cons host rest ih =>
    refine .bind (query_nests _) fun there => .ite (fun _ => ih added) fun _ => ?_
    refine .bind importLogin_nests fun login => .bind importLogin_nests fun gatewayLogin => ?_
    exact .bind writeHost_nests fun _ => ih _

theorem importSet_nests : Tx.Ensures Nests (importSet cx set) fun _ => Nests := by
  refine .bind (R := fun _ => Nests) (.require fun _ h _ => h) fun _ => ?_
  refine .bind (.forM fun group _ => importGroup_nests) fun _ => ?_
  refine .bind (importHosts_nests set.hosts []) fun added => ?_
  refine .forM fun known _ => .bind (query_nests _) fun slot => ?_
  cases slot with
  | some _ => exact .pure _ fun _ h => h
  | none =>
    refine .bind tick_nests fun clock => .bind nowV7_nests fun id => ?_
    exact .bind nowMs_nests fun _ => insertKnownHost_nests

/-! ## Every edit -/

theorem LocalOp.call_nests {op : LocalOp} : Tx.Ensures Nests (op.call cx) fun _ => Nests := by
  cases op with
  | saveHost draft =>
    refine ignore_ensures fun s hs record s' hm => ?_
    obtain ⟨d, id, -, hsaves, -⟩ := saveHost_ok hm
    exact hsaves.nested hs
  | deleteHost id => exact fun s hs _ s' hm => (deleteHost_ok hm).nested hs
  | setHostLogin id username domain password =>
    exact ignore_ensures fun s hs _ s' hm => (setHostLogin_ok hm).nested hs
  | forgetHostPassword id =>
    refine ignore_ensures fun s hs record s' hm => ?_
    obtain ⟨host, -, hm⟩ := forgetHostPassword_ok hm
    obtain ⟨d, id, -, hsaves, -⟩ := saveHost_ok hm
    exact hsaves.nested hs
  | moveHost id workspace group before => exact ignore_ensures moveHost_nests
  | createGroup workspace name =>
    refine ignore_ensures ?_
    unfold UwuRdp.createGroup
    split
    · exact .fail _
    · refine .bind (query_nests _) fun found => ?_
      exact .bind (R := fun _ => Nests) (.require fun _ h _ => h) fun _ => ensureGroup_nests
  | setGroupDrives workspace name drives =>
    refine .bind (.conseq (knownGroup_ensures workspace name) (fun _ h => h) fun _ _ h => h.1) fun g => ?_
    exact .bind tick_nests fun clock => updateGroup_nests fun r => ⟨fun h => h, rfl, rfl⟩
  | setGroupLogin workspace name change =>
    intro s hs _ s' hm
    obtain ⟨g, -, hsets⟩ := setGroupLogin_ok hm
    exact hsets.nested hs
  | renameGroup workspace src dst => exact renameGroup_nests
  | moveGroup workspace name dst before => exact moveGroup_nests
  | deleteGroup workspace name => exact deleteGroup_nests
  | trustHostKey address port algorithm fingerprint publicKey =>
    refine .bind tick_nests fun clock => .bind nowV7_nests fun id => ?_
    refine .bind nowMs_nests fun first => .bind (query_nests _) fun slot => ?_
    cases slot with
    | none => exact insertKnownHost_nests
    | some e => exact updateKnownHost_nests
  | forgetHostKey address port =>
    refine ignore_ensures (.bind tick_nests fun clock => .bind (query_nests _) fun slot => ?_)
    cases slot with
    | none => exact .pure _ fun _ h => h
    | some e =>
      refine .ite (fun _ => .pure _ fun _ h => h) fun _ => ?_
      exact .bind updateKnownHost_nests fun _ => .pure _ fun _ h => h
  | importSet set => exact importSet_nests

theorem Nested.run {op : LocalOp} (h : Nested db) : Nested (op.run cx db) := by
  unfold LocalOp.run Session.run
  cases hm : op.call cx ⟨db, 0⟩ with
  | ok r => exact LocalOp.call_nests ⟨db, 0⟩ h r.1 r.2 hm
  | error e => exact h

/-- **Where nobody syncs, a group is told by its name, and its hosts are in its workspace**, after any edits. -/
theorem local_runs_nested (vaultId : Uuid) (edits : List (Session × LocalOp)) :
    Nested (runEdits (Db.fresh vaultId) edits) := by
  have hfrom : ∀ db, Nested db → Nested (runEdits db edits) := by
    induction edits with
    | nil => exact fun db h => h
    | cons edit rest ih => exact fun db h => ih _ h.run
  exact hfrom _ (nested_fresh vaultId)

end UwuRdp
