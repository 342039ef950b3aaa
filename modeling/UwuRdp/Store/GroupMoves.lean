import UwuRdp.Store.Moves
import UwuRdp.Store.Nesting

/-!
# What the move of a group leaves

A group moves within its workspace, or enters the other one with its hosts. Onto a group of the same
name there it merges: its hosts join that group, it is deleted, and that group is the one moved.
-/

namespace UwuRdp

open Lib

variable {db db' : Db} {cx : Session} {s s' : TxState} {g id : Uuid} {clock : Hlc}
  {workspace dst : Workspace} {name : Text}

def GroupBody.place (b : GroupBody) : Workspace × ℤ := (b.workspace, b.position)

/-- A group keeps everything but its place, and as long as it keeps that too it is not written. -/
structure GroupStays (r r' : Row GroupBody) : Prop where
  body : r'.body = { r.body with workspace := r'.body.workspace, position := r'.body.position }
  deleted : r'.deleted = r.deleted
  untouched : r'.body.place = r.body.place → r' = r
  pushed : r'.body.place ≠ r.body.place → r'.dirty = true

theorem GroupStays.refl (r : Row GroupBody) : GroupStays r r :=
  ⟨rfl, rfl, fun _ => rfl, fun h => absurd rfl h⟩

def Carried (workspace : Workspace) (group : Uuid) (r r' : Row HostBody) : Prop :=
  r'.deleted = r.deleted ∧
    r'.body = { r.body with workspace, groupId := some group, position := r'.body.position }

/-- The group that is moved: the one named, or the one of its name where it merges. -/
def movedGroup (db : Db) (g : Uuid) (workspace : Workspace) (name : Text) (dst : Workspace) : Uuid :=
  if dst = workspace then g else (groupId db dst name).getD g

/-- The groups of a workspace with the moved one in its place. -/
def groupsWith (db : Db) (workspace : Workspace) (id : Uuid) (before : Option Uuid) : List Uuid :=
  putBefore (((shownGroups db workspace).map Prod.fst).filter fun i => i ≠ id) id before

/-- What the move of a group leaves: `g` is the group named and `id` the one moved, which are two
where it merges. -/
structure GroupMoved (db db' : Db) (g id : Uuid) (workspace dst : Workspace) (before : Option Uuid) :
    Prop where
  order : (shownGroups db' dst).map Prod.fst = groupsWith db dst id before
  positions : (shownGroups db' dst).Pairwise fun a b => a.2 < b.2
  rows : ∀ i r, db.row .group i = some r → (i = g → id = g) →
    ∃ r', db'.row .group i = some r' ∧ GroupStays r r'
  merged : id ≠ g → ∃ r clock, db.row .group g = some r ∧
    db'.row .group g = some (r.tombstone clock fun b => b)
  missing : ∀ i, db.row .group i = none → db'.row .group i = none
  outside : ∀ i r, db.row .group i = some r → i ≠ g →
    (r.deleted = true ∨ r.body.workspace ≠ dst) → db'.row .group i = some r
  hosts : ∀ i r, db.row .host i = some r →
    (dst = workspace ∨ r.deleted = true ∨ r.body.groupId ≠ some g) → db'.row .host i = some r
  members : dst ≠ workspace → ∀ i r, db.row .host i = some r → r.deleted = false →
    r.body.groupId = some g → ∃ r', db'.row .host i = some r' ∧ Carried dst id r r'
  knownHosts : db'.rows .knownHost = db.rows .knownHost
  logins : id = g → db'.rows .identity = db.rows .identity ∧ db'.rows .secret = db.rows .secret

/-! ## Hosts that go along -/

/-- What becomes of the hosts of a group. -/
structure HostsCarried (db db' : Db) (g : Uuid) (workspace : Workspace) (group : Uuid) : Prop where
  others : ∀ i r, db.row .host i = some r → (r.deleted = true ∨ r.body.groupId ≠ some g) →
    db'.row .host i = some r
  members : ∀ i r, db.row .host i = some r → r.deleted = false → r.body.groupId = some g →
    ∃ r', db'.row .host i = some r' ∧ Carried workspace group r r'

def membersOf (db : Db) (g : Uuid) : List Uuid :=
  ((db.rows .host).select fun _ r => !r.deleted && r.body.groupId = some g).map Prod.fst

variable {i group : Uuid} {r : Row GroupBody}

theorem mem_membersOf : i ∈ membersOf db g ↔
    ∃ r, db.row .host i = some r ∧ r.deleted = false ∧ r.body.groupId = some g := by
  unfold membersOf
  rw [Table.mem_keys_select]
  simp only [Bool.and_eq_true, Bool.not_eq_true', decide_eq_true_eq]
  rfl

theorem HostsCarried.of_members {hosts : List Uuid}
    (hhosts : ∀ i, i ∈ hosts ↔ i ∈ membersOf db g)
    (hin : ∀ i r, i ∈ hosts → db.row .host i = some r → ∃ r', db'.row .host i = some r' ∧
      Carried workspace group r r')
    (hout : ∀ i, i ∉ hosts → db'.row .host i = db.row .host i) :
    HostsCarried db db' g workspace group := by
  refine ⟨fun i r hr hoff => (hout i fun hm => ?_).trans hr, fun i r hr hlive hg =>
    hin i r ((hhosts i).mpr (mem_membersOf.mpr ⟨r, hr, hlive, hg⟩)) hr⟩
  obtain ⟨r', hr', hlive, hg⟩ := mem_membersOf.mp ((hhosts i).mp hm)
  rw [hr] at hr'
  cases hr'
  rcases hoff with h | h
  · rw [hlive] at h
    cases h
  · exact h hg

variable {u : Unit}

theorem placeHosts_ok {hosts : List Uuid} {position : ℤ}
    (hnodup : hosts.Nodup)
    (h : placeHosts workspace (some group) clock position hosts s = .ok (u, s')) :
    (∀ i r, i ∈ hosts → s.db.row .host i = some r → ∃ r', s'.db.row .host i = some r' ∧
      Carried workspace group r r') ∧
      (∀ i, i ∉ hosts → s'.db.row .host i = s.db.row .host i) ∧
      ∀ k, k ≠ .host → s'.db.rows k = s.db.rows k := by
  induction hosts generalizing s position with
  | nil =>
    cases h
    exact ⟨fun i r hi => absurd hi List.not_mem_nil, fun _ _ => rfl, fun _ _ => rfl⟩
  | cons j hosts ih =>
    obtain ⟨⟨⟩, s₁, h₁, h⟩ := Tx.bind_eq_ok.mp h
    rw [List.nodup_cons] at hnodup
    obtain ⟨hin, hout, hother⟩ := ih hnodup.2 h
    obtain ⟨hrow, htable⟩ := updateRow_rows h₁
    refine ⟨fun i r hi hr => ?_, fun i hi => ?_, fun k hk => (hother k hk).trans (htable k hk)⟩
    · rcases List.mem_cons.mp hi with rfl | hi
      · have hrow' := (hout i hnodup.1).trans (hrow i)
        rw [if_pos rfl, hr] at hrow'
        exact ⟨_, hrow', rfl, rfl⟩
      · refine hin i r hi ((hrow i).trans ?_)
        rw [if_neg (ne_of_mem_of_not_mem hi hnodup.1), hr]
    · rw [List.mem_cons, not_or] at hi
      rw [hout i hi.2, hrow, if_neg hi.1]

/-! ## Coming in -/

/-- What is left once the group is in its workspace, and which group it is there. -/
structure Entered (db db' : Db) (g id : Uuid) (workspace dst : Workspace) (name : Text) : Prop where
  hosts : HostsCarried db db' g dst id
  others : ∀ i, i ≠ g → db'.row .group i = db.row .group i
  live : ∃ r, db'.row .group id = some r ∧ r.deleted = false ∧ r.body.workspace = dst
  merged : id ≠ g → groupId db dst name = some id ∧ ∃ r clock, db.row .group g = some r ∧
    db'.row .group g = some (r.tombstone clock fun b => b)
  joined : id = g → groupId db dst name = none ∧ ∃ r clock, db.row .group g = some r ∧
    db'.row .group g = some (r.rewrite clock fun b => { b with workspace := dst })
  knownHosts : db'.rows .knownHost = db.rows .knownHost
  logins : id = g → db'.rows .identity = db.rows .identity ∧ db'.rows .secret = db.rows .secret
  groups : ((groupsOf db' dst).filter fun e => e.1 ≠ id) = (groupsOf db dst).filter fun e => e.1 ≠ id
  named : ∀ b, groupId db' dst b = groupId db dst b ∨
    groupId db' dst b = some id ∧ groupId db dst b = none

theorem tombstoneGroup_kept {k : EntityKind} {t : Table Uuid (Row (Body k))} (hg : k ≠ .group) (hi : k ≠ .identity)
    (hs : k ≠ .secret) : Tx.Ensures (Kept k t) (tombstoneGroup cx g) fun _ => Kept k t := by
  refine .bind tick_kept fun clock => ?_
  refine .bind (query_kept _) fun row => ?_
  exact .bind (updateRow_kept hg) fun _ => releaseAll_kept hi hs _

theorem moveMembers_ok (h : moveMembers cx g workspace (some group) s = .ok (u, s')) : HostsCarried s.db
    s'.db g workspace group ∧ ∀ k, k ≠ .host → s'.db.rows k = s.db.rows k := by
  obtain ⟨hosts, s₁, h₁, h⟩ := Tx.bind_eq_ok.mp h
  cases h₁
  have hmem : ∀ i, i ∈ ((hostOrder s.db fun _ b => b.groupId = some g).map Prod.fst) ↔ i ∈ membersOf s.db g := by
    intro i
    rw [mem_membersOf, List.mem_map]
    constructor
    · rintro ⟨⟨j, p⟩, hm, rfl⟩
      obtain ⟨r, hr, hlive, hg, -⟩ := mem_hostOrder_iff.mp hm
      exact ⟨r, hr, hlive, of_decide_eq_true hg⟩
    · rintro ⟨r, hr, hlive, hg⟩
      exact ⟨(i, r.body.position), mem_hostOrder_iff.mpr ⟨r, hr, hlive, decide_eq_true hg, rfl⟩, rfl⟩
  have hnodup := nodup_hostOrder s.db fun _ b => b.groupId = some g
  dsimp only at h
  split at h
  · next hempty =>
    cases h
    rw [List.isEmpty_iff] at hempty
    refine ⟨.of_members hmem (fun i r hi => ?_) fun i _ => rfl, fun _ _ => rfl⟩
    rw [hempty] at hi
    cases hi
  · obtain ⟨first, s₁, h₁, h⟩ := Tx.bind_eq_ok.mp h
    have hs := nextPosition_ok h₁
    subst hs
    obtain ⟨clock, s₂, h₂, h⟩ := Tx.bind_eq_ok.mp h
    have hrows : s₂.db.rows = s₁.db.rows := by rw [(tick_eq_ok h₂).2]; rfl
    obtain ⟨hin, hout, hother⟩ := placeHosts_ok hnodup h
    refine ⟨.of_members hmem (fun i r hi hr => hin i r hi ((row_congr hrows _ _).trans hr))
      fun i hi => (hout i hi).trans (row_congr hrows _ _), fun k hk => ?_⟩
    rw [hother k hk, hrows]

theorem HostsCarried.congr {group : Uuid} {db₁ : Db} (h : HostsCarried db db₁ g workspace group)
    (he : db'.rows .host = db₁.rows .host) : HostsCarried db db' g workspace group := by
  have hrow : ∀ i, db'.row .host i = db₁.row .host i := fun i => by rw [Db.row, he, Db.row]
  refine ⟨fun i r hr hoff => (hrow i).trans (h.others i r hr hoff), fun i r hr hlive hg => ?_⟩
  obtain ⟨r', hr', hc⟩ := h.members i r hr hlive hg
  exact ⟨r', (hrow i).trans hr', hc⟩

theorem merge_entered {target : Uuid} (hr : s.db.row .group g = some r) (hlive : r.deleted = false)
    (hws : r.body.workspace ≠ dst) (htarget : groupId s.db dst name = some target) {s₁ : TxState} {v : Unit}
    (h₁ : moveMembers cx g dst (some target) s = .ok (u, s₁)) (h₂ : tombstoneGroup cx g s₁ = .ok (v, s')) : Entered
    s.db s'.db g target workspace dst name := by
  obtain ⟨hcarried, hother₁⟩ := moveMembers_ok h₁
  have hgroups : s₁.db.rows .group = s.db.rows .group := hother₁ .group (by decide)
  obtain ⟨clock, htable⟩ := tombstoneGroup_table (t := s.db.rows .group) hr s₁ hgroups v s' h₂
  have hhosts := tombstoneGroup_kept (k := .host) (by decide) (by decide) (by decide) s₁ rfl v s' h₂
  have hknown := tombstoneGroup_kept (k := .knownHost) (by decide) (by decide) (by decide) s₁ rfl v s' h₂
  have hrow : ∀ i, s'.db.row .group i = if i = g then some (r.tombstone clock fun b => b) else
      s.db.row .group i := by
    intro i
    rw [Db.row, htable, Table.get?_set, hlive]
    rfl
  obtain ⟨r', hr', hlive', hws', -⟩ := groupId_some htarget
  have hne : target ≠ g := by
    rintro rfl
    rw [hr] at hr'
    cases hr'
    exact hws hws'
  have hsame : groupsOf s'.db dst = groupsOf s.db dst := groupsOf_tombstone hr hws htable
  refine ⟨hcarried.congr hhosts, fun i hi => ?_, ⟨r', ?_, hlive', hws'⟩,
    fun _ => ⟨htarget, r, clock, hr, ?_⟩, fun he => absurd he hne, ?_, fun he => absurd he hne,
    by rw [hsame], fun b => Or.inl (by rw [groupId_eq, hsame, groupId_eq])⟩
  · rw [hrow, if_neg hi]
  · rw [hrow, if_neg hne, hr']
  · rw [hrow, if_pos rfl]
  · exact hknown.trans (hother₁ .knownHost (by decide))

theorem groups_of_joined (h : groupsOf db' dst =
      ((db.rows .group).select fun id r => !r.deleted && (r.body.workspace = dst || id = g)).map
        fun r => (r.1, r.2.body.position, r.2.body.name)) (hr : db.row .group g = some r) :
    ((groupsOf db' dst).filter fun e => e.1 ≠ g) = ((groupsOf db dst).filter fun e => e.1 ≠ g) ∧
      ∀ b, b ≠ r.body.name → groupId db' dst b = groupId db dst b := by
  have hrow : ∀ e ∈ (db.rows .group).entries, e.1 = g → e.2 = r := by
    rintro ⟨i, r'⟩ he rfl
    have := Table.mem_entries.mp he
    rw [Db.row, this] at hr
    exact Option.some.inj hr
  constructor
  · rw [h, groupsOf, List.filter_map, List.filter_map, Table.select, Table.select, List.filter_filter,
      List.filter_filter]
    congr 1
    refine List.filter_congr fun e _ => ?_
    by_cases he : e.1 = g <;> simp [he]
  · intro b hb
    rw [groupId_eq, groupId_eq, groupNamed, groupNamed, h, groupsOf, List.filter_map, List.filter_map,
      Table.select, Table.select, List.filter_filter, List.filter_filter]
    congr 4
    refine List.filter_congr fun e he => ?_
    by_cases hg : e.1 = g
    · have hname : decide (e.2.body.name = b) = false := by
        rw [hrow e he hg]
        exact decide_eq_false (Ne.symm hb)
      simp only [Function.comp_apply, hname, Bool.false_and]
    · simp [hg]

theorem join_entered (hr : s.db.row .group g = some r) (hlive : r.deleted = false)
    (hname : r.body.name = name) (hfree : groupId s.db dst name = none) {s₁ s₂ : TxState} {c : Hlc} {v : Unit}
    (h₁ : StoreTx.tick cx s = .ok (c, s₁))
    (h₂ : StoreTx.updateRow .group g (fun r => r.rewrite c fun b => { b with workspace := dst }) s₁ =
      .ok (u, s₂))
    (h₃ : setWorkspaces dst c (membersOf s₂.db g) s₂ = .ok (v, s')) :
    Entered s.db s'.db g g workspace dst name := by
  have hrows : s₁.db.rows = s.db.rows := by rw [(tick_eq_ok h₁).2]; rfl
  obtain ⟨hgroup, hother₂⟩ := updateRow_rows h₂
  have hmembers : membersOf s₂.db g = membersOf s.db g := by
    rw [membersOf, hother₂ .host (by decide), hrows, membersOf]
  have hhost₂ : ∀ i, s₂.db.row .host i = s.db.row .host i := by
    intro i
    rw [Db.row, hother₂ .host (by decide), hrows, Db.row]
  have hnodup : ((membersOf s₂.db g).map fun i => i).Nodup := by
    rw [List.map_id']
    exact Table.nodup_select _ _
  obtain ⟨hin, hout, hother₃⟩ := updateRows_ok (k := .host)
    (f := fun _ r => r.rewrite c fun b => { b with workspace := dst }) hnodup h₃
  rw [List.map_id'] at hout
  have hkinds : ∀ k, k ≠ .host → k ≠ .group → s'.db.rows k = s.db.rows k := by
    intro k hk hk'
    rw [hother₃ k hk, hother₂ k hk', hrows]
  have hrow : ∀ i, s'.db.row .group i = if i = g then (s.db.row .group i).map fun r =>
      r.rewrite c fun b => { b with workspace := dst } else s.db.row .group i := by
    intro i
    rw [Db.row, hother₃ .group (by decide)]
    exact (hgroup i).trans (by rw [row_congr hrows])
  have hg : s'.db.row .group g = some (r.rewrite c fun b => { b with workspace := dst }) := by
    rw [hrow, if_pos rfl, hr]
    rfl
  have htable : s'.db.rows .group = (s.db.rows .group).set g (r.rewrite c fun b => { b with workspace := dst }) :=
    (hother₃ .group (by decide)).trans (updateRow_table hr s₁ (congrFun hrows _) u s₂ h₂)
  obtain ⟨hothers, hnamed⟩ := groups_of_joined (groupsOf_enter hr hlive htable) hr
  have hcome : groupId s'.db dst name = some g := by
    cases hfound : groupId s'.db dst name with
    | none =>
      have hne : (r.rewrite c fun b => { b with workspace := dst }).body.name ≠ name :=
        groupId_none hfound hg hlive rfl
      exact absurd hname hne
    | some i =>
      obtain ⟨r', hr', hlive', hws', hname'⟩ := groupId_some hfound
      by_contra hne
      rw [hrow, if_neg fun he => hne (congrArg some he)] at hr'
      exact groupId_none hfree hr' hlive' hws' hname'
  refine ⟨?_, fun i hi => by rw [hrow, if_neg hi], ⟨_, hg, hlive, rfl⟩, fun hne => absurd rfl hne,
    fun _ => ⟨hfree, r, c, hr, hg⟩, hkinds .knownHost (by decide) (by decide),
    fun _ => ⟨hkinds .identity (by decide) (by decide), hkinds .secret (by decide) (by decide)⟩,
    hothers, fun b => ?_⟩
  case refine_2 =>
    by_cases hb : b = name
    · rw [hb]
      exact .inr ⟨hcome, hfree⟩
    · exact .inl (hnamed b (hname ▸ hb))
  have hmem : ∀ i, i ∈ membersOf s₂.db g ↔ i ∈ membersOf s.db g := fun i => by rw [hmembers]
  refine .of_members hmem (fun i r hi hr => ?_) fun i hi => ?_
  · have hi' := hin i hi
    rw [hhost₂, hr] at hi'
    rw [hmembers] at hi
    obtain ⟨r₀, hr₀, -, hgroup₀⟩ := mem_membersOf.mp hi
    rw [hr] at hr₀
    cases hr₀
    refine ⟨_, hi', rfl, ?_⟩
    show { r.body with workspace := dst } = _
    rw [← hgroup₀]
    rfl
  · rw [hout i hi, hhost₂]

theorem enterWorkspace_ok {r : Row GroupBody} (hr : s.db.row .group g = some r) (hlive : r.deleted = false)
    (hname : r.body.name = name) (hws : r.body.workspace ≠ dst) (h : enterWorkspace cx g name dst s = .ok (id, s')) :
    Entered s.db s'.db g id workspace dst name := by
  obtain ⟨found, s₁, h₁, h⟩ := Tx.bind_eq_ok.mp h
  cases h₁
  cases hfound : groupId s.db dst name with
  | some target =>
    simp only [hfound] at h
    obtain ⟨u, s₁, h₁, h⟩ := Tx.bind_eq_ok.mp h
    obtain ⟨v, s₂, h₂, h⟩ := Tx.bind_eq_ok.mp h
    cases h
    exact merge_entered hr hlive hws hfound h₁ h₂
  | none =>
    simp only [hfound] at h
    obtain ⟨c, s₁, h₁, h⟩ := Tx.bind_eq_ok.mp h
    obtain ⟨u, s₂, h₂, h⟩ := Tx.bind_eq_ok.mp h
    obtain ⟨hosts, s₃, h₃, h⟩ := Tx.bind_eq_ok.mp h
    cases h₃
    obtain ⟨v, s₄, h₄, h⟩ := Tx.bind_eq_ok.mp h
    cases h
    exact join_entered hr hlive hname hfound h₁ h₂ h₄

/-! ## Taking its place -/

theorem mem_shownGroups {q : ℤ} : (i, q) ∈ shownGroups db workspace ↔ ∃ r, db.row .group i = some r ∧ r.deleted =
    false ∧ r.body.workspace = workspace ∧ r.body.position = q := by
  rw [shownGroups_eq, groupOrder_eq, mem_inOrder]
  unfold groupsOf
  constructor
  · rintro ⟨n, hn⟩
    obtain ⟨⟨j, r⟩, hm, he⟩ := List.mem_map.mp hn
    cases he
    obtain ⟨hr, hp⟩ := Table.mem_select.mp hm
    rw [Bool.and_eq_true, Bool.not_eq_true', decide_eq_true_iff] at hp
    exact ⟨r, hr, hp.1, hp.2, rfl⟩
  · rintro ⟨r, hr, hd, hw, rfl⟩
    refine ⟨r.body.name, List.mem_map.mpr ⟨(i, r), Table.mem_select.mpr ⟨hr, ?_⟩, rfl⟩⟩
    rw [hd, decide_eq_true hw]
    rfl

theorem nodup_shownGroups (db : Db) (workspace : Workspace) : ((shownGroups db workspace).map Prod.fst).Nodup := by
  rw [shownGroups_eq, groupOrder_eq]
  refine nodup_inOrder ?_
  unfold groupsOf
  rw [List.map_map]
  exact Table.nodup_select _ _

variable {before : Option Uuid}

theorem renumber_ranked {entry : Uuid × ℤ} {u : PUnit} (hentry : entry ∈ shownGroups s.db dst)
    (h : renumber clock (outOfPlace (moved (shownGroups s.db dst) entry before)) s = .ok (u, s')) : Ranked
    (s.db.rows .group) (s'.db.rows .group) (fun r => !r.deleted && decide (r.body.workspace = dst))
    (fun r => r.body.position) GroupStays (groupsWith s.db dst entry.1 before) ∧ ∀ k, k ≠ .group → s'.db.rows k =
    s.db.rows k := by
  have hids : (moved (shownGroups s.db dst) entry before).map Prod.fst = groupsWith s.db dst entry.1 before := by
    unfold moved
    dsimp only
    rw [map_fst_insertIdx, groupsWith, List.filter_map]
    rfl
  have hnodup : ((moved (shownGroups s.db dst) entry before).map Prod.fst).Nodup := by
    rw [hids]
    refine nodup_putBefore ((nodup_shownGroups _ _).filter _) (fun hm => ?_) before
    exact of_decide_eq_true (List.mem_filter.mp hm).2 rfl
  obtain ⟨hin, hout, hother⟩ := renumbered_ok (k := .group) (f := fun n r => r.rewrite clock fun b =>
      { b with position := n }) hnodup h
  refine ⟨⟨hids ▸ hnodup, fun n i hget => ?_, fun i hi => hout i (hids ▸ hi)⟩, hother⟩
  rw [← hids, List.getElem?_map, Option.map_eq_some_iff] at hget
  obtain ⟨⟨j, p⟩, hget, rfl⟩ := hget
  have hm : (j, p) ∈ shownGroups s.db dst := by
    rcases (List.mem_insertIdx (placeBefore_le _ _)).mp (List.mem_of_getElem? hget) with he | hm
    · exact he ▸ hentry
    · exact List.mem_of_mem_filter hm
  obtain ⟨r, hr, hlive, hws, hp⟩ := mem_shownGroups.mp hm
  have hwritten := hin n j p hget
  rw [hr] at hwritten
  by_cases hn : p = n
  · rw [if_pos hn] at hwritten
    refine ⟨r, r, hr, hwritten, GroupStays.refl r, ?_, hp.trans hn⟩
    simp [hlive, hws]
  · rw [if_neg hn] at hwritten
    refine ⟨r, _, hr, hwritten, ⟨rfl, rfl, fun he => absurd ?_ hn, fun _ => rfl⟩, ?_, rfl⟩
    · exact hp.symm.trans (congrArg Prod.snd he).symm
    · simp [Row.rewrite, hlive, hws]

theorem shownGroups_of_ranked
    (h : Ranked (db.rows .group) (db'.rows .group)
      (fun r => !r.deleted && decide (r.body.workspace = dst)) (fun r => r.body.position) GroupStays
      (groupsWith db dst id before)) :
    shownGroups db' dst = places (groupsWith db dst id before) := by
  rw [shownGroups_eq]
  refine @Ranked.inOrder_eq _ _ _ _ _ _ _ h (fun r => r.body.name) fun i r hr hp => ?_
  rw [Bool.and_eq_true, Bool.not_eq_true', decide_eq_true_iff] at hp
  unfold groupsWith
  rw [mem_putBefore]
  by_cases he : i = id
  · exact .inl he
  · refine Or.inr (List.mem_filter.mpr ⟨List.mem_map.mpr ⟨(i, r.body.position), ?_, rfl⟩, decide_eq_true he⟩)
    exact mem_shownGroups.mpr ⟨r, hr, hp.1, hp.2, rfl⟩

/-! ## The whole move -/

theorem shownGroups_congr (h : groupsOf db' dst = groupsOf db dst) : shownGroups db' dst = shownGroups db dst := by
  rw [shownGroups_eq, shownGroups_eq, groupOrder_eq, groupOrder_eq, h]

theorem groupsWith_congr (h : ((groupsOf db' dst).filter fun e => e.1 ≠ id) =
    (groupsOf db dst).filter fun e => e.1 ≠ id) (before : Option Uuid) :
    groupsWith db' dst id before = groupsWith db dst id before := by
  have hshown : ∀ db, ((shownGroups db dst).map Prod.fst).filter (fun i => i ≠ id) =
      (inOrder ((groupsOf db dst).filter fun e => e.1 ≠ id)).map Prod.fst := by
    intro db
    rw [shownGroups_eq, groupOrder_eq, inOrder_filter, List.filter_map]
    rfl
  rw [groupsWith, hshown, h, ← hshown, groupsWith]

theorem groupsWith_self (db : Db) (dst : Workspace) (id : Uuid) :
    groupsWith db dst id (some id) = groupsWith db dst id none := by
  refine putBefore_of_not_mem (fun hm => ?_) id
  exact of_decide_eq_true (List.mem_filter.mp hm).2 rfl

theorem takesPlace_ok {before : Option Text}
    (hlive : ∃ r, s.db.row .group id = some r ∧ r.deleted = false ∧ r.body.workspace = dst)
    (h : (do
      let beforeId ← StoreTx.query fun db => before.bind (groupId db dst)
      let order ← StoreTx.query fun db => groupOrder db dst
      match order.find? fun e => e.1 = id with
      | none => pure ()
      | some entry => do
        let clock ← StoreTx.tick cx
        renumber clock (outOfPlace (moved order entry beforeId)) : StoreTx Unit) s = .ok (u, s')) :
    Ranked (s.db.rows .group) (s'.db.rows .group)
      (fun r => !r.deleted && decide (r.body.workspace = dst)) (fun r => r.body.position) GroupStays
      (groupsWith s.db dst id (before.bind (groupId s.db dst))) ∧
      ∀ k, k ≠ .group → s'.db.rows k = s.db.rows k := by
  obtain ⟨beforeId, s₁, h₁, h⟩ := Tx.bind_eq_ok.mp h
  cases h₁
  obtain ⟨order, s₁, h₁, h⟩ := Tx.bind_eq_ok.mp h
  cases h₁
  obtain ⟨r, hr, hd, hw⟩ := hlive
  have hmem : (id, r.body.position) ∈ groupOrder s.db dst := by
    rw [← shownGroups_eq]
    exact mem_shownGroups.mpr ⟨r, hr, hd, hw, rfl⟩
  cases hfind : (groupOrder s.db dst).find? fun e => decide (e.1 = id) with
  | none => exact absurd (decide_eq_true rfl) (List.find?_eq_none.mp hfind _ hmem)
  | some entry =>
    simp only [hfind] at h
    obtain ⟨clock, s₂, h₂, h⟩ := Tx.bind_eq_ok.mp h
    have hrows : s₂.db.rows = s.db.rows := by rw [(tick_eq_ok h₂).2]; rfl
    have hgroups : shownGroups s₂.db dst = shownGroups s.db dst := shownGroups_congr (by unfold groupsOf; rw [hrows])
    have hdec := List.find?_some hfind
    have hid : entry.1 = id := of_decide_eq_true hdec
    have hentry := List.mem_of_find?_eq_some hfind
    rw [← shownGroups_eq, ← hgroups] at hentry h
    obtain ⟨hranked, hother⟩ := renumber_ranked hentry h
    rw [hid, groupsWith, hgroups, ← groupsWith, hrows] at hranked
    exact ⟨hranked, fun k hk => by rw [hother k hk, hrows]⟩

theorem not_mem_groupsWith (hr : db.row .group i = some r) (hne : i ≠ id)
    (hoff : r.deleted = true ∨ r.body.workspace ≠ dst) : i ∉ groupsWith db dst id before := by
  intro hm
  obtain ⟨⟨j, p⟩, hshown, rfl⟩ := List.mem_map.mp (List.mem_of_mem_filter ((mem_putBefore.mp hm).resolve_left hne))
  obtain ⟨r', hr', hlive, hw, -⟩ := mem_shownGroups.mp hshown
  rw [hr] at hr'
  cases hr'
  rcases hoff with hoff | hoff
  · rw [hlive] at hoff
    cases hoff
  · exact hoff hw

theorem GroupMoved.of_stayed
    (h : Ranked (db.rows .group) (db'.rows .group)
      (fun r => !r.deleted && decide (r.body.workspace = dst)) (fun r => r.body.position) GroupStays
      (groupsWith db dst g before))
    (hother : ∀ k, k ≠ .group → db'.rows k = db.rows k) (hw : dst = workspace) :
    GroupMoved db db' g g workspace dst before := by
  have hshown := shownGroups_of_ranked h
  refine ⟨?_, ?_, fun i r hr _ => h.rows GroupStays.refl hr, fun hne => absurd rfl hne,
    fun i hi => h.missing hi, fun i r hr hne hoff => (h.same i (not_mem_groupsWith hr hne hoff)).trans hr,
    fun i r hr _ => ?_, fun hne => absurd hw hne, hother _ (by decide),
    fun _ => ⟨hother _ (by decide), hother _ (by decide)⟩⟩
  · rw [hshown, map_fst_places]
  · rw [hshown]
    exact places_pairwise _
  · rw [Db.row, hother .host (by decide)]
    exact hr

theorem GroupStays.of_joined {r' : Row GroupBody} (hw : r.body.workspace ≠ dst)
    (hw' : r'.body.workspace = dst)
    (h : GroupStays (r.rewrite clock fun b => { b with workspace := dst }) r') : GroupStays r r' := by
  have hplace : r'.body.place ≠ r.body.place := fun he => hw ((congrArg Prod.fst he).symm.trans hw')
  refine ⟨h.body, h.deleted, fun he => absurd he hplace, fun _ => ?_⟩
  by_cases he : r'.body.place = (r.rewrite clock fun b => { b with workspace := dst }).body.place
  · rw [h.untouched he]
    rfl
  · exact h.pushed he

theorem GroupMoved.of_entered {db₁ : Db} {before : Option Text}
    (hr : db.row .group g = some r) (hw : r.body.workspace ≠ dst) (hdst : dst ≠ workspace)
    (he : Entered db db₁ g id workspace dst name)
    (h : Ranked (db₁.rows .group) (db'.rows .group)
      (fun r => !r.deleted && decide (r.body.workspace = dst)) (fun r => r.body.position) GroupStays
      (groupsWith db₁ dst id (before.bind (groupId db₁ dst))))
    (hother : ∀ k, k ≠ .group → db'.rows k = db₁.rows k) :
    GroupMoved db db' g id workspace dst (before.bind (groupId db dst)) := by
  have hshown := shownGroups_of_ranked h
  have horder : groupsWith db₁ dst id (before.bind (groupId db₁ dst)) =
      groupsWith db dst id (before.bind (groupId db dst)) := by
    rw [groupsWith_congr he.groups]
    cases before with
    | none => rfl
    | some b =>
      rcases he.named b with hb | ⟨hb, hfree⟩
      · rw [Option.bind_some, Option.bind_some, hb]
      · rw [Option.bind_some, Option.bind_some, hb, hfree, groupsWith_self]
  have hhost : ∀ i, db'.row .host i = db₁.row .host i := fun i => by
    rw [Db.row, hother .host (by decide), Db.row]
  refine ⟨?_, ?_, fun i r' hr' hig => ?_, fun hne => ?_, fun i hi => ?_, fun i r' hr' hne hoff => ?_,
    fun i r' hr' hoff => ?_, fun _ i r' hr' hlive hgroup => ?_,
    (hother _ (by decide)).trans he.knownHosts, fun hid => ?_⟩
  · rw [hshown, map_fst_places, horder]
  · rw [hshown]
    exact places_pairwise _
  · by_cases hi : i = g
    · -- The group itself: written when it came, and its place is one of the workspace.
      subst hi
      have hid := hig rfl
      obtain ⟨-, r₀, c, hr₀, hr₁⟩ := he.joined hid
      rw [hr] at hr' hr₀
      cases hr'
      cases hr₀
      have hmem : i ∈ groupsWith db₁ dst id (before.bind (groupId db₁ dst)) := mem_putBefore.mpr (Or.inl hid.symm)
      obtain ⟨-, r₂, r', -, hr₂, hr', hstays, hp, -⟩ := h.of_mem hmem
      rw [Db.row, hr₂] at hr₁
      cases hr₁
      rw [Bool.and_eq_true, decide_eq_true_iff] at hp
      exact ⟨r', hr', hstays.of_joined hw hp.2⟩
    · exact h.rows GroupStays.refl ((he.others i hi).trans hr')
  · obtain ⟨-, r₀, c, hr₀, hr₁⟩ := he.merged hne
    exact ⟨r₀, c, hr₀, (h.same g (not_mem_groupsWith hr₁ hne.symm (.inl rfl))).trans hr₁⟩
  · have hi' : i ≠ g := by
      rintro rfl
      rw [hr] at hi
      cases hi
    exact h.missing ((he.others i hi').trans hi)
  · have hr₁ := (he.others i hne).trans hr'
    refine (h.same i (not_mem_groupsWith hr₁ (fun hid => ?_) hoff)).trans hr₁
    subst hid
    obtain ⟨r₂, hr₂, hlive₂, hw₂⟩ := he.live
    rw [hr₁] at hr₂
    cases hr₂
    rcases hoff with hoff | hoff
    · rw [hlive₂] at hoff
      cases hoff
    · exact hoff hw₂
  · exact (hhost i).trans (he.hosts.others i r' hr' (hoff.resolve_left hdst))
  · obtain ⟨r₁, hr₁, hc⟩ := he.hosts.members i r' hr' hlive hgroup
    exact ⟨r₁, (hhost i).trans hr₁, hc⟩
  · obtain ⟨hidentity, hsecret⟩ := he.logins hid
    exact ⟨(hother _ (by decide)).trans hidentity, (hother _ (by decide)).trans hsecret⟩

theorem moveGroup_moved {before : Option Text} (h : moveGroup cx workspace name dst before s = .ok (u, s')) : ∃ g,
    groupId s.db workspace name = some g ∧ GroupMoved s.db s'.db g (movedGroup s.db g workspace name dst) workspace
    dst (before.bind (groupId s.db dst)) := by
  obtain ⟨g, s₁, h₁, h⟩ := Tx.bind_eq_ok.mp h
  obtain ⟨found, s₂, h₂, h₁⟩ := Tx.bind_eq_ok.mp h₁
  cases h₂
  obtain ⟨hg, rfl⟩ := Tx.orFail_eq_ok.mp h₁
  obtain ⟨r, hr, hlive, hws, hname⟩ := groupId_some hg
  refine ⟨g, hg, ?_⟩
  unfold movedGroup
  by_cases hd : dst = workspace
  · rw [if_neg (not_not.mpr hd)] at h
    obtain ⟨id, s₁, h₁, h⟩ := Tx.bind_eq_ok.mp h
    cases h₁
    rw [if_pos hd]
    obtain ⟨hranked, hother⟩ := takesPlace_ok ⟨r, hr, hlive, hws.trans hd.symm⟩ h
    exact .of_stayed hranked hother hd
  · rw [if_pos hd] at h
    obtain ⟨id, s₁, h₁, h⟩ := Tx.bind_eq_ok.mp h
    rw [if_neg hd]
    have hw : r.body.workspace ≠ dst := fun he => hd (he.symm.trans hws)
    have hentered := @enterWorkspace_ok _ _ _ _ _ workspace _ _ _ hr hlive hname hw h₁
    obtain ⟨hranked, hother⟩ := takesPlace_ok hentered.live h
    have hid : (groupId s.db dst name).getD g = id := by
      by_cases hne : id = g
      · rw [(hentered.joined hne).1, hne]
        rfl
      · rw [(hentered.merged hne).1]
        rfl
    rw [hid]
    exact .of_entered hr hw hd hentered hranked hother

/-- Two groups of one name, all pushed, and two hosts of the first one. -/
def twoOfOneName : Db :=
  let host (name : Text) (position : ℤ) : Row HostBody :=
    { newRow ⟨1, 0, 2⟩ (⟨name, name, 3389, .priv, position, some 10, none, {}, [], none, []⟩ : HostBody)
      with dirty := false }
  let group (workspace : Workspace) : Row GroupBody :=
    { newRow ⟨1, 0, 2⟩ (⟨workspace, "x".toList, 0, none, none, []⟩ : GroupBody) with dirty := false }
  ((((Db.fresh 1).setRow .group 10 (group .priv)).setRow .group 11 (group .business)).setRow .host 20
    (host "a".toList 0)).setRow .host 21 (host "b".toList 0)

end UwuRdp
