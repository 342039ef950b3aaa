import UwuRdp.Store.Schema

/-!
# Upgrades keep what the user sees

Whatever version a database has, its live hosts come out of the upgrades as they were, in groups that are shown
by the same names and with logins that live; secrets that are used stay, the others of version 2 are erased, and
what has to be pushed waits for it. It does not matter where an upgrade was cut off.
-/

namespace UwuRdp

open Lib

namespace Schema

/-! ## What is seen -/

/-- A live host, with its group by the name that is shown. -/
structure HostSeen where
  name : Text
  address : Text
  port : { n : ℕ // 1 ≤ n ∧ n ≤ 65535 }
  workspace : Workspace
  login : Option Text
  group : Option Text
deriving DecidableEq

def HostCore.seen (host : HostCore) (workspace : Workspace) (group : Option Text) : HostSeen :=
  ⟨host.name, host.address, host.port, workspace, host.identityId, group⟩

section Live

variable {ι η γ β : Type}

def Row.live (row : Row β) : Option β := if row.deleted then none else some row.body

/-- What of a database matters to the user, by ids: the live hosts, the logins and keys with the secrets they point at
and whether they are deleted, the secrets, and the live groups. -/
structure View where
  host : Text → Option HostSeen
  login : Text → Option (Bool × Option Text)
  key : Text → Option (Bool × Option Text × Option Text)
  secret : Text → Option (Row Secret)
  group : Text → Option (Workspace × Text)

def Identity2.ref (row : Row Identity2) : Bool × Option Text := (row.deleted, row.body.passwordSecretId)

def Key.ref (row : Row Key) : Bool × Option Text × Option Text :=
  (row.deleted, row.body.privateSecretId, row.body.passphraseSecretId)

def Group3.ref (row : Row Group3) : Option (Workspace × Text) := row.live.map fun b => (b.workspace, b.name)

def Db2.view (db : Db2) : View where
  host id := ((db.hosts.get? id).bind Row.live).map fun b => b.seen .priv b.groupPath
  login id := (db.identities.get? id).map Identity2.ref
  key id := (db.keys.get? id).map Key.ref
  secret id := db.secrets.get? id
  group _ := none

def Db3.view (db : Db3) : View where
  host id := ((db.hosts.get? id).bind Row.live).map fun b => b.seen b.workspace b.groupPath
  login id := (db.identities.get? id).map Identity2.ref
  key id := (db.keys.get? id).map Key.ref
  secret id := db.secrets.get? id
  group id := (db.hostGroups.get? id).bind Group3.ref

def rowsAs (f : β → γ) (table : Table Text (Synced β)) (id : Text) : Option (Row γ) :=
  (table.get? id).map fun row => row.toRow.withBody f

/-- The view of the tables from version 4 on, whose rows have the columns of that version. -/
def Tables.view (identity : ι → Identity2) (host : η → Host4) (group : γ → Group3) (db : Tables ι η γ) : View where
  host id := ((rowsAs host db.hosts id).bind Row.live).map fun b => b.seen b.workspace
    (b.groupId.bind fun g => ((rowsAs group db.hostGroups g).bind Group3.ref).map Prod.snd)
  login id := (rowsAs identity db.identities id).map Identity2.ref
  key i := (rowsAs id db.keys i).map Key.ref
  secret id := (db.secrets.get? id).map Tracked.toRow
  group id := (rowsAs group db.hostGroups id).bind Group3.ref

def Database.view : Database → View
  | .v1 db => db.toV2.view
  | .v2 db => db.view
  | .v3 db => db.view
  | .v4 db | .v5 db | .v6 db => db.view id id id
  | .v7 db => db.view Identity7.toIdentity2 Host7.toHost4 Group7.toGroup3
  | .v8 db => db.view Identity7.toIdentity2 Host7.toHost4 Group7.toGroup3
  | .v9 db => db.view Identity7.toIdentity2 Host7.toHost4 fun b => b.toGroup3
  | .v0 | .newer _ _ => ⟨fun _ => none, fun _ => none, fun _ => none, fun _ => none, fun _ => none⟩

def View.Uses (v : View) (id : Text) : Prop :=
  (∃ i, v.login i = some (false, some id)) ∨ (∃ i p, v.key i = some (false, some id, p)) ∨
    ∃ i p, v.key i = some (false, p, some id)

/-! ## From version 4 on -/

theorem Tables.view_eq {ι' η' γ' : Type} {identity : ι → Identity2} {host : η → Host4} {group : γ → Group3}
    {identity' : ι' → Identity2} {host' : η' → Host4} {group' : γ' → Group3} {db : Tables ι η γ}
    {db' : Tables ι' η' γ'} (hhosts : rowsAs host' db'.hosts = rowsAs host db.hosts)
    (hlogins : rowsAs identity' db'.identities = rowsAs identity db.identities)
    (hgroups : rowsAs group' db'.hostGroups = rowsAs group db.hostGroups) (hkeys : db'.keys = db.keys)
    (hsecrets : db'.secrets = db.secrets) : db'.view identity' host' group' = db.view identity host group := by
  simp only [Tables.view, hhosts, hlogins, hgroups, hkeys, hsecrets]

theorem rowsAs_mapRows {δ : Type} (f : γ → δ) (table : Table Text (Synced β)) (g : Synced β → Synced γ) (h : β → δ)
    (hg : ∀ row, (g row).toRow.withBody f = row.toRow.withBody h) : rowsAs f (table.mapRows g) = rowsAs h table := by
  funext id
  simp only [rowsAs, Table.get?_mapRows, Option.map_map, Function.comp_def, hg]

theorem view_toV7 (db : Db4) : db.toV7.view Identity7.toIdentity2 Host7.toHost4 Group7.toGroup3 = db.view id id id :=
  Tables.view_eq (rowsAs_mapRows _ _ _ _ fun _ => rfl) (rowsAs_mapRows _ _ _ _ fun _ => rfl)
    (rowsAs_mapRows _ _ _ _ fun _ => rfl) rfl rfl

theorem view_toV9 {V : Type} (json : SqliteJson V) (db : Db8) : (db.toV9 json).view Identity7.toIdentity2
    Host7.toHost4 (fun b => b.toGroup3) = db.view Identity7.toIdentity2 Host7.toHost4 Group7.toGroup3 :=
  Tables.view_eq rfl rfl (rowsAs_mapRows _ _ _ _ fun _ => rfl) rfl rfl

end Live

/-! ## Groups by id -/

section Link

def Synced.given (row : Synced HostBoth) : Option (Workspace × Text) :=
  if row.deleted then none else row.body.groupPath.map fun name => (row.body.workspace, name)

variable {group : Workspace × Text} {groups : Table Text (Synced Group3)} {names : List (Workspace × Text)}

theorem mem_namedGroups {hosts : Table Text (Synced HostBoth)} :
    group ∈ namedGroups hosts ↔ ∃ id row, hosts.get? id = some row ∧ row.given = some group := by
  rw [namedGroups, List.mem_mergeSort, List.mem_dedup, List.mem_filterMap]
  constructor
  · rintro ⟨⟨id, row⟩, hmem, hgiven⟩
    exact ⟨id, row, Table.mem_entries.mp hmem, hgiven⟩
  · rintro ⟨id, row, hrow, hgiven⟩
    exact ⟨(id, row), Table.mem_entries.mpr hrow, hgiven⟩

theorem nodup_namedGroups (hosts : Table Text (Synced HostBoth)) : (namedGroups hosts).Nodup :=
  (List.mergeSort_perm _ _).nodup_iff.mpr (List.nodup_dedup _)

def IsGroup (groups : Table Text (Synced Group3)) (group : Workspace × Text) (id : Text) : Prop :=
  ∃ row, groups.get? id = some row ∧ row.deleted = false ∧ (row.body.workspace, row.body.name) = group

theorem existing_some {id : Text} (h : existing groups group = some id) : IsGroup groups group id := by
  unfold existing at h
  obtain ⟨⟨i, row⟩, hhead, rfl⟩ := Option.map_eq_some_iff.mp h
  have hmem := List.mem_mergeSort.mp (List.mem_of_mem_head? hhead)
  obtain ⟨hrow, hpick⟩ := Table.mem_select.mp hmem
  simp only [Bool.and_eq_true, Bool.not_eq_true', beq_iff_eq] at hpick
  exact ⟨row, hrow, hpick.1.1, Prod.ext hpick.1.2 hpick.2⟩

theorem existing_none (h : existing groups group = none) (id : Text) : ¬IsGroup groups group id := by
  rintro ⟨row, hrow, hlive, rfl⟩
  unfold existing at h
  rw [Option.map_eq_none_iff, List.head?_eq_none_iff] at h
  have hmem : (id, row) ∈ groups.select fun _ r =>
      !r.deleted && r.body.workspace == row.body.workspace && r.body.name == row.body.name :=
    Table.mem_select.mpr ⟨hrow, by simp [hlive]⟩
  cases h ▸ List.mem_mergeSort.mpr hmem

/-- A host that points at the group it gives, if that is one of those. -/
def Synced.linked (link : Workspace × Text → Text) (groups : List (Workspace × Text)) (row : Synced HostBoth) :
    Synced HostBoth :=
  match row.given with
  | some group => if group ∈ groups then { row with body := { row.body with groupId := some (link group) } } else row
  | none => row

/-- What the groups are after some names got their records. -/
structure Linked (random : Random) (groups groups' : Table Text (Synced Group3)) (names : List (Workspace × Text))
    (link : Workspace × Text → Text) : Prop where
  old : ∀ id row, groups.get? id = some row → groups'.get? id = some row
  new : ∀ id row, groups'.get? id = some row → groups.get? id = some row ∨
    row.deleted = false ∧ row.dirty = true ∧ ∃ group ∈ names, id = random.group4 group ∧
      (row.body.workspace, row.body.name) = group ∧ ∀ i, ¬IsGroup groups group i
  target : ∀ group ∈ names, IsGroup groups' group (link group)

theorem given_eq_some {row : Synced HostBoth} : row.given = some group ↔
    row.body.workspace = group.1 ∧ row.body.groupPath = some group.2 ∧ row.deleted = false := by
  obtain ⟨workspace, name⟩ := group
  unfold Synced.given
  split
  · simp [*]
  · simp [Option.map_eq_some_iff, *]
    tauto

theorem linked_nil (link : Workspace × Text → Text) (row : Synced HostBoth) : row.linked link [] = row := by
  unfold Synced.linked
  split
  · rw [if_neg List.not_mem_nil]
  · rfl

theorem linked_cons (link : Workspace × Text → Text) (id : Text) (hnot : group ∉ names) (row : Synced HostBoth) :
    (if row.given = some group then { row with body := { row.body with groupId := some id } } else row : Synced
      HostBoth).linked link names =
      row.linked (fun g => if g = group then id else link g) (group :: names) := by
  by_cases hgiven : row.given = some group
  · have hsame : (Synced.mk { row.toTracked with body := { row.body with groupId := some id } } row.syncExtra).given =
        some group := hgiven
    rw [if_pos hgiven, Synced.linked, Synced.linked, hsame, hgiven]
    simp [hnot]
  · rw [if_neg hgiven, Synced.linked, Synced.linked]
    rcases hother : row.given with _ | g
    · rfl
    · have hne : g ≠ group := fun h => hgiven (h ▸ hother)
      simp [hne]

theorem linkGroup_ok (random : Random) (info : Meta)
    (hfree : groups.get? (random.group4 group) = none) (hosts : Table Text (Synced HostBoth)) :
    ∃ groups' id, linkGroup random info (groups, hosts) group =
      .ok (groups', hosts.map fun _ row =>
        if row.given = some group then { row with body := { row.body with groupId := some id } } else row) ∧
      Linked random groups groups' [group] fun _ => id := by
  unfold linkGroup
  simp only [← given_eq_some]
  cases hexisting : existing groups group with
  | some id =>
    refine ⟨groups, id, rfl, fun _ _ h => h, fun _ _ h => .inl h, ?_⟩
    intro g hg
    rw [List.mem_singleton.mp hg]
    exact existing_some hexisting
  | none =>
    simp only [insert, hfree, if_true]
    refine ⟨_, _, rfl, fun id row hrow => ?_, fun id row hrow => ?_, ?_⟩
    · rwa [Table.get?_set_ne]
      rintro rfl
      rw [hfree] at hrow
      cases hrow
    · rw [Table.get?_set] at hrow
      split at hrow
      · next hid =>
        cases hrow
        exact .inr ⟨rfl, rfl, group, List.mem_singleton_self group, hid, rfl, existing_none hexisting⟩
      · exact .inl hrow
    · intro g hg
      rw [List.mem_singleton.mp hg]
      exact ⟨_, Table.get?_set_self _ _ _, rfl, rfl⟩

theorem linkGroups (random : Random) (info : Meta) (hinj : Function.Injective random.group4)
    (names : List (Workspace × Text)) (hnames : names.Nodup) (groups : Table Text (Synced Group3))
    (hfree : ∀ group ∈ names, groups.get? (random.group4 group) = none) (hosts : Table Text (Synced HostBoth)) : ∃
    groups' link, names.foldlM (linkGroup random info) (groups, hosts) = .ok
    (groups', hosts.map fun _ row => row.linked link names) ∧ Linked random groups groups' names link := by
  induction names generalizing groups hosts with
  | nil =>
    refine ⟨groups, fun _ => [], ?_, fun _ _ h => h, fun _ _ h => .inl h, fun _ h => (by cases h)⟩
    rw [Table.map_eq_self fun _ row _ => linked_nil (fun _ => []) row]
    rfl
  | cons group names ih =>
    obtain ⟨hnot, hnames⟩ := List.nodup_cons.mp hnames
    obtain ⟨groups₁, id, hstep, h₁⟩ := linkGroup_ok random info (hfree group List.mem_cons_self) hosts
    have hfree₁ : ∀ g ∈ names, groups₁.get? (random.group4 g) = none := by
      intro g hg
      rcases hrow : groups₁.get? (random.group4 g) with _ | row
      · rfl
      rcases h₁.new _ _ hrow with hold | ⟨-, -, g', hg', hid, -, -⟩
      · rw [hfree g (List.mem_cons_of_mem _ hg)] at hold
        cases hold
      · obtain rfl := List.mem_singleton.mp hg'
        exact absurd (hinj hid ▸ hg) hnot
    obtain ⟨groups', link, hrest, h'⟩ := ih hnames groups₁ hfree₁ _
    refine ⟨groups', fun g => if g = group then id else link g, ?_, fun i row h => h'.old i row (h₁.old i row h), ?_, ?_⟩
    · rw [List.foldlM_cons, hstep]
      show names.foldlM (linkGroup random info) _ = _
      rw [hrest, Table.map_map]
      simp only [linked_cons link id hnot]
    · intro i row hrow
      rcases h'.new i row hrow with hmid | ⟨hlive, hdirty, g, hg, hid, hname, hnone⟩
      · rcases h₁.new i row hmid with hold | ⟨hlive, hdirty, g, hg, hid, hname, hnone⟩
        · exact .inl hold
        · exact .inr ⟨hlive, hdirty, g, by simpa using .inl (List.mem_singleton.mp hg), hid, hname, hnone⟩
      · refine .inr ⟨hlive, hdirty, g, List.mem_cons_of_mem _ hg, hid, hname, ?_⟩
        rintro j ⟨row', hrow', hrest⟩
        exact hnone j ⟨row', h₁.old j row' hrow', hrest⟩
    · intro g hg
      by_cases heq : g = group
      · obtain ⟨row, hrow, hrest⟩ := h₁.target group (List.mem_singleton_self group)
        rw [if_pos heq, heq]
        exact ⟨row, h'.old id row hrow, hrest⟩
      · rw [if_neg heq]
        exact h'.target g ((List.mem_cons.mp hg).resolve_left heq)

/-- Every live row waits to be pushed, and no tombstone. -/
structure Tables.Settled {ι η γ : Type} (db : Tables ι η γ) : Prop where
  identities : ∀ id row, db.identities.get? id = some row → row.dirty = !row.deleted
  hosts : ∀ id row, db.hosts.get? id = some row → row.dirty = !row.deleted
  knownHosts : ∀ id row, db.knownHosts.get? id = some row → row.dirty = !row.deleted
  secrets : ∀ id row, db.secrets.get? id = some row → row.dirty = !row.deleted
  keys : ∀ id row, db.keys.get? id = some row → row.dirty = !row.deleted
  snippets : ∀ id row, db.snippets.get? id = some row → row.dirty = !row.deleted
  hostGroups : ∀ id row, db.hostGroups.get? id = some row → row.dirty = !row.deleted

/-- What the upgrade to version 4 makes of a database. -/
structure FromV3 (db : Db3) (db' : Db4) : Prop where
  host : ∀ id host, db.view.host id = some host → (Database.v4 db').view.host id = some host
  login : (Database.v4 db').view.login = db.view.login
  key : (Database.v4 db').view.key = db.view.key
  secret : (Database.v4 db').view.secret = db.view.secret
  group : ∀ id group, db.view.group id = some group → (Database.v4 db').view.group id = some group
  /-- A group is made only for a name that has no record. -/
  made : ∀ id group, (Database.v4 db').view.group id = some group → db.view.group id = some group ∨
    (∃ i host, db.view.host i = some host ∧ host.group = some group.2 ∧ host.workspace = group.1) ∧
      ∀ i, db.view.group i ≠ some group
  settled : db'.Settled

theorem settled_sync {β : Type} {table : Table Text (Row β)} :
    ∀ id row, (table.mapRows Row.sync).get? id = some row → row.dirty = !row.deleted := by
  intro id row hrow
  rw [Table.get?_mapRows] at hrow
  obtain ⟨old, -, rfl⟩ := Option.map_eq_some_iff.mp hrow
  rfl

theorem Row.live_eq_some {β : Type} {row : Row β} {b : β} : row.live = some b ↔ row.deleted = false ∧ row.body = b := by
  unfold Row.live
  split <;> simp [*]

theorem ref_eq_some {row : Row Group3} : Group3.ref row = some group ↔
    row.deleted = false ∧ (row.body.workspace, row.body.name) = group := by
  simp only [Group3.ref, Option.map_eq_some_iff, Row.live_eq_some]
  constructor
  · rintro ⟨b, ⟨hlive, rfl⟩, hgroup⟩
    exact ⟨hlive, hgroup⟩
  · rintro ⟨hlive, hgroup⟩
    exact ⟨_, ⟨hlive, rfl⟩, hgroup⟩

theorem rowsAs_sync {β : Type} (table : Table Text (Row β)) : rowsAs id (table.mapRows Row.sync) = table.get? := by
  funext i
  simp only [rowsAs, Table.get?_mapRows, Option.map_map]
  exact Option.map_id'

theorem refs_eq_some {id : Text} :
    (rowsAs (fun b => b) groups id).bind Group3.ref = some group ↔ IsGroup groups group id := by
  simp only [rowsAs, Option.bind_eq_some_iff, Option.map_eq_some_iff, ref_eq_some]
  constructor
  · rintro ⟨_, ⟨row, hrow, rfl⟩, hlive, hgroup⟩
    exact ⟨row, hrow, hlive, hgroup⟩
  · rintro ⟨row, hrow, hlive, hgroup⟩
    exact ⟨_, ⟨row, hrow, rfl⟩, hlive, hgroup⟩

variable {link : Workspace × Text → Text}

theorem linked_both {random : Random} {groups' : Table Text (Synced Group3)} (h : Linked random groups groups' names link) {row : Row Host3}
    (hlive : row.deleted = false) (hmem : ∀ name, row.body.groupPath = some name → (row.body.workspace, name) ∈ names) :
    let row' := (row.both.linked link names).dropPath
    row'.deleted = false ∧ row'.body.toHostCore = row.body.toHostCore ∧ row'.body.workspace = row.body.workspace ∧
      (row'.body.groupId.bind fun g => ((rowsAs (fun b => b) groups' g).bind Group3.ref).map Prod.snd) =
        row.body.groupPath := by
  have hgiven : row.both.given = row.body.groupPath.map fun name => (row.body.workspace, name) := if_neg (by
    show ¬row.deleted = true
    simp [hlive])
  cases hpath : row.body.groupPath with
  | none =>
    rw [hpath] at hgiven
    have hsame : row.both.linked link names = row.both := by
      unfold Synced.linked
      rw [hgiven]
      rfl
    rw [hsame]
    exact ⟨hlive, rfl, rfl, rfl⟩
  | some name =>
    rw [hpath] at hgiven
    have hlinked : row.both.linked link names =
        { row.both with body := { row.both.body with groupId := some (link (row.body.workspace, name)) } } := by
      unfold Synced.linked
      rw [hgiven]
      exact if_pos (hmem name hpath)
    rw [hlinked]
    refine ⟨hlive, rfl, rfl, ?_⟩
    show ((rowsAs (fun b => b) groups' (link (row.body.workspace, name))).bind Group3.ref).map Prod.snd = _
    rw [refs_eq_some.mpr (h.target _ (hmem name hpath))]
    rfl

theorem settled_linked (row : Row Host3) :
    ((row.both.linked link names).dropPath).dirty = !((row.both.linked link names).dropPath).deleted := by
  unfold Synced.linked
  split
  · split <;> rfl
  · rfl

theorem toV4_ok (random : Random) (db : Db3) (hinj : Function.Injective random.group4)
    (hfree : ∀ group, db.hostGroups.get? (random.group4 group) = none) :
    ∃ db', db.toV4 random = .ok db' ∧ FromV3 db db' := by
  unfold Db3.toV4
  set hosts : Table Text (Synced HostBoth) := db.hosts.mapRows Row.both with hhosts
  obtain ⟨groups, link, hfold, hlinked⟩ := linkGroups random db.info hinj (namedGroups hosts)
    (nodup_namedGroups hosts) (db.hostGroups.mapRows Row.sync)
    (fun group _ => by rw [Table.get?_mapRows, hfree]; rfl) hosts
  have hmem : ∀ i row, db.hosts.get? i = some row → row.deleted = false → ∀ name, row.body.groupPath = some name →
      (row.body.workspace, name) ∈ namedGroups hosts := by
    intro i row hrow hlive name hname
    refine mem_namedGroups.mpr ⟨i, row.both, by rw [hhosts, Table.get?_mapRows, hrow]; rfl, ?_⟩
    exact given_eq_some.mpr ⟨rfl, hname, hlive⟩
  have hrows : ∀ i, ((hosts.map fun _ row => row.linked link (namedGroups hosts)).mapRows Synced.dropPath).get? i =
      (db.hosts.get? i).map fun row => (row.both.linked link (namedGroups hosts)).dropPath := by
    intro i
    rw [Table.get?_mapRows, Table.get?_map, hhosts, Table.get?_mapRows, Option.map_map, Option.map_map]
    rfl
  dsimp only
  rw [hfold]
  refine ⟨_, rfl, ?_, ?_, ?_, ?_, ?_, ?_, ?_⟩
  · intro i host hhost
    obtain ⟨b, hb, rfl⟩ := Option.map_eq_some_iff.mp hhost
    obtain ⟨row, hrow, hrowlive⟩ := Option.bind_eq_some_iff.mp hb
    obtain ⟨hlive, rfl⟩ := Row.live_eq_some.mp hrowlive
    obtain ⟨hlive', hcore, hworkspace, hgroup⟩ := linked_both hlinked hlive (hmem i row hrow hlive)
    show ((rowsAs (fun b => b) ((hosts.map fun _ row => row.linked link (namedGroups hosts)).mapRows Synced.dropPath)
      i).bind Row.live).map (fun b => b.seen b.workspace (b.groupId.bind fun g =>
        ((rowsAs (fun b => b) groups g).bind Group3.ref).map Prod.snd)) = _
    rw [rowsAs, hrows, hrow]
    simp only [Option.map_some, Option.bind_some]
    rw [← hgroup]
    generalize (row.both.linked link (namedGroups hosts)).dropPath = row' at hlive' hcore hworkspace
    simp [Row.withBody, Row.live, hlive', hcore, hworkspace]
  · show (fun i => (rowsAs id (db.identities.mapRows Row.sync) i).map Identity2.ref) = _
    rw [rowsAs_sync]
    rfl
  · show (fun i => (rowsAs id (db.keys.mapRows Row.sync) i).map Key.ref) = _
    rw [rowsAs_sync]
    rfl
  · funext i
    show ((db.secrets.mapRows Row.track).get? i).map Tracked.toRow = _
    rw [Table.get?_mapRows, Option.map_map]
    exact Option.map_id'
  · intro i group hgroup
    obtain ⟨row, hrow, href⟩ := Option.bind_eq_some_iff.mp hgroup
    obtain ⟨hlive, hname⟩ := ref_eq_some.mp href
    refine refs_eq_some.mpr ⟨row.sync, hlinked.old i row.sync ?_, hlive, hname⟩
    rw [Table.get?_mapRows, hrow]
    rfl
  · intro i group hgroup
    obtain ⟨row, hrow, hlive, hname⟩ := refs_eq_some.mp hgroup
    have hold : ∀ i, db.view.group i = some group ↔ IsGroup (db.hostGroups.mapRows Row.sync) group i := by
      intro i
      rw [← refs_eq_some, show (fun b => b) = (id : Group3 → Group3) from rfl, rowsAs_sync]
      rfl
    simp only [hold]
    rcases hlinked.new i row hrow with hmid | ⟨-, -, g, hg, -, hg', hnone⟩
    · exact .inl ⟨row, hmid, hlive, hname⟩
    obtain rfl : g = group := hg'.symm.trans hname
    obtain ⟨j, both, hboth, hgiven⟩ := mem_namedGroups.mp hg
    rw [hhosts, Table.get?_mapRows] at hboth
    obtain ⟨old, hold', rfl⟩ := Option.map_eq_some_iff.mp hboth
    obtain ⟨hworkspace, hpath, hlive'⟩ := given_eq_some.mp hgiven
    refine .inr ⟨⟨j, old.body.seen old.body.workspace old.body.groupPath, ?_, hpath, hworkspace⟩,
      fun i hi => hnone i ((hold i).mp hi)⟩
    have hold'' : old.live = some old.body := Row.live_eq_some.mpr ⟨hlive', rfl⟩
    show ((db.hosts.get? j).bind Row.live).map _ = _
    rw [hold', Option.bind_some, hold'']
    rfl
  · refine ⟨settled_sync, ?_, settled_sync, ?_, settled_sync, settled_sync, ?_⟩
    · intro i row hrow
      obtain ⟨old, -, rfl⟩ := Option.map_eq_some_iff.mp ((hrows i).symm.trans hrow)
      exact settled_linked old
    · intro i row hrow
      rw [Table.get?_mapRows] at hrow
      obtain ⟨old, -, rfl⟩ := Option.map_eq_some_iff.mp hrow
      rfl
    · intro i row hrow
      rcases hlinked.new i row hrow with hold | ⟨hlive, hdirty, -⟩
      · exact settled_sync i row hold
      · rw [hlive, hdirty]
        rfl

end Link

/-! ## Groups as records, and the repairs -/

section Repair

def groupRow (info : Meta) (e : Text × ℕ) : Row Group3 := { info.header with body := ⟨.priv, e.1, e.2⟩ }

theorem insertGroups (random : Random) (info : Meta) (hinj : Function.Injective random.group3)
    (names : List (Text × ℕ)) (hnames : (names.map Prod.fst).Nodup) (groups : Table Text (Row Group3))
    (hfree : ∀ e ∈ names, groups.get? (random.group3 e.1) = none) : ∃ groups', names.foldlM
    (fun groups e => insert groups (random.group3 e.1) (groupRow info e)) groups = .ok groups' ∧ ∀ id row,
    groups'.get? id = some row ↔ groups.get? id = some row ∨ ∃ e ∈ names, id = random.group3 e.1 ∧ row = groupRow info
    e := by
  induction names generalizing groups with
  | nil => exact ⟨groups, rfl, fun id row => by simp⟩
  | cons e names ih =>
    rw [List.map_cons, List.nodup_cons] at hnames
    have hnew := hfree e List.mem_cons_self
    obtain ⟨groups', hrest, hrows⟩ := ih hnames.2 (groups.set (random.group3 e.1) (groupRow info e)) (by
      intro e' he'
      rw [Table.get?_set_ne]
      · exact hfree e' (List.mem_cons_of_mem _ he')
      · intro hid
        exact hnames.1 (hinj hid ▸ List.mem_map_of_mem he'))
    refine ⟨groups', ?_, fun id row => ?_⟩
    · rw [List.foldlM_cons, insert, if_pos hnew]
      exact hrest
    · rw [hrows, Table.get?_set]
      by_cases hid : id = random.group3 e.1
      · rw [if_pos hid, hid, hnew]
        simp [eq_comm]
      · simp [hid]

theorem mem_groupPaths {hosts : Table Text (Row Host1)} {name : Text} : name ∈ groupPaths hosts ↔
    ∃ id row, hosts.get? id = some row ∧ row.deleted = false ∧ row.body.groupPath = some name := by
  rw [groupPaths, List.mem_mergeSort, List.mem_dedup, List.mem_filterMap]
  constructor
  · rintro ⟨⟨id, row⟩, hmem, hgiven⟩
    rcases hlive : row.deleted with _ | _
    · exact ⟨id, row, Table.mem_entries.mp hmem, hlive, by simpa [hlive] using hgiven⟩
    · simp [hlive] at hgiven
  · rintro ⟨id, row, hrow, hlive, hpath⟩
    exact ⟨(id, row), Table.mem_entries.mpr hrow, by simp [hlive, hpath]⟩

/-- What the upgrade to version 3 makes of a database. -/
structure FromV2 (random : Random) (db : Db2) (db' : Db3) : Prop where
  host : db'.view.host = db.view.host
  key : db'.view.key = db.view.key
  /-- The login of a live host lives. -/
  login : ∀ id deleted secret, db.view.login id = some (deleted, secret) →
    (deleted = false ∨ ∃ i host, db.view.host i = some host ∧ host.login = some id) →
      db'.view.login id = some (false, secret)
  refs : ∀ id, (db'.view.login id).map Prod.snd = (db.view.login id).map Prod.snd
  kept : ∀ id secret, db.view.secret id = some secret → db'.view.Uses id ∨ secret.deleted = true →
    db'.view.secret id = some secret
  erased : ∀ id secret, db.view.secret id = some secret → ¬db'.view.Uses id → secret.deleted = false →
    ∃ secret', db'.view.secret id = some secret' ∧ secret'.deleted = true ∧ secret'.body = ⟨[], []⟩
  group : ∀ name, (∃ i host, db.view.host i = some host ∧ host.group = some name) →
    ∃ id, db'.view.group id = some (.priv, name)
  /-- Each group is one that hosts name, and its name decides its id. -/
  named : ∀ id group, db'.view.group id = some group → group.1 = .priv ∧ id = random.group3 group.2 ∧
    ∃ i host, db.view.host i = some host ∧ host.group = some group.2
  ids : ∀ id row, db'.hostGroups.get? id = some row → ∃ name, id = random.group3 name

theorem FromV2.absent {random : Random} {db : Db2} {db' : Db3} (h : FromV2 random db db')
    (hapart : ∀ name group, random.group3 name ≠ random.group4 group) (group : Workspace × Text) :
    db'.hostGroups.get? (random.group4 group) = none := by
  rcases hrow : db'.hostGroups.get? (random.group4 group) with _ | row
  · rfl
  · obtain ⟨name, hname⟩ := h.ids _ row hrow
    exact absurd hname.symm (hapart name group)

theorem any_entries {β : Type} {table : Table Text β} {p : β → Bool} :
    (table.entries.any fun e => p e.2) = true ↔ ∃ id row, table.get? id = some row ∧ p row = true := by
  rw [List.any_eq_true]
  constructor
  · rintro ⟨⟨id, row⟩, hmem, hp⟩
    exact ⟨id, row, Table.mem_entries.mp hmem, hp⟩
  · rintro ⟨id, row, hrow, hp⟩
    exact ⟨(id, row), Table.mem_entries.mpr hrow, hp⟩

theorem secretUsed_iff (db : Db3) (id : Text) : secretUsed db.identities db.keys id = true ↔ db.view.Uses id := by
  have hlogin : (db.identities.entries.any fun e => !e.2.deleted && e.2.body.passwordSecretId == some id) = true ↔
      ∃ i, db.view.login i = some (false, some id) := by
    refine (@any_entries _ db.identities fun row => !row.deleted && row.body.passwordSecretId == some id).trans ?_
    simp [Db3.view, Identity2.ref]
  have hprivate : (db.keys.entries.any fun e => !e.2.deleted && e.2.body.privateSecretId == some id) = true ↔
      ∃ i p, db.view.key i = some (false, some id, p) := by
    refine (@any_entries _ db.keys fun row => !row.deleted && row.body.privateSecretId == some id).trans ?_
    simp [Db3.view, Key.ref]
  have hpassphrase : (db.keys.entries.any fun e => !e.2.deleted && e.2.body.passphraseSecretId == some id) = true ↔
      ∃ i p, db.view.key i = some (false, p, some id) := by
    refine (@any_entries _ db.keys fun row => !row.deleted && row.body.passphraseSecretId == some id).trans ?_
    simp [Db3.view, Key.ref]
  rw [secretUsed, Bool.or_eq_true, Bool.or_eq_true, hlogin, hprivate, hpassphrase, or_assoc]
  rfl

theorem host_eq_some {db : Db2} {id : Text} {host : HostSeen} : db.view.host id = some host ↔
    ∃ row, db.hosts.get? id = some row ∧ row.deleted = false ∧ row.body.seen .priv row.body.groupPath = host := by
  show ((db.hosts.get? id).bind Row.live).map _ = some host ↔ _
  simp only [Option.map_eq_some_iff, Option.bind_eq_some_iff, Row.live_eq_some]
  constructor
  · rintro ⟨_, ⟨row, hrow, hlive, rfl⟩, hhost⟩
    exact ⟨row, hrow, hlive, hhost⟩
  · rintro ⟨row, hrow, hlive, hhost⟩
    exact ⟨_, ⟨row, hrow, hlive, rfl⟩, hhost⟩

theorem pointed_iff (db : Db2) (id : Text) :
    (db.hosts.entries.any fun e => !e.2.deleted && e.2.body.identityId == some id) = true ↔ ∃ i host, db.view.host i =
    some host ∧ host.login = some id := by
  refine (@any_entries _ db.hosts fun row => !row.deleted && row.body.identityId == some id).trans ?_
  simp only [Bool.and_eq_true, Bool.not_eq_true', beq_iff_eq]
  constructor
  · rintro ⟨i, row, hrow, hlive, hlogin⟩
    exact ⟨i, _, host_eq_some.mpr ⟨row, hrow, hlive, rfl⟩, hlogin⟩
  · rintro ⟨i, _, hhost, hlogin⟩
    obtain ⟨row, hrow, hlive, rfl⟩ := host_eq_some.mp hhost
    exact ⟨i, row, hrow, hlive, hlogin⟩

theorem toV3_ok (random : Random) (db : Db2) (hinj : Function.Injective random.group3) :
    ∃ db', db.toV3 random = .ok db' ∧ FromV2 random db db' := by
  unfold Db2.toV3 insertGroups3
  obtain ⟨groups, hfold, hrows⟩ := insertGroups random db.info hinj (groupPaths db.hosts).zipIdx (by
    rw [List.zipIdx_map_fst]
    exact (List.mergeSort_perm _ _).nodup_iff.mpr (List.nodup_dedup _)) .empty fun e _ => rfl
  unfold groupRow at hfold
  rw [hfold]
  refine ⟨_, rfl, ?_, ?_, ?_, ?_, ?_, ?_, ?_, ?_, ?_⟩
  · funext i
    show (((db.hosts.mapRows _).get? i).bind Row.live).map _ = ((db.hosts.get? i).bind Row.live).map _
    rw [Table.get?_mapRows]
    rcases db.hosts.get? i with _ | row
    · rfl
    · rcases hlive : row.deleted with _ | _ <;> simp [Row.live, Row.withBody, hlive]
  · rfl
  · intro id deleted secret hlogin hlive
    obtain ⟨row, hrow, href⟩ := Option.map_eq_some_iff.mp hlogin
    cases href
    show ((reviveLogins db.hosts db.identities).get? id).map Identity2.ref = _
    rw [reviveLogins, Table.get?_map, hrow, Option.map_some, Option.map_some, Option.some.injEq]
    split
    · rfl
    · next hdead =>
      rcases hlive with hlive | hpointed
      · exact Prod.ext hlive rfl
      · have hlive : row.deleted = false := by
          by_contra hdeleted
          exact hdead ⟨eq_true_of_ne_false hdeleted, (pointed_iff db id).mpr hpointed⟩
        exact Prod.ext hlive rfl
  · intro id
    show (((reviveLogins db.hosts db.identities).get? id).map Identity2.ref).map Prod.snd =
      ((db.identities.get? id).map Identity2.ref).map Prod.snd
    rw [reviveLogins, Table.get?_map, Option.map_map, Option.map_map, Option.map_map]
    refine Option.map_congr fun row _ => ?_
    dsimp only [Function.comp_apply]
    split <;> rfl
  · intro id secret hsecret hkept
    show (eraseSecrets (reviveLogins db.hosts db.identities) db.keys db.secrets).get? id = some secret
    have hrow : db.secrets.get? id = some secret := hsecret
    rw [eraseSecrets, Table.get?_map, hrow, Option.map_some, if_neg]
    rintro ⟨hlive, hunused⟩
    rcases hkept with huses | hdeleted
    · exact absurd ((secretUsed_iff _ id).mpr huses) (by rw [hunused]; exact Bool.false_ne_true)
    · rw [hlive] at hdeleted
      cases hdeleted
  · intro id secret hsecret hunused hlive
    have hrow : db.secrets.get? id = some secret := hsecret
    refine ⟨{ secret with deleted := true, rev := secret.rev + 1, body := ⟨[], []⟩ }, ?_, rfl, rfl⟩
    show (eraseSecrets (reviveLogins db.hosts db.identities) db.keys db.secrets).get? id = _
    rw [eraseSecrets, Table.get?_map, hrow, Option.map_some, if_pos]
    exact ⟨hlive, Bool.eq_false_iff.mpr fun hused => hunused ((secretUsed_iff _ id).mp hused)⟩
  · rintro name ⟨i, host, hhost, hname⟩
    obtain ⟨row, hrow, hlive, rfl⟩ := host_eq_some.mp hhost
    have hmem : name ∈ groupPaths db.hosts := mem_groupPaths.mpr ⟨i, row, hrow, hlive, hname⟩
    rw [← List.zipIdx_map_fst 0 (groupPaths db.hosts)] at hmem
    obtain ⟨e, he, rfl⟩ := List.mem_map.mp hmem
    refine ⟨random.group3 e.1, ?_⟩
    show (groups.get? (random.group3 e.1)).bind Group3.ref = _
    rw [(hrows _ _).mpr (.inr ⟨e, he, rfl, rfl⟩)]
    rfl
  · intro i group hi
    obtain ⟨row, hrow, href⟩ := Option.bind_eq_some_iff.mp hi
    rcases (hrows i row).mp hrow with hnone | ⟨e, he, hid, rfl⟩
    · cases hnone
    · obtain ⟨-, rfl⟩ := ref_eq_some.mp href
      have hmem : e.1 ∈ groupPaths db.hosts := by
        rw [← List.zipIdx_map_fst 0 (groupPaths db.hosts)]
        exact List.mem_map_of_mem he
      obtain ⟨j, row, hrow, hlive, hpath⟩ := mem_groupPaths.mp hmem
      exact ⟨rfl, hid, j, _, host_eq_some.mpr ⟨row, hrow, hlive, rfl⟩, hpath⟩
  · intro id row hrow
    rcases (hrows id row).mp hrow with hnone | ⟨e, -, hid, -⟩
    · cases hnone
    · exact ⟨e.1, hid⟩

end Repair

/-! ## After version 4 -/

section After

variable {β γ : Type}

theorem settled_mapRows {table : Table Text (Synced β)} {g : Synced β → Synced γ}
    (hg : ∀ row, (g row).dirty = row.dirty ∧ (g row).deleted = row.deleted)
    (h : ∀ id row, table.get? id = some row → row.dirty = !row.deleted) :
    ∀ id row, (table.mapRows g).get? id = some row → row.dirty = !row.deleted := by
  intro id row hrow
  rw [Table.get?_mapRows] at hrow
  obtain ⟨old, hold, rfl⟩ := Option.map_eq_some_iff.mp hrow
  rw [(hg old).1, (hg old).2]
  exact h id old hold

theorem settled_toV7 {db : Db4} (h : db.Settled) : db.toV7.Settled where
  identities := settled_mapRows (fun _ => ⟨rfl, rfl⟩) h.identities
  hosts := settled_mapRows (fun _ => ⟨rfl, rfl⟩) h.hosts
  knownHosts := h.knownHosts
  secrets := h.secrets
  keys := h.keys
  snippets := h.snippets
  hostGroups := settled_mapRows (fun _ => ⟨rfl, rfl⟩) h.hostGroups

variable {V : Type} (json : SqliteJson V)

theorem settled_toV9 {db : Db8} (h : db.Settled) : (db.toV9 json).Settled where
  identities := h.identities
  hosts := h.hosts
  knownHosts := h.knownHosts
  secrets := h.secrets
  keys := h.keys
  snippets := h.snippets
  hostGroups := settled_mapRows (fun _ => ⟨rfl, rfl⟩) h.hostGroups

/-- What is read of JSON that was written, and an object without fields. -/
structure SqliteJson.Documented : Prop where
  read_write : ∀ v, json.read (json.write v) = some v
  fields_object : ∀ l, json.fields (json.object l) = some l
  write_empty : json.write (json.object []) = "{}".toList

/-- The fields of a `sync_extra`. -/
def fieldsOf (extra : Option Text) : List (Text × V) := ((extra.bind json.read).bind json.fields).getD []

/-- Every field is in the column or in what is left, as often as it was there before; without a column, all is left. -/
def Moved (before drives after : Option Text) : Prop :=
  (fieldsOf json before).Perm
      (((drives.bind json.read).map fun v => (drivesKey, v)).toList ++ fieldsOf json after) ∧
    (drives = none → after = before)

theorem takeDrives_some {l rest : List (Text × V)} {v : V} (h : takeDrives l = some (v, rest)) :
    l.Perm ((drivesKey, v) :: rest) := by
  induction l generalizing rest with
  | nil => cases h
  | cons e l ih =>
    obtain ⟨name, value⟩ := e
    unfold takeDrives at h
    split at h
    · next hname =>
      cases h
      rw [hname]
    · obtain ⟨⟨v', rest'⟩, hrest, hsame⟩ := Option.map_eq_some_iff.mp h
      cases hsame
      exact ((ih hrest).cons (name, value)).trans (List.Perm.swap _ _ _)

theorem moveDrives_moved (hjson : json.Documented) (extra : Option Text) :
    Moved json extra (moveDrives json extra).1 (moveDrives json extra).2 := by
  have hstay : Moved json extra none extra := ⟨List.Perm.refl _, fun _ => rfl⟩
  unfold moveDrives
  rcases hread : extra.bind json.read with _ | document
  · exact hstay
  dsimp only
  rcases htake : (json.fields document).bind takeDrives with _ | ⟨drives, rest⟩
  · exact hstay
  dsimp only
  split
  swap
  · exact hstay
  obtain ⟨fields, hfields, htaken⟩ := Option.bind_eq_some_iff.mp htake
  have hbefore : fieldsOf json extra = fields := by
    rw [fieldsOf, hread, Option.bind_some, hfields, Option.getD_some]
  have hleft : fieldsOf json (if json.write (json.object rest) = "{}".toList then none
      else some (json.write (json.object rest))) = rest := by
    split
    · next hempty =>
      rw [← hjson.write_empty] at hempty
      have hsame := congrArg json.read hempty
      rw [hjson.read_write, hjson.read_write, Option.some.injEq] at hsame
      have hnil := congrArg json.fields hsame
      rw [hjson.fields_object, hjson.fields_object, Option.some.injEq] at hnil
      rw [hnil]
      rfl
    · rw [fieldsOf, Option.bind_some, hjson.read_write, Option.bind_some, hjson.fields_object, Option.getD_some]
  refine ⟨?_, fun h => (by cases h)⟩
  rw [hbefore, hleft, Option.bind_some, hjson.read_write]
  exact takeDrives_some htaken

end After

/-! ## The whole way -/

section Whole

variable {V : Type} (json : SqliteJson V) (random : Random)

/-- The `sync_extra` of a group. -/
def Database.extra : Database → Text → Option (Option Text)
  | .v4 db | .v5 db | .v6 db => fun id => (db.hostGroups.get? id).map fun row => row.syncExtra
  | .v7 db => fun id => (db.hostGroups.get? id).map fun row => row.syncExtra
  | .v8 db => fun id => (db.hostGroups.get? id).map fun row => row.syncExtra
  | _ => fun _ => none

def Database.Settled : Database → Prop
  | .v4 db | .v5 db | .v6 db => db.Settled
  | .v7 db => db.Settled
  | .v8 db => db.Settled
  | _ => False

/-- From version 4 on, rows are only carried over. -/
structure Carried (db : Database) (db' : Db9) : Prop where
  view : (Database.v9 db').view = db.view
  settled : db.Settled → db'.Settled
  extra : ∀ id extra, db.extra id = some extra →
    ∃ row, db'.hostGroups.get? id = some row ∧ Moved json extra row.body.drives row.syncExtra

theorem carried_v8 (hjson : json.Documented) (db : Db8) : Carried json (.v8 db) (db.toV9 json) where
  view := view_toV9 json db
  settled := settled_toV9 json
  extra id extra hextra := by
    obtain ⟨row, hrow, rfl⟩ := Option.map_eq_some_iff.mp hextra
    refine ⟨{ row.withBody fun b => Group9.mk b (moveDrives json row.syncExtra).1 with
      syncExtra := (moveDrives json row.syncExtra).2 }, ?_, moveDrives_moved json hjson row.syncExtra⟩
    show (db.hostGroups.mapRows _).get? id = _
    rw [Table.get?_mapRows, hrow]
    rfl

theorem extra_mapRows {β γ : Type} (table : Table Text (Synced β)) (f : β → γ) (id : Text) :
    ((table.mapRows fun row => row.withBody f).get? id).map (fun row => row.syncExtra) = (table.get? id).map fun row
    => row.syncExtra := by
  rw [Table.get?_mapRows, Option.map_map]
  rfl

variable {db' : Db9}

theorem carried_v6 {db : Db4} (h : Carried json (.v7 db.toV7) db') : Carried json (.v6 db) db' where
  view := h.view.trans (view_toV7 db)
  settled hsettled := h.settled (settled_toV7 hsettled)
  extra id extra hextra := h.extra id extra ((extra_mapRows db.hostGroups _ id).trans hextra)

theorem carried (hjson : json.Documented) (db : Database) (hmin : 4 ≤ db.version) (hmax : db.version ≤ 8) :
    ∃ db', migrate json random db = .ok (.v9 db') ∧ Carried json db db' := by
  cases db with
  | v0 | v1 | v2 | v3 => simp [Database.version] at hmin
  | v9 => simp [Database.version] at hmax
  | newer version h => exact absurd (hmax.trans_lt (by decide : 8 < schemaVersion)) (Nat.not_lt.mpr h.le)
  | v8 db => exact ⟨_, rfl, carried_v8 json hjson db⟩
  | v7 db =>
    have h := carried_v8 json hjson (db.toV8 random)
    exact ⟨_, rfl, h.view, h.settled, h.extra⟩
  | v6 db =>
    have h := carried_v8 json hjson (db.toV7.toV8 random)
    exact ⟨_, rfl, carried_v6 json ⟨h.view, h.settled, h.extra⟩⟩
  | v5 db | v4 db =>
    have h := carried_v8 json hjson (db.toV7.toV8 random)
    have h' : Carried json (.v6 db) ((db.toV7.toV8 random).toV9 json) := carried_v6 json ⟨h.view, h.settled, h.extra⟩
    exact ⟨_, rfl, h'.view, h'.settled, h'.extra⟩

/-- What is left of a database for the user when it has the newest schema. -/
structure Upgraded (db : Database) (db' : Db9) : Prop where
  host : ∀ id host, db.view.host id = some host → (Database.v9 db').view.host id = some host
  /-- A host keeps its live login, and up to version 2 gets back a deleted one. -/
  login : ∀ id host login deleted secret, db.view.host id = some host → host.login = some login →
    db.view.login login = some (deleted, secret) → deleted = false ∨ db.version ≤ 2 →
      (Database.v9 db').view.login login = some (false, secret)
  key : (Database.v9 db').view.key = db.view.key
  /-- Every login keeps the secret it points at. -/
  refs : ∀ id, ((Database.v9 db').view.login id).map Prod.snd = (db.view.login id).map Prod.snd
  group : db.version ≤ 2 → ∀ name, (∃ i host, db.view.host i = some host ∧ host.group = some name) →
    ∃! id, ∃ workspace, (Database.v9 db').view.group id = some (workspace, name)
  named : db.version ≤ 2 → ∀ id group, (Database.v9 db').view.group id = some group →
    group.1 = .priv ∧ ∃ i host, db.view.host i = some host ∧ host.group = some group.2
  kept : ∀ id secret, db.view.secret id = some secret →
    (Database.v9 db').view.Uses id ∨ secret.deleted = true → (Database.v9 db').view.secret id = some secret
  erased : db.version ≤ 2 → ∀ id secret, db.view.secret id = some secret → ¬(Database.v9 db').view.Uses id →
    secret.deleted = false → ∃ secret', (Database.v9 db').view.secret id = some secret' ∧
      secret'.deleted = true ∧ secret'.body = ⟨[], []⟩
  settled : db.version ≤ 3 → db'.Settled
  extra : ∀ id extra, db.extra id = some extra →
    ∃ row, db'.hostGroups.get? id = some row ∧ Moved json extra row.body.drives row.syncExtra

/-- The ids an upgrade makes are new: they differ from each other and from those of the groups there are. -/
structure Random.Fresh (random : Random) (db : Database) : Prop where
  group3 : db.version ≤ 2 → Function.Injective random.group3 ∧ ∀ name group, random.group3 name ≠ random.group4 group
  group4 : db.version ≤ 3 → Function.Injective random.group4
  absent : ∀ v3, db = .v3 v3 → ∀ group, v3.hostGroups.get? (random.group4 group) = none

theorem upgraded_v4 {db : Database} (hmin : 4 ≤ db.version) (h : Carried json db db') :
    Upgraded json db db' where
  host id host hhost := by rwa [h.view]
  login id host login deleted secret _ _ hlogin hlive := by
    rw [h.view, hlogin]
    rcases hlive with rfl | hold
    · rfl
    · omega
  key := by rw [h.view]
  refs id := by rw [h.view]
  group hold := absurd hmin (by omega)
  named hold := absurd hmin (by omega)
  kept id secret hsecret _ := by rwa [h.view]
  erased hold := absurd hmin (by omega)
  settled hold := absurd hmin (by omega)
  extra := h.extra

theorem upgraded_v3 {db : Db3} {db₄ : Db4} (h₄ : FromV3 db db₄) (h : Carried json (.v4 db₄) db') :
    Upgraded json (.v3 db) db' where
  host id host hhost := by
    rw [h.view]
    exact h₄.host id host hhost
  login id host login deleted secret _ _ hlogin hlive := by
    rw [h.view, h₄.login]
    rcases hlive with rfl | hold
    · exact hlogin
    · simp [Database.version] at hold
  key := by
    rw [h.view, h₄.key]
    rfl
  refs id := by
    rw [h.view, h₄.login]
    rfl
  group hold := by simp [Database.version] at hold
  named hold := by simp [Database.version] at hold
  kept id secret hsecret _ := by
    rw [h.view, h₄.secret]
    exact hsecret
  erased hold := by simp [Database.version] at hold
  settled _ := h.settled h₄.settled
  extra id extra hextra := by cases hextra

theorem View.uses_congr {v v' : View} (hlogin : v.login = v'.login) (hkey : v.key = v'.key) (id : Text) :
    v.Uses id ↔ v'.Uses id := by
  rw [View.Uses, View.Uses, hlogin, hkey]

theorem upgraded_v2 {db : Db2} {db₃ : Db3} {db₄ : Db4} (h₃ : FromV2 random db db₃) (h₄ : FromV3 db₃ db₄)
    (h : Carried json (.v4 db₄) db') : Upgraded json (.v2 db) db' := by
  have huses : ∀ id, (Database.v9 db').view.Uses id ↔ db₃.view.Uses id := fun id =>
    View.uses_congr ((congrArg View.login h.view).trans h₄.login) ((congrArg View.key h.view).trans h₄.key) id
  -- A group that is there at the end was there in version 3: every name that hosts give had a record then.
  have hback : ∀ id group, (Database.v9 db').view.group id = some group → db₃.view.group id = some group := by
    intro id group hgroup
    rw [h.view] at hgroup
    rcases h₄.made id group hgroup with hthere | ⟨⟨i, host, hhost, hname, hworkspace⟩, hnone⟩
    · exact hthere
    rw [h₃.host] at hhost
    obtain ⟨old, hold⟩ := h₃.group group.2 ⟨i, host, hhost, hname⟩
    obtain ⟨row, -, -, rfl⟩ := host_eq_some.mp hhost
    have hsame : group = (.priv, group.2) := Prod.ext hworkspace.symm rfl
    exact absurd (hsame ▸ hold) (hnone old)
  refine ⟨?_, ?_, ?_, ?_, ?_, ?_, ?_, ?_, fun _ => h.settled h₄.settled, fun id extra hextra => (by cases hextra)⟩
  · intro id host hhost
    rw [h.view]
    exact h₄.host id host (h₃.host ▸ hhost)
  · intro id host login deleted secret hhost hlogin hrow _
    rw [h.view, h₄.login]
    exact h₃.login login deleted secret hrow (.inr ⟨id, host, hhost, hlogin⟩)
  · rw [h.view, h₄.key]
    exact h₃.key
  · intro id
    rw [h.view, h₄.login]
    exact h₃.refs id
  · intro _ name hgiven
    obtain ⟨id, hid⟩ := h₃.group name hgiven
    refine ⟨id, ⟨.priv, ?_⟩, ?_⟩
    · show (Database.v9 db').view.group id = _
      rw [h.view]
      exact h₄.group id _ hid
    · rintro id' ⟨workspace, hid'⟩
      rw [(h₃.named id _ hid).2.1, (h₃.named id' _ (hback id' _ hid')).2.1]
  · intro _ id group hgroup
    obtain ⟨hpriv, -, hgiven⟩ := h₃.named id group (hback id group hgroup)
    exact ⟨hpriv, hgiven⟩
  · intro id secret hsecret hkept
    rw [h.view, h₄.secret]
    exact h₃.kept id secret hsecret (hkept.imp_left (huses id).mp)
  · intro _ id secret hsecret hunused hlive
    rw [h.view, h₄.secret]
    exact h₃.erased id secret hsecret (fun hused => hunused ((huses id).mpr hused)) hlive

theorem migrate_of_upgrade {db next : Database} (h : upgrade json random db = .ok next)
    (hversion : next.version = db.version + 1) (hmax : next.version ≤ schemaVersion) :
    migrate json random db = migrate json random next := by
  rw [migrate, migrate, if_neg (by omega), if_neg (by omega),
    show schemaVersion - db.version = (schemaVersion - next.version) + 1 by omega, upgrades, h]
  rfl

theorem migrate_upgraded (hjson : json.Documented) (db : Database) (hmin : 1 ≤ db.version) (hmax : db.version ≤ 8)
    (hfresh : random.Fresh db) : ∃ db', migrate json random db = .ok (.v9 db') ∧ Upgraded json db db' := by
  have hv3 : ∀ v3, (∀ group, v3.hostGroups.get? (random.group4 group) = none) → Function.Injective random.group4 →
      ∃ v4 db', v3.toV4 random = .ok v4 ∧ migrate json random (.v3 v3) = .ok (.v9 db') ∧ FromV3 v3 v4 ∧
        Carried json (.v4 v4) db' := by
    intro v3 habsent hinj
    obtain ⟨v4, hv4, h₄⟩ := toV4_ok random v3 hinj habsent
    obtain ⟨db', hdb', h⟩ := carried json random hjson (.v4 v4) (le_refl 4) (by simp [Database.version])
    refine ⟨v4, db', hv4, ?_, h₄, h⟩
    rw [← hdb']
    exact migrate_of_upgrade json random (by rw [upgrade, hv4]; rfl) rfl (by simp [Database.version, schemaVersion])
  have hv2 : ∀ v2, random.Fresh (.v2 v2) →
      ∃ db', migrate json random (.v2 v2) = .ok (.v9 db') ∧ Upgraded json (.v2 v2) db' := by
    intro v2 hfresh
    obtain ⟨hinj, hapart⟩ := hfresh.group3 (le_refl 2)
    obtain ⟨v3, hv3', h₃⟩ := toV3_ok random v2 hinj
    obtain ⟨v4, db', -, hdb', h₄, h⟩ := hv3 v3 (h₃.absent hapart) (hfresh.group4 (by simp [Database.version]))
    refine ⟨db', ?_, upgraded_v2 json random h₃ h₄ h⟩
    rw [← hdb']
    exact migrate_of_upgrade json random (by rw [upgrade, hv3']; rfl) rfl (by simp [Database.version, schemaVersion])
  cases db with
  | v0 => simp [Database.version] at hmin
  | v9 => simp [Database.version] at hmax
  | newer version h => exact absurd (hmax.trans_lt (by decide : 8 < schemaVersion)) (Nat.not_lt.mpr h.le)
  | v1 v1 =>
    obtain ⟨db', hdb', h⟩ := hv2 v1.toV2 ⟨fun _ => hfresh.group3 (by simp [Database.version]), fun _ => hfresh.group4 (by simp [Database.version]),
      fun _ h => (by cases h)⟩
    refine ⟨db', hdb', h.host, ?_, h.key, h.refs, fun _ => h.group (le_refl 2), fun _ => h.named (le_refl 2), h.kept,
      fun _ => h.erased (le_refl 2), fun _ => h.settled (by simp [Database.version]), h.extra⟩
    intro id host login deleted secret hhost hlogin hrow _
    exact h.login id host login deleted secret hhost hlogin hrow (.inr (le_refl 2))
  | v2 v2 => exact hv2 v2 hfresh
  | v3 v3 =>
    obtain ⟨v4, db', -, hdb', h₄, h⟩ := hv3 v3 (hfresh.absent v3 rfl) (hfresh.group4 (le_refl 3))
    exact ⟨db', hdb', upgraded_v3 json h₄ h⟩
  | v4 db | v5 db | v6 db | v7 db | v8 db =>
    obtain ⟨db', hdb', h⟩ := carried json random hjson _ (by simp [Database.version]) hmax
    exact ⟨db', hdb', upgraded_v4 json (by simp [Database.version]) h⟩

end Whole

end Schema

end UwuRdp
