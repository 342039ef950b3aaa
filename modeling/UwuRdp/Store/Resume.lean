import UwuRdp.Lib.Json
import UwuRdp.Store.Upgrade

/-!
# Upgrades go on where they were cut off

Each upgrade is committed with its version, so a database whose upgrades were cut off goes on with the next. What
differs then is the ids that are made on the way: two runs of the upgrades on one database come to the same, up to a
renaming of these ids.
-/

namespace UwuRdp

open Lib

namespace Schema

/-! ## The same but for ids -/

section Same

variable {ι η γ β : Type}

/-- The rows are the same, in the same order, under other ids. -/
def Renamed (f : Text → Text) (table table' : Table Text β) : Prop :=
  table'.entries = table.entries.map fun e => (f e.1, e.2)

variable {table table' : Table Text β}

theorem Renamed.mapRows {f : Text → Text} (h : Renamed f table table') (g : β → γ) :
    Renamed f (table.mapRows g) (table'.mapRows g) := by
  show table'.entries.map _ = (table.entries.map _).map _
  rw [h, List.map_map, List.map_map]
  rfl

theorem Renamed.insert {f : Text → Text} {next next' : Table Text β} (h : Renamed f table table')
    {id : Text} {row : β} (hnext : Schema.insert table id row = .ok next)
    (hnext' : Schema.insert table' (f id) row = .ok next') : Renamed f next next' := by
  unfold Schema.insert at hnext hnext'
  split at hnext
  swap
  · cases hnext
  next hnone =>
    split at hnext'
    swap
    · cases hnext'
    next hnone' =>
      cases hnext
      cases hnext'
      rw [Renamed, Table.entries_set_of_none row hnone, Table.entries_set_of_none row hnone', h, List.map_append]
      rfl

theorem Renamed.of_fixed {f : Text → Text} (h : ∀ id, table.get? id ≠ none → f id = id) : Renamed f table table := by
  have hsame : (table.entries.map fun e => (f e.1, e.2)) = table.entries.map id := by
    refine List.map_congr_left fun e he => ?_
    rw [h e.1 (by rw [Table.mem_entries.mp he]; exact Option.some_ne_none _)]
    rfl
  rw [Renamed, hsame, List.map_id]

/-- Two databases of version 3 that differ by the ids of their groups. -/
structure Db3.Same (f : Text → Text) (a b : Db3) : Prop where
  info : b.info = a.info
  identities : b.identities = a.identities
  hosts : b.hosts = a.hosts
  knownHosts : b.knownHosts = a.knownHosts
  secrets : b.secrets = a.secrets
  keys : b.keys = a.keys
  snippets : b.snippets = a.snippets
  hostGroups : Renamed f a.hostGroups b.hostGroups

/-- The same from version 4 on, where hosts have the ids too. -/
structure Tables.Same (f : Text → Text) (move : η → η) (a b : Tables ι η γ) : Prop where
  info : b.info = a.info
  identities : b.identities = a.identities
  hosts : b.hosts = a.hosts.mapRows fun row => row.withBody move
  knownHosts : b.knownHosts = a.knownHosts
  secrets : b.secrets = a.secrets
  keys : b.keys = a.keys
  snippets : b.snippets = a.snippets
  hostGroups : Renamed f a.hostGroups b.hostGroups

def Host4.regroup (f : Text → Text) (host : Host4) : Host4 := { host with groupId := host.groupId.map f }

def Host7.regroup (f : Text → Text) (host : Host7) : Host7 := { host with groupId := host.groupId.map f }

def HostBoth.regroup (f : Text → Text) (host : HostBoth) : HostBoth := { host with groupId := host.groupId.map f }

end Same

/-! ## The upgrade to version 4 -/

section Link

variable {f : Text → Text} {random random' : Random} {info : Meta} {groups groups' : Table Text (Synced Group3)}

/-- The hosts of a table, with their groups under other ids. -/
def regrouped (f : Text → Text) (hosts : Table Text (Synced HostBoth)) : Table Text (Synced HostBoth) :=
  hosts.mapRows fun row => row.withBody (HostBoth.regroup f)

theorem existing_renamed (h : Renamed f groups groups') (group : Workspace × Text) :
    existing groups' group = (existing groups group).map f := by
  unfold existing Table.select
  rw [h, List.filter_map, ← List.map_mergeSort (r := fun a b => decide (a.2.body.position ≤ b.2.body.position))
    (fun _ _ _ _ => rfl), List.head?_map, Option.map_map, Option.map_map]
  rfl

theorem nextPosition_renamed (h : Renamed f groups groups') (workspace : Workspace) :
    nextPosition groups' workspace = nextPosition groups workspace := by
  unfold nextPosition Table.select
  rw [h, List.filter_map, List.map_map]
  rfl

theorem mapRows_map {β γ : Type} (table : Table Text β) {g : Text → β → β} {h : β → γ} {g' : Text → γ → γ}
    (hsame : ∀ id row, h (g id row) = g' id (h row)) : (table.map g).mapRows h = (table.mapRows h).map g' := by
  unfold Table.map Table.mapRows
  simp only [List.map_map, Function.comp_def, hsame]

variable {hosts : Table Text (Synced HostBoth)}
  {next next' : Table Text (Synced Group3) × Table Text (Synced HostBoth)}

theorem linkGroup_renamed (h : Renamed f groups groups')
    {group : Workspace × Text} (hid : f (random.group4 group) = random'.group4 group)
    (hnext : linkGroup random info (groups, hosts) group = .ok next)
    (hnext' : linkGroup random' info (groups', regrouped f hosts) group = .ok next') :
    Renamed f next.1 next'.1 ∧ next'.2 = regrouped f next.2 := by
  have hhosts : ∀ id, (regrouped f hosts).map (fun _ row =>
      if row.body.workspace = group.1 ∧ row.body.groupPath = some group.2 ∧ row.deleted = false then
        { row with body := { row.body with groupId := some (f id) } }
      else row) = regrouped f (hosts.map fun _ row =>
      if row.body.workspace = group.1 ∧ row.body.groupPath = some group.2 ∧ row.deleted = false then
        { row with body := { row.body with groupId := some id } }
      else row) := by
    intro id
    refine (mapRows_map hosts fun _ row => ?_).symm
    by_cases hgiven : row.body.workspace = group.1 ∧ row.body.groupPath = some group.2 ∧ row.deleted = false
    · rw [if_pos hgiven]
      exact (if_pos hgiven).symm
    · rw [if_neg hgiven]
      exact (if_neg hgiven).symm
  unfold linkGroup at hnext hnext'
  simp only [existing_renamed h, nextPosition_renamed h] at hnext'
  rcases hexisting : existing groups group with _ | id
  · simp only [hexisting, Option.map_none, ← hid] at hnext hnext'
    rcases hinsert : insert groups (random.group4 group) _ with e | made
    · rw [hinsert] at hnext
      cases hnext
    rcases hinsert' : insert groups' (f (random.group4 group)) _ with e | made'
    · rw [hinsert'] at hnext'
      cases hnext'
    rw [hinsert] at hnext
    rw [hinsert'] at hnext'
    cases hnext
    cases hnext'
    exact ⟨h.insert hinsert hinsert', hhosts _⟩
  · simp only [hexisting, Option.map_some] at hnext hnext'
    cases hnext
    cases hnext'
    exact ⟨h, hhosts id⟩

theorem linkGroups_renamed (names : List (Workspace × Text)) (h : Renamed f groups groups') (hid : ∀ group, f (random.group4 group) = random'.group4 group)
    (hnext : names.foldlM (linkGroup random info) (groups, hosts) = .ok next)
    (hnext' : names.foldlM (linkGroup random' info) (groups', regrouped f hosts) = .ok next') :
    Renamed f next.1 next'.1 ∧ next'.2 = regrouped f next.2 := by
  induction names generalizing groups groups' hosts with
  | nil =>
    cases hnext
    cases hnext'
    exact ⟨h, rfl⟩
  | cons group names ih =>
    rw [List.foldlM_cons] at hnext hnext'
    rcases hstep : linkGroup random info (groups, hosts) group with e | mid
    · rw [hstep] at hnext
      cases hnext
    rcases hstep' : linkGroup random' info (groups', regrouped f hosts) group with e | mid'
    · rw [hstep'] at hnext'
      cases hnext'
    rw [hstep] at hnext
    rw [hstep'] at hnext'
    obtain ⟨hgroups, hhosts⟩ := linkGroup_renamed h (hid group) hstep hstep'
    refine ih hgroups hnext ?_
    rw [← hhosts]
    exact hnext'

theorem toV4_same {a b : Db3} {a' b' : Db4} (h : a.Same f b)
    (hid : ∀ group, f (random.group4 group) = random'.group4 group) (ha : a.toV4 random = .ok a')
    (hb : b.toV4 random' = .ok b') : Tables.Same f (Host4.regroup f) a' b' := by
  unfold Db3.toV4 at ha hb
  rw [h.hosts, h.info, h.identities, h.knownHosts, h.secrets, h.keys, h.snippets] at hb
  have hstart : regrouped f (a.hosts.mapRows Row.both) = a.hosts.mapRows Row.both := by
    unfold regrouped Table.mapRows
    simp only [List.map_map]
    rfl
  dsimp only at ha hb
  rcases hlink : (namedGroups (a.hosts.mapRows Row.both)).foldlM (linkGroup random a.info)
    (a.hostGroups.mapRows Row.sync, a.hosts.mapRows Row.both) with e | ⟨groups, hosts⟩
  · rw [hlink] at ha
    cases ha
  rcases hlink' : (namedGroups (a.hosts.mapRows Row.both)).foldlM (linkGroup random' a.info)
    (b.hostGroups.mapRows Row.sync, a.hosts.mapRows Row.both) with e | ⟨groups', hosts'⟩
  · rw [hlink'] at hb
    cases hb
  rw [hlink] at ha
  rw [hlink'] at hb
  cases ha
  cases hb
  obtain ⟨hgroups, hhosts⟩ := linkGroups_renamed _ (h.hostGroups.mapRows Row.sync) hid hlink
    (by rw [hstart]; exact hlink')
  refine ⟨rfl, rfl, ?_, rfl, rfl, rfl, rfl, hgroups⟩
  dsimp only at hhosts
  rw [hhosts]
  unfold regrouped Table.mapRows
  simp only [List.map_map]
  rfl

end Link

/-! ## The other upgrades -/

section Others

variable {f : Text → Text} {random random' : Random}

theorem insertGroups3_renamed {info : Meta} (hid : ∀ name, f (random.group3 name) = random'.group3 name)
    (names : List (Text × ℕ)) {groups groups' next next' : Table Text (Row Group3)} (h : Renamed f groups groups')
    (hnext : names.foldlM (fun groups e => insert groups (random.group3 e.1) (groupRow info e)) groups = .ok next)
    (hnext' : names.foldlM (fun groups e => insert groups (random'.group3 e.1) (groupRow info e)) groups' =
      .ok next') : Renamed f next next' := by
  induction names generalizing groups groups' with
  | nil =>
    cases hnext
    cases hnext'
    exact h
  | cons e names ih =>
    rw [List.foldlM_cons] at hnext hnext'
    rw [← hid] at hnext'
    rcases hstep : insert groups (random.group3 e.1) (groupRow info e) with error | mid
    · rw [hstep] at hnext
      cases hnext
    rcases hstep' : insert groups' (f (random.group3 e.1)) (groupRow info e) with error | mid'
    · rw [hstep'] at hnext'
      cases hnext'
    rw [hstep] at hnext
    rw [hstep'] at hnext'
    exact ih (h.insert hstep hstep') hnext hnext'

theorem toV3_same {db : Db2} {a b : Db3} (hid : ∀ name, f (random.group3 name) = random'.group3 name)
    (ha : db.toV3 random = .ok a) (hb : db.toV3 random' = .ok b) : a.Same f b := by
  unfold Db2.toV3 at ha hb
  rcases hgroups : insertGroups3 random db.info (groupPaths db.hosts) with e | groups
  · rw [hgroups] at ha
    cases ha
  rcases hgroups' : insertGroups3 random' db.info (groupPaths db.hosts) with e | groups'
  · rw [hgroups'] at hb
    cases hb
  rw [hgroups] at ha
  rw [hgroups'] at hb
  cases ha
  cases hb
  exact ⟨rfl, rfl, rfl, rfl, rfl, rfl, rfl,
    insertGroups3_renamed hid _ (show Renamed f .empty .empty from rfl) hgroups hgroups'⟩

theorem same_mapRows {β γ : Type} (move : β → β) (move' : γ → γ) (carry : β → γ)
    (hmove : ∀ b, carry (move b) = move' (carry b)) (table : Table Text (Synced β)) :
    (table.mapRows fun row => row.withBody move).mapRows (fun row => row.withBody carry) =
    (table.mapRows fun row => row.withBody carry).mapRows fun row => row.withBody move' := by
  unfold Table.mapRows
  simp only [List.map_map, Function.comp_def, Synced.withBody, Row.withBody, hmove]

theorem toV7_same {a b : Db4} (h : Tables.Same f (Host4.regroup f) a b) :
    Tables.Same f (Host7.regroup f) a.toV7 b.toV7 where
  info := h.info
  identities := by
    unfold Tables.toV7
    rw [h.identities]
  hosts := by
    unfold Tables.toV7
    rw [h.hosts]
    exact same_mapRows (Host4.regroup f) (Host7.regroup f) (fun b => ⟨b, none, [], none⟩) (fun _ => rfl) a.hosts
  knownHosts := h.knownHosts
  secrets := h.secrets
  keys := h.keys
  snippets := h.snippets
  hostGroups := h.hostGroups.mapRows _

variable {V : Type} (json : SqliteJson V)

theorem toV9_same {a b : Db8} (h : Tables.Same f (Host7.regroup f) a.toTables b.toTables) :
    Tables.Same f (Host7.regroup f) (a.toV9 json).toTables (b.toV9 json).toTables where
  info := h.info
  identities := h.identities
  hosts := h.hosts
  knownHosts := h.knownHosts
  secrets := h.secrets
  keys := h.keys
  snippets := h.snippets
  hostGroups := h.hostGroups.mapRows _

theorem Tables.Same.refl {ι η γ : Type} {move : η → η} (hmove : ∀ host, move host = host) (db : Tables ι η γ) :
    Tables.Same id move db db := by
  refine ⟨rfl, rfl, ?_, rfl, rfl, rfl, rfl, Renamed.of_fixed fun _ _ => rfl⟩
  unfold Table.mapRows Synced.withBody Row.withBody
  simp only [hmove]
  simp

end Others

/-! ## Going on -/

section Resume

variable {V : Type} (json : SqliteJson V) {random random' : Random}

variable {db next mid : Database} {n : ℕ} {a b db' : Db9}

theorem upgrade_version (hmax : db.version ≤ 8) (h : upgrade json random db = .ok next) :
    next.version = db.version + 1 := by
  cases db with
  | v9 => simp [Database.version] at hmax
  | newer version hnewer => exact absurd (hmax.trans_lt (by decide : 8 < schemaVersion)) (Nat.not_lt.mpr hnewer.le)
  | v2 db =>
    rw [upgrade] at h
    rcases hup : db.toV3 random with e | v3
    · rw [hup] at h
      cases h
    · rw [hup] at h
      cases h
      rfl
  | v3 db =>
    rw [upgrade] at h
    rcases hup : db.toV4 random with e | v4
    · rw [hup] at h
      cases h
    · rw [hup] at h
      cases h
      rfl
  | v0 | v1 | v4 | v5 | v6 | v7 | v8 =>
    cases h
    rfl

theorem migrate_of_upgrades (hmax : db.version ≤ schemaVersion) (h : upgrades json random n db = .ok mid) : migrate
    json random db = migrate json random mid ∧ db.version ≤ mid.version ∧ mid.version ≤ schemaVersion := by
  induction n generalizing db with
  | zero =>
    cases h
    exact ⟨rfl, le_refl _, hmax⟩
  | succ n ih =>
    rw [upgrades] at h
    rcases hnext : upgrade json random db with e | next
    · rw [hnext] at h
      cases h
    rw [hnext] at h
    by_cases hlast : db.version ≤ 8
    · have hversion := upgrade_version json hlast hnext
      have hmax' : next.version ≤ schemaVersion := hversion ▸ Nat.succ_le_succ hlast
      obtain ⟨hsame, hle, hmid⟩ := ih hmax' h
      exact ⟨(migrate_of_upgrade json random hnext hversion hmax').trans hsame, by omega, hmid⟩
    · cases db with
      | v0 | v1 | v2 | v3 | v4 | v5 | v6 | v7 | v8 => simp [Database.version] at hlast
      | newer version hnewer => exact absurd hmax (Nat.not_le.mpr hnewer)
      | v9 db =>
        cases hnext
        exact ih hmax h

/-- A group of a database has the id, or a host points at it. -/
def Database.Knows : Database → Text → Prop
  | .v3 db => fun id => db.hostGroups.get? id ≠ none
  | .v4 db | .v5 db | .v6 db => fun id =>
    db.hostGroups.get? id ≠ none ∨ ∃ i row, db.hosts.get? i = some row ∧ row.body.groupId = some id
  | .v7 db => fun id =>
    db.hostGroups.get? id ≠ none ∨ ∃ i row, db.hosts.get? i = some row ∧ row.body.groupId = some id
  | .v8 db => fun id =>
    db.hostGroups.get? id ≠ none ∨ ∃ i row, db.hosts.get? i = some row ∧ row.body.groupId = some id
  | .v9 db => fun id =>
    db.hostGroups.get? id ≠ none ∨ ∃ i row, db.hosts.get? i = some row ∧ row.body.groupId = some id
  | _ => fun _ => False

/-- What two databases came to from one, the same up to the ids that were made after it. -/
structure SameButIds (mid : Database) (a b : Db9) : Prop where
  tables : ∃ f, (∀ id, mid.Knows id → f id = id) ∧ Tables.Same f (Host7.regroup f) a.toTables b.toTables
  device : 8 ≤ mid.version → b.deviceIdentifier = a.deviceIdentifier

theorem Host7.regroup_id (host : Host7) : host.regroup id = host := by simp [Host7.regroup]

theorem sameButIds_v4 (hmin : 4 ≤ mid.version) (ha : migrate json random mid = .ok (.v9 a))
    (hb : migrate json random' mid = .ok (.v9 b)) : SameButIds mid a b := by
  have htables : a.toTables = b.toTables ∧ (8 ≤ mid.version → b.deviceIdentifier = a.deviceIdentifier) := by
    cases mid with
    | v0 | v1 | v2 | v3 => simp [Database.version] at hmin
    | newer version h =>
      have hnewer : schemaVersion < (Database.newer version h).version := h
      rw [migrate, if_pos hnewer] at ha
      cases ha
    | v4 db | v5 db | v6 db | v7 db =>
      cases ha
      cases hb
      exact ⟨rfl, fun h => by simp [Database.version] at h⟩
    | v8 db | v9 db =>
      cases ha
      cases hb
      exact ⟨rfl, fun _ => rfl⟩
  exact ⟨⟨id, fun _ _ => rfl, htables.1 ▸ Tables.Same.refl Host7.regroup_id a.toTables⟩, htables.2⟩

theorem migrate_v3 {db : Db3} (h : migrate json random (.v3 db) = .ok (.v9 db')) :
    ∃ v4, db.toV4 random = .ok v4 ∧ db' = (v4.toV7.toV8 random).toV9 json := by
  have hsteps : (upgrade json random (.v3 db) >>= upgrades json random 5) = .ok (.v9 db') := h
  rw [upgrade] at hsteps
  rcases hup : db.toV4 random with e | v4
  · rw [hup] at hsteps
    cases hsteps
  · rw [hup] at hsteps
    cases hsteps
    exact ⟨v4, rfl, rfl⟩

theorem migrate_v2 {db : Db2} (h : migrate json random (.v2 db) = .ok (.v9 db')) :
    ∃ v3, db.toV3 random = .ok v3 ∧ migrate json random (.v3 v3) = .ok (.v9 db') := by
  have hsteps : (upgrade json random (.v2 db) >>= upgrades json random 6) = .ok (.v9 db') := h
  rw [upgrade] at hsteps
  rcases hup : db.toV3 random with e | v3
  · rw [hup] at hsteps
    cases hsteps
  · rw [hup] at hsteps
    exact ⟨v3, rfl, hsteps⟩

theorem migrate_v3_same {f : Text → Text} {a b : Db3} {a' b' : Db9} (h : a.Same f b)
    (hid : ∀ group, f (random.group4 group) = random'.group4 group) (ha : migrate json random (.v3 a) = .ok (.v9 a'))
    (hb : migrate json random' (.v3 b) = .ok (.v9 b')) : Tables.Same f (Host7.regroup f) a'.toTables b'.toTables := by
  obtain ⟨a₄, ha₄, rfl⟩ := migrate_v3 json ha
  obtain ⟨b₄, hb₄, rfl⟩ := migrate_v3 json hb
  have h₇ := toV7_same (toV4_same h hid ha₄ hb₄)
  exact toV9_same json (a := a₄.toV7.toV8 random) (b := b₄.toV7.toV8 random') h₇

theorem sameButIds_v3 {db : Db3} (hfresh : random.Fresh (.v3 db)) (ha : migrate json random (.v3 db) = .ok (.v9 a))
    (hb : migrate json random' (.v3 db) = .ok (.v9 b)) : SameButIds (.v3 db) a b := by
  have hinj := hfresh.group4 (le_refl 3)
  set f : Text → Text := Function.extend random.group4 random'.group4 id with hf
  have hmade : ∀ group, f (random.group4 group) = random'.group4 group := hinj.extend_apply _ _
  have hkept : ∀ id, db.hostGroups.get? id ≠ none → f id = id := by
    intro id hid
    refine Function.extend_apply' _ _ _ ?_
    rintro ⟨group, rfl⟩
    exact hid (hfresh.absent db rfl group)
  have hstart : db.Same f db := ⟨rfl, rfl, rfl, rfl, rfl, rfl, rfl, Renamed.of_fixed hkept⟩
  exact ⟨⟨f, hkept, migrate_v3_same json hstart hmade ha hb⟩, fun h => by simp [Database.version] at h⟩

theorem sameButIds_v2 (db : Db2) (hmid : mid.version ≤ 2) (hfresh : random.Fresh mid)
    (ha : migrate json random (.v2 db) = .ok (.v9 a)) (hb : migrate json random' (.v2 db) = .ok (.v9 b)) :
    SameButIds mid a b := by
  obtain ⟨hinj, hapart⟩ := hfresh.group3 hmid
  set f : Text → Text :=
    Function.extend random.group3 random'.group3 (Function.extend random.group4 random'.group4 id) with hf
  have hthird : ∀ name, f (random.group3 name) = random'.group3 name := hinj.extend_apply _ _
  have hfourth : ∀ group, f (random.group4 group) = random'.group4 group := by
    intro group
    rw [hf, Function.extend_apply']
    · exact (hfresh.group4 (by omega)).extend_apply _ _ group
    · rintro ⟨name, hname⟩
      exact hapart name group hname
  obtain ⟨a₃, ha₃, ha'⟩ := migrate_v2 json ha
  obtain ⟨b₃, hb₃, hb'⟩ := migrate_v2 json hb
  refine ⟨⟨f, ?_, migrate_v3_same json (toV3_same hthird ha₃ hb₃) hfourth ha' hb'⟩, fun h => by omega⟩
  intro id hid
  cases mid with
  | v0 | v1 | v2 | newer => cases hid
  | v3 | v4 | v5 | v6 | v7 | v8 | v9 => simp [Database.version] at hmid

theorem sameButIds (hmin : 1 ≤ mid.version) (hfresh : random.Fresh mid) (ha : migrate json random mid = .ok (.v9 a))
    (hb : migrate json random' mid = .ok (.v9 b)) : SameButIds mid a b := by
  cases mid with
  | v0 => simp [Database.version] at hmin
  | v1 db => exact sameButIds_v2 json db.toV2 (by simp [Database.version]) hfresh ha hb
  | v2 db => exact sameButIds_v2 json db (le_refl 2) hfresh ha hb
  | v3 db => exact sameButIds_v3 json hfresh ha hb
  | v4 | v5 | v6 | v7 | v8 | v9 => exact sameButIds_v4 json (by simp [Database.version]) ha hb
  | newer version h => exact sameButIds_v4 json (Nat.le_of_lt (lt_of_le_of_lt (by decide) h)) ha hb

theorem fresh_v4 (h : 4 ≤ db.version) : random.Fresh db := by
  refine ⟨fun hold => by omega, fun hold => by omega, ?_⟩
  rintro v3 rfl
  simp [Database.version] at h

theorem fresh_upgrade (hmin : 1 ≤ db.version) (hmax : db.version ≤ 8) (hfresh : random.Fresh db)
    (h : upgrade json random db = .ok next) : random.Fresh next := by
  by_cases hlate : 3 ≤ db.version
  · refine fresh_v4 ?_
    rw [upgrade_version json hmax h]
    omega
  cases db with
  | v0 => simp [Database.version] at hmin
  | v3 | v4 | v5 | v6 | v7 | v8 | v9 => simp [Database.version] at hlate
  | newer version hnewer => exact absurd (hmax.trans_lt (by decide : 8 < schemaVersion)) (Nat.not_lt.mpr hnewer.le)
  | v1 db =>
    cases h
    exact ⟨fun _ => hfresh.group3 (by simp [Database.version]), fun _ => hfresh.group4 (by simp [Database.version]),
      fun _ h => (by cases h)⟩
  | v2 db =>
    obtain ⟨hinj, hapart⟩ := hfresh.group3 (le_refl 2)
    obtain ⟨v3, hup, h₃⟩ := toV3_ok random db hinj
    rw [upgrade, hup] at h
    cases h
    refine ⟨fun h => by simp [Database.version] at h, fun _ => hfresh.group4 (by simp [Database.version]), ?_⟩
    intro _ hsame group
    obtain rfl := Database.v3.inj hsame
    exact h₃.absent hapart group

theorem fresh_upgrades (hmin : 1 ≤ db.version) (hmax : db.version ≤ schemaVersion)
    (hfresh : random.Fresh db) (h : upgrades json random n db = .ok mid) : random.Fresh mid := by
  induction n generalizing db with
  | zero =>
    cases h
    exact hfresh
  | succ n ih =>
    rw [upgrades] at h
    rcases hnext : upgrade json random db with e | next
    · rw [hnext] at h
      cases h
    rw [hnext] at h
    by_cases hlast : db.version ≤ 8
    · have hversion := upgrade_version json hlast hnext
      exact ih (by omega) (hversion ▸ Nat.succ_le_succ hlast) (fresh_upgrade json hmin hlast hfresh hnext) h
    · have hdone : next.version = db.version := by
        cases db with
        | v0 | v1 | v2 | v3 | v4 | v5 | v6 | v7 | v8 => simp [Database.version] at hlast
        | v9 db | newer =>
          cases hnext
          rfl
      exact ih (hdone ▸ hmin) (hdone ▸ hmax) (fresh_v4 (by omega)) h

def sqlite : SqliteJson Json.Doc where
  read := Json.read
  write := Json.render
  fields
    | .obj fields => some fields
    | _ => none
  object := .obj

theorem sqlite_documented : sqlite.Documented :=
  ⟨Json.read_render, fun _ => rfl, by decide⟩

def telling : Random where
  deviceId := 7
  vaultId := "vault".toList
  group3 name := '3' :: name
  group4 group := '4' :: (if group.1 = .priv then 'p' else 'b') :: group.2
  deviceIdentifier := "device".toList

theorem telling_fresh (db : Db2) : telling.Fresh (.v2 db) := by
  refine ⟨fun _ => ⟨fun a b h => (List.cons.inj h).2, fun name group h => ?_⟩, fun _ => ?_, fun _ h => (by cases h)⟩
  · exact absurd (List.cons.inj h).1 (by decide)
  · rintro ⟨workspace, name⟩ ⟨workspace', name'⟩ h
    obtain ⟨hworkspace, hname⟩ := List.cons.inj (List.cons.inj h).2
    refine Prod.ext ?_ hname
    cases workspace <;> cases workspace' <;> simp at hworkspace ⊢

def oldHeader (deleted : Bool) : Header := ⟨"vault".toList, 1, 0, 7, 1, deleted⟩

/-- A host in a group, whose login was deleted, and two secrets that nothing points at, one of them deleted. -/
def leftBehind : Db2 where
  info := ⟨7, "vault".toList⟩
  identities := Table.empty.set "login".toList
    { oldHeader true with body := ⟨⟨"admin".toList, "admin".toList, .password, none⟩, some "password".toList, none⟩ }
  hosts := Table.empty.set "host".toList
    { oldHeader false with
      body := ⟨⟨"web".toList, "10.0.0.1".toList, ⟨3389, by decide⟩, some "login".toList, none⟩, some "servers".toList⟩ }
  knownHosts := .empty
  secrets := ((Table.empty.set "password".toList { oldHeader false with body := ⟨[1], [2]⟩ }).set "orphan".toList
    { oldHeader false with body := ⟨[3], [4]⟩ }).set "deleted".toList { oldHeader true with body := ⟨[5], [6]⟩ }
  keys := .empty
  snippets := .empty

end Resume

end Schema

end UwuRdp
