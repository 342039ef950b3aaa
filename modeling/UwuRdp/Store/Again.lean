import UwuRdp.Lib.Completes
import UwuRdp.Store.HostSteps
import UwuRdp.Store.Preference

/-!
# Importing a set again

Whatever an import found or wrote it finds again: every group by its name, with the drives and the
login it then has, and every host by its address. The second run of a set writes no row.
-/

namespace UwuRdp

open Lib

variable {cx : Session} {db db' db'' : Db} {k : EntityKind} {id : Uuid} {set : ImportSet}

/-! ## Groups by name, after a row was written -/

variable {workspace : Workspace} {name : Text} {index : Option ℕ}

theorem namedGroups_insert {r : Row GroupBody} (hnew : db.row .group id = none)
    (hother : ¬(r.body.workspace = workspace ∧ r.body.name = name)) : namedGroups (db.setRow .group id r) workspace
    name = namedGroups db workspace name := by
  unfold namedGroups Table.select Db.setRow
  rw [Db.setTable_rows_self, Table.entries_set_of_none r hnew, List.filter_append, List.filter_singleton]
  have hout : (!r.deleted && decide (r.body.workspace = workspace) && decide (r.body.name = name)) = false := by
    rw [Bool.and_eq_false_iff, Bool.and_eq_false_iff, decide_eq_false_iff_not, decide_eq_false_iff_not]
    tauto
  dsimp only
  rw [hout]
  exact List.append_nil _

theorem groupId_insert {r : Row GroupBody} (hnew : db.row .group id = none)
    (hfree : groupId db r.body.workspace r.body.name = none) {g : Uuid}
    (h : groupId db workspace name = some g) : groupId (db.setRow .group id r) workspace name = some g := by
  have hother : ¬(r.body.workspace = workspace ∧ r.body.name = name) := by
    rintro ⟨rfl, rfl⟩
    rw [hfree] at h
    cases h
  unfold groupId at h ⊢
  rw [namedGroups_insert hnew hother, h]

theorem groupId_rewrite {r r' : Row GroupBody} (hr : db.row .group id = some r) (hdeleted : r'.deleted = r.deleted)
    (hworkspace : r'.body.workspace = r.body.workspace) (hname : r'.body.name = r.body.name) : groupId
    (db.setRow .group id r') = groupId db := by
  funext workspace name
  have hkeys : (namedGroups (db.setRow .group id r') workspace name).map Prod.fst =
      (namedGroups db workspace name).map Prod.fst := by
    unfold namedGroups Db.setRow
    rw [Db.setTable_rows_self, Table.map_select_set (a := r') (b := r) (g := Prod.fst) hr rfl]
    unfold Table.select
    refine congrArg (List.map Prod.fst) (List.filter_congr fun e he => ?_)
    dsimp only
    split
    · next hid =>
      have hrow : db.row .group id = some e.2 := Table.mem_entries.mp (hid ▸ he)
      rw [hr] at hrow
      rw [← Option.some.inj hrow, hdeleted, hworkspace, hname]
    · rfl
  unfold groupId
  rw [hkeys]

theorem groupId_made {r : Row GroupBody} (hnew : db.row .group id = none) (hlive : r.deleted = false)
    (hfree : groupId db r.body.workspace r.body.name = none) :
    groupId (db.setRow .group id r) r.body.workspace r.body.name = some id := by
  have hnone : namedGroups db r.body.workspace r.body.name = [] := by
    have hsort := List.head?_eq_none_iff.mp hfree
    have hperm := List.perm_insertionSort (· ≤ ·) ((namedGroups db r.body.workspace r.body.name).map Prod.fst)
    rw [hsort] at hperm
    exact List.map_eq_nil_iff.mp hperm.nil_eq.symm
  have hone : namedGroups (db.setRow .group id r) r.body.workspace r.body.name = [(id, r)] := by
    unfold namedGroups Table.select Db.setRow at *
    rw [Db.setTable_rows_self, Table.entries_set_of_none r hnew, List.filter_append, hnone, List.filter_singleton]
    simp [hlive]
  unfold groupId
  rw [hone]
  rfl

/-! ## What an import leaves of what was there -/

/-- Rows are there that were there, hosts as they were, and groups under their names, with the drives
and the login they had or new ones. -/
structure Added (db db' : Db) : Prop where
  hosts : ∀ h r, db.row .host h = some r → db'.row .host h = some r
  logins : ∀ i, (db.row .identity i).isSome → (db'.row .identity i).isSome
  named : ∀ workspace name g, groupId db workspace name = some g → groupId db' workspace name = some g
  groups : ∀ g r, db.row .group g = some r → ∃ r', db'.row .group g = some r' ∧
    (r.body.drives.isSome → r'.body.drives.isSome) ∧
    (r.body.identityId.isSome → r'.body.identityId.isSome) ∧
    (db.refsExist .group r.body → db'.refsExist .group r'.body)

theorem refsExist_group {b : GroupBody} :
    db.refsExist .group b = true ↔ ∀ i, b.identityId = some i → (db.row .identity i).isSome := by
  unfold Db.refsExist Body.refs
  rw [List.all_eq_true]
  simp

namespace Added

theorem of_rows (h : db'.rows = db.rows) : Added db db' := by
  refine ⟨fun i r hr => (row_congr h .host i).trans hr, fun i hi => ?_, fun workspace name g hg => ?_,
    fun g r hr => ⟨r, (row_congr h .group g).trans hr, id, id, ?_⟩⟩
  · rwa [row_congr h]
  · rwa [groupId_of_rows_eq h]
  · rw [refsExist_group, refsExist_group]
    intro hrefs i hi
    rw [row_congr h]
    exact hrefs i hi

theorem refl (db : Db) : Added db db := of_rows rfl

theorem trans (h : Added db db') (h' : Added db' db'') : Added db db'' := by
  refine ⟨fun i r hr => h'.hosts i r (h.hosts i r hr), fun i hi => h'.logins i (h.logins i hi),
    fun workspace name g hg => h'.named workspace name g (h.named workspace name g hg),
    fun g r hr => ?_⟩
  obtain ⟨r₁, hr₁, hdrives, hlogin, hrefs⟩ := h.groups g r hr
  obtain ⟨r₂, hr₂, hdrives', hlogin', hrefs'⟩ := h'.groups g r₁ hr₁
  exact ⟨r₂, hr₂, hdrives' ∘ hdrives, hlogin' ∘ hlogin, hrefs' ∘ hrefs⟩

theorem insert {r : Row (Body k)} (hk : k ≠ .group) (hnew : db.row k id = none) : Added db (db.setRow k id r) := by
  have hgroups : (db.setRow k id r).rows .group = db.rows .group := rows_setRow_ne hk.symm
  have hrow (k' : EntityKind) (i : Uuid) (hi : (db.row k' i).isSome) : (db.setRow k id r).row k' i = db.row k' i := by
    refine Db.row_setRow_ne ?_
    rintro ⟨rfl, rfl⟩
    rw [hnew] at hi
    cases hi
  refine ⟨fun i q hq => ?_, fun i hi => ?_, fun workspace name g hg => ?_, fun g q hq => ?_⟩
  · rw [hrow .host i (by rw [hq]; rfl), hq]
  · rwa [hrow .identity i hi]
  · unfold groupId namedGroups at hg ⊢
    rwa [hgroups]
  · refine ⟨q, (hrow .group g (by rw [hq]; rfl)).trans hq, fun h => h, fun h => h, ?_⟩
    rw [refsExist_group, refsExist_group]
    intro hrefs i hi
    rw [hrow .identity i (hrefs i hi)]
    exact hrefs i hi

theorem insertGroup {r : Row GroupBody} (hnew : db.row .group id = none)
    (hfree : groupId db r.body.workspace r.body.name = none) : Added db (db.setRow .group id r) := by
  have hrow (k' : EntityKind) (i : Uuid) (hi : (db.row k' i).isSome) :
      (db.setRow .group id r).row k' i = db.row k' i := by
    refine Db.row_setRow_ne ?_
    rintro ⟨rfl, rfl⟩
    rw [hnew] at hi
    cases hi
  refine ⟨fun i q hq => ?_, fun i hi => ?_, fun workspace name g hg => groupId_insert hnew hfree hg, fun g q hq => ?_⟩
  · rw [hrow .host i (by rw [hq]; rfl), hq]
  · rwa [hrow .identity i hi]
  · refine ⟨q, (hrow .group g (by rw [hq]; rfl)).trans hq, fun h => h, fun h => h, ?_⟩
    rw [refsExist_group, refsExist_group]
    intro hrefs i hi
    rw [hrow .identity i (hrefs i hi)]
    exact hrefs i hi

theorem rewrite {r r' : Row GroupBody} (hr : db.row .group id = some r) (hdeleted : r'.deleted = r.deleted)
    (hworkspace : r'.body.workspace = r.body.workspace) (hname : r'.body.name = r.body.name)
    (hdrives : r.body.drives.isSome → r'.body.drives.isSome)
    (hlogin : r.body.identityId.isSome → r'.body.identityId.isSome) (hrefs : db.refsExist .group r'.body = true) :
    Added db (db.setRow .group id r') := by
  have hidentity (i : Uuid) : (db.setRow .group id r').row .identity i = db.row .identity i :=
    Db.row_setRow_ne_kind (by decide)
  have hrefs' : (db.setRow .group id r').refsExist .group r'.body = true := by
    rw [refsExist_group] at hrefs ⊢
    intro i hi
    rw [hidentity]
    exact hrefs i hi
  refine ⟨fun i q hq => (Db.row_setRow_ne_kind (by decide)).trans hq, fun i hi => ?_,
    fun workspace name g hg => ?_, fun g q hq => ?_⟩
  · rwa [hidentity]
  · rwa [groupId_rewrite hr hdeleted hworkspace hname]
  · by_cases hg : g = id
    · subst hg
      rw [hr] at hq
      cases hq
      exact ⟨r', Db.row_setRow_self .., hdrives, hlogin, fun _ => hrefs'⟩
    · refine ⟨q, (Db.row_setRow_ne_id hg).trans hq, fun h => h, fun h => h, ?_⟩
      rw [refsExist_group, refsExist_group]
      intro hrefs i hi
      rw [hidentity]
      exact hrefs i hi

end Added

/-! ## The steps of an import -/

abbrev Adds {α : Type} (m : StoreTx α) : Prop := Tx.Along (fun s s' => Added s.db s'.db) m

section Steps

variable {α β : Type} {s s' : TxState}

theorem adds_pure (a : α) : Adds (pure a : StoreTx α) := .pure (fun s => .refl s.db) a

theorem Adds.bind {m : StoreTx α} {f : α → StoreTx β} (hm : Adds m) (hf : ∀ a, Adds (f a)) :
    Adds (m >>= f) := Tx.Along.bind (fun _ _ _ h h' => h.trans h') hm hf

theorem adds_query (f : Db → α) : Adds (StoreTx.query f) := by
  intro s a s' h
  cases h
  exact .refl s.db

theorem adds_tick : Adds (StoreTx.tick cx) := by
  intro s c s' h
  obtain ⟨-, hdb⟩ := tick_eq_ok h
  exact .of_rows (by rw [hdb]; rfl)

theorem adds_nowV7 : Adds (StoreTx.nowV7 cx) := by
  intro s i s' h
  cases h
  exact .refl s.db

theorem adds_nowMs : Adds (StoreTx.nowMs cx) := by
  intro s i s' h
  cases h
  exact .refl s.db

theorem adds_insertRow {r : Row (Body k)} (hk : k ≠ .group) : Adds (StoreTx.insertRow k id r) := by
  intro s u s' h
  obtain ⟨hnew, -, hdb⟩ := insertRow_ok h
  show Added s.db s'.db
  rw [hdb]
  exact .insert hk hnew

theorem adds_orFail {o : Option α} {e : StoreError} : Adds (Tx.orFail o e : StoreTx α) := by
  intro s a s' h
  obtain ⟨-, rfl⟩ := Tx.orFail_eq_ok.mp h
  exact .refl s.db

theorem adds_importLogin (index : Option ℕ) : Adds (importLogin cx set index) := by
  unfold importLogin
  split
  · exact adds_pure _
  · split
    · split
      · exact adds_pure _
      · refine Adds.bind ?_ fun secret => adds_tick.bind fun clock => Adds.bind ?_ fun id => adds_pure _
        · unfold importSecret
          split
          · exact adds_pure _
          · split
            · exact adds_pure _
            · refine adds_orFail.bind fun vault => Adds.bind ?_ fun id => adds_pure _
              exact adds_nowV7.bind fun id => adds_tick.bind fun clock =>
                (adds_insertRow (by decide)).bind fun _ => adds_pure _
        · exact adds_nowV7.bind fun id => (adds_insertRow (by decide)).bind fun _ => adds_pure _
    · exact adds_pure _

variable {workspace : Workspace}

theorem ensureGroup_named {name : Text} {g : Uuid} (h : ensureGroup cx workspace name s = .ok (g, s')) : Added s.db
    s'.db ∧ groupId s'.db workspace name = some g := by
  have hpath : ensureGroupPath cx workspace (some name) s = .ok (some g, s') := Tx.bind_eq_ok.mpr ⟨g, s', h, rfl⟩
  cases ensureGroupPath_ok hpath with
  | found hg hrows => exact ⟨.of_rows hrows, by rw [groupId_of_rows_eq hrows, hg]⟩
  | made hfree hnew hrows =>
    refine ⟨(Added.insertGroup hnew hfree).trans (.of_rows hrows), ?_⟩
    rw [groupId_of_rows_eq hrows]
    exact groupId_made hnew rfl hfree

theorem adds_ensureGroupPath {path : Option Text} : Adds (ensureGroupPath cx workspace path) := by
  cases path with
  | none => exact adds_pure _
  | some name => exact Adds.bind (fun s g s' h => (ensureGroup_named h).1) fun g => adds_pure _

end Steps

/-! ## What is settled -/

def Importable (set : ImportSet) (index : Option ℕ) : Prop :=
  ∃ input username domain, (index.bind fun i => set.logins[i]?) = some input ∧
    cleanUsername "username" input.username = .ok username ∧
    cleanDomain "domain" input.domain = .ok domain ∧ username.isEmpty = false

/-- A group of the set is there, with drives and a login if the set has some for it. -/
def GroupSettled (set : ImportSet) (group : GroupInput) (db : Db) : Prop :=
  ∃ path, groupName (some group.name) = .ok path ∧ ∀ name, path = some name →
    ∃ g r, groupId db group.workspace name = some g ∧ db.row .group g = some r ∧
      (group.drives.isSome → r.body.drives.isSome ∧ db.refsExist .group r.body = true) ∧
      (Importable set group.login → r.body.identityId.isSome)

def HostSettled (host : HostInput) (db : Db) : Prop :=
  isPlausible host = false ∨ hostExists db host.address host.port = true

theorem hostExists_iff {address : Text} {port : UInt16} :
    hostExists db address port = true ↔ ∃ h r, db.row .host h = some r ∧ (!r.deleted &&
      decide (r.body.port = port) && decide (Text.toAsciiLowercase r.body.address =
        Text.toAsciiLowercase (Text.trim address))) = true := by
  unfold hostExists
  constructor
  · intro h
    obtain ⟨⟨i, r⟩, hfind⟩ := Option.isSome_iff_exists.mp h
    obtain ⟨hrow, hp⟩ := Table.find?_some hfind
    exact ⟨i, r, hrow, hp⟩
  · rintro ⟨i, r, hrow, hp⟩
    rw [Option.isSome_iff_ne_none]
    intro hnone
    have hnot := Table.find?_none hnone hrow
    rw [hp] at hnot
    cases hnot

theorem GroupSettled.mono {group : GroupInput} (h : GroupSettled set group db) (hadd : Added db db') :
    GroupSettled set group db' := by
  obtain ⟨path, hpath, hsettled⟩ := h
  refine ⟨path, hpath, fun name hname => ?_⟩
  obtain ⟨g, r, hg, hr, hdrives, hlogin⟩ := hsettled name hname
  obtain ⟨r', hr', hdrives', hlogin', hrefs⟩ := hadd.groups g r hr
  exact ⟨g, r', hadd.named _ _ _ hg, hr', fun h => ⟨hdrives' (hdrives h).1, hrefs (hdrives h).2⟩,
    fun h => hlogin' (hlogin h)⟩

theorem HostSettled.mono {host : HostInput} (h : HostSettled host db) (hadd : Added db db') :
    HostSettled host db' := by
  refine h.imp_right fun hexists => ?_
  obtain ⟨i, r, hrow, hp⟩ := hostExists_iff.mp hexists
  exact hostExists_iff.mpr ⟨i, r, hadd.hosts i r hrow, hp⟩

theorem importLogin_none (h : ¬Importable set index) (cx : Session) : importLogin cx set index = pure none := by
  unfold importLogin
  split
  · rfl
  · next input hinput =>
    split
    · next username domain husername hdomain =>
      by_cases hempty : username.isEmpty
      · rw [if_pos hempty]
      · exact absurd ⟨input, username, domain, hinput, husername, hdomain, Bool.eq_false_iff.mpr hempty⟩ h
    · rfl

theorem importLogin_some {s s' : TxState} {o : Option Uuid}
    (hi : Importable set index) (h : importLogin cx set index s = .ok (o, s')) : o.isSome := by
  obtain ⟨input, username, domain, hinput, husername, hdomain, hne⟩ := hi
  unfold importLogin at h
  rw [hinput] at h
  dsimp only at h
  rw [husername, hdomain] at h
  dsimp only at h
  rw [if_neg (by rw [hne]; exact Bool.false_ne_true)] at h
  obtain ⟨secret, s₁, -, h⟩ := Tx.bind_eq_ok.mp h
  obtain ⟨clock, s₂, -, h⟩ := Tx.bind_eq_ok.mp h
  obtain ⟨id, s₃, -, h⟩ := Tx.bind_eq_ok.mp h
  obtain ⟨rfl, -⟩ := Tx.pure_eq_ok.mp h
  rfl

section Import

variable [Platform] {s s' : TxState} {g : Uuid} {r : Row GroupBody} {u : Unit}

theorem importDrives_rows {drives : Option DriveRedirection} (hr : s.db.row .group g = some r)
    (h : importDrives cx g drives s = .ok (u, s')) :
    Added s.db s'.db ∧ (drives.isSome → ∃ r', s'.db.row .group g = some r' ∧
      r'.body.drives.isSome ∧ s'.db.refsExist .group r'.body = true) := by
  cases drives with
  | none =>
    cases h
    exact ⟨.refl s.db, fun hnone => nomatch hnone⟩
  | some drives =>
    obtain ⟨clock, s₁, h₁, h⟩ := Tx.bind_eq_ok.mp h
    obtain ⟨-, hclock⟩ := tick_eq_ok h₁
    have hrows : s₁.db.rows = s.db.rows := by rw [hclock]; rfl
    have hr₁ : s₁.db.row .group g = some r := (row_congr hrows .group g).trans hr
    rcases updateRow_ok h with ⟨hnone, -⟩ | ⟨q, hq, hadmits, hdb⟩
    · rw [hr₁] at hnone
      cases hnone
    rw [hr₁] at hq
    cases hq
    have hrefs := (Bool.and_eq_true_iff.mp hadmits).1
    by_cases hdrives : r.body.drives.isSome
    · rw [if_pos hdrives] at hdb hrefs
      rw [setRow_same hr₁] at hdb
      refine ⟨.of_rows (by rw [hdb, hrows]), fun _ => ⟨r, ?_, hdrives, ?_⟩⟩
      · rw [hdb, hr₁]
      · rw [hdb]
        exact hrefs
    · rw [if_neg hdrives] at hdb hrefs
      have hadd : Added s₁.db s'.db := by
        rw [hdb]
        exact .rewrite hr₁ rfl rfl rfl (fun hsome => absurd hsome hdrives) (fun hsome => hsome) hrefs
      refine ⟨(Added.of_rows hrows).trans hadd, fun _ => ?_⟩
      rw [hdb]
      refine ⟨_, Db.row_setRow_self .., rfl, ?_⟩
      rw [refsExist_group] at hrefs ⊢
      intro i hi
      rw [Db.row_setRow_ne_kind (by decide)]
      exact hrefs i hi

omit [Platform] in
theorem importGroupLogin_ok {login : Option ℕ} (hr : s.db.row .group g = some r)
    (h : importGroupLogin cx set g login s = .ok (u, s')) : Added s.db s'.db ∧
    (Importable set login → ∃ r', s'.db.row .group g = some r' ∧ r'.body.identityId.isSome) := by
  obtain ⟨hasLogin, s₁, h₁, h⟩ := Tx.bind_eq_ok.mp h
  cases h₁
  split at h
  · next hhas =>
    cases h
    refine ⟨.refl s.db, fun _ => ⟨r, hr, ?_⟩⟩
    have hany : (s.db.row .group g).any (fun r => r.body.identityId.isSome) = true := hhas
    rw [hr] at hany
    exact hany
  · obtain ⟨o, s₂, h₂, h⟩ := Tx.bind_eq_ok.mp h
    have hadd := adds_importLogin login _ o s₂ h₂
    cases o with
    | none =>
      cases h
      exact ⟨hadd, fun hi => nomatch importLogin_some hi h₂⟩
    | some identity =>
      obtain ⟨clock, s₃, h₃, h⟩ := Tx.bind_eq_ok.mp h
      obtain ⟨-, hclock⟩ := tick_eq_ok h₃
      have hrows : s₃.db.rows = s₂.db.rows := by rw [hclock]; rfl
      obtain ⟨r₂, hr₂, -, -, -⟩ := hadd.groups g r hr
      have hr₃ : s₃.db.row .group g = some r₂ := (row_congr hrows .group g).trans hr₂
      rcases updateRow_ok h with ⟨hnone, -⟩ | ⟨q, hq, hadmits, hdb⟩
      · rw [hr₃] at hnone
        cases hnone
      rw [hr₃] at hq
      cases hq
      have hrefs := (Bool.and_eq_true_iff.mp hadmits).1
      have hlast : Added s₃.db s'.db := by
        rw [hdb]
        exact .rewrite hr₃ rfl rfl rfl (fun hsome => hsome) (fun _ => rfl) hrefs
      refine ⟨hadd.trans ((Added.of_rows hrows).trans hlast), fun _ => ?_⟩
      rw [hdb]
      exact ⟨_, Db.row_setRow_self .., rfl⟩

variable {group : GroupInput} {hosts : List HostInput}

theorem importGroup_ok (h : importGroup cx set group s = .ok (u, s')) :
    Added s.db s'.db ∧ GroupSettled set group s'.db := by
  unfold importGroup at h
  rcases hname : groupName (some group.name) with e | _ | name
  · rw [hname] at h
    cases h
  · rw [hname] at h
    cases h
    exact ⟨.refl s.db, none, hname, fun _ hnone => nomatch hnone⟩
  · rw [hname] at h
    obtain ⟨g, s₁, h₁, h⟩ := Tx.bind_eq_ok.mp h
    obtain ⟨_, s₂, h₂, h₃⟩ := Tx.bind_eq_ok.mp h
    obtain ⟨hadd₁, hg⟩ := ensureGroup_named h₁
    obtain ⟨r₁, hr₁, -⟩ := groupId_some hg
    obtain ⟨hadd₂, hdrives⟩ := importDrives_rows hr₁ h₂
    obtain ⟨r₂, hr₂, -⟩ := hadd₂.groups g r₁ hr₁
    obtain ⟨hadd₃, hlogin⟩ := importGroupLogin_ok hr₂ h₃
    refine ⟨hadd₁.trans (hadd₂.trans hadd₃), some name, hname, fun name' heq => ?_⟩
    cases heq
    obtain ⟨r₃, hr₃, hkeep, -, hrefs⟩ := hadd₃.groups g r₂ hr₂
    refine ⟨g, r₃, hadd₃.named _ _ _ (hadd₂.named _ _ _ hg), hr₃, fun hsome => ?_, fun hi => ?_⟩
    · obtain ⟨r', hr', hd, href⟩ := hdrives hsome
      rw [hr₂] at hr'
      cases hr'
      exact ⟨hkeep hd, hrefs href⟩
    · obtain ⟨r', hr', hidentity⟩ := hlogin hi
      rw [hr₃] at hr'
      cases hr'
      exact hidentity

theorem writeHost_ok {host : HostInput} {login gatewayLogin : Option Uuid}
    (h : writeHost cx host login gatewayLogin s = .ok (u, s')) : Added s.db s'.db ∧ HostSettled host s'.db := by
  unfold writeHost at h
  rcases hpath : groupName host.groupPath with e | path
  · rw [hpath] at h
    cases h
  · rw [hpath] at h
    obtain ⟨group, s₁, h₁, h⟩ := Tx.bind_eq_ok.mp h
    obtain ⟨position, s₂, h₂, h⟩ := Tx.bind_eq_ok.mp h
    obtain ⟨clock, s₃, h₃, h⟩ := Tx.bind_eq_ok.mp h
    obtain ⟨id, s₄, h₄, h⟩ := Tx.bind_eq_ok.mp h
    have hadd₁ := adds_ensureGroupPath s group s₁ h₁
    have hsame : s₂ = s₁ := by
      rcases hposition : host.position with _ | p
      · rw [hposition] at h₂
        exact nextPosition_ok h₂
      · rw [hposition] at h₂
        exact (Tx.pure_eq_ok.mp h₂).2
    have hadd₃ := adds_tick s₂ clock s₃ h₃
    have hadd₄ := adds_nowV7 s₃ id s₄ h₄
    obtain ⟨hnew, -, hdb⟩ := insertRow_ok h
    have hadd₅ : Added s₄.db s'.db := by
      rw [hdb]
      exact .insert (by decide) hnew
    subst hsame
    refine ⟨hadd₁.trans (hadd₃.trans (hadd₄.trans hadd₅)), .inr (hostExists_iff.mpr ?_)⟩
    rw [hdb]
    refine ⟨id, _, Db.row_setRow_self .., ?_⟩
    simp [newRow]

theorem importHosts_ok {added added' : List (Text × UInt16)}
    (h : importHosts cx set hosts added s = .ok (added', s')) :
    Added s.db s'.db ∧ ∀ host ∈ hosts, HostSettled host s'.db := by
  induction hosts generalizing added s with
  | nil =>
    cases h
    exact ⟨.refl _, fun host hmem => absurd hmem List.not_mem_nil⟩
  | cons host rest ih =>
    obtain ⟨there, s₁, h₁, h⟩ := Tx.bind_eq_ok.mp h
    have hquery : hostExists s.db host.address host.port = there ∧ s₁ = s := by
      cases h₁
      exact ⟨rfl, rfl⟩
    obtain ⟨hthere, hsame⟩ := hquery
    rw [hsame, ← hthere] at h
    split at h
    · next hskip =>
      obtain ⟨hadd, hrest⟩ := ih h
      have hsettled : HostSettled host s.db := by
        rcases Bool.or_eq_true_iff.mp hskip with hnot | hexists
        · exact .inl (Bool.not_eq_true' _ ▸ hnot)
        · exact .inr hexists
      exact ⟨hadd, List.forall_mem_cons.mpr ⟨hsettled.mono hadd, hrest⟩⟩
    · obtain ⟨login, s₂, h₂, h⟩ := Tx.bind_eq_ok.mp h
      obtain ⟨gatewayLogin, s₃, h₃, h⟩ := Tx.bind_eq_ok.mp h
      obtain ⟨_, s₄, h₄, h⟩ := Tx.bind_eq_ok.mp h
      have hadd₂ := adds_importLogin host.login _ login s₂ h₂
      have hadd₃ := adds_importLogin host.gatewayLogin _ gatewayLogin s₃ h₃
      obtain ⟨hadd₄, hsettled⟩ := writeHost_ok h₄
      obtain ⟨hadd, hrest⟩ := ih h
      exact ⟨hadd₂.trans (hadd₃.trans (hadd₄.trans hadd)), List.forall_mem_cons.mpr ⟨hsettled.mono hadd, hrest⟩⟩

omit [Platform] in
theorem adds_writeKnownHost {known : KnownHostInput} : Adds (writeKnownHost cx known) := by
  refine (adds_query _).bind fun slot => ?_
  cases slot with
  | some _ => exact adds_pure _
  | none =>
    exact adds_tick.bind fun clock => adds_nowV7.bind fun id => adds_nowMs.bind fun seen =>
      adds_insertRow (by decide)

/-- A set that was imported is settled: within the limits, its groups and hosts there. -/
structure ImportSettled (set : ImportSet) (db : Db) : Prop where
  limits : set.hosts.length ≤ maxItems ∧ set.logins.length ≤ maxItems ∧
    set.knownHosts.length ≤ maxItems ∧ set.groups.length ≤ maxItems
  groups : ∀ group ∈ set.groups, GroupSettled set group db
  hosts : ∀ host ∈ set.hosts, HostSettled host db

theorem importSet_settles (h : importSet cx set s = .ok (u, s')) : ImportSettled set s'.db := by
  obtain ⟨hlimits, h⟩ := Tx.require_bind_eq_ok.mp h
  obtain ⟨_, s₁, h₁, h⟩ := Tx.bind_eq_ok.mp h
  obtain ⟨added, s₂, h₂, h₃⟩ := Tx.bind_eq_ok.mp h
  have hgroups : ∀ group ∈ set.groups, GroupSettled set group s₁.db :=
    @Tx.Along.forM _ _ _ (fun s s' => Added s.db s'.db) set.groups (importGroup cx set)
      (fun group s => GroupSettled set group s.db) (fun _ _ _ _ _ h => (importGroup_ok h).1)
      (fun _ _ _ hadd hset => hset.mono hadd) (fun _ _ _ _ _ _ h => (importGroup_ok h).2) s trivial _ s₁
      h₁
  obtain ⟨hadd₂, hhosts⟩ := importHosts_ok h₂
  have hadd₃ : Added s₂.db s'.db := Tx.Along.loop (fun s => .refl s.db) (fun _ _ _ h h' => h.trans h')
      (fun known _ => adds_writeKnownHost) s₂ _ s' h₃
  exact ⟨hlimits, fun group hmem => ((hgroups group hmem).mono hadd₂).mono hadd₃,
    fun host hmem => (hhosts host hmem).mono hadd₃⟩

/-! ## The second run -/

def ButClock (db : Db) (s : TxState) : Prop := ∃ clock, s.db = db.setClock clock

omit [Platform] in
theorem butClock_rows (h : ButClock db s) : s.db.rows = db.rows := by
  obtain ⟨clock, hdb⟩ := h
  rw [hdb]
  rfl

omit [Platform] in
theorem tick_butClock : Tx.Completes (ButClock db) (StoreTx.tick cx) fun _ => ButClock db := by
  rintro s ⟨clock, hdb⟩
  refine ⟨_, _, rfl, (s.db.clock cx.device).tick (cx.now s.asked), ?_⟩
  show s.db.setClock _ = _
  rw [hdb]
  rfl

omit [Platform] in
theorem updateRow_same {f : Row (Body k) → Row (Body k)} {r : Row (Body k)} (hr : s.db.row k id = some r)
    (hf : f r = r) (hadmits : s.db.admits k id r.body = true) : StoreTx.updateRow k id f s = .ok ((), s) := by
  have hset : s.db.setRow k id (f r) = s.db := by
    rw [hf]
    exact setRow_same hr
  have hgo : s.db.admits k id (f r).body = true := by rw [hf]; exact hadmits
  have hgiven : StoreTx.query (fun db => db.row k id) s = .ok (some r, s) := congrArg (fun o => Except.ok (o, s)) hr
  unfold StoreTx.updateRow
  rw [Tx.bind_of_ok hgiven]
  show (Tx.require (s.db.admits k id (f r).body = true) .sqlite >>= fun _ =>
    StoreTx.execute fun db => db.setRow k id (f r)) s = _
  rw [Tx.require_bind_of hgo]
  show Except.ok ((), { s with db := s.db.setRow k id (f r) }) = _
  rw [hset]

theorem importGroup_again (h : GroupSettled set group db) (cx : Session) :
    Tx.Completes (ButClock db) (importGroup cx set group) fun _ => ButClock db := by
  obtain ⟨path, hpath, hsettled⟩ := h
  unfold importGroup
  rw [hpath]
  cases path with
  | none => exact .pure _ fun _ hs => hs
  | some name =>
    obtain ⟨g, r, hg, hr, hdrives, hlogin⟩ := hsettled name rfl
    have hfound : Tx.Completes (ButClock db) (ensureGroup cx group.workspace name)
        fun i s => ButClock db s ∧ i = g := by
      intro s hs
      refine ⟨g, s, ?_, hs, rfl⟩
      have hquery : StoreTx.query (fun db => groupId db group.workspace name) s = .ok (some g, s) := by
        show Except.ok (groupId s.db group.workspace name, s) = _
        rw [groupId_of_rows_eq (butClock_rows hs), hg]
      exact Tx.bind_of_ok hquery
    refine hfound.bind fun i => .intro fun hi => ?_
    subst hi
    refine .bind (R := fun _ => ButClock db) ?_ fun _ => ?_
    · unfold importDrives
      cases hd : group.drives with
      | none => exact .pure _ fun _ hs => hs
      | some drives =>
        obtain ⟨hsome, hrefs⟩ := hdrives (by rw [hd]; rfl)
        refine tick_butClock.bind fun clock => fun s hs => ⟨(), s, ?_, hs⟩
        have hrow : s.db.row .group i = some r := (row_congr (butClock_rows hs) .group i).trans hr
        refine updateRow_same hrow (if_pos hsome) (Bool.and_eq_true_iff.mpr ⟨?_, rfl⟩)
        rw [refsExist_group] at hrefs ⊢
        intro j hj
        rw [row_congr (butClock_rows hs)]
        exact hrefs j hj
    · intro s hs
      have hrow : s.db.row .group i = some r := (row_congr (butClock_rows hs) .group i).trans hr
      refine ⟨(), s, ?_, hs⟩
      show (if (s.db.row .group i).any (fun r => r.body.identityId.isSome) = true then
        (pure () : StoreTx Unit) else _) s = _
      rw [hrow]
      by_cases hhas : r.body.identityId.isSome
      · exact congrFun (if_pos hhas) s
      · refine (congrFun (if_neg hhas) s).trans ?_
        rw [importLogin_none (mt hlogin hhas) cx]
        rfl

theorem importHosts_again (cx : Session) (h : ∀ host ∈ hosts, HostSettled host db) (added : List (Text × UInt16)) :
    Tx.Completes (ButClock db) (importHosts cx set hosts added) fun added' s => ButClock db s ∧ added' = added := by
  induction hosts with
  | nil => exact .pure _ fun _ hs => ⟨hs, rfl⟩
  | cons host rest ih =>
    obtain ⟨hhost, hrest⟩ := List.forall_mem_cons.mp h
    intro s hs
    obtain ⟨added', s', hrun, hend⟩ := ih hrest s hs
    refine ⟨added', s', ?_, hend⟩
    have hskip : (!isPlausible host || hostExists s.db host.address host.port) = true := by
      rcases hhost with hnot | hthere
      · rw [hnot]
        rfl
      · have hsame : hostExists s.db = hostExists db := by
          unfold hostExists
          rw [butClock_rows hs]
        rw [hsame, hthere, Bool.or_true]
    show (if (!isPlausible host || hostExists s.db host.address host.port) = true then
      importHosts cx set rest added else _) s = _
    rw [if_pos hskip, hrun]

theorem importSet_again (h : ImportSettled set db) (cx : Session) :
    Tx.Completes (ButClock db) (importSet cx set) fun _ => ButClock db := by
  unfold importSet
  refine .bind (R := fun _ => ButClock db) (.require fun s hs => ⟨h.limits, hs⟩) fun _ => ?_
  refine .bind (R := fun _ => ButClock db) ?_ fun _ => ?_
  · refine .forM (I := fun _ => ButClock db) fun done group rest hgroups => ?_
    refine importGroup_again (h.groups group ?_) cx
    rw [hgroups]
    exact List.mem_append_right _ List.mem_cons_self
  · refine (importHosts_again cx h.hosts []).bind fun added => .intro fun hadded => ?_
    subst hadded
    have hnone : (set.knownHosts.filter fun k => ([] : List (Text × UInt16)).contains
        (normalise k.address, k.port)) = [] := List.filter_eq_nil_iff.mpr fun k _ => by simp
    rw [hnone]
    exact .pure _ fun _ hs => hs

/-- An import that went through goes through again, with any session, and leaves every row as it
was; one that failed has left all as it was. -/
theorem import_idempotent (cx : Session) (set : ImportSet) (db : Db) :
    (∀ db', Session.run db (importSet cx set) = (.ok (), db') → ∀ cx' : Session,
      ∃ clock, Session.run db' (importSet cx' set) = (.ok (), db'.setClock clock)) ∧
    ∀ e db', Session.run db (importSet cx set) = (.error e, db') → db' = db := by
  unfold Session.run
  constructor
  · intro db' hrun cx'
    cases hm : importSet cx set ⟨db, 0⟩ with
    | error e =>
      rw [hm] at hrun
      cases hrun
    | ok a =>
      rw [hm] at hrun
      cases hrun
      have hsettled := importSet_settles hm
      obtain ⟨_, s', hagain, clock, hdb⟩ := importSet_again hsettled cx' ⟨a.2.db, 0⟩ ⟨a.2.db.clock 0, rfl⟩
      refine ⟨clock, ?_⟩
      rw [hagain]
      show (Except.ok (), s'.db) = _
      rw [hdb]
  · intro e db' hrun
    cases hm : importSet cx set ⟨db, 0⟩ with
    | error e' =>
      rw [hm] at hrun
      exact (congrArg Prod.snd hrun).symm
    | ok a =>
      rw [hm] at hrun
      cases hrun

end Import

/-- A set of one group with a login and a host in it. -/
def oneOfEach : ImportSet where
  groups := [⟨.priv, " Rack".toList, some 0, some ⟨true, [⟨[], "/srv".toList, []⟩], []⟩⟩]
  hosts := [⟨[], "DC01 ".toList, 3389, some "Rack".toList, none, some 0, .priv, none, {}, []⟩]
  logins := [⟨"admin".toList, [], some [112]⟩]
  knownHosts := [⟨"dc01".toList, 3389, [], [], []⟩]

/-- A device with an open vault, and one whose vault is locked. -/
def openDevice : Session := ⟨1, some ⟨1, 7⟩, fun n => UInt64.ofNat n, fun n => n + 100⟩

def lockedDevice : Session := ⟨1, none, fun n => UInt64.ofNat n, fun n => n + 100⟩

theorem run_eq_of_fst {α : Type} {p : Except StoreError α × Db} {a : Except StoreError α}
    (h : p.1 = a) : p = (a, p.2) := by
  rw [← h]

theorem import_idempotent_locked : letI := asciiPlatform
    ∃ db, Session.run (Db.fresh 1) (importSet openDevice oneOfEach) = (.ok (), db) ∧
      ∃ clock, Session.run db (importSet lockedDevice oneOfEach) = (.ok (), db.setClock clock) := by
  let _ := asciiPlatform
  have hran : (Session.run (Db.fresh 1) (importSet openDevice oneOfEach)).1 = .ok () := by
    decide +kernel
  have hpair := run_eq_of_fst hran
  generalize (Session.run (Db.fresh 1) (importSet openDevice oneOfEach)).2 = db at hpair
  exact ⟨db, hpair, (import_idempotent openDevice oneOfEach (Db.fresh 1)).1 db hpair lockedDevice⟩

end UwuRdp
