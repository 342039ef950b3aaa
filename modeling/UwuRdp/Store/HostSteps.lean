import UwuRdp.Store.LoginSteps

/-!
# What an edit of a host or a group's login does

Saving and deleting a host and setting a login, as the steps they leave behind, from the rows before
the call to the rows after it.
-/

namespace UwuRdp

open Lib

variable {cx : Session} {db db' : Db} {id : Uuid} {s s' : TxState}

/-! ## Groups by name -/

theorem groupId_congr (h : db'.rows .group = db.rows .group) : groupId db' = groupId db := by
  funext workspace name
  rw [groupId, namedGroups, h, groupId, namedGroups]

/-- The group a host goes to: none, the one of that name, or a new one. -/
inductive FindsGroup (workspace : Workspace) (db db' : Db) : Option Text → Option Uuid → Prop
  | ungrouped (rows : db'.rows = db.rows) : FindsGroup workspace db db' none none
  | found {name : Text} {g : Uuid} (named : groupId db workspace name = some g)
      (rows : db'.rows = db.rows) : FindsGroup workspace db db' (some name) (some g)
  | made {name : Text} {g : Uuid} {clock : Hlc} {position : ℤ}
      (unnamed : groupId db workspace name = none) (new : db.row .group g = none)
      (rows : db'.rows = (db.setRow .group g
        (newRow clock ⟨workspace, name, position, none, none, []⟩)).rows) :
      FindsGroup workspace db db' (some name) (some g)

variable {p : ℤ} {existing : Option (Row HostBody)} {record : HostRecord}

theorem afterLast_ok {positions : List ℤ} (h : afterLast positions s = .ok (p, s')) : s' = s := by
  unfold afterLast at h
  cases hm : positions.foldl (fun m p => some (m.elim p (max p))) none with
  | none =>
    simp only [hm] at h
    cases h
    rfl
  | some m =>
    simp only [hm] at h
    obtain ⟨-, h⟩ := Tx.require_bind_eq_ok.mp h
    cases h
    rfl

theorem ensureGroupPath_ok {workspace : Workspace} {path : Option Text} {group : Option Uuid}
    (h : ensureGroupPath cx workspace path s = .ok (group, s')) : FindsGroup workspace s.db s'.db path group := by
  cases path with
  | none =>
    cases h
    exact .ungrouped rfl
  | some name =>
    obtain ⟨g, s₁, h₁, h⟩ := Tx.bind_eq_ok.mp h
    cases h
    obtain ⟨found, s₂, h₂, h₁⟩ := Tx.bind_eq_ok.mp h₁
    cases h₂
    cases hg : groupId s.db workspace name with
    | some g' =>
      simp only [hg] at h₁
      cases h₁
      exact .found hg rfl
    | none =>
      simp only [hg] at h₁
      obtain ⟨positions, s₃, h₃, h₁⟩ := Tx.bind_eq_ok.mp h₁
      cases h₃
      obtain ⟨position, s₄, h₄, h₁⟩ := Tx.bind_eq_ok.mp h₁
      have hsame := afterLast_ok h₄
      obtain ⟨c, s₅, h₅, h₁⟩ := Tx.bind_eq_ok.mp h₁
      obtain ⟨-, he⟩ := tick_eq_ok h₅
      have hrows : s₅.db.rows = s.db.rows := by rw [he, hsame]; rfl
      obtain ⟨i, s₆, h₆, h₁⟩ := Tx.bind_eq_ok.mp h₁
      cases h₆
      obtain ⟨_, s₇, h₇, h₁⟩ := Tx.bind_eq_ok.mp h₁
      cases h₁
      obtain ⟨hn, -, hs⟩ := insertRow_ok h₇
      exact .made hg ((row_congr hrows _ _).symm.trans hn) (by rw [hs]; exact setRow_rows_congr hrows _ _ _)

namespace FindsGroup

variable {workspace : Workspace} {path : Option Text} {group : Option Uuid}

theorem rows_ne (h : FindsGroup workspace db db' path group) {k : EntityKind} (hk : k ≠ .group) :
    db'.rows k = db.rows k := by
  cases h with
  | ungrouped hr | found _ hr => rw [hr]
  | made _ _ hr => rw [hr, rows_setRow_ne hk]

theorem group_some (h : FindsGroup workspace db db' path group) {g : Uuid} {r : Row GroupBody}
    (hr : db.row .group g = some r) : db'.row .group g = some r := by
  cases h with
  | ungrouped he | found _ he => rw [row_congr he, hr]
  | made _ hn he =>
    rw [row_congr he, Db.row_setRow_ne_id, hr]
    rintro rfl
    rw [hn] at hr
    cases hr

theorem references_eq (h : FindsGroup workspace db db' path group) (i : Uuid) :
    references db' i = references db i := by
  cases h with
  | ungrouped hr | found _ hr => exact references_congr (by rw [hr]) (by rw [hr]) i
  | @made name g clock position _ hn hr =>
    have hset := references_setRow db .group g (newRow clock ⟨workspace, name, position, none, none, []⟩) i
    rw [hn, Option.elim_none] at hset
    have hp : points .group (newRow clock (⟨workspace, name, position, none, none, []⟩ : GroupBody)) i = 0 := rfl
    rw [hp] at hset
    rw [@references_congr (db.setRow .group g
      (newRow clock ⟨workspace, name, position, none, none, []⟩)) _ (by rw [hr]) (by rw [hr])]
    omega

end FindsGroup

/-! ## Hosts -/

def Edited (db : Db) (id : Option Uuid) (existing : Option (Row HostBody)) : Prop :=
  match id with
  | none => existing = none
  | some id => existing = liveHost db id ∧ existing.isSome

theorem existingHost_ok {id : Option Uuid}
    (h : existingHost id s = .ok (existing, s')) : s' = s ∧ Edited s.db id existing := by
  cases id with
  | none =>
    cases h
    exact ⟨rfl, rfl⟩
  | some id =>
    obtain ⟨row, s₁, h₁, h⟩ := Tx.bind_eq_ok.mp h
    cases h₁
    obtain ⟨r, s₂, h₂, h⟩ := Tx.bind_eq_ok.mp h
    cases h
    cases hr : liveHost s.db id with
    | none => simp only [hr] at h₂; cases h₂
    | some r' =>
      simp only [hr] at h₂
      cases h₂
      exact ⟨rfl, hr.symm, rfl⟩

theorem nextPosition_ok {workspace : Workspace} {group : Option Uuid}
    (h : nextPosition workspace group s = .ok (p, s')) : s' = s := by
  obtain ⟨positions, s₁, h₁, h⟩ := Tx.bind_eq_ok.mp h
  cases h₁
  exact afterLast_ok h

theorem hostPosition_ok {workspace : Workspace} {group : Option Uuid}
    (h : hostPosition existing workspace group s = .ok (p, s')) : s' = s ∧ ∀ r, existing = some r → r.body.workspace =
    workspace → r.body.groupId = group → p = r.body.position := by
  cases existing with
  | none => exact ⟨nextPosition_ok h, fun r hr => nomatch hr⟩
  | some r =>
    simp only [hostPosition] at h
    split at h
    · cases h
      exact ⟨rfl, fun r' hr' _ _ => by cases hr'; rfl⟩
    · next hne =>
      refine ⟨nextPosition_ok h, fun r' hr' hw hg => ?_⟩
      cases hr'
      exact absurd ⟨hw, hg⟩ hne

/-- The host's row: the one that is edited, or a new one. -/
inductive WritesHost (d : HostDraft) (existing : Option (Row HostBody)) (workspace : Workspace)
    (position : ℤ) (group login gatewayLogin : Option Uuid) (db db' : Db) : Uuid → Prop
  | edited {id : Uuid} {r : Row HostBody} {clock : Hlc} (ident : d.id = some id)
      (was : existing = some r) (row : db.row .host id = some r)
      (rows : db'.rows = (db.setRow .host id (r.rewrite clock fun b =>
        d.body workspace position group login gatewayLogin b.extra)).rows) :
      WritesHost d existing workspace position group login gatewayLogin db db' id
  | added {id : Uuid} {clock : Hlc} (was : existing = none) (new : db.row .host id = none)
      (rows : db'.rows = (db.setRow .host id (newRow clock
        (d.body workspace position group login gatewayLogin []))).rows) :
      WritesHost d existing workspace position group login gatewayLogin db db' id

/-- What saving a checked draft does, step by step: the group it names (`db₁`), its own login
(`db₂`), its gateway's login (`db₃`), its row (`db₄`), and the logins it no longer has. -/
structure SaveSteps (cx : Session) (d : HostDraft) (existing : Option (Row HostBody))
    (workspace : Workspace) (position : ℤ) (group : Option Uuid) (own gateway : AppliedLogin)
    (db db₁ db₂ db₃ db₄ db' : Db) (id : Uuid) : Prop where
  was : Edited db d.id existing
  home : workspace = (d.workspace <|> existing.map fun r => r.body.workspace).getD .priv
  found : FindsGroup workspace db db₁ d.groupPath group
  place : ∀ r, existing = some r → r.body.workspace = workspace → r.body.groupId = group →
    position = r.body.position
  login : AppliesLogin cx (existing.bind fun r => r.body.identityId)
    ⟨d.username, d.domain, d.password⟩ db₁ db₂ own
  through : AppliesLogin cx (existing.bind fun r => r.body.gatewayIdentityId)
    ⟨d.gatewayUsername, d.gatewayDomain, d.gatewayPassword⟩ db₂ db₃ gateway
  wrote : WritesHost d existing workspace position group own.identity gateway.identity db₃ db₄ id
  released : ReleasesAll (own.release.toList ++ gateway.release.toList) db₄ db'

/-- A checked draft was saved. -/
inductive Saves (cx : Session) (d : HostDraft) (db db' : Db) (id : Uuid) : Prop
  | mk {existing : Option (Row HostBody)} {workspace : Workspace} {position : ℤ}
      {group : Option Uuid} {own gateway : AppliedLogin} {db₁ db₂ db₃ db₄ : Db}
      (steps : SaveSteps cx d existing workspace position group own gateway db db₁ db₂ db₃ db₄ db' id)

theorem liveHost_congr (h : db'.rows .host = db.rows .host) (id : Uuid) : liveHost db' id = liveHost db id := by
  unfold liveHost Db.row
  rw [h]

theorem FindsGroup.congr {workspace : Workspace} {path : Option Text} {group : Option Uuid} {db₀ : Db}
    (h : FindsGroup workspace db db' path group) (hr : db.rows = db₀.rows) :
    FindsGroup workspace db₀ db' path group := by
  cases h with
  | ungrouped he => exact .ungrouped (he.trans hr)
  | found hn he => exact .found (by rw [← groupId_of_rows_eq hr]; exact hn) (he.trans hr)
  | made hn hnew he =>
    exact .made (by rw [← groupId_of_rows_eq hr]; exact hn) ((row_congr hr _ _).symm.trans hnew)
      (he.trans (setRow_rows_congr hr _ _ _))

theorem writeHostRow_ok {d : HostDraft} {workspace : Workspace} {position : ℤ}
    {group login gatewayLogin : Option Uuid} {clock : Hlc} (hex : Edited s.db d.id existing)
    (h : writeHostRow cx d existing workspace position group login gatewayLogin clock s = .ok (id, s')) : WritesHost d
    existing workspace position group login gatewayLogin s.db s'.db id := by
  have hadd : existing = none → (do
      let id ← StoreTx.nowV7 cx
      StoreTx.insertRow .host id
        (newRow clock (d.body workspace position group login gatewayLogin []))
      pure id : StoreTx Uuid) s = .ok (id, s') →
      WritesHost d existing workspace position group login gatewayLogin s.db s'.db id := by
    intro hn h
    obtain ⟨i, s₁, h₁, h⟩ := Tx.bind_eq_ok.mp h
    cases h₁
    obtain ⟨_, s₂, h₂, h⟩ := Tx.bind_eq_ok.mp h
    cases h
    obtain ⟨hnew, -, hs⟩ := insertRow_ok h₂
    exact .added hn hnew (by rw [hs])
  cases hid : d.id with
  | none =>
    rw [hid] at hex
    unfold writeHostRow at h
    rw [hid] at h
    exact hadd hex h
  | some i =>
    rw [hid] at hex
    obtain ⟨hlive, hsome⟩ := hex
    cases hexi : existing with
    | none => rw [hexi] at hsome; cases hsome
    | some r =>
      unfold writeHostRow at h
      rw [hid, hexi] at h
      obtain ⟨_, s₁, h₁, h⟩ := Tx.bind_eq_ok.mp h
      cases h
      have hrow := (liveHost_some (hlive.symm.trans hexi)).1
      rcases updateRow_ok h₁ with ⟨hn, -⟩ | ⟨r', hr', -, hs⟩
      · rw [hrow] at hn
        cases hn
      · rw [hrow] at hr'
        cases hr'
        exact .edited hid rfl hrow (by rw [hs])

theorem saveDraft_ok {d : HostDraft} (h : saveDraft cx d s = .ok (record, s')) : ∃ id, Saves cx d s.db s'.db id ∧
    readHost s'.db id = some record := by
  obtain ⟨clock, s₁, h₁, h⟩ := Tx.bind_eq_ok.mp h
  obtain ⟨-, he⟩ := tick_eq_ok h₁
  have hrows : s₁.db.rows = s.db.rows := by rw [he]; rfl
  obtain ⟨existing, s₂, h₂, h⟩ := Tx.bind_eq_ok.mp h
  obtain ⟨hsame, hwas⟩ := existingHost_ok h₂
  rw [hsame] at h
  obtain ⟨group, s₃, h₃, h⟩ := Tx.bind_eq_ok.mp h
  have hfound := ensureGroupPath_ok h₃
  obtain ⟨position, s₄, h₄, h⟩ := Tx.bind_eq_ok.mp h
  obtain ⟨hsame', hplace⟩ := hostPosition_ok h₄
  rw [hsame'] at h
  obtain ⟨own, s₅, h₅, h⟩ := Tx.bind_eq_ok.mp h
  have hown := applyLogin_ok h₅
  obtain ⟨gateway, s₆, h₆, h⟩ := Tx.bind_eq_ok.mp h
  have hgateway := applyLogin_ok h₆
  obtain ⟨id, s₇, h₇, h⟩ := Tx.bind_eq_ok.mp h
  obtain ⟨_, s₈, h₈, h⟩ := Tx.bind_eq_ok.mp h
  have hrel := releaseAll_ok h₈
  obtain ⟨rec, s₉, h₉, h⟩ := Tx.bind_eq_ok.mp h
  cases h₉
  have hhost : s₆.db.rows .host = s₁.db.rows .host := by
    rw [hgateway.rows_ne (by decide) (by decide), hown.rows_ne (by decide) (by decide), hfound.rows_ne (by decide)]
  have hex : Edited s₆.db d.id existing := by
    unfold Edited at hwas ⊢
    cases hid : d.id with
    | none => rw [hid] at hwas; exact hwas
    | some i =>
      rw [hid] at hwas
      exact ⟨hwas.1.trans (liveHost_congr hhost i).symm, hwas.2⟩
  have hwrote := writeHostRow_ok hex h₇
  have hstart : Edited s.db d.id existing := by
    unfold Edited at hwas ⊢
    cases hid : d.id with
    | none => rw [hid] at hwas; exact hwas
    | some i =>
      rw [hid] at hwas
      exact ⟨hwas.1.trans (liveHost_congr (by rw [hrows]) i), hwas.2⟩
  cases hr : readHost s₈.db id with
  | none => simp only [hr] at h; cases h
  | some record' =>
    simp only [hr] at h
    cases h
    exact ⟨id, .mk ⟨hstart, rfl, hfound.congr hrows, hplace, hown, hgateway, hwrote, hrel⟩, hr⟩

theorem saveHost_ok [Platform] {draft : HostDraft} (h : saveHost cx draft s = .ok (record, s')) : ∃ d id,
    draft.validated = .ok d ∧ Saves cx d s.db s'.db id ∧ readHost s'.db id = some record := by
  unfold saveHost at h
  cases hv : draft.validated with
  | error e => rw [hv] at h; cases h
  | ok d =>
    rw [hv] at h
    simp only at h
    split at h
    · cases h
    · obtain ⟨id, hs, hr⟩ := saveDraft_ok h
      exact ⟨d, id, rfl, hs, hr⟩

/-- Deleting a host lets go of its logins. -/
inductive DeletesHost (id : Uuid) (db db' : Db) : Prop
  | mk {r : Row HostBody} {clock : Hlc} {db₁ : Db} (row : db.row .host id = some r)
      (live : r.deleted = false)
      (rows : db₁.rows = (db.setRow .host id (r.tombstone clock fun b => b)).rows)
      (released : ReleasesAll (r.body.identityId.toList ++ r.body.gatewayIdentityId.toList) db₁ db')

theorem deleteHost_ok {u : Unit} (h : deleteHost cx id s = .ok (u, s')) : DeletesHost id s.db s'.db := by
  obtain ⟨clock, s₁, h₁, h⟩ := Tx.bind_eq_ok.mp h
  obtain ⟨-, he⟩ := tick_eq_ok h₁
  have hrows : s₁.db.rows = s.db.rows := by rw [he]; rfl
  obtain ⟨row, s₂, h₂, h⟩ := Tx.bind_eq_ok.mp h
  cases h₂
  obtain ⟨r, s₃, h₃, h⟩ := Tx.bind_eq_ok.mp h
  obtain ⟨_, s₄, h₄, h⟩ := Tx.bind_eq_ok.mp h
  have hrel := releaseAll_ok h
  cases hr : liveHost s₁.db id with
  | none => simp only [hr] at h₃; cases h₃
  | some r' =>
    simp only [hr] at h₃
    cases h₃
    obtain ⟨hrow, hlive⟩ := liveHost_some hr
    rcases tombstoneLive_ok h₄ with ⟨hdead, -⟩ | ⟨r'', hr'', -, hset⟩
    · rw [hdead r hrow] at hlive
      cases hlive
    · rw [hrow] at hr''
      cases hr''
      exact .mk ((row_congr hrows _ _).symm.trans hrow) hlive (hset.trans (setRow_rows_congr hrows _ _ _)) hrel

/-- Giving a host a login of its own. -/
inductive SetsLogin (cx : Session) (id : Uuid) (change : LoginChange) (db db' : Db) : Prop
  | mk {r : Row HostBody} {a : AppliedLogin} {clock : Hlc} {db₁ db₂ : Db}
      (row : db.row .host id = some r) (live : r.deleted = false)
      (login : AppliesLogin cx r.body.identityId change db db₁ a)
      (rows : db₂.rows = (db₁.setRow .host id (r.rewrite clock fun b =>
        { b with identityId := a.identity })).rows)
      (released : ReleasesAll a.release.toList db₂ db')

theorem setHostLogin_ok {username domain : Text} {password : Option (List UInt8)} (h : setHostLogin cx id username domain password s = .ok (record, s')) :
    SetsLogin cx id ⟨username, domain, password.elim .keep .set⟩ s.db s'.db := by
  obtain ⟨-, h⟩ := Tx.require_bind_eq_ok.mp h
  obtain ⟨row, s₁, h₁, h⟩ := Tx.bind_eq_ok.mp h
  cases h₁
  obtain ⟨r, s₂, h₂, h⟩ := Tx.bind_eq_ok.mp h
  cases hr : liveHost s.db id with
  | none => simp only [hr] at h₂; cases h₂
  | some r' =>
    simp only [hr] at h₂
    cases h₂
    obtain ⟨hrow, hlive⟩ := liveHost_some hr
    obtain ⟨clock, s₃, h₃, h⟩ := Tx.bind_eq_ok.mp h
    obtain ⟨-, he⟩ := tick_eq_ok h₃
    have hrows : s₃.db.rows = s.db.rows := by rw [he]; rfl
    obtain ⟨a, s₄, h₄, h⟩ := Tx.bind_eq_ok.mp h
    have hlogin := applyLogin_ok h₄
    obtain ⟨_, s₅, h₅, h⟩ := Tx.bind_eq_ok.mp h
    obtain ⟨_, s₆, h₆, h⟩ := Tx.bind_eq_ok.mp h
    obtain ⟨rec, s₇, h₇, h⟩ := Tx.bind_eq_ok.mp h
    cases h₇
    have hend : s'.db = s₆.db := by
      cases hrec : readHost s₆.db id with
      | none => simp only [hrec] at h; cases h
      | some record' =>
        simp only [hrec] at h
        cases h
        rfl
    have hrow₄ : s₄.db.row .host id = some r := by
      unfold Db.row
      rw [hlogin.rows_ne (by decide) (by decide), hrows]
      exact hrow
    rcases updateRow_ok h₅ with ⟨hn, -⟩ | ⟨r', hr', -, hset⟩
    · rw [hrow₄] at hn
      cases hn
    · rw [hrow₄] at hr'
      cases hr'
      rw [hend]
      exact .mk hrow hlive (hlogin.congr hrows) (by rw [hset]) (releaseAll_ok h₆)

/-- Giving a group a login. -/
inductive SetsGroupLogin (cx : Session) (g : Uuid) (change : LoginChange) (db db' : Db) : Prop
  | mk {r : Row GroupBody} {a : AppliedLogin} {clock : Hlc} {db₁ db₂ : Db}
      (row : db.row .group g = some r) (live : r.deleted = false)
      (login : AppliesLogin cx r.body.identityId change db db₁ a)
      (rows : db₂.rows = (db₁.setRow .group g (r.rewrite clock fun b =>
        { b with identityId := a.identity })).rows)
      (released : ReleasesAll a.release.toList db₂ db')

theorem setGroupLogin_ok {workspace : Workspace} {name : Text} {change : LoginChange} {u : Unit}
    (h : setGroupLogin cx workspace name change s = .ok (u, s')) :
    ∃ g, groupId s.db workspace name = some g ∧ SetsGroupLogin cx g change s.db s'.db := by
  obtain ⟨-, h⟩ := Tx.require_bind_eq_ok.mp h
  obtain ⟨g, s₁, h₁, h⟩ := Tx.bind_eq_ok.mp h
  obtain ⟨found, s₂, h₂, h₁⟩ := Tx.bind_eq_ok.mp h₁
  cases h₂
  cases hg : groupId s.db workspace name with
  | none => simp only [hg] at h₁; cases h₁
  | some g' =>
    simp only [hg] at h₁
    cases h₁
    obtain ⟨r, hrow, hlive, -⟩ := groupId_some hg
    obtain ⟨current, s₃, h₃, h⟩ := Tx.bind_eq_ok.mp h
    cases h₃
    obtain ⟨clock, s₄, h₄, h⟩ := Tx.bind_eq_ok.mp h
    obtain ⟨-, he⟩ := tick_eq_ok h₄
    have hrows : s₄.db.rows = s.db.rows := by rw [he]; rfl
    obtain ⟨a, s₅, h₅, h⟩ := Tx.bind_eq_ok.mp h
    simp only [hrow, Option.bind_some] at h₅
    have hlogin := applyLogin_ok h₅
    obtain ⟨_, s₆, h₆, h⟩ := Tx.bind_eq_ok.mp h
    have hrow₅ : s₅.db.row .group g = some r := by
      unfold Db.row
      rw [hlogin.rows_ne (by decide) (by decide), hrows]
      exact hrow
    rcases updateRow_ok h₆ with ⟨hn, -⟩ | ⟨r', hr', -, hset⟩
    · rw [hrow₅] at hn
      cases hn
    · rw [hrow₅] at hr'
      cases hr'
      exact ⟨g, rfl, .mk hrow hlive (hlogin.congr hrows) (by rw [hset]) (releaseAll_ok h)⟩

theorem forgetHostPassword_ok [Platform] (h : forgetHostPassword cx id s = .ok (record, s')) : ∃ host, readHost s.db
    id = some host ∧ saveHost cx host.withoutPassword s = .ok (record, s') := by
  obtain ⟨host, s₁, h₁, h⟩ := Tx.bind_eq_ok.mp h
  cases h₁
  obtain ⟨host, s₂, h₂, h⟩ := Tx.bind_eq_ok.mp h
  cases hr : readHost s.db id with
  | none => simp only [hr] at h₂; cases h₂
  | some host' =>
    simp only [hr] at h₂
    cases h₂
    exact ⟨host, rfl, h⟩

end UwuRdp
