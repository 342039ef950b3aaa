import UwuRdp.Store.Credentials
import UwuRdp.Store.HostSteps
import UwuRdp.Store.Placeholders

/-!
# The login saved is the login used

A form writes the login its owner has today, or a new one. The row it writes over is found by its id
alone, so where another device deleted that login the new username and password go into a tombstone,
which nobody reads. `loginUsed_iff` says that this is the only way a saved login is lost.
-/

namespace UwuRdp

open Lib

variable {cx : Session} {db db' : Db} {i j : Uuid} {current : Option Uuid} {change : LoginChange}
  {a : AppliedLogin}

/-! ## Logins that were given -/

/-- The login an owner has to itself is live; one shared with others is not written over. -/
def Reusable (db : Db) (current : Option Uuid) : Prop :=
  ∀ i, current = some i → references db i ≤ 1 → ∃ r, db.row .identity i = some r ∧ r.deleted = false

/-- A login as a form gave it: live, with the username, the domain and a password that was set. -/
structure Given (cx : Session) (change : LoginChange) (i : Uuid) (r : Row IdentityBody) (db : Db) :
    Prop where
  row : db.row .identity i = some r
  live : r.deleted = false
  username : r.body.username = Text.trim change.username
  domain : r.body.domain = Text.trim change.domain
  secret : ∀ value, change.password = .set value → ∃ t vault p, r.body.passwordSecretId = some t ∧
    cx.vault = some vault ∧ db.row .secret t = some p ∧ p.deleted = false ∧
    p.body = vault.sealRecord t .secret (.bytes value)

def Dead (db : Db) (i : Uuid) : Prop := ∀ r, db.row .identity i = some r → r.deleted = true

theorem Given.kept {r : Row IdentityBody} (h : Given cx change i r db) (hk : LoginKept db db' i) :
    Given cx change i r db' := by
  refine ⟨hk.row.trans h.row, h.live, h.username, h.domain, fun value hv => ?_⟩
  obtain ⟨t, vault, p, ht, hvault, hp, hd, hb⟩ := h.secret value hv
  exact ⟨t, vault, p, ht, hvault, hk.secret r t p h.row h.live ht hp, hd, hb⟩

theorem Dead.kept (h : Dead db i) (hk : LoginKept db db' i) : Dead db' i :=
  fun r hr => h r (hk.row.symm.trans hr)

theorem GetsSecret.sealed {db₁ : Db} {old secret : Option Uuid} {change : PasswordChange}
    (h : GetsSecret cx old db db₁ change secret) {value : List UInt8} (hv : change = .set value) :
    ∃ t vault p, secret = some t ∧ cx.vault = some vault ∧ db.row .secret t = none ∧
      db₁.row .secret t = some p ∧ p.deleted = false ∧
      p.body = vault.sealRecord t .secret (.bytes value) := by
  cases h with
  | keep | forget => cases hv
  | @set vault v t clock hvault hn hr =>
    cases hv
    exact ⟨t, vault, _, rfl, hvault, hn, by rw [row_congr hr, Db.row_setRow_self], rfl, rfl⟩

theorem AppliesLogin.given (h : AppliesLogin cx current change db db' a) (hn : Text.trim change.username ≠ []) : ∃ i,
    a = ⟨some i, none⟩ ∧ (Reusable db current → ∃ r, Given cx change i r db') ∧
    (¬Reusable db current → current = some i ∧ references db i ≤ 1 ∧ Dead db' i) := by
  cases h with
  | drops he => exact absurd he hn
  | @gives i secret db₁ db₂ _ hg hw hf =>
    have hrefs : ∀ j, references db₁ j = references db j :=
      references_congr (hg.rows_ne (by decide)) (hg.rows_ne (by decide))
    have hrow₁ : ∀ j, db₁.row .identity j = db.row .identity j := fun j => by
      unfold Db.row
      rw [hg.rows_ne (by decide)]
    have hsecret : ∀ t p, db₁.row .secret t = some p → db₂.row .secret t = some p := fun t p hp => by
        unfold Db.row
        rw [hw.rows_ne (by decide)]
        exact hp
    -- A row with the form's columns is the login it gave, if it is live.
    have hgiven : ∀ r, db₂.row .identity i = some r → r.deleted = false →
        r.body.username = Text.trim change.username → r.body.domain = Text.trim change.domain →
        r.body.passwordSecretId = secret → ∃ r, Given cx change i r db' := by
      intro r hr hd hu hdom hs
      refine ⟨r, Given.kept ⟨hr, hd, hu, hdom, fun value hv => ?_⟩ (hf.kept i)⟩
      obtain ⟨t, vault, p, ht, hvault, -, hp, hpd, hpb⟩ := hg.sealed hv
      exact ⟨t, vault, p, hs.trans ht, hvault, hsecret t p hp, hpd, hpb⟩
    refine ⟨i, rfl, ?_⟩
    cases hw with
    | @own r clock hc hsole hr hrows =>
      have hr₂ : db₂.row .identity i = some (r.rewrite clock fun b =>
          b.withLogin (Text.trim change.username) (Text.trim change.domain) secret) := by
        rw [row_congr hrows, Db.row_setRow_self]
      rw [hrow₁] at hr
      rw [hrefs] at hsole
      refine ⟨fun hreuse => ?_, fun hnot => ⟨hc, hsole, ?_⟩⟩
      · obtain ⟨r', hr', hd⟩ := hreuse i hc hsole
        rw [hr] at hr'
        cases hr'
        exact hgiven _ hr₂ hd rfl rfl rfl
      · have hdead : r.deleted = true := by
          by_contra hd
          refine hnot fun j hj _ => ?_
          rw [hc] at hj
          cases hj
          exact ⟨r, hr, Bool.not_eq_true _ ▸ hd⟩
        refine @Dead.kept db₂ _ _ ?_ (hf.kept i)
        intro r' hr'
        rw [hr₂] at hr'
        cases hr'
        exact hdead
    | missing hc hsole hnone hrows =>
      rw [hrow₁] at hnone
      rw [hrefs] at hsole
      refine ⟨fun hreuse => ?_, fun hnot => ⟨hc, hsole, ?_⟩⟩
      · obtain ⟨r', hr', -⟩ := hreuse i hc hsole
        rw [hnone] at hr'
        cases hr'
      · refine @Dead.kept db₂ _ _ ?_ (hf.kept i)
        intro r' hr'
        rw [row_congr hrows, hrow₁, hnone] at hr'
        cases hr'
    | @new clock hshared hnone hrows =>
      refine ⟨fun _ => ?_, fun hnot => absurd ?_ hnot⟩
      · exact hgiven _ (by rw [row_congr hrows, Db.row_setRow_self]) rfl rfl rfl rfl
      · intro j hj hle
        have := hshared j hj
        rw [hrefs] at this
        omega

/-! ## Reading it back -/

theorem Given.resolved {r : Row IdentityBody} (h : Given cx change i r db)
    (hn : Text.trim change.username ≠ []) (fromGroup : Bool) : ∃ login,
      resolved db (some i) fromGroup = some login ∧ login.username = Text.trim change.username ∧
      login.domain = Text.trim change.domain ∧ login.fromGroup = fromGroup ∧
      ∀ value, change.password = .set value →
        revealLoginPassword db cx.vault login = .ok (some (.bytes value)) := by
  have hname : (!r.deleted && !r.body.username.isEmpty) = true := by
    rw [h.live, h.username, Bool.not_false, Bool.true_and, Bool.not_eq_true', List.isEmpty_eq_false_iff]
    exact hn
  refine ⟨⟨r.body.username, r.body.domain, r.body.passwordSecretId.isSome, fromGroup, i,
    r.body.passwordSecretId⟩, ?_, h.username, h.domain, rfl, ?_⟩
  · unfold UwuRdp.resolved
    rw [Option.bind_some, h.row, Option.filter_some, if_pos hname, Option.map_some]
  · intro value hv
    obtain ⟨t, vault, p, ht, hvault, hp, hd, hb⟩ := h.secret value hv
    have hopen : vault.openRecord t .secret (vault.sealRecord t .secret (.bytes value)) = some (.bytes value) := by
      simp [UnlockedVault.openRecord, UnlockedVault.sealRecord]
    simp only [revealLoginPassword, revealSecret, h.row, ht, hvault, hp, hb, hopen, Option.filter_some,
      h.live, hd, Option.bind_some, Bool.not_false, if_true]
    rfl

theorem Dead.resolved (h : Dead db i) (fromGroup : Bool) : resolved db (some i) fromGroup = none := by
  unfold UwuRdp.resolved
  rw [Option.bind_some]
  cases hr : db.row .identity i with
  | none => rfl
  | some r => simp [h r hr]

/-! ## Hosts -/

/-- The host connects with what the form said: the username and the domain, as a login of its own,
and the password if one was set. -/
def LoginUsed (cx : Session) (change : LoginChange) (db : Db) (host : Uuid) : Prop :=
  ∃ login, hostLogin db host = .ok (some login) ∧ login.username = Text.trim change.username ∧
    login.domain = Text.trim change.domain ∧ login.fromGroup = false ∧
    ∀ value, change.password = .set value →
      revealLoginPassword db cx.vault login = .ok (some (.bytes value))

variable {host : Uuid} {h : Row HostBody}

theorem loginUsed_of_given {r : Row IdentityBody} (hh : liveHost db host = some h) (hi : h.body.identityId = some i)
    (hn : Text.trim change.username ≠ []) (hg : Given cx change i r db) : LoginUsed cx change db host := by
  obtain ⟨login, hl, hu, hd, hf, hs⟩ := hg.resolved hn false
  refine ⟨login, ?_, hu, hd, hf, hs⟩
  unfold hostLogin
  rw [hh]
  simp only [hi, hl]

theorem not_loginUsed_of_dead (hh : liveHost db host = some h)
    (hi : h.body.identityId = some i) (hd : Dead db i) : ¬LoginUsed cx change db host := by
  rintro ⟨login, hl, -, -, hf, -⟩
  unfold hostLogin at hl
  rw [hh] at hl
  simp only [hi, hd.resolved false, Except.ok.injEq] at hl
  -- What is left is a login of the group.
  obtain ⟨r, -, hr⟩ := Option.bind_eq_some_iff.mp hl
  obtain ⟨j, -, hj⟩ := Option.bind_eq_some_iff.mp hr
  obtain ⟨r', -, hr'⟩ := Option.map_eq_some_iff.mp hj
  rw [← hr'] at hf
  cases hf

def ownLogin (db : Db) (host : Option Uuid) : Option Uuid :=
  (host.bind (liveHost db)).bind fun r => r.body.identityId

theorem Reusable.congr (hr : ∀ i, references db' i = references db i)
    (hi : ∀ i, db'.row .identity i = db.row .identity i) : Reusable db' current ↔ Reusable db current := by
  unfold Reusable
  simp only [hr, hi]

variable {α : Type} {r : Row HostBody} {login gatewayLogin : Option Uuid} {g : Uuid}

theorem Edited.bind {id : Option Uuid} {existing : Option (Row HostBody)} (h : Edited db id existing) (f : Row HostBody → Option α) : existing.bind f = (id.bind (liveHost db)).bind f := by
  cases id with
  | none => rw [show existing = none from h]; rfl
  | some id => rw [h.1, Option.bind_some]

theorem AppliesLogin.ne_gateway {b : AppliedLogin} (hr : liveHost db host = some r)
    (hsome : r.body.gatewayIdentityId = some i → (db.row .identity i).isSome)
    (h : AppliesLogin cx r.body.identityId change db db' b) (hi : b.identity = some i) : r.body.gatewayIdentityId ≠
    some i := by
  intro hg
  obtain ⟨hrow, hlive⟩ := liveHost_some hr
  refine absurd hi (h.loginKept (hsome hg) fun howner => ?_).2
  have hp := points_le_references hrow i
  have htwo : points .host r i = 2 := by simp [points, hlive, howner, hg]
  omega

theorem liveHost_setRow {db₁ : Db} (hd : r.deleted = false)
    (hrows : db₁.rows = (db.setRow .host host r).rows) : liveHost db₁ host = some r := by
  unfold liveHost
  rw [row_congr hrows, Db.row_setRow_self, Option.filter_some, hd]
  rfl

theorem WritesHost.live {d : HostDraft} {existing : Option (Row HostBody)} {workspace : Workspace} {position : ℤ}
    {group : Option Uuid} {id : Uuid}
    (h : WritesHost d existing workspace position group login gatewayLogin db db' id)
    (hex : ∀ r, existing = some r → r.deleted = false) : ∃ r, liveHost db' id = some r ∧ r.body.identityId = login ∧
    r.body.gatewayIdentityId = gatewayLogin := by
  cases h with
  | @edited r clock _ hwas _ hrows =>
    exact ⟨r.rewrite clock fun b => d.body workspace position group login gatewayLogin b.extra,
      liveHost_setRow (hex r hwas) hrows, rfl, rfl⟩
  | @added clock _ _ hrows =>
    exact ⟨newRow clock (d.body workspace position group login gatewayLogin []), liveHost_setRow rfl hrows, rfl, rfl⟩

theorem WritesHost.rows_ne {d : HostDraft} {existing : Option (Row HostBody)} {workspace : Workspace}
    {position : ℤ} {group : Option Uuid} {id : Uuid} {k : EntityKind}
    (h : WritesHost d existing workspace position group login gatewayLogin db db' id)
    (hk : k ≠ .host) : db'.rows k = db.rows k := by
  cases h with
  | edited _ _ _ hrows | added _ _ hrows => rw [hrows, rows_setRow_ne hk]

theorem Edited.live {id : Option Uuid} {existing : Option (Row HostBody)} (h : Edited db id existing) (hr : existing = some r) : ∃ host, id = some host ∧ liveHost db host = some r := by
  cases id with
  | none => rw [show existing = none from h] at hr; cases hr
  | some host => exact ⟨host, rfl, h.1.symm.trans hr⟩

theorem ReleasesAll.kept_of_host {identities : List Uuid}
    (h : ReleasesAll identities db db') (hr : liveHost db host = some r)
    (hi : r.body.identityId = some i ∨ r.body.gatewayIdentityId = some i) : LoginKept db db' i := by
  obtain ⟨hrow, hlive⟩ := liveHost_some hr
  refine h.loginKept fun _ => lt_of_lt_of_le ?_ (points_le_references hrow i)
  simp only [points, hlive, Bool.not_false, Bool.true_and, decide_eq_true_eq]
  rcases hi with hi | hi
  · rw [if_pos hi]
    omega
  · rw [if_pos hi]
    omega

namespace SaveSteps

variable {d : HostDraft} {existing : Option (Row HostBody)} {workspace : Workspace} {position : ℤ}
  {group : Option Uuid} {own gateway : AppliedLogin} {db₁ db₂ db₃ db₄ : Db} {id : Uuid}

theorem row₁ (h : SaveSteps cx d existing workspace position group own gateway db db₁ db₂ db₃ db₄ db'
    id) {k : EntityKind} (hk : k ≠ .group) (j : Uuid) : db₁.row k j = db.row k j := by
  unfold Db.row
  rw [h.found.rows_ne hk]

theorem saved (h : SaveSteps cx d existing workspace position group own gateway db db₁ db₂ db₃ db₄
    db' id) : ∃ r, liveHost db₄ id = some r ∧ liveHost db' id = some r ∧
      r.body.identityId = own.identity ∧ r.body.gatewayIdentityId = gateway.identity := by
  obtain ⟨r, hr, hown, hgateway⟩ := h.wrote.live fun r hr => by
    obtain ⟨host, -, hlive⟩ := h.was.live hr
    exact (liveHost_some hlive).2
  exact ⟨r, hr, (liveHost_congr (h.released.rows_ne (by decide) (by decide)) id).trans hr, hown, hgateway⟩

variable {x : Uuid}

theorem kept_own (h : SaveSteps cx d existing workspace position group own gateway db db₁ db₂ db₃ db₄
    db' id) (hc : RefsClosed db) (hx : own.identity = some x)
    (hsome : (db₂.row .identity x).isSome) : LoginKept db₂ db' x := by
  have hgate : existing.bind (fun r => r.body.gatewayIdentityId) ≠ some x := by
    intro hg
    obtain ⟨r, hr, hg⟩ := Option.bind_eq_some_iff.mp hg
    obtain ⟨host, -, hlive⟩ := h.was.live hr
    have hlogin := h.login
    rw [hr, Option.bind_some] at hlogin
    have hlive₁ : liveHost db₁ host = some r := (liveHost_congr (h.found.rows_ne (by decide)) host).trans hlive
    refine hlogin.ne_gateway hlive₁ (fun hg => ?_) hx hg
    rw [h.row₁ (by decide)]
    exact login_isSome_of_host hc hlive (.inr hg)
  obtain ⟨r', hr', -, hown', -⟩ := h.saved
  refine LoginKept.trans (h.through.loginKept hsome fun hg => absurd hg hgate).1 ?_
  refine LoginKept.trans (.of_rows (h.wrote.rows_ne (by decide)) (h.wrote.rows_ne (by decide)) x) ?_
  exact h.released.kept_of_host hr' (.inl (hown'.trans hx))

theorem kept_gateway (h : SaveSteps cx d existing workspace position group own gateway db db₁ db₂ db₃
    db₄ db' id) (hx : gateway.identity = some x) : LoginKept db₃ db' x := by
  obtain ⟨r', hr', -, -, hgateway'⟩ := h.saved
  refine LoginKept.trans (.of_rows (h.wrote.rows_ne (by decide)) (h.wrote.rows_ne (by decide)) x) ?_
  exact h.released.kept_of_host hr' (.inr (hgateway'.trans hx))

end SaveSteps

theorem loginUsed_save {d : HostDraft} {id : Uuid} (hc : RefsClosed db) (h : Saves cx d db db' id)
    (hn : Text.trim d.username ≠ []) :
    LoginUsed cx ⟨d.username, d.domain, d.password⟩ db' id ↔ Reusable db (ownLogin db d.id) := by
  cases h with
  | @mk existing workspace position group own gateway db₁ db₂ db₃ db₄ h =>
    obtain ⟨x, rfl, hgiven, hdead⟩ := h.login.given hn
    rw [Reusable.congr h.found.references_eq (h.row₁ (by decide)), h.was.bind] at hgiven hdead
    obtain ⟨r', -, hend, hown', -⟩ := h.saved
    constructor
    · intro hused
      by_contra hnot
      obtain ⟨howner, -, hd⟩ := hdead hnot
      obtain ⟨r, hr, hi⟩ := Option.bind_eq_some_iff.mp howner
      obtain ⟨host, -, hlive⟩ := Option.bind_eq_some_iff.mp hr
      have hsome : (db₂.row .identity x).isSome := by
        refine h.login.identity_isSome ?_
        rw [h.row₁ (by decide)]
        exact login_isSome_of_host hc hlive (.inl hi)
      exact not_loginUsed_of_dead hend hown' (hd.kept (h.kept_own hc rfl hsome)) hused
    · intro hreuse
      obtain ⟨r, hg⟩ := hgiven hreuse
      exact loginUsed_of_given hend hown' hn (hg.kept (h.kept_own hc rfl (by rw [hg.row]; rfl)))

theorem loginUsed_setLogin {id : Uuid} (h : SetsLogin cx id change db db') (hn : Text.trim change.username ≠ []) :
    LoginUsed cx change db' id ↔ Reusable db (ownLogin db (some id)) := by
  cases h with
  | @mk r a clock db₁ db₂ row live login rows released =>
    obtain ⟨x, rfl, hgiven, hdead⟩ := login.given hn
    have hlive : liveHost db id = some r := by
      unfold liveHost
      rw [row, Option.filter_some, live]
      rfl
    have howner : ownLogin db (some id) = r.body.identityId := by
      unfold ownLogin
      rw [Option.bind_some, hlive, Option.bind_some]
    have hr' : liveHost db₂ id = some (r.rewrite clock fun b => { b with identityId := some x }) :=
      liveHost_setRow live rows
    have hend : liveHost db' id = _ := (liveHost_congr (released.rows_ne (by decide) (by decide)) id).trans hr'
    have hkept : LoginKept db₁ db' x := by
      refine LoginKept.trans (.of_rows ?_ ?_ x) (released.kept_of_host hr' (.inl rfl))
      · rw [rows, rows_setRow_ne (by decide)]
      · rw [rows, rows_setRow_ne (by decide)]
    rw [howner]
    constructor
    · intro hused
      by_contra hnot
      obtain ⟨-, -, hd⟩ := hdead hnot
      exact not_loginUsed_of_dead hend rfl (hd.kept hkept) hused
    · intro hreuse
      obtain ⟨r, hg⟩ := hgiven hreuse
      exact loginUsed_of_given hend rfl hn (hg.kept hkept)

/-! ## Groups -/

/-- A live host of a group that has no login of its own. -/
def Inherits (db : Db) (g host : Uuid) : Prop :=
  ∃ h, liveHost db host = some h ∧ h.body.groupId = some g ∧
    resolved db h.body.identityId false = none

/-- Every such host connects with what the form said, as its group's login. -/
def GroupLoginUsed (cx : Session) (change : LoginChange) (db db' : Db) (g : Uuid) : Prop :=
  ∀ host, Inherits db g host → ∃ login, hostLogin db' host = .ok (some login) ∧
    login.username = Text.trim change.username ∧ login.domain = Text.trim change.domain ∧
    login.fromGroup = true ∧ ∀ value, change.password = .set value →
      revealLoginPassword db' cx.vault login = .ok (some (.bytes value))

theorem hostLogin_group {r : Row GroupBody} (hh : liveHost db host = some h) (hg : h.body.groupId = some g)
    (hr : db.row .group g = some r) (hd : r.deleted = false) (hown : resolved db h.body.identityId false = none) :
    hostLogin db host = .ok (resolved db r.body.identityId true) := by
  unfold hostLogin resolvedGroup
  rw [hh]
  simp only [hown, hg, Option.bind_some, hr, Option.filter_some, hd, Bool.not_false, if_true]

theorem resolved_congr (hi : ∀ i, current = some i → db'.row .identity i = db.row .identity i)
    (fromGroup : Bool) : resolved db' current fromGroup = resolved db current fromGroup := by
  cases current with
  | none => rfl
  | some i =>
    unfold resolved
    rw [Option.bind_some, Option.bind_some, hi i rfl]

/-- Setting a group's login reaches its hosts exactly when the one it has can be written over, or
there are none to reach. -/
theorem loginUsed_setGroupLogin (hc : RefsClosed db) (h : SetsGroupLogin cx g change db db')
    (hn : Text.trim change.username ≠ []) : GroupLoginUsed cx change db db' g ↔ Reusable db (groupLogin db g) ∨ ∀
    host, ¬Inherits db g host := by
  cases h with
  | @mk r a clock db₁ db₂ row live login rows released =>
    obtain ⟨x, rfl, hgiven, hdead⟩ := login.given hn
    rw [groupLogin_eq row]
    have hgroup₂ : db₂.row .group g = some (r.rewrite clock fun b => { b with identityId := some x }) := by
      rw [row_congr rows, Db.row_setRow_self]
    have hgroup : db'.row .group g = some (r.rewrite clock fun b => { b with identityId := some x }) := by
      unfold Db.row
      rw [released.rows_ne (by decide) (by decide)]
      exact hgroup₂
    have hhost : ∀ host, liveHost db' host = liveHost db host := fun host => by
      refine liveHost_congr ?_ host
      rw [released.rows_ne (by decide) (by decide), rows, rows_setRow_ne (by decide),
        login.rows_ne (by decide) (by decide)]
    have hkept : ∀ j, 0 < references db₂ j → LoginKept db₁ db' j := fun j hj => by
      refine LoginKept.trans (.of_rows ?_ ?_ j) (released.loginKept fun _ => hj)
      · rw [rows, rows_setRow_ne (by decide)]
      · rw [rows, rows_setRow_ne (by decide)]
    have hx : LoginKept db₁ db' x := by
      refine hkept x (lt_of_lt_of_le ?_ (points_le_references hgroup₂ x))
      show 0 < if (!r.deleted && decide (some x = some x)) = true then 1 else 0
      simp [live]
    -- The login of a host that points at one is not the group's own.
    have hown : ∀ host h, liveHost db host = some h →
        resolved db' h.body.identityId false = resolved db h.body.identityId false := by
      intro host h hh
      refine resolved_congr (fun j hj => ?_) false
      obtain ⟨hrow, hlive⟩ := liveHost_some hh
      have hone : 1 ≤ points .host h j := by simp [points, hlive, hj]
      have hrefs : 0 < references db₂ j := by
        have hrow₂ : db₂.row .host host = some h := by
          rw [row_congr rows, Db.row_setRow_ne_kind (by decide)]
          unfold Db.row
          rw [login.rows_ne (by decide) (by decide)]
          exact hrow
        exact lt_of_lt_of_le hone (points_le_references hrow₂ j)
      refine (hkept j hrefs).row.trans (login.loginKept ?_ fun howner => ?_).1.row
      · exact login_isSome_of_host hc hh (.inl hj)
      · have hboth := references_setRow db .group g { r with deleted := true } j
        have hpg : points .group r j = 1 := by simp [points, live, howner]
        have hpd : points .group { r with deleted := true } j = 0 := rfl
        have hph := @points_le_references (db.setRow .group g { r with deleted := true }) .host host h
          (by rw [Db.row_setRow_ne_kind (by decide)]; exact hrow) j
        rw [row, Option.elim_some, hpg, hpd] at hboth
        omega
    have hlogin : ∀ host, Inherits db g host → hostLogin db' host = .ok (resolved db' (some x) true) := by
      rintro host ⟨h, hh, hg, hnone⟩
      exact hostLogin_group ((hhost host).trans hh) hg hgroup live ((hown host h hh).trans hnone)
    constructor
    · intro hused
      by_contra hnot
      obtain ⟨hreuse, hsome⟩ := not_or.mp hnot
      obtain ⟨host, hin⟩ := not_forall_not.mp hsome
      obtain ⟨-, -, hd⟩ := hdead hreuse
      obtain ⟨login', hl, -⟩ := hused host hin
      rw [hlogin host hin, (hd.kept hx).resolved true] at hl
      cases hl
    · rintro (hreuse | hempty) host hin
      · obtain ⟨r', hg⟩ := hgiven hreuse
        obtain ⟨login', hl, hrest⟩ := (hg.kept hx).resolved hn true
        exact ⟨login', by rw [hlogin host hin, hl], hrest⟩
      · exact absurd hin (hempty host)

/-! ## Saved and used -/

theorem run_ok {m : StoreTx α} {x : α} (h : Session.run db m = (.ok x, db')) :
    ∃ s', m ⟨db, 0⟩ = .ok (x, s') ∧ s'.db = db' := by
  unfold Session.run at h
  cases hm : m ⟨db, 0⟩ with
  | error e => rw [hm] at h; cases h
  | ok p =>
    obtain ⟨y, s'⟩ := p
    rw [hm] at h
    cases h
    exact ⟨s', rfl, rfl⟩

theorem run_error {m : StoreTx α} {e : StoreError} (h : Session.run db m = (.error e, db')) : db' = db := by
  unfold Session.run at h
  cases hm : m ⟨db, 0⟩ with
  | error e' => rw [hm] at h; cases h; rfl
  | ok p => rw [hm] at h; cases h

theorem id_of_readHost {id : Uuid} {record : HostRecord} (h : readHost db id = some record) : record.id = id := by
  obtain ⟨r, -, hr⟩ := Option.map_eq_some_iff.mp h
  rw [← hr]

/-- **The login saved is the login used**, by the host or by the hosts of the group, exactly when
the login that is written over is not a tombstone. -/
theorem loginUsed_iff [Platform] (cx : Session) (db : Db) (hc : RefsClosed db) :
    (∀ draft record db', Session.run db (saveHost cx draft) = (.ok record, db') →
      Text.trim draft.username ≠ [] →
      (LoginUsed cx ⟨draft.username, draft.domain, draft.password⟩ db' record.id ↔
        Reusable db (ownLogin db draft.id))) ∧
    (∀ id username domain password record db',
      Session.run db (setHostLogin cx id username domain password) = (.ok record, db') →
      Text.trim username ≠ [] →
      (LoginUsed cx ⟨username, domain, password.elim .keep .set⟩ db' id ↔
        Reusable db (ownLogin db (some id)))) ∧
    ∀ workspace name change db',
      Session.run db (setGroupLogin cx workspace name change) = (.ok (), db') →
      Text.trim change.username ≠ [] → ∃ g, groupId db workspace name = some g ∧
        (GroupLoginUsed cx change db db' g ↔
          Reusable db (groupLogin db g) ∨ ∀ host, ¬Inherits db g host) := by
  refine ⟨?_, ?_, ?_⟩
  · intro draft record db' h hn
    obtain ⟨s', hs, rfl⟩ := run_ok h
    obtain ⟨d, id, hv, hsaves, hread⟩ := saveHost_ok hs
    obtain ⟨hid, hu, hd, hp, -⟩ := validated_eq hv
    rw [id_of_readHost hread, ← hid, ← hu, ← hd, ← hp]
    exact loginUsed_save hc hsaves (hu ▸ hn)
  · intro id username domain password record db' h hn
    obtain ⟨s', hs, rfl⟩ := run_ok h
    exact loginUsed_setLogin (setHostLogin_ok hs) hn
  · intro workspace name change db' h hn
    obtain ⟨s', hs, rfl⟩ := run_ok h
    obtain ⟨g, hg, hsets⟩ := setGroupLogin_ok hs
    exact ⟨g, hg, loginUsed_setGroupLogin hc hsets hn⟩

/-! ## A login another device deleted -/

def newHost : HostDraft :=
  ⟨none, ['h'], ['h'], 3389, ['u'], [], none, none, .set [1], {}, [], [], [], .keep⟩

/-- It is saved, and connects with the login it was given. -/
theorem loginUsed_newHost :
    letI := asciiPlatform
    ∃ record, (Session.run (Db.fresh 1) (saveHost deviceOne newHost)).1 = .ok record ∧
      LoginUsed deviceOne ⟨['u'], [], .set [1]⟩
        (Session.run (Db.fresh 1) (saveHost deviceOne newHost)).2 record.id := by
  let _ := asciiPlatform
  have hc : RefsClosed (Db.fresh 1) := fun k id r hr => nomatch hr
  cases hrun : Session.run (Db.fresh 1) (saveHost deviceOne newHost) with
  | mk answer db' =>
    cases answer with
    | error e =>
      have herr : (Session.run (Db.fresh 1) (saveHost deviceOne newHost)).1.isOk = true := by
        decide +kernel
      rw [hrun] at herr
      cases herr
    | ok record =>
      exact ⟨record, rfl, ((loginUsed_iff deviceOne (Db.fresh 1) hc).1 newHost record db' hrun
        (by decide)).mpr fun i hi => nomatch hi⟩

/-- A host and its login arrive, and the login is deleted by a device that had cleared it while
another one edited the host. -/
def clearedElsewhere : List StoreCall :=
  [.apply (some ⟨1, 7⟩) 1000 [sealedAt 900 7 .identity false
      (.identity ⟨['v'], ['v'], [], "password".toList, none, none, []⟩) 1,
    sealedAt 900 5 .host false
      (.host ⟨['h'], ['h'], 3389, "private".toList, 0, none, some 7, {}, none, [], []⟩) 2],
   .apply (some ⟨1, 7⟩) 1000 [sealedAt 950 7 .identity true (.bytes []) 3,
    sealedAt 960 5 .host false
      (.host ⟨['k'], ['h'], 3389, "private".toList, 0, none, some 7, {}, none, [], []⟩) 4]]

/-- The login the user then gives the host is written into the tombstone, and the host has none. -/
theorem login_into_tombstone :
    letI := asciiPlatform
    ¬∀ (cx : Session) (vaultId : Uuid) (calls : List StoreCall) (id : Uuid) (username domain : Text)
      (password : Option (List UInt8)) (record : HostRecord) (db' : Db),
      Session.run (runCalls cx.device (Db.fresh vaultId) calls)
        (setHostLogin cx id username domain password) = (.ok record, db') →
      Text.trim username ≠ [] →
      LoginUsed cx ⟨username, domain, password.elim .keep .set⟩ db' id := by
  let _ := asciiPlatform
  intro hall
  have hnone : hostLogin (Session.run (runCalls 1 (Db.fresh 1) clearedElsewhere)
      (setHostLogin deviceOne 5 ['u'] [] (some [1]))).2 5 = .ok none := by decide +kernel
  cases hrun : Session.run (runCalls 1 (Db.fresh 1) clearedElsewhere)
      (setHostLogin deviceOne 5 ['u'] [] (some [1])) with
  | mk answer db' =>
    rw [hrun] at hnone
    cases answer with
    | error e =>
      have herr : (Session.run (runCalls 1 (Db.fresh 1) clearedElsewhere)
          (setHostLogin deviceOne 5 ['u'] [] (some [1]))).1.isOk = true := by decide +kernel
      rw [hrun] at herr
      cases herr
    | ok record =>
      obtain ⟨login, hl, -⟩ := hall deviceOne 1 clearedElsewhere 5 ['u'] [] (some [1]) record db' hrun (by decide)
      rw [hnone] at hl
      cases hl

end UwuRdp
