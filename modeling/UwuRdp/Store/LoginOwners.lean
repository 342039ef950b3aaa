import UwuRdp.Store.LoginUse

/-!
# Changing one login never changes another's

Three kinds of owners point at logins, and other devices' records may leave one login with several.
Whatever edit is made of one owner's login, every other owner resolves to the username, domain and
password it did before. What does not always hold is that a login nobody points at any more goes: a
host whose own login and whose gateway's are one and the same gets two copies, and the original
stays behind (`ownersKept_iff`).
-/

namespace UwuRdp

open Lib

variable {cx : Session} {db db' db₁ : Db} {i j t : Uuid} {current : Option Uuid}
  {change : LoginChange} {a : AppliedLogin}

/-! ## Owners -/

/-- What points at a login. -/
inductive Owner where
  | host (id : Uuid)
  | gateway (id : Uuid)
  | group (id : Uuid)
deriving DecidableEq

def Owner.login (db : Db) : Owner → Option Uuid
  | .host id => (liveHost db id).bind fun r => r.body.identityId
  | .gateway id => (liveHost db id).bind fun r => r.body.gatewayIdentityId
  | .group g => ((db.row .group g).filter fun r => !r.deleted).bind fun r => r.body.identityId

/-- A username, a domain, and what revealing the password gives. -/
abbrev Credentials := Text × Text × Except StoreError (Option Payload)

def credentials (db : Db) (vault : Option UnlockedVault) (identity : Option Uuid) :
    Option Credentials :=
  (resolved db identity false).map fun l => (l.username, l.domain, revealLoginPassword db vault l)

variable {k : EntityKind} {identities : List Uuid} {g : Uuid}

variable {r r' : Row (Body k)} {o : Owner} {x : Uuid}

theorem points_add_le_references {k' : EntityKind} {id id' : Uuid}
    {r' : Row (Body k')} (hr : db.row k id = some r) (hr' : db.row k' id' = some r')
    (hne : ¬(k' = k ∧ id' = id)) (i : Uuid) : points k r i + points k' r' i ≤ references db i := by
  have hset := references_setRow db k id { r with deleted := true } i
  have hzero : points k { r with deleted := true } i = 0 := by
    cases k <;> rfl
  have hle := @points_le_references (db.setRow k id { r with deleted := true }) _ _ _
    ((Db.row_setRow_ne hne).trans hr') i
  rw [hr, Option.elim_some, hzero] at hset
  omega

def Owner.row : Owner → EntityKind × Uuid
  | .host id => (.host, id)
  | .gateway id => (.host, id)
  | .group g => (.group, g)

theorem Owner.points_pos (h : o.login db = some j) :
    ∃ r, db.row o.row.1 o.row.2 = some r ∧ 1 ≤ points o.row.1 r j := by
  cases o with
  | host id | gateway id =>
    obtain ⟨r, hr, hj⟩ := Option.bind_eq_some_iff.mp h
    obtain ⟨hrow, hlive⟩ := liveHost_some hr
    refine ⟨r, hrow, ?_⟩
    show 1 ≤ points .host r j
    simp [points, hlive, hj]
  | group g =>
    obtain ⟨r, hr, hj⟩ := Option.bind_eq_some_iff.mp h
    obtain ⟨hrow, hlive⟩ := Option.filter_eq_some_iff.mp hr
    refine ⟨r, hrow, ?_⟩
    show 1 ≤ points .group r j
    simp [points, hlive, hj]

theorem Owner.login_congr (h : db'.row o.row.1 o.row.2 = db.row o.row.1 o.row.2) : o.login db' = o.login db := by
  cases o with
  | host id | gateway id => simp only [login, liveHost, show db'.row .host id = db.row .host id from h]
  | group g => simp only [login, show db'.row .group g = db.row .group g from h]

/-! ## What a kept login comes to -/

def SecretThere (db : Db) (i : Uuid) : Prop :=
  ∀ r t, db.row .identity i = some r → r.body.passwordSecretId = some t → (db.row .secret t).isSome

theorem secretThere (hc : RefsClosed db) (i : Uuid) : SecretThere db i :=
  fun r t hr ht => hc .identity i r hr (.secret, t) (by simp [Body.refs, ht])

theorem credentials_live {r : Row IdentityBody} (hr : db.row .identity i = some r)
    (hd : r.deleted = false) (hn : r.body.username ≠ []) (vault : Option UnlockedVault) :
    credentials db vault (some i) = some (r.body.username, r.body.domain,
      match r.body.passwordSecretId with
      | none => .ok none
      | some t => (revealSecret db vault t).map some) := by
  have hname : (!r.deleted && !r.body.username.isEmpty) = true := by
    rw [hd, Bool.not_false, Bool.true_and, Bool.not_eq_true', List.isEmpty_eq_false_iff]
    exact hn
  unfold credentials resolved
  rw [Option.bind_some, hr, Option.filter_some, if_pos hname, Option.map_some, Option.map_some]
  simp only [revealLoginPassword, hr, Option.filter_some, hd, Bool.not_false, if_true, Option.bind_some]
  cases r.body.passwordSecretId with
  | none => rfl
  | some t => simp only [if_true]

theorem credentials_none (h : ∀ i r, current = some i → db.row .identity i = some r →
    r.deleted = false → r.body.username = []) (vault : Option UnlockedVault) :
    credentials db vault current = none := by
  unfold credentials resolved
  cases current with
  | none => rfl
  | some i =>
    rw [Option.bind_some]
    cases hr : db.row .identity i with
    | none => rfl
    | some r =>
      cases hd : r.deleted with
      | true => simp [hd]
      | false => simp [hd, h i r rfl hr hd]

theorem revealSecret_congr (h : db'.row .secret t = db.row .secret t)
    (vault : Option UnlockedVault) : revealSecret db' vault t = revealSecret db vault t := by
  unfold revealSecret
  rw [h]

theorem credentials_kept (hs : SecretThere db i) (h : LoginKept db db' i) (vault : Option UnlockedVault) : credentials
    db' vault (some i) = credentials db vault (some i) := by
  by_cases hlive : ∃ r, db.row .identity i = some r ∧ r.deleted = false ∧ r.body.username ≠ []
  · obtain ⟨r, hr, hd, hn⟩ := hlive
    rw [credentials_live hr hd hn, credentials_live (h.row.trans hr) hd hn]
    cases ht : r.body.passwordSecretId with
    | none => rfl
    | some t =>
      obtain ⟨p, hp⟩ := Option.isSome_iff_exists.mp (hs r t hr ht)
      simp only [revealSecret_congr ((h.secret r t p hr hd ht hp).trans hp.symm)]
  · have hnone : ∀ r, db.row .identity i = some r → r.deleted = false → r.body.username = [] :=
      fun r hr hd => by_contra fun hn => hlive ⟨r, hr, hd, hn⟩
    rw [@credentials_none db _ fun j r hj hr hd => by cases hj; exact hnone r hr hd,
      @credentials_none db' _ fun j r hj hr hd => by
        cases hj
        exact hnone r (h.row.symm.trans hr) hd]

/-! ## A form that keeps a login -/

/-- The form says of a login what it is already. -/
structure KeepsLogin (db : Db) (current : Option Uuid) (change : LoginChange) : Prop where
  password : change.password = .keep
  username : Text.trim change.username = (readLogin db current).username
  domain : Text.trim change.domain = (readLogin db current).domain

theorem readLogin_username (h : (readLogin db current).username ≠ []) : ∃ i r, current = some i ∧ db.row .identity i =
    some r ∧ r.deleted = false ∧ (readLogin db current).username = r.body.username ∧ (readLogin db current).domain =
    r.body.domain := by
  unfold readLogin at h ⊢
  cases hb : current.bind fun i => (db.row .identity i).filter fun r => !r.deleted with
  | none => rw [hb] at h; exact absurd rfl h
  | some r =>
    obtain ⟨i, hi, hf⟩ := Option.bind_eq_some_iff.mp hb
    obtain ⟨hr, hd⟩ := Option.filter_eq_some_iff.mp hf
    exact ⟨i, r, hi, hr, by simpa using hd, rfl, rfl⟩

theorem readLogin_live {r : Row IdentityBody} (hr : db.row .identity i = some r)
    (hd : r.deleted = false) : (readLogin db (some i)).username = r.body.username := by
  unfold readLogin
  rw [Option.bind_some, hr, Option.filter_some, hd]
  rfl

theorem AppliesLogin.secrets_keep (h : AppliesLogin cx current change db db' a)
    (hp : change.password = .keep) : db'.rows .secret = db.rows .secret := by
  cases h with
  | drops _ hr => rw [hr]
  | @gives i secret db₁ db₂ _ hg hw hf =>
    rw [hp] at hg hf
    cases hg with
    | keep hr =>
      rw [show db'.rows = db₂.rows from hf, hw.rows_ne (by decide), hr]

theorem AppliesLogin.secret_keep {r : Row IdentityBody}
    (h : AppliesLogin cx current change db db' ⟨some x, none⟩) (hp : change.password = .keep)
    (hr : db'.row .identity x = some r) : r.body.passwordSecretId = oldSecret db current := by
  cases h with
  | @gives _ secret db₁ db₂ _ hg hw hf =>
    rw [hp] at hg hf
    cases hg with
    | keep hrows =>
      rw [row_congr (show db'.rows = db₂.rows from hf)] at hr
      cases hw with
      | own _ _ _ hset =>
        rw [row_congr hset, Db.row_setRow_self] at hr
        cases hr
        rfl
      | missing _ _ hnone hsame =>
        rw [row_congr hsame, hnone] at hr
        cases hr
      | new _ _ hset =>
        rw [row_congr hset, Db.row_setRow_self] at hr
        cases hr
        rfl

theorem AppliesLogin.keeps (h : AppliesLogin cx current change db db' a) (hk : KeepsLogin db current change)
    (vault : Option UnlockedVault) : credentials db' vault a.identity = credentials db vault current := by
  have hsecrets := h.secrets_keep hk.password
  by_cases hn : Text.trim change.username = []
  · rw [@credentials_none _ current fun i r hi hr hd => by
      rw [← readLogin_live hr hd, ← hi, ← hk.username, hn]]
    cases h with
    | drops => rfl
    | gives hne => exact absurd hn hne
  · obtain ⟨i, r, rfl, hr, hd, hu, hdom⟩ := readLogin_username (hk.username ▸ hn)
    have hreuse : Reusable db (some i) := by
      intro j hj _
      cases hj
      exact ⟨r, hr, hd⟩
    obtain ⟨x, rfl, hgiven, -⟩ := h.given hn
    obtain ⟨r', hg⟩ := hgiven hreuse
    have hname' : r'.body.username = r.body.username := by
      rw [hg.username, hk.username, hu]
    have hdom' : r'.body.domain = r.body.domain := by
      rw [hg.domain, hk.domain, hdom]
    have hsec : r'.body.passwordSecretId = r.body.passwordSecretId := by
      rw [h.secret_keep hk.password hg.row]
      unfold oldSecret
      rw [Option.bind_some, hr, Option.bind_some]
    have hnr : r.body.username ≠ [] := by
      rw [← hu, ← hk.username]
      exact hn
    rw [credentials_live hr hd hnr, credentials_live hg.row hg.live (hname' ▸ hnr), hname', hdom', hsec]
    cases r.body.passwordSecretId with
    | none => rfl
    | some t =>
      simp only
      rw [revealSecret_congr]
      unfold Db.row
      rw [hsecrets]

/-! ## Other owners -/

/-- A login that some row of the database points at, other than the ones an edit is about. -/
structure Elsewhere (edited : EntityKind × Uuid) (row : EntityKind × Uuid) (j : Uuid) (db : Db) :
    Prop where
  ne : row ≠ edited
  there : (db.row .identity j).isSome
  points : ∃ r, db.row row.1 row.2 = some r ∧ 1 ≤ points row.1 r j

variable {edited row : EntityKind × Uuid}

theorem Elsewhere.references_pos (h : Elsewhere edited row j db) : 0 < references db j := by
  obtain ⟨r, hr, hp⟩ := h.points
  exact lt_of_lt_of_le hp (points_le_references hr j)

theorem Elsewhere.shared (h : Elsewhere edited row j db) {r : Row (Body edited.1)}
    (hr : db.row edited.1 edited.2 = some r) (hp : 1 ≤ UwuRdp.points edited.1 r j) : 1 < references db j := by
  obtain ⟨r', hr', hp'⟩ := h.points
  have hle := points_add_le_references hr hr' (fun he => h.ne (Prod.ext he.1 he.2)) j
  omega

theorem Elsewhere.of_rows (h : Elsewhere edited row j db) (hr : db'.row row.1 row.2 = db.row row.1 row.2)
    (hi : (db.row .identity j).isSome → (db'.row .identity j).isSome) : Elsewhere edited row j db' :=
  ⟨h.ne, hi h.there, by rw [hr]; exact h.points⟩

theorem Elsewhere.ne_login (h : Elsewhere edited row j db) : row.1 ≠ .identity ∧ row.1 ≠ .secret := by
  obtain ⟨r, -, hp⟩ := h.points
  obtain ⟨k, id⟩ := row
  constructor <;> rintro rfl <;> cases hp

theorem AppliesLogin.elsewhere (h : AppliesLogin cx current change db db' a)
    (he : Elsewhere edited row j db) : Elsewhere edited row j db' := by
  refine he.of_rows ?_ h.identity_isSome
  unfold Db.row
  rw [h.rows_ne he.ne_login.1 he.ne_login.2]

theorem AppliesLogin.kept_elsewhere (h : AppliesLogin cx current change db db' a) (he : Elsewhere edited row j db)
    (hr : ∀ i, current = some i → ∃ r, db.row edited.1 edited.2 = some r ∧ 1 ≤ points edited.1 r i) : LoginKept db db'
    j := by
  refine (h.loginKept he.there fun hc => ?_).1
  obtain ⟨r, hrow, hp⟩ := hr j hc
  exact he.shared hrow hp

theorem Saves.kept_elsewhere {d : HostDraft} {id : Uuid} (h : Saves cx d db db' id)
    (he : Elsewhere (.host, id) row j db) : LoginKept db db' j ∧ db'.row row.1 row.2 = db.row row.1 row.2 := by
  cases h with
  | @mk existing workspace position group own gateway db₁ db₂ db₃ db₄ steps =>
    obtain ⟨was, -, found, -, login, through, wrote, released⟩ := steps
    have hhost₁ : db₁.rows .host = db.rows .host := found.rows_ne (by decide)
    have hident : ∀ k, k ≠ EntityKind.group → db₁.rows k = db.rows k := fun k hk => found.rows_ne hk
    -- The edited row points at both of the logins that are edited.
    have hpoints : ∀ (r : Row HostBody), existing = some r → db.row .host id = some r ∧ r.deleted = false := by
      intro r hr
      cases wrote with
      | edited hid hwas =>
        obtain ⟨host, hhost, hlive⟩ := was.live hr
        rw [hid] at hhost
        cases hhost
        exact liveHost_some hlive
      | added hnone => rw [hnone] at hr; cases hr
    have hrow₁ : db₁.row row.1 row.2 = db.row row.1 row.2 := by
      obtain ⟨r, hr, -⟩ := he.points
      by_cases hk : row.1 = .group
      · obtain ⟨k, g⟩ := row
        cases hk
        rw [hr]
        exact found.group_some hr
      · unfold Db.row
        rw [hident row.1 hk]
    have he₁ : Elsewhere (.host, id) row j db₁ := he.of_rows hrow₁ (by
      unfold Db.row
      rw [hident .identity (by decide)]
      exact fun h => h)
    have hk₁ : LoginKept db db₁ j := .of_rows (hident _ (by decide)) (hident _ (by decide)) j
    have hk₂ : LoginKept db₁ db₂ j := by
      refine login.kept_elsewhere he₁ fun i hi => ?_
      obtain ⟨r, hr, hi⟩ := Option.bind_eq_some_iff.mp hi
      obtain ⟨hrow, hlive⟩ := hpoints r hr
      refine ⟨r, ?_, show 1 ≤ points .host r i by simp [points, hlive, hi]⟩
      show db₁.row .host id = some r
      unfold Db.row
      rw [hhost₁]
      exact hrow
    have he₂ := login.elsewhere he₁
    have hk₃ : LoginKept db₂ db₃ j := by
      refine through.kept_elsewhere he₂ fun i hi => ?_
      obtain ⟨r, hr, hi⟩ := Option.bind_eq_some_iff.mp hi
      obtain ⟨hrow, hlive⟩ := hpoints r hr
      refine ⟨r, ?_, show 1 ≤ points .host r i by simp [points, hlive, hi]⟩
      show db₂.row .host id = some r
      unfold Db.row
      rw [login.rows_ne (by decide) (by decide), hhost₁]
      exact hrow
    have he₃ := through.elsewhere he₂
    have hrow₄ : db₄.row row.1 row.2 = db₃.row row.1 row.2 := by
      by_cases hk : row.1 = .host
      · obtain ⟨k, i⟩ := row
        cases hk
        have hne : i ≠ id := fun heq => he.ne (by rw [heq])
        cases wrote with
        | edited _ _ _ hrows | added _ _ hrows => rw [row_congr hrows, Db.row_setRow_ne_id hne]
      · unfold Db.row
        rw [wrote.rows_ne hk]
    have hk₄ : LoginKept db₃ db₄ j := .of_rows (wrote.rows_ne (by decide)) (wrote.rows_ne (by decide)) j
    have he₄ : Elsewhere (.host, id) row j db₄ := he₃.of_rows hrow₄ (by
      unfold Db.row
      rw [wrote.rows_ne (by decide)]
      exact fun h => h)
    refine ⟨hk₁.trans (hk₂.trans (hk₃.trans (hk₄.trans (released.loginKept fun _ => he₄.references_pos)))), ?_⟩
    have hlast : db'.row row.1 row.2 = db₄.row row.1 row.2 := by
      unfold Db.row
      rw [released.rows_ne he.ne_login.1 he.ne_login.2]
    have hmid : db₃.row row.1 row.2 = db₁.row row.1 row.2 := by
      unfold Db.row
      rw [through.rows_ne he.ne_login.1 he.ne_login.2, login.rows_ne he.ne_login.1 he.ne_login.2]
    rw [hlast, hrow₄, hmid, hrow₁]

theorem kept_elsewhere_of_steps {db₂ : Db} {id : Uuid} (login : AppliesLogin cx current change db db₁ a)
    (hr : ∀ i, current = some i → ∃ r, db.row k id = some r ∧ 1 ≤ points k r i) (hi : k ≠ .identity)
    (hs : k ≠ .secret) (rows : db₂.rows = (db₁.setRow k id r').rows) (released : ReleasesAll identities db₂ db')
    (he : Elsewhere (k, id) row j db) : LoginKept db db' j ∧ db'.row row.1 row.2 = db.row row.1 row.2 := by
  have he₁ := login.elsewhere he
  have hident : ∀ k', k' ≠ k → db₂.rows k' = db₁.rows k' := fun k' hk => by
    rw [rows, rows_setRow_ne hk]
  have hrow₂ : db₂.row row.1 row.2 = db₁.row row.1 row.2 := by
    rw [row_congr rows]
    exact Db.row_setRow_ne fun h => he.ne (Prod.ext h.1 h.2)
  have he₂ : Elsewhere (k, id) row j db₂ := he₁.of_rows hrow₂ (by
    unfold Db.row
    rw [hident _ (Ne.symm hi)]
    exact fun h => h)
  have hk₂ : LoginKept db₁ db₂ j := .of_rows (hident _ (Ne.symm hi)) (hident _ (Ne.symm hs)) j
  refine ⟨(login.kept_elsewhere he hr).trans (hk₂.trans (released.loginKept fun _ => he₂.references_pos)), ?_⟩
  have hlast : db'.row row.1 row.2 = db₂.row row.1 row.2 := by
    unfold Db.row
    rw [released.rows_ne he.ne_login.1 he.ne_login.2]
  have hfirst : db₁.row row.1 row.2 = db.row row.1 row.2 := by
    unfold Db.row
    rw [login.rows_ne he.ne_login.1 he.ne_login.2]
  rw [hlast, hrow₂, hfirst]

theorem SetsLogin.kept_elsewhere {id : Uuid} (h : SetsLogin cx id change db db')
    (he : Elsewhere (.host, id) row j db) :
    LoginKept db db' j ∧ db'.row row.1 row.2 = db.row row.1 row.2 := by
  cases h with
  | @mk r a clock db₁ db₂ hrow live login rows released =>
    exact kept_elsewhere_of_steps (k := .host) login (fun i hi => ⟨r, hrow,
      show 1 ≤ points .host r i by simp [points, live, hi]⟩) (by decide) (by decide) rows released he

theorem SetsLogin.kept_gateway {id : Uuid} (hc : RefsClosed db) (h : SetsLogin cx id change db db')
    (hg : (Owner.gateway id).login db = some j) : LoginKept db db' j ∧ (Owner.gateway id).login db' = some j := by
  cases h with
  | @mk r a clock db₁ db₂ hrow live login rows released =>
    obtain ⟨r', hr', hg⟩ := Option.bind_eq_some_iff.mp hg
    obtain ⟨hrow', -⟩ := liveHost_some hr'
    rw [hrow] at hrow'
    cases hrow'
    have hk₁ : LoginKept db db₁ j := by
      refine (login.loginKept (login_isSome_of_host hc hr' (.inr hg)) fun howner => ?_).1
      have hle := points_le_references hrow j
      have htwo : points .host r j = 2 := by simp [points, live, howner, hg]
      omega
    have hend : liveHost db₂ id = some (r.rewrite clock fun b => { b with identityId := a.identity }) :=
      liveHost_setRow live rows
    refine ⟨hk₁.trans (LoginKept.trans (.of_rows ?_ ?_ j) (released.kept_of_host hend (.inr hg))), ?_⟩
    · rw [rows, rows_setRow_ne (by decide)]
    · rw [rows, rows_setRow_ne (by decide)]
    · show (liveHost db' id).bind _ = some j
      rw [liveHost_congr (released.rows_ne (by decide) (by decide)), hend, Option.bind_some]
      exact hg

theorem SetsGroupLogin.kept_elsewhere (h : SetsGroupLogin cx g change db db') (he : Elsewhere (.group, g) row j db) :
    LoginKept db db' j ∧ db'.row row.1 row.2 = db.row row.1 row.2 := by
  cases h with
  | @mk r a clock db₁ db₂ hrow live login rows released =>
    exact kept_elsewhere_of_steps (k := .group) login (fun i hi => ⟨r, hrow,
      show 1 ≤ points .group r i by simp [points, live, hi]⟩) (by decide) (by decide) rows released he

theorem DeletesHost.kept_elsewhere {id : Uuid} (h : DeletesHost id db db') (he : Elsewhere (.host, id) row j db) :
    LoginKept db db' j ∧ db'.row row.1 row.2 = db.row row.1 row.2 := by
  cases h with
  | @mk r clock db₁ hrow live rows released =>
    -- Nothing is done to a login before the row goes.
    have login : AppliesLogin (⟨0, none, fun _ => 0, fun _ => 0⟩ : Session) none ⟨[], [], .keep⟩ db
        db ⟨none, none⟩ := .drops rfl rfl
    exact kept_elsewhere_of_steps login (fun i hi => nomatch hi) (by decide) (by decide) rows released he

theorem Owner.elsewhere (hc : RefsClosed db) (h : o.login db = some j)
    (hne : o.row ≠ edited) : Elsewhere edited o.row j db := by
  refine ⟨hne, ?_, o.points_pos h⟩
  cases o with
  | host id =>
    obtain ⟨r, hr, hj⟩ := Option.bind_eq_some_iff.mp h
    exact login_isSome_of_host hc hr (.inl hj)
  | gateway id =>
    obtain ⟨r, hr, hj⟩ := Option.bind_eq_some_iff.mp h
    exact login_isSome_of_host hc hr (.inr hj)
  | group g =>
    obtain ⟨r, hr, hj⟩ := Option.bind_eq_some_iff.mp h
    exact login_isSome_of_group hc (Option.filter_eq_some_iff.mp hr).1 hj

theorem KeepsLogin.congr (h : KeepsLogin db current change)
    (hi : ∀ i, current = some i → db'.row .identity i = db.row .identity i) : KeepsLogin db' current change := by
  have hread : readLogin db' current = readLogin db current := by
    cases current with
    | none => rfl
    | some i =>
      unfold readLogin
      rw [Option.bind_some, Option.bind_some, hi i rfl]
  exact ⟨h.password, hread ▸ h.username, hread ▸ h.domain⟩

theorem SecretThere.of_keep (hc : RefsClosed db) (hr : ∀ i, db₁.row .identity i = db.row .identity i)
    (hs : db₁.rows .secret = db.rows .secret) (h : AppliesLogin cx current change db₁ db' ⟨some x, none⟩)
    (hp : change.password = .keep) : SecretThere db' x := by
  intro r t hrow ht
  rw [h.secret_keep hp hrow] at ht
  obtain ⟨i, rfl, hi⟩ := Option.bind_eq_some_iff.mp ht
  obtain ⟨r', hr', ht'⟩ := Option.bind_eq_some_iff.mp hi
  unfold Db.row
  rw [h.secrets_keep hp, hs]
  exact secretThere hc i r' t ((hr i).symm.trans hr') ht'

namespace SaveSteps

variable {d : HostDraft} {existing : Option (Row HostBody)} {workspace : Workspace} {position : ℤ}
  {group : Option Uuid} {own gateway : AppliedLogin} {db₂ db₃ db₄ : Db} {id : Uuid}

section Saving

variable (h : SaveSteps cx d existing workspace position group own gateway db db₁ db₂ db₃ db₄ db' id)

include h

theorem login_isSome (hc : RefsClosed db)
    (hi : existing.bind (fun r => r.body.identityId) = some i ∨
      existing.bind (fun r => r.body.gatewayIdentityId) = some i) :
    (db.row .identity i).isSome := by
  rcases hi with hi | hi
  · obtain ⟨r, hr, hi⟩ := Option.bind_eq_some_iff.mp hi
    obtain ⟨host, -, hlive⟩ := h.was.live hr
    exact login_isSome_of_host hc hlive (.inl hi)
  · obtain ⟨r, hr, hi⟩ := Option.bind_eq_some_iff.mp hi
    obtain ⟨host, -, hlive⟩ := h.was.live hr
    exact login_isSome_of_host hc hlive (.inr hi)

theorem keeps_own (hc : RefsClosed db)
    (hk : KeepsLogin db (existing.bind fun r => r.body.identityId) ⟨d.username, d.domain, d.password⟩)
    (vault : Option UnlockedVault) : credentials db' vault own.identity = credentials db vault
    (existing.bind fun r => r.body.identityId) := by
  have hrow₁ := h.row₁ (k := .identity) (by decide)
  have hs₁ : db₁.rows .secret = db.rows .secret := h.found.rows_ne (by decide)
  have hk₁ := hk.congr fun i _ => hrow₁ i
  have hstart : credentials db₁ vault (existing.bind fun r => r.body.identityId) =
      credentials db vault (existing.bind fun r => r.body.identityId) := by
    cases hcur : existing.bind fun r => r.body.identityId with
    | none => rfl
    | some i =>
      exact credentials_kept (secretThere hc i) (.of_rows (h.found.rows_ne (by decide)) hs₁ i) vault
  rw [← hstart, ← h.login.keeps hk₁ vault]
  cases hx : own.identity with
  | none => rfl
  | some x =>
    have hlogin := h.login
    rw [hlogin.eq_of_identity hx] at hlogin
    refine credentials_kept (.of_keep hc hrow₁ hs₁ hlogin hk.password) (h.kept_own hc hx ?_) vault
    refine hlogin.given_isSome rfl fun j hj => ?_
    rw [hrow₁]
    exact h.login_isSome hc (.inl hj)

theorem keeps_gateway (hc : RefsClosed db)
    (hk : KeepsLogin db (existing.bind fun r => r.body.gatewayIdentityId)
      ⟨d.gatewayUsername, d.gatewayDomain, d.gatewayPassword⟩) (vault : Option UnlockedVault) :
    credentials db' vault gateway.identity =
      credentials db vault (existing.bind fun r => r.body.gatewayIdentityId) := by
  -- Its login is not the host's own, or has two owners: the step before leaves it alone.
  have hk₂ : ∀ g, existing.bind (fun r => r.body.gatewayIdentityId) = some g → LoginKept db db₂ g := by
    intro g hg
    have hsome := h.login_isSome hc (.inr hg)
    refine LoginKept.trans (.of_rows (h.found.rows_ne (by decide)) (h.found.rows_ne (by decide)) g)
      (h.login.loginKept (by rw [h.row₁ (by decide)]; exact hsome) fun howner => ?_).1
    obtain ⟨r, hr, howner⟩ := Option.bind_eq_some_iff.mp howner
    rw [hr, Option.bind_some] at hg
    obtain ⟨host, -, hlive⟩ := h.was.live hr
    obtain ⟨hrow, hd⟩ := liveHost_some hlive
    have hle := points_le_references hrow g
    have htwo : points .host r g = 2 := by simp [points, hd, howner, hg]
    rw [h.found.references_eq]
    omega
  have hstart : credentials db₂ vault (existing.bind fun r => r.body.gatewayIdentityId) =
      credentials db vault (existing.bind fun r => r.body.gatewayIdentityId) := by
    cases hcur : existing.bind fun r => r.body.gatewayIdentityId with
    | none => rfl
    | some g => exact credentials_kept (secretThere hc g) (hk₂ g hcur) vault
  rw [← hstart, ← h.through.keeps (hk.congr fun g hg => (hk₂ g hg).row) vault]
  cases hx : gateway.identity with
  | none => rfl
  | some x =>
    have hthrough := h.through
    rw [hthrough.eq_of_identity hx] at hthrough
    refine credentials_kept (fun r t hr ht => ?_) (h.kept_gateway hx) vault
    -- The password it keeps is one that was there.
    rw [hthrough.secret_keep hk.password hr] at ht
    obtain ⟨g, hg, hi⟩ := Option.bind_eq_some_iff.mp ht
    obtain ⟨r', hr', ht'⟩ := Option.bind_eq_some_iff.mp hi
    unfold Db.row
    rw [hthrough.secrets_keep hk.password]
    refine h.login.secret_isSome ?_
    rw [h.row₁ (by decide)]
    exact secretThere hc g r' t ((hk₂ g hg).row.symm.trans hr') ht'

end Saving

end SaveSteps

/-! ## Logins that are let go -/

theorem secretUsed_iff : secretUsed db t = true ↔ ∃ j r, db.row .identity j = some r ∧
    r.deleted = false ∧ r.body.passwordSecretId = some t := by
  constructor
  · intro h
    obtain ⟨p, hp⟩ := Option.isSome_iff_exists.mp h
    obtain ⟨hr, hc⟩ := Table.find?_some (i := p.1) (a := p.2) hp
    simp only [Bool.and_eq_true, Bool.not_eq_true', decide_eq_true_eq] at hc
    exact ⟨p.1, p.2, hr, hc.1, hc.2⟩
  · rintro ⟨j, r, hr, hd, ht⟩
    exact secretUsed_of_row hr hd ht

def SecretSettled (db : Db) (t : Uuid) : Prop :=
  secretUsed db t = true ∨ ∀ p, db.row .secret t = some p → p.deleted = true

theorem ForgetsAny.settled {o : Option Uuid} (h : ForgetsAny o db db') (ht : SecretSettled db t ∨ o = some t) :
    SecretSettled db' t := by
  have hi : db'.rows .identity = db.rows .identity := h.rows_ne (by decide)
  by_cases hu : secretUsed db t = true
  · exact .inl ((secretUsed_congr hi t).trans hu)
  · refine .inr fun p hp => ?_
    have hu : secretUsed db t = false := Bool.not_eq_true _ ▸ hu
    by_cases ho : o = some t
    · subst ho
      exact Forgets.secret_dead h hu hp
    · rw [h.secret_ne ho] at hp
      rcases ht with (ht | ht) | ht
      · rw [hu] at ht
        cases ht
      · exact ht p hp
      · exact absurd ht ho

theorem Releases.dead (h : Releases i db db') (hj : Dead db j) : Dead db' j := by
  cases h with
  | kept _ hr | gone _ _ hr => exact fun r hrow => hj r ((row_congr hr _ _).symm.trans hrow)
  | dropped _ hrow hlive hr hf =>
    intro r hr'
    rw [(hf.kept j).row, row_congr hr] at hr'
    by_cases he : j = i
    · subst he
      rw [Db.row_setRow_self] at hr'
      cases hr'
      rfl
    · rw [Db.row_setRow_ne_id he] at hr'
      exact hj r hr'

theorem Releases.settled (h : Releases i db db') (ht : SecretSettled db t) : SecretSettled db' t := by
  have same : db'.rows = db.rows → SecretSettled db' t := by
    intro hr
    rcases ht with ht | ht
    · exact Or.inl ((secretUsed_congr (by rw [hr]) t).trans ht)
    · exact .inr fun p hp => ht p ((row_congr hr _ _).symm.trans hp)
  cases h with
  | kept _ hr | gone _ _ hr => exact same hr
  | @dropped r clock db₁ _ hrow hlive hr hf =>
    refine hf.settled ?_
    rcases ht with ht | ht
    · -- Whoever uses it still does, unless it is the login that goes.
      obtain ⟨j, rj, hrj, hdj, htj⟩ := secretUsed_iff.mp ht
      by_cases he : j = i
      · subst he
        rw [hrow] at hrj
        cases hrj
        exact .inr htj
      · refine Or.inl (Or.inl (secretUsed_iff.mpr ⟨j, rj, ?_, hdj, htj⟩))
        rw [row_congr hr, Db.row_setRow_ne_id he]
        exact hrj
    · refine .inl (.inr fun p hp => ht p ?_)
      rw [row_congr hr, Db.row_setRow_ne_kind (by decide)] at hp
      exact hp

theorem Releases.lets_go (h : Releases i db db') (hfree : references db i = 0) : Dead db' i ∧ ∀ r t, db.row .identity
    i = some r → r.deleted = false → r.body.passwordSecretId = some t → SecretSettled db' t := by
  cases h with
  | kept howned => omega
  | gone _ hdead hr =>
    refine ⟨fun r hrow => hdead r ((row_congr hr _ _).symm.trans hrow), fun r t hrow hlive _ => ?_⟩
    rw [hdead r hrow] at hlive
    cases hlive
  | @dropped r clock db₁ _ hrow hlive hr hf =>
    refine ⟨fun r' hr' => ?_, fun r' t hr' _ ht => ?_⟩
    · rw [(hf.kept i).row, row_congr hr, Db.row_setRow_self] at hr'
      cases hr'
      rfl
    · rw [hrow] at hr'
      cases hr'
      exact hf.settled (.inr ht)

theorem ReleasesAll.dead (h : ReleasesAll identities db db') (hj : Dead db j) : Dead db' j := by
  induction h with
  | nil hr => exact fun r hrow => hj r ((row_congr hr _ _).symm.trans hrow)
  | cons first _ ih => exact ih (first.dead hj)

theorem ReleasesAll.settled (h : ReleasesAll identities db db') (ht : SecretSettled db t) : SecretSettled db' t := by
  induction h with
  | nil hr =>
    rcases ht with ht | ht
    · exact Or.inl ((secretUsed_congr (by rw [hr]) t).trans ht)
    · exact .inr fun p hp => ht p ((row_congr hr _ _).symm.trans hp)
  | cons first _ ih => exact ih (first.settled ht)

theorem ReleasesAll.lets_go (h : ReleasesAll identities db db') (hi : i ∈ identities) (hfree : references db i = 0) :
    Dead db' i ∧ ∀ r t, db.row .identity i = some r → r.deleted = false → r.body.passwordSecretId = some t →
    SecretSettled db' t := by
  induction h with
  | nil => cases hi
  | @cons j rest db db₁ db' first others ih =>
    have hfree₁ : references db₁ i = 0 := by
      rw [references_congr (first.rows_ne (by decide) (by decide)) (first.rows_ne (by decide) (by decide))]
      exact hfree
    by_cases he : i = j
    · subst he
      obtain ⟨hdead, hset⟩ := first.lets_go hfree
      refine ⟨others.dead hdead, fun r t hr hd ht => others.settled (hset r t hr hd ht)⟩
    · have hrow := (first.loginKept fun h => absurd h he).row
      obtain ⟨hdead, hset⟩ := ih ((List.mem_cons.mp hi).resolve_left he) hfree₁
      exact ⟨hdead, fun r t hr hd ht => hset r t (hrow.trans hr) hd ht⟩

/-- A live login that lost its last owner is a tombstone, and its password is settled. -/
def LetGo (db db' : Db) : Prop :=
  ∀ i r, db.row .identity i = some r → r.deleted = false → 0 < references db i →
    references db' i = 0 → Dead db' i ∧ ∀ t, r.body.passwordSecretId = some t → SecretSettled db' t

theorem AppliesLogin.release_or (h : AppliesLogin cx current change db db' a) (hc : current = some i)
    (hne : a.identity ≠ some i) : a.release = some i ∨ 1 < references db i := by
  cases h with
  | drops => exact .inl hc
  | @gives x secret db₁ db₂ _ hg hw hf =>
    cases hw with
    | own hcur | missing hcur => exact absurd (hcur.symm.trans hc) hne
    | new hshared =>
      refine .inr ?_
      rw [← @references_congr db _ (hg.rows_ne (by decide)) (hg.rows_ne (by decide))]
      exact hshared i hc

theorem AppliesLogin.release_of_empty (h : AppliesLogin cx current change db db' a)
    (hn : Text.trim change.username = []) : a.release = current := by
  cases h with
  | drops => rfl
  | gives hne => exact absurd hn hne

theorem references_of_rows {id : Uuid} {db₂ : Db}
    (hr : db₁.row k id = some r) (rows : db₂.rows = (db₁.setRow k id r').rows) (i : Uuid) :
    references db₂ i + points k r i = references db₁ i + points k r' i := by
  have hset := references_setRow db₁ k id r' i
  rw [hr, Option.elim_some] at hset
  rw [@references_congr (db₁.setRow k id r') _ (by rw [rows]) (by rw [rows])]
  exact hset

theorem letGo_of_release {db₂ : Db} (released : ReleasesAll identities db₂ db') {r : Row IdentityBody}
    (hr : db.row .identity i = some r) (hd : r.deleted = false) (hk : LoginKept db db₂ i) (hi : i ∈ identities)
    (hfree : references db₂ i = 0) : Dead db' i ∧ ∀ t, r.body.passwordSecretId = some t → SecretSettled db' t := by
  obtain ⟨hdead, hset⟩ := released.lets_go hi hfree
  exact ⟨hdead, fun t ht => hset r t (hk.row.trans hr) hd ht⟩

theorem ReleasesAll.references_eq (h : ReleasesAll identities db db')
    (i : Uuid) : references db' i = references db i :=
  references_congr (h.rows_ne (by decide) (by decide)) (h.rows_ne (by decide) (by decide)) i

theorem AppliesLogin.references_eq (h : AppliesLogin cx current change db db' a) (i : Uuid) :
    references db' i = references db i :=
  references_congr (h.rows_ne (by decide) (by decide)) (h.rows_ne (by decide) (by decide)) i

theorem DeletesHost.letGo {id : Uuid} (h : DeletesHost id db db') : LetGo db db' := by
  cases h with
  | @mk r clock db₁ hrow live rows released =>
    intro i ri hri hdi hpos hzero
    rw [released.references_eq] at hzero
    have hrefs := references_of_rows hrow rows i
    have hp : points .host (r.tombstone clock fun b => b) i = 0 := rfl
    refine letGo_of_release released hri hdi (.of_rows ?_ ?_ i) ?_ hzero
    · rw [rows, rows_setRow_ne (by decide)]
    · rw [rows, rows_setRow_ne (by decide)]
    · have hone : 0 < points .host r i := by omega
      simp only [points, live, Bool.not_false, Bool.true_and, decide_eq_true_eq] at hone
      rw [List.mem_append, Option.mem_toList, Option.mem_toList]
      by_cases hown : r.body.identityId = some i
      · exact .inl hown
      · rw [if_neg hown, Nat.zero_add] at hone
        exact Or.inr (by_contra fun hg => by rw [if_neg hg] at hone; cases hone)

theorem letGo_of_steps {id : Uuid} {db₂ : Db}
    (hk : k ≠ .identity) (hs : k ≠ .secret) (hrow : db.row k id = some r)
    (login : AppliesLogin cx current change db db₁ a)
    (rows : db₂.rows = (db₁.setRow k id r').rows)
    (released : ReleasesAll a.release.toList db₂ db')
    (hp : ∀ i, points k r' i = 0 → points k r i = if current = some i then 1 else 0)
    (hp' : ∀ i, points k r' i = 0 → a.identity ≠ some i) : LetGo db db' := by
  intro i ri hri hdi hpos hzero
  rw [released.references_eq] at hzero
  have hrow₁ : db₁.row k id = some r := by
    unfold Db.row
    rw [login.rows_ne hk hs]
    exact hrow
  have hrefs := references_of_rows hrow₁ rows i
  rw [login.references_eq] at hrefs
  have hnew : points k r' i = 0 := by
    have hle := @points_le_references db₂ k id r' (by rw [row_congr rows, Db.row_setRow_self]) i
    omega
  have hold := hp i hnew
  have hcur : current = some i := by
    by_contra hne
    rw [if_neg hne] at hold
    omega
  rw [if_pos hcur] at hold
  have hne := hp' i hnew
  have hkept : LoginKept db db₂ i := by
    refine (login.kept_of_ne hne).trans (.of_rows ?_ ?_ i)
    · rw [rows, rows_setRow_ne (Ne.symm hk)]
    · rw [rows, rows_setRow_ne (Ne.symm hs)]
  refine letGo_of_release released hri hdi hkept ?_ hzero
  rcases login.release_or hcur hne with hrel | hshared
  · rw [hrel]
    exact List.mem_singleton_self i
  · omega

theorem SetsLogin.letGo {id : Uuid} (h : SetsLogin cx id change db db') : LetGo db db' := by
  cases h with
  | @mk r a clock db₁ db₂ hrow live login rows released =>
    have hpoints : ∀ i, points .host (r.rewrite clock fun b => { b with identityId := a.identity }) i =
        (if a.identity = some i then 1 else 0) +
          if r.body.gatewayIdentityId = some i then 1 else 0 := fun i => by
      show (if (!r.deleted && decide (a.identity = some i)) = true then 1 else 0) +
        (if (!r.deleted && decide (r.body.gatewayIdentityId = some i)) = true then 1 else 0) = _
      simp [live]
    refine letGo_of_steps (k := .host) (by decide) (by decide) hrow login rows released
      (fun i hz => ?_) fun i hz => ?_
    · rw [hpoints] at hz
      simp only [points, live, Bool.not_false, Bool.true_and, decide_eq_true_eq]
      omega
    · rw [hpoints] at hz
      intro he
      rw [if_pos he] at hz
      omega

theorem SetsGroupLogin.letGo (h : SetsGroupLogin cx g change db db') : LetGo db db' := by
  cases h with
  | @mk r a clock db₁ db₂ hrow live login rows released =>
    have hpoints : ∀ i, points .group (r.rewrite clock fun b => { b with identityId := a.identity })
        i = if a.identity = some i then 1 else 0 := fun i => by
      show (if (!r.deleted && decide (a.identity = some i)) = true then 1 else 0) = _
      simp [live]
    refine letGo_of_steps (k := .group) (by decide) (by decide) hrow login rows released
      (fun i _ => ?_) fun i hz => ?_
    · simp [points, live]
    · rw [hpoints] at hz
      intro he
      rw [if_pos he] at hz
      cases hz

/-! ## Saving a host -/

/-- The host's own login and its gateway's are one live login that nobody else points at, and the
form names both. -/
def TwiceItsOwn (db : Db) (host : Option Uuid) (username gatewayUsername : Text) : Prop :=
  ∃ r i ri, host.bind (liveHost db) = some r ∧ r.body.identityId = some i ∧
    r.body.gatewayIdentityId = some i ∧ references db i = 2 ∧ db.row .identity i = some ri ∧
    ri.deleted = false ∧ Text.trim username ≠ [] ∧ Text.trim gatewayUsername ≠ []

theorem points_host {r : Row HostBody} (hd : r.deleted = false) (i : Uuid) : points .host r i =
    (if r.body.identityId = some i then 1 else 0) +
      if r.body.gatewayIdentityId = some i then 1 else 0 := by
  simp [points, hd]

namespace SaveSteps

variable {d : HostDraft} {existing : Option (Row HostBody)} {workspace : Workspace} {position : ℤ}
  {group : Option Uuid} {own gateway : AppliedLogin} {db₂ db₃ db₄ : Db} {id : Uuid}

section Saving1

variable (h : SaveSteps cx d existing workspace position group own gateway db db₁ db₂ db₃ db₄ db' id)

include h

theorem references₃ (i : Uuid) : references db₃ i = references db i := by
  rw [h.through.references_eq, h.login.references_eq, h.found.references_eq]

theorem references₄ (i : Uuid) :
    references db' i + (if existing.bind (fun r => r.body.identityId) = some i then 1 else 0) +
      (if existing.bind (fun r => r.body.gatewayIdentityId) = some i then 1 else 0) =
    references db i + (if own.identity = some i then 1 else 0) +
      if gateway.identity = some i then 1 else 0 := by
  rw [h.released.references_eq, ← h.references₃]
  cases hw : h.wrote with
  | @edited r clock hid hwas hrow rows =>
    obtain ⟨host, -, hlive⟩ := h.was.live hwas
    have hd : r.deleted = false := (liveHost_some hlive).2
    have hrefs := references_of_rows hrow rows i
    have hnew : points .host (r.rewrite clock fun b =>
        d.body workspace position group own.identity gateway.identity b.extra) i =
          (if own.identity = some i then 1 else 0) + if gateway.identity = some i then 1 else 0 :=
      points_host (r := r.rewrite clock fun b =>
        d.body workspace position group own.identity gateway.identity b.extra) hd i
    rw [points_host hd, hnew] at hrefs
    simp only [hwas, Option.bind_some]
    omega
  | @added clock hnone hnew rows =>
    have hset := references_setRow db₃ .host id (newRow clock
      (d.body workspace position group own.identity gateway.identity [])) i
    have hpoints : points .host (newRow clock (d.body workspace position group own.identity gateway.identity [])) i =
          (if own.identity = some i then 1 else 0) + if gateway.identity = some i then 1 else 0 :=
      points_host rfl i
    rw [hnew, Option.elim_none, hpoints] at hset
    rw [@references_congr (db₃.setRow .host id (newRow clock
      (d.body workspace position group own.identity gateway.identity []))) _ (by rw [rows]) (by rw [rows])]
    simp only [hnone, Option.bind_none, reduceCtorEq, if_false]
    omega

theorem kept₄ (hown : own.identity ≠ some i) (hgateway : gateway.identity ≠ some i) : LoginKept db db₄ i := by
  refine LoginKept.trans (.of_rows (h.found.rows_ne (by decide)) (h.found.rows_ne (by decide)) i) ?_
  refine (h.login.kept_of_ne hown).trans ((h.through.kept_of_ne hgateway).trans ?_)
  exact .of_rows (h.wrote.rows_ne (by decide)) (h.wrote.rows_ne (by decide)) i

theorem letGo (hnot : ¬TwiceItsOwn db d.id d.username d.gatewayUsername) : LetGo db db' := by
  intro i ri hri hdi hpos hzero
  have hrefs := h.references₄ i
  have hfree : references db₄ i = 0 := by
    rw [← h.released.references_eq]
    exact hzero
  have hown : own.identity ≠ some i := by
    intro he
    obtain ⟨r', hr', -, ho, -⟩ := h.saved
    have hle := points_le_references (liveHost_some hr').1 i
    rw [points_host (liveHost_some hr').2, ho, if_pos he] at hle
    omega
  have hgateway : gateway.identity ≠ some i := by
    intro he
    obtain ⟨r', hr', -, -, hg⟩ := h.saved
    have hle := points_le_references (liveHost_some hr').1 i
    rw [points_host (liveHost_some hr').2, hg, if_pos he] at hle
    omega
  rw [if_neg hown, if_neg hgateway] at hrefs
  refine letGo_of_release h.released hri hdi (h.kept₄ hown hgateway) ?_ hfree
  rw [List.mem_append, Option.mem_toList, Option.mem_toList]
  by_cases hco : existing.bind (fun r => r.body.identityId) = some i
  · by_cases hn : Text.trim d.username = []
    · exact .inl ((h.login.release_of_empty hn).trans hco)
    by_cases hng : Text.trim d.gatewayUsername = [] ∧
        existing.bind (fun r => r.body.gatewayIdentityId) = some i
    · exact .inr ((h.through.release_of_empty hng.1).trans hng.2)
    rcases h.login.release_or hco hown with hrel | hshared
    · exact .inl hrel
    · -- The host had it twice and both are named: the one case left out.
      rw [h.found.references_eq] at hshared
      have hcg : existing.bind (fun r => r.body.gatewayIdentityId) = some i := by
        by_contra hne
        rw [if_pos hco, if_neg hne] at hrefs
        omega
      rw [if_pos hco, if_pos hcg] at hrefs
      obtain ⟨r, hr, hi⟩ := Option.bind_eq_some_iff.mp hco
      obtain ⟨host, hid, hlive⟩ := h.was.live hr
      refine absurd ⟨r, i, ri, by rw [hid, Option.bind_some, hlive], hi, ?_, by omega, hri, hdi, hn,
        fun he => hng ⟨he, hcg⟩⟩ hnot
      rw [hr, Option.bind_some] at hcg
      exact hcg
  · have hcg : existing.bind (fun r => r.body.gatewayIdentityId) = some i := by
      by_contra hne
      rw [if_neg hco, if_neg hne] at hrefs
      omega
    rw [if_neg hco, if_pos hcg] at hrefs
    rcases h.through.release_or hcg hgateway with hrel | hshared
    · exact .inr hrel
    · rw [h.login.references_eq, h.found.references_eq] at hshared
      omega

theorem not_letGo (htwice : TwiceItsOwn db d.id d.username d.gatewayUsername) : ¬LetGo db db' := by
  intro hgo
  obtain ⟨r, i, ri, hr, hi, hg, hrefs, hri, hdi, hn, hng⟩ := htwice
  have hex : existing = some r := by
    have := h.was.bind some
    rw [hr] at this
    simpa using this
  have hco : existing.bind (fun r => r.body.identityId) = some i := by rw [hex]; exact hi
  have hcg : existing.bind (fun r => r.body.gatewayIdentityId) = some i := by rw [hex]; exact hg
  have hsome : (db.row .identity i).isSome := by rw [hri]; rfl
  -- Both are copies, and nothing is let go of.
  have hown : own.identity ≠ some i := (h.login.loginKept (by rw [h.row₁ (by decide)]; exact hsome)
    fun _ => by rw [h.found.references_eq]; omega).2
  have hgateway : gateway.identity ≠ some i := by
    refine (h.through.loginKept (h.login.identity_isSome (by rw [h.row₁ (by decide)]; exact hsome)) fun _ => ?_).2
    rw [h.login.references_eq, h.found.references_eq]
    omega
  have hafter := h.references₄ i
  rw [if_pos hco, if_pos hcg, if_neg hown, if_neg hgateway] at hafter
  obtain ⟨x, hx, -⟩ := h.login.given hn
  obtain ⟨y, hy, -⟩ := h.through.given hng
  have hnothing : ReleasesAll [] db₄ db' := by
    have hrel := h.released
    rw [hx, hy] at hrel
    exact hrel
  have hlive := (h.kept₄ hown hgateway).trans (hnothing.loginKept fun hm => absurd hm List.not_mem_nil)
  have hdead := (hgo i ri hri hdi (by omega) (by omega)).1 ri (hlive.row.trans hri)
  rw [hdi] at hdead
  cases hdead

end Saving1

end SaveSteps

theorem FindsGroup.login_eq {workspace : Workspace} {path : Option Text} {group : Option Uuid}
    (h : FindsGroup workspace db db' path group) (o : Owner) : o.login db' = o.login db := by
  by_cases hrow : db'.row o.row.1 o.row.2 = db.row o.row.1 o.row.2
  · exact o.login_congr hrow
  · cases h with
    | ungrouped hr | found _ hr => exact absurd (row_congr hr _ _) hrow
    | @made name g clock position _ hn hr =>
      rw [row_congr hr] at hrow
      cases o with
      | host id => exact absurd (Db.row_setRow_ne_kind (show EntityKind.host ≠ .group by decide)) hrow
      | gateway id =>
        exact absurd (Db.row_setRow_ne_kind (show EntityKind.host ≠ .group by decide)) hrow
      | group g' =>
        by_cases hg : g' = g
        · subst hg
          simp only [Owner.login, row_congr hr, Db.row_setRow_self, hn]
          rfl
        · exact absurd (Db.row_setRow_ne_id hg) hrow

theorem Owner.row_ne (o : Owner) : o.row.1 ≠ .identity ∧ o.row.1 ≠ .secret := by
  cases o <;> constructor <;> intro h <;> cases h

theorem Owner.login_of_rows (o : Owner)
    (h : ∀ k, k ≠ .identity → k ≠ .secret → db'.rows k = db.rows k) : o.login db' = o.login db := by
  refine o.login_congr ?_
  unfold Db.row
  rw [h _ o.row_ne.1 o.row_ne.2]

theorem Owner.login_of_setRow {id : Uuid} (rows : db'.rows = (db.setRow k id r).rows)
    (hne : o.row ≠ (k, id)) : o.login db' = o.login db := by
  refine o.login_congr ?_
  rw [row_congr rows]
  exact Db.row_setRow_ne fun he => hne (Prod.ext he.1 he.2)

theorem Saves.login_eq {d : HostDraft} {id : Uuid} (h : Saves cx d db db' id)
    (hne : o.row ≠ (.host, id)) : o.login db' = o.login db := by
  cases h with
  | @mk existing workspace position group own gateway db₁ db₂ db₃ db₄ h =>
    have hwrote : o.login db₄ = o.login db₃ := by
      cases h.wrote with
      | edited _ _ _ rows | added _ _ rows => exact Owner.login_of_setRow rows hne
    rw [o.login_of_rows fun k hi hs => h.released.rows_ne hi hs, hwrote,
      o.login_of_rows fun k hi hs => h.through.rows_ne hi hs,
      o.login_of_rows fun k hi hs => h.login.rows_ne hi hs, h.found.login_eq]

theorem SetsLogin.login_eq {id : Uuid} (h : SetsLogin cx id change db db')
    (hne : o ≠ .host id) : o.login db' = o.login db := by
  cases h with
  | @mk r a clock db₁ db₂ hrow live login rows released =>
    have hwrote : o.login db₂ = o.login db₁ := by
      by_cases hrow' : o.row = (.host, id)
      · cases o with
        | host i => exact absurd (congrArg Owner.host (Prod.mk.inj hrow').2) hne
        | gateway i =>
          obtain rfl : i = id := (Prod.mk.inj hrow').2
          have hrow₁ : liveHost db₁ i = some r := by
            rw [liveHost_congr (login.rows_ne (by decide) (by decide))]
            unfold liveHost
            rw [hrow, Option.filter_some, live]
            rfl
          have hend : liveHost db₂ i = some (r.rewrite clock fun b => { b with identityId := a.identity }) :=
            liveHost_setRow live rows
          show (liveHost db₂ i).bind _ = (liveHost db₁ i).bind _
          rw [hend, hrow₁]
          rfl
        | group g => cases (Prod.mk.inj hrow').1
      · exact Owner.login_of_setRow rows hrow'
    rw [o.login_of_rows fun k hi hs => released.rows_ne hi hs, hwrote,
      o.login_of_rows fun k hi hs => login.rows_ne hi hs]

theorem SetsGroupLogin.login_eq (h : SetsGroupLogin cx g change db db')
    (hne : o ≠ .group g) : o.login db' = o.login db := by
  cases h with
  | @mk r a clock db₁ db₂ hrow live login rows released =>
    have hne' : o.row ≠ (.group, g) := by
      intro he
      cases o with
      | host | gateway => cases (Prod.mk.inj he).1
      | group => exact hne (congrArg Owner.group (Prod.mk.inj he).2)
    rw [o.login_of_rows fun k hi hs => released.rows_ne hi hs, Owner.login_of_setRow rows hne',
      o.login_of_rows fun k hi hs => login.rows_ne hi hs]

theorem DeletesHost.login_eq {id : Uuid} (h : DeletesHost id db db')
    (hne : o.row ≠ (.host, id)) : o.login db' = o.login db := by
  cases h with
  | @mk r clock db₁ hrow live rows released =>
    rw [o.login_of_rows fun k hi hs => released.rows_ne hi hs, Owner.login_of_setRow rows hne]

/-! ## What an edit of one owner does to the others -/

def Undisturbed (db db' : Db) (o : Owner) : Prop :=
  ∀ vault, credentials db' vault (o.login db') = credentials db vault (o.login db)

theorem undisturbed_of_kept (hc : RefsClosed db) (hlogin : o.login db' = o.login db)
    (hkept : ∀ j, o.login db = some j → LoginKept db db' j) : Undisturbed db db' o := by
  intro vault
  rw [hlogin]
  cases hj : o.login db with
  | none => rfl
  | some j => exact credentials_kept (secretThere hc j) (hkept j hj) vault

/-- What is promised of a save: every owner but the host's own two comes to what it did, those two
as far as the form keeps them, and a login that lost its last owner is let go. -/
structure OthersKept (draft : HostDraft) (id : Uuid) (db db' : Db) : Prop where
  others : ∀ o : Owner, o.row ≠ (.host, id) → Undisturbed db db' o
  own : KeepsLogin db (ownLogin db draft.id) ⟨draft.username, draft.domain, draft.password⟩ →
    ∀ vault, credentials db' vault ((Owner.host id).login db') =
      credentials db vault (ownLogin db draft.id)
  gateway : KeepsLogin db (draft.id.bind fun host => (Owner.gateway host).login db)
      ⟨draft.gatewayUsername, draft.gatewayDomain, draft.gatewayPassword⟩ →
    ∀ vault, credentials db' vault ((Owner.gateway id).login db') =
      credentials db vault (draft.id.bind fun host => (Owner.gateway host).login db)
  letGo : LetGo db db'

theorem Saves.othersKept_iff {d : HostDraft} {id : Uuid} (hc : RefsClosed db) (h : Saves cx d db db' id) : OthersKept
    d id db db' ↔ ¬TwiceItsOwn db d.id d.username d.gatewayUsername := by
  cases h with
  | @mk existing workspace position group own gateway db₁ db₂ db₃ db₄ steps =>
    have hsaves : Saves cx d db db' id := .mk steps
    have hown : ownLogin db d.id = existing.bind fun r => r.body.identityId :=
      (steps.was.bind fun r => r.body.identityId).symm
    have hgateway : (d.id.bind fun host => (Owner.gateway host).login db) =
        existing.bind fun r => r.body.gatewayIdentityId := by
      rw [steps.was.bind fun r => r.body.gatewayIdentityId, Option.bind_assoc]
      rfl
    obtain ⟨r', -, hr', ho, hg⟩ := steps.saved
    constructor
    · exact fun hkept htwice => steps.not_letGo htwice hkept.letGo
    · intro hnot
      refine ⟨fun o hne => ?_, fun hk vault => ?_, fun hk vault => ?_, steps.letGo hnot⟩
      · exact undisturbed_of_kept hc (hsaves.login_eq hne) fun j hj =>
          (hsaves.kept_elsewhere (o.elsewhere hc hj hne)).1
      · rw [hown] at hk ⊢
        rw [← steps.keeps_own hc hk vault, ← ho]
        show credentials db' vault ((liveHost db' id).bind _) = _
        rw [hr', Option.bind_some]
      · rw [hgateway] at hk ⊢
        rw [← steps.keeps_gateway hc hk vault, ← hg]
        show credentials db' vault ((liveHost db' id).bind _) = _
        rw [hr', Option.bind_some]

theorem OthersKept.congr [Platform] {d d' : HostDraft} {id : Uuid} (h : d.validated = .ok d') :
    OthersKept d' id db db' ↔ OthersKept d id db db' := by
  obtain ⟨hid, hu, hd, hp, hgu, hgd, hgp⟩ := validated_eq h
  constructor
  · rintro ⟨h₁, h₂, h₃, h₄⟩
    rw [hid, hu, hd, hp] at h₂
    rw [hid, hgu, hgd, hgp] at h₃
    exact ⟨h₁, h₂, h₃, h₄⟩
  · rintro ⟨h₁, h₂, h₃, h₄⟩
    rw [← hid, ← hu, ← hd, ← hp] at h₂
    rw [← hid, ← hgu, ← hgd, ← hgp] at h₃
    exact ⟨h₁, h₂, h₃, h₄⟩

theorem saveHost_othersKept [Platform] {draft : HostDraft} {record : HostRecord} {s s' : TxState}
    (hc : RefsClosed s.db) (h : saveHost cx draft s = .ok (record, s')) : OthersKept draft record.id s.db s'.db ↔
    ¬TwiceItsOwn s.db draft.id draft.username draft.gatewayUsername := by
  obtain ⟨d, id, hv, hsaves, hread⟩ := saveHost_ok h
  obtain ⟨hid, hu, -, -, hgu, -⟩ := validated_eq hv
  rw [id_of_readHost hread, ← OthersKept.congr hv, hsaves.othersKept_iff hc, hid, hu, hgu]

def oneLoginTwice : List StoreCall :=
  [.apply (some ⟨1, 7⟩) 1000 [sealedAt 900 7 .identity false
      (.identity ⟨['v'], ['v'], [], "password".toList, none, none, []⟩) 1,
    sealedAt 900 5 .host false
      (.host ⟨['h'], ['h'], 3389, "private".toList, 0, none, some 7, {}, some 7, [], []⟩) 2]]

def unchangedForm : HostDraft :=
  ⟨some 5, ['h'], ['h'], 3389, ['v'], [], none, none, .keep, {}, [], ['v'], [], .keep⟩

end UwuRdp
