import UwuRdp.Store.LoginOwners

/-!
# Saving a host as it is

The host form carries the group by name and the logins by username, while the rows hold ids. Where
the name leads back to the group and the logins are there to be read, a save with nothing edited
changes nothing: the host stays where it is, no other row is touched, and its logins stay the same
ones, except that a login somebody else uses too is copied on the first edit.
-/

namespace UwuRdp

open Lib

variable {cx : Session} {db db' db₁ : Db} {id i j t : Uuid} {current : Option Uuid} {keep : Bool}
  {change : LoginChange} {a : AppliedLogin}

/-! ## What is read -/

/-- What a form says of the password it does not change, and of the one it forgets. -/
def keepOrForget (keep : Bool) : PasswordChange := if keep then .keep else .forget

/-- The draft that saves a host as it is, its password kept or forgotten. -/
def HostRecord.again (keep : Bool) (host : HostRecord) : HostDraft :=
  { host.withoutPassword with password := keepOrForget keep }

/-- A login the form can show: live, with a username. -/
def LoginStands (db : Db) (current : Option Uuid) : Prop :=
  ∀ i, current = some i → ∃ r, db.row .identity i = some r ∧ r.deleted = false ∧
    Text.trim r.body.username ≠ []

theorem LoginStands.congr (h : LoginStands db current)
    (hr : ∀ i, current = some i → db'.row .identity i = db.row .identity i) : LoginStands db' current := by
  intro i hi
  obtain ⟨r, hrow, hd, hn⟩ := h i hi
  exact ⟨r, (hr i hi).trans hrow, hd, hn⟩

theorem readLogin_congr (hr : ∀ i, current = some i → db'.row .identity i = db.row .identity i) :
    readLogin db' current = readLogin db current := by
  cases current with
  | none => rfl
  | some i =>
    unfold readLogin
    rw [Option.bind_some, Option.bind_some, hr i rfl]

theorem readLogin_of_row {r : Row IdentityBody} (hr : db.row .identity i = some r) (hd : r.deleted = false) :
    readLogin db (some i) = ⟨r.body.username, r.body.domain, r.body.passwordSecretId.isSome⟩ := by
  unfold readLogin
  rw [Option.bind_some, hr, Option.filter_some, hd]
  rfl

/-! ## A login that is written back -/

/-- A login written back as it was read: none, the owner's own in place, or a copy of a shared one.
The password is kept, or it is forgotten. -/
inductive WritesBack (keep : Bool) (current : Option Uuid) (db db' : Db) : AppliedLogin → Prop
  | nothing (without : current = none) (rows : db'.rows = db.rows) :
      WritesBack keep current db db' ⟨none, none⟩
  | login {i x : Uuid} {r r' : Row IdentityBody} (owner : current = some i)
      (row : db.row .identity i = some r) (live : r.deleted = false)
      (named : Text.trim r.body.username ≠ [])
      (same : x = i ∧ references db i ≤ 1 ∨ 1 < references db i ∧ db.row .identity x = none)
      (given : db'.row .identity x = some r') (stays : r'.deleted = false)
      (username : r'.body.username = Text.trim r.body.username)
      (domain : r'.body.domain = Text.trim r.body.domain)
      (password : r'.body.passwordSecretId = if keep then r.body.passwordSecretId else none)
      (others : ∀ j, j ≠ x → db'.row .identity j = db.row .identity j)
      (secrets : ∀ t, (keep = true ∨ r.body.passwordSecretId ≠ some t ∨
        ∃ j rj, j ≠ x ∧ db.row .identity j = some rj ∧ rj.deleted = false ∧
          rj.body.passwordSecretId = some t) → db'.row .secret t = db.row .secret t)
      (tables : ∀ k, k ≠ .identity → k ≠ .secret → db'.rows k = db.rows k) :
      WritesBack keep current db db' ⟨some x, none⟩

theorem AppliesLogin.writesBack (h : AppliesLogin cx current change db db' a) (hs : LoginStands db current)
    (hu : change.username = (readLogin db current).username) (hd : change.domain = (readLogin db current).domain)
    (hp : change.password = keepOrForget keep) : WritesBack keep current db db' a := by
  cases hcur : current with
  | none =>
    subst hcur
    cases h with
    | drops _ hr => exact .nothing rfl hr
    | gives hne => exact absurd (by rw [hu]; rfl) hne
  | some i =>
    obtain ⟨r, hrow, hlive, hname⟩ := hs i hcur
    subst hcur
    rw [readLogin_of_row hrow hlive] at hu hd
    simp only at hu hd
    have hold : oldSecret db (some i) = r.body.passwordSecretId := by
      unfold oldSecret
      rw [Option.bind_some, hrow, Option.bind_some]
    have htables := fun k hi hs => h.rows_ne (k := k) hi hs
    cases h with
    | drops hempty => exact absurd (hu ▸ hempty) hname
    | @gives x secret db₁ db₂ _ hg hw hf =>
      rw [hold] at hg hf
      have hrows₁ : db₁.rows = db.rows ∧ secret = if keep then r.body.passwordSecretId else none := by
        rw [hp] at hg
        cases keep with
        | true => cases hg with | keep hr => exact ⟨hr, rfl⟩
        | false => cases hg with | forget hr => exact ⟨hr, rfl⟩
      obtain ⟨hrows₁, rfl⟩ := hrows₁
      have hident : ∀ j, db'.row .identity j = db₂.row .identity j := fun j => by
        unfold Db.row
        rw [hf.rows_ne (by decide)]
      have hsecret : ∀ t, db₂.row .secret t = db.row .secret t := fun t => by
        unfold Db.row
        rw [hw.rows_ne (by decide), hrows₁]
      have hothers : ∀ j, j ≠ x → db'.row .identity j = db.row .identity j := fun j hj => by
        rw [hident, hw.identity_ne hj, row_congr hrows₁]
      have hsecrets : ∀ t, (keep = true ∨ r.body.passwordSecretId ≠ some t ∨
          ∃ j rj, j ≠ x ∧ db.row .identity j = some rj ∧ rj.deleted = false ∧
            rj.body.passwordSecretId = some t) → db'.row .secret t = db.row .secret t := by
        intro t ht
        rw [hp] at hf
        cases keep with
        | true => exact (row_congr (show db'.rows = db₂.rows from hf) _ _).trans (hsecret t)
        | false =>
          have hforgot : ForgetsAny r.body.passwordSecretId db₂ db' := by
            cases hpw : r.body.passwordSecretId with
            | none | some o => rw [hpw] at hf; exact hf
          rcases ht with ht | ht | ⟨j, rj, hj, hrj, hdj, hpj⟩
          · cases ht
          · rw [hforgot.secret_ne ht, hsecret]
          · have hrj₂ : db₂.row .identity j = some rj := by
              rw [← hident, hothers j hj, hrj]
            rw [hforgot.secret_of_used (secretUsed_of_row hrj₂ hdj hpj), hsecret]
      have hrefs : ∀ j, references db₁ j = references db j := fun j =>
        references_congr (by rw [hrows₁]) (by rw [hrows₁]) j
      cases hw with
      | @own q clock hi hsole hq hset =>
        cases hi
        rw [row_congr hrows₁, hrow] at hq
        cases hq
        have hgiven : db'.row .identity i = some (r.rewrite clock fun b => b.withLogin
            (Text.trim change.username) (Text.trim change.domain)
            (if keep then r.body.passwordSecretId else none)) := by
          rw [hident, row_congr hset, Db.row_setRow_self]
        refine .login rfl hrow hlive hname (.inl ⟨rfl, hrefs i ▸ hsole⟩) hgiven hlive ?_ ?_ rfl
          hothers hsecrets htables
        · rw [← hu]
          rfl
        · rw [← hd]
          rfl
      | missing hi _ hq =>
        cases hi
        rw [row_congr hrows₁, hrow] at hq
        cases hq
      | @new clock hshared hq hset =>
        have hgiven : db'.row .identity x = some (newRow clock (newLogin
            (Text.trim change.username) (Text.trim change.domain)
            (if keep then r.body.passwordSecretId else none))) := by
          rw [hident, row_congr hset, Db.row_setRow_self]
        refine .login rfl hrow hlive hname (.inr ⟨hrefs i ▸ hshared i rfl, ?_⟩) hgiven rfl ?_ ?_ rfl
          hothers hsecrets htables
        · rw [← row_congr hrows₁, hq]
        · rw [← hu]
          rfl
        · rw [← hd]
          rfl

/-- What a login comes to after it is written back: trimmed, and without the password if that was to
be forgotten. -/
def Credentials.back (keep : Bool) (c : Credentials) : Credentials :=
  (Text.trim c.1, Text.trim c.2.1, if keep then c.2.2 else .ok none)

variable {x : Uuid} {r : Row HostBody} {host : HostRecord} {answer : Except StoreError HostRecord}

theorem credentials_back {r r' : Row IdentityBody} (hr : db.row .identity i = some r)
    (hd : r.deleted = false) (hn : Text.trim r.body.username ≠ [])
    (hr' : db'.row .identity x = some r') (hd' : r'.deleted = false)
    (hu : r'.body.username = Text.trim r.body.username)
    (hdom : r'.body.domain = Text.trim r.body.domain)
    (hp : r'.body.passwordSecretId = if keep then r.body.passwordSecretId else none)
    (hsec : ∀ t, r'.body.passwordSecretId = some t → db'.row .secret t = db.row .secret t)
    (vault : Option UnlockedVault) : credentials db' vault (some x) =
      (credentials db vault (some i)).map (Credentials.back keep) := by
  have hname : r.body.username ≠ [] := fun he => hn (by rw [he]; rfl)
  rw [credentials_live hr hd hname, credentials_live hr' hd' (hu ▸ hn), hu, hdom, Option.map_some]
  unfold Credentials.back
  cases keep with
  | false =>
    rw [if_neg Bool.false_ne_true] at hp
    rw [hp]
    rfl
  | true =>
    rw [if_pos rfl] at hp
    rw [hp]
    cases ht : r.body.passwordSecretId with
    | none => rfl
    | some t =>
      simp only [if_true]
      rw [revealSecret_congr (hsec t (hp.trans ht))]

/-- The login an owner has now is the one it had, or a copy of one it shared. -/
def SameOrCopied (db : Db) (before after : Option Uuid) : Prop :=
  after = before ∨ ∃ i x, before = some i ∧ 1 < references db i ∧ after = some x ∧
    db.row .identity x = none

theorem WritesBack.gateway_row (hc : RefsClosed db) (hr : liveHost db id = some r)
    (h : WritesBack keep r.body.identityId db db' a) {g : Uuid} (hg : r.body.gatewayIdentityId = some g) : db'.row
    .identity g = db.row .identity g ∧ a.identity ≠ some g := by
  have hsome := login_isSome_of_host hc hr (.inr hg)
  cases h with
  | nothing _ hrows => exact ⟨row_congr hrows _ _, fun he => by cases he⟩
  | @login i x _ _ howner _ _ _ hsame _ _ _ _ _ hothers =>
    have hne : g ≠ x := by
      rintro rfl
      rcases hsame with ⟨rfl, hsole⟩ | ⟨-, hnew⟩
      · obtain ⟨hrow, hd⟩ := liveHost_some hr
        have hle := points_le_references hrow g
        rw [points_host hd, if_pos howner, if_pos hg] at hle
        omega
      · rw [hnew] at hsome
        cases hsome
    exact ⟨hothers g hne, fun he => hne (Option.some.inj he).symm⟩

theorem WritesBack.tables (h : WritesBack keep current db db' a) {k : EntityKind}
    (hi : k ≠ .identity) (hs : k ≠ .secret) : db'.rows k = db.rows k := by
  cases h with
  | nothing _ hrows => rw [hrows]
  | login _ _ _ _ _ _ _ _ _ _ _ _ htables => exact htables k hi hs

theorem WritesBack.sameOrCopied (h : WritesBack keep current db db' a) : SameOrCopied db current a.identity := by
  cases h with
  | nothing hnone => exact .inl hnone.symm
  | @login i x _ _ howner _ _ _ hsame =>
    rcases hsame with ⟨rfl, -⟩ | ⟨hshared, hnew⟩
    · exact .inl howner.symm
    · exact .inr ⟨i, x, howner, hshared, rfl, hnew⟩

theorem WritesBack.release (h : WritesBack keep current db db' a) : a.release = none := by
  cases h with
  | nothing | login => rfl

theorem WritesBack.given_isSome (h : WritesBack keep current db db' a)
    (hx : a.identity = some x) : (db'.row .identity x).isSome := by
  cases h with
  | nothing => cases hx
  | login _ _ _ _ _ hgiven =>
    cases hx
    rw [hgiven]
    rfl

theorem WritesBack.others (h : WritesBack keep current db db' a) (hj : a.identity ≠ some j) :
    db'.row .identity j = db.row .identity j := by
  cases h with
  | nothing _ hrows => exact row_congr hrows _ _
  | login _ _ _ _ _ _ _ _ _ _ hothers => exact hothers j fun he => hj (by rw [he])

theorem WritesBack.secrets (h : WritesBack keep current db db' a)
    (ht : keep = true ∨ oldSecret db current ≠ some t ∨ ∃ j r, a.identity ≠ some j ∧
      db.row .identity j = some r ∧ r.deleted = false ∧ r.body.passwordSecretId = some t) :
    db'.row .secret t = db.row .secret t := by
  cases h with
  | nothing _ hrows => exact row_congr hrows _ _
  | @login i x r _ howner hrow _ _ _ _ _ _ _ _ _ hsecrets =>
    refine hsecrets t ?_
    rcases ht with ht | ht | ⟨j, rj, hj, hrj⟩
    · exact .inl ht
    · refine .inr (.inl fun hp => ht ?_)
      rw [howner]
      unfold oldSecret
      rw [Option.bind_some, hrow, Option.bind_some, hp]
    · exact Or.inr (Or.inr ⟨j, rj, fun he => hj (by rw [he]), hrj⟩)

theorem WritesBack.reads (h : WritesBack keep current db db₁ a)
    (hrow : ∀ x, a.identity = some x → db'.row .identity x = db₁.row .identity x)
    (hsec : ∀ t, oldSecret db current = some t → keep = true → db'.row .secret t = db.row .secret t)
    (vault : Option UnlockedVault) : credentials db' vault a.identity = (credentials db vault current).map
    (Credentials.back keep) := by
  cases h with
  | nothing hnone => rw [hnone]; rfl
  | @login i x r r' howner hr hd hn _ hgiven hd' hu hdom hp =>
    rw [howner]
    refine credentials_back hr hd hn ((hrow x rfl).trans hgiven) hd' hu hdom hp (fun t ht => ?_) vault
    rw [hp] at ht
    cases hkeep : keep with
    | false => rw [hkeep] at ht; cases ht
    | true =>
      rw [hkeep] at ht
      refine hsec t ?_ hkeep
      rw [howner]
      unfold oldSecret
      rw [Option.bind_some, hr, Option.bind_some]
      exact ht

/-! ## The save -/

/-- The group the host's form names is the one the host is in. -/
def GroupStands (db : Db) (b : HostBody) : Prop :=
  ∀ path, groupName (groupPath db b.groupId) = .ok path →
    path.bind (groupId db b.workspace) = b.groupId

theorem FindsGroup.stands {b : HostBody} {path : Option Text} {group : Option Uuid}
    (h : FindsGroup b.workspace db db' path group) (hs : GroupStands db b)
    (hp : groupName (groupPath db b.groupId) = .ok path) : group = b.groupId ∧ db'.rows = db.rows := by
  have hstands := hs path hp
  cases h with
  | ungrouped hr => exact ⟨hstands, hr⟩
  | found hn hr =>
    rw [Option.bind_some, hn] at hstands
    exact ⟨hstands, hr⟩
  | made hn =>
    -- A host without a group names none.
    rw [Option.bind_some, hn] at hstands
    rw [← hstands] at hp
    cases hp

variable [Platform]

/-- The columns of a host as a save writes them back. -/
def HostBody.savedAgain (b : HostBody) (login gatewayLogin : Option Uuid) : HostBody :=
  { b with
    name := if (Text.trim b.name).isEmpty then Text.trim b.address else Text.trim b.name
    address := Text.trim b.address, rdp := normalizeRdp b.rdp, comment := Text.trim b.comment
    identityId := login, gatewayIdentityId := gatewayLogin }

/-- A host was saved and nothing of it edited: its place, its columns up to trimming, its logins, and
every row that is not its own are as they were. -/
structure SavedAsItWas (keep : Bool) (id : Uuid) (b : HostBody) (db db' : Db) : Prop where
  row : ∃ r, liveHost db' id = some r ∧
    r.body = b.savedAgain r.body.identityId r.body.gatewayIdentityId
  own : SameOrCopied db b.identityId ((Owner.host id).login db')
  gateway : SameOrCopied db b.gatewayIdentityId ((Owner.gateway id).login db')
  ownReads : ∀ vault, credentials db' vault ((Owner.host id).login db') =
    (credentials db vault b.identityId).map (Credentials.back keep)
  gatewayReads : ∀ vault, credentials db' vault ((Owner.gateway id).login db') =
    (credentials db vault b.gatewayIdentityId).map (Credentials.back true)
  hosts : ∀ h, h ≠ id → db'.row .host h = db.row .host h
  logins : ∀ i, (Owner.host id).login db' ≠ some i → (Owner.gateway id).login db' ≠ some i →
    db'.row .identity i = db.row .identity i
  secrets : ∀ t, (keep = true ∨ oldSecret db b.identityId ≠ some t ∨
    ∃ j r, (Owner.host id).login db' ≠ some j ∧ db.row .identity j = some r ∧ r.deleted = false ∧
      r.body.passwordSecretId = some t) → db'.row .secret t = db.row .secret t
  tables : ∀ k, k ≠ .host → k ≠ .identity → k ≠ .secret → db'.rows k = db.rows k

theorem validated_columns {d d' : HostDraft} (h : d.validated = .ok d') :
    groupName d.groupPath = .ok d'.groupPath ∧ d'.workspace = d.workspace ∧ d'.port = d.port ∧
      d'.name = (if (Text.trim d.name).isEmpty then Text.trim d.address else Text.trim d.name) ∧
      d'.address = Text.trim d.address ∧ d'.rdp = normalizeRdp d.rdp ∧
      d'.comment = Text.trim d.comment := by
  unfold HostDraft.validated at h
  simp only at h
  iterate 5 (split at h; · cases h)
  split at h
  · cases h
  · next path hpath =>
    cases h
    exact ⟨hpath, rfl, rfl, rfl, rfl, rfl, rfl⟩

theorem saveHost_asItWas {record : HostRecord} {s s' : TxState} (hc : RefsClosed s.db)
    (hread : readHost s.db id = some host) (hr : liveHost s.db id = some r) (hgroup : GroupStands s.db r.body)
    (hown : LoginStands s.db r.body.identityId) (hgateway : LoginStands s.db r.body.gatewayIdentityId)
    (h : saveHost cx (host.again keep) s = .ok (record, s')) : SavedAsItWas keep id r.body s.db s'.db := by
  obtain ⟨r₀, hr₀, hhost⟩ := Option.map_eq_some_iff.mp hread
  rw [hr] at hr₀
  cases hr₀
  obtain ⟨d, id', hv, hsaves, hread'⟩ := saveHost_ok h
  obtain ⟨hid, hu, hdom, hp, hgu, hgd, hgp⟩ := validated_eq hv
  obtain ⟨hpath, hws, hport, hname, haddr, hrdp, hcomment⟩ := validated_columns hv
  rw [← hhost] at hid hu hdom hp hgu hgd hgp hpath hws hport hname haddr hrdp hcomment
  cases hsaves with
  | @mk existing workspace position group own gateway db₁ db₂ db₃ db₄ steps =>
    have hex : existing = some r := by
      have hwas := steps.was
      rw [hid] at hwas
      exact hwas.1.trans hr
    have hhome : workspace = r.body.workspace := by
      rw [steps.home, hws]
      rfl
    subst hex hhome
    obtain ⟨hgr, hrows₁⟩ := steps.found.stands hgroup hpath
    have hposition : position = r.body.position := steps.place r rfl rfl hgr.symm
    -- The two logins, one after the other.
    have hback : WritesBack keep r.body.identityId s.db db₂ own :=
      (steps.login.congr hrows₁).writesBack hown hu hdom hp
    have hgrow := fun g hg => hback.gateway_row hc hr (g := g) hg
    have hback' : WritesBack true r.body.gatewayIdentityId db₂ db₃ gateway := by
      refine steps.through.writesBack (hgateway.congr fun g hg => (hgrow g hg).1) ?_ ?_ hgp
      · rw [Option.bind_some, readLogin_congr fun g hg => (hgrow g hg).1]
        exact hgu
      · rw [Option.bind_some, readLogin_congr fun g hg => (hgrow g hg).1]
        exact hgd
    have hreleased : s'.db.rows = db₄.rows := by
      have hrel := steps.released
      rw [hback.release, hback'.release] at hrel
      cases hrel with
      | nil hrows => exact hrows
    cases steps.wrote with
    | added hwas => cases hwas
    | @edited r₁ clock hident hwas hrow₃ hrows₄ =>
      cases hwas
      obtain rfl : id' = id := Option.some.inj (hident.symm.trans (hid.trans (by rfl)))
      have hlive := (liveHost_some hr).2
      have hend : liveHost s'.db id' = some (r.rewrite clock fun b =>
          d.body r.body.workspace position group own.identity gateway.identity b.extra) :=
        liveHost_setRow hlive (hreleased.trans hrows₄)
      have hrows : ∀ k, k ≠ .host → s'.db.rows k = db₃.rows k := fun k hk => by
        rw [hreleased, hrows₄, rows_setRow_ne hk]
      have hident : ∀ i, s'.db.row .identity i = db₃.row .identity i := fun i => by
        unfold Db.row
        rw [hrows _ (by decide)]
      have hsecret : ∀ t, s'.db.row .secret t = db₂.row .secret t := fun t => by
        unfold Db.row
        rw [hrows _ (by decide)]
        exact hback'.secrets (.inl rfl)
      have howner : (Owner.host id').login s'.db = own.identity := by
        show (liveHost s'.db id').bind _ = _
        rw [hend]
        rfl
      have hthrough : (Owner.gateway id').login s'.db = gateway.identity := by
        show (liveHost s'.db id').bind _ = _
        rw [hend]
        rfl
      have hdiff : ∀ x, own.identity = some x → gateway.identity ≠ some x := by
        intro x hx hy
        rcases hback'.sameOrCopied with he | ⟨g, y, -, -, hy', hnew⟩
        · exact (hgrow x (he.symm.trans hy)).2 hx
        · have hsome := hback.given_isSome hx
          rw [hy] at hy'
          cases hy'
          rw [hnew] at hsome
          cases hsome
      have hstart : ∀ vault, credentials db₂ vault r.body.gatewayIdentityId =
          credentials s.db vault r.body.gatewayIdentityId := by
        intro vault
        cases hg : r.body.gatewayIdentityId with
        | none => rfl
        | some g =>
          refine credentials_kept (secretThere hc g) ⟨(hgrow g hg).1, fun rg t p hrg hdg ht hp => ?_⟩ vault
          rw [← hp]
          exact hback.secrets (.inr (.inr ⟨g, rg, (hgrow g hg).2, hrg, hdg, ht⟩))
      refine ⟨⟨_, hend, ?_⟩, ?_, ?_, fun vault => ?_, fun vault => ?_, fun h hne => ?_,
        fun i hi hg => ?_, fun t ht => ?_, fun k hh hi hs => ?_⟩
      · show d.body r.body.workspace position group own.identity gateway.identity r.body.extra = _
        unfold HostDraft.body HostBody.savedAgain
        rw [hname, haddr, hport, hrdp, hcomment, hgr, hposition]
        rfl
      · rw [howner]
        exact hback.sameOrCopied
      · rw [hthrough]
        refine hback'.sameOrCopied.imp_right ?_
        rintro ⟨g, x, hg, hshared, hx, hnew⟩
        refine ⟨g, x, hg, ?_, hx, ?_⟩
        · rw [← references_congr (hback.tables (by decide) (by decide)) (hback.tables (by decide) (by decide))]
          exact hshared
        · by_contra hsome
          have hthere := steps.login.identity_isSome (j := x) (by
            rw [row_congr hrows₁]
            exact Option.isSome_iff_ne_none.mpr hsome)
          rw [hnew] at hthere
          cases hthere
      · rw [howner]
        refine hback.reads (fun x hx => ?_) (fun t _ hk => ?_) vault
        · rw [hident, hback'.others (hdiff x hx)]
        · rw [hsecret, hback.secrets (Or.inl hk)]
      · rw [hthrough, ← hstart]
        exact hback'.reads (fun x _ => hident x) (fun t _ _ => hsecret t) vault
      · rw [row_congr (hreleased.trans hrows₄), Db.row_setRow_ne_id hne]
        unfold Db.row
        rw [hback'.tables (by decide) (by decide), hback.tables (by decide) (by decide)]
      · rw [howner] at hi
        rw [hthrough] at hg
        rw [hident, hback'.others hg, hback.others hi]
      · rw [hsecret]
        simp only [howner] at ht
        exact hback.secrets ht
      · rw [hrows k hh, hback'.tables hi hs, hback.tables hi hs]

theorem asItWas_or_failed (hc : RefsClosed db) (hread : readHost db id = some host) (hr : liveHost db id = some r)
    (hgroup : GroupStands db r.body) (hown : LoginStands db r.body.identityId)
    (hgateway : LoginStands db r.body.gatewayIdentityId)
    (h : Session.run db (saveHost cx (host.again keep)) = (answer, db')) : (∃ e, answer = .error e) ∧ db' = db ∨
    SavedAsItWas keep id r.body db db' := by
  cases answer with
  | error e => exact .inl ⟨⟨e, rfl⟩, run_error h⟩
  | ok record =>
    obtain ⟨s', hs, rfl⟩ := run_ok h
    exact .inr (saveHost_asItWas (s := ⟨db, 0⟩) hc hread hr hgroup hown hgateway hs)

theorem forgotten_or_failed (hc : RefsClosed db) (hread : readHost db id = some host) (hr : liveHost db id = some r)
    (hgroup : GroupStands db r.body) (hown : LoginStands db r.body.identityId)
    (hgateway : LoginStands db r.body.gatewayIdentityId)
    (h : Session.run db (forgetHostPassword cx id) = (answer, db')) : (∃ e, answer = .error e) ∧ db' = db ∨
    SavedAsItWas false id r.body db db' := by
  cases answer with
  | error e => exact .inl ⟨⟨e, rfl⟩, run_error h⟩
  | ok record =>
    obtain ⟨s', hs, rfl⟩ := run_ok h
    obtain ⟨host', hread', hs⟩ := forgetHostPassword_ok hs
    rw [hread] at hread'
    cases hread'
    have hs : saveHost cx (host.again false) ⟨db, 0⟩ = .ok (record, s') := hs
    exact .inr (saveHost_asItWas (s := ⟨db, 0⟩) hc hread hr hgroup hown hgateway hs)

/-- **Saving a host changes only what was edited**, after any calls on the store: a host whose group's
name leads back to it and whose logins can be read is saved as it was, or not at all. Forgetting its
password does that and nothing else. -/
theorem savedAsItWas (cx : Session) (vaultId : Uuid) (calls : List StoreCall) (id : Uuid)
    (r : Row HostBody) (host : HostRecord)
    (hr : liveHost (runCalls cx.device (Db.fresh vaultId) calls) id = some r)
    (hread : readHost (runCalls cx.device (Db.fresh vaultId) calls) id = some host)
    (hgroup : GroupStands (runCalls cx.device (Db.fresh vaultId) calls) r.body)
    (hown : LoginStands (runCalls cx.device (Db.fresh vaultId) calls) r.body.identityId)
    (hgateway : LoginStands (runCalls cx.device (Db.fresh vaultId) calls)
      r.body.gatewayIdentityId) :
    (∀ answer db', Session.run (runCalls cx.device (Db.fresh vaultId) calls)
        (saveHost cx (host.again true)) = (answer, db') →
      (∃ e, answer = .error e) ∧ db' = runCalls cx.device (Db.fresh vaultId) calls ∨
        SavedAsItWas true id r.body (runCalls cx.device (Db.fresh vaultId) calls) db') ∧
    ∀ answer db', Session.run (runCalls cx.device (Db.fresh vaultId) calls)
        (forgetHostPassword cx id) = (answer, db') →
      (∃ e, answer = .error e) ∧ db' = runCalls cx.device (Db.fresh vaultId) calls ∨
        SavedAsItWas false id r.body (runCalls cx.device (Db.fresh vaultId) calls) db' := by
  have hc : RefsClosed (runCalls cx.device (Db.fresh vaultId) calls) :=
    refsClosed_runCalls calls fun k id r hr => by cases hr
  exact ⟨fun answer db' => asItWas_or_failed hc hread hr hgroup hown hgateway,
    fun answer db' => forgotten_or_failed hc hread hr hgroup hown hgateway⟩

omit [Platform] in
/-- A host in a group, with a login: all of it arrived from another device. -/
def hostInGroup : List StoreCall :=
  [.apply (some ⟨1, 7⟩) 1000 [sealedAt 900 9 .group false (groupOf "g") 1,
    sealedAt 900 7 .identity false
      (.identity ⟨['v'], ['v'], [], "password".toList, none, none, []⟩) 2,
    sealedAt 900 5 .host false
      (.host ⟨['h'], ['h'], 3389, "private".toList, 3, some 9, some 7, {}, none, [], []⟩) 3]]

omit [Platform] in
/-- It is saved as it was. -/
theorem savedAsItWas_inGroup :
    letI := asciiPlatform
    ∃ host r, readHost (runCalls deviceOne.device (Db.fresh 1) hostInGroup) 5 = some host ∧
      liveHost (runCalls deviceOne.device (Db.fresh 1) hostInGroup) 5 = some r ∧
      SavedAsItWas true 5 r.body (runCalls deviceOne.device (Db.fresh 1) hostInGroup)
        (Session.run (runCalls deviceOne.device (Db.fresh 1) hostInGroup)
          (saveHost deviceOne (host.again true))).2 := by
  let _ := asciiPlatform
  have hsome : (liveHost (runCalls deviceOne.device (Db.fresh 1) hostInGroup) 5).isSome = true := by
    decide +kernel
  have hname : (liveHost (runCalls deviceOne.device (Db.fresh 1) hostInGroup) 5).all (fun r =>
      groupName (groupPath (runCalls deviceOne.device (Db.fresh 1) hostInGroup) r.body.groupId) =
        .ok (some ['g']) ∧
      groupId (runCalls deviceOne.device (Db.fresh 1) hostInGroup) r.body.workspace ['g'] =
        r.body.groupId ∧
      r.body.identityId = some 7 ∧ r.body.gatewayIdentityId = none) = true := by decide +kernel
  have hlogin : ((runCalls deviceOne.device (Db.fresh 1) hostInGroup).row .identity 7).any (fun r =>
      !r.deleted && decide (Text.trim r.body.username ≠ [])) = true := by decide +kernel
  have hran : (readHost (runCalls deviceOne.device (Db.fresh 1) hostInGroup) 5).any (fun host =>
      (Session.run (runCalls deviceOne.device (Db.fresh 1) hostInGroup)
        (saveHost deviceOne (host.again true))).1.isOk) = true := by decide +kernel
  obtain ⟨r, hr⟩ := Option.isSome_iff_exists.mp hsome
  obtain ⟨host, hread, hran⟩ := (Option.any_eq_true _ _).mp hran
  rw [hr, Option.all_some, decide_eq_true_eq] at hname
  obtain ⟨hpath, hgroup, hown, hgateway⟩ := hname
  obtain ⟨ri, hri, hlogin⟩ := (Option.any_eq_true _ _).mp hlogin
  rw [Bool.and_eq_true, Bool.not_eq_true', decide_eq_true_eq] at hlogin
  refine ⟨host, r, hread, hr, ?_⟩
  cases hrun : Session.run (runCalls deviceOne.device (Db.fresh 1) hostInGroup)
      (saveHost deviceOne (host.again true)) with
  | mk answer db' =>
    have hsaved := (savedAsItWas deviceOne 1 hostInGroup 5 r host hr hread
      (fun path hp => by rw [hpath] at hp; cases hp; exact hgroup)
      (fun i hi => by rw [hown] at hi; cases hi; exact ⟨ri, hri, hlogin⟩)
      (fun i hi => by rw [hgateway] at hi; cases hi)).1 answer db' hrun
    rcases hsaved with ⟨⟨e, he⟩, -⟩ | hsaved
    · rw [hrun, he] at hran
      cases hran
    · exact hsaved

omit [Platform] in
def sharedLogin : List StoreCall :=
  [.apply (some ⟨1, 7⟩) 1000 [sealedAt 900 7 .identity false
      (.identity ⟨['v'], ['v'], [], "password".toList, none, none, []⟩) 1,
    sealedAt 900 5 .host false
      (.host ⟨['h'], ['h'], 3389, "private".toList, 0, none, some 7, {}, none, [], []⟩) 2,
    sealedAt 900 6 .host false
      (.host ⟨['k'], ['k'], 3389, "private".toList, 1, none, some 7, {}, none, [], []⟩) 3]]

omit [Platform] in
/-- Saved as it is, one of them gets a login of its own. -/
theorem shared_login_copied :
    letI := asciiPlatform
    ¬∀ (cx : Session) (vaultId : Uuid) (calls : List StoreCall) (id : Uuid) (host record : HostRecord)
      (db' : Db), readHost (runCalls cx.device (Db.fresh vaultId) calls) id = some host →
      Session.run (runCalls cx.device (Db.fresh vaultId) calls) (saveHost cx (host.again true)) =
        (.ok record, db') →
      (Owner.host id).login db' =
        (Owner.host id).login (runCalls cx.device (Db.fresh vaultId) calls) := by
  let _ := asciiPlatform
  intro hall
  have hran : (readHost (runCalls deviceOne.device (Db.fresh 1) sharedLogin) 5).any (fun host =>
      (Session.run (runCalls deviceOne.device (Db.fresh 1) sharedLogin)
        (saveHost deviceOne (host.again true))).1.isOk &&
      (Owner.host 5).login (Session.run (runCalls deviceOne.device (Db.fresh 1) sharedLogin)
        (saveHost deviceOne (host.again true))).2 ≠
        (Owner.host 5).login (runCalls deviceOne.device (Db.fresh 1) sharedLogin)) = true := by
    decide +kernel
  obtain ⟨host, hread, hran⟩ := (Option.any_eq_true _ _).mp hran
  rw [Bool.and_eq_true, decide_eq_true_eq] at hran
  cases hrun : Session.run (runCalls deviceOne.device (Db.fresh 1) sharedLogin)
      (saveHost deviceOne (host.again true)) with
  | mk answer db' =>
    rw [hrun] at hran
    cases answer with
    | error e => cases hran.1
    | ok record => exact hran.2 (hall deviceOne 1 sharedLogin 5 host record db' hread hrun)

end UwuRdp
