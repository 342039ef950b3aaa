import UwuRdp.Store.Closed
import UwuRdp.Store.Outbox
import UwuRdp.Store.Preference

/-!
# Placeholders

A placeholder stands in for a record that has not arrived: live and empty, with the oldest clock
there is, and not waiting to be pushed. `LocalOp.Spares` says of an edit, from the database it starts
with, that no row it rewrites is one; in a run of such edits and whatever syncing does, a placeholder
stays one until the record it stands in for arrives, and is in no request.
-/

namespace UwuRdp

open Lib

def stubBody : (k : EntityKind) → Option (Body k)
  | .group => some ⟨.priv, [], 0, none, none, []⟩
  | .identity => some ⟨[], [], [], .password, none, none, []⟩
  | .key => some ⟨[], [], [], none, none, []⟩
  | .secret => some Sealed.empty
  | _ => none

def IsStub (db : Db) (k : EntityKind) (id : Uuid) : Prop :=
  ∃ b r, stubBody k = some b ∧ db.row k id = some r ∧ r.hlc = Hlc.zero ∧ r.deleted = false ∧
    r.dirty = false ∧ r.body = b

/-! ## What an edit does to logins -/

/-- One login an edit is about: the one its owner has, the username the owner is left with (none
drops the login) and what becomes of the password. -/
structure LoginEdit where
  current : Option Uuid
  username : Text
  password : PasswordChange
deriving DecidableEq

def LoginEdit.drop (current : Option Uuid) : LoginEdit := ⟨current, [], .keep⟩

def LoginEdit.clears (e : LoginEdit) : Bool := (Text.trim e.username).isEmpty

def owners (edits : List LoginEdit) (i : Uuid) : ℕ := edits.countP fun e => e.current = some i

/-- The login is the edited owners' alone: a shared one is copied and stays as it is. -/
def LoginEdit.touches (db : Db) (edits : List LoginEdit) (e : LoginEdit) (i : Uuid) : Prop :=
  e.current = some i ∧ references db i ≤ if e.clears then owners edits i else 1

def LoginEdit.drops (db : Db) (edits : List LoginEdit) (e : LoginEdit) (i : Uuid) : Prop :=
  e.touches db edits i ∧ (e.clears = true ∨ e.password ≠ .keep)

/-- The password of a login is given up: with the login, or for another one. -/
def LoginEdit.releases (db : Db) (edits : List LoginEdit) (e : LoginEdit) (i : Uuid) : Prop :=
  if e.clears then e.touches db edits i else e.current = some i ∧ e.password ≠ .keep

/-- No login the edits touch is a placeholder, and no password they give up is one unless a live
login keeps it. -/
structure SparesLogins (db : Db) (edits : List LoginEdit) : Prop where
  login : ∀ e ∈ edits, ∀ i, e.touches db edits i → ¬IsStub db .identity i
  password : ∀ e ∈ edits, ∀ i r s, e.releases db edits i → db.row .identity i = some r →
    r.body.passwordSecretId = some s → IsStub db .secret s →
    (e.clears = true ∧ r.deleted = true) ∨ ∃ j r', db.row .identity j = some r' ∧
      livePassword .identity r' = some s ∧ ∀ e ∈ edits, ¬e.drops db edits j

/-! ## Which rows an edit is about -/

/-- The logins a draft changes: those of the host it edits. -/
def HostDraft.edits (db : Db) (d : HostDraft) : List LoginEdit :=
  match d.id.bind (liveHost db) with
  | none => []
  | some r => [⟨r.body.identityId, d.username, d.password⟩,
      ⟨r.body.gatewayIdentityId, d.gatewayUsername, d.gatewayPassword⟩]

def groupLogin (db : Db) (g : Uuid) : Option Uuid :=
  (db.row .group g).bind fun r => r.body.identityId

def dropsGroup (db : Db) (group : Option Uuid) : List LoginEdit :=
  group.toList.map fun g => LoginEdit.drop (groupLogin db g)

def newName (src dst : Text) : Option Text := (required dst).toOption.filter fun d => src ≠ d

def LocalOp.edits (db : Db) : LocalOp → List LoginEdit
  | saveHost draft => draft.edits db
  | deleteHost id => (liveHost db id).toList.flatMap fun r =>
      [.drop r.body.identityId, .drop r.body.gatewayIdentityId]
  | setHostLogin id username _ password => (liveHost db id).toList.map fun r =>
      ⟨r.body.identityId, username, password.elim .keep .set⟩
  | forgetHostPassword id => (readHost db id).toList.flatMap fun host =>
      host.withoutPassword.edits db
  | setGroupLogin workspace name change => (groupId db workspace name).toList.map fun g =>
      ⟨groupLogin db g, change.username, change.password⟩
  | deleteGroup workspace name => dropsGroup db (groupId db workspace name)
  | renameGroup workspace src dst =>
    -- Onto a group that is there, the two merge.
    if (newName src dst).any fun d => (groupId db workspace d).isSome then
      dropsGroup db (groupId db workspace src)
    else []
  | moveGroup workspace name dst _ =>
    if dst ≠ workspace ∧ (groupId db dst name).isSome then
      dropsGroup db (groupId db workspace name)
    else []
  | _ => []

def LocalOp.groups (db : Db) : LocalOp → List Uuid
  | setGroupDrives workspace name _ => (groupId db workspace name).toList
  | setGroupLogin workspace name _ => (groupId db workspace name).toList
  | renameGroup workspace src dst =>
    if (newName src dst).isSome then (groupId db workspace src).toList else []
  | deleteGroup workspace name => (groupId db workspace name).toList
  | moveGroup workspace name dst before =>
    (if dst ≠ workspace then (groupId db workspace name).toList else []) ++
      reordered db workspace name dst before
  | _ => []

/-- No row an edit rewrites is a placeholder. -/
structure LocalOp.Spares (db : Db) (op : LocalOp) : Prop where
  groups : ∀ g ∈ op.groups db, ¬IsStub db .group g
  logins : SparesLogins db (op.edits db)

/-! ## Edits that spare placeholders -/

variable {k : EntityKind} {i id : Uuid}

theorem not_isStub {db : Db} (hk : stubBody k = none) (id : Uuid) : ¬IsStub db k id := by
  rintro ⟨b, r, hb, -⟩
  rw [hk] at hb
  cases hb

def sparing (db : Db) (edits : List LoginEdit) : Scope db where
  rows k id := ¬IsStub db k id
  dropped i := ∃ e ∈ edits, e.drops db edits i
  new_rows k id h := by
    rintro ⟨b, r, -, hr, -⟩
    rw [h] at hr
    cases hr

variable {db : Db} {edits : List LoginEdit} {e : LoginEdit}

theorem SparesLogins.forgettable (h : SparesLogins db edits) (he : e ∈ edits) {s : Uuid} {r : Row IdentityBody}
    (hrel : e.releases db edits i) (hr : db.row .identity i = some r) (hp : r.body.passwordSecretId = some s)
    (hlive : e.clears = true → r.deleted = false) : (sparing db edits).Forgettable s := by
  by_cases hs : IsStub db .secret s
  · rcases h.password e he i r s hrel hr hp hs with ⟨hc, hd⟩ | ⟨j, r', hj, hlp, hkeep⟩
    · rw [hlive hc] at hd
      cases hd
    · exact .inr ⟨j, r', hj, hlp, fun ⟨e', he', hd⟩ => hkeep e' he' hd⟩
  · exact .inl hs

theorem SparesLogins.edit (h : SparesLogins db edits) (he : e ∈ edits)
    (hex : ∀ i, e.current = some i → (db.row .identity i).isSome) (domain : Text) :
    (sparing db edits).Edit e.current ⟨e.username, domain, e.password⟩ where
  login i hi hu hr := by
    have hc : e.clears = false := by simpa [LoginEdit.clears] using hu
    have ht : e.touches db edits i := ⟨hi, by rw [hc]; exact hr⟩
    exact ⟨h.login e he i ht, fun hk => ⟨e, he, ht, .inr hk⟩⟩
  password i s hi hu hk h₀ := by
    have hc : e.clears = false := by simpa [LoginEdit.clears] using hu
    obtain ⟨r, hr⟩ := Option.isSome_iff_exists.mp (hex i hi)
    refine h.forgettable he (r := r) ?_ hr (h₀ r hr) fun hc' => by rw [hc] at hc'; cases hc'
    rw [LoginEdit.releases, hc]
    exact ⟨hi, hk⟩

theorem SparesLogins.release (h : SparesLogins db edits) (he : e ∈ edits) {n : Uuid → ℕ}
    (hi : e.current = some i) (hc : Text.trim e.username = []) (hn : n i ≤ owners edits i)
    (hex : (db.row .identity i).isSome) : (sparing db edits).Release n i := by
  have hc' : e.clears = true := by rw [LoginEdit.clears, hc]; rfl
  have ht : references db i ≤ n i → e.touches db edits i := fun hr =>
    ⟨hi, by rw [hc', if_pos rfl]; exact hr.trans hn⟩
  refine ⟨fun hr => ⟨h.login e he i (ht hr), e, he, ht hr, .inl hc'⟩, fun hr s h₀ => ?_⟩
  obtain ⟨r, hrow⟩ := Option.isSome_iff_exists.mp hex
  obtain ⟨hlive, hp⟩ := livePassword_identity.mp (h₀ r hrow)
  refine h.forgettable he (r := r) ?_ hrow hp fun _ => hlive
  rw [LoginEdit.releases, hc', if_pos rfl]
  exact ht hr

variable {r : Row HostBody} {g : Uuid} {op : LocalOp}

theorem login_isSome_of_host (hc : RefsClosed db) (hr : liveHost db id = some r)
    (hi : r.body.identityId = some i ∨ r.body.gatewayIdentityId = some i) : (db.row .identity i).isSome := by
  refine hc .host id r (liveHost_some hr).1 (.identity, i) ?_
  rcases hi with hi | hi
  · simp [Body.refs, hi]
  · simp [Body.refs, hi]

theorem login_isSome_of_group (hc : RefsClosed db) {r : Row GroupBody} (hr : db.row .group g = some r)
    (hi : r.body.identityId = some i) : (db.row .identity i).isSome := by
  refine hc .group g r hr (.identity, i) ?_
  simp [Body.refs, hi]

theorem points_host_eq (hd : r.deleted = false) (e e' : LoginEdit) (he : e.current = r.body.identityId)
    (he' : e'.current = r.body.gatewayIdentityId) (i : Uuid) : points .host r i = owners [e, e'] i := by
  simp only [points, hd, owners, List.countP_cons, List.countP_nil, he, he', Bool.not_false,
    Bool.true_and, decide_eq_true_eq]
  omega

theorem SparesLogins.save {d : HostDraft} (hc : RefsClosed db) (h : SparesLogins db (d.edits db)) :
    (sparing db (d.edits db)).Save d := by
  have hedits : ∀ id r, d.id = some id → liveHost db id = some r → d.edits db =
      [⟨r.body.identityId, d.username, d.password⟩,
        ⟨r.body.gatewayIdentityId, d.gatewayUsername, d.gatewayPassword⟩] := by
    intro id r hid hr
    rw [HostDraft.edits, hid, Option.bind_some, hr]
  refine ⟨fun id _ => not_isStub rfl id, fun id r hid hr => ?_, fun id r hid hr => ?_, fun id r i hid hr hi => ?_⟩
  · have he : (⟨r.body.identityId, d.username, d.password⟩ : LoginEdit) ∈ d.edits db := by
      rw [hedits id r hid hr]
      exact List.mem_cons_self
    exact h.edit he (fun i hi => login_isSome_of_host hc hr (.inl hi)) d.domain
  · have he : (⟨r.body.gatewayIdentityId, d.gatewayUsername, d.gatewayPassword⟩ : LoginEdit) ∈ d.edits db := by
      rw [hedits id r hid hr]
      simp
    exact h.edit he (fun i hi => login_isSome_of_host hc hr (.inr hi)) d.gatewayDomain
  · have hp : points .host r i ≤ owners (d.edits db) i := by
      rw [hedits id r hid hr]
      exact (points_host_eq (liveHost_some hr).2 _ _ rfl rfl i).le
    rcases hi with ⟨hi, hu⟩ | ⟨hi, hu⟩
    · have he : (⟨r.body.identityId, d.username, d.password⟩ : LoginEdit) ∈ d.edits db := by
        rw [hedits id r hid hr]
        exact List.mem_cons_self
      exact h.release he hi hu hp (login_isSome_of_host hc hr (.inl hi))
    · have he : (⟨r.body.gatewayIdentityId, d.gatewayUsername, d.gatewayPassword⟩ : LoginEdit) ∈ d.edits db := by
        rw [hedits id r hid hr]
        simp
      exact h.release he hi hu hp (login_isSome_of_host hc hr (.inr hi))

theorem SparesLogins.group {g : Uuid} (hc : RefsClosed db) (h : SparesLogins db edits)
    (he : edits = dropsGroup db (some g)) (hg : ¬IsStub db .group g) : (sparing db edits).Group g := by
  refine ⟨hg, fun r i hr hi => ?_⟩
  have hcur : groupLogin db g = some i := by rw [groupLogin, hr, Option.bind_some, hi]
  have hm : LoginEdit.drop (groupLogin db g) ∈ edits := by
    rw [he]
    exact List.mem_cons_self
  refine h.release hm hcur rfl ?_ (login_isSome_of_group hc hr hi)
  show (if !r.deleted && decide (r.body.identityId = some i) then 1 else 0) ≤ _
  rw [he]
  simp only [owners, dropsGroup, Option.toList_some, List.map_cons, List.map_nil, List.countP_cons,
    LoginEdit.drop, hcur, decide_true, if_true]
  split <;> omega

theorem named_sparing (db : Db) (edits : List LoginEdit) : (sparing db edits).Named := by
  intro db' n device g r hw hr hname hstub
  obtain ⟨b, r₀, hb, hr₀, -, -, -, hbody⟩ := id hstub
  cases hb
  rw [hw.frame .group g r₀ (fun hn => hn hstub) hr₀] at hr
  cases hr
  rw [hbody] at hname
  exact hname rfl

theorem groupLogin_eq {r : Row GroupBody} (hr : db.row .group g = some r) :
    groupLogin db g = r.body.identityId := by rw [groupLogin, hr, Option.bind_some]

theorem LocalOp.Spares.inScope (h : op.Spares db) (hc : RefsClosed db) : op.InScope (sparing db (op.edits db)) := by
  have hosts : ∀ (edits : List LoginEdit) (id : Uuid), (sparing db edits).rows .host id :=
    fun _ id => not_isStub rfl id
  obtain ⟨hgroups, hlogins⟩ := h
  cases op with
  | saveHost draft => exact hlogins.save hc
  | deleteHost id =>
    refine ⟨hosts _ id, fun r i hr hi => ?_⟩
    have hedits : (LocalOp.deleteHost id).edits db = [.drop r.body.identityId, .drop r.body.gatewayIdentityId] := by
      simp [LocalOp.edits, hr]
    have hp : points .host r i ≤ owners ((LocalOp.deleteHost id).edits db) i := by
      rw [hedits]
      exact (points_host_eq (liveHost_some hr).2 _ _ rfl rfl i).le
    rcases hi with hi | hi
    · exact hlogins.release (e := .drop r.body.identityId) (by rw [hedits]; simp) hi rfl hp
        (login_isSome_of_host hc hr (.inl hi))
    · exact hlogins.release (e := .drop r.body.gatewayIdentityId) (by rw [hedits]; simp) hi rfl hp
        (login_isSome_of_host hc hr (.inr hi))
  | setHostLogin id username domain password =>
    have hedits : ∀ r, liveHost db id = some r → (LocalOp.setHostLogin id username domain password).edits db =
          [⟨r.body.identityId, username, password.elim .keep .set⟩] := by
      intro r hr
      simp [LocalOp.edits, hr]
    refine ⟨hosts _ id, fun r hr => ?_, fun r i hr hi hu => ?_⟩
    · exact hlogins.edit (e := ⟨r.body.identityId, username, password.elim .keep .set⟩)
        (by rw [hedits r hr]; simp) (fun i hi => login_isSome_of_host hc hr (Or.inl hi)) domain
    · refine hlogins.release (e := ⟨r.body.identityId, username, password.elim .keep .set⟩)
        (by rw [hedits r hr]; simp) hi hu ?_ (login_isSome_of_host hc hr (Or.inl hi))
      rw [hedits r hr]
      simp [pointsOwn, owners, hi]
  | forgetHostPassword id =>
    intro host hhost
    have hedits : (LocalOp.forgetHostPassword id).edits db = host.withoutPassword.edits db := by
      simp [LocalOp.edits, hhost]
    rw [hedits] at hlogins ⊢
    exact hlogins.save hc
  | moveHost id workspace group before => exact hosts _
  | createGroup workspace name => exact trivial
  | setGroupDrives workspace name drives =>
    exact fun g hg => hgroups g (by simp [LocalOp.groups, hg])
  | setGroupLogin workspace name change =>
    intro g hg
    obtain ⟨r, hr, hlive, -⟩ := groupId_some hg
    have hedits : (LocalOp.setGroupLogin workspace name change).edits db =
        [⟨groupLogin db g, change.username, change.password⟩] := by
      simp [LocalOp.edits, hg]
    have hm : (⟨groupLogin db g, change.username, change.password⟩ : LoginEdit) ∈
        (LocalOp.setGroupLogin workspace name change).edits db := by
      rw [hedits]
      exact List.mem_cons_self
    refine ⟨hgroups g (by simp [LocalOp.groups, hg]), fun r' hr' => ?_, fun r' i hr' hi hu => ?_⟩
    · rw [← groupLogin_eq hr']
      refine hlogins.edit hm (fun i hi => ?_) change.domain
      exact login_isSome_of_group hc hr' ((groupLogin_eq hr').symm.trans hi)
    · have hcur : groupLogin db g = some i := (groupLogin_eq hr').trans hi
      refine hlogins.release hm hcur hu ?_ (login_isSome_of_group hc hr' hi)
      rw [hedits]
      simp only [points, owners, List.countP_cons, List.countP_nil, hcur, decide_true, if_true]
      split <;> omega
  | renameGroup workspace src dst =>
    have named : ∀ {d}, required dst = .ok d → src ≠ d → newName src dst = some d := by
      intro d hd hne
      simp [newName, hd, Except.toOption, hne]
    have row : ∀ g d, groupId db workspace src = some g → required dst = .ok d → src ≠ d → ¬IsStub db .group g := by
      intro g d hg hd hne
      exact hgroups g (by simp [LocalOp.groups, named hd hne, hg])
    refine ⟨hosts _, row, fun g d hg hd hne hm => ?_⟩
    refine hlogins.group hc ?_ (row g d hg hd hne)
    obtain ⟨d', hd'⟩ := Option.ne_none_iff_exists'.mp hm
    simp [LocalOp.edits, named hd hne, hd', hg]
  | moveGroup workspace name dst before =>
    refine ⟨hosts _, fun g hg hne => ⟨?_, fun hm => ?_⟩, fun g hg => ?_⟩
    · exact hgroups g (by simp [LocalOp.groups, hne, hg])
    · refine hlogins.group hc ?_ (hgroups g (by simp [LocalOp.groups, hne, hg]))
      obtain ⟨t, ht⟩ := Option.ne_none_iff_exists'.mp hm
      simp [LocalOp.edits, hne, ht, hg]
    · exact hgroups g (List.mem_append_right _ hg)
  | deleteGroup workspace name =>
    refine ⟨hosts _, fun g hg => ?_⟩
    exact hlogins.group hc (by simp [LocalOp.edits, hg]) (hgroups g (by simp [LocalOp.groups, hg]))
  | trustHostKey address port algorithm fingerprint publicKey => exact not_isStub rfl
  | forgetHostKey address port => exact not_isStub rfl
  | importSet set => exact named_sparing db _

/-! ## Runs -/

/-- The record of a row arrives: one whose seal holds is applied. -/
def StoreCall.Brings (k : EntityKind) (id : Uuid) : StoreCall → Prop
  | apply (some vault) _ envelopes => ∃ env ∈ envelopes, k = env.kind ∧ id = env.id ∧
      ∃ payload, Opens vault env payload
  | _ => False

theorem IsStub.kind (h : IsStub db k id) : k ≠ .knownHost ∧ k ≠ .manifest := by
  obtain ⟨b, r, hb, -⟩ := h
  constructor <;> rintro rfl <;> cases hb

theorem IsStub.of_row {db' : Db} (h : IsStub db k id)
    (hrow : ∀ r, db.row k id = some r → ∃ r', db'.row k id = some r' ∧ r'.body = r.body ∧
      r'.hlc = r.hlc ∧ r'.deleted = r.deleted ∧ (r.dirty = false → r'.dirty = false)) :
    IsStub db' k id := by
  obtain ⟨b, r, hb, hr, hhlc, hdel, hdirty, hbody⟩ := h
  obtain ⟨r', hr', h₁, h₂, h₃, h₄⟩ := hrow r hr
  exact ⟨b, r', hb, hr', h₂.trans hhlc, h₃.trans hdel, h₄ hdirty, h₁.trans hbody⟩

theorem IsStub.not_pending (h : IsStub db k id) {vault : UnlockedVault} {limit leftOut : ℕ} {envs : List Envelope}
    (hp : pendingEnvelopes db (some vault) limit = .ok (envs, leftOut)) {env : Envelope} (he : env ∈ envs) :
    ¬(env.kind = k ∧ env.id = id) := by
  rintro ⟨rfl, rfl⟩
  obtain ⟨-, r, ho⟩ := outgoing_of_pendingEnvelopes hp he
  obtain ⟨b, r', -, hr', -, -, hclean, -⟩ := h
  rw [ho.row] at hr'
  cases hr'
  rw [ho.dirty] at hclean
  cases hclean

section Runs

variable [Platform]

def StoreCall.Spares (device : UInt32) (db : Db) : StoreCall → Prop
  | edit cx op => (∃ u, (Session.run db (op.call { cx with device })).1 = .ok u) → op.Spares db
  | _ => True

def RunSpares (device : UInt32) : Db → List StoreCall → Prop
  | _, [] => True
  | db, call :: rest => call.Spares device db ∧ RunSpares device (call.run device db) rest

variable {device : UInt32} {k : EntityKind} {id : Uuid}

theorem IsStub.applied {vault : UnlockedVault} {envs : List Envelope} {db' : Db} (h : IsStub db k id) (ha : Applied device vault envs db db')
    (hne : ∀ env ∈ envs, ∀ payload, Opens vault env payload → ¬(k = env.kind ∧ id = env.id)) :
    IsStub db' k id := by
  induction ha with
  | nil db => exact h
  | cons env rest db db₁ db' rep happ _ ih =>
    refine ih ?_ fun e he => hne e (List.mem_cons_of_mem env he)
    refine h.of_row fun r hr => ⟨r, ?_, rfl, rfl, rfl, fun hd => hd⟩
    exact applyOne_frame happ h.kind.1 hr (hne env List.mem_cons_self)

theorem IsStub.run (h : IsStub db k id) (hc : RefsClosed db) {call : StoreCall} (hs : call.Spares device db)
    (hb : ¬call.Brings k id) : IsStub (call.run device db) k id := by
  have same : ∀ db' : Db, db'.row k id = db.row k id → IsStub db' k id := fun db' he =>
    h.of_row fun r hr => ⟨r, he.trans hr, rfl, rfl, rfl, fun hd => hd⟩
  cases call with
  | edit cx op =>
    simp only [StoreCall.run, LocalOp.run]
    cases hrun : (Session.run db (op.call { cx with device })).1 with
    | error e =>
      refine same _ ?_
      unfold Session.run at hrun ⊢
      split at hrun
      · cases hrun
      · rfl
    | ok u =>
      obtain ⟨n, hw⟩ := LocalOp.run_wrote { cx with device } ((hs ⟨u, hrun⟩).inScope hc)
      refine h.of_row fun r hr => ⟨r, ?_, rfl, rfl, rfl, fun hd => hd⟩
      exact hw.frame k id r (fun hn => hn h) hr
  | apply vault now envs =>
    show IsStub ((applyEnvelopes device vault now envs).commit db) k id
    unfold Tx.commit
    split
    · next rep db' happ =>
      rcases applyEnvelopes_spec happ with ⟨-, rfl⟩ | ⟨v, out, db₁, rfl, hall, rfl⟩
      · exact h
      · have h₁ : IsStub db₁ k id := by
          refine h.applied (applyAll_spec hall).1 fun env he payload ho hki => hb ?_
          exact ⟨env, mem_applySort.mp he, hki.1, hki.2, payload, ho⟩
        cases out.2 with
        | none | some c => exact h₁
    · exact h
  | markPushed records =>
    obtain ⟨f, hf, he⟩ := row_markPushed records db k id
    refine h.of_row fun r hr => ⟨f r, ?_, (hf r).1, (hf r).2.1, (hf r).2.2.1, (hf r).2.2.2⟩
    show (UwuRdp.markPushed db records).1.row k id = _
    rw [he, hr, Option.map_some]
  | refreshManifest cx =>
    simp only [StoreCall.run]
    rcases refreshManifest_spec { cx with device } db with he | ⟨now, m, he⟩
    · rw [he]
      exact h
    · rw [he]
      refine same _ ?_
      rw [Db.row_setRow_ne_kind h.kind.2, Db.row_setClock]
  | checkManifests | noteIncompletePull => exact same _ rfl
  | setManifestFloor floor =>
    obtain ⟨violations, he⟩ := setManifestFloor_eq db floor
    simp only [StoreCall.run, he]
    exact same _ rfl
  | setSyncCursor cursor => exact same _ rfl

theorem refsClosed_runCalls (calls : List StoreCall) (hc : RefsClosed db) :
    RefsClosed (runCalls device db calls) := by
  induction calls generalizing db with
  | nil => exact hc
  | cons call rest ih => exact ih (hc.run device call)

theorem isStub_runCalls {calls : List StoreCall}
    (h : IsStub db k id) (hc : RefsClosed db) (hs : RunSpares device db calls)
    (hb : ∀ call ∈ calls, ¬call.Brings k id) : IsStub (runCalls device db calls) k id := by
  induction calls generalizing db with
  | nil => exact h
  | cons call rest ih =>
    exact ih (h.run hc hs.1 (hb call List.mem_cons_self)) (hc.run device call) hs.2
      fun c hcall => hb c (List.mem_cons_of_mem call hcall)

/-- **A placeholder is not published.** In every run, a row that is a placeholder at some point stays
one and is in no request, as long as the edits after it spare placeholders and its record does not
arrive. -/
theorem stub_unpublished (device : UInt32) (vaultId : Uuid) (before after : List StoreCall)
    (k : EntityKind) (id : Uuid) (h : IsStub (runCalls device (Db.fresh vaultId) before) k id)
    (hs : RunSpares device (runCalls device (Db.fresh vaultId) before) after)
    (hb : ∀ call ∈ after, ¬call.Brings k id) :
    IsStub (runCalls device (Db.fresh vaultId) (before ++ after)) k id ∧
      ∀ vault limit envs leftOut, pendingEnvelopes (runCalls device (Db.fresh vaultId)
        (before ++ after)) (some vault) limit = .ok (envs, leftOut) →
        ∀ env ∈ envs, ¬(env.kind = k ∧ env.id = id) := by
  have hfresh : RefsClosed (Db.fresh vaultId) := fun k id r hr => by cases hr
  have hrun : IsStub (runCalls device (Db.fresh vaultId) (before ++ after)) k id := by
    rw [runCalls, List.foldl_append]
    exact isStub_runCalls h (refsClosed_runCalls before hfresh) hs hb
  exact ⟨hrun, fun vault limit envs leftOut hp env he => hrun.not_pending hp he⟩

end Runs

/-! ## Hosts that arrive before their groups -/

/-- A host of device 2 in a group, as the server hands it over. -/
def hostIn (id group : Uuid) (seq : ℕ) : Envelope where
  id := id
  vaultId := 1
  kind := .host
  updatedAt := ⟨900, 0, 2⟩
  baseSeq := 0
  deleted := false
  blob := (⟨1, 7⟩ : UnlockedVault).sealSynced id .host ⟨900, 0, 2⟩ false
    (.host ⟨['h'], ['h'], 3389, "private".toList, 0, some group, none, {}, none, [], []⟩)
  seq := some seq

def hostsArrive (groups : List Uuid) : StoreCall :=
  .apply (some ⟨1, 7⟩) 1000 (groups.mapIdx fun i g => hostIn (5 + i) g (1 + i))

/-- A group is made here and moved to the end of its workspace. -/
def moveToEnd : List StoreCall :=
  [.edit deviceOne (.createGroup .priv ['a']), .edit deviceOne (.moveGroup .priv ['a'] .priv none)]

theorem spares_of_nil (hg : op.groups db = []) (he : op.edits db = []) : op.Spares db := by
  refine ⟨fun g hm => ?_, ⟨fun e hm => ?_, fun e hm => ?_⟩⟩
  · rw [hg] at hm
    cases hm
  · rw [he] at hm
    cases hm
  · rw [he] at hm
    cases hm

/-- One placeholder is in its place, so the move spares it. -/
theorem stub_unpublished_in_place :
    letI := asciiPlatform
    IsStub (runCalls 1 (Db.fresh 1) ([hostsArrive [20]] ++ moveToEnd)) .group 20 := by
  let _ := asciiPlatform
  refine (stub_unpublished 1 1 [hostsArrive [20]] moveToEnd .group 20 ?_ ?_ ?_).1
  · exact ⟨_, ⟨Hlc.zero, false, false, 0, ⟨.priv, [], 0, none, none, []⟩⟩, rfl, by rfl, rfl, rfl, rfl,
      rfl⟩
  · refine ⟨fun _ => spares_of_nil rfl rfl, fun _ => spares_of_nil ?_ ?_, trivial⟩
    · decide +kernel
    · decide +kernel
  · intro call hm hb
    rcases List.mem_cons.mp hm with rfl | hm
    · exact hb
    · rcases List.mem_cons.mp hm with rfl | hm
      · exact hb
      · cases hm

/-- Of two placeholders one is not: the move gives it a clock and a position, and the next request
has it. -/
theorem stub_published_by_move :
    letI := asciiPlatform
    ¬∀ (cx : Session) (vaultId : Uuid) (calls : List StoreCall) (op : LocalOp) (k : EntityKind)
      (id : Uuid), IsStub (runCalls cx.device (Db.fresh vaultId) calls) k id →
      ∀ vault limit envs leftOut,
        pendingEnvelopes (op.run cx (runCalls cx.device (Db.fresh vaultId) calls)) (some vault)
          limit = .ok (envs, leftOut) → ∀ env ∈ envs, ¬(env.kind = k ∧ env.id = id) := by
  let _ := asciiPlatform
  intro hall
  have hstub : IsStub (runCalls 1 (Db.fresh 1)
      [hostsArrive [20, 21], .edit deviceOne (.createGroup .priv ['a'])]) .group 21 :=
    ⟨_, ⟨Hlc.zero, false, false, 0, ⟨.priv, [], 0, none, none, []⟩⟩, rfl, by rfl, rfl, rfl, rfl, rfl⟩
  have hno := hall deviceOne 1 [hostsArrive [20, 21], .edit deviceOne (.createGroup .priv ['a'])]
    (.moveGroup .priv ['a'] .priv none) .group 21 hstub ⟨1, 7⟩ 1 _ _ rfl
  revert hno
  decide +kernel

end UwuRdp
