import UwuRdp.Store.Refill
import UwuRdp.Store.Tidy

/-!
# What an export holds

An export of a device that syncs with nobody goes through, and holds every group and host in the order of the
lists, each with its login and password. What an import is made of it is a set in shape.
-/

namespace UwuRdp

open Lib

variable {cx : Session} {db db' : Db} {k : EntityKind} {id : Uuid} {v : UnlockedVault}

/-! ## A store that was only edited -/

section Tidy

variable [Platform]

/-- What a device holds that syncs with nobody: every row in shape, and every login with its owner. -/
structure Tidy (v : UnlockedVault) (db : Db) : Prop where
  rows : ∀ k id r, db.row k id = some r → RowTidy v k id r
  nested : Nested db
  balanced : Balanced [] [] db
  slots : SlotsUnique db

theorem tidy_fresh (vaultId : Uuid) : Tidy v (Db.fresh vaultId) where
  rows k id r hr := by cases hr
  nested := nested_fresh vaultId
  balanced := balanced_fresh vaultId
  slots i j r r' hr := by cases hr

theorem Tidy.run {op : LocalOp} (h : Tidy v db) (hv : cx.OpensWith v) (ht : op.IsText) : Tidy v (op.run cx db) := by
  have hbalanced : Balanced [] [] (op.run cx db) := op.run_balanced h.balanced
  obtain ⟨n, hwrote⟩ := LocalOp.run_all cx op db
  have hslots := hwrote.slots h.slots
  unfold LocalOp.run Session.run at hbalanced hslots ⊢
  cases hm : op.call cx ⟨db, 0⟩ with
  | ok r =>
    obtain ⟨u, s⟩ := r
    rw [hm] at hbalanced hslots
    exact ⟨LocalOp.call_tidy hv ht ⟨db, 0⟩ h.rows u s hm, LocalOp.call_nests ⟨db, 0⟩ h.nested u s hm, hbalanced,
      hslots⟩
  | error e => exact h

theorem tidy_runEdits (vaultId : Uuid) (edits : List (Session × LocalOp))
    (hedits : ∀ e ∈ edits, e.1.OpensWith v ∧ e.2.IsText) : Tidy v (runEdits (Db.fresh vaultId) edits) := by
  have hfrom : ∀ db, Tidy v db → Tidy v (runEdits db edits) := by
    induction edits with
    | nil => exact fun db h => h
    | cons edit rest ih =>
      intro db h
      obtain ⟨hv, ht⟩ := hedits edit List.mem_cons_self
      exact ih (fun e he => hedits e (List.mem_cons_of_mem edit he)) _ (h.run hv ht)
  exact hfrom _ (tidy_fresh vaultId)

end Tidy

/-! ## Logins -/

section Logins

def BackupLogin.credentials (l : BackupLogin) : Credentials :=
  (l.username, l.domain, .ok (l.password.map fun t => Payload.bytes t.toUtf8))

def BackupLogin.input (l : BackupLogin) : LoginInput := ⟨l.username, l.domain, l.password.map Text.toUtf8⟩

theorem BackupLogin.credentials_input (l : BackupLogin) : l.input.credentials = l.credentials := by
  unfold LoginInput.credentials BackupLogin.input BackupLogin.credentials
  rw [Option.map_map]
  rfl

/-- What an owner's login is in a file. -/
structure LoginExported (v : UnlockedVault) (db : Db) (identity : Option Uuid) (l : Option BackupLogin) : Prop where
  credentials : credentials db (some v) identity = l.map BackupLogin.credentials
  clean : ∀ x, l = some x → x.input.Clean
  isSome : l.isSome = identity.isSome

theorem toUtf8_ne_nil {t : Text} (h : t ≠ []) : t.toUtf8 ≠ [] := by
  cases t with
  | nil => exact absurd rfl h
  | cons c t =>
    intro hnil
    rw [Text.toUtf8, List.flatMap_cons, List.append_eq_nil_iff] at hnil
    have hlen := congrArg List.length hnil.1
    rw [String.length_utf8EncodeChar] at hlen
    exact absurd hlen (Nat.pos_iff_ne_zero.mp (Char.utf8Size_pos c))

variable [Platform]

theorem backupLogin_ok (h : Tidy v db) (identity : Option Uuid) (fromGroup : Bool)
    (hlive : ∀ i, identity = some i → db.Live .identity i) :
    ∃ l, backupLogin db (some v) true (resolved db identity fromGroup) = .ok l ∧ LoginExported v db identity l := by
  cases identity with
  | none => exact ⟨none, rfl, rfl, fun x hx => (by cases hx), rfl⟩
  | some i =>
    obtain ⟨r, hr, hd⟩ := hlive i rfl
    have htidy : LoginTidy r.body := h.rows .identity i r hr
    have hresolved : resolved db (some i) fromGroup =
        some ⟨r.body.username, r.body.domain, r.body.passwordSecretId.isSome, fromGroup, i, r.body.passwordSecretId⟩ := by
      have hname : (!r.deleted && !r.body.username.isEmpty) = true := by
        rw [hd, Bool.not_false, Bool.true_and, Bool.not_eq_true', List.isEmpty_eq_false_iff]
        exact htidy.named
      unfold resolved
      rw [Option.bind_some, hr, Option.filter_some, if_pos hname]
      rfl
    have hcredentials := credentials_live hr hd htidy.named (some v)
    rw [hresolved]
    cases hsecret : r.body.passwordSecretId with
    | none =>
      refine ⟨some ⟨r.body.username, r.body.domain, none⟩, rfl, ?_, ?_, rfl⟩
      · rw [hcredentials, hsecret]
        rfl
      · intro x hx
        cases hx
        exact ⟨htidy.named, htidy.username, htidy.domain, fun hnone => (by cases hnone)⟩
    | some t =>
      obtain ⟨p, hp, hpd⟩ := h.balanced.refs .identity i r hr hd (.secret, t) (by simp [Body.refs, hsecret])
      obtain ⟨text, hne, hopen⟩ := h.rows .secret t p hp hpd
      have hreveal : revealSecret db (some v) t = .ok (.bytes text.toUtf8) := by
        unfold revealSecret
        rw [hp, Option.filter_some, hpd, Bool.not_false, if_pos rfl]
        dsimp only
        rw [hopen]
      have hpassword : revealLoginPassword db (some v) ⟨r.body.username, r.body.domain, true, fromGroup, i, some t⟩ =
          .ok (some (.bytes text.toUtf8)) := by
        unfold revealLoginPassword
        rw [hr, Option.filter_some, hd, Bool.not_false, if_pos rfl, Option.bind_some, hsecret]
        dsimp only
        rw [if_pos rfl, hreveal]
        rfl
      refine ⟨some ⟨r.body.username, r.body.domain, some text⟩, ?_, ?_, ?_, rfl⟩
      · unfold backupLogin
        dsimp only [Option.isSome_some]
        rw [Bool.and_self, if_pos rfl, hpassword]
        show (secretText (some (.bytes text.toUtf8)) >>= fun password => _) = _
        rw [secretText, Text.ofUtf8_toUtf8]
        rfl
      · rw [hcredentials, hsecret]
        dsimp only
        rw [hreveal]
        rfl
      · intro x hx
        cases hx
        exact ⟨htidy.named, htidy.username, htidy.domain, fun hnil => toUtf8_ne_nil hne (Option.some.inj hnil)⟩

end Logins

/-! ## Groups, hosts and certificates -/

section Lists

theorem mapM_ok {ε α β : Type} {R : α → β → Prop} {f : α → Except ε β} {l : List α}
    (h : ∀ a ∈ l, ∃ b, f a = .ok b ∧ R a b) : ∃ out, l.mapM f = .ok out ∧ List.Forall₂ R l out := by
  induction l with
  | nil => exact ⟨[], rfl, .nil⟩
  | cons a l ih =>
    obtain ⟨b, hb, hr⟩ := h a List.mem_cons_self
    obtain ⟨out, hout, hrs⟩ := ih fun a ha => h a (List.mem_cons_of_mem _ ha)
    refine ⟨b :: out, ?_, .cons hr hrs⟩
    rw [List.mapM_cons, hb]
    show (l.mapM f >>= fun bs => _) = _
    rw [hout]
    rfl

/-- What there is of a group in a file. -/
structure GroupExported (v : UnlockedVault) (db : Db) (b : GroupBody) (g : BackupGroup) : Prop where
  workspace : g.workspace = b.workspace
  name : g.name = b.name
  drives : g.drives = b.drives
  login : LoginExported v db b.identityId g.login

/-- What there is of a host in a file. -/
structure HostExported (v : UnlockedVault) (db : Db) (e : Uuid × HostBody) (h : BackupHost) : Prop where
  name : h.name = e.2.name
  address : h.address = e.2.address
  port : h.port = e.2.port
  workspace : h.workspace = e.2.workspace
  group : h.group = groupPath db e.2.groupId
  rdp : h.rdp = e.2.rdp
  comment : h.comment = e.2.comment
  login : LoginExported v db e.2.identityId h.login
  gateway : LoginExported v db e.2.gatewayIdentityId h.gatewayLogin

theorem mem_groupRows {b : GroupBody} :
    b ∈ groupRows db ↔ ∃ g r, db.row .group g = some r ∧ r.deleted = false ∧ r.body.name ≠ [] ∧ r.body = b := by
  unfold groupRows
  rw [List.mem_insertionSort, List.mem_map]
  constructor
  · rintro ⟨⟨g, r⟩, he, rfl⟩
    obtain ⟨hr, hp⟩ := Table.mem_select.mp he
    simp only [Bool.and_eq_true, Bool.not_eq_true', List.isEmpty_eq_false_iff] at hp
    exact ⟨g, r, hr, hp.1, hp.2, rfl⟩
  · rintro ⟨g, r, hr, hd, hn, rfl⟩
    refine ⟨(g, r), Table.mem_select.mpr ⟨hr, ?_⟩, rfl⟩
    rw [hd, Bool.not_false, Bool.true_and, Bool.not_eq_true', List.isEmpty_eq_false_iff]
    exact hn

variable {e : Uuid × HostBody} {g : Uuid} {r : Row GroupBody}

theorem mem_hostRows : e ∈ hostRows db ↔ ∃ r, db.row .host e.1 = some r ∧ r.deleted = false ∧ r.body = e.2 := by
  unfold hostRows
  rw [List.mem_insertionSort, List.mem_map]
  constructor
  · rintro ⟨⟨h, r⟩, he, rfl⟩
    obtain ⟨hr, hp⟩ := Table.mem_select.mp he
    exact ⟨r, hr, by simpa using hp, rfl⟩
  · rintro ⟨r, hr, hd, hb⟩
    refine ⟨(e.1, r), Table.mem_select.mpr ⟨hr, by rw [hd]; rfl⟩, Prod.ext rfl hb⟩

def hostRecord (db : Db) (e : Uuid × HostBody) : HostRecord where
  id := e.1
  name := e.2.name
  address := e.2.address
  port := e.2.port
  login := readLogin db e.2.identityId
  groupPath := groupPath db e.2.groupId
  workspace := e.2.workspace
  position := e.2.position
  rdp := e.2.rdp
  comment := e.2.comment
  gateway := readLogin db e.2.gatewayIdentityId

theorem liveHost_of_mem (he : e ∈ hostRows db) : ∃ r, liveHost db e.1 = some r ∧ r.body = e.2 := by
  obtain ⟨r, hr, hd, hb⟩ := mem_hostRows.mp he
  refine ⟨r, ?_, hb⟩
  unfold liveHost
  rw [hr, Option.filter_some, hd]
  rfl

theorem listHosts_eq (db : Db) : listHosts db = (hostRows db).map (hostRecord db) := by
  refine List.filterMap_eq_map_iff_forall_eq_some.mpr fun e he => ?_
  obtain ⟨r, hr, hb⟩ := liveHost_of_mem he
  unfold readHost hostRecord
  rw [hr, Option.map_some, hb]

theorem own_login (db : Db) (identity group : Option Uuid) :
    ((resolved db identity false).or (resolvedGroup db group)).filter (fun l => !l.fromGroup) = resolved db identity
    false := by
  have hown : ∀ l, resolved db identity false = some l → l.fromGroup = false := by
    intro l hl
    obtain ⟨i, -, hl⟩ := Option.bind_eq_some_iff.mp hl
    obtain ⟨r, -, rfl⟩ := Option.map_eq_some_iff.mp hl
    rfl
  have hgroup : ∀ l, resolvedGroup db group = some l → l.fromGroup = true := by
    intro l hl
    obtain ⟨r, -, hl⟩ := Option.bind_eq_some_iff.mp hl
    obtain ⟨i, -, hl⟩ := Option.bind_eq_some_iff.mp hl
    obtain ⟨r, -, rfl⟩ := Option.map_eq_some_iff.mp hl
    rfl
  rcases hresolved : resolved db identity false with _ | l
  · rw [Option.none_or]
    rcases hinherited : resolvedGroup db group with _ | l
    · rfl
    · rw [Option.filter_some, hgroup l hinherited]
      rfl
  · rw [Option.some_or, Option.filter_some, hown l hresolved]
    rfl

theorem hostLogin_eq {r : Row HostBody} (h : liveHost db id = some r) : hostLogin db id =
    .ok ((resolved db r.body.identityId false).or (resolvedGroup db r.body.groupId)) := by
  unfold hostLogin
  rw [h]
  dsimp only
  rcases resolved db r.body.identityId false with _ | l
  · rfl
  · rfl

theorem namedGroupLogin_eq (hr : db.row .group g = some r) (hd : r.deleted = false)
    (hunique : ∀ g' q, db.row .group g' = some q → q.deleted = false → q.body.workspace = r.body.workspace →
      q.body.name = r.body.name → g' = g) :
    namedGroupLogin db r.body.workspace r.body.name = resolved db r.body.identityId false := by
  unfold namedGroupLogin
  cases hfind : (db.rows .group).find? fun _ q =>
      q.body.workspace = r.body.workspace && q.body.name = r.body.name && !q.deleted with
  | none =>
    have hnot := Table.find?_none hfind hr
    simp [hd] at hnot
  | some e =>
    obtain ⟨g', q⟩ := e
    obtain ⟨hq, hp⟩ := Table.find?_some hfind
    simp only [Bool.and_eq_true, decide_eq_true_eq, Bool.not_eq_true'] at hp
    have hsame : g' = g := hunique g' q hq hp.2 hp.1.1 hp.1.2
    subst hsame
    have hsame : some r = some q := hr.symm.trans hq
    cases hsame
    rfl

variable [Platform]

theorem Tidy.groupLogin (h : Tidy v db) (hr : db.row .group g = some r) (hd : r.deleted = false) : namedGroupLogin db
    r.body.workspace r.body.name = resolved db r.body.identityId false :=
  namedGroupLogin_eq hr hd fun g' q hq hqd hw hn => h.nested.unique g' g q r hq hqd hr hd hw hn

theorem backupGroup_ok (h : Tidy v db) {b : GroupBody} (hb : b ∈ groupRows db) :
    ∃ g, backupGroup db (some v) true
        { workspace := b.workspace, name := b.name, position := b.position, login := readLogin db b.identityId
          drives := b.drives } = .ok g ∧ GroupExported v db b g := by
  obtain ⟨i, r, hr, hd, -, rfl⟩ := mem_groupRows.mp hb
  obtain ⟨l, hl, hexported⟩ := backupLogin_ok h r.body.identityId false fun i hi =>
    h.balanced.refs .group _ r hr hd (.identity, i) (by simp [Body.refs, hi])
  refine ⟨⟨r.body.workspace, r.body.name, l, r.body.drives⟩, ?_, rfl, rfl, rfl, hexported⟩
  unfold backupGroup
  rw [h.groupLogin hr hd, hl]
  rfl

theorem backupHost_ok (h : Tidy v db) (he : e ∈ hostRows db) :
    ∃ b, backupHost db (some v) true (hostRecord db e) = .ok b ∧ HostExported v db e b := by
  obtain ⟨r, hlive, hb⟩ := liveHost_of_mem he
  obtain ⟨hr, hd⟩ := liveHost_some hlive
  have hrefs := h.balanced.refs .host _ r hr hd
  obtain ⟨l, hl, hexported⟩ := backupLogin_ok h r.body.identityId false fun i hi =>
    hrefs (.identity, i) (by simp [Body.refs, hi])
  obtain ⟨g, hg, hgateway⟩ := backupLogin_ok h r.body.gatewayIdentityId false fun i hi =>
    hrefs (.identity, i) (by simp [Body.refs, hi])
  rw [hb] at hl hg hexported hgateway
  refine ⟨⟨e.2.name, e.2.address, e.2.port, e.2.workspace, groupPath db e.2.groupId, e.2.position, l, g, e.2.rdp,
    e.2.comment⟩, ?_, rfl, rfl, rfl, rfl, rfl, rfl, rfl, hexported, hgateway⟩
  have hgatewayLogin : hostGatewayLogin db e.1 = .ok (resolved db e.2.gatewayIdentityId false) := by
    unfold hostGatewayLogin
    rw [hlive, ← hb]
  unfold backupHost
  rw [show (hostRecord db e).id = e.1 from rfl, hostLogin_eq hlive, hgatewayLogin]
  show (backupLogin db (some v) true (Option.filter _ _) >>= fun login => _) = _
  rw [hb, own_login, hl]
  show (backupLogin db (some v) true (resolved db e.2.gatewayIdentityId false) >>= fun login => _) = _
  rw [hg]
  rfl

theorem exportBackup_ok (h : Tidy v db) : ∃ backup, exportBackup db (some v) true = .ok backup ∧ List.Forall₂
    (GroupExported v db) (groupRows db) backup.groups ∧ List.Forall₂ (HostExported v db) (hostRows db) backup.hosts ∧
    backup.knownHosts = (listKnownHosts db).map backupKnownHost := by
  obtain ⟨groups, hgroups, hgs⟩ := mapM_ok fun b hb => backupGroup_ok h hb
  obtain ⟨hosts, hhosts, hhs⟩ := mapM_ok fun e he => backupHost_ok h he
  refine ⟨⟨groups, hosts, (listKnownHosts db).map backupKnownHost⟩, ?_, hgs, hhs, rfl⟩
  unfold exportBackup
  rw [if_neg (by simp), listHosts_eq, listGroups, List.mapM_map, List.mapM_map]
  simp only [Function.comp_def, hgroups, hhosts]
  rfl

end Lists

/-! ## The set an import is given -/

section Inputs

def given (logins : List (Option BackupLogin)) : List LoginInput :=
  (logins.filterMap fun l => l).map BackupLogin.input

theorem addLogin_given (logins : List LoginInput) (l : Option BackupLogin) : (addLogin logins l).2 = logins ++ given
    [l] ∧ ∀ all, (addLogin logins l).2 <+: all → ((addLogin logins l).1.bind fun i => all[i]?) = l.map
    BackupLogin.input := by
  cases l with
  | none => exact ⟨(List.append_nil logins).symm, fun _ _ => rfl⟩
  | some l =>
    refine ⟨rfl, ?_⟩
    rintro all ⟨more, rfl⟩
    show ((logins ++ [l.input]) ++ more)[logins.length]? = some l.input
    rw [List.append_assoc, List.getElem?_append_right (Nat.le_refl _), Nat.sub_self]
    rfl

theorem given_append (l l' : List (Option BackupLogin)) : given (l ++ l') = given l ++ given l' := by
  simp [given]

theorem given_cons (l : Option BackupLogin) (rest : List (Option BackupLogin)) :
    given (l :: rest) = given [l] ++ given rest := given_append [l] rest

theorem length_given (l : List (Option BackupLogin)) : (given l).length = l.countP Option.isSome := by
  induction l with
  | nil => rfl
  | cons a l ih =>
    rw [given_cons, List.length_append, ih, List.countP_cons]
    cases a <;> simp [given, Nat.add_comm]

/-- A group of a set is as its file has it. -/
structure GroupGiven (all : List LoginInput) (g : BackupGroup) (input : GroupInput) : Prop where
  workspace : input.workspace = g.workspace
  name : input.name = g.name
  drives : input.drives = g.drives
  login : (input.login.bind fun i => all[i]?) = g.login.map BackupLogin.input

/-- A host of a set is as its file has it, at no place of its own. -/
structure HostGiven (all : List LoginInput) (h : BackupHost) (input : HostInput) : Prop where
  name : input.name = h.name
  address : input.address = h.address
  port : input.port = h.port
  workspace : input.workspace = h.workspace
  group : input.groupPath = h.group
  position : input.position = none
  rdp : input.rdp = h.rdp
  comment : input.comment = h.comment
  login : (input.login.bind fun i => all[i]?) = h.login.map BackupLogin.input
  gateway : (input.gatewayLogin.bind fun i => all[i]?) = h.gatewayLogin.map BackupLogin.input

theorem groupInputs_given (logins : List LoginInput) (gs : List BackupGroup) : (groupInputs logins gs).2 = logins ++
    given (gs.map BackupGroup.login) ∧ ∀ all, (groupInputs logins gs).2 <+: all → List.Forall₂ (GroupGiven all) gs
    (groupInputs logins gs).1 := by
  induction gs generalizing logins with
  | nil => exact ⟨(List.append_nil logins).symm, fun _ _ => .nil⟩
  | cons g gs ih =>
    obtain ⟨hadd, hlogin⟩ := addLogin_given logins g.login
    obtain ⟨hrest, hgs⟩ := ih (addLogin logins g.login).2
    refine ⟨?_, fun all hall => .cons ⟨rfl, rfl, rfl, hlogin all ?_⟩ (hgs all hall)⟩
    · show (groupInputs (addLogin logins g.login).2 gs).2 = _
      rw [hrest, hadd, List.append_assoc, ← given_append]
      rfl
    · refine List.IsPrefix.trans ?_ hall
      show _ <+: (groupInputs (addLogin logins g.login).2 gs).2
      rw [hrest]
      exact List.prefix_append _ _

theorem hostInputs_given (logins : List LoginInput) (hs : List BackupHost) : (hostInputs logins hs).2 = logins ++
    given (hs.flatMap fun h => [h.login, h.gatewayLogin]) ∧ ∀ all, (hostInputs logins hs).2 <+: all → List.Forall₂
    (HostGiven all) hs (hostInputs logins hs).1 := by
  induction hs generalizing logins with
  | nil => exact ⟨(List.append_nil logins).symm, fun _ _ => .nil⟩
  | cons h hs ih =>
    obtain ⟨hadd, hlogin⟩ := addLogin_given logins h.login
    obtain ⟨hadd', hgateway⟩ := addLogin_given (addLogin logins h.login).2 h.gatewayLogin
    obtain ⟨hrest, hhs⟩ := ih (addLogin (addLogin logins h.login).2 h.gatewayLogin).2
    have hwhole : (addLogin (addLogin logins h.login).2 h.gatewayLogin).2 <+: (hostInputs logins (h :: hs)).2 := by
      show _ <+: (hostInputs (addLogin (addLogin logins h.login).2 h.gatewayLogin).2 hs).2
      rw [hrest]
      exact List.prefix_append _ _
    refine ⟨?_, fun all hall => .cons ⟨rfl, rfl, rfl, rfl, rfl, rfl, rfl, rfl, hlogin all ?_, hgateway all ?_⟩
      (hhs all hall)⟩
    · show (hostInputs (addLogin (addLogin logins h.login).2 h.gatewayLogin).2 hs).2 = _
      rw [hrest, hadd', hadd, List.append_assoc, List.append_assoc, ← given_append, ← given_append]
      rfl
    · refine List.IsPrefix.trans ?_ (hwhole.trans hall)
      rw [hadd']
      exact List.prefix_append _ _
    · exact hwhole.trans hall

theorem importSet_given (b : Backup) :
    List.Forall₂ (GroupGiven b.importSet.logins) b.groups b.importSet.groups ∧
      List.Forall₂ (HostGiven b.importSet.logins) b.hosts b.importSet.hosts ∧
      b.importSet.logins =
        given (b.groups.map BackupGroup.login ++ b.hosts.flatMap fun h => [h.login, h.gatewayLogin]) ∧
      b.importSet.knownHosts = (b.knownHosts.filter fun k =>
        (b.hosts.map fun h => (normalise h.address, h.port)).contains (normalise k.address, k.port)).map
          knownHostInput := by
  obtain ⟨hgroups, hgs⟩ := groupInputs_given [] b.groups
  obtain ⟨hhosts, hhs⟩ := hostInputs_given (groupInputs [] b.groups).2 b.hosts
  refine ⟨hgs _ ?_, hhs _ List.prefix_rfl, ?_, rfl⟩
  · show _ <+: (hostInputs (groupInputs [] b.groups).2 b.hosts).2
    rw [hhosts]
    exact List.prefix_append _ _
  · show (hostInputs (groupInputs [] b.groups).2 b.hosts).2 = _
    rw [hhosts, hgroups, List.nil_append, given_append]

end Inputs

section Clean

theorem map_eq_of_forall₂ {α β γ : Type} {R : α → β → Prop} {f : α → γ} {g : β → γ} {l : List α} {l' : List β}
    (h : List.Forall₂ R l l') (hr : ∀ a b, R a b → g b = f a) : l'.map g = l.map f := by
  induction h with
  | nil => rfl
  | cons hab _ ih => rw [List.map_cons, List.map_cons, hr _ _ hab, ih]

theorem groupPath_some {group : Option Uuid} {name : Text} (h : groupPath db group = some name) :
    ∃ g r, group = some g ∧ db.row .group g = some r ∧ r.deleted = false ∧ r.body.name = name ∧ name ≠ [] := by
  unfold groupPath at h
  obtain ⟨hname, hne⟩ := Option.filter_eq_some_iff.mp h
  obtain ⟨r, hr, rfl⟩ := Option.map_eq_some_iff.mp hname
  obtain ⟨g, hg, hr⟩ := Option.bind_eq_some_iff.mp hr
  obtain ⟨hrow, hd⟩ := Option.filter_eq_some_iff.mp hr
  exact ⟨g, r, hg, hrow, by simpa using hd, rfl, by simpa using hne⟩

theorem mem_listKnownHosts {k : KnownHostRecord} :
    k ∈ listKnownHosts db ↔ ∃ i r, db.row .knownHost i = some r ∧ r.deleted = false ∧ r.body.answer = k := by
  unfold listKnownHosts
  rw [List.mem_map]
  constructor
  · rintro ⟨b, hb, rfl⟩
    rw [List.mem_insertionSort, List.mem_map] at hb
    obtain ⟨⟨i, r⟩, he, rfl⟩ := hb
    obtain ⟨hr, hd⟩ := Table.mem_select.mp he
    exact ⟨i, r, hr, by simpa using hd, rfl⟩
  · rintro ⟨i, r, hr, hd, rfl⟩
    refine ⟨r.body, ?_, rfl⟩
    rw [List.mem_insertionSort, List.mem_map]
    exact ⟨(i, r), Table.mem_select.mpr ⟨hr, by rw [hd]; rfl⟩, rfl⟩

theorem nodup_keys {κ : Type} {p : Uuid → Row (Body k) → Bool} (f : Body k → κ)
    (h : ∀ i j r r', db.row k i = some r → p i r = true → db.row k j = some r' → p j r' = true →
      f r.body = f r'.body → i = j) : (((db.rows k).select p).map fun e => f e.2.body).Nodup := by
  refine List.Nodup.map_on ?_ (List.Nodup.of_map _ (Table.nodup_select (db.rows k) p))
  rintro ⟨i, r⟩ hi ⟨j, r'⟩ hj hsame
  obtain ⟨hr, hp⟩ := Table.mem_select.mp hi
  obtain ⟨hr', hp'⟩ := Table.mem_select.mp hj
  obtain rfl := h i j r r' hr hp hr' hp' hsame
  rw [Option.some.inj (hr.symm.trans hr')]

theorem LoginExported.clean_given {identity : Option Uuid} {l : Option BackupLogin} {x : LoginInput}
    (h : LoginExported v db identity l) (hx : l.map BackupLogin.input = some x) : x.Clean := by
  obtain ⟨y, hy, rfl⟩ := Option.map_eq_some_iff.mp hx
  exact h.clean y hy

variable [Platform] {b : Backup}

theorem nodup_groupRows (h : Tidy v db) : ((groupRows db).map fun b => (b.workspace, b.name)).Nodup := by
  unfold groupRows
  refine (((List.perm_insertionSort groupLe _).map _).nodup_iff).mpr ?_
  rw [List.map_map]
  refine nodup_keys (k := .group) (fun b => (b.workspace, b.name)) fun i j r r' hr hp hr' hp' hsame => ?_
  simp only [Bool.and_eq_true, Bool.not_eq_true'] at hp hp'
  obtain ⟨hw, hn⟩ := Prod.mk.inj hsame
  exact h.nested.unique i j r r' hr hp.1 hr' hp'.1 hw hn

theorem nodup_listKnownHosts (h : Tidy v db) : ((listKnownHosts db).map fun k => (normalise k.address, k.port)).Nodup := by
  unfold listKnownHosts
  rw [List.map_map]
  refine (((List.perm_insertionSort knownHostLe _).map _).nodup_iff).mpr ?_
  rw [List.map_map]
  refine nodup_keys (k := .knownHost) (fun b => (normalise b.address, b.port)) fun i j r r' hr _ hr' _ hsame => ?_
  obtain ⟨ha, hp⟩ := Prod.mk.inj hsame
  have htidy : normalise r.body.address = r.body.address := h.rows .knownHost i r hr
  have htidy' : normalise r'.body.address = r'.body.address := h.rows .knownHost j r' hr'
  rw [htidy, htidy'] at ha
  exact h.slots i j r r' hr hr' ha hp

theorem importSet_clean (h : Tidy v db) (hgs : List.Forall₂ (GroupExported v db) (groupRows db) b.groups)
    (hhs : List.Forall₂ (HostExported v db) (hostRows db) b.hosts)
    (hks : b.knownHosts = (listKnownHosts db).map backupKnownHost) : b.importSet.Clean := by
  obtain ⟨hgiven, hhgiven, -, hkeys⟩ := importSet_given b
  refine ⟨fun i hi => ?_, ?_, fun i hi => ?_, ?_⟩
  · obtain ⟨g, hg, hgi⟩ := exists_of_mem_right hgiven hi
    obtain ⟨body, hbody, hexported⟩ := exists_of_mem_right hgs hg
    obtain ⟨id, r, hr, -, -, rfl⟩ := mem_groupRows.mp hbody
    refine ⟨?_, fun x hx => hexported.login.clean_given (hgi.login.symm.trans hx)⟩
    rw [hgi.name, hexported.name]
    exact h.rows .group id r hr
  · rw [map_eq_of_forall₂ hgiven (f := fun g => (g.workspace, g.name)) fun g i hi => by rw [hi.workspace, hi.name],
      map_eq_of_forall₂ hgs (f := fun b => (b.workspace, b.name)) fun b g hg => by rw [hg.workspace, hg.name]]
    exact nodup_groupRows h
  · obtain ⟨x, hx, hxi⟩ := exists_of_mem_right hhgiven hi
    obtain ⟨e, he, hexported⟩ := exists_of_mem_right hhs hx
    obtain ⟨r, hr, hd, hb⟩ := mem_hostRows.mp he
    have hpath : i.groupPath = groupPath db e.2.groupId := hxi.group.trans hexported.group
    refine ⟨?_, fun name hname => ?_, hxi.position, fun l hl => hexported.login.clean_given (hxi.login.symm.trans hl),
      fun l hl => hexported.gateway.clean_given (hxi.gateway.symm.trans hl)⟩
    · rw [hpath]
      rcases hgroup : groupPath db e.2.groupId with _ | name
      · rfl
      · obtain ⟨g, q, -, hq, -, rfl, -⟩ := groupPath_some hgroup
        exact h.rows .group g q hq
    · obtain ⟨g, q, hg, hq, hqd, rfl, hne⟩ := groupPath_some (hpath.symm.trans hname)
      obtain ⟨q', hq', hw⟩ := h.nested.placed e.1 r hr hd g (by rw [hb]; exact hg)
      cases hq.symm.trans hq'
      obtain ⟨bg, hbg, hexp⟩ := exists_of_mem_left hgs (mem_groupRows.mpr ⟨g, q, hq, hqd, hne, rfl⟩)
      obtain ⟨j, hj, hji⟩ := exists_of_mem_left hgiven hbg
      refine ⟨j, hj, ?_, hji.name.trans hexp.name⟩
      rw [hji.workspace, hexp.workspace, hw, hb, hxi.workspace, hexported.workspace]
  · rw [hkeys, hks, List.map_map]
    refine List.Nodup.sublist ?_ (nodup_listKnownHosts h)
    have hmap : (listKnownHosts db).map (fun k => (normalise k.address, k.port)) =
        ((listKnownHosts db).map backupKnownHost).map fun k => (normalise k.address, k.port) := by
      rw [List.map_map]
      rfl
    rw [hmap]
    exact List.filter_sublist.map _

end Clean

end UwuRdp
