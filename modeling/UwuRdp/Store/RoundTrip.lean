import UwuRdp.Store.Export

/-!
# Export and import bring the connections back

What the user has of a store, group by group: the hosts in their order with all that is set for them and the login
they connect with, the groups, and the certificates trusted for the hosts. It comes back through a file just where
every host is one the import takes, as it is.
-/

namespace UwuRdp

open Lib

variable {cx : Session} {db db' db₀ : Db} {v v' : UnlockedVault} {set : ImportSet} {s : TxState}

/-! ## Orders -/

section Orders

variable {α β : Type} {r : α → α → Prop} {q : β → β → Prop}

theorem lexLe_total (hr : ∀ a b, r a b ∨ r b a) (hq : ∀ a b, q a b ∨ q b a) (a b : α × β) :
    lexLe r q a b ∨ lexLe r q b a := by
  by_cases hsame : a.1 = b.1
  · rcases hq a.2 b.2 with h | h
    · exact .inl ⟨hsame ▸ (hr a.1 a.1).elim id id, fun _ => h⟩
    · exact .inr ⟨hsame ▸ (hr a.1 a.1).elim id id, fun _ => h⟩
  · rcases hr a.1 b.1 with h | h
    · exact .inl ⟨h, fun he => absurd he hsame⟩
    · exact .inr ⟨h, fun he => absurd he.symm hsame⟩

theorem lexLe_trans (hr : ∀ a b c, r a b → r b c → r a c) (hanti : ∀ a b, r a b → r b a → a = b)
    (hq : ∀ a b c, q a b → q b c → q a c) {a b c : α × β} (h : lexLe r q a b) (h' : lexLe r q b c) :
    lexLe r q a c := by
  refine ⟨hr _ _ _ h.1 h'.1, fun he => ?_⟩
  have hab : a.1 = b.1 := hanti _ _ h.1 (he ▸ h'.1)
  exact hq _ _ _ (h.2 hab) (h'.2 (hab ▸ he))

theorem textLe_total (a b : Text) : textLe a b ∨ textLe b a := Text.le_total a b

theorem textLe_trans (a b c : Text) (h : textLe a b) (h' : textLe b c) : textLe a c := Text.le_trans h h'

theorem textLe_antisymm (a b : Text) (h : textLe a b) (h' : textLe b a) : a = b := Text.le_antisymm h h'

theorem placeLe_total (a b : ℤ × Text) : placeLe a b ∨ placeLe b a := by
  unfold placeLe
  rcases lt_trichotomy a.1 b.1 with h | h | h
  · exact .inl (.inl h)
  · rcases Text.le_total (Text.toAsciiLowercase a.2) (Text.toAsciiLowercase b.2) with hle | hle
    · exact .inl (.inr ⟨h, hle⟩)
    · exact .inr (.inr ⟨h.symm, hle⟩)
  · exact .inr (.inl h)

theorem placeLe_trans (a b c : ℤ × Text) (h : placeLe a b) (h' : placeLe b c) : placeLe a c := by
  unfold placeLe at h h' ⊢
  rcases h with h | ⟨h, hle⟩
  · rcases h' with h' | ⟨h', -⟩
    · exact .inl (h.trans h')
    · exact .inl (h' ▸ h)
  · rcases h' with h' | ⟨h', hle'⟩
    · exact .inl (h ▸ h')
    · exact .inr ⟨h.trans h', Text.le_trans hle hle'⟩

theorem groupLe_total (a b : GroupBody) : groupLe a b ∨ groupLe b a :=
  lexLe_total textLe_total placeLe_total _ _

theorem groupLe_trans (a b c : GroupBody) : groupLe a b → groupLe b c → groupLe a c :=
  lexLe_trans textLe_trans textLe_antisymm placeLe_trans

theorem hostLe_total (db : Db) (a b : HostBody) : hostLe db a b ∨ hostLe db b a :=
  lexLe_total textLe_total (lexLe_total textLe_total placeLe_total) _ _

theorem hostLe_trans (db : Db) (a b c : HostBody) : hostLe db a b → hostLe db b c → hostLe db a c :=
  lexLe_trans (q := lexLe textLe placeLe) textLe_trans textLe_antisymm fun _ _ _ =>
    lexLe_trans textLe_trans textLe_antisymm placeLe_trans

theorem knownHostLe_total (a b : KnownHostPayload) : knownHostLe a b ∨ knownHostLe b a :=
  lexLe_total textLe_total Nat.le_total _ _

theorem knownHostLe_trans (a b c : KnownHostPayload) : knownHostLe a b → knownHostLe b c → knownHostLe a c :=
  lexLe_trans (q := fun m n : ℕ => m ≤ n) textLe_trans textLe_antisymm fun _ _ _ => Nat.le_trans

theorem filter_sorted {α : Type} {r : α → α → Prop} [DecidableRel r] (htotal : ∀ a b, r a b ∨ r b a)
    (htrans : ∀ a b c, r a b → r b c → r a c) {p : α → Bool} {l : List α} (h : (l.filter p).Pairwise r) :
    (l.insertionSort r).filter p = l.filter p := by
  let _ : IsTrans α r := ⟨htrans⟩
  let _ : Std.Total r := ⟨htotal⟩
  rw [filter_insertionSort, h.insertionSort_eq]

end Orders

/-! ## What the user has -/

section Views

def ResolvedLogin.credentials (db : Db) (vault : Option UnlockedVault) (l : ResolvedLogin) : Credentials :=
  (l.username, l.domain, revealLoginPassword db vault l)

/-- A host with all that is set for it, but for its id, its clock and its place. -/
structure HostView where
  name : Text
  address : Text
  port : UInt16
  rdp : RdpSettings
  comment : Text
  /-- The login it connects with, and whether its group hands it down. -/
  login : Option (Bool × Credentials)
  gateway : Option Credentials

def hostView (db : Db) (vault : Option UnlockedVault) (h : HostRecord) : HostView where
  name := h.name
  address := h.address
  port := h.port
  rdp := h.rdp
  comment := h.comment
  login := (hostLogin db h.id).toOption.join.map fun l => (l.fromGroup, l.credentials db vault)
  gateway := (hostGatewayLogin db h.id).toOption.join.map fun l => l.credentials db vault

/-- The hosts of a workspace in a group, or in none, in their order. -/
def hostViews (db : Db) (vault : Option UnlockedVault) (workspace : Workspace) (path : Option Text) : List HostView :=
  ((listHosts db).filter fun h => h.workspace = workspace ∧ h.groupPath = path).map (hostView db vault)

structure GroupView where
  name : Text
  login : Option Credentials
  drives : Option DriveRedirection

def groupViews (db : Db) (vault : Option UnlockedVault) (workspace : Workspace) : List GroupView :=
  ((listGroups db).filter fun g => g.workspace = workspace).map fun g =>
    ⟨g.name, (namedGroupLogin db g.workspace g.name).map fun l => l.credentials db vault, g.drives⟩

/-- The certificates that are trusted for the hosts there are. -/
def trustedKeys (db : Db) : List BackupKnownHost :=
  ((listKnownHosts db).filter fun k =>
    ((listHosts db).map fun h => (normalise h.address, h.port)).contains (normalise k.address, k.port)).map
      backupKnownHost

/-- Two stores have the same groups, hosts and certificates, each opened with its vault. -/
structure SameConnections (v v' : UnlockedVault) (db db' : Db) : Prop where
  groups : ∀ workspace, groupViews db' (some v') workspace = groupViews db (some v) workspace
  hosts : ∀ workspace path, hostViews db' (some v') workspace path = hostViews db (some v) workspace path
  keys : trustedKeys db' = trustedKeys db

/-- What the login of a group comes to, if it is live. -/
def groupCredentials (db : Db) (v : UnlockedVault) (group : Option Uuid) : Option Credentials :=
  (group.bind fun g => (db.row .group g).filter fun r => !r.deleted).bind fun r =>
    credentials db (some v) r.body.identityId

theorem resolved_credentials (db : Db) (vault : Option UnlockedVault) (identity : Option Uuid) (fromGroup : Bool) :
    (resolved db identity fromGroup).map (fun l => (l.fromGroup, l.credentials db vault)) =
    (credentials db vault identity).map (Prod.mk fromGroup) := by
  unfold resolved credentials resolved
  rcases identity with _ | i
  · rfl
  · rw [Option.bind_some, Option.bind_some, Option.map_map, Option.map_map, Option.map_map]
    rfl

theorem resolvedGroup_credentials (db : Db) (v : UnlockedVault) (group : Option Uuid) : (resolvedGroup db group).map
    (fun l => (l.fromGroup, l.credentials db (some v))) = (groupCredentials db v group).map (Prod.mk true) := by
  unfold resolvedGroup groupCredentials
  rw [Option.map_bind, Option.map_bind]
  exact Option.bind_congr fun r _ => resolved_credentials db (some v) r.body.identityId true

theorem hostView_eq (v : UnlockedVault) {e : Uuid × HostBody} (he : e ∈ hostRows db) :
    hostView db (some v) (hostRecord db e) =
      { name := e.2.name, address := e.2.address, port := e.2.port, rdp := e.2.rdp, comment := e.2.comment
        login := ((credentials db (some v) e.2.identityId).map (Prod.mk false)).or
          ((groupCredentials db v e.2.groupId).map (Prod.mk true))
        gateway := credentials db (some v) e.2.gatewayIdentityId } := by
  obtain ⟨r, hlive, hb⟩ := liveHost_of_mem he
  have hgateway : hostGatewayLogin db e.1 = .ok (resolved db e.2.gatewayIdentityId false) := by
    unfold hostGatewayLogin
    rw [hlive, ← hb]
  unfold hostView
  rw [show (hostRecord db e).id = e.1 from rfl, hostLogin_eq hlive, hgateway, hb]
  refine congrArg₂ (fun login gateway => HostView.mk e.2.name e.2.address e.2.port e.2.rdp e.2.comment login gateway)
    ?_ ?_
  · show ((resolved db e.2.identityId false).or (resolvedGroup db e.2.groupId)).map _ = _
    rw [Option.map_or, resolved_credentials, resolvedGroup_credentials]
  · show (resolved db e.2.gatewayIdentityId false).map _ = _
    unfold credentials
    rfl

end Views

/-! ## A store that was filled -/

section Filled

variable [Platform] {hs : List HostInput} {ks : List KnownHostInput}

theorem HostFilled.path {i : HostInput} {e : Uuid × Row HostBody} (hi : HostFilled v' set s.db i e)
    (h : Filled cx v' set set.groups hs ks s) (hclean : i.Clean set) : groupPath s.db e.2.body.groupId = i.groupPath := by
  rw [hi.group]
  rcases hpath : i.groupPath with _ | name
  · rfl
  · obtain ⟨g, hg, hw, hn⟩ := hclean.group name hpath
    obtain ⟨id, hid⟩ := Option.ne_none_iff_exists'.mp (h.named hg hw hn)
    obtain ⟨r, hr, hd, -, hname⟩ := groupId_some hid
    have hne : name ≠ [] := by
      rintro rfl
      have hok := hclean.path
      rw [hpath] at hok
      cases hok
    unfold groupPath
    rw [Option.bind_some, hid, Option.bind_some, hr, Option.filter_some, hd, Bool.not_false, if_pos rfl,
      Option.map_some, hname, Option.filter_some, if_pos (by simpa using hne)]

theorem Filled.hostRows_eq (h : Filled cx v' set set.groups hs ks s) : hostRows s.db =
    ((s.db.rows .host).entries.map fun e => (e.1, e.2.body)).insertionSort fun a b => hostLe s.db a.2 b.2 := by
  unfold hostRows Table.select
  rw [List.filter_eq_self.mpr]
  intro e he
  obtain ⟨i, -, hi⟩ := exists_of_mem_right h.hosts he
  show (!e.2.deleted) = true
  rw [hi.live]
  rfl

theorem Filled.hostRows_filter (h : Filled cx v' set set.groups hs ks s) (hclean : ∀ i ∈ hs, i.Clean set)
    (workspace : Workspace) (path : Option Text) :
    ((hostRows s.db).filter fun e => e.2.workspace = workspace ∧ groupPath s.db e.2.groupId = path) =
      ((s.db.rows .host).entries.filter fun e =>
        e.2.body.workspace = workspace ∧ groupPath s.db e.2.body.groupId = path).map fun e => (e.1, e.2.body) := by
  rw [h.hostRows_eq, filter_sorted (fun a b => hostLe_total s.db a.2 b.2) (fun a b c => hostLe_trans s.db a.2 b.2 c.2),
    List.filter_map]
  · rfl
  rw [List.filter_map, List.pairwise_map]
  -- They are among the hosts of one workspace and group id, which are numbered.
  have hnumbered := h.hosted.pairwise (workspace, path.bind (groupId s.db workspace))
  have hamong : List.Sublist ((s.db.rows .host).entries.filter fun e =>
        e.2.body.workspace = workspace ∧ groupPath s.db e.2.body.groupId = path)
      ((s.db.rows .host).entries.filter fun e =>
        (e.2.body.workspace, e.2.body.groupId) = (workspace, path.bind (groupId s.db workspace))) := by
    have hboth : ∀ e ∈ (s.db.rows .host).entries,
        decide (e.2.body.workspace = workspace ∧ groupPath s.db e.2.body.groupId = path) =
          (decide (e.2.body.workspace = workspace ∧ groupPath s.db e.2.body.groupId = path) &&
            decide ((e.2.body.workspace, e.2.body.groupId) = (workspace, path.bind (groupId s.db workspace)))) := by
      intro e he
      obtain ⟨i, hmem, hi⟩ := exists_of_mem_right h.hosts he
      rw [Bool.eq_iff_iff, Bool.and_eq_true, decide_eq_true_eq, decide_eq_true_eq, Prod.mk.injEq]
      refine ⟨fun hp => ⟨hp, hp.1, ?_⟩, fun hp => hp.1⟩
      rw [← hp.2, hi.path h (hclean i hmem), hi.group, ← hp.1, hi.workspace]
    rw [List.filter_congr hboth, ← List.filter_filter]
    exact List.filter_sublist
  refine List.Pairwise.imp_of_mem ?_ (hnumbered.sublist hamong)
  · intro a b ha hb hlt
    obtain ⟨-, ha⟩ := List.mem_filter.mp ha
    obtain ⟨-, hb⟩ := List.mem_filter.mp hb
    simp only [Function.comp_apply, decide_eq_true_eq] at ha hb
    have hrefl : ∀ t, textLe t t := fun t => (textLe_total t t).elim id id
    refine ⟨?_, fun _ => ⟨?_, fun _ => .inl hlt⟩⟩
    · show textLe a.2.body.workspace.asStr b.2.body.workspace.asStr
      rw [ha.1, hb.1]
      exact hrefl _
    · show textLe (Text.toAsciiLowercase ((groupPath s.db a.2.body.groupId).getD []))
        (Text.toAsciiLowercase ((groupPath s.db b.2.body.groupId).getD []))
      rw [ha.2, hb.2]
      exact hrefl _

end Filled

/-! ## What comes back -/

section Brought

theorem login_back {identity identity' : Option Uuid} {l : Option BackupLogin} {index : Option ℕ}
    (hexported : LoginExported v db identity l) (hgiven : set.loginAt index = l.map BackupLogin.input)
    (hfilled : LoginFilled v' db' identity' (set.loginAt index)) :
    credentials db' (some v') identity' = credentials db (some v) identity := by
  rw [hfilled.credentials fun x hx => (hexported.clean_given (hgiven.symm.trans hx)).named, hgiven, hexported.credentials,
    Option.map_map]
  exact Option.map_congr fun x _ => x.credentials_input

variable {g : Uuid} {e : Uuid × HostBody} {i : HostInput} {e' : Uuid × Row HostBody}

theorem groupCredentials_live {r : Row GroupBody} (hr : db.row .group g = some r) (hd : r.deleted = false) :
    groupCredentials db v (some g) = credentials db (some v) r.body.identityId := by
  unfold groupCredentials
  rw [Option.bind_some, hr, Option.filter_some, hd, Bool.not_false, if_pos rfl, Option.bind_some]

variable [Platform] {b : Backup}

/-- An export of one store was imported into another. -/
structure Brought (cx : Session) (v v' : UnlockedVault) (db : Db) (b : Backup) (s : TxState) : Prop where
  tidy : Tidy v db
  groups : List.Forall₂ (GroupExported v db) (groupRows db) b.groups
  hosts : List.Forall₂ (HostExported v db) (hostRows db) b.hosts
  keys : b.knownHosts = (listKnownHosts db).map backupKnownHost
  filled : Filled cx v' b.importSet b.importSet.groups (takeHosts [] b.importSet.hosts) b.importSet.keysTaken s

theorem Tidy.named (h : Tidy v db) {r : Row GroupBody} (hr : db.row .group g = some r) : r.body.name ≠ [] := by
  intro hnil
  have hok : groupName (some r.body.name) = .ok (some r.body.name) := h.rows .group g r hr
  rw [hnil] at hok
  cases hok

theorem Brought.group_back (h : Brought cx v v' db b s) (he : e ∈ hostRows db)
    (hw : i.workspace = e.2.workspace) (hpath : i.groupPath = groupPath db e.2.groupId) :
    groupCredentials s.db v' (i.groupPath.bind (groupId s.db i.workspace)) = groupCredentials db v e.2.groupId := by
  obtain ⟨r, hr, hd, hb⟩ := mem_hostRows.mp he
  rcases hgroup : e.2.groupId with _ | g
  · rw [hpath, hgroup]
    rfl
  obtain ⟨q, hq, hqd⟩ := h.tidy.balanced.refs .host e.1 r hr hd (.group, g) (by simp [Body.refs, hb, hgroup])
  have hne := h.tidy.named hq
  obtain ⟨q', hq', hplaced⟩ := h.tidy.nested.placed e.1 r hr hd g (by rw [hb]; exact hgroup)
  cases hq.symm.trans hq'
  have hname : i.groupPath = some q.body.name := by
    rw [hpath, hgroup]
    unfold groupPath
    rw [Option.bind_some, hq, Option.filter_some, hqd, Bool.not_false, if_pos rfl, Option.map_some, Option.filter_some,
      if_pos (by simpa using hne)]
  obtain ⟨hgiven, -, -, -⟩ := importSet_given b
  -- The group is in the file, so the import made it.
  obtain ⟨x, hx, hexported⟩ := exists_of_mem_left h.groups (mem_groupRows.mpr ⟨g, q, hq, hqd, hne, rfl⟩)
  obtain ⟨input, hinput, hxi⟩ := exists_of_mem_left hgiven hx
  have hw' : input.workspace = i.workspace := by rw [hxi.workspace, hexported.workspace, hplaced, hb, hw]
  have hn' : input.name = q.body.name := by rw [hxi.name, hexported.name]
  obtain ⟨g', hg'⟩ := Option.ne_none_iff_exists'.mp (h.filled.named hinput hw' hn')
  obtain ⟨p, hp, hpd, hpw, hpn⟩ := groupId_some hg'
  rw [hname, Option.bind_some, hg', groupCredentials_live hp hpd, groupCredentials_live hq hqd]
  -- The record found there was made from a group of that name, and there is only the one.
  obtain ⟨input₂, hinput₂, hfilled⟩ := exists_of_mem_right h.filled.groups (Table.mem_entries.mpr hp)
  obtain ⟨x₂, hx₂, hxi₂⟩ := exists_of_mem_right hgiven hinput₂
  obtain ⟨body, hbody, hexported₂⟩ := exists_of_mem_right h.groups hx₂
  obtain ⟨g₂, q₂, hq₂, hqd₂, -, rfl⟩ := mem_groupRows.mp hbody
  have hsame : g₂ = g := by
    refine h.tidy.nested.unique g₂ g q₂ q hq₂ hqd₂ hq hqd ?_ ?_
    · rw [← hexported₂.workspace, ← hxi₂.workspace, ← hfilled.workspace]
      exact hpw.trans (hw'.symm.trans (hxi.workspace.trans hexported.workspace))
    · rw [← hexported₂.name, ← hxi₂.name, ← hfilled.name]
      exact hpn
  subst hsame
  cases hq.symm.trans hq₂
  exact login_back hexported₂.login hxi₂.login hfilled.login

/-- A host as an import leaves it: its settings in range, its comment trimmed. -/
def HostView.imported (w : HostView) : HostView :=
  { w with rdp := normalizeRdp w.rdp, comment := (Text.trim w.comment).take 4000 }

theorem Brought.mem_hostRows' (h : Brought cx v v' db b s)
    (he' : e' ∈ (s.db.rows .host).entries) : (e'.1, e'.2.body) ∈ hostRows s.db := by
  obtain ⟨i, -, hi⟩ := exists_of_mem_right h.filled.hosts he'
  exact mem_hostRows.mpr ⟨e'.2, Table.mem_entries.mp he', hi.live, rfl⟩

theorem Brought.host_back (h : Brought cx v v' db b s) (he : e ∈ hostRows db) {x : BackupHost}
    (hx : HostExported v db e x) (hi : HostGiven b.importSet.logins x i)
    (he' : e' ∈ (s.db.rows .host).entries) (hf : HostFilled v' b.importSet s.db i e') :
    hostView s.db (some v') (hostRecord s.db (e'.1, e'.2.body)) = (hostView db (some v) (hostRecord db e)).imported := by
  obtain ⟨r, hr, hd, hb⟩ := mem_hostRows.mp he
  have htidy : HostTidy e.2 := hb ▸ h.tidy.rows .host e.1 r hr
  have hname : e'.2.body.name = e.2.name := by
    rw [hf.name, importedName, hi.name, hx.name, htidy.name, if_neg (by simpa using htidy.named)]
  have haddress : e'.2.body.address = e.2.address := by rw [hf.address, hi.address, hx.address, htidy.address]
  have hgroup := h.group_back he (hi.workspace.trans hx.workspace) (hi.group.trans hx.group)
  rw [hostView_eq v' (h.mem_hostRows' he'), hostView_eq v he]
  unfold HostView.imported
  dsimp only
  rw [hname, haddress, hf.port, hi.port, hx.port, hf.rdp, hi.rdp, hx.rdp, hf.comment, hi.comment, hx.comment,
    login_back hx.login hi.login hf.login, login_back hx.gateway hi.gateway hf.gateway, hf.group, hgroup]

end Brought

/-! ## Which hosts are taken -/

section Taken

variable {α β γ : Type}

variable {l : List α} {l' : List β}

variable {R : α → β → Prop}

theorem forall₂_mem (h : List.Forall₂ R l l') : List.Forall₂ (fun a b => a ∈ l ∧ b ∈ l' ∧ R a b) l l' := by
  induction h with
  | nil => exact .nil
  | cons hr _ ih =>
    exact .cons ⟨List.mem_cons_self, List.mem_cons_self, hr⟩
      (ih.imp fun _ _ hab => ⟨List.mem_cons_of_mem _ hab.1, List.mem_cons_of_mem _ hab.2.1, hab.2.2⟩)

theorem forall₂_comp {Q : β → γ → Prop} {l'' : List γ} (h : List.Forall₂ R l l')
    (h' : List.Forall₂ Q l' l'') : List.Forall₂ (fun a c => ∃ b, R a b ∧ Q b c) l l'' := by
  induction h generalizing l'' with
  | nil =>
    cases h'
    exact .nil
  | cons hr _ ih =>
    cases h' with
    | cons hq hqs => exact .cons ⟨_, hr, hq⟩ (ih hqs)

theorem filter_map_of_forall₂ {p : α → Bool} {q : β → Bool} {f : α → γ} {g : β → γ} (h : List.Forall₂ R l l') (hp : ∀ a b, R a b → q b = p a) (hf : ∀ a b, R a b → g b = f a) :
    (l'.filter q).map g = (l.filter p).map f := by
  induction h with
  | nil => rfl
  | @cons a b l l' hr _ ih =>
    rw [List.filter_cons, List.filter_cons, hp a b hr]
    split
    · rw [List.map_cons, List.map_cons, hf a b hr, ih]
    · exact ih

theorem eq_of_sublist_of_counts {κ : Type} [DecidableEq κ] {key : α → κ} {l l' : List α} (h : l'.Sublist l)
    (hcount : ∀ k, (l'.filter fun a => key a = k).length = (l.filter fun a => key a = k).length) : l' = l := by
  induction h with
  | slnil => rfl
  | @cons l' l a hsub ih =>
    have hle := (hsub.filter fun x => decide (key x = key a)).length_le
    have heq := hcount (key a)
    rw [List.filter_cons_of_pos (by simp), List.length_cons] at heq
    omega
  | @cons_cons l' l a hsub ih =>
    rw [ih fun k => ?_]
    have heq := hcount k
    rw [List.filter_cons, List.filter_cons] at heq
    split at heq
    · simpa using heq
    · exact heq

theorem takeHosts_sublist (taken hosts : List HostInput) :
    ∃ kept, takeHosts taken hosts = taken ++ kept ∧ kept.Sublist hosts := by
  induction hosts generalizing taken with
  | nil => exact ⟨[], (List.append_nil taken).symm, List.Sublist.refl []⟩
  | cons host rest ih =>
    unfold takeHosts
    split
    · obtain ⟨kept, hkept, hsub⟩ := ih taken
      exact ⟨kept, hkept, hsub.cons host⟩
    · obtain ⟨kept, hkept, hsub⟩ := ih (taken ++ [host])
      refine ⟨host :: kept, ?_, hsub.cons_cons host⟩
      rw [hkept, List.append_assoc]
      rfl

theorem takeHosts_all (taken hosts : List HostInput) : takeHosts taken hosts = taken ++ hosts ↔
    (∀ h ∈ hosts, isPlausible h = true ∧ ∀ t ∈ taken, t.sameAddress h = false) ∧ hosts.Pairwise fun a b =>
    a.sameAddress b = false := by
  induction hosts generalizing taken with
  | nil =>
    refine iff_of_true (List.append_nil taken).symm ⟨fun h hh => (by cases hh), .nil⟩
  | cons host rest ih =>
    unfold takeHosts
    by_cases hskip : (!isPlausible host || taken.any fun h => h.sameAddress host) = true
    · rw [if_pos hskip]
      refine iff_of_false (fun heq => ?_) (fun hall => ?_)
      · obtain ⟨kept, hkept, hsub⟩ := takeHosts_sublist taken rest
        rw [hkept, List.append_cancel_left_eq] at heq
        have hlen := hsub.length_le
        rw [heq, List.length_cons] at hlen
        omega
      · obtain ⟨htakes, hapart⟩ := hall.1 host List.mem_cons_self
        rw [htakes, Bool.not_true, Bool.false_or, List.any_eq_true] at hskip
        obtain ⟨t, ht, hsame⟩ := hskip
        rw [hapart t ht] at hsame
        cases hsame
    · rw [Bool.not_eq_true, Bool.or_eq_false_iff, Bool.not_eq_false', List.any_eq_false] at hskip
      have hapart : ∀ t ∈ taken, t.sameAddress host = false := fun t ht => Bool.eq_false_iff.mpr (hskip.2 t ht)
      rw [if_neg (by rw [hskip.1]; simpa using hskip.2), List.append_cons taken host rest, ih, List.forall_mem_cons,
        List.pairwise_cons]
      simp only [List.forall_mem_append, List.forall_mem_singleton]
      constructor
      · rintro ⟨hrest, hpairs⟩
        exact ⟨⟨⟨hskip.1, hapart⟩, fun h hh => ⟨(hrest h hh).1, (hrest h hh).2.1⟩⟩,
          fun h hh => (hrest h hh).2.2, hpairs⟩
      · rintro ⟨⟨-, hrest⟩, hhost, hpairs⟩
        exact ⟨fun h hh => ⟨(hrest h hh).1, (hrest h hh).2, hhost h hh⟩, hpairs⟩

end Taken

end UwuRdp
