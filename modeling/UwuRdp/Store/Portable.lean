import UwuRdp.Store.RoundTrip

/-!
# Which stores come back

An import leaves a host out that the host form would have refused, or that has the address of one before it. It cuts
settings and comments into shape once more. A store comes back through a file where none of that changes anything.
-/

namespace UwuRdp

open Lib

variable {cx : Session} {db : Db} {v v' : UnlockedVault} {b : Backup} {s : TxState}

/-- A host that the import takes. -/
structure HostBody.Plausible (b : HostBody) : Prop where
  shortName : b.name.utf8Len ≤ 256
  cleanName : b.name.any Text.isControl = false
  shortAddress : b.address.utf8Len ≤ 253
  cleanAddress : b.address.any Text.isControl = false

instance (b : HostBody) : Decidable b.Plausible :=
  decidable_of_iff (b.name.utf8Len ≤ 256 ∧ b.name.any Text.isControl = false ∧ b.address.utf8Len ≤ 253 ∧
    b.address.any Text.isControl = false)
    ⟨fun h => ⟨h.1, h.2.1, h.2.2.1, h.2.2.2⟩,
      fun h => ⟨h.shortName, h.cleanName, h.shortAddress, h.cleanAddress⟩⟩

/-- The logins there are, of groups, of hosts and of gateways. -/
def loginCount (db : Db) : ℕ :=
  ((groupRows db).map GroupBody.identityId ++
    (hostRows db).flatMap fun e => [e.2.identityId, e.2.gatewayIdentityId]).countP Option.isSome

section Stores

variable [Platform]

/-- A host that the import leaves as it is. -/
structure HostBody.Settled (b : HostBody) : Prop where
  drives : b.rdp.drives.map normalizeDrives = b.rdp.drives
  comment : Text.trim b.comment = b.comment

instance (b : HostBody) : Decidable b.Settled :=
  decidable_of_iff (b.rdp.drives.map normalizeDrives = b.rdp.drives ∧ Text.trim b.comment = b.comment)
    ⟨fun h => ⟨h.1, h.2⟩, fun h => ⟨h.drives, h.comment⟩⟩

/-- A store that comes back through a file: every host one the import takes, no two at one address and port, all in
shape, and not more of anything than one import takes. -/
structure Portable (db : Db) : Prop where
  takes : ∀ e ∈ hostRows db, e.2.Plausible
  apart : ((hostRows db).map fun e => (normalise e.2.address, e.2.port)).Nodup
  settled : ∀ e ∈ hostRows db, e.2.Settled
  groups : ∀ g ∈ groupRows db, g.drives.map normalizeDrives = g.drives
  hostCount : (hostRows db).length ≤ maxItems
  groupCount : (groupRows db).length ≤ maxItems
  loginCount : loginCount db ≤ maxItems

instance (db : Db) : Decidable (Portable db) :=
  decidable_of_iff ((∀ e ∈ hostRows db, e.2.Plausible ∧ e.2.Settled) ∧
    ((hostRows db).map fun e => (normalise e.2.address, e.2.port)).Nodup ∧
    (∀ g ∈ groupRows db, g.drives.map normalizeDrives = g.drives) ∧ (hostRows db).length ≤ maxItems ∧
    (groupRows db).length ≤ maxItems ∧ loginCount db ≤ maxItems)
    ⟨fun h => ⟨fun e he => (h.1 e he).1, h.2.1, fun e he => (h.1 e he).2, h.2.2.1, h.2.2.2.1, h.2.2.2.2.1,
        h.2.2.2.2.2⟩,
      fun h => ⟨fun e he => ⟨h.takes e he, h.settled e he⟩, h.apart, h.groups, h.hostCount, h.groupCount,
        h.loginCount⟩⟩

/-! ## Hosts -/

section Hosts

/-- What the import is given of a host. -/
structure Sent (v : UnlockedVault) (db : Db) (set : ImportSet) (e : Uuid × HostBody) (i : HostInput) : Prop where
  listed : e ∈ hostRows db
  through : ∃ x, HostExported v db e x ∧ HostGiven set.logins x i

theorem Brought.sent (h : Brought cx v v' db b s) :
    List.Forall₂ (Sent v db b.importSet) (hostRows db) b.importSet.hosts := by
  obtain ⟨-, hgiven, -, -⟩ := importSet_given b
  exact (forall₂_mem (forall₂_comp h.hosts hgiven)).imp fun e i hei => ⟨hei.1, hei.2.2⟩

variable {set : ImportSet} {e : Uuid × HostBody} {i : HostInput}

omit [Platform] in
theorem Sent.address (h : Sent v db set e i) : i.address = e.2.address := by
  obtain ⟨x, hx, hi⟩ := h.through
  exact hi.address.trans hx.address

omit [Platform] in
theorem Sent.name (h : Sent v db set e i) : i.name = e.2.name := by
  obtain ⟨x, hx, hi⟩ := h.through
  exact hi.name.trans hx.name

omit [Platform] in
theorem Sent.port (h : Sent v db set e i) : i.port = e.2.port := by
  obtain ⟨x, hx, hi⟩ := h.through
  exact hi.port.trans hx.port

omit [Platform] in
theorem Sent.place (h : Sent v db set e i) : (i.workspace, i.groupPath) = (e.2.workspace, groupPath db e.2.groupId) := by
  obtain ⟨x, hx, hi⟩ := h.through
  rw [hi.workspace, hx.workspace, hi.group, hx.group]

theorem Tidy.host (h : Tidy v db) (he : e ∈ hostRows db) : HostTidy e.2 := by
  obtain ⟨r, hr, -, hb⟩ := mem_hostRows.mp he
  exact hb ▸ h.rows .host e.1 r hr

theorem Sent.takes_iff (h : Sent v db set e i) (ht : Tidy v db) : isPlausible i = true ↔ e.2.Plausible := by
  have htidy := ht.host h.listed
  have hport : 0 < e.2.port := by
    rw [UInt16.lt_iff_toNat_lt, UInt16.toNat_zero]
    exact Nat.pos_of_ne_zero fun hzero => htidy.port (UInt16.toNat_inj.mp (by rw [hzero]; rfl))
  have hempty : e.2.address.isEmpty = false := List.isEmpty_eq_false_iff.mpr htidy.addressed
  have hchars : (e.2.address.any fun c => Text.isWhitespace c || Text.isControl c) = e.2.address.any Text.isControl := by
    rw [Bool.eq_iff_iff, List.any_eq_true, List.any_eq_true]
    refine exists_congr fun c => and_congr_right fun hc => ?_
    rw [List.any_eq_false.mp htidy.unspaced c hc |> Bool.eq_false_iff.mpr, Bool.false_or]
  unfold isPlausible
  dsimp only
  rw [h.address, h.name, h.port, htidy.address, hempty, hchars]
  simp only [Bool.and_eq_true, Bool.not_eq_true', decide_eq_true_eq, Bool.not_false, true_and, hport, and_true]
  exact ⟨fun hp => ⟨hp.2, hp.1.2, hp.1.1.1, hp.1.1.2⟩,
    fun hp => ⟨⟨⟨hp.shortAddress, hp.cleanAddress⟩, hp.cleanName⟩, hp.shortName⟩⟩

theorem Brought.taken_iff (h : Brought cx v v' db b s) : takeHosts [] b.importSet.hosts = b.importSet.hosts ↔
    (∀ e ∈ hostRows db, e.2.Plausible) ∧ ((hostRows db).map fun e => (normalise e.2.address, e.2.port)).Nodup := by
  have hall := takeHosts_all [] b.importSet.hosts
  rw [List.nil_append] at hall
  refine hall.trans (and_congr ⟨fun hi e he => ?_, fun he i hi => ⟨?_, fun t ht => (by cases ht)⟩⟩ ?_)
  · obtain ⟨i, hmem, hsent⟩ := exists_of_mem_left h.sent he
    exact (hsent.takes_iff h.tidy).mp (hi i hmem).1
  · obtain ⟨e, hmem, hsent⟩ := exists_of_mem_right h.sent hi
    exact (hsent.takes_iff h.tidy).mpr (he e hmem)
  · rw [← map_eq_of_forall₂ h.sent (f := fun e => (normalise e.2.address, e.2.port))
      (g := fun i => (normalise i.address, i.port)) fun e i hei => by rw [hei.address, hei.port], List.Nodup,
      List.pairwise_map]
    refine List.pairwise_iff_forall_sublist.trans (Iff.trans ?_ List.pairwise_iff_forall_sublist.symm)
    refine forall₂_congr fun i j => forall_congr' fun _ => ?_
    unfold HostInput.sameAddress normalise
    rw [Bool.and_eq_false_iff, decide_eq_false_iff_not, decide_eq_false_iff_not, Ne, Prod.mk.injEq, not_and_or, or_comm]

omit [Platform] in
theorem hostViews_eq (db : Db) (vault : Option UnlockedVault) (workspace : Workspace) (path : Option Text) : hostViews
    db vault workspace path =
    ((hostRows db).filter fun e => e.2.workspace = workspace ∧ groupPath db e.2.groupId = path).map fun e => hostView
    db vault (hostRecord db e) := by
  unfold hostViews
  rw [listHosts_eq, List.filter_map, List.map_map]
  rfl

theorem imported_iff (h : Tidy v db) {e : Uuid × HostBody} (he : e ∈ hostRows db) :
    (hostView db (some v) (hostRecord db e)).imported = hostView db (some v) (hostRecord db e) ↔ e.2.Settled := by
  have htidy := h.host he
  have hcut : (Text.trim e.2.comment).take 4000 = Text.trim e.2.comment :=
    List.take_of_length_le ((Text.trim_length_le _).trans htidy.comment)
  have hview : (hostView db (some v) (hostRecord db e)).imported = { hostView db (some v) (hostRecord db e) with
        rdp := { e.2.rdp with drives := e.2.rdp.drives.map normalizeDrives }
        comment := Text.trim e.2.comment } := by
    rw [← htidy.settings, ← hcut]
    rfl
  rw [hview]
  constructor
  · intro hsame
    have hrdp := congrArg (fun w : HostView => w.rdp.drives) hsame
    have hcomment := congrArg HostView.comment hsame
    exact ⟨hrdp, hcomment⟩
  · intro hsettled
    rw [hsettled.drives, hsettled.comment]
    rfl

theorem Brought.mem_listed (h : Brought cx v v' db b s) (workspace : Workspace) (path : Option Text) :
    hostViews s.db (some v') workspace path =
      ((s.db.rows .host).entries.filter fun e =>
        e.2.body.workspace = workspace ∧ groupPath s.db e.2.body.groupId = path).map
          fun e => hostView s.db (some v') (hostRecord s.db (e.1, e.2.body)) := by
  have hclean := importSet_clean h.tidy h.groups h.hosts h.keys
  have htaken : ∀ i ∈ takeHosts [] b.importSet.hosts, i.Clean b.importSet := by
    intro i hi
    obtain ⟨kept, hkept, hsub⟩ := takeHosts_sublist [] b.importSet.hosts
    rw [hkept, List.nil_append] at hi
    exact hclean.hosts i (hsub.subset hi)
  rw [hostViews_eq, h.filled.hostRows_filter htaken, List.map_map]
  rfl

theorem Brought.taken_of_hosts (h : Brought cx v v' db b s)
    (hsame : ∀ workspace path, hostViews s.db (some v') workspace path = hostViews db (some v) workspace path) :
    takeHosts [] b.importSet.hosts = b.importSet.hosts := by
  have hclean := importSet_clean h.tidy h.groups h.hosts h.keys
  obtain ⟨kept, hkept, hsub⟩ := takeHosts_sublist [] b.importSet.hosts
  rw [List.nil_append] at hkept
  rw [hkept]
  refine @eq_of_sublist_of_counts _ _ _ (fun i : HostInput => (i.workspace, i.groupPath)) _ _ hsub fun place => ?_
  obtain ⟨workspace, path⟩ := place
  have hlisted := congrArg List.length (hsame workspace path)
  rw [h.mem_listed, hostViews_eq, List.length_map, List.length_map] at hlisted
  have hmade := filter_map_of_forall₂ (forall₂_mem h.filled.hosts)
    (p := fun i => decide ((i.workspace, i.groupPath) = (workspace, path)))
    (q := fun e => decide (e.2.body.workspace = workspace ∧ groupPath s.db e.2.body.groupId = path))
    (f := fun _ => ()) (g := fun _ => ()) (fun i e hie => ?_) fun _ _ _ => rfl
  · have hgiven := filter_map_of_forall₂ h.sent
      (p := fun e => decide (e.2.workspace = workspace ∧ groupPath db e.2.groupId = path))
      (q := fun i => decide ((i.workspace, i.groupPath) = (workspace, path)))
      (f := fun _ => ()) (g := fun _ => ()) (fun e i hei => ?_) fun _ _ _ => rfl
    · have hmade := congrArg List.length hmade
      have hgiven := congrArg List.length hgiven
      rw [List.length_map, List.length_map] at hmade hgiven
      rw [← hkept, ← hmade, hlisted, hgiven]
    · rw [hei.place]
      simp only [Prod.mk.injEq]
  · obtain ⟨hi, -, hf⟩ := hie
    rw [hkept] at hi
    rw [hf.workspace, hf.path h.filled (hclean.hosts i (hsub.subset hi))]
    simp only [Prod.mk.injEq]

theorem Brought.hosts_iff (h : Brought cx v v' db b s) :
    (∀ workspace path, hostViews s.db (some v') workspace path = hostViews db (some v) workspace path) ↔ takeHosts []
    b.importSet.hosts = b.importSet.hosts ∧ ∀ e ∈ hostRows db, e.2.Settled := by
  have hclean := importSet_clean h.tidy h.groups h.hosts h.keys
  -- Where all are taken, the views of a group are those there were, as the import leaves them.
  have hviews : takeHosts [] b.importSet.hosts = b.importSet.hosts → ∀ workspace path,
      hostViews s.db (some v') workspace path =
        ((hostRows db).filter fun e => e.2.workspace = workspace ∧ groupPath db e.2.groupId = path).map
          fun e => (hostView db (some v) (hostRecord db e)).imported := by
    intro htaken workspace path
    have hfilled := h.filled.hosts
    rw [htaken] at hfilled
    rw [h.mem_listed]
    refine filter_map_of_forall₂ (forall₂_comp h.sent (forall₂_mem hfilled)) ?_ ?_
    · rintro e e' ⟨i, hsent, hi, -, hf⟩
      obtain ⟨hw, hg⟩ := Prod.mk.inj hsent.place
      rw [hf.workspace, hf.path h.filled (hclean.hosts i hi), hw, hg]
    · rintro e e' ⟨i, hsent, -, he', hf⟩
      obtain ⟨x, hx, hi⟩ := hsent.through
      exact h.host_back hsent.listed hx hi he' hf
  constructor
  · intro hsame
    refine ⟨h.taken_of_hosts hsame, fun e he => (imported_iff h.tidy he).mp ?_⟩
    have hgroup := hviews (h.taken_of_hosts hsame) e.2.workspace (groupPath db e.2.groupId)
    rw [hsame, hostViews_eq] at hgroup
    exact (List.map_inj_left.mp hgroup e (List.mem_filter.mpr ⟨he, by simp⟩)).symm
  · rintro ⟨htaken, hsettled⟩ workspace path
    rw [hviews htaken, hostViews_eq]
    exact List.map_congr_left fun e he =>
      (imported_iff h.tidy (List.mem_of_mem_filter he)).mpr (hsettled e (List.mem_of_mem_filter he))

end Hosts

/-! ## Groups -/

section Groups

omit [Platform] in
theorem groupViews_eq (db : Db) (vault : Option UnlockedVault) (workspace : Workspace) :
    groupViews db vault workspace = ((groupRows db).filter fun g => g.workspace = workspace).map fun g =>
      ⟨g.name, (namedGroupLogin db g.workspace g.name).map fun l => l.credentials db vault, g.drives⟩ := by
  unfold groupViews listGroups
  rw [List.filter_map, List.map_map]
  rfl

/-- What the user has of a group whose login is found by its name. -/
def groupView (v : UnlockedVault) (db : Db) (g : GroupBody) : GroupView :=
  ⟨g.name, credentials db (some v) g.identityId, g.drives⟩

theorem Tidy.groupViews (h : Tidy v db) (workspace : Workspace) : groupViews db (some v) workspace =
    ((groupRows db).filter fun g => g.workspace = workspace).map (groupView v db) := by
  rw [groupViews_eq]
  refine List.map_congr_left fun g hg => ?_
  obtain ⟨i, r, hr, hd, -, rfl⟩ := mem_groupRows.mp (List.mem_of_mem_filter hg)
  rw [h.groupLogin hr hd]
  rfl

theorem Brought.groupRows_filter (h : Brought cx v v' db b s) (workspace : Workspace) :
    ((groupRows s.db).filter fun g => g.workspace = workspace) =
    ((s.db.rows .group).entries.filter fun e => e.2.body.workspace = workspace).map fun e => e.2.body := by
  have hclean := importSet_clean h.tidy h.groups h.hosts h.keys
  have hrows : groupRows s.db = ((s.db.rows .group).entries.map fun e => e.2.body).insertionSort groupLe := by
    unfold groupRows Table.select
    rw [List.filter_eq_self.mpr]
    intro e he
    obtain ⟨i, hi, hf⟩ := exists_of_mem_right h.filled.groups he
    have hne : e.2.body.name ≠ [] := by
      rw [hf.name]
      intro hnil
      have hok := (hclean.groups i hi).name
      rw [hnil] at hok
      cases hok
    show (!e.2.deleted && !e.2.body.name.isEmpty) = true
    rw [hf.live, Bool.not_false, Bool.true_and, Bool.not_eq_true', List.isEmpty_eq_false_iff]
    exact hne
  rw [hrows, filter_sorted groupLe_total groupLe_trans, List.filter_map]
  · rfl
  rw [List.filter_map, List.pairwise_map]
  refine List.Pairwise.imp_of_mem ?_ (h.filled.grouped.pairwise workspace)
  intro a c ha hc hlt
  have ha : a.2.body.workspace = workspace := by simpa using (List.mem_filter.mp ha).2
  have hc : c.2.body.workspace = workspace := by simpa using (List.mem_filter.mp hc).2
  refine ⟨?_, fun _ => .inl hlt⟩
  show textLe a.2.body.workspace.asStr c.2.body.workspace.asStr
  rw [ha, hc]
  exact (textLe_total _ _).elim id id

/-- A group, all the way from one store to the other. -/
structure Passed (v v' : UnlockedVault) (db db' : Db) (g g' : GroupBody) : Prop where
  workspace : g'.workspace = g.workspace
  view : groupView v' db' g' = { groupView v db g with drives := g.drives.map normalizeDrives }

theorem Brought.passed (h : Brought cx v v' db b s) : List.Forall₂
    (fun g e => e ∈ (s.db.rows .group).entries ∧ Passed v v' db s.db g e.2.body) (groupRows db)
    (s.db.rows .group).entries := by
  obtain ⟨hgiven, -, -, -⟩ := importSet_given b
  refine (forall₂_comp h.groups (forall₂_comp hgiven (forall₂_mem h.filled.groups))).imp ?_
  rintro g e ⟨x, hx, i, hi, -, he, hf⟩
  refine ⟨he, hf.workspace.trans (hi.workspace.trans hx.workspace), ?_⟩
  unfold groupView
  rw [hf.name, hi.name, hx.name, login_back hx.login hi.login hf.login, hf.drives, hi.drives, hx.drives]

theorem Brought.groupViews_back (h : Brought cx v v' db b s) (workspace : Workspace) :
    groupViews s.db (some v') workspace = ((groupRows db).filter fun g => g.workspace = workspace).map fun g =>
      { groupView v db g with drives := g.drives.map normalizeDrives } := by
  have hclean := importSet_clean h.tidy h.groups h.hosts h.keys
  rw [groupViews_eq, h.groupRows_filter, List.map_map]
  refine filter_map_of_forall₂ h.passed ?_ ?_
  · rintro g e ⟨-, hpassed⟩
    rw [hpassed.workspace]
  · rintro g e ⟨he, hpassed⟩
    have hr : s.db.row .group e.1 = some e.2 := Table.mem_entries.mp he
    obtain ⟨i, hi, hf⟩ := exists_of_mem_right h.filled.groups he
    -- No other group of the store has its name: the set gives each name once.
    have hnodup : ((s.db.rows .group).entries.map fun e => (e.2.body.workspace, e.2.body.name)).Nodup := by
      rw [map_eq_of_forall₂ h.filled.groups (f := fun i => (i.workspace, i.name)) fun i e hie => by
        rw [hie.workspace, hie.name]]
      exact hclean.named
    rw [← hpassed.view]
    show (⟨_, (namedGroupLogin s.db e.2.body.workspace e.2.body.name).map _, _⟩ : GroupView) = _
    rw [namedGroupLogin_eq hr hf.live fun g' q hq _ hw hn => ?_]
    · rfl
    · have hsame := List.inj_on_of_nodup_map hnodup (Table.mem_entries.mpr hq) he (Prod.ext hw hn)
      exact congrArg Prod.fst hsame

theorem Brought.groups_iff (h : Brought cx v v' db b s) :
    (∀ workspace, groupViews s.db (some v') workspace = groupViews db (some v) workspace) ↔ ∀ g ∈ groupRows db,
    g.drives.map normalizeDrives = g.drives := by
  constructor
  · intro hsame g hg
    have hviews := hsame g.workspace
    rw [h.groupViews_back, h.tidy.groupViews] at hviews
    have hview := List.map_inj_left.mp hviews g (List.mem_filter.mpr ⟨hg, by simp⟩)
    exact congrArg GroupView.drives hview
  · intro hdrives workspace
    rw [h.groupViews_back, h.tidy.groupViews]
    refine List.map_congr_left fun g hg => ?_
    rw [hdrives g (List.mem_of_mem_filter hg)]
    rfl

end Groups

/-! ## Certificates -/

section Keys

variable {k : BackupKnownHost} {a : Text × UInt16}

omit [Platform] in
theorem backupKnownHost_filled {i : KnownHostInput} {e : Uuid × Row KnownHostPayload} (h : KeyFilled i e) (hi : knownHostInput k = i) (hk : normalise k.address = k.address) :
    backupKnownHost e.2.body.answer = k := by
  subst hi
  obtain ⟨-, haddress, hport, halgorithm, hfingerprint, hkey⟩ := h
  show (⟨e.2.body.address, e.2.body.port, e.2.body.algorithm, e.2.body.fingerprintSha256, e.2.body.publicKey⟩ :
    BackupKnownHost) = k
  rw [haddress, hport, halgorithm, hfingerprint, hkey]
  show (⟨normalise k.address, k.port, k.algorithm, k.fingerprint, k.publicKey⟩ : BackupKnownHost) = k
  rw [hk]

def hostAddresses (db : Db) : List (Text × UInt16) := (listHosts db).map fun h => (normalise h.address, h.port)

omit [Platform] in
theorem mem_hostAddresses : a ∈ hostAddresses db ↔ ∃ e ∈ hostRows db, (normalise e.2.address, e.2.port) = a := by
  unfold hostAddresses
  rw [listHosts_eq, List.map_map, List.mem_map]
  rfl

theorem Brought.addresses_sent (h : Brought cx v v' db b s) :
    (b.importSet.hosts.map fun i => (normalise i.address, i.port)) = hostAddresses db := by
  unfold hostAddresses
  rw [listHosts_eq, List.map_map]
  exact map_eq_of_forall₂ h.sent fun e i hei => by rw [hei.address, hei.port]; rfl

omit [Platform] in
theorem importSet_keys (hhs : List.Forall₂ (HostExported v db) (hostRows db) b.hosts)
    (hks : b.knownHosts = (listKnownHosts db).map backupKnownHost) :
    b.importSet.knownHosts = (trustedKeys db).map knownHostInput := by
  obtain ⟨-, -, -, hkeys⟩ := importSet_given b
  have haddresses : (b.hosts.map fun x => (normalise x.address, x.port)) = hostAddresses db := by
    unfold hostAddresses
    rw [listHosts_eq, List.map_map]
    exact map_eq_of_forall₂ hhs fun e x hx => by rw [hx.address, hx.port]; rfl
  rw [hkeys, haddresses, hks, List.filter_map]
  rfl

omit [Platform] in
theorem mem_trustedKeys (hk : k ∈ trustedKeys db) :
    (normalise k.address, k.port) ∈ hostAddresses db ∧ ∃ r, r ∈ listKnownHosts db ∧ backupKnownHost r = k := by
  obtain ⟨r, hr, rfl⟩ := List.mem_map.mp hk
  obtain ⟨hmem, hat⟩ := List.mem_filter.mp hr
  exact ⟨List.contains_iff_mem.mp hat, r, hmem, rfl⟩

omit [Platform] in
theorem trustedKeys_sorted (db : Db) : (trustedKeys db).Pairwise fun a c =>
    lexLe textLe (fun m n : ℕ => m ≤ n) (a.address, a.port.toNat) (c.address, c.port.toNat) := by
  let _ : IsTrans KnownHostPayload knownHostLe := ⟨knownHostLe_trans⟩
  let _ : Std.Total knownHostLe := ⟨knownHostLe_total⟩
  unfold trustedKeys listKnownHosts
  rw [List.pairwise_map]
  refine List.Pairwise.sublist List.filter_sublist ?_
  rw [List.pairwise_map]
  exact List.pairwise_insertionSort knownHostLe _

theorem Brought.keysTaken_eq (h : Brought cx v v' db b s)
    (htaken : takeHosts [] b.importSet.hosts = b.importSet.hosts) :
    b.importSet.keysTaken = (trustedKeys db).map knownHostInput := by
  unfold ImportSet.keysTaken
  rw [htaken, importSet_keys h.hosts h.keys, h.addresses_sent, List.filter_eq_self]
  intro i hi
  obtain ⟨k, hk, rfl⟩ := List.mem_map.mp hi
  exact List.contains_iff_mem.mpr (mem_trustedKeys hk).1

theorem Brought.addresses_back (h : Brought cx v v' db b s)
    (htaken : takeHosts [] b.importSet.hosts = b.importSet.hosts) (ha : a ∈ hostAddresses db) :
    a ∈ hostAddresses s.db := by
  rw [← h.addresses_sent, List.mem_map] at ha
  obtain ⟨i, hi, rfl⟩ := ha
  have hfilled := h.filled.hosts
  rw [htaken] at hfilled
  obtain ⟨e, he, hf⟩ := exists_of_mem_left hfilled hi
  refine mem_hostAddresses.mpr ⟨(e.1, e.2.body), h.mem_hostRows' he, ?_⟩
  show (normalise e.2.body.address, e.2.body.port) = _
  rw [hf.address, hf.port]
  unfold normalise
  rw [Text.trim_trim]

theorem Brought.keys_back (h : Brought cx v v' db b s) (htaken : takeHosts [] b.importSet.hosts = b.importSet.hosts) :
    trustedKeys s.db = trustedKeys db := by
  have hfilled := h.filled.keys
  rw [h.keysTaken_eq htaken, List.forall₂_map_left_iff] at hfilled
  have hstored : ((s.db.rows .knownHost).entries.map fun e => backupKnownHost e.2.body.answer) = trustedKeys db := by
    refine (map_eq_of_forall₂ (forall₂_mem hfilled) (f := id) fun k e hke => ?_).trans (List.map_id _)
    obtain ⟨hk, -, hkey⟩ := hke
    obtain ⟨-, r, hr, rfl⟩ := mem_trustedKeys hk
    obtain ⟨i, p, hp, -, rfl⟩ := mem_listKnownHosts.mp hr
    exact backupKnownHost_filled hkey rfl (h.tidy.rows .knownHost i p hp)
  have hlisted : listKnownHosts s.db = (s.db.rows .knownHost).entries.map fun e => e.2.body.answer := by
    have hlive : ((s.db.rows .knownHost).select fun _ r => !r.deleted) = (s.db.rows .knownHost).entries := by
      unfold Table.select
      rw [List.filter_eq_self]
      intro e he
      obtain ⟨k, -, hkey⟩ := exists_of_mem_right hfilled he
      show (!e.2.deleted) = true
      rw [hkey.live]
      rfl
    have hsorted : ((s.db.rows .knownHost).entries.map fun e => e.2.body).Pairwise knownHostLe := by
      have hkeys := trustedKeys_sorted db
      rw [← hstored, List.pairwise_map] at hkeys
      rw [List.pairwise_map]
      exact hkeys
    unfold listKnownHosts
    rw [hlive, hsorted.insertionSort_eq, List.map_map]
    rfl
  unfold trustedKeys
  rw [List.filter_eq_self.mpr, hlisted, List.map_map]
  · exact hstored
  intro k hk
  rw [hlisted, List.mem_map] at hk
  obtain ⟨e, he, rfl⟩ := hk
  have hmem : backupKnownHost e.2.body.answer ∈ trustedKeys db := by
    rw [← hstored]
    exact List.mem_map_of_mem he
  exact List.contains_iff_mem.mpr (h.addresses_back htaken (mem_trustedKeys hmem).1)

theorem Brought.same_iff (h : Brought cx v v' db b s) : SameConnections v v' db s.db ↔
    (∀ e ∈ hostRows db, e.2.Plausible) ∧ ((hostRows db).map fun e => (normalise e.2.address, e.2.port)).Nodup ∧
    (∀ e ∈ hostRows db, e.2.Settled) ∧ ∀ g ∈ groupRows db, g.drives.map normalizeDrives = g.drives := by
  constructor
  · intro hsame
    obtain ⟨htaken, hsettled⟩ := h.hosts_iff.mp hsame.hosts
    obtain ⟨htakes, hapart⟩ := h.taken_iff.mp htaken
    exact ⟨htakes, hapart, hsettled, h.groups_iff.mp hsame.groups⟩
  · rintro ⟨htakes, hapart, hsettled, hgroups⟩
    have htaken := h.taken_iff.mpr ⟨htakes, hapart⟩
    exact ⟨h.groups_iff.mpr hgroups, h.hosts_iff.mpr ⟨htaken, hsettled⟩, h.keys_back htaken⟩

end Keys

/-! ## The whole way -/

section Whole

/-- Exporting a store with its passwords and importing the file into another brings its connections there. -/
def ComesBack (cx : Session) (w : Writing) (size : ExportFile → ℕ) (password : Password) (v v' : UnlockedVault)
    (db db₀ : Db) : Prop :=
  ∃ backup file back s, exportBackup db (some v) true = .ok backup ∧
    encodeExport w backup (some password) = .ok file ∧ decodeExport size file (some password) = .ok back ∧
    importBackup cx back ⟨db₀, 0⟩ = .ok ((), s) ∧ SameConnections v v' db s.db

def FileFits (w : Writing) (size : ExportFile → ℕ) (password : Password) (v : UnlockedVault) (db : Db) : Prop :=
  ∀ backup file, exportBackup db (some v) true = .ok backup → encodeExport w backup (some password) = .ok file →
    size file ≤ maxExportBytes

variable {b : Backup}

omit [Platform] in
theorem logins_length (hgs : List.Forall₂ (GroupExported v db) (groupRows db) b.groups)
    (hhs : List.Forall₂ (HostExported v db) (hostRows db) b.hosts) : b.importSet.logins.length = loginCount db := by
  obtain ⟨-, -, hlogins, -⟩ := importSet_given b
  have hgroups : (b.groups.map BackupGroup.login).map Option.isSome =
      ((groupRows db).map GroupBody.identityId).map Option.isSome := by
    rw [List.map_map, List.map_map]
    exact map_eq_of_forall₂ hgs fun g x hx => hx.login.isSome
  have hhosts : (b.hosts.flatMap fun h => [h.login, h.gatewayLogin]).map Option.isSome =
      ((hostRows db).flatMap fun e => [e.2.identityId, e.2.gatewayIdentityId]).map Option.isSome := by
    rw [List.map_flatMap, List.map_flatMap, List.flatMap_def, List.flatMap_def]
    refine congrArg List.flatten (map_eq_of_forall₂ hhs fun e x hx => ?_)
    rw [List.map_cons, List.map_singleton, hx.login.isSome, hx.gateway.isSome]
    rfl
  have hcount : ∀ {α : Type} (l : List (Option α)), l.countP Option.isSome = (l.map Option.isSome).countP id :=
    fun l => by
    rw [List.countP_map]
    rfl
  rw [hlogins, length_given, loginCount, hcount, hcount, List.map_append, List.map_append, hgroups, hhosts]

theorem trustedKeys_length_le (h : Tidy v db) : (trustedKeys db).length ≤ (hostRows db).length := by
  have hnodup : ((trustedKeys db).map fun k => (normalise k.address, k.port)).Nodup := by
    refine List.Nodup.sublist ?_ (nodup_listKnownHosts h)
    unfold trustedKeys
    rw [List.map_map]
    exact List.filter_sublist.map _
  have hsub : ((trustedKeys db).map fun k => (normalise k.address, k.port)) ⊆ hostAddresses db := by
    intro a ha
    obtain ⟨k, hk, rfl⟩ := List.mem_map.mp ha
    exact (mem_trustedKeys hk).1
  have hle := (hnodup.subperm hsub).length_le
  unfold hostAddresses at hle
  rw [List.length_map, List.length_map, listHosts_eq, List.length_map] at hle
  exact hle

theorem importSet_fits_iff (h : Tidy v db) (hgs : List.Forall₂ (GroupExported v db) (groupRows db) b.groups)
    (hhs : List.Forall₂ (HostExported v db) (hostRows db) b.hosts)
    (hks : b.knownHosts = (listKnownHosts db).map backupKnownHost) : b.importSet.Fits ↔ (hostRows db).length ≤
    maxItems ∧ (groupRows db).length ≤ maxItems ∧ loginCount db ≤ maxItems := by
  obtain ⟨hgiven, hhgiven, -, -⟩ := importSet_given b
  have hkeys := trustedKeys_length_le h
  unfold ImportSet.Fits
  rw [logins_length hgs hhs, importSet_keys hhs hks, List.length_map, ← hhgiven.length_eq, ← hhs.length_eq,
    ← hgiven.length_eq, ← hgs.length_eq]
  constructor
  · rintro ⟨hhosts, hlogins, -, hgroups⟩
    exact ⟨hhosts, hgroups, hlogins⟩
  · rintro ⟨hhosts, hgroups, hlogins⟩
    exact ⟨hhosts, hlogins, hkeys.trans hhosts, hgroups⟩

theorem importSet_ok_fits {set : ImportSet} {s s' : TxState} (h : importSet cx set s = .ok ((), s')) : set.Fits := by
  exact (Tx.require_bind_eq_ok.mp h).1

theorem Tidy.comesBack_iff {w : Writing} {size : ExportFile → ℕ} {password : Password} {db₀ : Db} (h : Tidy v db)
    (hpassword : password ≠ []) (hkdf : w.kdf.reasonableForAFile = true) (hv : cx.vault = some v')
    (hnew : Function.Injective cx.newId) (hblank : ∀ k, db₀.rows k = Table.empty) :
    ComesBack cx w size password v v' db db₀ ↔ Portable db ∧ FileFits w size password v db := by
  obtain ⟨backup, hexport, hgs, hhs, hks⟩ := exportBackup_ok h
  obtain ⟨file, hencode, hdecode⟩ := @decode_encode size w backup password hpassword hkdf
  have hclean := importSet_clean h hgs hhs hks
  have hfits := importSet_fits_iff h hgs hhs hks
  have hbrought : ∀ s, importBackup cx backup ⟨db₀, 0⟩ = .ok ((), s) → Brought cx v v' db backup s := by
    intro s hs
    obtain ⟨u, s', hgo, hfilled⟩ :=
      importSet_completes hnew hv hclean (importSet_ok_fits hs) ⟨db₀, 0⟩ (filled_blank hblank)
    obtain ⟨-, rfl⟩ := Prod.mk.inj (Except.ok.inj (hgo.symm.trans hs))
    exact ⟨h, hgs, hhs, hks, hfilled⟩
  constructor
  · rintro ⟨backup₂, file₂, back, s, hexport₂, hencode₂, hdecode₂, himport, hsame⟩
    cases hexport.symm.trans hexport₂
    cases hencode.symm.trans hencode₂
    have hsize : size file ≤ maxExportBytes := by
      by_contra hlarge
      rw [hdecode₂, if_neg hlarge] at hdecode
      cases hdecode
    rw [hdecode, if_pos hsize] at hdecode₂
    cases hdecode₂
    obtain ⟨htakes, hapart, hsettled, hgroups⟩ := (hbrought s himport).same_iff.mp hsame
    obtain ⟨hhostCount, hgroupCount, hloginCount⟩ := hfits.mp (importSet_ok_fits himport)
    refine ⟨⟨htakes, hapart, hsettled, hgroups, hhostCount, hgroupCount, hloginCount⟩, ?_⟩
    intro backup₂ file₂ hexport₂ hencode₂
    cases hexport.symm.trans hexport₂
    cases hencode.symm.trans hencode₂
    exact hsize
  · rintro ⟨hportable, hsize⟩
    obtain ⟨u, s, hgo, -⟩ := importSet_completes hnew hv hclean
      (hfits.mpr ⟨hportable.hostCount, hportable.groupCount, hportable.loginCount⟩) ⟨db₀, 0⟩ (filled_blank hblank)
    refine ⟨backup, file, backup, s, hexport, hencode, ?_, hgo, (hbrought s hgo).same_iff.mpr ?_⟩
    · rw [hdecode, if_pos (hsize backup file hexport hencode)]
    · exact ⟨hportable.takes, hportable.apart, hportable.settled, hportable.groups⟩

/-- **Whatever was edited comes back through a file** just where it is portable and the file fits. -/
theorem edits_comeBack_iff (vaultId : Uuid) (edits : List (Session × LocalOp)) (cx : Session) (w : Writing)
    (size : ExportFile → ℕ) (password : Password) (v v' : UnlockedVault) (db₀ : Db)
    (hedits : ∀ e ∈ edits, e.1.OpensWith v ∧ e.2.IsText) (hpassword : password ≠ [])
    (hkdf : w.kdf.reasonableForAFile = true) (hv : cx.vault = some v') (hnew : Function.Injective cx.newId)
    (hblank : ∀ k, db₀.rows k = Table.empty) : ComesBack cx w size password v v' (runEdits (Db.fresh vaultId) edits)
    db₀ ↔ Portable (runEdits (Db.fresh vaultId) edits) ∧ FileFits w size password v
    (runEdits (Db.fresh vaultId) edits) :=
  (tidy_runEdits vaultId edits hedits).comesBack_iff hpassword hkdf hv hnew hblank

end Whole

end Stores

/-! ## One host -/

/-- A host the form takes: in a group, with a login of its own. -/
def savedHost (name : Text) : HostDraft :=
  ⟨none, name, ['s'], 3389, ['u'], [], some ['g'], none, .set [112], {}, ['c'], [], [], .keep⟩

/-- A device with another vault, where nothing is yet. -/
def deviceTwo : Session := ⟨2, some ⟨2, 9⟩, fun _ => 2000, fun n => 200 + n⟩

def written : Writing := ⟨5, ['1'], 3, .recommended⟩

theorem deviceTwo_newId : Function.Injective deviceTwo.newId := fun m n h => by
  have h : 200 + m = 200 + n := h
  omega

theorem savedHost_edit (name : Text) : ∀ e ∈ [(deviceOne, LocalOp.saveHost (savedHost name))],
    e.1.OpensWith ⟨1, 7⟩ ∧ e.2.IsText := by
  intro e he
  obtain rfl := List.mem_singleton.mp he
  exact ⟨fun vault h => (Option.some.inj h).symm, ⟨['p'], rfl⟩, trivial⟩

theorem kilobyte_fits : 1000 ≤ maxExportBytes := by decide

/-- The host of one device on another, by a file of about a kilobyte. -/
theorem savedHost_comesBack : letI := asciiPlatform
    ComesBack deviceTwo written (fun _ => 1000) [112] ⟨1, 7⟩ ⟨2, 9⟩
      (runEdits (Db.fresh 1) [(deviceOne, .saveHost (savedHost ['a']))]) (Db.fresh 2) := by
  let _ := asciiPlatform
  refine (edits_comeBack_iff 1 [(deviceOne, .saveHost (savedHost ['a']))] deviceTwo written (fun _ => 1000) [112]
    ⟨1, 7⟩ ⟨2, 9⟩ (Db.fresh 2) ?_ (by decide) (by decide) rfl deviceTwo_newId fun k => rfl).mpr
    ⟨by decide +kernel, fun _ _ _ _ => kilobyte_fits⟩
  exact savedHost_edit ['a']

/-- A tab in a name is no obstacle to saving a host, but the import leaves it out. -/
theorem tabbedHost_lost : letI := asciiPlatform
    ¬∀ (vaultId : Uuid) (edits : List (Session × LocalOp)) (cx : Session) (w : Writing) (size : ExportFile → ℕ)
      (password : Password) (v v' : UnlockedVault) (db₀ : Db), (∀ e ∈ edits, e.1.OpensWith v ∧ e.2.IsText) →
      password ≠ [] → w.kdf.reasonableForAFile = true → cx.vault = some v' → Function.Injective cx.newId →
      (∀ k, db₀.rows k = Table.empty) →
      (∀ backup file, exportBackup (runEdits (Db.fresh vaultId) edits) (some v) true = .ok backup →
        encodeExport w backup (some password) = .ok file → size file ≤ maxExportBytes) →
      ComesBack cx w size password v v' (runEdits (Db.fresh vaultId) edits) db₀ := by
  let _ := asciiPlatform
  intro hall
  have hedits := savedHost_edit ['a', '\t', 'b']
  have hcame := hall 1 _ deviceTwo written (fun _ => 1000) [112] ⟨1, 7⟩ ⟨2, 9⟩ (Db.fresh 2) hedits (by decide) (by decide)
    rfl deviceTwo_newId (fun k => rfl) fun _ _ _ _ => kilobyte_fits
  have hportable := (((tidy_runEdits 1 _ hedits).comesBack_iff (by decide) (by decide) rfl deviceTwo_newId
    fun k => rfl).mp hcame).1
  exact absurd hportable (by decide +kernel)

end UwuRdp
