import UwuRdp.App.Import
import UwuRdp.Store.Sources

/-!
# Who gets a password of the user's own

The preview names the addresses that would get a password this Windows account opened; the import
decides what is really stored. The two agree for every host whose own credential is a login the store
takes. For the others the preview goes by the group of the very same path and by the credential that
stands in the file, and the store by the first login of any group that ends up under the same name.
-/

namespace UwuRdp

open Lib

/-! ## What the store makes of a bundle -/

namespace ImportBundle

/-- The credential at an index, if the store makes a login of it. -/
def taken (b : ImportBundle) (index : Option ℕ) : Option ℕ :=
  index.filter fun i => (b.credentials[i]?).any fun c => (importLoginInput true c).taken

def storeName (path : Option Text) : Option Text :=
  match groupName (path.map importGroupName) with
  | .ok name => name
  | .error _ => none

/-- The credential of a group as the store knows it: the first login of a group of the name. -/
def groupGiven (b : ImportBundle) (name : Text) : Option ℕ :=
  ((b.groups.filter fun g => storeName (some g.path) = some name).filterMap fun g =>
    b.taken g.credential).head?

def pathGiven (b : ImportBundle) (host : ImportedHost) : Option ℕ :=
  (storeName host.groupPath).bind b.groupGiven

def loginGiven (b : ImportBundle) (host : ImportedHost) : Option ℕ :=
  (b.taken host.credential).or (b.pathGiven host)

/-- A host is added when the form would take it and none with its address was added before. -/
def addHost (added : List ImportedHost) (h : ImportedHost) : List ImportedHost :=
  if !isPlausible (importHostInput .priv h) ||
    added.any fun e => sameAddress (importHostInput .priv h) (importHostInput .priv e)
  then added else added ++ [h]

def addedHosts (b : ImportBundle) : List ImportedHost := b.hosts.foldl addHost []

/-- A host the preview is wrong about: it names no login the store takes, its group hands it a
password of the user's own, and the credential the preview goes by has none. -/
structure Misled (b : ImportBundle) (host : ImportedHost) : Prop where
  untaken : b.taken host.credential = none
  given : (b.own (b.pathGiven host)).isSome
  untold : b.own (b.loginTold host) = none

end ImportBundle

/-! ## What is promised -/

/-- A login that carries a password this Windows account opened. -/
def CarriesOwn (b : ImportBundle) (sources : Sources) (o : Option ResolvedLogin) : Prop :=
  ∃ login i c, o = some login ∧ login.hasPassword = true ∧ (login.identity, i) ∈ sources ∧
    b.credentials[i]? = some c ∧ c.origin ≠ .inFile

def gatewayLoginUsed (db : Db) (x : Uuid) (g : GatewaySettings) :
    Except StoreError (Option ResolvedLogin) :=
  if g.useHostLogin then hostLogin db x else hostGatewayLogin db x

def gatewayPort (port : UInt16) : UInt16 := if port = 0 then 443 else port

namespace PasswordRecipient

def NamesHost (p : PasswordRecipient) (address : Text) (port : UInt16) : Prop :=
  p.kind = .host ∧ p.address.map Text.trim = some address ∧ p.port = some port

def NamesGateway (p : PasswordRecipient) (address : Text) (port : UInt16) : Prop :=
  p.kind = .gateway ∧ p.address.map Text.trim = some address ∧
    gatewayPort (p.port.getD 443) = port

end PasswordRecipient

/-- Every host and gateway that would connect with a password of the user's own was named. -/
structure Announced (b : ImportBundle) (sources : Sources) (db : Db) : Prop where
  host : ∀ x r o, liveHost db x = some r → hostLogin db x = .ok o → CarriesOwn b sources o →
    ∃ p ∈ b.passwordRecipients, p.NamesHost r.body.address r.body.port
  gateway : ∀ x r g o, liveHost db x = some r → r.body.rdp.gateway = some g →
    gatewayLoginUsed db x g = .ok o → CarriesOwn b sources o →
      ∃ p ∈ b.passwordRecipients, p.NamesGateway g.address g.port

/-- No host that is added is one the preview is wrong about, unless another entry that it is right
about has the same address. -/
structure Forthright (b : ImportBundle) : Prop where
  host : ∀ h ∈ b.addedHosts, b.Misled h → ∃ e ∈ b.hosts, (b.own (b.loginTold e)).isSome ∧
    Text.trim e.address = Text.trim h.address ∧ e.port = h.port
  gateway : ∀ h ∈ b.addedHosts, b.Misled h → ∀ g, h.settings.gateway = some g →
    (g.useHostCredentials || g.credential.isNone) = true → Text.trim g.address ≠ [] →
      ∃ e ∈ b.hosts, ∃ g', e.settings.gateway = some g' ∧ (b.own (b.gatewayTold e g')).isSome ∧
        Text.trim g'.address = Text.trim g.address ∧
        gatewayPort (g'.port.getD 443) = gatewayPort (g.port.getD 443)

/-! ## The set says what the bundle says -/

section Bundle

variable {b : ImportBundle} {w : Workspace} {own : Bool}

theorem logins_toImportSet (i : ℕ) :
    (toImportSet b w own).logins[i]? = (b.credentials[i]?).map (importLoginInput own) :=
  List.getElem?_map

theorem takenFrom_toImportSet (index : Option ℕ) : takenFrom (toImportSet b w own) index = b.taken index := by
  unfold takenFrom ImportBundle.taken
  congr 1
  funext i
  rw [logins_toImportSet, Option.any_map]
  rfl

theorem called_toImportSet (g : ImportedGroup) (name : Text) :
    (importGroupInput w g).called w name = decide (ImportBundle.storeName (some g.path) = some name) := by
  unfold GroupInput.called ImportBundle.storeName importGroupInput
  rw [Option.map_some]
  rcases groupName (some (importGroupName g.path)) with e | o <;> simp

theorem groupFrom_toImportSet (name : Text) :
    groupFrom (toImportSet b w own) (toImportSet b w own).groups w name = b.groupGiven name := by
  show ((((b.groups.map (importGroupInput w)).filter fun g => g.called w name).filterMap fun g =>
    takenFrom (toImportSet b w own) g.login).head?) = _
  rw [List.filter_map, List.filterMap_map]
  unfold ImportBundle.groupGiven
  congr 2
  · funext g
    exact takenFrom_toImportSet g.credential
  · congr 1
    funext g
    exact called_toImportSet g name

theorem pathFrom_toImportSet (h : ImportedHost) :
    pathFrom (toImportSet b w own) (importHostInput w h) = b.pathGiven h := by
  unfold pathFrom ImportBundle.pathGiven ImportBundle.storeName
  have hpath : (importHostInput w h).groupPath = h.groupPath.map importGroupName := rfl
  rw [hpath]
  rcases groupName (h.groupPath.map importGroupName) with e | (_ | name)
  · rfl
  · rfl
  · exact groupFrom_toImportSet name

theorem loginFrom_toImportSet (h : ImportedHost) :
    loginFrom (toImportSet b w own) (importHostInput w h) = b.loginGiven h := by
  unfold loginFrom ImportBundle.loginGiven
  rw [pathFrom_toImportSet, takenFrom_toImportSet]
  rfl

theorem addedHosts_toImportSet : addedHosts (toImportSet b w own).hosts = b.addedHosts.map (importHostInput w) := by
  have hstep : ∀ (hosts added : List ImportedHost), (hosts.map (importHostInput w)).foldl (fun added h =>
        if !isPlausible h || added.any (sameAddress h) then added else added ++ [h])
        (added.map (importHostInput w)) =
      (hosts.foldl ImportBundle.addHost added).map (importHostInput w) := by
    intro hosts
    induction hosts with
    | nil => exact fun _ => rfl
    | cons h hosts ih =>
      intro added
      rw [List.map_cons, List.foldl_cons, List.foldl_cons, ← ih]
      congr 1
      rw [List.any_map]
      unfold ImportBundle.addHost
      show (if (!isPlausible (importHostInput .priv h) ||
        added.any fun e => sameAddress (importHostInput .priv h) (importHostInput .priv e)) = true
        then _ else _) = _
      split
      · rfl
      · rw [List.map_append]
        rfl
  exact hstep b.hosts []

end Bundle

/-! ## What the preview lists -/

namespace ImportBundle

variable {b : ImportBundle} {host : ImportedHost}

theorem own_isSome_iff {i : ℕ} : (b.own (some i)).isSome ↔ ∃ c, b.credentials[i]? = some c ∧
    (c.password.any fun p => !p.isEmpty) = true ∧ c.origin ≠ .inFile := by
  unfold own
  rw [Option.bind_some]
  cases b.credentials[i]? with
  | none => simp
  | some c =>
    rw [Option.isSome_filter]
    simp [ImportedCredential.passwordIsUsersOwn]

theorem hostRecipient_isSome (h : (b.own (b.loginTold host)).isSome) (hmem : host ∈ b.hosts) : ∃ p ∈
    b.passwordRecipients, p.kind = .host ∧ p.address = some host.address ∧ p.port = some host.port := by
  obtain ⟨c, hc⟩ := Option.isSome_iff_exists.mp h
  refine ⟨⟨.host, host.name, some host.address, some host.port, profile c⟩, ?_, rfl, rfl, rfl⟩
  refine List.mem_append_right _ (List.mem_flatMap.mpr ⟨host, hmem, List.mem_append_left _ ?_⟩)
  simp [hostRecipient, hc]

theorem gatewayRecipient_isSome {g : ImportedGateway} (hg : host.settings.gateway = some g)
    (h : (b.own (b.gatewayTold host g)).isSome) (hmem : host ∈ b.hosts) : ∃ p ∈ b.passwordRecipients, p.kind =
    .gateway ∧ p.address = some g.address ∧ p.port = g.port := by
  obtain ⟨c, hc⟩ := Option.isSome_iff_exists.mp h
  refine ⟨⟨.gateway, host.name, some g.address, g.port, profile c⟩, ?_, rfl, rfl, rfl⟩
  refine List.mem_append_right _ (List.mem_flatMap.mpr ⟨host, hmem, List.mem_append_right _ ?_⟩)
  simp [gatewayRecipient, hg, hc]

theorem mem_passwordRecipients {p : PasswordRecipient} (h : p ∈ b.passwordRecipients) :
    p.kind = .group ∨
      (∃ e ∈ b.hosts, (b.own (b.loginTold e)).isSome ∧ p.kind = .host ∧
        p.address = some e.address ∧ p.port = some e.port) ∨
      ∃ e ∈ b.hosts, ∃ g, e.settings.gateway = some g ∧ (b.own (b.gatewayTold e g)).isSome ∧
        p.kind = .gateway ∧ p.address = some g.address ∧ p.port = g.port := by
  rcases List.mem_append.mp h with h | h
  · obtain ⟨group, -, hp⟩ := List.mem_filterMap.mp h
    obtain ⟨c, -, rfl⟩ := Option.map_eq_some_iff.mp hp
    exact .inl rfl
  · obtain ⟨e, he, hp⟩ := List.mem_flatMap.mp h
    rcases List.mem_append.mp hp with hp | hp
    · obtain ⟨c, hc, rfl⟩ := Option.map_eq_some_iff.mp (Option.mem_toList.mp hp)
      exact .inr (.inl ⟨e, he, by rw [hc]; rfl, rfl, rfl, rfl⟩)
    · obtain ⟨g, hg, hp⟩ := Option.bind_eq_some_iff.mp (Option.mem_toList.mp hp)
      obtain ⟨c, hc, rfl⟩ := Option.map_eq_some_iff.mp hp
      exact .inr (.inr ⟨e, he, g, hg, by rw [hc]; rfl, rfl, rfl, rfl⟩)

theorem addedHosts_subset : b.addedHosts ⊆ b.hosts := by
  have hstep : ∀ hosts added : List ImportedHost, hosts.foldl addHost added ⊆ added ++ hosts := by
    intro hosts
    induction hosts with
    | nil => exact fun added => by rw [List.append_nil]; exact List.Subset.refl _
    | cons h hosts ih =>
      intro added e he
      have hmem := ih _ he
      rcases List.mem_append.mp hmem with hmem | hmem
      · unfold addHost at hmem
        split at hmem
        · exact List.mem_append_left _ hmem
        · rcases List.mem_append.mp hmem with hmem | hmem
          · exact List.mem_append_left _ hmem
          · rw [List.mem_singleton.mp hmem]
            exact List.mem_append_right _ List.mem_cons_self
      · exact List.mem_append_right _ (List.mem_cons_of_mem _ hmem)
  exact hstep b.hosts []

theorem told_of_given (hgiven : (b.own (b.loginGiven host)).isSome) (hnot : ¬b.Misled host) :
    (b.own (b.loginTold host)).isSome := by
  rw [Option.isSome_iff_ne_none]
  intro huntold
  cases htaken : b.taken host.credential with
  | some i =>
    have hindex : host.credential = some i := (Option.filter_eq_some_iff.mp htaken).1
    unfold loginTold at huntold
    unfold loginGiven at hgiven
    rw [hindex, Option.some_or] at huntold
    rw [htaken, Option.some_or, huntold] at hgiven
    cases hgiven
  | none =>
    unfold loginGiven at hgiven
    rw [htaken, Option.none_or] at hgiven
    exact hnot ⟨htaken, hgiven, huntold⟩

theorem Misled.loginGiven (h : b.Misled host) : (b.own (b.loginGiven host)).isSome := by
  unfold ImportBundle.loginGiven
  rw [h.untaken, Option.none_or]
  exact h.given

end ImportBundle

/-! ## What is stored -/

section Stored

variable [Platform] {b : ImportBundle} {w : Workspace} {s : TxState × Sources}

abbrev ImportedBundle (b : ImportBundle) (w : Workspace) (ownPasswords : Bool)
    (s : TxState × Sources) : Prop :=
  Imports (toImportSet b w ownPasswords) (toImportSet b w ownPasswords).groups
    (toImportSet b w ownPasswords).hosts s

theorem carriesOwn_iff (h : ImportedBundle b w true s) {o : Option ResolvedLogin} {i : Option ℕ}
    (hres : ResolvedFrom (toImportSet b w true) s.2 o i) : CarriesOwn b s.2 o ↔ (b.own i).isSome := by
  cases hres with
  | none =>
    constructor
    · rintro ⟨login, i, c, hno, -⟩
      cases hno
    · intro hno
      cases hno
  | @made login i input hsource hentry hpassword =>
    rw [logins_toImportSet, Option.map_eq_some_iff] at hentry
    obtain ⟨c, hc, rfl⟩ := hentry
    have hpassword : login.hasPassword = c.password.any fun p => !p.isEmpty := by
      rw [hpassword]
      unfold LoginInput.hasPassword importLoginInput
      simp
    rw [ImportBundle.own_isSome_iff]
    constructor
    · rintro ⟨login', j, c', hlogin, hhas, hj, hc', horigin⟩
      cases hlogin
      cases h.only _ _ _ hj hsource
      rw [hc] at hc'
      cases hc'
      exact ⟨c, hc, hpassword ▸ hhas, horigin⟩
    · rintro ⟨c', hc', hhas, horigin⟩
      rw [hc] at hc'
      cases hc'
      exact ⟨login, i, c, rfl, hpassword.trans hhas, hsource, hc, horigin⟩

theorem gateway_importRdpSettings (settings : ImportedSettings) :
    (normalizeRdp (importRdpSettings settings)).gateway =
      (settings.gateway.map importGateway).bind normalizeGateway := rfl

variable {g : ImportedGateway} {stored : GatewaySettings} {x : Uuid} {r : Row HostBody} {e : ImportedHost}

omit [Platform] in
theorem normalizeGateway_importGateway :
    normalizeGateway (importGateway g) = some stored ↔ Text.trim g.address ≠ [] ∧
      stored = ⟨Text.trim g.address, gatewayPort (g.port.getD 443),
        g.useHostCredentials || g.credential.isNone, g.bypassLocal, []⟩ := by
  unfold normalizeGateway
  show (if (Text.trim g.address).isEmpty = true then none else _) = _ ↔ _
  split
  · next hempty =>
    rw [List.isEmpty_iff] at hempty
    constructor
    · intro h
      cases h
    · exact fun h => absurd hempty h.1
  · next hne =>
    rw [List.isEmpty_iff] at hne
    constructor
    · intro h
      exact ⟨hne, (Option.some.inj h).symm⟩
    · rintro ⟨-, rfl⟩
      rfl

theorem host_of_row (h : ImportedBundle b w own s) (hr : s.1.db.row .host x = some r) :
    ∃ e ∈ b.addedHosts, HostWritten (toImportSet b w own) s (importHostInput w e) r := by
  obtain ⟨e, he, hw⟩ := h.host x r hr
  rw [addedHosts_toImportSet, List.mem_map] at he
  obtain ⟨e', he', rfl⟩ := he
  exact ⟨e', he', hw⟩

theorem row_of_host (h : ImportedBundle b w own s) (he : e ∈ b.addedHosts) : ∃ x r, s.1.db.row
    .host x = some r ∧ HostWritten (toImportSet b w own) s (importHostInput w e) r := by
  refine h.added (importHostInput w e) ?_
  rw [addedHosts_toImportSet]
  exact List.mem_map_of_mem he

theorem gatewayLoginUsed_from (h : ImportedBundle b w own s)
    (hr : s.1.db.row .host x = some r)
    (hw : HostWritten (toImportSet b w own) s (importHostInput w e) r)
    (hg : e.settings.gateway = some g)
    (hstored : normalizeGateway (importGateway g) = some stored) :
    ∃ o, gatewayLoginUsed s.1.db x stored = .ok o ∧ ResolvedFrom (toImportSet b w own) s.2 o
      (if g.useHostCredentials || g.credential.isNone then b.loginGiven e
        else b.taken g.credential) := by
  obtain ⟨-, rfl⟩ := normalizeGateway_importGateway.mp hstored
  unfold gatewayLoginUsed
  cases hshares : g.useHostCredentials || g.credential.isNone with
  | true =>
    obtain ⟨o, ho, hres⟩ := h.hostLogin hr hw
    rw [loginFrom_toImportSet] at hres
    exact ⟨o, ho, hres⟩
  | false =>
    obtain ⟨o, ho, hres⟩ := h.hostGatewayLogin hr hw
    have hindex : (importHostInput w e).gatewayLogin = g.credential := by
      show (e.settings.gateway.filter fun g => !g.useHostCredentials).bind _ = _
      rw [Bool.or_eq_false_iff] at hshares
      rw [hg, Option.filter_some, if_pos (by rw [hshares.1]; rfl), Option.bind_some]
    rw [hindex, takenFrom_toImportSet] at hres
    exact ⟨o, ho, hres⟩

/-- Where the preview is right about the hosts, every one that would connect with a password of the
user's own was named. -/
theorem announced_of_forthright (h : ImportedBundle b w true s) (hf : Forthright b) :
    Announced b s.2 s.1.db where
  host x r o hx ho hc := by
    obtain ⟨hr, -⟩ := Option.filter_eq_some_iff.mp hx
    obtain ⟨e, he, hw⟩ := host_of_row h hr
    obtain ⟨o', ho', hres⟩ := h.hostLogin hr hw
    rw [ho'] at ho
    cases ho
    rw [loginFrom_toImportSet] at hres
    have hgiven := (carriesOwn_iff h hres).mp hc
    have htold : ∃ e' ∈ b.hosts, (b.own (b.loginTold e')).isSome ∧
        Text.trim e'.address = Text.trim e.address ∧ e'.port = e.port := by
      by_cases hm : b.Misled e
      · exact hf.host e he hm
      · exact ⟨e, ImportBundle.addedHosts_subset he, ImportBundle.told_of_given hgiven hm, rfl, rfl⟩
    obtain ⟨e', he', hown, haddress, hport⟩ := htold
    obtain ⟨p, hp, hkind, hpa, hpp⟩ := ImportBundle.hostRecipient_isSome hown he'
    refine ⟨p, hp, hkind, ?_, ?_⟩
    · rw [hpa, Option.map_some, haddress, hw.address]
      rfl
    · rw [hpp, hport, hw.port]
      rfl
  gateway x r stored o hx hstored ho hc := by
    obtain ⟨hr, -⟩ := Option.filter_eq_some_iff.mp hx
    obtain ⟨e, he, hw⟩ := host_of_row h hr
    rw [hw.rdp] at hstored
    rw [show (importHostInput w e).rdp = importRdpSettings e.settings from rfl, gateway_importRdpSettings] at hstored
    obtain ⟨g₀, hg₀, hstored⟩ := Option.bind_eq_some_iff.mp hstored
    obtain ⟨g, hg, rfl⟩ := Option.map_eq_some_iff.mp hg₀
    obtain ⟨o', ho', hres⟩ := gatewayLoginUsed_from h hr hw hg hstored
    rw [ho'] at ho
    cases ho
    have hgiven := (carriesOwn_iff h hres).mp hc
    obtain ⟨hne, rfl⟩ := normalizeGateway_importGateway.mp hstored
    have htold : ∃ e' ∈ b.hosts, ∃ g', e'.settings.gateway = some g' ∧
        (b.own (b.gatewayTold e' g')).isSome ∧ Text.trim g'.address = Text.trim g.address ∧
        gatewayPort (g'.port.getD 443) = gatewayPort (g.port.getD 443) := by
      have hhere : (b.own (b.gatewayTold e g)).isSome → ∃ e' ∈ b.hosts, ∃ g',
          e'.settings.gateway = some g' ∧ (b.own (b.gatewayTold e' g')).isSome ∧
          Text.trim g'.address = Text.trim g.address ∧
          gatewayPort (g'.port.getD 443) = gatewayPort (g.port.getD 443) :=
        fun hown => ⟨e, ImportBundle.addedHosts_subset he, g, hg, hown, rfl, rfl⟩
      unfold ImportBundle.gatewayTold at hhere
      cases hshares : g.useHostCredentials || g.credential.isNone with
      | true =>
        rw [hshares, if_pos rfl] at hgiven hhere
        by_cases hm : b.Misled e
        · exact hf.gateway e he hm g hg hshares hne
        · exact hhere (ImportBundle.told_of_given hgiven hm)
      | false =>
        rw [hshares, if_neg (by decide)] at hgiven hhere
        refine hhere ?_
        cases htaken : b.taken g.credential with
        | none =>
          rw [htaken] at hgiven
          cases hgiven
        | some i =>
          rw [htaken] at hgiven
          rwa [(Option.filter_eq_some_iff.mp htaken).1]
    obtain ⟨e', he', g', hg', hown, haddress, hport⟩ := htold
    obtain ⟨p, hp, hkind, hpa, hpp⟩ := ImportBundle.gatewayRecipient_isSome hg' hown he'
    exact ⟨p, hp, hkind, by rw [hpa, Option.map_some, haddress], by rw [hpp, hport]⟩

theorem forthright_of_announced (h : ImportedBundle b w true s) (ha : Announced b s.2 s.1.db) :
    Forthright b where
  host e he hm := by
    obtain ⟨x, r, hr, hw⟩ := row_of_host h he
    obtain ⟨o, ho, hres⟩ := h.hostLogin hr hw
    rw [loginFrom_toImportSet] at hres
    have hx : liveHost s.1.db x = some r := Option.filter_eq_some_iff.mpr ⟨hr, by rw [hw.live]; rfl⟩
    obtain ⟨p, hp, hkind, haddress, hport⟩ := ha.host x r o hx ho ((carriesOwn_iff h hres).mpr hm.loginGiven)
    rcases ImportBundle.mem_passwordRecipients hp with hk | ⟨e', he', hown, -, hpa, hpp⟩ | ⟨_, _, _, _, _, hk, _⟩
    · rw [hkind] at hk
      cases hk
    · refine ⟨e', he', hown, ?_, ?_⟩
      · rw [hpa, Option.map_some, hw.address] at haddress
        exact Option.some.inj haddress
      · rw [hpp, hw.port] at hport
        exact Option.some.inj hport
    · rw [hkind] at hk
      cases hk
  gateway e he hm g hg hshares hne := by
    obtain ⟨x, r, hr, hw⟩ := row_of_host h he
    have hstored := normalizeGateway_importGateway.mpr ⟨hne, rfl⟩
    obtain ⟨o, ho, hres⟩ := gatewayLoginUsed_from h hr hw hg hstored
    rw [hshares, if_pos rfl] at hres
    have hx : liveHost s.1.db x = some r := Option.filter_eq_some_iff.mpr ⟨hr, by rw [hw.live]; rfl⟩
    have hgateway : r.body.rdp.gateway = normalizeGateway (importGateway g) := by
      rw [hw.rdp, show (importHostInput w e).rdp = importRdpSettings e.settings from rfl,
        gateway_importRdpSettings, hg]
      rfl
    obtain ⟨p, hp, hkind, haddress, hport⟩ := ha.gateway x r _ o hx (hgateway.trans hstored) ho
      ((carriesOwn_iff h hres).mpr hm.loginGiven)
    rcases ImportBundle.mem_passwordRecipients hp with hk | ⟨_, _, _, hk, _⟩ | ⟨e', he', g', hg', hown, -, hpa, hpp⟩
    · rw [hkind] at hk
      cases hk
    · rw [hkind] at hk
      cases hk
    · refine ⟨e', he', g', hg', hown, ?_, ?_⟩
      · rw [hpa, Option.map_some] at haddress
        exact Option.some.inj haddress
      · rw [hpp] at hport
        exact hport

theorem no_own_stored (h : ImportedBundle b w false s) {id : Uuid} {r : Row IdentityBody}
    (hr : s.1.db.row .identity id = some r) : ∃ i c, (id, i) ∈ s.2 ∧ b.credentials[i]? = some c ∧
    (r.body.passwordSecretId.isSome = true → c.origin = .inFile) := by
  obtain ⟨i, hi⟩ := h.identity id r hr
  obtain ⟨r', input, hr', hentry, hof⟩ := h.source id i hi
  rw [hr] at hr'
  cases hr'
  rw [logins_toImportSet, Option.map_eq_some_iff] at hentry
  obtain ⟨c, hc, rfl⟩ := hentry
  refine ⟨i, c, hi, hc, fun hhas => ?_⟩
  rw [hof.password] at hhas
  by_contra horigin
  simp only [LoginInput.hasPassword, importLoginInput, Option.any_filter] at hhas
  cases hp : c.password with
  | none =>
    rw [hp] at hhas
    cases hhas
  | some p =>
    rw [hp, Option.any_some] at hhas
    simp [ImportedCredential.passwordIsUsersOwn, hp, horigin] at hhas

end Stored

/-- An import of a bundle into an empty store that takes the user's own passwords gives one to no host
or gateway the preview did not name, exactly when the preview is not wrong about a host; one that does
not take them stores none. -/
theorem own_passwords_announced_iff [Platform] (b : ImportBundle) (w : Workspace) (cx : Session)
    (db : Db) (hempty : ∀ k id, db.row k id = none) :
    (∀ s, importSet cx (toImportSet b w true) ⟨db, 0⟩ = .ok ((), s) →
      (Announced b (importSources cx (toImportSet b w true) db) s.db ↔ Forthright b)) ∧
    ∀ s, importSet cx (toImportSet b w false) ⟨db, 0⟩ = .ok ((), s) →
      ∀ id r, s.db.row .identity id = some r →
        ∃ i c, (id, i) ∈ importSources cx (toImportSet b w false) db ∧
          b.credentials[i]? = some c ∧
          (r.body.passwordSecretId.isSome = true → c.origin = .inFile) := by
  constructor
  · intro s hrun
    have h := importSet_imports hempty hrun
    exact ⟨forthright_of_announced h, announced_of_forthright h⟩
  · intro s hrun id r hr
    exact no_own_stored (importSet_imports hempty hrun) hr

theorem not_announced [Platform] {b : ImportBundle} {w : Workspace} {cx : Session} {db : Db} {s : TxState}
    (hempty : ∀ k id, db.row k id = none) (hrun : importSet cx (toImportSet b w true) ⟨db, 0⟩ = .ok ((), s))
    (hnot : ¬Forthright b) : ¬Announced b (importSources cx (toImportSet b w true) db) s.db :=
  fun h => hnot (forthright_of_announced (importSet_imports hempty hrun) h)

/-! ## Two groups of one path -/

/-- A server whose login comes from its group `A`, which is there twice; an administrator's password
that this account unsealed is that of one of them. -/
def twoGroups (first second : Option ℕ) : ImportBundle where
  groups := [⟨['A'], first⟩, ⟨['A'], second⟩]
  hosts := [{ name := ['s'], address := ['s'], port := 3389, groupPath := some ['A'],
              credential := none }]
  credentials := [⟨none, some ['a'], none, some [112], .unsealed⟩]

theorem goes_through {σ ε : Type} {r : Except ε (Unit × σ)} (h : r.toOption.isSome = true) :
    ∃ s, r = .ok ((), s) := by
  rcases r with e | ⟨⟨⟩, s⟩
  · cases h
  · exact ⟨s, rfl⟩

/-- With the login in the first group, the server is named. -/
theorem own_passwords_announced_first :
    letI := asciiPlatform
    ∃ s, importSet deviceOne (toImportSet (twoGroups (some 0) none) .priv true) ⟨Db.fresh 1, 0⟩ =
        .ok ((), s) ∧
      Announced (twoGroups (some 0) none)
        (importSources deviceOne (toImportSet (twoGroups (some 0) none) .priv true) (Db.fresh 1))
        s.db := by
  let _ := asciiPlatform
  obtain ⟨s, hrun⟩ : ∃ s, importSet deviceOne (toImportSet (twoGroups (some 0) none) .priv true)
      ⟨Db.fresh 1, 0⟩ = .ok ((), s) := goes_through (by decide +kernel)
  have htold : ∀ h ∈ (twoGroups (some 0) none).hosts,
      (twoGroups (some 0) none).own ((twoGroups (some 0) none).loginTold h) ≠ none := by decide
  have hnone : ∀ h ∈ (twoGroups (some 0) none).addedHosts, ¬(twoGroups (some 0) none).Misled h :=
    fun h hh hm => htold h (ImportBundle.addedHosts_subset hh) hm.untold
  refine ⟨s, hrun, ((own_passwords_announced_iff (twoGroups (some 0) none) .priv deviceOne
    (Db.fresh 1) fun k id => Db.row_fresh 1 k id).1 s hrun).mpr ⟨?_, ?_⟩⟩
  · exact fun h hh hm => absurd hm (hnone h hh)
  · exact fun h hh hm => absurd hm (hnone h hh)

/-- With the login in the second, it gets the password and nothing says so. -/
theorem own_password_unannounced :
    letI := asciiPlatform
    ¬∀ (b : ImportBundle) (cx : Session) (db : Db), (∀ k id, db.row k id = none) →
      cx.vault.isSome = true → ∀ s,
        importSet cx (toImportSet b .priv true) ⟨db, 0⟩ = .ok ((), s) →
          Announced b (importSources cx (toImportSet b .priv true) db) s.db := by
  intro hall
  obtain ⟨s, hrun⟩ : ∃ s, @importSet asciiPlatform deviceOne
      (toImportSet (twoGroups none (some 0)) .priv true) ⟨Db.fresh 1, 0⟩ = .ok ((), s) :=
    goes_through (by decide +kernel)
  have hempty : ∀ k id, (Db.fresh 1).row k id = none := fun k id => Db.row_fresh 1 k id
  refine @not_announced asciiPlatform _ _ _ _ _ hempty hrun ?_
    (hall (twoGroups none (some 0)) deviceOne (Db.fresh 1) hempty rfl s hrun)
  intro hf
  obtain ⟨server, hserver, huntaken, hgiven, huntold⟩ : ∃ h ∈ (twoGroups none (some 0)).addedHosts,
        (twoGroups none (some 0)).taken h.credential = none ∧
        ((twoGroups none (some 0)).own ((twoGroups none (some 0)).pathGiven h)).isSome ∧
        (twoGroups none (some 0)).own ((twoGroups none (some 0)).loginTold h) = none := by
    decide +kernel
  obtain ⟨e, he, hown, -⟩ := hf.host server hserver ⟨huntaken, hgiven, huntold⟩
  have hno : ∀ e ∈ (twoGroups none (some 0)).hosts,
      (twoGroups none (some 0)).own ((twoGroups none (some 0)).loginTold e) = none := by decide
  rw [hno e he] at hown
  cases hown

end UwuRdp
