import UwuRdp.App.Rdg

/-!
# Inheritance in a file, and in the app

In the file a node's login is that of the nearest node above it that sets one. The app knows a host's
own login and else its group's, so the walk gives a host that inherits nothing and its group the login
resolved down to there. Settings come through that (`walk_grown`). Logins do not for a server that
sets none on purpose in a group that has one, and for groups that share a path:
`inheritance_preserved` says exactly which hosts get the login the file means.
-/

namespace UwuRdp.Rdg

/-! ## What the file says -/

section File

variable (src : Source) (profiles : List FileProfile)

def kept (c : ImportedCredential) : Option ImportedCredential := if c.isEmpty then none else some c

def profileNamed (name : Text) (isLocal : Bool) : Option ImportedCredential :=
  if isLocal then src.localProfile name
  else (profiles.find? fun p => p.name = name).map FileProfile.credential

/-- What a node sets: nothing of its own when it inherits, else a credential or that there is none. -/
def setCredential (node : Node) : Option (Option ImportedCredential) :=
  match logonSpec src (findChild node "logonCredentials".toList) with
  | .inherit => none
  | .empty => some none
  | .inline cred _ => some (kept cred)
  | .profile name isLocal => some ((profileNamed src profiles name isLocal).bind kept)

/-- What the nearest of some nodes sets, the innermost first. -/
def nearestCredential (chain : List Node) : Option ImportedCredential :=
  (chain.findSome? (setCredential src profiles)).join

def withUser (c : Option ImportedCredential) : Option ImportedCredential :=
  c.filter fun c => c.username.isSome

def nearestLogin (chain : List Node) : Option ImportedCredential :=
  withUser (nearestCredential src profiles chain)

end File

/-- The nearest element of a category that does not inherit. -/
def nearest (tag : Text) (chain : List Node) : Option Node :=
  chain.findSome? fun node => (findChild node tag).filter fun e => !inheritsFromParent e

/-- Each category from the nearest node that sets it. -/
def EffNodes.nearest (chain : List Node) : EffNodes where
  remoteDesktop := Rdg.nearest "remoteDesktop".toList chain
  connection := Rdg.nearest "connectionSettings".toList chain
  localResources := Rdg.nearest "localResources".toList chain
  gateway := Rdg.nearest "gatewaySettings".toList chain
  security := Rdg.nearest "securitySettings".toList chain
  displaySettings := Rdg.nearest "displaySettings".toList chain

/-- A group or server of a file: its path or that of its group, and the nodes from itself up to the
file. -/
inductive Entry where
  | group (path : Text) (chain : List Node)
  | server (path : Option Text) (chain : List Node)

def Entry.group? : Entry → Option (Text × List Node)
  | group path chain => some (path, chain)
  | server .. => none

def Entry.server? : Entry → Option (Option Text × List Node)
  | group .. => none
  | server path chain => some (path, chain)

mutual

/-- The groups and servers at a node, in document order. -/
def entriesAt (path : Option Text) (above : List Node) : Node → List Entry
  | .element tag attributes children =>
    let node := Node.element tag attributes children
    if tag = "group".toList then
      .group (groupPathOf path node) (node :: above) ::
        entriesIn (some (groupPathOf path node)) (node :: above) children
    else if tag = "server".toList then [.server path (node :: above)]
    else []
  | _ => []

def entriesIn (path : Option Text) (above : List Node) : List Node → List Entry
  | [] => []
  | node :: rest => entriesAt path above node ++ entriesIn path above rest

end

def entries (file : Node) : List Entry := entriesIn none [file] file.children

def groups (file : Node) : List (Text × List Node) := (entries file).filterMap Entry.group?

def servers (file : Node) : List (Option Text × List Node) := (entries file).filterMap Entry.server?

/-! ## What came out -/

def Names (creds : List ImportedCredential) (index : Option ℕ) (c : Option ImportedCredential) : Prop :=
  index.map (fun i => creds[i]?) = c.map some

/-- A gateway as its element says, with the login that stands in it. -/
def GatewayFrom (src : Source) (creds : List ImportedCredential) (gw : Option Node)
    (g : Option ImportedGateway) : Prop :=
  match gw.bind fun gw => (gatewayOf gw).map fun parts => (parts, (parseInline src gw none).1) with
  | none => g = none
  | some (parts, cred) => ∃ credential, g = some { parts with credential } ∧
      Names creds credential (kept cred)

/-- A group with the login of the nearest node that sets one. -/
structure GroupFrom (src : Source) (profiles : List FileProfile) (creds : List ImportedCredential)
    (place : Text × List Node) (group : ImportedGroup) : Prop where
  path : group.path = place.1
  credential : Names creds group.credential (nearestCredential src profiles place.2)

/-- What a server carries itself: what it sets, and what it inherits only outside of groups. -/
def carried (src : Source) (profiles : List FileProfile) (place : Option Text × List Node) :
    Option ImportedCredential :=
  match place.2.head?.bind (setCredential src profiles) with
  | some c => c
  | none => if place.1.isSome then none else nearestCredential src profiles place.2

def addressOf (place : Option Text × List Node) : Text × Option UInt16 :=
  splitHostPort ((place.2.head?.bind fun node => findText node "name".toList).getD [])

/-- A host with each settings category from the nearest node that sets it. -/
structure HostFrom (src : Source) (profiles : List FileProfile) (creds : List ImportedCredential)
    (place : Option Text × List Node) (host : ImportedHost) : Prop where
  groupPath : host.groupPath = place.1
  address : host.address = (addressOf place).1
  credential : Names creds host.credential (carried src profiles place)
  port : host.port = portOf (nearest "connectionSettings".toList place.2) (addressOf place).2
  settings : host.settings = (EffNodes.nearest place.2).settings host.settings.gateway
  gateway : GatewayFrom src creds (nearest "gatewaySettings".toList place.2) host.settings.gateway
  extras : host.extras = (EffNodes.nearest place.2).extras

/-! ## Naming credentials -/

section Names

variable {creds more : List ImportedCredential} {index : Option ℕ} {c : Option ImportedCredential}

theorem names_none : Names creds none none := rfl

theorem Names.append (h : Names creds index c) : Names (creds ++ more) index c := by
  unfold Names at h ⊢
  cases index with
  | none => exact h
  | some i =>
    cases c with
    | none => cases h
    | some cred =>
      have hi : creds[i]? = some cred := Option.some.inj h
      obtain ⟨hlt, -⟩ := List.getElem?_eq_some_iff.mp hi
      rw [Option.map_some, List.getElem?_append_left hlt, hi]
      rfl

theorem Names.bind_eq (h : Names creds index c) : index.bind (fun i => creds[i]?) = c := by
  unfold Names at h
  cases index with
  | none =>
    cases c with
    | none => rfl
    | some cred => cases h
  | some i =>
    cases c with
    | none => cases h
    | some cred => exact Option.some.inj h

theorem Names.isSome_eq (h : Names creds index c) : index.isSome = c.isSome := by
  have hsome := congrArg Option.isSome h
  rwa [Option.isSome_map, Option.isSome_map] at hsome

theorem Names.lt (h : Names creds index c) : ∀ i, index = some i → i < creds.length := by
  rintro i rfl
  cases c with
  | none => cases h
  | some cred =>
    obtain ⟨hlt, -⟩ := List.getElem?_eq_some_iff.mp (Option.some.inj h : creds[i]? = some cred)
    exact hlt

end Names

/-! ## Interning -/

theorem dedupeKey_inj {a b : ImportedCredential} (h : a.dedupeKey = b.dedupeKey) : a = b := by
  cases a
  cases b
  cases h
  rfl

/-- The context with more credentials, and nothing else in the bundle. -/
structure Adds (ctx ctx' : Ctx) : Prop where
  groups : ctx'.bundle.groups = ctx.bundle.groups
  hosts : ctx'.bundle.hosts = ctx.bundle.hosts
  credentials : ∃ more, ctx'.bundle.credentials = ctx.bundle.credentials ++ more

theorem Adds.refl (ctx : Ctx) : Adds ctx ctx := ⟨rfl, rfl, [], (List.append_nil _).symm⟩

theorem Adds.trans {ctx ctx₁ ctx' : Ctx} (h : Adds ctx ctx₁) (h' : Adds ctx₁ ctx') : Adds ctx ctx' := by
  obtain ⟨more, hmore⟩ := h.credentials
  obtain ⟨more', hmore'⟩ := h'.credentials
  exact ⟨h'.groups.trans h.groups, h'.hosts.trans h.hosts, more ++ more', by rw [hmore', hmore, List.append_assoc]⟩

theorem Names.adds {ctx ctx' : Ctx} (h : Adds ctx ctx') {index : Option ℕ} {c : Option ImportedCredential}
    (hn : Names ctx.bundle.credentials index c) : Names ctx'.bundle.credentials index c := by
  obtain ⟨more, hmore⟩ := h.credentials
  rw [hmore]
  exact hn.append

/-- A result of looking something up: an index of the credential it is. -/
def Gives (ctx : Ctx) (r : Ctx × Option ℕ) (c : Option ImportedCredential) : Prop :=
  Adds ctx r.1 ∧ Names r.1.bundle.credentials r.2 c

section Lookups

variable {src : Source} {profiles : List FileProfile} {ctx : Ctx}

theorem intern_gives (cred : ImportedCredential) : Gives ctx (ctx.intern cred) (kept cred) := by
  unfold Ctx.intern ImportBundle.internCredential kept
  by_cases he : cred.isEmpty = true
  · rw [if_pos he, if_pos he]
    exact ⟨⟨rfl, rfl, [], (List.append_nil _).symm⟩, rfl⟩
  · rw [if_neg he, if_neg he]
    cases hfind : ctx.bundle.credentials.findIdx? fun c => c.dedupeKey = cred.dedupeKey with
    | some i =>
      refine ⟨⟨rfl, rfl, [], (List.append_nil _).symm⟩, ?_⟩
      obtain ⟨hlt, hkey, -⟩ := List.findIdx?_eq_some_iff_getElem.mp hfind
      have hcred : ctx.bundle.credentials[i] = cred := dedupeKey_inj (of_decide_eq_true hkey)
      show some (ctx.bundle.credentials[i]?) = some (some cred)
      rw [List.getElem?_eq_getElem hlt, hcred]
    | none =>
      refine ⟨⟨rfl, rfl, [cred], rfl⟩, ?_⟩
      show some ((ctx.bundle.credentials ++ [cred])[ctx.bundle.credentials.length]?) = some (some cred)
      rw [List.getElem?_concat_length]

theorem intern_noted (failed : Bool) (cred : ImportedCredential) :
    Gives ctx (({ ctx with pwFailed := ctx.pwFailed || failed } : Ctx).intern cred) (kept cred) :=
  ⟨⟨(intern_gives cred).1.groups, (intern_gives cred).1.hosts, (intern_gives cred).1.credentials⟩,
    (intern_gives cred).2⟩

theorem resolveProfile_gives (name : Text) (isLocal : Bool) : Gives ctx (ctx.resolveProfile src profiles name isLocal)
    ((profileNamed src profiles name isLocal).bind kept) := by
  have hmissing : Gives ctx ({ ctx with skipped := ctx.skipped ++ [profileMissing name] }, none) none :=
    ⟨⟨rfl, rfl, [], (List.append_nil _).symm⟩, rfl⟩
  unfold Ctx.resolveProfile profileNamed
  cases isLocal with
  | true =>
    rw [if_pos rfl, if_pos rfl]
    cases src.localProfile name with
    | none => exact hmissing
    | some cred => exact intern_gives cred
  | false =>
    rw [if_neg Bool.false_ne_true, if_neg Bool.false_ne_true]
    cases profiles.find? fun p => p.name = name with
    | none => exact hmissing
    | some p => exact intern_noted p.failed p.credential

theorem ownCreds_gives (node : Node) :
    Gives ctx (ctx.ownCreds src profiles node) (setCredential src profiles node).join := by
  unfold Ctx.ownCreds setCredential
  cases logonSpec src (findChild node "logonCredentials".toList) with
  | inherit | empty => exact ⟨Adds.refl ctx, rfl⟩
  | inline cred failed => exact intern_noted failed cred
  | profile name isLocal => exact resolveProfile_gives name isLocal

theorem resolveCreds_gives {node : Node} {above : List Node} {parent : Option ℕ}
    (hp : Names ctx.bundle.credentials parent (nearestCredential src profiles above)) : Gives ctx
    (ctx.resolveCreds src profiles node parent) (nearestCredential src profiles (node :: above)) := by
  unfold Ctx.resolveCreds nearestCredential
  rw [List.findSome?_cons]
  unfold setCredential
  cases logonSpec src (findChild node "logonCredentials".toList) with
  | inherit => exact ⟨Adds.refl ctx, hp⟩
  | empty => exact ⟨Adds.refl ctx, rfl⟩
  | inline cred failed => exact intern_noted failed cred
  | profile name isLocal => exact resolveProfile_gives name isLocal

theorem effective_nearest (node : Node) (tag : Text) (above : List Node) :
    effective node tag (nearest tag above) = nearest tag (node :: above) := by
  unfold effective nearest
  rw [List.findSome?_cons]
  cases findChild node tag with
  | none => rfl
  | some e =>
    by_cases h : inheritsFromParent e = true
    · simp [Option.filter, h]
    · simp [Option.filter, h]

theorem at_nearest (node : Node) (above : List Node) :
    EffNodes.at node (.nearest above) = .nearest (node :: above) := by
  unfold EffNodes.at EffNodes.nearest
  simp only [effective_nearest]

theorem parseGateway_from (gw : Node) : Adds ctx (ctx.parseGateway src gw).1 ∧ GatewayFrom src
    (ctx.parseGateway src gw).1.bundle.credentials (some gw) (ctx.parseGateway src gw).2 := by
  unfold Ctx.parseGateway GatewayFrom
  rw [Option.bind_some]
  cases gatewayOf gw with
  | none => exact ⟨Adds.refl ctx, rfl⟩
  | some gateway =>
    obtain ⟨hadds, hnames⟩ := @intern_noted ctx (parseInline src gw none).2 (parseInline src gw none).1
    exact ⟨hadds, _, rfl, hnames⟩

theorem build_from (n : EffNodes) : Adds ctx (n.build src ctx).1 ∧ (n.build src ctx).2.1 = n.settings
    (n.build src ctx).2.1.gateway ∧ GatewayFrom src (n.build src ctx).1.bundle.credentials n.gateway
    (n.build src ctx).2.1.gateway ∧ (n.build src ctx).2.2 = n.extras := by
  unfold EffNodes.build
  cases hgw : n.gateway with
  | none => exact ⟨Adds.refl ctx, rfl, rfl, rfl⟩
  | some gw =>
    obtain ⟨hadds, hgateway⟩ := @parseGateway_from src ctx gw
    exact ⟨hadds, rfl, hgateway, rfl⟩

theorem hostCreds_gives {node : Node} {above : List Node} {path : Option Text} {parent : Option ℕ}
    (hp : Names ctx.bundle.credentials parent (nearestCredential src profiles above)) : Gives ctx
    (ctx.hostCreds src profiles node path parent) (carried src profiles (path, node :: above)) := by
  have hgives := @ownCreds_gives src profiles ctx node
  unfold Ctx.hostCreds carried nearestCredential
  rw [List.head?_cons, Option.bind_some, List.findSome?_cons]
  unfold setCredential at hgives ⊢
  cases hspec : logonSpec src (findChild node "logonCredentials".toList) with
  | inherit =>
    refine ⟨Adds.refl ctx, ?_⟩
    cases path with
    | none => exact hp
    | some p => exact names_none
  | empty | inline cred failed | profile name isLocal =>
    rw [hspec] at hgives
    exact hgives

theorem buildHost_from {node : Node} {above : List Node} {path : Option Text} {parent : Option ℕ}
    (hp : Names ctx.bundle.credentials parent (nearestCredential src profiles above)) : Adds ctx
    (buildHost src profiles node path parent (.nearest above) ctx).1 ∧ HostFrom src profiles
    (buildHost src profiles node path parent (.nearest above) ctx).1.bundle.credentials (path, node :: above)
    (buildHost src profiles node path parent (.nearest above) ctx).2 := by
  unfold buildHost
  simp only [at_nearest]
  -- The host's own login first, then its settings on top of that.
  obtain ⟨hadds, hnames⟩ := @hostCreds_gives _ _ _ node _ path _ hp
  obtain ⟨hadds', hsettings, hgateway, hextras⟩ := @build_from src
    (ctx.hostCreds src profiles node path parent).1 (EffNodes.nearest (node :: above))
  exact ⟨hadds.trans hadds', ⟨rfl, rfl, hnames.adds hadds', rfl, hsettings, hgateway, hextras⟩⟩

end Lookups

/-! ## The walk -/

section Walk

variable {src : Source} {profiles : List FileProfile} {creds more : List ImportedCredential}

theorem GatewayFrom.append {gw : Option Node} {g : Option ImportedGateway}
    (h : GatewayFrom src creds gw g) : GatewayFrom src (creds ++ more) gw g := by
  unfold GatewayFrom at h ⊢
  split
  · next hnone =>
    rw [hnone] at h
    exact h
  · next parts cred hsome =>
    rw [hsome] at h
    obtain ⟨credential, hg, hnames⟩ := h
    exact ⟨credential, hg, hnames.append⟩

theorem GroupFrom.append {place : Text × List Node} {group : ImportedGroup}
    (h : GroupFrom src profiles creds place group) : GroupFrom src profiles (creds ++ more) place group :=
  ⟨h.path, h.credential.append⟩

theorem HostFrom.append {place : Option Text × List Node} {host : ImportedHost}
    (h : HostFrom src profiles creds place host) : HostFrom src profiles (creds ++ more) place host :=
  ⟨h.groupPath, h.address, h.credential.append, h.port, h.settings, h.gateway.append, h.extras⟩

/-- What a walk over some entries adds to the bundle: their groups and hosts, in order. -/
structure Grown (src : Source) (profiles : List FileProfile) (ctx ctx' : Ctx) (es : List Entry) :
    Prop where
  credentials : ∃ more, ctx'.bundle.credentials = ctx.bundle.credentials ++ more
  groups : ∃ added, ctx'.bundle.groups = ctx.bundle.groups ++ added ∧
    List.Forall₂ (GroupFrom src profiles ctx'.bundle.credentials) (es.filterMap Entry.group?) added
  hosts : ∃ added, ctx'.bundle.hosts = ctx.bundle.hosts ++ added ∧
    List.Forall₂ (HostFrom src profiles ctx'.bundle.credentials) (es.filterMap Entry.server?) added

variable {ctx ctx₁ ctx' : Ctx} {es es' : List Entry}

theorem Grown.nil (h : Adds ctx ctx') : Grown src profiles ctx ctx' [] :=
  ⟨h.credentials, ⟨[], by rw [h.groups, List.append_nil], .nil⟩,
    ⟨[], by rw [h.hosts, List.append_nil], .nil⟩⟩

theorem Grown.append (h : Grown src profiles ctx ctx₁ es) (h' : Grown src profiles ctx₁ ctx' es') :
    Grown src profiles ctx ctx' (es ++ es') := by
  obtain ⟨more, hmore⟩ := h.credentials
  obtain ⟨more', hmore'⟩ := h'.credentials
  obtain ⟨gs, hgs, hgroups⟩ := h.groups
  obtain ⟨gs', hgs', hgroups'⟩ := h'.groups
  obtain ⟨hs, hhs, hhosts⟩ := h.hosts
  obtain ⟨hs', hhs', hhosts'⟩ := h'.hosts
  refine ⟨⟨more ++ more', ?_⟩, ⟨gs ++ gs', ?_, ?_⟩, ⟨hs ++ hs', ?_, ?_⟩⟩
  · rw [hmore', hmore, List.append_assoc]
  · rw [hgs', hgs, List.append_assoc]
  · rw [List.filterMap_append]
    refine List.rel_append ?_ hgroups'
    rw [hmore']
    exact hgroups.imp fun _ _ hg => hg.append
  · rw [hhs', hhs, List.append_assoc]
  · rw [List.filterMap_append]
    refine List.rel_append ?_ hhosts'
    rw [hmore']
    exact hhosts.imp fun _ _ hh => hh.append

theorem Grown.names (h : Grown src profiles ctx ctx' es) {index : Option ℕ} {c : Option ImportedCredential}
    (hn : Names ctx.bundle.credentials index c) : Names ctx'.bundle.credentials index c := by
  obtain ⟨more, hmore⟩ := h.credentials
  rw [hmore]
  exact hn.append

theorem Grown.group {path : Text} {chain : List Node} {index : Option ℕ} (h : Adds ctx ctx₁)
    (hn : Names ctx₁.bundle.credentials index (nearestCredential src profiles chain)) :
    Grown src profiles ctx
      { ctx₁ with bundle := { ctx₁.bundle with groups := ctx₁.bundle.groups ++ [⟨path, index⟩] } }
      [.group path chain] :=
  ⟨h.credentials, ⟨[⟨path, index⟩], by rw [← h.groups], .cons ⟨rfl, hn⟩ .nil⟩,
    ⟨[], by rw [List.append_nil]; exact h.hosts, .nil⟩⟩

theorem Grown.server {path : Option Text} {chain : List Node} {host : ImportedHost}
    (h : Adds ctx ctx₁) (hh : HostFrom src profiles ctx₁.bundle.credentials (path, chain) host) :
    Grown src profiles ctx
      { ctx₁ with bundle := { ctx₁.bundle with hosts := ctx₁.bundle.hosts ++ [host] } }
      [.server path chain] :=
  ⟨h.credentials, ⟨[], by rw [List.append_nil]; exact h.groups, .nil⟩,
    ⟨[host], by rw [← h.hosts], .cons hh .nil⟩⟩

mutual

theorem walkNode_grown (path : Option Text) (above : List Node) (parent : Option ℕ) :
    ∀ (node : Node) (ctx : Ctx),
      Names ctx.bundle.credentials parent (nearestCredential src profiles above) →
      Grown src profiles ctx (walkNode src profiles path parent (.nearest above) node ctx)
        (entriesAt path above node)
  | .text _, ctx, _ => Grown.nil (Adds.refl ctx)
  | .other, ctx, _ => Grown.nil (Adds.refl ctx)
  | .element tag attributes children, ctx, hp => by
    unfold walkNode entriesAt
    simp only
    split
    · obtain ⟨hadds, hnames⟩ := @resolveCreds_gives _ _ _ (.element tag attributes children) _ _ hp
      have hgroup := @Grown.group _ _ _ _ (groupPathOf path (.element tag attributes children)) _ _ hadds hnames
      rw [at_nearest]
      exact hgroup.append (walk_grown _ _ _ children _ hnames)
    · split
      · obtain ⟨hadds, hhost⟩ := @buildHost_from _ _ _ (.element tag attributes children) _ path _ hp
        exact Grown.server hadds hhost
      · split
        · exact Grown.nil ⟨rfl, rfl, [], (List.append_nil _).symm⟩
        · exact Grown.nil (Adds.refl ctx)

theorem walk_grown (path : Option Text) (above : List Node) (parent : Option ℕ) :
    ∀ (nodes : List Node) (ctx : Ctx),
      Names ctx.bundle.credentials parent (nearestCredential src profiles above) →
      Grown src profiles ctx (walk src profiles path parent (.nearest above) nodes ctx)
        (entriesIn path above nodes)
  | [], ctx, _ => Grown.nil (Adds.refl ctx)
  | node :: rest, ctx, hp => by
    unfold walk entriesIn
    have hnode := walkNode_grown path above parent node ctx hp
    exact hnode.append (walk_grown path above parent rest _ (hnode.names hp))

end

end Walk

/-! ## The login the app would use -/

/-- The login the app would use for a host: the connection's if it has one, else its group's. -/
def loginUsed (b : ImportBundle) (host : ImportedHost) : Option ImportedCredential :=
  withUser ((b.loginTold host).bind fun i => b.credentials[i]?)

section Login

variable (src : Source) (profiles : List FileProfile)

/-- The credential of the first of some groups that has a path. -/
def pathCredential (gs : List (Text × List Node)) (path : Text) : Option ImportedCredential :=
  (gs.find? fun g => g.1 = path).bind fun g => nearestCredential src profiles g.2

/-- A server whose login the app's rule brings out: one that inherits is in a group whose path's login
is its own group's, one that sets none is in no group with a login. -/
def Reexpressed (gs : List (Text × List Node)) (place : Option Text × List Node) : Prop :=
  ∀ path, place.1 = some path →
    match place.2.head?.bind (setCredential src profiles) with
    | none => withUser (pathCredential src profiles gs path) = nearestLogin src profiles place.2
    | some none => withUser (pathCredential src profiles gs path) = none
    | some (some _) => True

variable {src profiles} {creds : List ImportedCredential} {gs : List (Text × List Node)}

theorem find_group {added : List ImportedGroup} (h : List.Forall₂ (GroupFrom src profiles creds) gs added)
    (path : Text) : ((added.find? fun g => g.path = path).bind ImportedGroup.credential).bind (fun i => creds[i]?) =
    pathCredential src profiles gs path := by
  unfold pathCredential
  induction h with
  | nil => rfl
  | @cons place group gs added hg _ ih =>
    rw [List.find?_cons, List.find?_cons, hg.path]
    split
    · rw [Option.bind_some, Option.bind_some]
      exact hg.credential.bind_eq
    · exact ih

theorem loginUsed_eq {b : ImportBundle} {place : Option Text × List Node} {host : ImportedHost}
    (hg : List.Forall₂ (GroupFrom src profiles b.credentials) gs b.groups)
    (hh : HostFrom src profiles b.credentials place host) : loginUsed b host = withUser
    ((carried src profiles place).or (place.1.bind (pathCredential src profiles gs))) := by
  unfold loginUsed ImportBundle.loginTold
  rw [hh.groupPath]
  congr 1
  have hnames := hh.credential
  generalize host.credential = index at hnames
  have hvalue := hnames.bind_eq
  cases index with
  | some i =>
    have hsome : (carried src profiles place).isSome = true := hnames.isSome_eq.symm
    obtain ⟨cred, hcred⟩ := Option.isSome_iff_exists.mp hsome
    rw [Option.some_or, hvalue, hcred, Option.some_or]
  | none =>
    rw [← hvalue, Option.bind_none, Option.none_or, Option.none_or]
    cases place.1 with
    | none => rfl
    | some path => exact find_group hg path

theorem takesLogin_iff {b : ImportBundle} {place : Option Text × List Node} {host : ImportedHost}
    (hg : List.Forall₂ (GroupFrom src profiles b.credentials) gs b.groups)
    (hh : HostFrom src profiles b.credentials place host) :
    loginUsed b host = nearestLogin src profiles place.2 ↔ Reexpressed src profiles gs place := by
  obtain ⟨path, chain⟩ := place
  rw [loginUsed_eq hg hh]
  unfold carried Reexpressed nearestLogin
  cases hset : chain.head?.bind (setCredential src profiles) with
  | none =>
    cases path with
    | none | some p => simp
  | some c =>
    have hnearest : nearestCredential src profiles chain = c := by
      cases chain with
      | nil => cases hset
      | cons node above =>
        rw [List.head?_cons, Option.bind_some] at hset
        rw [nearestCredential, List.findSome?_cons, hset]
        rfl
    rw [hnearest]
    cases c with
    | some cred => simp
    | none =>
      have hnone : withUser none = none := rfl
      cases path with
      | none => simp
      | some p => simp [hnone]

end Login

/-! ## Indices and paths -/

/-- Every index and every path in a bundle leads somewhere. -/
structure InRange (b : ImportBundle) : Prop where
  groups : ∀ g ∈ b.groups, ∀ i, g.credential = some i → i < b.credentials.length
  hosts : ∀ h ∈ b.hosts, ∀ i, h.credential = some i → i < b.credentials.length
  gateways : ∀ h ∈ b.hosts, ∀ g, h.settings.gateway = some g →
    ∀ i, g.credential = some i → i < b.credentials.length
  paths : ∀ h ∈ b.hosts, ∀ path, h.groupPath = some path → ∃ g ∈ b.groups, g.path = path

theorem GatewayFrom.lt {src : Source} {creds : List ImportedCredential} {gw : Option Node} {g : ImportedGateway}
    (h : GatewayFrom src creds gw (some g)) : ∀ i, g.credential = some i → i < creds.length := by
  unfold GatewayFrom at h
  split at h
  · cases h
  · obtain ⟨credential, hg, hnames⟩ := h
    cases hg
    exact hnames.lt

mutual

theorem entriesAt_paths (path : Option Text) (above : List Node) :
    ∀ (node : Node) (p : Text) (chain : List Node),
      (some p, chain) ∈ (entriesAt path above node).filterMap Entry.server? →
      path = some p ∨ ∃ chain', (p, chain') ∈ (entriesAt path above node).filterMap Entry.group?
  | .text _, _, _, h => absurd h List.not_mem_nil
  | .other, _, _, h => absurd h List.not_mem_nil
  | .element tag attributes children, p, chain, h => by
    unfold entriesAt at h ⊢
    simp only at h ⊢
    split at h
    · next hgroup =>
      rw [if_pos hgroup]
      rw [List.filterMap_cons_none rfl] at h
      rw [List.filterMap_cons_some (by rfl)]
      rcases entriesIn_paths _ _ children p chain h with hp | ⟨chain', hm⟩
      · cases hp
        exact .inr ⟨_, List.mem_cons_self⟩
      · exact .inr ⟨chain', List.mem_cons_of_mem _ hm⟩
    · split at h
      · rw [List.filterMap_cons_some (by rfl), List.filterMap_nil, List.mem_singleton] at h
        exact .inl (congrArg Prod.fst h).symm
      · cases h

theorem entriesIn_paths (path : Option Text) (above : List Node) :
    ∀ (nodes : List Node) (p : Text) (chain : List Node),
      (some p, chain) ∈ (entriesIn path above nodes).filterMap Entry.server? →
      path = some p ∨ ∃ chain', (p, chain') ∈ (entriesIn path above nodes).filterMap Entry.group?
  | [], _, _, h => absurd h List.not_mem_nil
  | node :: rest, p, chain, h => by
    unfold entriesIn at h ⊢
    rw [List.filterMap_append, List.mem_append] at h
    rw [List.filterMap_append]
    rcases h with h | h
    · rcases entriesAt_paths path above node p chain h with hp | ⟨chain', hm⟩
      · exact .inl hp
      · exact .inr ⟨chain', List.mem_append_left _ hm⟩
    · rcases entriesIn_paths path above rest p chain h with hp | ⟨chain', hm⟩
      · exact .inl hp
      · exact .inr ⟨chain', List.mem_append_right _ hm⟩

end

theorem exists_of_forall₂_right {α β : Type} {R : α → β → Prop} {l : List α} {l' : List β}
    (h : List.Forall₂ R l l') {b : β} (hb : b ∈ l') : ∃ a ∈ l, R a b := by
  induction h with
  | nil => cases hb
  | cons hab _ ih =>
    rcases List.mem_cons.mp hb with rfl | hb
    · exact ⟨_, List.mem_cons_self, hab⟩
    · obtain ⟨a, ha, hr⟩ := ih hb
      exact ⟨a, List.mem_cons_of_mem _ ha, hr⟩

theorem exists_of_forall₂_left {α β : Type} {R : α → β → Prop} {l : List α} {l' : List β}
    (h : List.Forall₂ R l l') {a : α} (ha : a ∈ l) : ∃ b ∈ l', R a b := by
  exact exists_of_forall₂_right h.flip ha

theorem walkFile_from (src : Source) (file : Node) : List.Forall₂
    (GroupFrom src (collectFileProfiles src file) (walkFile src file).bundle.credentials) (groups file)
    (walkFile src file).bundle.groups ∧ List.Forall₂
    (HostFrom src (collectFileProfiles src file) (walkFile src file).bundle.credentials) (servers file)
    (walkFile src file).bundle.hosts := by
  unfold walkFile
  have hroot : Names [] none (nearestCredential src (collectFileProfiles src file) []) := rfl
  obtain ⟨hadds, hnames⟩ := @resolveCreds_gives _ _ ⟨⟨[], [], []⟩, [], false⟩ file _ _ hroot
  have hsettings : EffNodes.at file .default = .nearest [file] := at_nearest file []
  rw [hsettings]
  have hgrown := walk_grown none [file] _ file.children _ hnames
  obtain ⟨gs, hgs, hgroups⟩ := hgrown.groups
  obtain ⟨hs, hhs, hhosts⟩ := hgrown.hosts
  rw [hadds.groups, List.nil_append] at hgs
  rw [hadds.hosts, List.nil_append] at hhs
  refine ⟨?_, ?_⟩
  · show List.Forall₂ _ _ (Ctx.bundle _).groups
    rw [hgs]
    exact hgroups
  · show List.Forall₂ _ _ (Ctx.bundle _).hosts
    rw [hhs]
    exact hhosts

theorem inRange_of_from {src : Source} {profiles : List FileProfile} {file : Node} {b : ImportBundle}
    (hg : List.Forall₂ (GroupFrom src profiles b.credentials) (groups file) b.groups)
    (hh : List.Forall₂ (HostFrom src profiles b.credentials) (servers file) b.hosts) : InRange b where
  groups g hm := by
    obtain ⟨place, -, hfrom⟩ := exists_of_forall₂_right hg hm
    exact hfrom.credential.lt
  hosts h hm := by
    obtain ⟨place, -, hfrom⟩ := exists_of_forall₂_right hh hm
    exact hfrom.credential.lt
  gateways h hm g hgw := by
    obtain ⟨place, -, hfrom⟩ := exists_of_forall₂_right hh hm
    have hgateway := hfrom.gateway
    rw [hgw] at hgateway
    exact hgateway.lt
  paths h hm path hp := by
    obtain ⟨⟨place, chain⟩, hplace, hfrom⟩ := exists_of_forall₂_right hh hm
    obtain rfl : place = some path := hfrom.groupPath.symm.trans hp
    rcases entriesIn_paths none [file] file.children path chain hplace with hnone | ⟨chain', hgroup⟩
    · cases hnone
    · obtain ⟨g, hgm, hgfrom⟩ := exists_of_forall₂_left hg hgroup
      exact ⟨g, hgm, hgfrom.path⟩

def leaf (tag t : String) : Node := .element tag.toList [] [.text t.toList]

/-- Credentials, with an `inherit` value. -/
def credentials (inherit : String) (children : List Node) : Node :=
  .element "logonCredentials".toList [("inherit".toList, inherit.toList)] children

def rackServer (inherit : String) : Node :=
  .element "server".toList [] [.element "properties".toList [] [leaf "name" "10.0.0.1"],
    credentials inherit []]

/-- A group that logs in as `admin`, with one server in it. -/
def rack (inherit : String) : Node :=
  .element "group".toList [] [.element "properties".toList [] [leaf "name" "Rack"],
    credentials "None" [leaf "userName" "admin"], rackServer inherit]

def rackFile (inherit : String) : Node := .element "file".toList [] [rack inherit]

def rackDoc (inherit : String) : Node := .element "RDCMan".toList [] [rackFile inherit]

def admin : ImportedCredential := ⟨none, some "admin".toList, none, none, .inFile⟩

/-- What comes out, whether the server inherits or not. -/
def rackBundle : ImportBundle where
  groups := [⟨"Rack".toList, some 0⟩]
  hosts := [{ name := "10.0.0.1".toList, address := "10.0.0.1".toList, port := 3389,
              groupPath := some "Rack".toList, credential := none }]
  credentials := [admin]

end UwuRdp.Rdg
