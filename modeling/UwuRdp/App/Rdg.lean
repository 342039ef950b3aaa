import UwuRdp.App.Import
import UwuRdp.Core.Formats

/-!
# Remote Desktop Connection Manager files

A `.rdg` is a tree of groups and servers. Credentials and six kinds of settings hang off the file,
every group and every server, each with an `inherit` attribute that says whether the node overrides
its parent or takes the parent's value. One walk resolves the inheritance: each host comes out with
its settings, each group with the credentials it would use. The document is taken as parsed; decoding
a sealed password (base64, then what the system makes of the blob) is a parameter.
-/

namespace UwuRdp

/-! ## Credentials of a bundle -/

/-- Nothing worth keeping: no user, no domain, no password. -/
def ImportedCredential.isEmpty (c : ImportedCredential) : Bool :=
  c.username.isNone && c.domain.isNone && c.password.isNone

/-- Identity for deduplication. The origin counts: a clear-text copy must not stand in for a sealed
one. -/
def ImportedCredential.dedupeKey (c : ImportedCredential) :
    Option Text × Option Text × Option Text × Option (List UInt8) × PasswordOrigin :=
  (c.label, c.username, c.domain, c.password, c.origin)

/-- Store a credential once, returning its index. Empty credentials are not stored. -/
def ImportBundle.internCredential (b : ImportBundle) (cred : ImportedCredential) :
    ImportBundle × Option ℕ :=
  if cred.isEmpty then (b, none)
  else
    match b.credentials.findIdx? fun c => c.dedupeKey = cred.dedupeKey with
    | some i => (b, some i)
    | none => ({ b with credentials := b.credentials ++ [cred] }, some b.credentials.length)

/-- A named credential the app already has. -/
structure NamedCredential where
  name : Text
  credential : ImportedCredential
deriving DecidableEq

namespace Rdg

/-! ## The document -/

/-- A node of the parsed document. -/
inductive Node where
  | element (tag : Text) (attributes : List (Text × Text)) (children : List Node)
  | text (t : Text)
  /-- A comment or an instruction. -/
  | other

namespace Node

def children : Node → List Node
  | element _ _ children => children
  | _ => []

def hasTagName (tag : Text) : Node → Bool
  | element name _ _ => name = tag
  | _ => false

def attr (name : Text) : Node → Option Text
  | element _ attributes _ => (attributes.find? fun a => a.1 = name).map Prod.snd
  | _ => none

def content : Node → Option Text
  | element _ _ (text t :: _) => some t
  | _ => none

mutual

/-- A node and everything below it, in document order. -/
def descendants : Node → List Node
  | element tag attributes children =>
    element tag attributes children :: descendantsAll children
  | n => [n]

def descendantsAll : List Node → List Node
  | [] => []
  | n :: rest => descendants n ++ descendantsAll rest

end

end Node

/-- Find a child element by tag, directly under the node first and then inside a `properties` child:
RDCMan 2.2 and 2.7 disagree on which. -/
def findChild (node : Node) (tag : Text) : Option Node :=
  (node.children.find? (Node.hasTagName tag)).or <|
    (node.children.find? (Node.hasTagName "properties".toList)).bind fun p =>
      p.children.find? (Node.hasTagName tag)

def trimmed (t : Option Text) : Option Text := (t.map Text.trim).filter fun t => !t.isEmpty

def findText (node : Node) (tag : Text) : Option Text := trimmed ((findChild node tag).bind Node.content)

/-- A child that says `True` or `False`. -/
def findBool (node : Node) (tag : Text) : Option Bool :=
  (findText node tag).bind fun t =>
    if t = "True".toList ∨ t = "true".toList ∨ t = "1".toList then some true
    else if t = "False".toList ∨ t = "false".toList ∨ t = "0".toList then some false
    else none

/-- Whether a settings or credentials element defers to its parent. -/
def inheritsFromParent (node : Node) : Bool :=
  node.attr "inherit".toList = some "FromParent".toList

/-- A reference that points at the app's own profiles. -/
def profileIsLocal (node : Node) : Bool :=
  ((findChild node "profileName".toList).bind fun p => p.attr "scope".toList) =
    some "Local".toList

/-- Every child element that is not mapped, so that a recognised but unmapped setting stays
visible. -/
def dumpExtras (node : Node) (mapped : List Text) : List (Text × Text) :=
  node.children.filterMap fun child =>
    match child with
    | .element tag _ _ =>
      if mapped.contains tag then none else (trimmed child.content).map fun t => (tag, t)
    | _ => none

/-- `str::parse` of an unsigned number. -/
def parseUnsigned (t : Text) : Option ℕ :=
  Formats.parseDigits <|
    match t with
    | '+' :: digits => digits
    | digits => digits

def parseU16 (t : Text) : Option UInt16 :=
  (parseUnsigned t).bind fun n => if n < 2 ^ 16 then some (UInt16.ofNat n) else none

def parseU32 (t : Text) : Option UInt32 :=
  (parseUnsigned t).bind fun n => if n < 2 ^ 32 then some (UInt32.ofNat n) else none

/-- `str::rsplit_once` -/
def rsplitOnce (c : Char) (t : Text) : Option (Text × Text) :=
  (Formats.splitOnce c t.reverse).map fun p => (p.2.reverse, p.1.reverse)

/-- Split `host:3389`, leaving other text as an address with no port. -/
def splitHostPort (raw : Text) : Text × Option UInt16 :=
  let whole := (Text.trim raw, none)
  match rsplitOnce ':' raw with
  | none => whole
  | some (host, port) =>
    match parseU16 (Text.trim port) with
    | none => whole
    | some p => if !host.isEmpty && !host.contains ':' then (Text.trim host, some p) else whole

/-! ## Credentials -/

/-- What a parse is given: the user's own profiles, what a sealed password decodes to, and whether the
file seals its passwords to a certificate. -/
structure Source where
  localProfiles : List NamedCredential
  decrypt : Text → Option (List UInt8)
  certEncrypted : Bool

/-- A profile of the file, by name, and whether its password could not be read. -/
structure FileProfile where
  name : Text
  credential : ImportedCredential
  failed : Bool

/-- State threaded through the walk. -/
structure Ctx where
  bundle : ImportBundle
  /-- What was found and left out, with the reason. -/
  skipped : List (Text × Text)
  pwFailed : Bool

/-- What a `logonCredentials` element says. -/
inductive CredSpec where
  /-- The element is missing or says so: take the parent's. -/
  | inherit
  /-- Explicitly no credentials. -/
  | empty
  /-- User, domain and password. -/
  | inline (cred : ImportedCredential) (failed : Bool)
  /-- A reference to a named profile. -/
  | profile (name : Text) (isLocal : Bool)

/-- A clear-text password comes through as it is, a sealed one goes through `decrypt`. Says where it
came from, and whether one was there but could not be recovered. -/
def readPassword (src : Source) (node : Node) : Option (List UInt8) × PasswordOrigin × Bool :=
  match findChild node "password".toList with
  | none => (none, .inFile, false)
  | some pw =>
    match trimmed pw.content with
    | none => (none, .inFile, false)
    | some text =>
      if pw.attr "storeAsClearText".toList = some "True".toList then
        (some text.utf8, .inFile, false)
      else if src.certEncrypted then (none, .inFile, true)
      else
        match src.decrypt text with
        | some secret => (some secret, .unsealed, false)
        | none => (none, .inFile, true)

/-- Read user, domain and password off a credentials element. -/
def parseInline (src : Source) (node : Node) (label : Option Text) : ImportedCredential × Bool :=
  let (password, origin, failed) := readPassword src node
  ({ label, username := findText node "userName".toList, domain := findText node "domain".toList
     password, origin }, failed)

/-- Classify a `logonCredentials` element. -/
def logonSpec (src : Source) : Option Node → CredSpec
  | none => .inherit
  | some node =>
    if inheritsFromParent node then .inherit
    else
      let profile := (findText node "profileName".toList).filter fun n => n ≠ "Custom".toList
      match profile with
      -- "Custom" or an absent name: the values are inline.
      | none =>
        let (cred, failed) := parseInline src node none
        if cred.isEmpty then .empty else .inline cred failed
      | some name =>
        if (findChild node "userName".toList).isSome then
          let (cred, failed) := parseInline src node (some name)
          .inline cred failed
        else .profile name (profileIsLocal node)

/-- `ImportBundle::intern_credential` -/
def Ctx.intern (ctx : Ctx) (cred : ImportedCredential) : Ctx × Option ℕ :=
  let (bundle, index) := ctx.bundle.internCredential cred
  ({ ctx with bundle }, index)

/-- The user's own profile, which the file only names: its password is the user's, not the file's. -/
def Source.localProfile (src : Source) (name : Text) : Option ImportedCredential :=
  (src.localProfiles.find? fun p => p.name = name).map fun p =>
    { p.credential with origin := .localProfile }

def profileMissing (name : Text) : Text × Text :=
  ("credential profile '".toList ++ name ++ "'".toList,
    "referenced but not found; the host will ask at connect time".toList)

def Ctx.resolveProfile (src : Source) (profiles : List FileProfile) (name : Text) (isLocal : Bool)
    (ctx : Ctx) : Ctx × Option ℕ :=
  let missing := ({ ctx with skipped := ctx.skipped ++ [profileMissing name] }, none)
  if isLocal then
    match src.localProfile name with
    | some cred => ctx.intern cred
    | none => missing
  else
    match profiles.find? fun p => p.name = name with
    | some p => ({ ctx with pwFailed := ctx.pwFailed || p.failed } : Ctx).intern p.credential
    | none => missing

/-- The effective credential index for a node: its own when it overrides, else the parent's. -/
def Ctx.resolveCreds (src : Source) (profiles : List FileProfile) (node : Node) (parent : Option ℕ)
    (ctx : Ctx) : Ctx × Option ℕ :=
  match logonSpec src (findChild node "logonCredentials".toList) with
  | .inherit => (ctx, parent)
  | .empty => (ctx, none)
  | .inline cred failed => ({ ctx with pwFailed := ctx.pwFailed || failed } : Ctx).intern cred
  | .profile name isLocal => ctx.resolveProfile src profiles name isLocal

/-- The credential a server records for itself, ignoring inheritance. -/
def Ctx.ownCreds (src : Source) (profiles : List FileProfile) (node : Node) (ctx : Ctx) :
    Ctx × Option ℕ :=
  match logonSpec src (findChild node "logonCredentials".toList) with
  | .inherit | .empty => (ctx, none)
  | .inline cred failed => ({ ctx with pwFailed := ctx.pwFailed || failed } : Ctx).intern cred
  | .profile name isLocal => ctx.resolveProfile src profiles name isLocal

def collectFileProfiles (src : Source) (file : Node) : List FileProfile :=
  ((findChild file "credentialsProfiles".toList).toList.flatMap fun profiles =>
    profiles.children.filter (Node.hasTagName "credentialsProfile".toList)).filterMap fun node =>
      let label := (findText node "profileName".toList).filter fun n => n ≠ "Custom".toList
      let (cred, failed) := parseInline src node label
      label.map fun name => ⟨name, cred, failed⟩

/-! ## Settings -/

/-- The nearest node that defines each settings category. -/
structure EffNodes where
  remoteDesktop : Option Node
  connection : Option Node
  localResources : Option Node
  gateway : Option Node
  security : Option Node
  displaySettings : Option Node

def EffNodes.default : EffNodes := ⟨none, none, none, none, none, none⟩

/-- Whether a node's child is effective here or inherited from the parent. -/
def effective (node : Node) (tag : Text) (parent : Option Node) : Option Node :=
  match findChild node tag with
  | none => parent
  | some e => if inheritsFromParent e then parent else some e

/-- Fold one node's settings over the inherited ones. -/
def EffNodes.at (node : Node) (parent : EffNodes) : EffNodes where
  remoteDesktop := effective node "remoteDesktop".toList parent.remoteDesktop
  connection := effective node "connectionSettings".toList parent.connection
  localResources := effective node "localResources".toList parent.localResources
  gateway := effective node "gatewaySettings".toList parent.gateway
  security := effective node "securitySettings".toList parent.security
  displaySettings := effective node "displaySettings".toList parent.displaySettings

def parseDisplay (rd : Node) : Option ImportedDisplay :=
  if findBool rd "fullScreen".toList = some true then some .fullScreen
  else if findBool rd "sameSizeAsClientArea".toList = some true then some .fitWindow
  else do
    let size ← findText rd "size".toList
    let (w, h) ← (Formats.splitOnce 'x' size).or (Formats.splitOnce 'X' size)
    let width ← parseU16 (Text.trim w)
    let height ← parseU16 (Text.trim h)
    pure (.fixed width height)

def parseAudio (lr : Node) : Option ImportedAudio :=
  (findText lr "audioRedirection".toList).bind fun t =>
    if t = "0".toList ∨ t = "Client".toList then some .local
    else if t = "1".toList ∨ t = "Remote".toList then some .remote
    else if t = "2".toList ∨ t = "NoSound".toList ∨ t = "None".toList then some .off
    else none

def parseDrives (lr : Node) : Option ImportedDrives :=
  (findBool lr "redirectDrives".toList).map fun all =>
    { enabled := all, paths := if all then ["*".toList] else [] }

def gatewayOf (gw : Node) : Option ImportedGateway :=
  if findBool gw "enabled".toList ≠ some true then none
  else (findText gw "hostName".toList).map fun address =>
    { address, port := (findText gw "port".toList).bind parseU16, credential := none
      useHostCredentials := (findBool gw "credSharing".toList).getD false
      bypassLocal := (findBool gw "localBypass".toList).getD false }

def Ctx.parseGateway (src : Source) (gw : Node) (ctx : Ctx) : Ctx × Option ImportedGateway :=
  match gatewayOf gw with
  | none => (ctx, none)
  | some gateway =>
    let (cred, failed) := parseInline src gw none
    let (ctx, credential) := ({ ctx with pwFailed := ctx.pwFailed || failed } : Ctx).intern cred
    (ctx, some { gateway with credential })

def EffNodes.settings (n : EffNodes) (gateway : Option ImportedGateway) : ImportedSettings where
  display := n.remoteDesktop.bind parseDisplay
  colorDepth := n.remoteDesktop.bind fun rd => (findText rd "colorDepth".toList).bind parseU32
  admin := n.connection.bind fun cs => findBool cs "connectToConsole".toList
  audio := n.localResources.bind parseAudio
  clipboard := n.localResources.bind fun lr => findBool lr "redirectClipboard".toList
  gateway := gateway
  drives := n.localResources.bind parseDrives

/-- The settings that are left over, category by category. -/
def EffNodes.extras (n : EffNodes) : List (Text × Text) :=
  n.remoteDesktop.toList.flatMap (dumpExtras · ["colorDepth".toList, "size".toList,
    "fullScreen".toList, "sameSizeAsClientArea".toList]) ++
  n.connection.toList.flatMap (dumpExtras · ["connectToConsole".toList, "port".toList]) ++
  n.localResources.toList.flatMap (dumpExtras · ["audioRedirection".toList,
    "redirectClipboard".toList, "redirectDrives".toList]) ++
  n.security.toList.flatMap (dumpExtras · []) ++
  n.displaySettings.toList.flatMap (dumpExtras · [])

def EffNodes.build (src : Source) (n : EffNodes) (ctx : Ctx) :
    Ctx × ImportedSettings × List (Text × Text) :=
  let (ctx, gateway) :=
    match n.gateway with
    | none => (ctx, none)
    | some gw => ctx.parseGateway src gw
  (ctx, n.settings gateway, n.extras)

/-! ## The walk -/

def defaultPort : UInt16 := 3389

/-- The port: the connection settings win over one in the address. -/
def portOf (connection : Option Node) (inAddress : Option UInt16) : UInt16 :=
  ((connection.bind fun cs => findText cs "port".toList).bind parseU16).getD
    (inAddress.getD defaultPort)

/-- A host's credential: its own when it overrides; when it inherits, none inside a group, whose login
it takes at connect time, and the file's outside. -/
def Ctx.hostCreds (src : Source) (profiles : List FileProfile) (node : Node)
    (groupPath : Option Text) (parentCreds : Option ℕ) (ctx : Ctx) : Ctx × Option ℕ :=
  match logonSpec src (findChild node "logonCredentials".toList) with
  | .inherit => (ctx, if groupPath.isSome then none else parentCreds)
  | _ => ctx.ownCreds src profiles node

def buildHost (src : Source) (profiles : List FileProfile) (node : Node) (groupPath : Option Text)
    (parentCreds : Option ℕ) (parentSettings : EffNodes) (ctx : Ctx) : Ctx × ImportedHost :=
  let rawName := (findText node "name".toList).getD []
  let (address, addrPort) := splitHostPort rawName
  let nodes := EffNodes.at node parentSettings
  let (ctx, credential) := ctx.hostCreds src profiles node groupPath parentCreds
  let (ctx, settings, extras) := nodes.build src ctx
  (ctx,
    { name := (findText node "displayName".toList).getD rawName
      address, port := portOf nodes.connection addrPort, groupPath, credential
      comment := findText node "comment".toList, settings, extras })

/-- The path of a group: its name after that of the group it is in. -/
def groupPathOf (groupPath : Option Text) (node : Node) : Text :=
  let name := (findText node "name".toList).getD "(unnamed group)".toList
  match groupPath with
  | some parent => parent ++ " / ".toList ++ name
  | none => name

def smartGroupSkipped (node : Node) : Text × Text :=
  ("smart group '".toList ++ (findText node "name".toList).getD "(unnamed)".toList ++ "'".toList,
    "dynamic groups are rule-based and are not imported".toList)

mutual

def walkNode (src : Source) (profiles : List FileProfile) (groupPath : Option Text)
    (creds : Option ℕ) (settings : EffNodes) : Node → Ctx → Ctx
  | .element tag attributes children, ctx =>
    let child := Node.element tag attributes children
    if tag = "group".toList then
      let path := groupPathOf groupPath child
      let (ctx, childCreds) := ctx.resolveCreds src profiles child creds
      let group : ImportedGroup := ⟨path, childCreds⟩
      walk src profiles (some path) childCreds (EffNodes.at child settings) children
        { ctx with bundle := { ctx.bundle with groups := ctx.bundle.groups ++ [group] } }
    else if tag = "server".toList then
      let (ctx, host) := buildHost src profiles child groupPath creds settings ctx
      { ctx with bundle := { ctx.bundle with hosts := ctx.bundle.hosts ++ [host] } }
    else if tag = "smartGroup".toList then
      { ctx with skipped := ctx.skipped ++ [smartGroupSkipped child] }
    else ctx
  | _, ctx => ctx

def walk (src : Source) (profiles : List FileProfile) (groupPath : Option Text)
    (creds : Option ℕ) (settings : EffNodes) : List Node → Ctx → Ctx
  | [], ctx => ctx
  | child :: rest, ctx =>
    walk src profiles groupPath creds settings rest
      (walkNode src profiles groupPath creds settings child ctx)

end

/-! ## The whole file -/

def certEncrypted (doc : Node) : Bool :=
  doc.descendants.any fun n => n.hasTagName "encryptionSettings".toList &&
    n.descendants.any fun c =>
      match c with
      | .element tag _ _ => (Text.toAsciiLowercase tag).tails.any fun t => "cert".toList.isPrefixOf t
      | _ => false

def fileOf (doc : Node) : Option Node := doc.descendants.find? (Node.hasTagName "file".toList)

def sourceOf (localProfiles : List NamedCredential) (decrypt : Text → Option (List UInt8))
    (doc : Node) : Source := ⟨localProfiles, decrypt, certEncrypted doc⟩

inductive ImportError where
  | read (message : Text)
  | empty
deriving DecidableEq

def passwordsSkipped (certEncrypted : Bool) : Text × Text :=
  ("passwords could not be decrypted".toList,
    if certEncrypted then "the file is certificate-encrypted; usernames were kept".toList
    else "DPAPI could not read them for this user; usernames were kept".toList)

/-- The walk over a file: its own credentials and settings are what unqualified children fall back
to. -/
def walkFile (src : Source) (file : Node) : Ctx :=
  let profiles := collectFileProfiles src file
  let (ctx, fileCreds) := (⟨⟨[], [], []⟩, [], false⟩ : Ctx).resolveCreds src profiles file none
  walk src profiles none fileCreds (EffNodes.at file .default) file.children ctx

def parseRdg (localProfiles : List NamedCredential) (decrypt : Text → Option (List UInt8))
    (doc : Node) : Except ImportError (ImportBundle × List (Text × Text)) :=
  match fileOf doc with
  | none => .error .empty
  | some file =>
    let src := sourceOf localProfiles decrypt doc
    let ctx := walkFile src file
    let skipped := ctx.skipped ++ if ctx.pwFailed then [passwordsSkipped src.certEncrypted] else []
    if ctx.bundle.hosts.isEmpty && ctx.bundle.groups.isEmpty then .error .empty
    else .ok (ctx.bundle, skipped)

end Rdg

end UwuRdp
