import UwuRdp.Store.Db

/-!
# Settings of a host, brought into range

`normalizeRdp` and `normalizeDrives`, which every way a host's settings come in goes through: a
form, a file, or a record of another device.
-/

namespace UwuRdp

variable [Platform]

/-- At most this many shared folders per host or group. -/
def maxSharedDrives : ℕ := 32

def maxShareName : ℕ := 32

/-- A share name with what Windows refuses in one taken out. -/
def shareName (name : Text) : Text :=
  let refused : Text := ['\\', '/', ':', '*', '?', '"', '<', '>', '|']
  let clean := name.filter fun c => !Text.isControl c && !refused.contains c
  Text.trim ((Text.trim clean).take maxShareName)

def isSeparator (c : Char) : Bool := c == '/' || c == '\\'

def isAsciiAlphabetic (c : Char) : Bool :=
  (65 ≤ c.toNat && c.toNat ≤ 90) || (97 ≤ c.toNat && c.toNat ≤ 122)

/-- What a folder is called on the server unless the user says otherwise: its own name, or the
letter for a drive. -/
def defaultShareName (path : Text) : Text :=
  let trimmed := Text.trimEndMatches isSeparator path
  let last := (trimmed.reverse.takeWhile fun c => !isSeparator c).reverse
  match trimmed with
  | [c, ':'] => if isAsciiAlphabetic c then [Text.asciiUppercase c] else rootOr (shareName last)
  | _ => rootOr (shareName last)
where
  rootOr (name : Text) : Text := if name.isEmpty then "Root".toList else name

/-- The first of `name`, `base 2`, `base 3`, … that is not taken. There is one among as many
candidates as there are taken names, and one more. -/
def freeName (names : List Text) (base : Text) : ℕ → ℕ → Text → Text
  | 0, _, name => name
  | fuel + 1, n, name =>
    if names.contains (Platform.toLowercase name) then
      freeName names base fuel (n + 1) (base ++ [' '] ++ Text.ofNat n)
    else name

/-- One entry after the other: the paths and the names seen so far, and what is kept. -/
def normalizeDrivesFrom (seenPaths names : List Text) (kept : List SharedDrive) :
    List SharedDrive → List SharedDrive
  | [] => kept
  | drive :: rest =>
    let path := Text.trim drive.path
    if path.isEmpty || path.any Text.isControl || decide (4096 < path.utf8Len) ||
        seenPaths.contains path then normalizeDrivesFrom seenPaths names kept rest
    else
      let wanted := shareName drive.name
      let base := if wanted.isEmpty then defaultShareName path else wanted
      let name :=
        if path = allDrives then allDrives else freeName names base (names.length + 1) 2 base
      let names' := if path = allDrives then names else Platform.toLowercase name :: names
      let kept' := kept ++ [{ name, path, extra := drive.extra }]
      if kept'.length = maxSharedDrives then kept'
      else normalizeDrivesFrom (path :: seenPaths) names' kept' rest

def normalizeDrives (drives : DriveRedirection) : DriveRedirection :=
  { drives with drives := normalizeDrivesFrom [] [] [] drives.drives }

def clamp (n lo hi : UInt16) : UInt16 := if n < lo then lo else if hi < n then hi else n

/-- A gateway's address trimmed and its port filled in; without an address it is none. -/
def normalizeGateway (gateway : GatewaySettings) : Option GatewaySettings :=
  let gateway := { gateway with
    address := Text.trim gateway.address
    port := if gateway.port = 0 then 443 else gateway.port }
  if gateway.address.isEmpty then none else some gateway

/-- Settings as a form or a file had them, brought into range. -/
def normalizeRdp (rdp : RdpSettings) : RdpSettings :=
  { rdp with
    display := if ["fit".toList, "fixed".toList, "fullscreen".toList].contains rdp.display
      then rdp.display else "fit".toList
    width := clamp rdp.width 200 8192
    height := clamp rdp.height 200 8192
    colorDepth := if [15, 16, 24, 32].contains rdp.colorDepth then rdp.colorDepth else 32
    audio := if ["local".toList, "remote".toList, "off".toList].contains rdp.audio
      then rdp.audio else "local".toList
    gateway := rdp.gateway.bind normalizeGateway
    drives := rdp.drives.map normalizeDrives }

end UwuRdp
