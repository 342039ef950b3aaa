import UwuRdp.Lib.Act
import UwuRdp.Proto.Text

/-!
# Installing the app

The setup unpacks the app next to where it goes, moves the old one aside and the new one in its place, makes the
menu entries and writes down what it installed where. Any of these operations may fail, the moving back too; a rename
that fails changes nothing. A later setup asks the record whether it would replace a newer app.
-/

namespace UwuRdp

open Lib

namespace Setup

inductive Os where
  | macos
  | linux
deriving DecidableEq

/-- `names::APP` -/
def appName : Os → Text
  | .macos => "UwURDP.app".toList
  | .linux => "UwURDP".toList

/-- `Path::join` -/
def joinPath (dir name : Text) : Text := if dir.getLast? = some '/' then dir ++ name else dir ++ '/' :: name

/-! ## The disk -/

/-- What a link leads to. -/
inductive Leads (α : Type) where
  | nowhere
  | other
  | app (a : α)
deriving DecidableEq

/-- What is at a place. -/
inductive Node (α : Type) where
  /-- A folder that holds a whole app. -/
  | app (a : α)
  | folder (empty : Bool)
  | file
  | link (leads : Leads α)
deriving DecidableEq

/-- `Metadata::is_dir`, of the place itself. -/
def Node.isDir {α : Type} : Node α → Bool
  | app _ | folder _ => true
  | file | link _ => false

/-- `Path::exists`, which follows a link. -/
def isThere {α : Type} : Option (Node α) → Bool
  | none | some (.link .nowhere) => false
  | some _ => true

def appAt {α : Type} : Option (Node α) → Option α
  | some (.app a) | some (.link (.app a)) => some a
  | _ => none

/-- What `install.json` holds. -/
structure Record where
  dir : Text
  version : Text
  desktopShortcut : Bool
deriving DecidableEq

inductive StateFile where
  | record (r : Record)
  | unreadable
deriving DecidableEq

/-- What an install touches: the app's place in the picked folder, where the old one is moved, where the new one is
unpacked, the entries with the app they start, and the setup's `install.json`. -/
structure Disk (α : Type) where
  target : Option (Node α)
  aside : Option (Node α)
  incoming : Option (Node α)
  menuEntry : Option Text
  desktopEntry : Option Text
  state : Option StateFile
deriving DecidableEq

/-- Where things go on this machine. -/
structure Layout where
  os : Os
  defaultDir : Text
  stateDir : Text
  state : Text
  applications : Text
  desktop : Text
  sandbox : Bool
deriving DecidableEq

structure Options where
  dir : Text
  desktopShortcut : Bool
deriving DecidableEq

/-- The folders of this machine, seen from the picked one: which paths lead to it, and which others have an app. -/
structure Folders where
  leadsHere : Text → Bool
  appElsewhere : Text → Bool

structure Installed where
  dir : Text
  version : Option Text
deriving DecidableEq

section Installed

variable {α : Type}

def Disk.record (disk : Disk α) : Option Record :=
  match disk.state with
  | some (.record r) => some r
  | some .unreadable | none => none

def Disk.hasApp (folders : Folders) (disk : Disk α) (dir : Text) : Bool :=
  if folders.leadsHere dir then isThere disk.target else folders.appElsewhere dir

/-- Put there by hand, it has no version that is known. -/
def Disk.byHand (layout : Layout) (folders : Folders) (disk : Disk α) : Option Installed :=
  if disk.hasApp folders layout.defaultDir then some ⟨layout.defaultDir, none⟩ else none

def installed (layout : Layout) (folders : Folders) (disk : Disk α) : Option Installed :=
  match disk.record with
  | some record =>
    if disk.hasApp folders record.dir then some ⟨record.dir, some record.version⟩ else disk.byHand layout folders
  | none => disk.byHand layout folders

end Installed

/-! ## Versions -/

/-- The version library. -/
class SemVer where
  Version : Type
  parse : Text → Option Version
  older : Version → Version → Bool
  display : Version → Text

/-- An update must never replace a newer app with an older setup; when it cannot tell, it does not install. -/
def checkNotOlder [SemVer] (installed : Option Text) (update : Text) : Except Text Unit :=
  match installed.bind fun version => SemVer.parse version.trim, SemVer.parse update.trim with
  | some installed, some update =>
    if SemVer.older update installed then
      .error ("UwURDP ".toList ++ SemVer.display installed ++
        " is already installed. This update is older (".toList ++ SemVer.display update ++
        "), so it was skipped.".toList)
    else .ok ()
  | _, _ =>
    .error ("It isn't clear which UwURDP version is installed, so the update was skipped. " ++
      "Run the setup by hand instead.").toList

/-! ## The operations -/

/-- The operations of an install, in their order. -/
inductive Op where
  | createDir
  | stopApp
  | clearStaging
  | createStaging
  | unpack
  | lookTarget
  | moveAside
  | moveIn
  | moveBack
  | lookAside
  | removeAside
  | removeStaging
  | lookApp
  | createMenu
  | writeMenu
  | createDesktop
  | writeDesktop
  | removeMenu
  | removeDesktop
  | createState
  | writeState
deriving DecidableEq

/-- How the operations go. -/
structure Faults (α : Type) where
  fails : Op → Bool
  /-- What the operating system says to it. -/
  text : Op → Text
  /-- What is left of a folder that could not be removed or written whole. -/
  left : Op → Option (Node α)
  /-- A file that could not be written was cut before. -/
  cut : Op → Bool

section Install

variable {α : Type} (faults : Faults α)

abbrev Call (α β : Type) := Act (Disk α) Text β

/-- An operation that ends the install where it fails. -/
def must (op : Op) (message : Text → Text) (f : Disk α → Disk α) : Call α Unit :=
  if faults.fails op then Act.fail (message (faults.text op)) else Act.modify f

def attempt (op : Op) (f : Disk α → Disk α) : Call α Unit := if faults.fails op then pure () else Act.modify f

/-- A rename goes through onto nothing, with a folder onto an empty folder, and with another thing onto another. -/
def renames : Option (Node α) → Option (Node α) → Bool
  | none, _ => false
  | some _, none => true
  | some node, some old =>
    if node.isDir then
      match old with
      | .folder empty => empty
      | _ => false
    else !old.isDir

/-- `remove_tree`: a link in the place is only unlinked, never followed. -/
def removeTree (look remove : Op) : Option (Node α) → Option (Node α)
  | none => none
  | some node =>
    if faults.fails look then some node
    else if faults.fails remove then if node.isDir then faults.left remove else some node
    else none

def couldNot (what place : Text) (e : Text) : Text :=
  "Couldn't ".toList ++ what ++ ' ' :: place ++ ": ".toList ++ e

def unpack (payload : Option α) : Call α Unit :=
  match payload with
  | none => Act.fail "This setup was built without UwURDP inside (a development build).".toList
  | some a =>
    if faults.fails .unpack then do
      Act.modify fun disk => { disk with incoming := faults.left .unpack }
      Act.fail (faults.text .unpack)
    else Act.modify fun disk => { disk with incoming := some (.app a) }

def moveAside (target : Text) : Call α Unit := do
  let disk ← Act.get
  if faults.fails .moveAside || !renames disk.target disk.aside then
    Act.fail ("Couldn't move the old ".toList ++ target ++ " aside: ".toList ++ faults.text .moveAside)
  else Act.modify fun disk => { disk with target := none, aside := disk.target }

/-- The new app is moved in; where that fails, an old one that was moved aside is moved back, as far as that goes. -/
def moveIn (target : Text) (hadOld : Bool) : Call α Unit := do
  let disk ← Act.get
  if faults.fails .moveIn || !renames disk.incoming disk.target then do
    (if hadOld then attempt faults .moveBack fun disk => { disk with target := disk.aside, aside := none }
    else pure ())
    Act.fail ("Couldn't put ".toList ++ target ++ " in place: ".toList ++ faults.text .moveIn)
  else do
    Act.modify fun disk => { disk with target := disk.incoming, incoming := none }
    if hadOld then Act.modify fun disk => { disk with aside := removeTree faults .lookAside .removeAside disk.aside }
    else pure ()

/-- Puts what was unpacked in the app's place. The old version is moved aside first, so a failure leaves one of the
two in place. -/
def swapIn (target : Text) : Call α Unit := do
  let disk ← Act.get
  let hadOld := disk.target.isSome && !faults.fails .lookTarget
  (if hadOld then moveAside faults target else pure ())
  moveIn faults target hadOld

/-- What an action came to, and then what is done either way. -/
def andThen (m : Call α Unit) (f : Disk α → Disk α) : Call α Unit := fun disk =>
  ((m disk).1, f (m disk).2)

def writeEntry (create write : Op) (dir path app : Text) (set : Option Text → Disk α → Disk α) : Call α Unit := do
  must faults create (couldNot "create".toList dir) id
  if faults.fails write then do
    (if faults.cut write then Act.modify (set (some [])) else pure ())
    Act.fail (couldNot "write".toList path (faults.text write))
  else Act.modify (set (some app))

def setMenu (entry : Option Text) (disk : Disk α) : Disk α := { disk with menuEntry := entry }

def setDesktop (entry : Option Text) (disk : Disk α) : Disk α := { disk with desktopEntry := entry }

def optional (m : Call α Unit) : Call α Unit := fun disk => (.ok (), (m disk).2)

def entryName : Text := "app.uwurdp.desktop.desktop".toList

/-- Linux: menu entries, and a desktop icon if wanted. macOS has none. -/
def shortcuts (layout : Layout) (options : Options) (app : Text) : Call α Unit :=
  match layout.os with
  | .macos => pure ()
  | .linux => do
    let disk ← Act.get
    if faults.fails .lookApp || !isThere disk.target then do
      attempt faults .removeMenu (setMenu none)
      attempt faults .removeDesktop (setDesktop none)
    else do
      writeEntry faults .createMenu .writeMenu layout.applications (joinPath layout.applications entryName) app setMenu
      if options.desktopShortcut then
        optional (writeEntry faults .createDesktop .writeDesktop layout.desktop (joinPath layout.desktop entryName) app
          setDesktop)
      else attempt faults .removeDesktop (setDesktop none)

def register (layout : Layout) (record : Record) : Call α Unit := do
  must faults .createState (couldNot "create".toList layout.stateDir) id
  if faults.fails .writeState then do
    (if faults.cut .writeState then Act.modify fun disk => { disk with state := some .unreadable } else pure ())
    Act.fail (couldNot "write".toList layout.state (faults.text .writeState))
  else Act.modify fun disk => { disk with state := some (.record record) }

def Options.folder (options : Options) : Text := options.dir.trim

def stagingPath (pid : Text) (options : Options) : Text :=
  joinPath options.folder (".uwurdp-setup-".toList ++ pid)

def appPath (layout : Layout) (options : Options) : Text := joinPath options.folder (appName layout.os)

/-- The folders are made and an app that runs is stopped. -/
def prepare (layout : Layout) (pid : Text) (options : Options) : Call α Unit :=
  if options.folder.head? ≠ some '/' then Act.fail "Please pick a full folder path.".toList
  else do
    must faults .createDir (couldNot "create".toList options.folder) id
    (if layout.sandbox then pure () else must faults .stopApp id id)
    attempt faults .clearStaging fun disk => { disk with incoming := none }
    must faults .createStaging (couldNot "create".toList (stagingPath pid options)) id

/-- Unpacked next to where it goes, so the final move is a rename; what is left of it there goes either way. -/
def place (layout : Layout) (payload : Option α) (options : Options) : Call α Unit :=
  andThen (do
      unpack faults payload
      swapIn faults (appPath layout options))
    fun disk => { disk with incoming := if faults.fails .removeStaging then disk.incoming else none }

def install (layout : Layout) (pid : Text) (payload : Option α) (options : Options) (version : Text) :
    Call α Unit := do
  prepare faults layout pid options
  place faults layout payload options
  shortcuts faults layout options (appPath layout options)
  register faults layout ⟨options.folder, version, options.desktopShortcut⟩

/-- The setup's command; an update asks first whether it would go back. -/
def command [SemVer] (layout : Layout) (folders : Folders) (pid : Text) (payload : Option α) (options : Options)
    (version : Text) (update : Bool) : Call α Unit := do
  let disk ← Act.get
  (if update then
    Act.ofExcept (checkNotOlder ((installed layout folders disk).bind Installed.version) version)
  else pure ())
  install faults layout pid payload options version

end Install

end Setup

end UwuRdp
