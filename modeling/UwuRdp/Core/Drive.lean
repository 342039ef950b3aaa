import UwuRdp.Lib.Act
import UwuRdp.Lib.FileTree
import UwuRdp.Store.Db

/-!
# Shared folders

Local folders a remote desktop reaches as drives. A server path is split into plain names below the
shared folder and held against the links on disk once, when it is resolved; what is opened keeps the
path, and later requests go by it again. Every request notes the places whose content or data it
reads or changes; finding out where a path leads is not among them.
-/

namespace UwuRdp

open Lib

namespace Drive

abbrev PathBuf := List Text

/-- What is known of a file or folder besides its kind; times as Windows counts them. -/
structure FileData where
  bytes : List UInt8
  readOnly : Bool
  created : ℕ
  accessed : ℕ
  modified : ℕ
deriving DecidableEq

abbrev Disk := FileTree Text FileData

def onData (t : Disk) (id : ℕ) (f : FileData → FileData) : Disk :=
  { t with data := Function.update t.data id (f (t.data id)) }

/-- A shared folder. -/
structure Share where
  name : Text
  /-- Canonical, so that every path under it can be checked by what it begins with. -/
  root : PathBuf
deriving DecidableEq

/-- `std::fs::File`: by the number of what is open. -/
structure File where
  id : ℕ
  isDir : Bool
deriving DecidableEq

/-- One open file or folder. -/
structure Open where
  deviceId : UInt32
  path : PathBuf
  /-- `none` for a folder. -/
  file : Option File
  writable : Bool
  deleteOnClose : Bool
  /-- What is left of a directory listing. -/
  listing : Option (List Text)
deriving DecidableEq

/-- `FsBackend`, on its disk. -/
structure FsBackend where
  disk : Disk
  shares : Table UInt32 Share
  opened : Table UInt32 Open
  nextId : UInt32
  maxOpen : ℕ
  /-- The places the request at hand has reached. -/
  touched : List PathBuf

def maxRead : ℕ := 1024 * 1024

def maxOpenFiles : ℕ := 256

def maxListing : ℕ := 100000

def FsBackend.new (disk : Disk) (shares : Table UInt32 Share) : FsBackend where
  disk := disk
  shares := shares
  opened := .empty
  nextId := 1
  maxOpen := maxOpenFiles
  touched := []

inductive NtStatus where
  | unsuccessful
  | notSupported
  | accessDenied
  | objectNameCollision
  | objectNameInvalid
  | objectNameNotFound
  | objectPathNotFound
  | notADirectory
  | fileIsADirectory
  | directoryNotEmpty
  | noSuchFile
  | noMoreFiles
  | invalidParameter
  | invalidDeviceRequest
  | insufficientResources
deriving DecidableEq

/-- `io_status` -/
def ioStatus : FileError → NtStatus
  | .notFound => .objectNameNotFound
  | .permissionDenied => .accessDenied
  | .alreadyExists => .objectNameCollision
  | .directoryNotEmpty => .directoryNotEmpty
  | .notADirectory => .notADirectory
  | .isADirectory => .fileIsADirectory
  | .invalidInput => .objectNameInvalid
  | .tooManyLinks | .busy => .unsuccessful

/-! ## Paths -/

/-- One name, nothing more: no separator of this system, no drive or stream, no control character,
no wildcard, not too long. -/
def plainComponent (part : Text) : Bool :=
  part.utf8Len ≤ 255 &&
    !(part.any fun c => Text.isControl c || ['/', '\\', ':', '*', '?', '"', '<', '>', '|'].contains c) &&
    part ≠ [] && part ≠ ['.'] && part ≠ ['.', '.']

/-- Checks that a path, or the nearest folder above it that exists, is under `root` once links are
followed; `fuel` counts the names of the path. -/
def insideWith (t : Disk) (root : PathBuf) : ℕ → PathBuf → Except NtStatus Unit
  | fuel, probe =>
    match t.canonicalize probe with
    | .ok real => if Under root real then .ok () else .error .accessDenied
    | .error _ =>
      -- A link whose target is missing is not followed into nowhere.
      match t.symlinkMetadata probe with
      | .ok _ => .error .accessDenied
      | .error _ =>
        match fuel with
        | 0 => .error .accessDenied
        | fuel + 1 =>
          if Under root probe.dropLast then insideWith t root fuel probe.dropLast
          else .error .accessDenied

def inside (t : Disk) (root path : PathBuf) : Except NtStatus Unit :=
  insideWith t root path.length path

/-- The names of a server path, without empty ones and dots. -/
def components (serverPath : Text) : Except NtStatus (List Text) :=
  (serverPath.splitOn '\\').foldlM (fun names part =>
    if part = [] ∨ part = ['.'] then .ok names
    else if part = ['.', '.'] then .error .accessDenied
    else if plainComponent part then .ok (names ++ [part])
    else .error .objectNameInvalid) []

/-- The local path for a server path under `root`, or why there is none. -/
def resolve (t : Disk) (root : PathBuf) (serverPath : Text) : Except NtStatus PathBuf :=
  if 32 * 1024 < serverPath.utf8Len then .error .objectNameInvalid
  else do
    let names ← components serverPath
    inside t root (root ++ names)
    .ok (root ++ names)

def sameFile (t : Disk) (a b : PathBuf) : Bool :=
  match t.canonicalize a, t.canonicalize b with
  | .ok a, .ok b => a = b
  | _, _ => false

/-! ## The disk, as requests see it -/

abbrev Io := Act FsBackend NtStatus

def touch (places : List PathBuf) : Io Unit :=
  Act.modify fun s => { s with touched := s.touched ++ places }

def orStatus {α : Type} : Except FileError α → Io α
  | .ok a => pure a
  | .error e => Act.fail (ioStatus e)

/-- `fs::Metadata` -/
structure Meta where
  isDir : Bool
  data : FileData
deriving DecidableEq

/-- `fs::metadata` -/
def metadata (path : PathBuf) : Io (Except FileError Meta) := do
  let s ← Act.get
  match s.disk.metadata path with
  | .error e => pure (.error e)
  | .ok (place, e) => do
    touch [place]
    pure (.ok ⟨e.isDir, s.disk.data e.id⟩)

/-- `Path::is_dir` -/
def isDir (path : PathBuf) : Io Bool := do
  let m ← metadata path
  pure (match m with
    | .ok m => m.isDir
    | .error _ => false)

/-- `fs::symlink_metadata(..).is_ok()` -/
def entryExists (path : PathBuf) : Io Bool := do
  let s ← Act.get
  match s.disk.symlinkMetadata path with
  | .error _ => pure false
  | .ok (place, _) => do
    touch [place]
    pure true

/-- `OpenOptions::open` of what exists. -/
def openFile (path : PathBuf) (write truncate : Bool) : Io (Except FileError File) := do
  let s ← Act.get
  match s.disk.metadata path with
  | .error e => pure (.error e)
  | .ok (place, e) =>
    if e.isDir && write then pure (.error .isADirectory)
    else if (s.disk.data e.id).readOnly && write then pure (.error .permissionDenied)
    else do
      touch [place]
      Act.modify fun s =>
        if truncate then { s with disk := onData s.disk e.id fun d => { d with bytes := [] } } else s
      pure (.ok ⟨e.id, e.isDir⟩)

def freshData : FileData := ⟨[], false, 0, 0, 0⟩

/-- `fs::create_dir`, or `OpenOptions::create_new`. -/
def createNew (path : PathBuf) (make : ℕ → Entry Text) : Io (Except FileError ℕ) := do
  let s ← Act.get
  match s.disk.create path make freshData with
  | .error e => pure (.error e)
  | .ok (place, t) => do
    touch [place]
    Act.modify fun s => { s with disk := t }
    pure (.ok s.disk.next)

/-- `fs::remove_dir` and `fs::remove_file` -/
def removeEntry (path : PathBuf) (dir : Bool) : Io (Except FileError Unit) := do
  let s ← Act.get
  match (if dir then s.disk.removeDir path else s.disk.removeFile path) with
  | .error e => pure (.error e)
  | .ok (place, t) => do
    touch [place]
    Act.modify fun s => { s with disk := t }
    pure (.ok ())

/-- `fs::rename` -/
def renameEntry (oldPath newPath : PathBuf) : Io (Except FileError Unit) := do
  let s ← Act.get
  match s.disk.rename oldPath newPath with
  | .error e => pure (.error e)
  | .ok (old, new, t) => do
    touch [old, new]
    Act.modify fun s => { s with disk := t }
    pure (.ok ())

/-- `fs::read_dir` -/
def readDir (path : PathBuf) : Io (List Text) := do
  let s ← Act.get
  let (place, names) ← orStatus (s.disk.readDir path)
  touch [place]
  pure names

def touchFile (file : File) : Io Unit := do
  let s ← Act.get
  touch (s.disk.placesOf file.id)

def onFile (file : File) (f : FileData → FileData) : Io Unit := do
  touchFile file
  Act.modify fun s => { s with disk := onData s.disk file.id f }

/-! ## Requests -/

/-- The device and the open file a request names. -/
structure IoRequest where
  deviceId : UInt32
  fileId : UInt32
deriving DecidableEq

structure CreateRequest where
  deviceId : UInt32
  path : Text
  desiredAccess : UInt32
  createDisposition : UInt32
  createOptions : UInt32
deriving DecidableEq

def fileDirectoryFile : UInt32 := 0x1
def fileNonDirectoryFile : UInt32 := 0x40
def fileDeleteOnClose : UInt32 := 0x1000

def fileSupersede : UInt32 := 0
def fileOpen : UInt32 := 1
def fileCreate : UInt32 := 2
def fileOverwrite : UInt32 := 4
def fileOverwriteIf : UInt32 := 5

def informationSuperseded : UInt8 := 0
def informationOpened : UInt8 := 1
def informationCreated : UInt8 := 2
def informationOverwritten : UInt8 := 3

/-- `wants_write`: data, appending, `GENERIC_WRITE`, `GENERIC_ALL` or `MAXIMUM_ALLOWED`. -/
def wantsWrite (access : UInt32) : Bool := access &&& 0x52000006 ≠ 0

def shareRoot (device : UInt32) : Io PathBuf := do
  let s ← Act.get
  match s.shares.get? device with
  | some share => pure share.root
  | none => Act.fail .invalidDeviceRequest

/-- The open file a request names, on the device it names. -/
def openedFile (req : IoRequest) : Io Open := do
  let s ← Act.get
  match s.opened.get? req.fileId with
  | some open' => if open'.deviceId = req.deviceId then pure open' else Act.fail .invalidParameter
  | none => Act.fail .invalidParameter

def setOpened (id : UInt32) (open' : Open) : Io Unit :=
  Act.modify fun s => { s with opened := s.opened.set id open' }

/-- `next_free_id`; `fuel` is more than what is open. -/
def nextFreeId (opened : Table UInt32 Open) : ℕ → UInt32 → UInt32 × UInt32
  | 0, id => (id, max (id + 1) 1)
  | fuel + 1, id =>
    if (opened.get? id).isNone then (id, max (id + 1) 1) else nextFreeId opened fuel (max (id + 1) 1)

/-- A missing file whose folder exists is "not found"; a missing folder on the way is "path not
found". -/
def missingStatus (path : PathBuf) : Io NtStatus := do
  let isDir ← isDir path.dropLast
  pure (if path ≠ [] ∧ isDir then .objectNameNotFound else .objectPathNotFound)

/-- Open what is there. A read-only file that was asked for with whatever access there may be is
opened for reading. -/
def openExisting (req : CreateRequest) (path : PathBuf) (found : Meta) :
    Io (Option File × Bool × UInt8) := do
  let writable := wantsWrite req.desiredAccess
  if req.createDisposition = fileCreate then Act.fail .objectNameCollision
  else if found.isDir then
    if req.createOptions &&& fileNonDirectoryFile ≠ 0 then Act.fail .fileIsADirectory
    else pure (none, writable, informationOpened)
  else if req.createOptions &&& fileDirectoryFile ≠ 0 then Act.fail .notADirectory
  else do
    let truncate := req.createDisposition = fileOverwrite ∨ req.createDisposition = fileOverwriteIf ∨
      req.createDisposition = fileSupersede
    let information :=
      if req.createDisposition = fileSupersede then informationSuperseded
      else if truncate then informationOverwritten else informationOpened
    let first ← openFile path (writable || truncate) truncate
    if first = .error .permissionDenied ∧ writable ∧ ¬truncate then do
      let file ← openFile path false false
      let file ← orStatus file
      pure (some file, false, information)
    else do
      let file ← orStatus first
      pure (some file, writable, information)

def makeNew (req : CreateRequest) (path : PathBuf) : Io (Option File × Bool × UInt8) := do
  let writable := wantsWrite req.desiredAccess
  if req.createDisposition = fileOpen ∨ req.createDisposition = fileOverwrite then do
    let status ← missingStatus path
    Act.fail status
  else if req.createOptions &&& fileDirectoryFile ≠ 0 then do
    let made ← createNew path .dir
    let _ ← orStatus made
    pure (none, writable, informationCreated)
  else do
    let made ← createNew path .file
    let id ← orStatus made
    pure (some ⟨id, false⟩, writable, informationCreated)

def keepOpen (open' : Open) : Io UInt32 := fun s =>
  let (id, next) := nextFreeId s.opened s.opened.entries.length s.nextId
  (.ok id, { s with opened := s.opened.set id open', nextId := next })

def create (req : CreateRequest) : Io (UInt32 × UInt8) := do
  let s ← Act.get
  if s.maxOpen ≤ s.opened.entries.length then Act.fail .insufficientResources
  else do
    let root ← shareRoot req.deviceId
    let path ← Act.ofExcept (resolve s.disk root req.path)
    let found ← metadata path
    let (file, writable, information) ← (match found with
      | .ok found => openExisting req path found
      | .error .notFound => makeNew req path
      | .error e => Act.fail (ioStatus e))
    -- The shared folder itself is never deleted, however it is opened.
    let deleteOnClose := req.createOptions &&& fileDeleteOnClose ≠ 0 ∧ path ≠ root
    let id ← keepOpen ⟨req.deviceId, path, file, file.isSome && writable, deleteOnClose, none⟩
    pure (id, information)

def close (req : IoRequest) : Io Unit := do
  let s ← Act.get
  match s.opened.get? req.fileId with
  | none => Act.fail .invalidParameter
  | some open' => do
    Act.modify fun s => { s with opened := s.opened.erase req.fileId }
    if open'.deleteOnClose then do
      let dir ← isDir open'.path
      let _ ← removeEntry open'.path dir
      pure ()
    else pure ()

def maxOffset : ℕ := 2 ^ 63

def read (req : IoRequest) (length offset : ℕ) : Io (List UInt8) := do
  let open' ← openedFile req
  match open'.file with
  | none => Act.fail .invalidDeviceRequest
  | some file => do
    if maxOffset ≤ offset then Act.fail (ioStatus .invalidInput)
    else if file.isDir then Act.fail (ioStatus .isADirectory)
    else do
      touchFile file
      let s ← Act.get
      pure (((s.disk.data file.id).bytes.drop offset).take (min length maxRead))

/-- Bytes written over others, with zeros up to there. -/
def writeAt (bytes data : List UInt8) (offset : ℕ) : List UInt8 :=
  if data = [] then bytes
  else
    (bytes ++ List.replicate (offset - bytes.length) 0).take offset ++ data ++
      bytes.drop (offset + data.length)

def write (req : IoRequest) (offset : ℕ) (data : List UInt8) : Io ℕ := do
  let open' ← openedFile req
  if open'.writable = false then Act.fail .accessDenied
  else
    match open'.file with
    | none => Act.fail .invalidDeviceRequest
    | some file => do
      if 2 ^ 32 ≤ data.length then Act.fail .invalidParameter
      else if maxOffset ≤ offset then Act.fail (ioStatus .invalidInput)
      else if file.isDir then Act.fail (ioStatus .isADirectory)
      else do
        onFile file fun d => { d with bytes := writeAt d.bytes data offset }
        pure data.length

/-! ### Information -/

inductive InformationLevel where
  | basic
  | standard
  | attributeTag
  | other
deriving DecidableEq

/-- `FileAttributes`, the ones that are set here. -/
structure FileAttributes where
  directory : Bool
  readOnly : Bool
  hidden : Bool
deriving DecidableEq

inductive Information where
  | basic (created accessed modified : ℕ) (attributes : FileAttributes)
  | standard (size : ℕ) (deletePending directory : Bool)
  | attributeTag (attributes : FileAttributes)
deriving DecidableEq

def attributes (m : Meta) (path : PathBuf) : FileAttributes where
  directory := m.isDir
  readOnly := m.data.readOnly
  hidden := match path.getLast? with
    | some ('.' :: _ :: _) => true
    | _ => false

def size (m : Meta) : ℕ := if m.isDir then 0 else min m.data.bytes.length (2 ^ 63 - 1)

def queryInformation (req : IoRequest) (level : InformationLevel) : Io Information := do
  let open' ← openedFile req
  let found ← metadata open'.path
  let m ← orStatus found
  let attributes := attributes m open'.path
  match level with
  | .basic => pure (.basic m.data.created m.data.accessed m.data.modified attributes)
  | .standard => pure (.standard (size m) open'.deleteOnClose m.isDir)
  | .attributeTag => pure (.attributeTag attributes)
  | .other => Act.fail .notSupported

inductive VolumeLevel where
  | volume
  | size
  | fullSize
  | attribute
  | device
  | other
deriving DecidableEq

inductive VolumeInformation where
  | volume (created : ℕ) (label : Text)
  | size (total available : ℕ)
  | fullSize (total available : ℕ)
  | attribute
  | device
deriving DecidableEq

/-- `space` is what the system says is free and there in all, in bytes. -/
def queryVolume (req : IoRequest) (level : VolumeLevel) (space : Option (ℕ × ℕ)) :
    Io VolumeInformation := do
  let _ ← openedFile req
  let s ← Act.get
  match s.shares.get? req.deviceId with
  | none => Act.fail .invalidDeviceRequest
  | some share => do
    let found ← metadata share.root
    let (free, total) := space.getD (2 ^ 40, 2 ^ 40)
    match level with
    | .volume =>
      pure (.volume (match found with | .ok m => m.data.created | .error _ => 0) share.name)
    | .size => pure (.size (total / 4096) (free / 4096))
    | .fullSize => pure (.fullSize (total / 4096) (free / 4096))
    | .attribute => pure .attribute
    | .device => pure .device
    | .other => Act.fail .notSupported

/-- What a request changes about an open file. -/
inductive SetBuffer where
  | endOfFile (length : ℤ)
  | allocation
  | basic (lastWriteTime : ℤ)
  | disposition (deletePending : Bool)
  | rename (fileName : Text) (replaceIfExists : Bool)
  | other
deriving DecidableEq

def setLen (length : ℕ) (bytes : List UInt8) : List UInt8 :=
  (bytes ++ List.replicate (length - bytes.length) 0).take length

/-- Mark what is open for deletion, or not. The shared folder itself and a folder with something in
it cannot be. -/
def setDisposition (req : IoRequest) (root : PathBuf) (open' : Open) (delete : Bool) : Io Unit := do
  if delete ∧ open'.path = root then Act.fail .accessDenied
  else do
    let dir ← (if delete then isDir open'.path else pure false)
    let names ← (if dir then readDir open'.path else pure [])
    if names ≠ [] then Act.fail .directoryNotEmpty
    else setOpened req.fileId { open' with deleteOnClose := delete }

/-- The last part of a rename: what is open is closed over it, and opened again where it is then. -/
def renameOpen (req : IoRequest) (open' : Open) (target : PathBuf) : Io Unit := do
  let renamed ← renameEntry open'.path target
  let path := match renamed with
    | .ok _ => target
    | .error _ => open'.path
  let closed : Open := { open' with file := none, path := path }
  setOpened req.fileId closed
  if open'.file.isSome then do
    let reopened ← openFile path open'.writable false
    let file ← orStatus reopened
    setOpened req.fileId { closed with file := some file }
    orStatus renamed
  else orStatus renamed

def setRename (req : IoRequest) (root : PathBuf) (open' : Open) (fileName : Text)
    (replaceIfExists : Bool) : Io Unit := do
  if open'.path = root then Act.fail .accessDenied
  else do
    let s ← Act.get
    let target ← Act.ofExcept (resolve s.disk root fileName)
    if target = root then Act.fail .accessDenied
    else do
      let there ← entryExists target
      if there ∧ ¬sameFile s.disk open'.path target ∧ replaceIfExists = false then
        Act.fail .objectNameCollision
      else renameOpen req open' target

/-- `from_filetime`: none for "don't change". -/
def fromFiletime (ticks : ℤ) : Option ℕ :=
  let since := ticks - 116444736000000000
  if ticks ≤ 0 ∨ since < 0 ∨ 2 ^ 64 ≤ since * 100 then none else some ticks.toNat

def setInformation (req : IoRequest) (buffer : SetBuffer) : Io Unit := do
  let root ← shareRoot req.deviceId
  let open' ← openedFile req
  match buffer with
  | .endOfFile length =>
    match open'.file with
    | none => Act.fail .invalidDeviceRequest
    | some file =>
      if open'.writable = false then Act.fail .accessDenied
      else if length < 0 then Act.fail .invalidParameter
      else onFile file fun d => { d with bytes := setLen length.toNat d.bytes }
  | .allocation => pure ()
  | .basic lastWriteTime =>
    match open'.file, open'.writable, fromFiletime lastWriteTime with
    | some file, true, some time => onFile file fun d => { d with modified := time }
    | _, _, _ => pure ()
  | .disposition delete => setDisposition req root open' delete
  | .rename fileName replaceIfExists => setRename req root open' fileName replaceIfExists
  | .other => Act.fail .notSupported

/-! ### Listings -/

/-- `matches_mask` from some point on: what is left of the mask and of the name, and where to go back
to, after the last `*` and behind the next character it is to take. -/
def matchFrom : ℕ → Text → Text → Option (Text × Text) → Bool
  | 0, _, _, _ => false
  | _ + 1, mask, [], _ => mask.all fun c => c = '*'
  | fuel + 1, mask, n :: name, star =>
    let back := match star with
      | some (mask', _ :: name') => matchFrom fuel mask' name' (some (mask', name'))
      | _ => false
    match mask with
    | '?' :: mask => matchFrom fuel mask name star
    | '*' :: mask => matchFrom fuel mask (n :: name) (some (mask, n :: name))
    | c :: mask => if c = n then matchFrom fuel mask name star else back
    | [] => back

/-- `*` and `?` as Windows matches them, without regard to case. -/
def matchesMask [Platform] (mask name : Text) : Bool :=
  if mask = ['*'] ∨ mask = ['*', '.', '*'] then true
  else
    let mask := Platform.toLowercase mask
    let name := Platform.toLowercase name
    matchFrom ((name.length + 1) * (mask.length + 2)) mask name none

def maskOf (pattern : Text) : Text := ((pattern.splitOn '\\').getLast?).getD []

def plainMask (mask : Text) : Bool := !(mask.contains '*' || mask.contains '?')

/-- The names in `dir` that match the last part of a pattern, sorted. A pattern without wildcards
names one entry. -/
def list [Platform] (root dir : PathBuf) (pattern : Text) : Io (List Text) := do
  let mask := maskOf pattern
  if mask = [] then Act.fail .noSuchFile
  else if plainMask mask then do
    -- One name, in the folder that was opened.
    let s ← Act.get
    let path ← Act.ofExcept (resolve s.disk root pattern)
    if path ≠ [] ∧ path.dropLast = dir then do
      let found ← metadata path
      pure (match found with | .ok _ => [mask] | .error _ => [])
    else pure []
  else do
    let names ← readDir dir
    let names := (names.filter (matchesMask mask)).take maxListing
    pure (names.mergeSort fun a b => Text.le (Platform.toLowercase a) (Platform.toLowercase b))

inductive DirectoryLevel where
  | bothDirectory
  | fullDirectory
  | directory
  | names
  | other
deriving DecidableEq

inductive DirectoryEntry where
  | full (level : DirectoryLevel) (created accessed modified size : ℕ) (attributes : FileAttributes)
      (name : Text)
  | name (name : Text)
deriving DecidableEq

/-- `entry` -/
def directoryEntry (level : DirectoryLevel) (name : Text) (path : PathBuf) (m : Meta) :
    Io DirectoryEntry :=
  match level with
  | .names => pure (.name name)
  | .other => Act.fail .notSupported
  | level => pure (.full level m.data.created m.data.accessed m.data.modified (size m)
      (attributes m path) name)

/-- The next entry of a listing that is not a link out of the share, and what is left of it. -/
def nextEntry (req : IoRequest) (root : PathBuf) (open' : Open) (level : DirectoryLevel) :
    List Text → Io DirectoryEntry
  | [] => do
    setOpened req.fileId { open' with listing := some [] }
    Act.fail .noMoreFiles
  | name :: listing => do
    let path := open'.path ++ [name]
    let s ← Act.get
    match inside s.disk root path with
    | .error _ => nextEntry req root open' level listing
    | .ok _ => do
      let found ← metadata path
      match found with
      | .error _ => nextEntry req root open' level listing
      | .ok m => do
        setOpened req.fileId { open' with listing := some listing }
        directoryEntry level name path m

def queryDirectory [Platform] (req : IoRequest) (level : DirectoryLevel) (initial : Bool)
    (pattern : Text) : Io DirectoryEntry := do
  let root ← shareRoot req.deviceId
  let open' ← openedFile req
  let listing ← (if initial then do
    setOpened req.fileId { open' with listing := none }
    let listing ← list root open'.path pattern
    if listing = [] then Act.fail .noSuchFile else pure (some listing)
    else pure open'.listing)
  match listing with
  | none => Act.fail .noMoreFiles
  | some listing => nextEntry req root open' level listing

/-! ## Any request -/

inductive Request where
  | create (req : CreateRequest)
  | close (req : IoRequest)
  | read (req : IoRequest) (length offset : ℕ)
  | write (req : IoRequest) (offset : ℕ) (data : List UInt8)
  | queryInformation (req : IoRequest) (level : InformationLevel)
  | queryVolume (req : IoRequest) (level : VolumeLevel) (space : Option (ℕ × ℕ))
  | setInformation (req : IoRequest) (buffer : SetBuffer)
  | queryDirectory (req : IoRequest) (level : DirectoryLevel) (initial : Bool) (pattern : Text)
deriving DecidableEq

def Request.deviceId : Request → UInt32
  | create req => req.deviceId
  | close req | read req _ _ | write req _ _ | queryInformation req _ | queryVolume req _ _
  | setInformation req _ | queryDirectory req _ _ _ => req.deviceId

/-- What is answered when a request succeeds. -/
inductive Answer where
  | created (id : UInt32) (information : UInt8)
  | closed
  | data (bytes : List UInt8)
  | written (length : ℕ)
  | information (i : Information)
  | volume (v : VolumeInformation)
  | set
  | entry (e : DirectoryEntry)
deriving DecidableEq

/-- `handle_drive_io_request` -/
def Request.handle [Platform] : Request → Io Answer
  | create req => do
    let (id, information) ← Drive.create req
    pure (.created id information)
  | close req => do
    Drive.close req
    pure .closed
  | read req length offset => do
    let bytes ← Drive.read req length offset
    pure (.data bytes)
  | write req offset data => do
    let length ← Drive.write req offset data
    pure (.written length)
  | queryInformation req level => do
    let i ← Drive.queryInformation req level
    pure (.information i)
  | queryVolume req level space => do
    let v ← Drive.queryVolume req level space
    pure (.volume v)
  | setInformation req buffer => do
    Drive.setInformation req buffer
    pure .set
  | queryDirectory req level initial pattern => do
    let e ← Drive.queryDirectory req level initial pattern
    pure (.entry e)

/-- One request, with what it reaches noted from the start. -/
def step [Platform] (s : FsBackend) (r : Request) : FsBackend :=
  (r.handle { s with touched := [] }).2

end Drive

end UwuRdp
