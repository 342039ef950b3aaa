import UwuRdp.Core.Clipboard
import UwuRdp.Lib.Table

/-!
# Files from the server

The server's list of files becomes a download into a folder of its own: file by file, range by range, a
few requests open at a time. What the download asks of the file system is a list of operations, each of
which may fail.
-/

namespace UwuRdp

open Lib

namespace Clipboard

/-! ## Names -/

def reservedOnWindows (part : Text) : Bool :=
  let stem := Text.trimEndMatches Text.isWhitespace (part.takeWhile (· ≠ '.'))
  let upper := stem.map Text.asciiUppercase
  upper ∈ ["CON", "PRN", "AUX", "NUL", "CONIN$", "CONOUT$"].map String.toList ∨
    (upper.take 3 = "COM".toList ∨ upper.take 3 = "LPT".toList) ∧
      upper.drop 3 ∈ ["0", "1", "2", "3", "4", "5", "6", "7", "8", "9", "¹", "²", "³"].map String.toList

/-- A path component from the server that is not safe to use here. -/
def badComponent (part : Text) : Bool :=
  part = [] ∨ part = ['.'] ∨ part = ['.', '.'] ∨
    (part.any fun c => c = '/' ∨ c = '\\' ∨ c = '\x00' ∨ c = ':') ∨ part.any Text.isControl ∨
    part.getLast? = some '.' ∨ part.getLast? = some ' ' ∨ reservedOnWindows part

def safeComponent (part : Text) : Option Text := if badComponent part then none else some part

abbrev Path := List Text

abbrev Moment := ℕ × ℕ

def filetimeUnixOffset : ℕ := 11644473600

def fromFiletime (filetime : UInt64) : Option Moment :=
  let secs := filetime.toNat / 10000000
  if secs < filetimeUnixOffset then none
  else some (secs - filetimeUnixOffset, filetime.toNat % 10000000 * 100)

/-- What is to be fetched. -/
structure RemoteEntry where
  index : ℕ
  path : Path
  dir : Bool
  size : Option ℕ
  modified : Option Moment
  /-- Directly in what was copied. -/
  top : Bool
deriving DecidableEq

def maxEntries : ℕ := 10000

/-- A descriptor as a local relative path, if its names are safe. -/
def planEntry (index : ℕ) (file : FileDescriptor) : Option RemoteEntry :=
  let parent : Option Path := match file.relativePath with
    | none => some []
    | some path => if path = [] then some [] else (path.splitOn '\\').mapM safeComponent
  match parent, safeComponent file.name with
  | some parent, some name =>
    let dir := file.directory.getD false
    some {
      index := index
      path := parent ++ [name]
      dir := dir
      size := if dir then some 0 else file.fileSize.map UInt64.toNat
      modified := file.lastWriteTime.bind fromFiletime
      top := parent.isEmpty }
  | _, _ => none

/-- The server's descriptors as local relative paths. -/
def plan (files : List FileDescriptor) : List RemoteEntry :=
  (files.take maxEntries).zipIdx.filterMap fun (file, index) => planEntry index file

/-! ## The file system -/

/-- What is asked of the file system. -/
inductive FileOp where
  /-- Create a folder that only this user can read, and those above it. -/
  | privateDir (path : Path)
  | createDirAll (path : Path)
  /-- Create a file, or empty it, and open it. -/
  | create (path : Path)
  /-- Write to the open file. -/
  | write (path : Path) (position : ℕ) (data : List UInt8)
  | setModified (path : Path) (time : Moment)
deriving DecidableEq

/-- A file system: the error of an operation, if it fails, and what it leaves. -/
abbrev FileSystem (D : Type) := FileOp → D → Option Text × D

def logged {D : Type} (fs : FileSystem D) : FileSystem (D × List FileOp) := fun op s =>
  ((fs op s.1).1, (fs op s.1).2, s.2 ++ [op])

/-! ## A download -/

def chunk : ℕ := 1024 * 1024

def window : ℕ := 4

inductive Progress where
  | running (done total : ℕ)
  /-- Everything is there: these go on the clipboard. -/
  | finished (top : List Path)
  | failed (message : Text)
deriving DecidableEq

def Progress.ended : Progress → Option Progress
  | .running _ _ => none
  | progress => some progress

/-- A request in flight: which file, and which range; without one it asks for the size. -/
structure InFlight where
  index : ℕ
  range : Option (ℕ × ℕ)
deriving DecidableEq

structure FileContentsRequest where
  streamId : UInt32
  index : ℕ
  /-- Whether it asks for the size. -/
  size : Bool
  position : ℕ
  requestedSize : ℕ
  dataId : Option UInt32
deriving DecidableEq

/-- One download of the server's files into `base`. -/
structure Download where
  base : Path
  entries : List RemoteEntry
  clipDataId : Option UInt32
  /-- The entry that is fetched. -/
  current : ℕ
  /-- The open file. -/
  file : Option Path
  size : Option ℕ
  /-- Where the next new range starts. -/
  next : ℕ
  /-- What short answers left open, asked for again first. -/
  gaps : List (ℕ × ℕ)
  inFlight : Table UInt32 InFlight
  done : ℕ
  total : ℕ
  finished : Bool

/-- `u64::saturating_add` -/
def saturatingAdd (a b : ℕ) : ℕ := min (a + b) (2 ^ 64 - 1)

def Download.new (base : Path) (entries : List RemoteEntry) (clipDataId : Option UInt32) : Download where
  base := base
  entries := entries
  clipDataId := clipDataId
  current := 0
  file := none
  size := none
  next := 0
  gaps := []
  inFlight := .empty
  done := 0
  total := (entries.filterMap (·.size)).foldl saturatingAdd 0
  finished := false

/-- `wrapping_add(1).max(1)` -/
def nextStreamId (id : UInt32) : UInt32 := max (id + 1) 1

/-- A download, the file system, and the last stream id given out. -/
structure Run (D : Type) where
  download : Download
  disk : D
  nextStream : UInt32

namespace Download

def request (d : Download) (entry : RemoteEntry) (streamId : UInt32) (range : Option (ℕ × ℕ)) :
    FileContentsRequest where
  streamId := streamId
  index := min entry.index (2 ^ 31 - 1)
  size := range.isNone
  position := (range.getD (0, 8)).1
  requestedSize := (range.getD (0, 8)).2
  dataId := d.clipDataId

def topLevel (d : Download) : List Path := (d.entries.filter (·.top)).map fun e => d.base ++ e.path

def running (d : Download) : Progress := .running d.done (max d.total d.done)

def takeRange (d : Download) (size : ℕ) : Option ((ℕ × ℕ) × Download) :=
  match d.gaps.getLast? with
  | some gap => some (gap, { d with gaps := d.gaps.dropLast })
  | none =>
    if d.next < size then
      let len := min (size - d.next) chunk
      some ((d.next, len), { d with next := d.next + len })
    else none

end Download

namespace Run

variable {D : Type}

/-- Take the next id and ask for something of the current file under it. -/
def ask (s : Run D) (entry : RemoteEntry) (range : Option (ℕ × ℕ)) : Run D × FileContentsRequest :=
  let id := nextStreamId s.nextStream
  ({ s with
      nextStream := id
      download := { s.download with inFlight := s.download.inFlight.set id ⟨s.download.current, range⟩ } },
    s.download.request entry id range)

/-- Fill the window with requests; `fuel` is more than the ranges there are. -/
def fill (entry : RemoteEntry) (size : ℕ) : ℕ → Run D → List FileContentsRequest →
    Run D × List FileContentsRequest
  | 0, s, requests => (s, requests)
  | fuel + 1, s, requests =>
    if window ≤ s.download.inFlight.entries.length then (s, requests)
    else
      match s.download.takeRange size with
      | none => (s, requests)
      | some (range, d) =>
        let (s, request) := { s with download := d }.ask entry (some range)
        fill entry size fuel s (requests ++ [request])

def display (path : Path) : Text := List.intercalate ['/'] path

variable (fs : FileSystem D)

def perform (s : Run D) (op : FileOp) : Option Text × Run D :=
  ((fs op s.disk).1, { s with disk := (fs op s.disk).2 })

/-- `set_modified`, whose error is ignored -/
def setModified (s : Run D) (path : Path) (time : Option Moment) : Run D :=
  match time with
  | some time => (s.perform fs (.setModified path time)).2
  | none => s

def openCurrent (s : Run D) (entry : RemoteEntry) : Option Text × Run D :=
  let path := s.download.base ++ entry.path
  if entry.dir then s.perform fs (.createDirAll path)
  else
    match s.perform fs (.createDirAll path.dropLast) with
    | (some error, s) => (some error, s)
    | (none, s) =>
      match s.perform fs (.create path) with
      | (some error, s) => (some (['/'] ++ display path ++ ": ".toList ++ error), s)
      | (none, s) =>
        let s := { s with download := { s.download with size := entry.size, next := 0, gaps := [] } }
        if entry.size = some 0 then (none, s.setModified fs path entry.modified)
        else (none, { s with download := { s.download with file := some path } })

def closeCurrent (s : Run D) (entry : RemoteEntry) : Run D :=
  let s := match s.download.file with
    | some path => s.setModified fs path entry.modified
    | none => s
  { s with download := { s.download with file := none, size := none, current := s.download.current + 1 } }

/-- After an entry: on to the next one, or no further. -/
inductive Next (D : Type) where
  | again (s : Run D) (requests : List FileContentsRequest)
  | stop (s : Run D) (result : Except Progress (List FileContentsRequest))

def fetch (s : Run D) (entry : RemoteEntry) (requests : List FileContentsRequest) : Next D :=
  match s.download.size with
  | none =>
    if s.download.inFlight.entries = [] then
      let (s, request) := s.ask entry none
      .stop s (.ok (requests ++ [request]))
    else .stop s (.ok requests)
  | some size =>
    let (s, requests) := s.fill entry size (s.download.gaps.length + (size - s.download.next) + 1) requests
    if s.download.inFlight.entries = [] then .again (s.closeCurrent fs entry) requests
    else .stop s (.ok requests)

/-- One turn of the loop of `pump`. -/
def visit (s : Run D) (entry : RemoteEntry) (requests : List FileContentsRequest) : Next D :=
  match (if s.download.file = none then s.openCurrent fs entry else (none, s)) with
  | (some error, s) => .stop s (.error (.failed error))
  | (none, s) =>
    if s.download.file = none then
      -- A folder, or an empty file: nothing to fetch.
      .again { s with download := { s.download with current := s.download.current + 1 } } requests
    else s.fetch fs entry requests

/-- Fill the window with requests, moving on to the next file whenever one is complete; `fuel` is more
than the entries there are. -/
def pump : ℕ → Run D → List FileContentsRequest → Run D × Except Progress (List FileContentsRequest)
  | 0, s, requests => (s, .ok requests)
  | fuel + 1, s, requests =>
    match s.download.entries[s.download.current]? with
    | none =>
      if s.download.inFlight.entries = [] then
        ({ s with download := { s.download with finished := true } }, .error (.finished s.download.topLevel))
      else (s, .ok requests)
    | some entry =>
      match s.visit fs entry requests with
      | .again s requests => pump fuel s requests
      | .stop s result => (s, result)

def pumpAll (s : Run D) : Run D × Except Progress (List FileContentsRequest) :=
  s.pump fs (s.download.entries.length + 1) []

/-- `start`: folders and empty files at once, and the first requests. -/
def start (s : Run D) : Run D × Except Progress (List FileContentsRequest) :=
  match s.perform fs (.privateDir s.download.base) with
  | (some error, s) => (s, .error (.failed error))
  | (none, s) => s.pumpAll fs

def nameOf (d : Download) (index : ℕ) : Text := display ((d.entries[index]?.map (·.path)).getD [])

/-- What an answer to a request brings, before the next requests; an error ends the download. -/
def take (s : Run D) (request : InFlight) (data : Option (List UInt8)) : Option Text × Run D :=
  let name := nameOf s.download request.index
  match data with
  | none => (some ("the server could not send ".toList ++ name), s)
  | some data =>
    match request.range with
    | none =>
      if data.length ≠ 8 then (some ("no size for ".toList ++ name), s)
      else
        let size := leNat data
        let s := { s with
          download := { s.download with total := saturatingAdd s.download.total size, size := some size } }
        match s.download.entries[s.download.current]? with
        | some entry => (none, if size = 0 then s.closeCurrent fs entry else s)
        | none => (none, s)
    | some (position, len) =>
      if data = [] ∨ len < data.length then
        (some ("the server sent a broken piece of ".toList ++ name), s)
      else
        match s.download.file with
        | none => (some (name ++ " is not open".toList), s)
        | some path =>
          match s.perform fs (.write path position data) with
          | (some error, s) => (some (name ++ ": ".toList ++ error), s)
          | (none, s) =>
            (none, { s with download := { s.download with
              done := (s.download.done + data.length) % 2 ^ 64
              gaps :=
                if data.length < len then s.download.gaps ++ [(position + data.length, len - data.length)]
                else s.download.gaps } })

/-- `on_response`: take the answer to one of our requests, and go on. -/
def onResponse (s : Run D) (streamId : UInt32) (data : Option (List UInt8)) :
    Run D × List FileContentsRequest × Progress :=
  match s.download.inFlight.get? streamId with
  | none => (s, [], s.download.running)
  | some request =>
    let s := { s with download := { s.download with inFlight := s.download.inFlight.erase streamId } }
    match s.take fs request data with
    | (some message, s) => (s, [], .failed message)
    | (none, s) =>
      match s.pumpAll fs with
      | (s, .ok requests) => (s, requests, s.download.running)
      | (s, .error progress) => (s, [], progress)

end Run

/-! ## The worker's part -/

def autoDownloadLimit : ℕ := 256 * 1024 * 1024

/-- The sizes together, if all are known and their sum is a `u64`. -/
def knownSize (entries : List RemoteEntry) : Option ℕ :=
  entries.foldlM (fun sum e => e.size.bind fun size => if sum + size < 2 ^ 64 then some (sum + size) else none) 0

/-- What becomes of a list of files. -/
inductive Offer where
  | nothing
  /-- Downloaded at once. -/
  | start (entries : List RemoteEntry)
  /-- The user is asked. -/
  | ask (entries : List RemoteEntry) (total : Option ℕ)
deriving DecidableEq

def remoteFiles (files : List FileDescriptor) : Offer :=
  let entries := plan files
  if entries = [] then .nothing
  else
    match knownSize entries with
    | some total => if total ≤ autoDownloadLimit then .start entries else .ask entries (some total)
    | none => .ask entries none

/-- A download as the worker drives it, with the requests sent so far and the ids of the answers taken. -/
structure Transfer (D : Type) where
  run : Run D
  sent : List FileContentsRequest
  answered : List UInt32
  /-- Finished or failed: the worker has let go of it. -/
  ended : Option Progress

namespace Transfer

variable {D : Type} (fs : FileSystem D)

/-- `start_download` -/
def start (base : Path) (entries : List RemoteEntry) (clipDataId : Option UInt32) (nextStream : UInt32)
    (disk : D) : Transfer D :=
  match (Run.mk (Download.new base entries clipDataId) disk nextStream).start fs with
  | (run, .ok requests) => ⟨run, requests, [], none⟩
  | (run, .error progress) => ⟨run, [], [], some progress⟩

/-- `file_response` -/
def answer (t : Transfer D) (a : UInt32 × Option (List UInt8)) : Transfer D :=
  if t.ended = none ∧ t.run.download.inFlight.get? a.1 ≠ none then
    let (run, requests, progress) := t.run.onResponse fs a.1 a.2
    ⟨run, t.sent ++ requests, t.answered ++ [a.1], progress.ended⟩
  else t

end Transfer

end Clipboard

end UwuRdp
