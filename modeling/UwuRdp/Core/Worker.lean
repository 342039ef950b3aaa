import Mathlib.Logic.Embedding.Basic
import UwuRdp.Core.Files

/-!
# The clipboard worker

A thread of its own owns the local clipboard of a session. It puts there what the server copied, and it
looks for what other programs put there, to announce that to the server. What it saw last it remembers by
a fingerprint, and after a write of its own it looks at once, so that the write is nothing new.
-/

namespace UwuRdp

open Lib

namespace Clipboard

def htmlFormatId : FormatId := 0xc0f0

/-- How often the progress of a download is told, in milliseconds. -/
def progressInterval : ℕ := 250

/-! ## Files on offer -/

/-- One entry of a list that is offered: where it is here, and whether it is a folder. -/
structure LocalEntry where
  path : Path
  dir : Bool
deriving DecidableEq

/-- The descriptors as they are sent, and at the same index where each entry lives here. -/
structure LocalList where
  descriptors : List FileDescriptor
  entries : List LocalEntry
deriving DecidableEq

structure FileContentsResponse where
  streamId : UInt32
  /-- `none` is an error. -/
  data : Option (List UInt8)
deriving DecidableEq

/-- What the server may ask for. -/
structure Served where
  current : Option (List LocalEntry)
  /-- What the server locked, by its id. -/
  locked : Table UInt32 (List LocalEntry)

namespace Served

def new : Served := ⟨none, .empty⟩

def offer (served : Served) (entries : List LocalEntry) : Served := { served with current := some entries }

def withdraw (served : Served) : Served := { served with current := none }

def lock (served : Served) (id : UInt32) : Served :=
  match served.current with
  | some current => { served with locked := served.locked.set id current }
  | none => served

def unlock (served : Served) (id : UInt32) : Served := { served with locked := served.locked.erase id }

/-- The entry a request is about: of the list it names, if that is locked, else of the current one. -/
def entry? (served : Served) (request : FileContentsRequest) : Option LocalEntry := do
  let list ← (request.dataId.bind served.locked.get?).or served.current
  list[request.index]?

end Served

/-! ## The computer -/

/-- What the poll reads every time. -/
inductive Shallow where
  | empty
  | text (text : Text)
  | files (files : List Path)
deriving DecidableEq

/-- A computer with a clipboard that holds a `C` and files that are a `D`: what the clipboard reads as,
what becomes of it when something is put there, and what its files are like. No two contents have one
fingerprint, and the change counter, where there is one, changes on every write and only then. -/
structure Computer (C D T H : Type) where
  windows : Bool
  files : C → Option (List Path)
  text : C → Option Text
  html : C → Option Text
  image : C → Option Formats.Rgba
  setText : Text → Option Text → C → Except Text C
  setImage : Formats.Rgba → C → Except Text C
  setFiles : List Path → C → Except Text C
  /-- `change_token`, after so many writes -/
  counter : Option (ℕ ↪ T)
  hashShallow : Shallow ↪ H
  hashImage : Formats.Rgba ↪ H
  /-- `LocalList::collect` -/
  collect : List Path → D → LocalList
  /-- What a request gets of an entry: its size, or a range. -/
  contents : LocalEntry → FileContentsRequest → D → Option (List UInt8)
  fs : FileSystem D
  removeDirAll : Path → D → D

/-- `read_shallow` -/
def Computer.readShallow {C D T H : Type} (pc : Computer C D T H) (content : C) : Shallow :=
  match pc.files content with
  | some files => .files files
  | none =>
    match pc.text content with
    | some text => .text text
    | none => .empty

/-! ## What the worker says -/

inductive Failure where
  /-- The server takes no files through the clipboard. -/
  | unsupported
  | download
  | offer
deriving DecidableEq

/-- What the page is told. -/
inductive Status where
  | downloading (files done total : ℕ)
  | ready (files : ℕ)
  | offered (files : ℕ) (total : Option ℕ)
  | sent (files : ℕ)
  | failed (error : Failure) (message : Text)
deriving DecidableEq

/-- What the worker sends the session. -/
inductive Outgoing where
  | initiateCopy (formats : List ClipboardFormat)
  | initiateFileCopy (files : List FileDescriptor)
  | formatData (data : Option (List UInt8))
  | fileContentsRequest (request : FileContentsRequest)
  | fileContentsResponse (response : FileContentsResponse)
  | status (status : Status)
deriving DecidableEq

/-! ## The worker -/

structure Worker (T H : Type) where
  /-- There is a clipboard. -/
  opened : Bool
  ready : Bool
  filesOk : Bool
  lastToken : Option T
  lastShallow : Option H
  lastImage : Option H
  /-- Counts local changes. -/
  changes : ℕ
  served : Served
  /-- This session's folder for downloaded files. -/
  folder : Path
  downloads : ℕ
  download : Option Download
  /-- Entries of the running download, and `changes` at its start. -/
  downloadFiles : ℕ
  downloadChanges : ℕ
  /-- The folder of the last finished download. -/
  finished : Option Path
  offered : Option (List RemoteEntry × Option UInt32)
  nextStream : UInt32
  lastProgress : Option ℕ

def Worker.new {T H : Type} (opened : Bool) (folder : Path) : Worker T H where
  opened := opened
  ready := false
  filesOk := false
  lastToken := none
  lastShallow := none
  lastImage := none
  changes := 0
  served := .new
  folder := folder
  downloads := 0
  download := none
  downloadFiles := 0
  downloadChanges := 0
  finished := none
  offered := none
  nextStream := 0
  lastProgress := none

/-- The worker, and the computer it works on: the content of the clipboard, how often it was written, and
the files. -/
structure Desk (C D T H : Type) where
  worker : Worker T H
  content : C
  writes : ℕ
  disk : D

/-- What a message makes of a desk, and what is sent. -/
abbrev Reply (C D T H : Type) := Desk C D T H × List Outgoing

namespace Desk

variable {C D T H : Type} [DecidableEq T] [DecidableEq H] (pc : Computer C D T H)

/-- Reads what changed since the last look and remembers it; nothing when nothing can have changed, or
there is no clipboard. -/
def look (s : Desk C D T H) (deep : Bool) : Option (Shallow × Option Formats.Rgba × Bool) × Desk C D T H :=
  let token := pc.counter.map fun count => count s.writes
  if s.worker.opened = false then (none, s)
  else if token.isSome ∧ token = s.worker.lastToken ∧ s.worker.lastShallow.isSome then (none, s)
  else
    let shallow := pc.readShallow s.content
    let changed : Bool := s.worker.lastShallow ≠ some (pc.hashShallow shallow)
    let seen := { s.worker with lastToken := token, lastShallow := some (pc.hashShallow shallow) }
    if shallow = .empty then
      -- With a change counter every change is worth a full look.
      if deep ∨ token.isSome ∨ changed then
        let image := pc.image s.content
        let hash := image.map pc.hashImage
        (some (shallow, image, changed || hash ≠ s.worker.lastImage),
          { s with worker := { seen with lastImage := hash } })
      else (some (shallow, none, changed), { s with worker := seen })
    else (some (shallow, none, changed), { s with worker := { seen with lastImage := none } })

def withdraw (s : Desk C D T H) : Desk C D T H :=
  { s with worker := { s.worker with served := s.worker.served.withdraw } }

def offerFiles (s : Desk C D T H) (paths : List Path) (dropped : Bool) : Reply C D T H :=
  if s.worker.filesOk = false then
    if dropped then
      (s, [.status (.failed .unsupported "The server doesn't take files through the clipboard.".toList)])
    -- The server can't have them; it shouldn't keep the old content either.
    else (s.withdraw, [.initiateCopy []])
  else
    let list := pc.collect paths s.disk
    if list.descriptors = [] then
      (s, if dropped then [.status (.failed .offer "None of the files can be read.".toList)] else [])
    else
      ({ s with worker := { s.worker with served := s.worker.served.offer list.entries } },
        .initiateFileCopy list.descriptors :: if dropped then [.status (.sent paths.length)] else [])

def announce (s : Desk C D T H) (shallow : Shallow) (image : Option Formats.Rgba) : Bool × Reply C D T H :=
  match shallow with
  | .files paths => (true, s.offerFiles pc paths false)
  | .text _ =>
    let html := pc.html s.content
    (true, s.withdraw,
      [.initiateCopy (⟨cfUnicodetext, none⟩ ::
        if html.isSome then [⟨htmlFormatId, some htmlName⟩] else [])])
  | .empty =>
    match image with
    -- A clipboard that went empty is no news for the server.
    | none => (false, s, [])
    | some _ => (true, s.withdraw, [.initiateCopy [⟨cfDib, none⟩]])

/-- Looks at the local clipboard and announces it if it changed. -/
def check (s : Desk C D T H) (deep : Bool) : Bool × Reply C D T H :=
  if s.worker.ready = false then (false, s, [])
  else
    match s.look pc deep with
    | (some (shallow, image, true), s) =>
      { s with worker := { s.worker with changes := s.worker.changes + 1 } }.announce pc shallow image
    | (_, s) => (false, s, [])

/-- Announces whatever is on the local clipboard, changed or not. -/
def announceCurrent (s : Desk C D T H) : Bool × Reply C D T H :=
  { s with worker := { s.worker with lastToken := none, lastShallow := none, lastImage := none } }.check pc
    true

/-- Remembers what is on the clipboard now as already known. -/
def absorb (s : Desk C D T H) : Desk C D T H := (s.look pc true).2

def put (s : Desk C D T H) (content : C) : Desk C D T H :=
  { s with content := content, writes := s.writes + 1 }

def store (s : Desk C D T H) (content : RemoteContent) : Desk C D T H :=
  let result : Option (Except Text C) := match content.text, content.image with
    | some text, _ => some (pc.setText (Formats.fromRemoteLineEndings pc.windows text) content.html s.content)
    | none, some image => some (pc.setImage image s.content)
    | none, none => none
  if s.worker.opened = false then s
  else
    match result with
    | some (.ok content) => (s.put content).absorb pc
    | _ => s

/-- The data for a format that was announced, read now. -/
def render (s : Desk C D T H) (format : FormatId) : Option (List UInt8) :=
  if s.worker.opened = false then none
  else if format = cfUnicodetext then (pc.text s.content).map Formats.encodeUtf16Text
  else if format = htmlFormatId then (pc.html s.content).map Formats.wrapCfHtml
  else if format = cfDib then (pc.image s.content).bind Formats.rgbaToDib
  else none

/-! ## Downloads -/

def discard (download : Option Download) (disk : D) : D :=
  match download with
  | some d => if d.finished then disk else pc.removeDirAll d.base disk
  | none => disk

def progress (s : Desk C D T H) (now done total : ℕ) : Reply C D T H :=
  if s.worker.lastProgress.all fun t => progressInterval ≤ now - t then
    ({ s with worker := { s.worker with lastProgress := some now } },
      [.status (.downloading s.worker.downloadFiles done total)])
  else (s, [])

def endDownload (s : Desk C D T H) : Desk C D T H :=
  { s with worker := { s.worker with download := none }, disk := discard pc s.worker.download s.disk }

/-- A complete download goes on the clipboard, unless something else was copied meanwhile: that wins. -/
def downloadFinished (s : Desk C D T H) (base : Path) (top : List Path) : Reply C D T H :=
  let (announced, s, out) := s.check pc false
  if announced ∨ s.worker.changes ≠ s.worker.downloadChanges then
    ({ s with disk := pc.removeDirAll base s.disk }, out)
  else
    let set := if s.worker.opened then pc.setFiles top s.content else .error "no local clipboard".toList
    match set with
    | .ok content =>
      let s := (s.put content).absorb pc
      let disk := match s.worker.finished with
        | some old => pc.removeDirAll old s.disk
        | none => s.disk
      ({ s with worker := { s.worker with finished := some base }, disk := disk },
        out ++ [.status (.ready top.length)])
    | .error message =>
      ({ s with disk := pc.removeDirAll base s.disk }, out ++ [.status (.failed .download message)])

def downloadEnded (s : Desk C D T H) (now : ℕ) : Progress → Reply C D T H
  | .running done total => s.progress now done total
  | .failed message => (s.endDownload pc, [.status (.failed .download message)])
  | .finished top =>
    match s.worker.download with
    | none => (s, [])
    | some download => (s.endDownload pc).downloadFinished pc download.base top

def startDownload (s : Desk C D T H) (now : ℕ) (entries : List RemoteEntry) (clipDataId : Option UInt32) :
    Reply C D T H :=
  let base := s.worker.folder ++ [(toString (s.worker.downloads + 1)).toList]
  let started := (Run.mk (Download.new base entries clipDataId) s.disk s.worker.nextStream).start pc.fs
  let s := { s with
    disk := discard pc s.worker.download started.1.disk
    worker := { s.worker with
      downloads := s.worker.downloads + 1
      downloadFiles := (entries.filter RemoteEntry.top).length
      downloadChanges := s.worker.changes
      lastProgress := none
      download := some started.1.download
      nextStream := started.1.nextStream } }
  match started.2 with
  | .ok requests =>
    let (s, out) := s.progress now 0 0
    (s, requests.map Outgoing.fileContentsRequest ++ out)
  | .error result => s.downloadEnded pc now result

def fileResponse (s : Desk C D T H) (now : ℕ) (streamId : UInt32) (data : Option (List UInt8)) :
    Reply C D T H :=
  match s.worker.download.filter fun d => (d.inFlight.get? streamId).isSome with
  | none => (s, [])
  | some download =>
    let (run, requests, progress) := (Run.mk download s.disk s.worker.nextStream).onResponse pc.fs streamId data
    let s := { s with
      disk := run.disk
      worker := { s.worker with download := some run.download, nextStream := run.nextStream } }
    let (s, out) := s.downloadEnded pc now progress
    (s, requests.map Outgoing.fileContentsRequest ++ out)

/-- Files the server copied are downloaded, or offered to the user. -/
def remoteFiles (s : Desk C D T H) (now : ℕ) (files : List FileDescriptor) (clipDataId : Option UInt32) :
    Reply C D T H :=
  match Clipboard.remoteFiles files with
  | .nothing => (s, [])
  | .start entries => s.startDownload pc now entries clipDataId
  | .ask entries total =>
    ({ s with worker := { s.worker with offered := some (entries, clipDataId) } },
      [.status (.offered (entries.filter RemoteEntry.top).length total)])

end Desk

/-! ## What happens -/

inductive DeskEvent (C D : Type) where
  /-- The channel asks for an initial list. -/
  | initial
  | ready
  /-- Whether the server takes files through the clipboard. -/
  | capabilities (streamFileclip : Bool)
  | check (deep : Bool)
  | serve (format : FormatId)
  /-- What the backend tells of the server's copies. -/
  | copied (msg : WorkerMsg)
  | download
  | offerFiles (paths : List Path)
  | fileRequest (request : FileContentsRequest)
  | fileResponse (streamId : UInt32) (data : Option (List UInt8))
  | lock (id : UInt32)
  | unlock (id : UInt32)
  /-- No message came for a while. -/
  | poll
  /-- Another program puts something on the clipboard. -/
  | write (content : C)
  /-- Other programs change files. -/
  | disk (disk : D)

namespace Desk

variable {C D T H : Type} [DecidableEq T] [DecidableEq H] (pc : Computer C D T H)

/-- `handle`, the poll, and what other programs do, at a given moment. -/
def handle (s : Desk C D T H) (now : ℕ) : DeskEvent C D → Reply C D T H
  | .initial =>
    if s.worker.ready then
      let (announced, s, out) := s.announceCurrent pc
      (s, if announced then out else out ++ [.initiateCopy []])
    else (s, [.initiateCopy []])
  | .ready => ({ s with worker := { s.worker with ready := true } }.announceCurrent pc).2
  | .capabilities streamFileclip => ({ s with worker := { s.worker with filesOk := streamFileclip } }, [])
  | .check deep => (s.check pc deep).2
  | .serve format => (s, [.formatData (s.render pc format)])
  | .copied .remoteCopy =>
    (({ s.endDownload pc with
      worker := { (s.endDownload pc).worker with offered := none } } : Desk C D T H).withdraw, [])
  | .copied (.store content) => (s.store pc content, [])
  | .copied (.remoteFiles files clipDataId) => s.remoteFiles pc now files clipDataId
  | .download =>
    match s.worker.offered with
    | some (entries, clipDataId) =>
      { s with worker := { s.worker with offered := none } }.startDownload pc now entries clipDataId
    | none => (s, [])
  | .offerFiles paths => s.offerFiles pc paths true
  | .fileRequest request =>
    (s, [.fileContentsResponse
      ⟨request.streamId, (s.worker.served.entry? request).bind fun e => pc.contents e request s.disk⟩])
  | .fileResponse streamId data => s.fileResponse pc now streamId data
  | .lock id => ({ s with worker := { s.worker with served := s.worker.served.lock id } }, [])
  | .unlock id => ({ s with worker := { s.worker with served := s.worker.served.unlock id } }, [])
  | .poll => (s.check pc false).2
  | .write content => (s.put content, [])
  | .disk disk => ({ s with disk := disk }, [])

def step (s : Desk C D T H) (e : ℕ × DeskEvent C D) : Desk C D T H := (s.handle pc e.1 e.2).1

def new (opened : Bool) (folder : Path) (content : C) (disk : D) : Desk C D T H :=
  ⟨.new opened folder, content, 0, disk⟩

end Desk

end Clipboard

end UwuRdp
