import UwuRdp.Core.Formats

/-!
# What the server copies

The clipboard channel calls the backend from inside the session: the backend fetches what the server
copied, one request at a time, and hands it to the worker, which owns the local clipboard. The channel
matches an answer to the request before it by order alone. What is sent to the worker and to the
session is kept in the order it was sent.
-/

namespace UwuRdp

open Lib

namespace Clipboard

/-- `ClipboardFormatId` -/
abbrev FormatId := UInt32

def cfDib : FormatId := 8
def cfUnicodetext : FormatId := 13
def cfDibv5 : FormatId := 17

/-- `ClipboardFormatName::FILE_LIST` -/
def fileListName : Text := "FileGroupDescriptorW".toList

/-- `ClipboardFormatName::HTML` -/
def htmlName : Text := "HTML Format".toList

structure ClipboardFormat where
  id : FormatId
  name : Option Text
deriving DecidableEq

/-- What the server says of a file it copied. -/
structure FileDescriptor where
  name : Text
  relativePath : Option Text
  /-- Whether it is a folder, where its attributes are given. -/
  directory : Option Bool
  fileSize : Option UInt64
  lastWriteTime : Option UInt64
deriving DecidableEq

/-- What the server copied, fetched and ready for the local clipboard. -/
structure RemoteContent where
  text : Option Text
  html : Option Text
  image : Option Formats.Rgba
deriving DecidableEq

def RemoteContent.none : RemoteContent := ⟨.none, .none, .none⟩

def RemoteContent.isEmpty (content : RemoteContent) : Bool :=
  content.text.isNone && content.image.isNone

/-- What the backend tells the worker about the server's copies. -/
inductive WorkerMsg where
  | remoteCopy
  | store (content : RemoteContent)
  | remoteFiles (files : List FileDescriptor) (clipDataId : Option UInt32)
deriving DecidableEq

/-- What the backend asked the server for. -/
inductive Wanted where
  | text
  | html (id : FormatId)
  | image (id : FormatId)
  | fileList (id : FormatId)
deriving DecidableEq

/-- `SendInitiatePaste`, which carries the format, and what it was sent for. -/
structure Request where
  generation : ℕ
  wanted : Wanted
deriving DecidableEq

/-- `REQUEST_TIMEOUT`, in milliseconds. -/
def requestTimeout : ℕ := 15000

structure ClipboardBackend where
  /-- Counts the server's copies; answers to an older one are dropped. -/
  generation : ℕ
  queue : List Wanted
  /-- The request in flight, with the moment it was sent. -/
  inFlight : Option (Request × ℕ)
  content : RemoteContent
  /-- What the worker was sent. -/
  worker : List WorkerMsg
  /-- What the session was sent. -/
  session : List Request
deriving DecidableEq

namespace ClipboardBackend

def new : ClipboardBackend := ⟨0, [], none, .none, [], []⟩

def pump (b : ClipboardBackend) (now : ℕ) : ClipboardBackend :=
  match b.inFlight, b.queue with
  | none, wanted :: queue =>
    let request := ⟨b.generation, wanted⟩
    { b with queue := queue, inFlight := some (request, now), session := b.session ++ [request] }
  | _, _ => b

/-- Whether the request in flight has gone unanswered for too long. -/
def timedOut (b : ClipboardBackend) (now : ℕ) : Bool :=
  match b.inFlight with
  | some (_, sent) => requestTimeout ≤ now - sent
  | none => false

/-- A request the server never answered must not block the next ones forever. -/
def tick (b : ClipboardBackend) (now : ℕ) : ClipboardBackend :=
  if b.timedOut now then { b with inFlight := none }.pump now else b

/-- The channel refused the request in flight; go on with the next. -/
def refused (b : ClipboardBackend) (now : ℕ) : ClipboardBackend := { b with inFlight := none }.pump now

/-- The request an answer belongs to, if it is current. -/
def answered (b : ClipboardBackend) : Option Wanted :=
  match b.inFlight with
  | some (request, _) => if request.generation = b.generation then some request.wanted else none
  | none => none

/-- Everything of the current copy is fetched: hand it to the worker. -/
def deliverIfComplete (b : ClipboardBackend) : ClipboardBackend :=
  if b.queue = [] ∧ b.content.isEmpty = false then
    { b with content := .none, worker := b.worker ++ [.store b.content] }
  else b

/-- What to fetch of a copy: the files, else the text with its HTML, else a picture. -/
def wantedOf (formats : List ClipboardFormat) : List Wanted :=
  let named (name : Text) := (formats.find? fun f => f.name = some name).map ClipboardFormat.id
  let has (id : FormatId) := formats.any fun f => f.id = id
  match named fileListName with
  | some id => [.fileList id]
  | none =>
    if has cfUnicodetext then
      match named htmlName with
      | some id => [.text, .html id]
      | none => [.text]
    else if has cfDib then [.image cfDib]
    else if has cfDibv5 then [.image cfDibv5]
    else []

def onRemoteCopy (b : ClipboardBackend) (now : ℕ) (formats : List ClipboardFormat) : ClipboardBackend :=
  { b with
    generation := b.generation + 1
    queue := wantedOf formats
    content := .none
    worker := b.worker ++ [WorkerMsg.remoteCopy] }.pump now

def accept (wanted : Wanted) (data : List UInt8) (content : RemoteContent) : RemoteContent :=
  match wanted with
  | .text =>
    let text := Formats.decodeUtf16Text data
    { content with text := if text = [] then none else some text }
  | .html _ => { content with html := Formats.unwrapCfHtml data }
  | .image _ =>
    match Formats.dibToRgba data with
    | some image => { content with image := some image }
    | none => content
  -- Only a broken list ends up here.
  | .fileList _ => content

/-- An answer comes; `none` is an error. -/
def onFormatDataResponse (b : ClipboardBackend) (now : ℕ) (data : Option (List UInt8)) :
    ClipboardBackend :=
  let taken := { b with inFlight := none }
  match b.answered with
  | none => taken.pump now
  | some wanted =>
    match data with
    | none => taken.deliverIfComplete.pump now
    | some data => { taken with content := accept wanted data b.content }.deliverIfComplete.pump now

/-- An answer comes that the channel took for the list of files. -/
def onRemoteFileList (b : ClipboardBackend) (now : ℕ) (files : List FileDescriptor)
    (clipDataId : Option UInt32) : ClipboardBackend :=
  let taken := { b with inFlight := none }
  match b.answered with
  | some (.fileList _) => { taken with worker := b.worker ++ [WorkerMsg.remoteFiles files clipDataId] }.pump now
  | _ => taken.pump now

end ClipboardBackend

/-- What happens to the backend. -/
inductive Event where
  | remoteCopy (formats : List ClipboardFormat)
  | formatDataResponse (data : Option (List UInt8))
  | remoteFileList (files : List FileDescriptor) (clipDataId : Option UInt32)
  | tick
  | refused
deriving DecidableEq

def ClipboardBackend.step (b : ClipboardBackend) (e : ℕ × Event) : ClipboardBackend :=
  match e with
  | (now, .remoteCopy formats) => b.onRemoteCopy now formats
  | (now, .formatDataResponse data) => b.onFormatDataResponse now data
  | (now, .remoteFileList files clipDataId) => b.onRemoteFileList now files clipDataId
  | (now, .tick) => b.tick now
  | (now, .refused) => b.refused now

end Clipboard

end UwuRdp
