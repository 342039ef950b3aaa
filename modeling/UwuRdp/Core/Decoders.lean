import UwuRdp.Core.GraphicsBounds

/-!
# Decoders that keep something

Behind the pipeline stand decoders with a state of their own: the progressive decoder keeps contexts and
the H.264 decoder a stream and its picture for each surface, the others one state for all of them. What
they keep and how they go on from it is a parameter. An update is asked of its decoder only if its surface
is there; what the decoder makes of it goes to the pipeline.
-/

namespace UwuRdp

open Lib

namespace Gfx

/-- `Codec1Type` -/
inductive Codec where
  | uncompressed
  | planar
  | clearCodec
  | remoteFx
  | avc420
  | avc444
  | avc444v2
  | alpha
  | other
deriving DecidableEq

/-- The decoders as state machines, over what the progressive decoder and the H.264 decoder keep for one
surface and over what the others keep. Without anything kept a surface has `none`. -/
structure Decoders (P H C : Type) where
  /-- `decode_bitmap`: context, size of the surface, data, and whether a frame is open. -/
  progressive : Option P → UInt32 → UInt16 → UInt16 → List UInt8 → Bool →
    Option P × Option (List ProgressiveTile)
  beginFrame : P → P
  endFrame : P → P
  deleteContext : UInt32 → P → Option P
  /-- `avc420` and `avc444`, up to the picture and its regions. -/
  avc : Option H → Codec → Rect → List UInt8 → Option H × Option (List Rect × Picture)
  planar : C → Rect → List UInt8 → C × Option (List UInt8)
  clear : C → Rect → List UInt8 → C × Option (List UInt8)
  remoteFx : C → List UInt8 → C × List RfxBlock

/-- The pipeline with what its decoders keep. -/
structure Live (P H C : Type) where
  pipeline : Pipeline
  contexts : Table UInt16 P
  streams : Table UInt16 H
  shared : C

/-- The messages of the server, with the data of updates as it comes. -/
inductive Message where
  | wireToSurface1 (id : UInt16) (codec : Codec) (destination : Edges) (data : List UInt8)
  | wireToSurface2 (id : UInt16) (context : UInt32) (data : List UInt8)
  | deleteEncodingContext (id : UInt16) (context : UInt32)
  /-- One that brings nothing to decode. -/
  | plain (pdu : Pdu)

namespace Live

variable {P H C : Type}

def new (h264 : Bool) (shared : C) : Live P H C where
  pipeline := .new h264
  contexts := .empty
  streams := .empty
  shared := shared

def put {α : Type} (kept : Table UInt16 α) (id : UInt16) : Option α → Table UInt16 α
  | some a => kept.set id a
  | none => kept.erase id

/-- An H.264 update, if the confirmed capabilities allow it and there is a decoder. -/
def avc (M : Decoders P H C) (s : Live P H C) (id : UInt16) (codec : Codec) (allowed : Bool) (dest : Rect)
    (data : List UInt8) : Option (List Rect × Picture) × Live P H C :=
  if allowed ∧ s.pipeline.h264 then
    let (kept, decoded) := M.avc (s.streams.get? id) codec dest data
    (decoded, { s with streams := put s.streams id kept })
  else (none, s)

def payload (M : Decoders P H C) (s : Live P H C) (id : UInt16) (codec : Codec) (dest : Rect)
    (data : List UInt8) : Payload × Live P H C :=
  match codec with
  | .uncompressed => (.uncompressed data, s)
  | .planar =>
    let (shared, rgb) := M.planar s.shared dest data
    (.planar data.head? rgb, { s with shared := shared })
  | .clearCodec =>
    let (shared, bgra) := M.clear s.shared dest data
    (.clearCodec bgra, { s with shared := shared })
  | .remoteFx =>
    let (shared, blocks) := M.remoteFx s.shared data
    (.remoteFx blocks, { s with shared := shared })
  | .avc420 =>
    let (decoded, s) := s.avc M id .avc420 s.pipeline.allowed.avc420 dest data
    (.avc420 decoded, s)
  | .avc444 =>
    let (decoded, s) := s.avc M id .avc444 s.pipeline.allowed.avc444 dest data
    (.avc444 decoded, s)
  | .avc444v2 =>
    let (decoded, s) := s.avc M id .avc444v2 s.pipeline.allowed.avc444 dest data
    (.avc444 decoded, s)
  | .alpha => (.alpha, s)
  | .other => (.other, s)

def acts (s : Live P H C) (pdu : Pdu) : Option (Live P H C) :=
  (s.pipeline.act pdu).map fun pipeline => { s with pipeline := pipeline }

def told (M : Decoders P H C) (s : Live P H C) : Pdu → Live P H C
  | .deleteSurface id => { s with contexts := s.contexts.erase id, streams := s.streams.erase id }
  | .startFrame => { s with contexts := s.contexts.map fun _ p => M.beginFrame p }
  | .endFrame _ => { s with contexts := s.contexts.map fun _ p => M.endFrame p }
  | _ => s

/-- `handle`: what a message does. -/
def act (M : Decoders P H C) (s : Live P H C) : Message → Option (Live P H C)
  | .wireToSurface1 id codec destination data =>
    match s.pipeline.surfaces.get? id with
    | none => some s
    | some _ =>
      let (payload, s) := s.payload M id codec destination.rect data
      s.acts (.wireToSurface1 id destination payload)
  | .wireToSurface2 id context data =>
    match s.pipeline.surfaces.get? id with
    | none => some s
    | some surface =>
      let (kept, tiles) := M.progressive (s.contexts.get? id) context surface.pixels.width
        surface.pixels.height data s.pipeline.inFrame
      { s with contexts := put s.contexts id kept }.acts (.wireToSurface2 id tiles)
  | .deleteEncodingContext id context =>
    some { s with contexts := put s.contexts id ((s.contexts.get? id).bind (M.deleteContext context)) }
  | .plain pdu => (s.told M pdu).acts pdu

def answer (s : Live P H C) : Message → List FrameAcknowledge
  | .plain (.endFrame frameId) => [⟨frameId, s.pipeline.framesDecoded⟩]
  | _ => []

/-- What a session does: it hands over a message, or takes the changes out. -/
inductive Call where
  | handle (message : Message)
  | takeChanges

def call (M : Decoders P H C) (s : Live P H C) : Call → Option (Live P H C × List FrameAcknowledge)
  | .handle message => (s.act M message).map fun s => (s, s.answer message)
  | .takeChanges => some ({ s with pipeline := s.pipeline.takeChanges.2 }, [])

def run (M : Decoders P H C) : Live P H C → List Call → Option (Live P H C × List FrameAcknowledge)
  | s, [] => some (s, [])
  | s, c :: calls => do
    let (s, answers) ← s.call M c
    let (s, more) ← run M s calls
    some (s, answers ++ more)

/-- What can be seen of a run: the pipeline it leaves, with surfaces, output and dirty rectangles, and
the answers. -/
def observe (M : Decoders P H C) (s : Live P H C) (calls : List Call) :
    Option (Pipeline × List FrameAcknowledge) :=
  (run M s calls).map fun r => (r.1.pipeline, r.2)

end Live

end Gfx

end UwuRdp
