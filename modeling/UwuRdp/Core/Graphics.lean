import UwuRdp.Core.Surface
import UwuRdp.Lib.Table

/-!
# The graphics pipeline

What the server draws goes to surfaces, from there to the output the page sees; inside a frame the
output waits for its end. What a decoder made of a payload comes with the message, as the decoders have
it; what becomes of it on the surface is done here. `none` is a panic.
-/

namespace UwuRdp

open Lib Lib.Raster

namespace Gfx

def maxEdge : ℕ := 8192

def maxSurfaceBytes : ℕ := 512 * 1024 * 1024

def maxCacheSlots : ℕ := 4096

def maxCacheBytes : ℕ := 64 * 1024 * 1024

/-- `ExclusiveRectangle` -/
structure Edges where
  left : UInt16
  top : UInt16
  right : UInt16
  bottom : UInt16
deriving DecidableEq

/-- `exclusive` -/
def Edges.rect (e : Edges) : Rect := Rect.fromEdges e.left e.top e.right e.bottom

/-! ## Codecs -/

def tile : UInt16 := 64

def tileStride : ℕ := 64 * 4

/-- A tile of a RemoteFX tile set; `none` if it does not decode. -/
structure RfxTile where
  x : UInt16
  y : UInt16
  rgba : Option (List UInt8)
deriving DecidableEq

/-- The blocks of a RemoteFX payload. -/
inductive RfxBlock where
  | region (rectangles : List Rect)
  | tileSet (tiles : List RfxTile)
  | other
  /-- What does not decode. -/
  | broken
deriving DecidableEq

/-- A tile the progressive decoder has pixels for. -/
structure ProgressiveTile where
  xIdx : UInt16
  yIdx : UInt16
  pixels : List UInt8
  updateRectangles : List Edges
deriving DecidableEq

/-- The picture an H.264 stream has built, in colours. -/
structure Picture where
  width : ℕ
  height : ℕ
  color : ℕ → ℕ → Color

/-- The payload of an update, as far as its decoder got with it. -/
inductive Payload where
  | uncompressed (data : List UInt8)
  | planar (header : Option UInt8) (rgb : Option (List UInt8))
  | clearCodec (bgra : Option (List UInt8))
  | remoteFx (blocks : List RfxBlock)
  | avc420 (decoded : Option (List Rect × Picture))
  | avc444 (decoded : Option (List Rect × Picture))
  | alpha
  | other

/-- What a codec leaves: the surface, and what it wrote unless it failed. -/
abbrev Written := Pixels × Option (List Rect)

def bgraToRgba : List UInt8 → List UInt8
  | b :: g :: r :: _ :: rest => r :: g :: b :: 0xff :: bgraToRgba rest
  | _ => []

def rgbToRgba (blueFirst : Bool) : List UInt8 → List UInt8
  | a :: b :: c :: rest =>
    (if blueFirst then [c, b, a, 0xff] else [a, b, c, 0xff]) ++ rgbToRgba blueFirst rest
  | _ => []

/-- A block as wide and high as `dest`. -/
def writeBlock (surface : Pixels) (dest : Rect) (rgba : List UInt8) : Option Written := do
  let (surface, r) ← surface.write dest.x dest.y dest.w dest.h rgba (dest.w.toNat * 4)
  some (surface, some [r])

def uncompressed (surface : Pixels) (dest : Rect) (data : List UInt8) : Option Written :=
  let needed := dest.area * 4
  if data.length < needed then some (surface, none)
  else writeBlock surface dest (bgraToRgba (data.take needed))

def planar (surface : Pixels) (dest : Rect) (header : Option UInt8) (rgb : Option (List UInt8)) :
    Option Written :=
  match rgb with
  | none => some (surface, none)
  | some rgb =>
    let needed := dest.w.toNat * dest.h.toNat * 3
    if rgb.length < needed then some (surface, none)
    else
      -- Without an alpha plane, AYCoCg comes blue first.
      let blueFirst := match header with
        | some header => header &&& 0x07 ≠ 0 && header &&& 0x20 ≠ 0
        | none => false
      writeBlock surface dest (rgbToRgba blueFirst (rgb.take needed))

def clearCodec (surface : Pixels) (dest : Rect) (bgra : Option (List UInt8)) : Option Written :=
  match bgra with
  | none => some (surface, none)
  | some bgra => writeBlock surface dest (bgraToRgba bgra)

/-- `u16::checked_mul(TILE)` and `checked_add` -/
def tileAt (idx base : UInt16) : Option UInt16 :=
  if idx.toNat * 64 + base.toNat < 65536 then some (UInt16.ofNat (idx.toNat * 64 + base.toNat)) else none

def progressiveTiles (surface : Pixels) : List ProgressiveTile → Option (Pixels × List Rect)
  | [] => some (surface, [])
  | t :: tiles =>
    match tileAt t.xIdx 0, tileAt t.yIdx 0 with
    | some x, some y => do
      let (surface, done) ← Pixels.writeClipped x y tile tile t.pixels tileStride
        (t.updateRectangles.map Edges.rect) surface
      let (surface, written) ← progressiveTiles surface tiles
      some (surface, done ++ written)
    | _, _ => progressiveTiles surface tiles

def progressive (surface : Pixels) (tiles : Option (List ProgressiveTile)) : Option Written :=
  match tiles with
  | none => some (surface, none)
  | some tiles => do
    let (surface, written) ← progressiveTiles surface tiles
    some (surface, some written)

namespace RemoteFx

/-- `u16::saturating_add` -/
def saturatingAdd (a b : UInt16) : UInt16 := UInt16.ofNat (min (a.toNat + b.toNat) 65535)

/-- Where the tiles of a set may be drawn: the region, moved to `dest` and cut to it; without a region,
all of `dest`. -/
def clip (region : List Rect) (dest : Rect) : List Rect :=
  (region.map fun r =>
    (Rect.mk (saturatingAdd dest.x r.x) (saturatingAdd dest.y r.y) r.w r.h).intersect dest).filter
      (fun r => !r.isEmpty) ++ (if region = [] then [dest] else [])

/-- The tiles of a set, up to one that does not decode. -/
def tiles (dest : Rect) (clip : List Rect) : List RfxTile → Pixels → Option Written
  | [], surface => some (surface, some [])
  | t :: rest, surface =>
    match t.rgba with
    | none => some (surface, none)
    | some rgba =>
      match tileAt t.x dest.x, tileAt t.y dest.y with
      | some x, some y => do
        let (surface, done) ← Pixels.writeClipped x y tile tile rgba tileStride clip surface
        let (surface, written) ← tiles dest clip rest surface
        some (surface, written.map (done ++ ·))
      | _, _ => tiles dest clip rest surface

/-- Tiles and region rectangles are relative to `dest`. -/
def decode (dest : Rect) : List RfxBlock → List Rect → Pixels → Option Written
  | [], _, surface => some (surface, some [])
  | .broken :: _, _, surface => some (surface, none)
  | .other :: blocks, region, surface => decode dest blocks region surface
  | .region rectangles :: blocks, _, surface => decode dest blocks rectangles surface
  | .tileSet set :: blocks, region, surface => do
    let (surface, done) ← tiles dest (clip region dest) set surface
    match done with
    | none => some (surface, none)
    | some done => do
      let (surface, written) ← decode dest blocks region surface
      some (surface, written.map (done ++ ·))

end RemoteFx

namespace Avc

def row (picture : Picture) (x y count : ℕ) : List UInt8 :=
  ((List.range count).map fun i => (picture.color (x + i) y).bytes).flatten

/-- Put regions of the picture on the surface; it lies on it from its corner. -/
def draw (picture : Picture) : List Rect → Pixels → Option (Pixels × List Rect)
  | [], surface => some (surface, [])
  | r :: regions, surface =>
    let edge (n : ℕ) : UInt16 := UInt16.ofNat (min n 65535)
    let target := (r.clip (edge picture.width) (edge picture.height)).clip surface.width surface.height
    if target.isEmpty then draw picture regions surface
    else do
      let (data, _) ← putRows surface.stride (target.y.toNat * surface.stride + target.x.toNat * 4)
        (fun i => some (row picture target.x.toNat (target.y.toNat + i) target.w.toNat)) target.h.toNat 0
        surface.data
      let (surface, written) ← draw picture regions { surface with data := data }
      some (surface, target :: written)

end Avc

def avc (surface : Pixels) (decoded : Option (List Rect × Picture)) : Option Written :=
  match decoded with
  | none => some (surface, none)
  | some (regions, picture) => do
    let (surface, written) ← Avc.draw picture regions surface
    some (surface, some written)

/-! ## The pipeline -/

structure Surface where
  pixels : Pixels
  /-- Where on the output it shows, if it is mapped. -/
  origin : Option (UInt32 × UInt32)
deriving DecidableEq

/-- The H.264 codecs the confirmed capability set allows. -/
structure Allowed where
  avc420 : Bool
  avc444 : Bool
deriving DecidableEq

/-- The flags of a confirmed capability set that are asked for. -/
inductive CapabilitySet where
  | v8
  | v81 (avc420Enabled : Bool)
  | v101
  /-- 10.0 and 10.2 to 10.7. -/
  | v10 (avcDisabled : Bool)
deriving DecidableEq

def Allowed.fromConfirmed : CapabilitySet → Allowed
  | .v8 => ⟨false, false⟩
  | .v81 avc420Enabled => ⟨avc420Enabled, false⟩
  | .v101 => ⟨true, true⟩
  | .v10 avcDisabled => ⟨!avcDisabled, !avcDisabled⟩

structure Pipeline where
  surfaces : Table UInt16 Surface
  surfaceBytes : ℕ
  cache : Table UInt16 Pixels
  cacheBytes : ℕ
  /-- `none` until the first reset: the pipeline is not drawing yet. -/
  output : Option Pixels
  outputDirty : List Rect
  resized : Option (UInt16 × UInt16)
  /-- Surface areas updated in the frame that is still open. -/
  pending : Table UInt16 DirtyRegion
  inFrame : Bool
  framesDecoded : UInt32
  allowed : Allowed
  /-- Whether there is an H.264 decoder. -/
  h264 : Bool

def Pipeline.new (h264 : Bool) : Pipeline where
  surfaces := .empty
  surfaceBytes := 0
  cache := .empty
  cacheBytes := 0
  output := none
  outputDirty := []
  resized := none
  pending := .empty
  inFrame := false
  framesDecoded := 0
  allowed := ⟨false, false⟩
  h264 := h264

/-- What changed on the output since the session last looked. -/
structure Changes where
  resized : Option (UInt16 × UInt16)
  dirty : List Rect
deriving DecidableEq

structure FrameAcknowledge where
  frameId : UInt32
  totalFramesDecoded : UInt32
deriving DecidableEq

/-- The messages of the server. -/
inductive Pdu where
  | capabilitiesConfirm (set : Option CapabilitySet)
  | resetGraphics (width height : UInt32)
  | createSurface (id width height : UInt16)
  | deleteSurface (id : UInt16)
  | mapSurfaceToOutput (id : UInt16) (x y : UInt32)
  | mapSurfaceToScaledOutput (id : UInt16) (x y : UInt32)
  | startFrame
  | endFrame (frameId : UInt32)
  | wireToSurface1 (id : UInt16) (destination : Edges) (payload : Payload)
  | wireToSurface2 (id : UInt16) (tiles : Option (List ProgressiveTile))
  | deleteEncodingContext
  | solidFill (id : UInt16) (r g b : UInt8) (rectangles : List Edges)
  | surfaceToSurface (source destination : UInt16) (rectangle : Edges) (points : List (UInt16 × UInt16))
  | surfaceToCache (id slot : UInt16) (rectangle : Edges)
  | cacheToSurface (slot id : UInt16) (points : List (UInt16 × UInt16))
  | evictCacheEntry (slot : UInt16)
  | other

namespace Pipeline

def takeChanges (s : Pipeline) : Changes × Pipeline :=
  (⟨s.resized, s.outputDirty⟩, { s with resized := none, outputDirty := [] })

def sub (a b : ℕ) : Option ℕ := if b ≤ a then some (a - b) else none

def clampEdge (value : UInt32) : UInt16 := UInt16.ofNat (max 1 (min value.toNat maxEdge))

/-- Copy a surface area to where it shows on the output. The sums are of 32 bits. -/
def compose (s : Pipeline) (id : UInt16) (rect : Rect) : Option Pipeline :=
  match s.output, s.surfaces.get? id with
  | some output, some surface =>
    match surface.origin with
    | none => some s
    | some (ox, oy) =>
      let rect := rect.clip surface.pixels.width surface.pixels.height
      let x := ox + UInt32.ofNat rect.x.toNat
      let y := oy + UInt32.ofNat rect.y.toNat
      if x.toNat < 65536 ∧ y.toNat < 65536 then do
        let (output, written) ← output.blit surface.pixels rect (UInt16.ofNat x.toNat) (UInt16.ofNat y.toNat)
        some { s with
          output := some output
          outputDirty := if written.isEmpty then s.outputDirty else s.outputDirty ++ [written] }
      else some s
  | _, _ => some s

/-- A surface area changed: shown at the end of the frame, or now outside of one. -/
def touch (s : Pipeline) (id : UInt16) (rect : Rect) : Option Pipeline :=
  if rect.isEmpty then some s
  else if s.inFrame then
    some { s with pending := s.pending.set id (((s.pending.get? id).getD []).add rect) }
  else s.compose id rect

def pendingAreas (s : Pipeline) : List (UInt16 × Rect) :=
  (s.pending.entries.mergeSort fun a b => a.1 ≤ b.1).flatMap fun e => e.2.map fun r => (e.1, r)

def composePending (s : Pipeline) : Option Pipeline :=
  s.pendingAreas.foldlM (fun s e => s.compose e.1 e.2) { s with pending := .empty }

/-- What a codec wrote; if it failed, nothing is recorded. -/
def updated (s : Pipeline) (id : UInt16) (result : Option (List Rect)) : Option Pipeline :=
  match result with
  | some rects => rects.foldlM (fun s r => s.touch id r) s
  | none => some s

def createSurface (s : Pipeline) (id width height : UInt16) : Option Pipeline := do
  let old := (s.surfaces.get? id).elim 0 fun old => old.pixels.data.length
  let surfaceBytes ← sub s.surfaceBytes old
  let s := { s with surfaces := s.surfaces.erase id, surfaceBytes := surfaceBytes }
  let bytes := width.toNat * height.toNat * 4
  if width = 0 ∨ height = 0 ∨ maxEdge < width.toNat ∨ maxEdge < height.toNat ∨
      maxSurfaceBytes < s.surfaceBytes + bytes then
    some s
  else
    some { s with
      surfaceBytes := s.surfaceBytes + bytes
      surfaces := s.surfaces.set id ⟨Pixels.new width height, none⟩ }

def deleteSurface (s : Pipeline) (id : UInt16) : Option Pipeline := do
  let old := (s.surfaces.get? id).elim 0 fun old => old.pixels.data.length
  let surfaceBytes ← sub s.surfaceBytes old
  some { s with
    surfaces := s.surfaces.erase id
    surfaceBytes := surfaceBytes
    pending := s.pending.erase id }

def map (s : Pipeline) (id : UInt16) (x y : UInt32) : Option Pipeline :=
  match s.surfaces.get? id with
  | none => some s
  | some surface =>
    { s with surfaces := s.surfaces.set id { surface with origin := some (x, y) } }.touch id
      surface.pixels.bounds

def evict (s : Pipeline) (slot : UInt16) : Option Pipeline := do
  let old := (s.cache.get? slot).elim 0 fun old => old.data.length
  let cacheBytes ← sub s.cacheBytes old
  some { s with cache := s.cache.erase slot, cacheBytes := cacheBytes }

def cachePut (s : Pipeline) (slot : UInt16) (entry : Pixels) : Option Pipeline :=
  if slot = 0 ∨ maxCacheSlots < slot.toNat then some s
  else do
    let s ← s.evict slot
    if maxCacheBytes < s.cacheBytes + entry.data.length then some s
    else
      some { s with
        cacheBytes := s.cacheBytes + entry.data.length
        cache := s.cache.set slot entry }

/-- Surfaces stay, but what they held and anything half-done are void. -/
def resetGraphics (s : Pipeline) (width height : UInt32) : Pipeline :=
  { s with
    surfaces := s.surfaces.map fun _ surface => { surface with pixels := surface.pixels.clear }
    pending := .empty
    outputDirty := []
    output := some (Pixels.new (clampEdge width) (clampEdge height))
    resized := some (clampEdge width, clampEdge height) }

def draw (s : Pipeline) (id : UInt16) (f : Pixels → Option Written) : Option Pipeline :=
  match s.surfaces.get? id with
  | none => some s
  | some surface => do
    let (pixels, result) ← f surface.pixels
    { s with surfaces := s.surfaces.set id { surface with pixels := pixels } }.updated id result

def payloadOn (s : Pipeline) (dest : Rect) (payload : Payload) (surface : Pixels) : Option Written :=
  match payload with
  | .uncompressed data => Gfx.uncompressed surface dest data
  | .planar header rgb => Gfx.planar surface dest header rgb
  | .clearCodec bgra => Gfx.clearCodec surface dest bgra
  | .remoteFx blocks => RemoteFx.decode dest blocks [] surface
  | .avc420 decoded => if s.allowed.avc420 ∧ s.h264 then Gfx.avc surface decoded else some (surface, none)
  | .avc444 decoded => if s.allowed.avc444 ∧ s.h264 then Gfx.avc surface decoded else some (surface, none)
  | .alpha => some (surface, some [])
  | .other => some (surface, none)

def fillAll (c : Color) : List Edges → Pixels → Option (Pixels × List Rect)
  | [], p => some (p, [])
  | e :: rest, p => do
    let (p, done) ← p.fill e.rect c
    let (p, written) ← fillAll c rest p
    some (p, done :: written)

def writeAll (w h : UInt16) (block : List UInt8) : List (UInt16 × UInt16) → Pixels →
    Option (Pixels × List Rect)
  | [], p => some (p, [])
  | (x, y) :: rest, p => do
    let (p, done) ← p.write x y w h block (w.toNat * 4)
    let (p, written) ← writeAll w h block rest p
    some (p, done :: written)

def all (r : Pixels × List Rect) : Written := (r.1, some r.2)

def surfaceToSurface (s : Pipeline) (source destination : UInt16) (rectangle : Edges)
    (points : List (UInt16 × UInt16)) : Option Pipeline :=
  match s.surfaces.get? source with
  | none => some s
  | some from' => do
    let (rect, block) ← from'.pixels.read rectangle.rect
    s.draw destination fun p => (writeAll rect.w rect.h block points p).map all

def surfaceToCache (s : Pipeline) (id slot : UInt16) (rectangle : Edges) : Option Pipeline :=
  match s.surfaces.get? id with
  | none => some s
  | some surface => do
    let (rect, data) ← surface.pixels.read rectangle.rect
    s.cachePut slot ⟨rect.w, rect.h, data⟩

def cacheToSurface (s : Pipeline) (slot id : UInt16) (points : List (UInt16 × UInt16)) :
    Option Pipeline :=
  match s.cache.get? slot with
  | none => some s
  | some entry => s.draw id fun p => (writeAll entry.width entry.height entry.data points p).map all

def endFrame (s : Pipeline) : Option Pipeline := do
  let s ← { s with inFrame := false }.composePending
  some { s with framesDecoded := s.framesDecoded + 1 }

def act (s : Pipeline) : Pdu → Option Pipeline
  | .capabilitiesConfirm set =>
    some { s with allowed := set.elim ⟨false, false⟩ Allowed.fromConfirmed }
  | .resetGraphics width height => some (s.resetGraphics width height)
  | .createSurface id width height => s.createSurface id width height
  | .deleteSurface id => s.deleteSurface id
  | .mapSurfaceToOutput id x y => s.map id x y
  | .mapSurfaceToScaledOutput id x y => s.map id x y
  | .startFrame => some { s with inFrame := true }
  | .endFrame _ => s.endFrame
  | .wireToSurface1 id destination payload => s.draw id (s.payloadOn destination.rect payload)
  | .wireToSurface2 id tiles => s.draw id fun p => Gfx.progressive p tiles
  | .deleteEncodingContext => some s
  | .solidFill id r g b rectangles => s.draw id fun p => (fillAll ⟨r, g, b, 0xff⟩ rectangles p).map all
  | .surfaceToSurface source destination rectangle points =>
    s.surfaceToSurface source destination rectangle points
  | .surfaceToCache id slot rectangle => s.surfaceToCache id slot rectangle
  | .cacheToSurface slot id points => s.cacheToSurface slot id points
  | .evictCacheEntry slot => s.evict slot
  | .other => some s

/-- `handle`: what a message does, and the answer. -/
def handle (s : Pipeline) (pdu : Pdu) : Option (Pipeline × Option FrameAcknowledge) := do
  let s ← s.act pdu
  match pdu with
  | .endFrame frameId => some (s, some ⟨frameId, s.framesDecoded⟩)
  | _ => some (s, none)

end Pipeline

end Gfx

end UwuRdp
