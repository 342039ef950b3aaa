import UwuRdp.Core.Frame
import UwuRdp.Core.Graphics

/-!
# The session loop

One turn after the other: something comes from the server or from the page, or it is time to send the
page what changed. The page is sent the size of the desktop and then rectangles of it, as long as it
acknowledges what it got.
-/

namespace UwuRdp

open Lib

def ackWindow : ℕ := 2

/-- A region as the protocol has it, edges included. -/
structure InclusiveRectangle where
  left : UInt16
  top : UInt16
  right : UInt16
  bottom : UInt16
deriving DecidableEq

/-- The desktop image and what the page has not seen of it yet. -/
structure Screen where
  image : Pixels
  dirty : DirtyRegion
  unacked : ℕ

namespace Screen

def markAllDirty (s : Screen) : Screen :=
  { s with dirty := DirtyRegion.add [] ⟨0, 0, s.image.width, s.image.height⟩ }

/-- `DecodedImage::new` -/
def decodedImage (width height : UInt16) : Pixels :=
  ⟨width, height, List.replicate (height.toNat * width.toNat * 4) 0⟩

def new (width height : UInt16) : Screen := markAllDirty ⟨decodedImage width height, [], 0⟩

/-- `stop.saturating_sub(start).saturating_add(1)` -/
def extent (start stop : UInt16) : UInt16 := UInt16.ofNat (min (stop.toNat - start.toNat + 1) 65535)

def markDirty (s : Screen) (rect : InclusiveRectangle) : Screen :=
  let rect : Rect := ⟨rect.left, rect.top, extent rect.left rect.right, extent rect.top rect.bottom⟩
  { s with dirty := s.dirty.add (rect.clip s.image.width s.image.height) }

def canFlush (s : Screen) : Bool := !s.dirty.isEmpty ∧ s.unacked < ackWindow

/-- The pixels come from the graphics pipeline once it draws, from the decoded image before. -/
def source (s : Screen) (graphics : Option Gfx.Pipeline) : Pixels :=
  (graphics.bind Gfx.Pipeline.output).getD s.image

/-- Messages go out until the window is full: those sent, those left, and how many are unacknowledged. -/
def sendSome (unacked : ℕ) : List (List Rect) → List (List Rect) × List (List Rect) × ℕ
  | [] => ([], [], unacked)
  | message :: rest =>
    if ackWindow ≤ unacked + 1 then ([message], rest, unacked + 1)
    else
      let (sent, left, unacked) := sendSome (unacked + 1) rest
      (message :: sent, left, unacked)

/-- What can be sent of the dirty region, cut to the picture. -/
def flushRects (s : Screen) (source : Pixels) : List Rect :=
  (s.dirty.map fun r => r.clip (min s.image.width source.width) (min s.image.height source.height)).filter
    fun r => !r.isEmpty

/-- Sends as much of the dirty region as the window allows; whatever does not fit stays dirty. -/
def flush (s : Screen) (graphics : Option Gfx.Pipeline) : Screen × List (List UInt8) :=
  let source := s.source graphics
  let (sent, left, unacked) := sendSome s.unacked (Frame.planBitmaps (s.flushRects source))
  ({ s with dirty := left.flatten.foldl DirtyRegion.add [], unacked := unacked },
    sent.map (Frame.bitmaps source.data source.stride))

end Screen

/-- What comes out of a message of the server, or of input. -/
inductive StageOutput where
  | responseFrame
  | graphicsUpdate (region : InclusiveRectangle)
  | pointerDefault
  | pointerHidden
  | pointerPosition (x y : UInt16)
  | pointerBitmap (hotX hotY w h : UInt16) (rgba : List UInt8)
  /-- The desktop was activated again, with this size. -/
  | deactivateAll (width height : UInt16)
  | other

/-- The loop: the screen, the graphics pipeline if the server was offered one, and what was sent to the
page. -/
structure Running where
  screen : Screen
  graphics : Option Gfx.Pipeline
  sent : List (List UInt8)

namespace Running

def send (s : Running) (message : List UInt8) : Running := { s with sent := s.sent ++ [message] }

def start (width height : UInt16) (graphics : Option Gfx.Pipeline) : Running :=
  ⟨.new width height, graphics, [Frame.desktopSize width height]⟩

/-- The page must see the new size before any pixels of it; everything old is void. -/
def resized (s : Running) (width height : UInt16) : Running :=
  { s with screen := { Screen.new width height with unacked := s.screen.unacked } }.send
    (Frame.desktopSize width height)

def output (s : Running) : StageOutput → Running
  | .graphicsUpdate region => { s with screen := s.screen.markDirty region }
  | .pointerDefault => s.send Frame.pointerDefault
  | .pointerHidden => s.send Frame.pointerHidden
  | .pointerPosition x y => s.send (Frame.pointerPosition x y)
  | .pointerBitmap hotX hotY w h rgba =>
    match Frame.pointerBitmap hotX hotY w h rgba with
    | some message => s.send message
    | none => s
  | .deactivateAll width height => s.resized width height
  | .responseFrame | .other => s

def takeChanges (s : Running) : Running :=
  match s.graphics with
  | none => s
  | some pipeline =>
    let (changes, pipeline) := pipeline.takeChanges
    let s := { s with graphics := some pipeline }
    let s := match changes.resized with
      | some (width, height) =>
        -- The size the page already has: redraw, but don't make it start over.
        if (width, height) = (s.screen.image.width, s.screen.image.height) then
          { s with screen := s.screen.markAllDirty }
        else s.resized width height
      | none => s
    { s with screen := { s.screen with dirty := changes.dirty.foldl DirtyRegion.add s.screen.dirty } }

def outputs (s : Running) (outputs : List StageOutput) : Running := (outputs.foldl output s).takeChanges

/-- What a turn begins with. -/
inductive Turn where
  /-- The page took a message with pixels, or says it did. -/
  | ack
  /-- It is time to send. -/
  | flush
  /-- What the page is told of the clipboard. -/
  | clipboard (json : List UInt8)
  /-- A message of the server, or input: the image and the pipeline after it, and what comes out. -/
  | process (image : Pixels) (pdus : List Gfx.Pdu) (outputs : List StageOutput)

/-- Messages of the graphics channel; none makes it panic. -/
def handleAll (pipeline : Gfx.Pipeline) (pdus : List Gfx.Pdu) : Gfx.Pipeline :=
  pdus.foldl (fun pipeline pdu => (pipeline.act pdu).getD pipeline) pipeline

def step (s : Running) : Turn → Running
  | .ack => { s with screen := { s.screen with unacked := s.screen.unacked - 1 } }.outputs []
  | .flush =>
    if s.screen.canFlush then
      let (screen, messages) := s.screen.flush s.graphics
      { s with screen := screen, sent := s.sent ++ messages }
    else s
  | .clipboard json => (s.send (Frame.clipboard json)).outputs []
  | .process image pdus outputs =>
    { s with
      screen := { s.screen with image := image }
      graphics := s.graphics.map fun pipeline => handleAll pipeline pdus }.outputs outputs

end Running

end UwuRdp
