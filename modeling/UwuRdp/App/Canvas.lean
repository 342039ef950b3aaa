import UwuRdp.Core.Frame

/-!
# The canvas of the page

What the page does with the messages of the core: rectangles are put on the canvas, the desktop's size
and the pointer are set. Pixels are acknowledged message by message; a damaged message is dropped.
-/

namespace UwuRdp

open Lib

namespace Page

/-- A `Uint8Array`: a part of a buffer. -/
structure Uint8Array where
  buffer : List UInt8
  byteOffset : ℕ
  byteLength : ℕ
  fits : byteOffset + byteLength ≤ buffer.length

/-- The bytes a `DataView` of the array reads. -/
def Uint8Array.view (bytes : Uint8Array) : List UInt8 :=
  (bytes.buffer.drop bytes.byteOffset).take bytes.byteLength

/-- `getUint16(offset, true)`; beyond the end it throws. -/
def getUint16 (view : List UInt8) (offset : ℕ) : Option ℕ := (Raster.slice view offset 2).map leNat

/-- A bitmap of pixels, four bytes each. -/
structure Canvas where
  width : ℕ
  height : ℕ
  pixel : ℕ → ℕ → List UInt8

def Canvas.cleared (width height : ℕ) (alpha : UInt8) : Canvas :=
  ⟨width, height, fun _ _ => [0, 0, 0, alpha]⟩

/-- An `ImageData` of `w` by `h` goes where it lies on the canvas. -/
def Canvas.putImageData (canvas : Canvas) (pixels : List UInt8) (w h x y : ℕ) : Canvas :=
  { canvas with
    pixel := fun px py =>
      if x ≤ px ∧ px < x + w ∧ y ≤ py ∧ py < y + h ∧ px < canvas.width ∧ py < canvas.height then
        Raster.cell 4 pixels ((py - y) * w + (px - x))
      else canvas.pixel px py }

/-- `style.cursor` -/
inductive Cursor where
  | default
  | none
  /-- `url(…) x y, default` with the picture of a canvas. -/
  | url (canvas : Canvas) (x y : ℕ)

/-- A pointer bitmap as a CSS cursor; `context` says whether the browser has a canvas for it. -/
def pointerCss (context : Bool) (rgba : List UInt8) (w h hotX hotY : ℕ) : Cursor :=
  if context then
    .url ((Canvas.cleared w h 0).putImageData rgba w h 0 0) (min hotX (w - 1)) (min hotY (h - 1))
  else .default

/-- A `Uint8Array` of its own buffer. -/
def Uint8Array.of (bytes : List UInt8) : Uint8Array := ⟨bytes, 0, bytes.length, Nat.le_of_eq (Nat.zero_add _)⟩

theorem Uint8Array.view_of (l : List UInt8) : (of l).view = l := List.take_length

/-- What the messages change; `acks` has the links acknowledged on, in their order. -/
structure Driver (Link Closed Note : Type) where
  canvas : Canvas
  cursor : Cursor
  lastSize : Option (ℕ × ℕ)
  closed : Option Closed
  notes : List Note
  link : Option Link
  acks : List Link

variable {Link Closed Note : Type}

def Driver.ack (driver : Driver Link Closed Note) : Driver Link Closed Note :=
  { driver with acks := driver.acks ++ driver.link.toList }

def rectAt (view : List UInt8) (offset : ℕ) : Option (ℕ × ℕ × ℕ × ℕ) := do
  let x ← getUint16 view offset
  let y ← getUint16 view (offset + 2)
  let w ← getUint16 view (offset + 4)
  let h ← getUint16 view (offset + 6)
  some (x, y, w, h)

/-- The loop over the rectangles, with where it ends unless it throws. -/
def paintRects (bytes : Uint8Array) : ℕ → ℕ → Canvas → Canvas × Option ℕ
  | 0, offset, canvas => (canvas, some offset)
  | count + 1, offset, canvas =>
    match rectAt bytes.view offset with
    | none => (canvas, none)
    | some (x, y, w, h) =>
      let offset := offset + 8
      let length := w * h * 4
      let canvas :=
        if 0 < w ∧ 0 < h ∧ offset + length ≤ bytes.byteLength then
          canvas.putImageData ((bytes.buffer.drop (bytes.byteOffset + offset)).take length) w h x y
        else canvas
      paintRects bytes count (offset + length) canvas

/-- What the browser does with the texts of the messages that carry one; none throws. -/
structure Browser (Closed Note : Type) where
  context : Bool
  closedOf : List UInt8 → Option Closed
  statusOf : List UInt8 → Option Note

/-- A message is handled by its kind. Whatever throws drops the rest of the message, but pixels are
acknowledged. -/
def Driver.onMessage (browser : Browser Closed Note) (bytes : Uint8Array)
    (driver : Driver Link Closed Note) : Driver Link Closed Note :=
  let view := bytes.view
  match view.head? with
  | some 1 =>
    match getUint16 view 1 with
    | none => driver.ack
    | some count => { driver with canvas := (paintRects bytes count 3 driver.canvas).1 }.ack
  | some 2 =>
    match getUint16 view 1, getUint16 view 3 with
    | some width, some height =>
      if 0 < width ∧ 0 < height then
        { driver with
          canvas := Canvas.cleared width height 255
          lastSize := some (width, height) }
      else driver
    | _, _ => driver
  | some 3 =>
    match rectAt view 1 with
    | some (hotX, hotY, w, h) =>
      if 0 < w ∧ 0 < h ∧ 9 + w * h * 4 ≤ bytes.byteLength then
        { driver with
          cursor := pointerCss browser.context ((view.drop 9).take (w * h * 4)) w h hotX hotY }
      else driver
    | none => driver
  | some 4 => { driver with cursor := .default }
  | some 5 => { driver with cursor := .none }
  | some 6 => driver
  | some 7 =>
    match browser.closedOf (view.drop 1) with
    | some closed => { driver with closed := some closed }
    | none => driver
  | some 8 =>
    match browser.statusOf (view.drop 1) with
    | some note => { driver with notes := driver.notes ++ [note] }
    | none => driver
  | _ => driver

def Driver.onData (browser : Browser Closed Note) (bytes : Uint8Array) (link : Link)
    (driver : Driver Link Closed Note) : Driver Link Closed Note :=
  { driver with link := some link }.onMessage browser bytes

/-! ## What the messages say -/

/-- The pixels of rectangles are those of a framebuffer, as far as the canvas has them. -/
def Canvas.painted (canvas : Canvas) (fb : Frame.Framebuffer) (rects : List Rect) : Canvas :=
  { canvas with
    pixel := fun px py =>
      if px < canvas.width ∧ py < canvas.height ∧ ∃ r ∈ rects, r.Has px py then
        fb.rgb px py ++ [255]
      else canvas.pixel px py }

/-- What the core has to tell the page. Rectangles are planned and lie in the framebuffer. -/
inductive Message where
  | bitmaps (fb : Frame.Framebuffer) (rects message : List Rect)
      (planned : message ∈ Frame.planBitmaps rects) (inside : ∀ r ∈ message, fb.Contains r)
  | desktopSize (width height : UInt16)
  | pointerBitmap (hotX hotY w h : UInt16) (rgba : List UInt8)
  | pointerDefault
  | pointerHidden
  | pointerPosition (x y : UInt16)
  | closed (json : List UInt8)
  | clipboard (json : List UInt8)

namespace Message

def encode : Message → Option (List UInt8)
  | bitmaps fb _ message _ _ => some (Frame.bitmaps fb.data fb.stride message)
  | desktopSize width height => some (Frame.desktopSize width height)
  | pointerBitmap hotX hotY w h rgba => Frame.pointerBitmap hotX hotY w h rgba
  | pointerDefault => some Frame.pointerDefault
  | pointerHidden => some Frame.pointerHidden
  | pointerPosition x y => some (Frame.pointerPosition x y)
  | closed json => some (Frame.closed json)
  | clipboard json => some (Frame.clipboard json)

def kind : Message → UInt8
  | bitmaps .. => Frame.kindBitmaps
  | desktopSize .. => Frame.kindDesktopSize
  | pointerBitmap .. => Frame.kindPointerBitmap
  | pointerDefault => Frame.kindPointerDefault
  | pointerHidden => Frame.kindPointerHidden
  | pointerPosition .. => Frame.kindPointerPosition
  | closed _ => Frame.kindClosed
  | clipboard _ => Frame.kindClipboard

def size : Message → ℕ
  | bitmaps _ _ message _ _ => Frame.bitmapsSize message
  | desktopSize _ _ => 5
  | pointerBitmap _ _ w h _ => 9 + w.toNat * h.toNat * 4
  | pointerDefault => 1
  | pointerHidden => 1
  | pointerPosition _ _ => 5
  | closed json => 1 + json.length
  | clipboard json => 1 + json.length

/-- What the page makes of a message, and no more. Only pixels are acknowledged; a picture without
pixels changes nothing. -/
def shown (browser : Browser Closed Note) (link : Link) (driver : Driver Link Closed Note) :
    Message → Driver Link Closed Note
  | bitmaps fb _ message _ _ =>
    { driver with
      canvas := driver.canvas.painted fb message
      link := some link
      acks := driver.acks ++ [link] }
  | desktopSize width height =>
    if 0 < width ∧ 0 < height then
      { driver with
        canvas := Canvas.cleared width.toNat height.toNat 255
        lastSize := some (width.toNat, height.toNat)
        link := some link }
    else { driver with link := some link }
  | pointerBitmap hotX hotY w h rgba =>
    if 0 < w ∧ 0 < h then
      { driver with
        cursor := pointerCss browser.context rgba w.toNat h.toNat hotX.toNat hotY.toNat
        link := some link }
    else { driver with link := some link }
  | pointerDefault => { driver with cursor := .default, link := some link }
  | pointerHidden => { driver with cursor := .none, link := some link }
  | pointerPosition _ _ => { driver with link := some link }
  | closed json =>
    { driver with closed := (browser.closedOf json).or driver.closed, link := some link }
  | clipboard json =>
    { driver with notes := driver.notes ++ (browser.statusOf json).toList, link := some link }

end Message

/-! ## Reading -/

section Reading

variable {view : List UInt8} {pre rest : List UInt8} {n : UInt16} {offset : ℕ}

theorem getUint16_append (pre rest : List UInt8) (offset : ℕ) :
    getUint16 (pre ++ rest) (pre.length + offset) = getUint16 rest offset := by
  unfold getUint16 Raster.slice
  rw [List.length_append, List.drop_length_add_append]
  congr 1
  by_cases h : offset + 2 ≤ rest.length
  · rw [if_pos h, if_pos (by omega)]
  · rw [if_neg h, if_neg (by omega)]

theorem getUint16_leBytes {m : ℕ} (hm : m < 65536) (rest : List UInt8) :
    getUint16 (leBytes 2 m ++ rest) 0 = some m := by
  unfold getUint16
  rw [Raster.slice_eq_some (by rw [List.length_append, length_leBytes]; omega), List.drop_zero,
    List.take_left' (length_leBytes 2 m), Option.map_some, leNat_leBytes hm]

theorem getUint16_next {m k : ℕ} (rest : List UInt8) :
    getUint16 (leBytes 2 m ++ rest) (k + 2) = getUint16 rest k := by
  have h := getUint16_append (leBytes 2 m) rest k
  rwa [length_leBytes, Nat.add_comm] at h

theorem rectAt_append (pre rest : List UInt8) (a b c d : UInt16) :
    rectAt (pre ++ ([a, b, c, d].flatMap Frame.toLeBytes ++ rest)) pre.length =
      some (a.toNat, b.toNat, c.toNat, d.toNat) := by
  have hread : ∀ k, getUint16 (pre ++ ([a, b, c, d].flatMap Frame.toLeBytes ++ rest)) (pre.length + k) =
      getUint16 (leBytes 2 a.toNat ++ (leBytes 2 b.toNat ++ (leBytes 2 c.toNat ++
        (leBytes 2 d.toNat ++ rest)))) k := fun k => by
    rw [getUint16_append]
    simp only [List.flatMap_cons, List.flatMap_nil, List.append_nil, List.append_assoc, Frame.toLeBytes]
  have hfirst := hread 0
  rw [Nat.add_zero] at hfirst
  unfold rectAt
  rw [hfirst, hread, hread, hread, getUint16_leBytes a.toNat_lt, getUint16_next,
    getUint16_leBytes b.toNat_lt, getUint16_next,
    getUint16_next, getUint16_leBytes c.toNat_lt, getUint16_next, getUint16_next, getUint16_next,
    getUint16_leBytes d.toNat_lt]
  rfl

theorem clamped_eq {bytes : Uint8Array} {length : ℕ} (h : offset + length ≤ bytes.byteLength) :
    (bytes.buffer.drop (bytes.byteOffset + offset)).take length = (bytes.view.drop offset).take length := by
  unfold Uint8Array.view
  rw [List.drop_take, List.drop_drop, List.take_take, Nat.min_eq_left (by omega)]

theorem length_view (bytes : Uint8Array) : bytes.view.length = bytes.byteLength := by
  have hfits := bytes.fits
  unfold Uint8Array.view
  rw [List.length_take, List.length_drop]
  omega

end Reading

/-! ## Painting -/

section Painting

variable {canvas : Canvas} {fb : Frame.Framebuffer} {bytes : Uint8Array} {pre : List UInt8} {r : Rect}
  {rects : List Rect}

theorem painted_nil : canvas.painted fb [] = canvas := by
  unfold Canvas.painted
  congr 1
  funext px py
  rw [if_neg]
  rintro ⟨-, -, r, hr, -⟩
  cases hr

theorem painted_painted : (canvas.painted fb [r]).painted fb rects = canvas.painted fb (r :: rects) := by
  unfold Canvas.painted
  congr 1
  funext px py
  dsimp only
  by_cases hrest : px < canvas.width ∧ py < canvas.height ∧ ∃ r ∈ rects, r.Has px py
  · obtain ⟨hx, hy, r', hr', hhas⟩ := hrest
    rw [if_pos ⟨hx, hy, r', hr', hhas⟩, if_pos ⟨hx, hy, r', List.mem_cons_of_mem _ hr', hhas⟩]
  · rw [if_neg hrest]
    by_cases hfirst : px < canvas.width ∧ py < canvas.height ∧ r.Has px py
    · obtain ⟨hx, hy, hhas⟩ := hfirst
      rw [if_pos ⟨hx, hy, r, List.mem_singleton_self r, hhas⟩, if_pos ⟨hx, hy, r, List.mem_cons_self, hhas⟩]
    · rw [if_neg, if_neg]
      · rintro ⟨hx, hy, r', hr', hhas⟩
        rcases List.mem_cons.mp hr' with rfl | hr'
        · exact hfirst ⟨hx, hy, hhas⟩
        · exact hrest ⟨hx, hy, r', hr', hhas⟩
      · rintro ⟨hx, hy, r', hr', hhas⟩
        rw [List.mem_singleton.mp hr'] at hhas
        exact hfirst ⟨hx, hy, hhas⟩

theorem putImageData_eq (hin : fb.Contains r) : canvas.putImageData
    ((List.range r.h.toNat).flatMap (Frame.rowBytes fb.data fb.stride r)) r.w.toNat r.h.toNat r.x.toNat r.y.toNat =
    canvas.painted fb [r] := by
  unfold Canvas.putImageData Canvas.painted
  congr 1
  funext px py
  by_cases hhere : px < canvas.width ∧ py < canvas.height ∧ r.Has px py
  · obtain ⟨hx, hy, hhas⟩ := hhere
    obtain ⟨hleft, hright, htop, hbottom⟩ := Rect.has_iff.mp hhas
    rw [if_pos ⟨hleft, hright, htop, hbottom, hx, hy⟩,
      if_pos ⟨hx, hy, r, List.mem_singleton_self r, hhas⟩, Frame.cell_pixels hin (by omega) (by omega),
      Nat.add_sub_cancel' hleft, Nat.add_sub_cancel' htop]
  · rw [if_neg, if_neg]
    · rintro ⟨hx, hy, r', hr', hhas⟩
      rw [List.mem_singleton.mp hr'] at hhas
      exact hhere ⟨hx, hy, hhas⟩
    · rintro ⟨hleft, hright, htop, hbottom, hx, hy⟩
      exact hhere ⟨hx, hy, Rect.has_iff.mpr ⟨hleft, hright, htop, hbottom⟩⟩

theorem paintRects_eq (hview : bytes.view = pre ++ rects.flatMap (Frame.rectBytes fb.data fb.stride))
    (hrects : ∀ r ∈ rects, r.isEmpty = false ∧ fb.Contains r) : paintRects bytes rects.length pre.length canvas =
    (canvas.painted fb rects, some bytes.byteLength) := by
  have hlength := length_view bytes
  induction rects generalizing pre canvas with
  | nil =>
    rw [hview, List.flatMap_nil, List.append_nil] at hlength
    rw [List.length_nil, paintRects, painted_nil, hlength]
  | cons r rects ih =>
    obtain ⟨hfull, hin⟩ := hrects r List.mem_cons_self
    have hsize : r.w.toNat ≠ 0 ∧ r.h.toNat ≠ 0 := by
      rw [← not_or, ← Rect.isEmpty_iff, hfull]
      exact Bool.false_ne_true
    have hpixels : ((List.range r.h.toNat).flatMap (Frame.rowBytes fb.data fb.stride r)).length =
        r.w.toNat * r.h.toNat * 4 := by
      rw [Raster.length_rows fun k _ => Frame.length_rowBytes, Nat.mul_left_comm, Nat.mul_assoc]
    have hheader : ([r.x, r.y, r.w, r.h].flatMap Frame.toLeBytes).length = 8 := rfl
    -- The message in parts: before the rectangle, its header, its pixels, and the other rectangles.
    have hparts : bytes.view = pre ++ ([r.x, r.y, r.w, r.h].flatMap Frame.toLeBytes ++
        ((List.range r.h.toNat).flatMap (Frame.rowBytes fb.data fb.stride r) ++
          rects.flatMap (Frame.rectBytes fb.data fb.stride))) := by
      rw [hview, List.flatMap_cons, Frame.rectBytes, List.append_assoc]
    have hfits : pre.length + 8 + r.w.toNat * r.h.toNat * 4 ≤ bytes.byteLength := by
      rw [← hlength, hparts, List.length_append, List.length_append, List.length_append, hpixels, hheader]
      omega
    have hread : (bytes.view.drop (pre.length + 8)).take (r.w.toNat * r.h.toNat * 4) =
        (List.range r.h.toNat).flatMap (Frame.rowBytes fb.data fb.stride r) := by
      rw [hparts, List.drop_length_add_append, List.drop_left' hheader, List.take_left' hpixels]
    have hnext : bytes.view = (pre ++ Frame.rectBytes fb.data fb.stride r) ++
        rects.flatMap (Frame.rectBytes fb.data fb.stride) := by
      rw [hview, List.flatMap_cons, List.append_assoc]
    have hstart : (pre ++ Frame.rectBytes fb.data fb.stride r).length =
        pre.length + 8 + r.w.toNat * r.h.toNat * 4 := by
      rw [List.length_append, Frame.length_rectBytes, Nat.add_assoc]
      rfl
    have hat : rectAt bytes.view pre.length = some (r.x.toNat, r.y.toNat, r.w.toNat, r.h.toNat) := by
      rw [hparts]
      exact rectAt_append _ _ _ _ _ _
    rw [List.length_cons, paintRects, hat]
    dsimp only
    rw [if_pos ⟨Nat.pos_of_ne_zero hsize.1, Nat.pos_of_ne_zero hsize.2, hfits⟩, clamped_eq hfits, hread,
      putImageData_eq hin, ← hstart,
      ih hnext (fun r' hr' => hrects r' (List.mem_cons_of_mem _ hr')),
      painted_painted]

end Painting

/-! ## What the page makes of a message -/

section Decoding

variable {browser : Browser Closed Note} {bytes : Uint8Array} {driver : Driver Link Closed Note} {link : Link}

theorem onData_bitmaps {fb : Frame.Framebuffer} {rects message : List Rect}
    (planned : message ∈ Frame.planBitmaps rects) (inside : ∀ r ∈ message, fb.Contains r)
    (h : bytes.view = Frame.bitmaps fb.data fb.stride message) :
    bytes.byteLength = Frame.bitmapsSize message ∧
      (∃ count, getUint16 bytes.view 1 = some count ∧
        (paintRects bytes count 3 driver.canvas).2 = some bytes.byteLength) ∧
      driver.onData browser bytes link =
        (Message.bitmaps fb rects message planned inside).shown browser link driver := by
  obtain ⟨-, hcount, -, hfull⟩ := Frame.mem_planBitmaps planned
  have hsize : bytes.byteLength = Frame.bitmapsSize message := by
    rw [← length_view, h, Frame.length_bitmaps hcount]
  rw [Frame.bitmaps_eq hcount] at h
  have hread : getUint16 bytes.view 1 = some message.length := by
    rw [h]
    exact (getUint16_append [Frame.kindBitmaps] _ 0).trans (getUint16_leBytes (Nat.lt_succ_of_le hcount) _)
  have hparts : bytes.view = (Frame.kindBitmaps :: leBytes 2 message.length) ++
      message.flatMap (Frame.rectBytes fb.data fb.stride) := h
  have hpaint : ∀ canvas : Canvas, paintRects bytes message.length 3 canvas =
      (canvas.painted fb message, some bytes.byteLength) := fun canvas =>
    paintRects_eq hparts fun r hr => ⟨hfull r hr, inside r hr⟩
  refine ⟨hsize, ⟨message.length, hread, by rw [hpaint]⟩, ?_⟩
  have hhead : bytes.view.head? = some 1 := by
    rw [h]
    rfl
  unfold Driver.onData Driver.onMessage
  dsimp only
  rw [hhead, hread]
  dsimp only
  rw [hpaint]
  rfl

theorem onData_desktopSize {width height : UInt16} (h : bytes.view = Frame.desktopSize width height) :
    driver.onData browser bytes link = (Message.desktopSize width height).shown browser link driver := by
  have hwidth : getUint16 bytes.view 1 = some width.toNat := by
    rw [h]
    exact (getUint16_append [Frame.kindDesktopSize] _ 0).trans (getUint16_leBytes width.toNat_lt _)
  have hheight : getUint16 bytes.view 3 = some height.toNat := by
    rw [h]
    refine (getUint16_append [Frame.kindDesktopSize] _ 2).trans ((getUint16_next _).trans ?_)
    have hlast := getUint16_leBytes height.toNat_lt []
    rwa [List.append_nil] at hlast
  have hhead : bytes.view.head? = some 2 := by
    rw [h]
    rfl
  unfold Driver.onData Driver.onMessage Message.shown
  dsimp only
  rw [hhead, hwidth, hheight]
  rfl

theorem onData_pointerBitmap {hotX hotY w h : UInt16} {rgba : List UInt8}
    (hsent : Frame.pointerBitmap hotX hotY w h rgba = some bytes.view) :
    bytes.byteLength = 9 + w.toNat * h.toNat * 4 ∧ bytes.view.head? = some 3 ∧
      driver.onData browser bytes link =
        (Message.pointerBitmap hotX hotY w h rgba).shown browser link driver := by
  unfold Frame.pointerBitmap at hsent
  split at hsent
  · next hlen =>
    have hview := (Option.some.inj hsent).symm
    have hheader : (Frame.kindPointerBitmap :: [hotX, hotY, w, h].flatMap Frame.toLeBytes).length = 9 := rfl
    have hlength : bytes.byteLength = 9 + w.toNat * h.toNat * 4 := by
      rw [← length_view, hview, ← List.cons_append, List.length_append, hheader, hlen]
    have hhead : bytes.view.head? = some 3 := by
      rw [hview]
      rfl
    have hat : rectAt bytes.view 1 = some (hotX.toNat, hotY.toNat, w.toNat, h.toNat) := by
      rw [hview]
      exact rectAt_append [Frame.kindPointerBitmap] _ _ _ _ _
    have hpixels : (bytes.view.drop 9).take (w.toNat * h.toNat * 4) = rgba := by
      rw [hview, ← List.cons_append, List.drop_left' hheader, ← hlen, List.take_length]
    refine ⟨hlength, hhead, ?_⟩
    unfold Driver.onData Driver.onMessage Message.shown
    dsimp only
    rw [hhead, hat]
    dsimp only
    rw [hpixels, hlength]
    by_cases hsize : 0 < w ∧ 0 < h
    · rw [if_pos hsize, if_pos ⟨UInt16.lt_iff_toNat_lt.mp hsize.1, UInt16.lt_iff_toNat_lt.mp hsize.2, le_rfl⟩]
      rfl
    · rw [if_neg hsize, if_neg fun hpos => hsize
        ⟨UInt16.lt_iff_toNat_lt.mpr hpos.1, UInt16.lt_iff_toNat_lt.mpr hpos.2.1⟩]
      rfl
  · cases hsent

theorem onData_text {kind : UInt8} {json : List UInt8} (h : bytes.view = kind :: json) :
    bytes.byteLength = 1 + json.length ∧ bytes.view.head? = some kind ∧ bytes.view.drop 1 = json := by
  refine ⟨?_, by rw [h]; rfl, by rw [h]; rfl⟩
  rw [← length_view, h, List.length_cons, Nat.add_comm]

/-- The page makes of every message what the core says with it, and reads it to its end. -/
theorem decodes (browser : Browser Closed Note) (driver : Driver Link Closed Note) (link : Link)
    (message : Message) (bytes : Uint8Array) (h : message.encode = some bytes.view) :
    bytes.byteLength = message.size ∧ bytes.view.head? = some message.kind ∧
      (message.kind = Frame.kindBitmaps → ∃ count, getUint16 bytes.view 1 = some count ∧
        (paintRects bytes count 3 driver.canvas).2 = some bytes.byteLength) ∧
      driver.onData browser bytes link = message.shown browser link driver := by
  have hlength := length_view bytes
  cases message with
  | bitmaps fb rects message planned inside =>
    have hview := (Option.some.inj h).symm
    obtain ⟨hsize, hend, hshown⟩ := onData_bitmaps planned inside hview
    refine ⟨hsize, ?_, fun _ => hend, hshown⟩
    rw [hview]
    rfl
  | desktopSize width height =>
    have hview := (Option.some.inj h).symm
    refine ⟨?_, ?_, fun hkind => ?_, onData_desktopSize hview⟩
    · rw [← hlength, hview]
      rfl
    · rw [hview]
      rfl
    · cases hkind
  | pointerBitmap hotX hotY w h rgba =>
    obtain ⟨hsize, hhead, hshown⟩ := onData_pointerBitmap h
    refine ⟨hsize, hhead, fun hkind => ?_, hshown⟩
    cases hkind
  | pointerDefault | pointerHidden | pointerPosition =>
    obtain ⟨hsize, hhead, -⟩ := onData_text (Option.some.inj h).symm
    refine ⟨hsize, hhead, fun hkind => ?_, ?_⟩
    · cases hkind
    unfold Driver.onData Driver.onMessage
    dsimp only
    rw [hhead]
    rfl
  | closed json =>
    obtain ⟨hsize, hhead, hjson⟩ := onData_text (Option.some.inj h).symm
    refine ⟨hsize, hhead, fun hkind => ?_, ?_⟩
    · cases hkind
    unfold Driver.onData Driver.onMessage Message.shown
    dsimp only
    rw [hhead]
    dsimp only [Frame.kindClosed]
    rw [hjson]
    cases browser.closedOf json with
    | none => rfl
    | some closed => rfl
  | clipboard json =>
    obtain ⟨hsize, hhead, hjson⟩ := onData_text (Option.some.inj h).symm
    refine ⟨hsize, hhead, fun hkind => ?_, ?_⟩
    · cases hkind
    unfold Driver.onData Driver.onMessage Message.shown
    dsimp only
    rw [hhead]
    dsimp only [Frame.kindClipboard]
    rw [hjson]
    cases browser.statusOf json with
    | none =>
      dsimp only
      rw [Option.toList_none, List.append_nil]
      rfl
    | some note => rfl

def onePixel : Frame.Framebuffer := ⟨[1, 2, 3, 0], 4, 1, 1, by decide⟩

theorem onePixel_planned : [⟨0, 0, 1, 1⟩] ∈ Frame.planBitmaps [⟨0, 0, 1, 1⟩] := by decide +kernel

theorem onePixel_inside : ∀ r ∈ [(⟨0, 0, 1, 1⟩ : Rect)], onePixel.Contains r := by
  intro r hr
  rw [List.mem_singleton.mp hr]
  exact ⟨by decide, by decide⟩

def blank : Driver ℕ Unit Unit := ⟨Canvas.cleared 1 1 255, .default, none, none, [], none, []⟩

theorem decodes_onePixel :
    let bytes := Uint8Array.of (Frame.bitmaps onePixel.data onePixel.stride [⟨0, 0, 1, 1⟩])
    let driver := blank.onData ⟨true, fun _ => none, fun _ => none⟩ bytes 7
    bytes.byteLength = 15 ∧ driver.canvas.pixel 0 0 = [1, 2, 3, 255] ∧ driver.acks = [7] := by
  obtain ⟨hlength, -, -, hshown⟩ := decodes ⟨true, fun _ => none, fun _ => none⟩ blank 7
    (.bitmaps onePixel [⟨0, 0, 1, 1⟩] [⟨0, 0, 1, 1⟩] onePixel_planned onePixel_inside)
    (Uint8Array.of (Frame.bitmaps onePixel.data onePixel.stride [⟨0, 0, 1, 1⟩]))
    (congrArg some (Uint8Array.view_of _).symm)
  refine ⟨hlength, ?_, ?_⟩
  · rw [hshown]
    rfl
  · rw [hshown]
    rfl

/-- The desktop's size is not acknowledged, and one without pixels is not taken. -/
theorem empty_desktop_ignored :
    let bytes := Uint8Array.of (Frame.desktopSize 0 600)
    let driver := blank.onData ⟨true, fun _ => none, fun _ => none⟩ bytes 7
    driver.acks = [] ∧ driver.lastSize = none ∧ driver.canvas.width = 1 := by
  decide +kernel

end Decoding

end Page

end UwuRdp
