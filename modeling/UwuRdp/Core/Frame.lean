import UwuRdp.Core.Dirty
import UwuRdp.Lib.Bytes
import UwuRdp.Lib.Raster

/-!
# The binary messages the page receives

A message starts with a byte for its kind; all integers are little-endian. What changed on the desktop
goes out as rectangles of RGBA pixels, cut and grouped so that no message gets too big.
-/

namespace UwuRdp

open Lib

namespace Frame

def kindBitmaps : UInt8 := 1

def kindDesktopSize : UInt8 := 2

def kindPointerBitmap : UInt8 := 3

def kindPointerDefault : UInt8 := 4

def kindPointerHidden : UInt8 := 5

def kindPointerPosition : UInt8 := 6

def kindClosed : UInt8 := 7

def kindClipboard : UInt8 := 8

def bitmapsHeader : ℕ := 1 + 2

def rectHeader : ℕ := 4 * 2

/-- Upper bound on one `BITMAPS` message. -/
def maxBitmapsBytes : ℕ := 32 * 1024 * 1024

def maxRectsPerMessage : ℕ := 65535

/-- `u16::to_le_bytes` -/
def toLeBytes (n : UInt16) : List UInt8 := leBytes 2 n.toNat

def desktopSize (width height : UInt16) : List UInt8 :=
  kindDesktopSize :: (toLeBytes width ++ toLeBytes height)

def pointerDefault : List UInt8 := [kindPointerDefault]

def pointerHidden : List UInt8 := [kindPointerHidden]

def pointerPosition (x y : UInt16) : List UInt8 := kindPointerPosition :: (toLeBytes x ++ toLeBytes y)

/-- A pointer image; nothing if the server's pixels are not as many as it says. -/
def pointerBitmap (hotX hotY w h : UInt16) (rgba : List UInt8) : Option (List UInt8) :=
  if rgba.length = w.toNat * h.toNat * 4 then
    some (kindPointerBitmap :: ([hotX, hotY, w, h].flatMap toLeBytes ++ rgba))
  else none

/-- Why the session ended, with what `serde_json` writes for it. -/
def closed (json : List UInt8) : List UInt8 := kindClosed :: json

/-- What the clipboard has to tell the page, with what `serde_json` writes for it. -/
def clipboard (json : List UInt8) : List UInt8 := kindClipboard :: json

/-! ## Which rectangles go into a message -/

def rectSize (r : Rect) : ℕ := rectHeader + r.w.toNat * r.h.toNat * 4

/-- Bytes a `BITMAPS` message with these rectangles takes. -/
def bitmapsSize (rects : List Rect) : ℕ := bitmapsHeader + (rects.map rectSize).sum

/-- How many rows of a rectangle go into one message; at least one. -/
def maxRows (rect : Rect) : UInt16 :=
  let rows := (maxBitmapsBytes - bitmapsHeader - rectHeader) / (rect.w.toNat * 4)
  UInt16.ofNat (min (max rows 1) 65535)

/-- The strips of a rectangle from `y` down; each takes a row or more, and `fuel` counts the rows. -/
def strips (rect : Rect) (maxRows : UInt16) : ℕ → UInt16 → UInt16 → List Rect
  | 0, _, _ => []
  | fuel + 1, y, remaining =>
    if 0 < remaining then
      let h := min remaining maxRows
      -- `y.saturating_add(h)`
      let below := UInt16.ofNat (min (y.toNat + h.toNat) 65535)
      ⟨rect.x, y, rect.w, h⟩ :: strips rect maxRows fuel below (remaining - h)
    else []

def stripsOf (rect : Rect) : List Rect := strips rect (maxRows rect) rect.h.toNat rect.y rect.h

def pieces (rects : List Rect) : List Rect :=
  (rects.filter fun r => !r.isEmpty).flatMap stripsOf

/-- Group pieces in their order, as many in a message as fit. -/
def group (current : List Rect) (currentSize : ℕ) : List Rect → List (List Rect)
  | [] => if current.isEmpty then [] else [current]
  | piece :: rest =>
    if !current.isEmpty && (maxBitmapsBytes < currentSize + rectSize piece ∨
        maxRectsPerMessage ≤ current.length) then
      current :: group [piece] (bitmapsHeader + rectSize piece) rest
    else group (current ++ [piece]) (currentSize + rectSize piece) rest

def planBitmaps (rects : List Rect) : List (List Rect) := group [] bitmapsHeader (pieces rects)

/-! ## The pixels -/

def forceAlpha : List UInt8 → List UInt8
  | r :: g :: b :: _ :: rest => r :: g :: b :: 0xff :: forceAlpha rest
  | rest => rest

/-- A row of a rectangle, black where the framebuffer has none. -/
def rowBytes (framebuffer : List UInt8) (stride : ℕ) (rect : Rect) (row : ℕ) : List UInt8 :=
  let start := (rect.y.toNat + row) * stride + rect.x.toNat * 4
  let bytes := rect.w.toNat * 4
  forceAlpha ((Raster.slice framebuffer start bytes).getD (List.replicate bytes 0))

def rectBytes (framebuffer : List UInt8) (stride : ℕ) (rect : Rect) : List UInt8 :=
  [rect.x, rect.y, rect.w, rect.h].flatMap toLeBytes ++
    (List.range rect.h.toNat).flatMap (rowBytes framebuffer stride rect)

/-- One `BITMAPS` message from a framebuffer with `stride` bytes a row. -/
def bitmaps (framebuffer : List UInt8) (stride : ℕ) (rects : List Rect) : List UInt8 :=
  let count := min rects.length 65535
  kindBitmaps :: (leBytes 2 count ++ (rects.take count).flatMap (rectBytes framebuffer stride))

/-- Pixels in rows, four bytes each, with every row of the picture there. -/
structure Framebuffer where
  data : List UInt8
  stride : ℕ
  width : ℕ
  height : ℕ
  fits : ∀ y < height, y * stride + width * 4 ≤ data.length

def Framebuffer.rgb (fb : Framebuffer) (px py : ℕ) : List UInt8 :=
  (fb.data.drop (py * fb.stride + px * 4)).take 3

def Framebuffer.Contains (fb : Framebuffer) (r : Rect) : Prop :=
  r.right ≤ fb.width ∧ r.bottom ≤ fb.height

/-! ## What is planned -/

section Plan

variable {rects message : List Rect} {rect piece : Rect} {px py fuel : ℕ} {y remaining rows : UInt16}

theorem maxRows_pos : 0 < (maxRows rect).toNat := by
  unfold maxRows
  simp only [UInt16.toNat_ofNat']
  omega

/-- The rows a strip takes. -/
structure StripRows (y remaining rows : UInt16) : Prop where
  pos : 0 < (min remaining rows).toNat
  le : (min remaining rows).toNat ≤ remaining.toNat
  left : (remaining - min remaining rows).toNat = remaining.toNat - (min remaining rows).toNat

theorem stripRows (hrows : 0 < rows.toNat) (hpos : 0 < remaining) : StripRows y remaining rows := by
  have hpos' : 0 < remaining.toNat := UInt16.lt_iff_toNat_lt.mp hpos
  have hmin : (min remaining rows).toNat = min remaining.toNat rows.toNat := Rect.toNat_min _ _
  have hle : min remaining rows ≤ remaining := by
    rw [UInt16.le_iff_toNat_le]
    omega
  exact ⟨by omega, by omega, UInt16.toNat_sub_of_le _ _ hle⟩

theorem toNat_below {h : UInt16} (hle : y.toNat + h.toNat ≤ 65535) :
    (UInt16.ofNat (min (y.toNat + h.toNat) 65535)).toNat = y.toNat + h.toNat := by
  rw [UInt16.toNat_ofNat']
  omega

theorem mem_strips (hw : rect.w.toNat ≠ 0) (hrows : 0 < rows.toNat) (h : piece ∈ strips rect rows fuel y remaining) :
    piece.isEmpty = false ∧ piece.x = rect.x ∧ piece.w = rect.w := by
  induction fuel generalizing y remaining with
  | zero => cases h
  | succ fuel ih =>
    unfold strips at h
    split at h
    · next hpos =>
      rcases List.mem_cons.mp h with rfl | hrest
      · refine ⟨Bool.eq_false_iff.mpr fun hempty => ?_, rfl, rfl⟩
        have htaken := (stripRows (y := y) hrows hpos).pos
        rw [Rect.isEmpty_iff] at hempty
        dsimp only at hempty
        omega
      · exact ih hrest
    · cases h

theorem rectSize_strip (hw : rect.w.toNat ≠ 0) (h : piece ∈ strips rect (maxRows rect) fuel y remaining) :
    bitmapsHeader + rectSize piece ≤ maxBitmapsBytes := by
  induction fuel generalizing y remaining with
  | zero => cases h
  | succ fuel ih =>
    unfold strips at h
    split at h
    · rcases List.mem_cons.mp h with rfl | hrest
      · have hwidth : rect.w.toNat < 65536 := rect.w.toNat_lt
        have hmin : (min remaining (maxRows rect)).toNat = min remaining.toNat (maxRows rect).toNat :=
          Rect.toNat_min _ _
        -- A row is never too big, so the maximum with one does not matter.
        have hrow : 1 ≤ (maxBitmapsBytes - bitmapsHeader - rectHeader) / (rect.w.toNat * 4) := by
          rw [Nat.le_div_iff_mul_le (by omega)]
          unfold maxBitmapsBytes bitmapsHeader rectHeader
          omega
        have hrows : (maxRows rect).toNat ≤ (maxBitmapsBytes - bitmapsHeader - rectHeader) / (rect.w.toNat * 4) := by
          unfold maxRows
          simp only [UInt16.toNat_ofNat']
          omega
        have hfits : (min remaining (maxRows rect)).toNat * (rect.w.toNat * 4) ≤
            maxBitmapsBytes - bitmapsHeader - rectHeader := by
          rw [hmin, ← Nat.le_div_iff_mul_le (by omega)]
          exact (Nat.min_le_right _ _).trans hrows
        have hbytes : rect.w.toNat * (min remaining (maxRows rect)).toNat * 4 =
            (min remaining (maxRows rect)).toNat * (rect.w.toNat * 4) := by ring
        show bitmapsHeader + (rectHeader + rect.w.toNat * (min remaining (maxRows rect)).toNat * 4) ≤ _
        rw [hbytes]
        unfold maxBitmapsBytes bitmapsHeader rectHeader at *
        omega
      · exact ih hrest
    · cases h

theorem has_strips (hrows : 0 < rows.toNat) (hfuel : remaining.toNat ≤ fuel)
    (hy : y.toNat + remaining.toNat ≤ 65535) :
    (∃ piece ∈ strips rect rows fuel y remaining, piece.Has px py) ↔
      rect.x.toNat ≤ px ∧ px < rect.right ∧ y.toNat ≤ py ∧ py < y.toNat + remaining.toNat := by
  induction fuel generalizing y remaining with
  | zero =>
    constructor
    · rintro ⟨piece, hmem, -⟩
      cases hmem
    · rintro ⟨-, -, hlow, hhigh⟩
      omega
  | succ fuel ih =>
    unfold strips
    split
    · next hpos =>
      obtain ⟨htaken, hle, hleft⟩ := stripRows (y := y) hrows hpos
      have hbelow := toNat_below (y := y) (h := min remaining rows) (by omega)
      rw [List.exists_mem_cons_iff, ih (by omega) (by omega), hbelow, hleft]
      show (rect.x.toNat ≤ px ∧ px < rect.right ∧ y.toNat ≤ py ∧ py < y.toNat + (min remaining rows).toNat) ∨ _ ↔ _
      omega
    · next hzero =>
      have hzero' : ¬0 < remaining.toNat := fun h => hzero (UInt16.lt_iff_toNat_lt.mpr h)
      constructor
      · rintro ⟨piece, hmem, -⟩
        cases hmem
      · rintro ⟨-, -, hlow, hhigh⟩
        omega

theorem mem_pieces (h : piece ∈ pieces rects) :
    piece.isEmpty = false ∧ bitmapsHeader + rectSize piece ≤ maxBitmapsBytes := by
  obtain ⟨rect, hrect, hpiece⟩ := List.mem_flatMap.mp h
  have hfull := (List.mem_filter.mp hrect).2
  have hw : rect.w.toNat ≠ 0 := fun hw => by
    rw [Rect.isEmpty_iff.mpr (Or.inl hw)] at hfull
    cases hfull
  exact ⟨(mem_strips hw maxRows_pos hpiece).1, rectSize_strip hw hpiece⟩

theorem has_pieces (hrects : ∀ r ∈ rects, r.bottom ≤ 65535) :
    (∃ piece ∈ pieces rects, piece.Has px py) ↔ ∃ r ∈ rects, r.Has px py := by
  have hstrips : ∀ r ∈ rects, (∃ piece ∈ stripsOf r, piece.Has px py) ↔ r.Has px py := fun r hr =>
    has_strips maxRows_pos le_rfl (hrects r hr)
  constructor
  · rintro ⟨piece, hpiece, hhas⟩
    obtain ⟨r, hr, hstrip⟩ := List.mem_flatMap.mp hpiece
    have hmem := (List.mem_filter.mp hr).1
    exact ⟨r, hmem, (hstrips r hmem).mp ⟨piece, hstrip, hhas⟩⟩
  · rintro ⟨r, hr, hhas⟩
    obtain ⟨piece, hstrip, hpiece⟩ := (hstrips r hr).mpr hhas
    refine ⟨piece, List.mem_flatMap.mpr ⟨r, List.mem_filter.mpr ⟨hr, ?_⟩, hstrip⟩, hpiece⟩
    rw [hhas.not_empty]
    rfl

theorem flatten_group (current : List Rect) (size : ℕ) (rest : List Rect) :
    (group current size rest).flatten = current ++ rest := by
  fun_induction group current size rest with
  | case1 current size hempty =>
    rw [List.isEmpty_iff.mp hempty]
    rfl
  | case2 current size hfull => rw [List.flatten_singleton, List.append_nil]
  | case3 current size piece rest hnew ih =>
    rw [List.flatten_cons, ih]
    rfl
  | case4 current size piece rest hnew ih => rw [ih, List.append_assoc, List.singleton_append]

theorem bitmapsSize_append (message : List Rect) (piece : Rect) :
    bitmapsSize (message ++ [piece]) = bitmapsSize message + rectSize piece := by
  unfold bitmapsSize
  rw [List.map_append, List.sum_append, List.map_singleton, List.sum_singleton, Nat.add_assoc]

theorem mem_group {current : List Rect} {size : ℕ} {rest : List Rect} (hsize : size = bitmapsSize current)
    (hfit : size ≤ maxBitmapsBytes) (hlen : current.length ≤ maxRectsPerMessage)
    (hrest : ∀ piece ∈ rest, bitmapsHeader + rectSize piece ≤ maxBitmapsBytes)
    (h : message ∈ group current size rest) :
    message ≠ [] ∧ message.length ≤ maxRectsPerMessage ∧ bitmapsSize message ≤ maxBitmapsBytes := by
  fun_induction group current size rest with
  | case1 current size hempty => cases h
  | case2 current size hfull =>
    rw [List.mem_singleton.mp h]
    exact ⟨fun hnil => hfull (List.isEmpty_iff.mpr hnil), hlen, hsize ▸ hfit⟩
  | case3 current size piece rest hnew ih =>
    rcases List.mem_cons.mp h with rfl | hmem
    · rw [Bool.and_eq_true] at hnew
      refine ⟨fun hnil => ?_, hlen, hsize ▸ hfit⟩
      rw [hnil] at hnew
      cases hnew.1
    · refine ih ?_ (hrest piece List.mem_cons_self) ?_ (fun p hp => hrest p (List.mem_cons_of_mem _ hp)) hmem
      · exact (bitmapsSize_append [] piece).symm
      · show 1 ≤ maxRectsPerMessage
        decide
  | case4 current size piece rest hnew ih =>
    have hpiece := hrest piece List.mem_cons_self
    have happend := bitmapsSize_append current piece
    rw [← hsize] at happend
    by_cases hempty : current.isEmpty
    · have hnil := List.isEmpty_iff.mp hempty
      rw [hnil] at hsize
      refine ih happend.symm ?_ ?_ (fun p hp => hrest p (List.mem_cons_of_mem _ hp)) h
      · rw [hsize]
        exact hpiece
      · rw [hnil]
        show 1 ≤ maxRectsPerMessage
        decide
    · rw [Bool.and_eq_true, decide_eq_true_eq] at hnew
      have hroom : ¬(maxBitmapsBytes < size + rectSize piece ∨ maxRectsPerMessage ≤ current.length) :=
        fun hfull => hnew ⟨by rw [Bool.eq_false_iff.mpr hempty]; rfl, hfull⟩
      refine ih happend.symm (by omega) ?_ (fun p hp => hrest p (List.mem_cons_of_mem _ hp)) h
      rw [List.length_append, List.length_singleton]
      omega

theorem mem_planBitmaps (h : message ∈ planBitmaps rects) : message ≠ [] ∧ message.length ≤ maxRectsPerMessage ∧
    bitmapsSize message ≤ maxBitmapsBytes ∧ ∀ r ∈ message, r.isEmpty = false := by
  obtain ⟨hne, hlen, hsize⟩ := mem_group rfl (by decide) (Nat.zero_le _) (fun piece hpiece => (mem_pieces hpiece).2) h
  refine ⟨hne, hlen, hsize, fun r hr => (mem_pieces (show r ∈ pieces rects from ?_)).1⟩
  have hflat := flatten_group [] bitmapsHeader (pieces rects)
  rw [List.nil_append] at hflat
  rw [← hflat]
  exact List.mem_flatten.mpr ⟨message, h, hr⟩

theorem has_planBitmaps (hrects : ∀ r ∈ rects, r.bottom ≤ 65535) :
    (∃ message ∈ planBitmaps rects, ∃ r ∈ message, r.Has px py) ↔ ∃ r ∈ rects, r.Has px py := by
  rw [← has_pieces hrects, ← List.nil_append (pieces rects), ← flatten_group [] bitmapsHeader (pieces rects)]
  constructor
  · rintro ⟨message, hmessage, r, hr, hhas⟩
    exact ⟨r, List.mem_flatten.mpr ⟨message, hmessage, hr⟩, hhas⟩
  · rintro ⟨r, hr, hhas⟩
    obtain ⟨message, hmessage, hr⟩ := List.mem_flatten.mp hr
    exact ⟨message, hmessage, r, hr, hhas⟩

end Plan

/-! ## What a message says -/

section Encode

variable {fb : Framebuffer} {framebuffer bytes : List UInt8} {stride i row px : ℕ} {r : Rect}
  {rects : List Rect}

@[simp] theorem length_forceAlpha : (forceAlpha bytes).length = bytes.length := by
  fun_induction forceAlpha bytes with
  | case1 r g b a rest ih => simp only [List.length_cons, ih]
  | case2 rest hshort => rfl

theorem cell_forceAlpha (h : (i + 1) * 4 ≤ bytes.length) :
    Raster.cell 4 (forceAlpha bytes) i = (bytes.drop (i * 4)).take 3 ++ [0xff] := by
  fun_induction forceAlpha bytes generalizing i with
  | case1 r g b a rest ih =>
    cases i with
    | zero => rfl
    | succ i =>
      have hrest : (i + 1) * 4 ≤ rest.length := by
        simp only [List.length_cons] at h
        omega
      have hstep : (i + 1) * 4 = i * 4 + 4 := by omega
      unfold Raster.cell
      rw [hstep]
      exact ih hrest
  | case2 rest hshort =>
    match rest, hshort, h with
    | [], _, h => cases h
    | [_], _, h => exact absurd h (by simp only [List.length_cons, List.length_nil]; omega)
    | [_, _], _, h => exact absurd h (by simp only [List.length_cons, List.length_nil]; omega)
    | [_, _, _], _, h => exact absurd h (by simp only [List.length_cons, List.length_nil]; omega)
    | r :: g :: b :: a :: rest, hshort, _ => exact absurd rfl (hshort r g b a rest)

@[simp] theorem length_rowBytes : (rowBytes framebuffer stride r row).length = r.w.toNat * 4 := by
  unfold rowBytes
  rw [length_forceAlpha]
  cases hslice : Raster.slice framebuffer ((r.y.toNat + row) * stride + r.x.toNat * 4) (r.w.toNat * 4) with
  | none => exact List.length_replicate
  | some src => exact Raster.length_of_slice hslice

theorem length_rectBytes : (rectBytes framebuffer stride r).length = rectSize r := by
  unfold rectBytes rectSize
  rw [List.length_append, Raster.length_rows fun k _ => length_rowBytes, Nat.mul_left_comm, Nat.mul_assoc]
  rfl

theorem length_rects : (rects.flatMap (rectBytes framebuffer stride)).length = (rects.map rectSize).sum := by
  induction rects with
  | nil => rfl
  | cons r rects ih =>
    rw [List.flatMap_cons, List.length_append, length_rectBytes, ih, List.map_cons, List.sum_cons]

theorem bitmaps_eq (h : rects.length ≤ maxRectsPerMessage) : bitmaps framebuffer stride rects = kindBitmaps ::
    (leBytes 2 rects.length ++ rects.flatMap (rectBytes framebuffer stride)) := by
  have hcount : min rects.length 65535 = rects.length := Nat.min_eq_left h
  unfold bitmaps
  dsimp only
  rw [hcount, List.take_length]

theorem length_bitmaps (h : rects.length ≤ maxRectsPerMessage) :
    (bitmaps framebuffer stride rects).length = bitmapsSize rects := by
  rw [bitmaps_eq h, List.length_cons, List.length_append, length_leBytes, length_rects]
  unfold bitmapsSize bitmapsHeader
  omega

theorem cell_pixels (hin : fb.Contains r) (hx : px < r.w.toNat) (hrow : row < r.h.toNat) : Raster.cell 4
    ((List.range r.h.toNat).flatMap (rowBytes fb.data fb.stride r)) (row * r.w.toNat + px) = fb.rgb (r.x.toNat + px)
    (r.y.toNat + row) ++ [0xff] := by
  obtain ⟨hright, hbottom⟩ := hin
  unfold Rect.right at hright
  unfold Rect.bottom at hbottom
  have hfits := fb.fits (r.y.toNat + row) (by omega)
  have hcells : (px + 1) * 4 ≤ r.w.toNat * 4 := Nat.mul_le_mul_right 4 hx
  have hslice : Raster.slice fb.data ((r.y.toNat + row) * fb.stride + r.x.toNat * 4) (r.w.toNat * 4) =
      some _ := Raster.slice_eq_some (by omega)
  rw [Raster.cell_rows (fun k _ => length_rowBytes) hx hrow]
  unfold rowBytes
  dsimp only
  rw [hslice, Option.getD_some, cell_forceAlpha, List.drop_take, List.drop_drop, List.take_take,
    Nat.min_eq_left (by omega)]
  · unfold Framebuffer.rgb
    congr 3
    omega
  · rw [Raster.length_of_slice hslice]
    exact hcells

end Encode

end Frame

end UwuRdp
