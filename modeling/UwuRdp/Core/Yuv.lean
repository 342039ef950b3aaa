import UwuRdp.Core.Graphics

/-!
# Two views, one picture

AVC444 sends two pictures with a quarter of the chroma each: the main view, luma and the average chroma of
every 2×2 block, and the auxiliary view with the chroma samples the averages left out, in one of two
layouts. Put together they make the full picture, of which each surface keeps its own. `none` is a panic:
an index or a range that is not there.
-/

namespace UwuRdp

open Lib.Raster

namespace Gfx

namespace Avc

/-- Which of the two pictures a stream holds. -/
inductive View where
  | main
  | auxV1
  | auxV2
deriving DecidableEq

/-- A decoded 4:2:0 picture. -/
structure Yuv420 where
  width : ℕ
  height : ℕ
  y : List UInt8
  u : List UInt8
  v : List UInt8
  yStride : ℕ
  uvStride : ℕ

/-- The two chroma planes. -/
structure Chroma where
  u : List UInt8
  v : List UInt8
deriving DecidableEq

/-- The 4:4:4 picture of one surface, with the main view's chroma kept apart. -/
structure Yuv444 where
  width : ℕ
  height : ℕ
  y : List UInt8
  chroma : Chroma
  /-- The main view's chroma, `chromaWidth` × (`height` + 1) / 2. -/
  main : Chroma
  chromaWidth : ℕ
deriving DecidableEq

def Yuv444.default : Yuv444 := ⟨0, 0, [], ⟨[], []⟩, ⟨[], []⟩, 0⟩

/-- Takes the decoder's picture size; a new size starts over with black. -/
def Yuv444.ensure (p : Yuv444) (width height : ℕ) : Yuv444 :=
  if (p.width, p.height) = (width, height) ∧ p.y ≠ [] then p
  else
    let grey (n : ℕ) : Chroma := ⟨List.replicate n 128, List.replicate n 128⟩
    { width := width
      height := height
      y := List.replicate (width * height) 0
      chroma := grey (width * height)
      main := grey ((width + 1) / 2 * ((height + 1) / 2))
      chromaWidth := (width + 1) / 2 }

/-! ## Samples -/

def range (data : List UInt8) (start stop : ℕ) : Option (List UInt8) :=
  if start ≤ stop then slice data start (stop - start) else none

def put (plane : List UInt8) (i : ℕ) (sample : UInt8) : Option (List UInt8) :=
  if i < plane.length then some (plane.set i sample) else none

namespace Chroma

def put (c : Chroma) (i : ℕ) (s : UInt8 × UInt8) : Option Chroma := do
  let u ← Avc.put c.u i s.1
  let v ← Avc.put c.v i s.2
  some ⟨u, v⟩

end Chroma

/-! ## The main view -/

def lumaRow (w : ℕ) (yuv : Yuv420) (x0 x1 : ℕ) (y : List UInt8) (row : ℕ) : Option (List UInt8) :=
  match range yuv.y (row * yuv.yStride + x0) (row * yuv.yStride + x1) with
  | none => some y
  | some src => do
    let _ ← range y (row * w + x0) (row * w + x1)
    splice y (row * w + x0) src

/-- The samples of a row of blocks, from block `bx` on, in one row of the picture. -/
def spreadRow (w row : ℕ) : ℕ → List (UInt8 × UInt8) → Chroma → Option Chroma
  | _, [], c => some c
  | bx, s :: samples, c => do
    let c ← [2 * bx, 2 * bx + 1].foldlM (fun c col => if col < w then c.put (row * w + col) s else some c) c
    spreadRow w row (bx + 1) samples c

/-- A row of blocks of the main view: its chroma is kept, and spread over the blocks. -/
def blockRow (p : Yuv444) (yuv : Yuv420) (bx0 bx1 : ℕ) (s : Chroma × Chroma) (by' : ℕ) :
    Option (Chroma × Chroma) :=
  let src := by' * yuv.uvStride
  match range yuv.u (src + bx0) (src + bx1), range yuv.v (src + bx0) (src + bx1) with
  | some su, some sv => do
    let mainU ← splice s.1.u (by' * p.chromaWidth + bx0) su
    let mainV ← splice s.1.v (by' * p.chromaWidth + bx0) sv
    let chroma ← [2 * by', 2 * by' + 1].foldlM (fun c row =>
      if p.height ≤ row then some c else spreadRow p.width row bx0 (su.zip sv) c) s.2
    some (⟨mainU, mainV⟩, chroma)
  | _, _ => some s

/-- The main view: luma as it is, chroma kept and spread over each 2×2 block. -/
def combineMain (p : Yuv444) (yuv : Yuv420) (r : Rect) : Option Yuv444 := do
  let x0 := r.x.toNat
  let x1 := r.x.toNat + r.w.toNat
  let y ← (List.range' r.y.toNat r.h.toNat).foldlM (lumaRow p.width yuv x0 x1) p.y
  -- Whole blocks, also where the region starts or ends within them.
  let by0 := r.y.toNat / 2
  let by1 := (r.y.toNat + r.h.toNat + 1) / 2
  let (main, chroma) ← (List.range' by0 (by1 - by0)).foldlM (blockRow p yuv (x0 / 2) ((x1 + 1) / 2))
    (p.main, p.chroma)
  some { p with y := y, main := main, chroma := chroma }

/-! ## The auxiliary view -/

/-- `(from..to).step_by(2)` -/
def stepBy2 (start stop : ℕ) : List ℕ := (List.range ((stop - start + 1) / 2)).map fun i => start + 2 * i

/-- Columns of a row, up to one the view does not have. -/
def fillColumns (w row : ℕ) (source : ℕ → Option (UInt8 × UInt8)) : List ℕ → Chroma →
    Option (Chroma × Bool)
  | [], c => some (c, true)
  | x :: xs, c =>
    match source x with
    | none => some (c, false)
    | some s => do
      let c ← c.put (row * w + x) s
      fillColumns w row source xs c

/-- Two samples of the same place, where there are both. -/
def both (u v : Option UInt8) : Option (UInt8 × UInt8) :=
  match u, v with
  | some cu, some cv => some (cu, cv)
  | _, _ => none

/-- An odd row of one plane of a v1 auxiliary view; past the view it is the main view's average. -/
def auxV1Plane (p : Yuv444) (yuv : Yuv420) (row x0 x1 sourceRow : ℕ) (plane main : List UInt8) :
    Option (List UInt8 × Bool) := do
  let target ← range plane (row * p.width + x0) (row * p.width + x1)
  let start := sourceRow * yuv.yStride
  match range yuv.y (start + x0) (start + x1), decide (sourceRow < yuv.height) with
  | some source, true => do
    let plane ← splice plane (row * p.width + x0) source
    some (plane, true)
  | _, _ => do
    let averages ← range main (row / 2 * p.chromaWidth) main.length
    let samples ← (List.range target.length).mapM fun i => averages[(x0 + i) / 2]?
    let plane ← splice plane (row * p.width + x0) samples
    some (plane, false)

/-- One row of a v1 auxiliary view: odd rows come whole from the luma plane, eight U rows then eight V rows
in every sixteen; even rows get their odd columns from the chroma planes. -/
def auxV1Row (p : Yuv444) (yuv : Yuv420) (row x0 x1 : ℕ) (c : Chroma) : Option (Chroma × Bool) :=
  if row % 2 = 1 then do
    let k := row / 2
    let uRow := k / 8 * 8 + k
    let (u, uComplete) ← auxV1Plane p yuv row x0 x1 uRow c.u p.main.u
    let (v, vComplete) ← auxV1Plane p yuv row x0 x1 (uRow + 8) c.v p.main.v
    some (⟨u, v⟩, uComplete && vComplete)
  else
    let src := row / 2 * yuv.uvStride
    fillColumns p.width row (fun x => both yuv.u[src + x / 2]? yuv.v[src + x / 2]?) (stepBy2 (x0 + 1) x1) c

/-- One row of a v2 auxiliary view: the odd columns of U and V side by side in the luma plane; odd rows get
columns 4n from the U plane and 4n+2 from the V plane, U left and V right. -/
def auxV2Row (p : Yuv444) (yuv : Yuv420) (row x0 x1 : ℕ) (c : Chroma) : Option (Chroma × Bool) := do
  let half := yuv.width / 2
  let quarter := yuv.width / 4
  let luma := row * yuv.yStride
  let (c, complete) ← fillColumns p.width row
    (fun x => both yuv.y[luma + x / 2]? yuv.y[luma + half + x / 2]?) (stepBy2 (x0 + 1) x1) c
  if complete = false then some (c, false)
  else if row % 2 = 1 then
    let src := row / 2 * yuv.uvStride
    fillColumns p.width row (fun x =>
      let plane := if x % 4 = 0 then yuv.u else yuv.v
      both plane[src + x / 4]? plane[src + quarter + x / 4]?) (stepBy2 x0 x1) c
  else some (c, true)

def filterThreshold : ℕ := 30

def clip (value : ℤ) : UInt8 := UInt8.ofNat (max 0 (min value 255)).toNat

def conditionalClip (value : ℤ) (original : UInt8) : UInt8 :=
  let clipped := clip value
  if max clipped.toNat original.toNat - min clipped.toNat original.toNat < filterThreshold then original
  else clipped

/-- The top-left sample of one block in one plane: four times the average without the other three. -/
def reconstructSample (p : Yuv444) (lacking : Bool) (by' bx : ℕ) (plane main : List UInt8) :
    Option (List UInt8) := do
  let average ← main[by' * p.chromaWidth + bx]?
  if lacking then put plane (2 * by' * p.width + 2 * bx) average
  else do
    let a ← plane[2 * by' * p.width + (2 * bx + 1)]?
    let b ← plane[(2 * by' + 1) * p.width + 2 * bx]?
    let d ← plane[(2 * by' + 1) * p.width + (2 * bx + 1)]?
    put plane (2 * by' * p.width + 2 * bx)
      (conditionalClip (4 * (average.toNat : ℤ) - (a.toNat + b.toNat + d.toNat)) average)

def reconstructRow (p : Yuv444) (missing : List ℕ) (bx0 bx1 : ℕ) (c : Chroma) (by' : ℕ) : Option Chroma :=
  if p.height ≤ 2 * by' + 1 then some c
  else
    (List.range' bx0 (bx1 - bx0)).foldlM (fun c bx =>
      if p.width ≤ 2 * bx + 1 then some c
      else do
        let u ← reconstructSample p (missing.contains by') by' bx c.u p.main.u
        let v ← reconstructSample p (missing.contains by') by' bx c.v p.main.v
        some ⟨u, v⟩) c

/-- One row of the auxiliary view; a row the view does not have all of is noted. -/
def auxRow (p : Yuv444) (yuv : Yuv420) (view : View) (x0 x1 : ℕ) (s : Chroma × List ℕ) (row : ℕ) :
    Option (Chroma × List ℕ) := do
  let (c, complete) ← (match view with
    | .auxV1 => auxV1Row p yuv row x0 (min x1 p.width) s.1
    | _ => auxV2Row p yuv row x0 (min x1 p.width) s.1)
  some (c, if complete then s.2 else s.2 ++ [row / 2])

/-- The auxiliary view: the three chroma samples of every 2×2 block the main view averaged away, then the
fourth worked out from the average. -/
def combineAux (p : Yuv444) (yuv : Yuv420) (r : Rect) (view : View) : Option Yuv444 := do
  let x0 := r.x.toNat / 2 * 2
  let y0 := r.y.toNat / 2 * 2
  let x1 := (r.x.toNat + r.w.toNat + 1) / 2 * 2
  let y1 := (r.y.toNat + r.h.toNat + 1) / 2 * 2
  let (c, missing) ← (List.range' y0 (min y1 p.height - y0)).foldlM (auxRow p yuv view x0 x1) (p.chroma, [])
  let c ← (List.range' (y0 / 2) (y1 / 2 - y0 / 2)).foldlM (reconstructRow p missing (x0 / 2) (x1 / 2)) c
  some { p with chroma := c }

/-! ## A decoded picture -/

/-- The stream's region rectangles inside `dest` and the picture; none means all of `dest`. -/
def regions (rectangles : List Edges) (dest : Rect) (width height : ℕ) : List Rect :=
  let edge (n : ℕ) : UInt16 := UInt16.ofNat (min n 65535)
  let rects := rectangles.map (fun r => r.rect.intersect dest)
  let rects := if rectangles = [] then rects ++ [dest] else rects
  (rects.map (·.clip (edge width) (edge height))).filter (fun r => !r.isEmpty)

def combine (yuv : Yuv420) (view : View) (p : Yuv444) (region : Rect) : Option Yuv444 :=
  match view with
  | .main => combineMain p yuv region
  | .auxV1 => combineAux p yuv region .auxV1
  | .auxV2 => combineAux p yuv region .auxV2

/-- What `decode` does with a picture the decoder has: it is folded in inside its regions. -/
def Yuv444.decoded (p : Yuv444) (yuv : Yuv420) (view : View) (rectangles : List Edges) (dest : Rect) :
    Option Yuv444 :=
  (regions rectangles dest yuv.width yuv.height).foldlM (combine yuv view) (p.ensure yuv.width yuv.height)

end Avc

end Gfx

end UwuRdp
