import UwuRdp.Core.Formats
import UwuRdp.Lib.Planes
import UwuRdp.Lib.Reads

/-!
# Bitmaps

A picture through `CF_DIB` and back, and what any bytes are read as. A bitmap is taken apart into what its header
says and the bytes of its pixels; every pixel lies in those bytes, whatever the header claims. Alpha is made up for
where the format has none, except for bit fields of 32 bits without a mask for it.
-/

namespace UwuRdp

open Lib Raster

namespace Formats

/-! ## The parts of a bitmap -/

structure Dib where
  width : ℕ
  /-- Negative when the top row comes first. -/
  rawHeight : ℤ
  bits : ℕ
  masks : Option (List ℕ)
  palette : List (UInt8 × UInt8 × UInt8)
  pixels : List UInt8

namespace Dib

def height (d : Dib) : ℕ := d.rawHeight.natAbs

def stride (d : Dib) : ℕ := (d.width * d.bits + 31) / 32 * 4

def row (d : Dib) (y : ℕ) : List UInt8 :=
  (d.pixels.drop ((if d.rawHeight < 0 then y else d.height - 1 - y) * d.stride)).take d.stride

def rows (d : Dib) : Option (List (List (List UInt8))) :=
  (List.range d.height).mapM fun y => (List.range d.width).mapM (dibPixel d.bits d.masks d.palette (d.row y))

def alphaMask (d : Dib) : ℕ := (d.masks.bind (·[3]?)).getD 0

def filled (d : Dib) (out : List (List UInt8)) : Bool :=
  ((d.bits = 32 ∧ (d.masks = none ∨ d.alphaMask ≠ 0) : Bool) && !(out.any fun px => px.getD 3 0 ≠ 0)) ||
    (d.bits = 16 ∧ d.alphaMask = 0 : Bool)

def painted (d : Dib) (out : List (List UInt8)) : List (List UInt8) :=
  if d.filled out then out.map fun px => px.set 3 255 else out

def picture (d : Dib) (rows : List (List (List UInt8))) : Rgba :=
  ⟨d.width, d.height, (d.painted rows.flatten).flatten⟩

end Dib

/-- What is read before the pixels, each part by `get`, which has an answer for a range that is not there. -/
def dibParts (data : List UInt8) : Option Dib := do
  let header ← u32At data 0
  if header < 40 ∨ data.length < header then none
  let width ← i32At data 4
  let rawHeight ← i32At data 8
  let bits ← u16At data 14
  let compression ← u32At data 16
  let colorsUsed ← u32At data 32
  if width < 0 then none
  let width := width.toNat
  let height := rawHeight.natAbs
  if width = 0 ∨ height = 0 ∨ maxImageSide < width ∨ maxImageSide < height then none
  let (masks, start) ← dibMasks data header bits compression
  let (palette, start) ← dibPalette data start bits colorsUsed
  let pixels ← slice data start ((width * bits + 31) / 32 * 4 * height)
  some ⟨width, rawHeight, bits, masks, palette, pixels⟩

variable {α β : Type} {x len g a : ℕ}

theorem bind_split {γ : Type} {o : Option α} {f : α → Option γ} {g : α → Option β} {h : β → Option γ}
    (hfg : ∀ a, o = some a → f a = (g a).bind h) : o.bind f = (o.bind g).bind h := by
  cases o with
  | none => rfl
  | some a => exact hfg a rfl

theorem dibToRgba_eq (data : List UInt8) : dibToRgba data = (dibParts data).bind fun d => d.rows.map d.picture := by
  unfold dibToRgba dibParts
  refine bind_split fun header _ => ?_
  by_cases hheader : header < 40 ∨ data.length < header
  · rw [if_pos hheader, if_pos hheader]
    rfl
  rw [if_neg hheader, if_neg hheader]
  refine bind_split fun width _ => bind_split fun rawHeight _ => bind_split fun bits _ => bind_split fun compression _ =>
    bind_split fun colorsUsed _ => ?_
  by_cases hwidth : width < 0
  · rw [if_pos hwidth, if_pos hwidth]
    rfl
  rw [if_neg hwidth, if_neg hwidth]
  by_cases hsides : width.toNat = 0 ∨ rawHeight.natAbs = 0 ∨ maxImageSide < width.toNat ∨ maxImageSide < rawHeight.natAbs
  · rw [if_pos hsides, if_pos hsides]
    rfl
  rw [if_neg hsides, if_neg hsides]
  refine bind_split fun masks _ => bind_split fun palette _ => bind_split fun pixels _ => ?_
  rw [Option.bind_some]
  rw [Option.map_eq_bind]
  rfl

/-- What bytes say of a bitmap: the header's length, the compression, the colours used, and where the masks and the
palette end. -/
structure Parted (data : List UInt8) (d : Dib) (header compression colorsUsed behind start : ℕ) : Prop where
  headerAt : u32At data 0 = some header
  headerRange : 40 ≤ header ∧ header ≤ data.length
  width : i32At data 4 = some (d.width : ℤ)
  rawHeight : i32At data 8 = some d.rawHeight
  bits : u16At data 14 = some d.bits
  compressionAt : u32At data 16 = some compression
  colorsUsedAt : u32At data 32 = some colorsUsed
  sides : 0 < d.width ∧ 0 < d.height ∧ d.width ≤ maxImageSide ∧ d.height ≤ maxImageSide
  masks : dibMasks data header d.bits compression = some (d.masks, behind)
  palette : dibPalette data behind d.bits colorsUsed = some (d.palette, start)
  pixels : slice data start (d.stride * d.height) = some d.pixels

theorem dibParts_eq_some {data : List UInt8} {d : Dib} : dibParts data = some d ↔
    ∃ header compression colorsUsed behind start, Parted data d header compression colorsUsed behind start := by
  constructor
  · intro h
    unfold dibParts at h
    obtain ⟨header, hheader, h⟩ := Option.bind_eq_some_iff.mp h
    split at h
    · cases h
    next hrange =>
    obtain ⟨width, hwidth, h⟩ := Option.bind_eq_some_iff.mp h
    obtain ⟨rawHeight, hraw, h⟩ := Option.bind_eq_some_iff.mp h
    obtain ⟨bits, hbits, h⟩ := Option.bind_eq_some_iff.mp h
    obtain ⟨compression, hcompression, h⟩ := Option.bind_eq_some_iff.mp h
    obtain ⟨colorsUsed, hcolors, h⟩ := Option.bind_eq_some_iff.mp h
    split at h
    · cases h
    next hnegative =>
    dsimp only at h
    split at h
    · cases h
    next hsides =>
    obtain ⟨⟨masks, behind⟩, hmasks, h⟩ := Option.bind_eq_some_iff.mp h
    obtain ⟨⟨palette, start⟩, hpalette, h⟩ := Option.bind_eq_some_iff.mp h
    obtain ⟨pixels, hpixels, h⟩ := Option.bind_eq_some_iff.mp h
    cases h
    have hcast : (width.toNat : ℤ) = width := Int.toNat_of_nonneg (by omega)
    have hrange : 0 < width.toNat ∧ 0 < rawHeight.natAbs ∧ width.toNat ≤ maxImageSide ∧
        rawHeight.natAbs ≤ maxImageSide := by omega
    exact ⟨header, compression, colorsUsed, behind, start, hheader, by omega, hwidth.trans (congrArg some hcast.symm),
      hraw, hbits, hcompression, hcolors, hrange, hmasks, hpalette, hpixels⟩
  · rintro ⟨header, compression, colorsUsed, behind, start, h⟩
    obtain ⟨hwidth, hheight, hwide, hhigh⟩ := h.sides
    have hrange := h.headerRange
    unfold Dib.height at hheight hhigh
    unfold dibParts
    rw [h.headerAt, Option.bind_eq_bind, Option.bind_some, if_neg (by omega), h.width, Option.bind_eq_bind,
      Option.bind_some, h.rawHeight, Option.bind_eq_bind, Option.bind_some, h.bits, Option.bind_eq_bind,
      Option.bind_some, h.compressionAt, Option.bind_eq_bind, Option.bind_some, h.colorsUsedAt, Option.bind_eq_bind,
      Option.bind_some, if_neg (by omega)]
    rw [Int.toNat_natCast, if_neg (by omega), h.masks, Option.bind_some]
    dsimp only
    rw [h.palette, Option.bind_some]
    have hpixels := h.pixels
    unfold Dib.stride Dib.height at hpixels
    rw [hpixels]
    rfl

/-! ## No place outside -/

/-- One pixel of a row, its bytes taken by their places. -/
def readPixel (bits : ℕ) (masks : Option (List ℕ)) (palette : List (UInt8 × UInt8 × UInt8)) (src : List UInt8) (x : ℕ) :
    Reads (List UInt8) :=
  if bits = 8 then do
    let i ← Reads.byteAt src x
    let (r, g, b) ← Reads.lift palette[i.toNat]?
    pure [r, g, b, 255]
  else
    match bits, masks with
    | 16, some [r, g, b, a] => do
      let low ← Reads.byteAt src (x * 2)
      let high ← Reads.byteAt src (x * 2 + 1)
      Reads.lift (dibPixel.byMasks (leNat [low, high]) r g b a)
    | 32, some [r, g, b, a] => do
      let px ← Reads.slice src (x * 4) (x * 4 + 4)
      Reads.lift (dibPixel.byMasks (leNat px) r g b a)
    | 24, none => do
      let red ← Reads.byteAt src (x * 3 + 2)
      let green ← Reads.byteAt src (x * 3 + 1)
      let blue ← Reads.byteAt src (x * 3)
      pure [red, green, blue, 255]
    | 32, none => do
      let red ← Reads.byteAt src (x * 4 + 2)
      let green ← Reads.byteAt src (x * 4 + 1)
      let blue ← Reads.byteAt src (x * 4)
      let alpha ← Reads.byteAt src (x * 4 + 3)
      pure [red, green, blue, alpha]
    | _, _ => Reads.refuse

/-- The rows, each sliced out of the pixels and written into its part of the picture. -/
def readRows (d : Dib) : Reads (List (List (List UInt8))) :=
  (List.range d.height).mapM fun y => do
    let behind ← Reads.slice d.pixels ((if d.rawHeight < 0 then y else d.height - 1 - y) * d.stride) d.pixels.length
    let src ← Reads.slice behind 0 d.stride
    Reads.within (y * d.width * 4) ((y + 1) * d.width * 4) (d.width * d.height * 4)
    (List.range d.width).mapM fun x => do
      let px ← readPixel d.bits d.masks d.palette src x
      Reads.within (x * 4) (x * 4 + 4) (d.width * 4)
      pure px

/-- `dib_to_rgba` with its places: one out of range is an end of its own. -/
def readDib (data : List UInt8) : Reads Rgba := do
  let d ← Reads.lift (dibParts data)
  let rows ← readRows d
  pure (d.picture rows)

variable {src px l : List UInt8} {bits y r b n : ℕ} {masks : Option (List ℕ)}
  {palette : List (UInt8 × UInt8 × UInt8)} {out : List (List UInt8)} {image : Rgba}

theorem take_two {i : ℕ} (h : i + 1 < src.length) : (src.drop i).take 2 = [src.getD i 0, src.getD (i + 1) 0] := by
  rw [List.drop_eq_getElem_cons (by omega), List.take_succ_cons, List.drop_eq_getElem_cons h, List.take_succ_cons,
    List.take_zero, List.getD_eq_getElem?_getD, List.getD_eq_getElem?_getD, List.getElem?_eq_getElem,
    List.getElem?_eq_getElem h]
  rfl

theorem readPixel_eq {width : ℕ} (hsrc : src.length = (width * bits + 31) / 32 * 4) (hx : x < width) : readPixel
    bits masks palette src x = Reads.lift (dibPixel bits masks palette src x) := by
  unfold readPixel dibPixel
  by_cases h8 : bits = 8
  · rw [if_pos h8, if_pos h8, Reads.byteAt_lt (by subst h8; omega)]
    exact Reads.lift_bind fun i _ => Reads.lift_bind fun c _ => rfl
  rw [if_neg h8, if_neg h8]
  split
  · next r g b a =>
    rw [Reads.byteAt_lt (by omega), Reads.byteAt_lt (by omega), take_two (by omega)]
    rfl
  · next r g b a =>
    rw [Reads.slice_le (by omega) (by omega), Nat.add_sub_cancel_left]
    rfl
  · rw [Reads.byteAt_lt (by omega), Reads.byteAt_lt (by omega), Reads.byteAt_lt (by omega)]
    rfl
  · rw [Reads.byteAt_lt (by omega), Reads.byteAt_lt (by omega), Reads.byteAt_lt (by omega), Reads.byteAt_lt (by omega)]
    rfl
  · next h16 h32 h24 h32' =>
    first
    | rfl
    | split
      · next r g b a => exact (h16 r g b a rfl rfl).elim
      · next r g b a => exact (h32 r g b a rfl rfl).elim
      · exact (h24 rfl rfl).elim
      · exact (h32' rfl rfl).elim
      · rfl

def Dib.line (d : Dib) (y : ℕ) : ℕ := if d.rawHeight < 0 then y else d.height - 1 - y

theorem Dib.line_lt {d : Dib} (h : y < d.height) : d.line y < d.height := by
  unfold line
  split <;> omega

theorem length_slice {data new : List UInt8} {start : ℕ} (h : slice data start len = some new) :
    new.length = len := Raster.length_of_slice h

theorem Dib.length_row {d : Dib} (h : d.pixels.length = d.stride * d.height) (hy : y < d.height) :
    (d.row y).length = d.stride := by
  have hline : (d.line y + 1) * d.stride ≤ d.height * d.stride := Nat.mul_le_mul_right _ (line_lt hy)
  rw [Nat.succ_mul, Nat.mul_comm d.height] at hline
  show ((d.pixels.drop (d.line y * d.stride)).take d.stride).length = _
  rw [List.length_take, List.length_drop]
  omega

theorem read_bind {x : Reads α} {a : α} {f : α → Reads β} (h : x = Reads.lift (some a)) : (x >>= f) = f a := by
  subst h
  rfl

theorem readRows_eq {d : Dib} (h : d.pixels.length = d.stride * d.height) : readRows d = Reads.lift d.rows := by
  refine Reads.mapM_lift fun y hy => ?_
  have hy' : y < d.height := List.mem_range.mp hy
  have hline : (d.line y + 1) * d.stride ≤ d.height * d.stride := Nat.mul_le_mul_right _ (Dib.line_lt hy')
  rw [Nat.succ_mul, Nat.mul_comm d.height] at hline
  have hbehind : Reads.slice d.pixels (d.line y * d.stride) d.pixels.length =
      Reads.lift (some (d.pixels.drop (d.line y * d.stride))) := by
    rw [Reads.slice_le (by omega) (Nat.le_refl _), ← List.length_drop, List.take_length]
  have hsrc : Reads.slice (d.pixels.drop (d.line y * d.stride)) 0 d.stride = Reads.lift (some (d.row y)) := by
    rw [Reads.slice_le (Nat.zero_le _) (by rw [List.length_drop]; omega)]
    rfl
  have hdst : Reads.within (y * d.width * 4) ((y + 1) * d.width * 4) (d.width * d.height * 4) = Reads.lift (some ()) := by
    apply Reads.within_le
    · exact Nat.mul_le_mul_right 4 (Nat.mul_le_mul_right _ (Nat.le_succ y))
    · rw [Nat.mul_comm d.width]
      exact Nat.mul_le_mul_right 4 (Nat.mul_le_mul_right _ hy')
  show (Reads.slice d.pixels (d.line y * d.stride) d.pixels.length >>= _) = _
  rw [read_bind hbehind, read_bind hsrc, read_bind hdst]
  refine Reads.mapM_lift fun x hx => ?_
  have hx' : x < d.width := List.mem_range.mp hx
  rw [readPixel_eq (Dib.length_row h hy') hx']
  conv_rhs => rw [← Option.bind_fun_some (dibPixel d.bits d.masks d.palette (d.row y) x)]
  exact Reads.lift_bind fun px _ => read_bind (Reads.within_le (by omega) (by omega))

theorem readDib_eq (data : List UInt8) : (readDib data).run = .ok (dibToRgba data) := by
  have heq : readDib data = Reads.lift (dibToRgba data) := by
    rw [dibToRgba_eq]
    refine Reads.lift_bind fun d hd => ?_
    obtain ⟨header, compression, colorsUsed, behind, start, hparts⟩ := dibParts_eq_some.mp hd
    rw [readRows_eq (length_slice hparts.pixels), Option.map_eq_bind]
    exact Reads.lift_bind fun rows _ => rfl
  rw [heq]
  rfl

/-! ## Pixels of a picture -/

theorem length_dibPixel (h : dibPixel bits masks palette src x = some px) : px.length = 4 := by
  have hmasks : ∀ {pixel r g b a : ℕ}, dibPixel.byMasks pixel r g b a = some px → px.length = 4 := by
    intro pixel r g b a h
    obtain ⟨red, -, h⟩ := Option.bind_eq_some_iff.mp h
    obtain ⟨green, -, h⟩ := Option.bind_eq_some_iff.mp h
    obtain ⟨blue, -, h⟩ := Option.bind_eq_some_iff.mp h
    cases h
    rfl
  unfold dibPixel at h
  split at h
  · obtain ⟨c, -, h⟩ := Option.bind_eq_some_iff.mp h
    cases h
    rfl
  split at h
  · exact hmasks h
  · exact hmasks h
  · cases h
    rfl
  · cases h
    rfl
  · cases h

theorem mem_rows {d : Dib} {rows : List (List (List UInt8))} (h : d.rows = some rows) : px ∈ rows.flatten ↔ ∃ y <
    d.height, ∃ x < d.width, dibPixel d.bits d.masks d.palette (d.row y) x = some px := by
  obtain ⟨hto, hfrom⟩ := mem_of_mapM h
  constructor
  · intro hpx
    obtain ⟨row, hrow, hpx⟩ := List.mem_flatten.mp hpx
    obtain ⟨y, hy, hrow⟩ := hfrom row hrow
    obtain ⟨x, hx, hpx⟩ := (mem_of_mapM hrow).2 px hpx
    exact ⟨y, List.mem_range.mp hy, x, List.mem_range.mp hx, hpx⟩
  · rintro ⟨y, hy, x, hx, hpx⟩
    obtain ⟨row, hmem, hrow⟩ := hto y (List.mem_range.mpr hy)
    obtain ⟨px', hmem', hpx'⟩ := (mem_of_mapM hrow).1 x (List.mem_range.mpr hx)
    obtain rfl : px' = px := Option.some.inj (hpx'.symm.trans hpx)
    exact List.mem_flatten.mpr ⟨row, hmem, hmem'⟩

theorem length_rows {d : Dib} {rows : List (List (List UInt8))} (h : d.rows = some rows) :
    rows.flatten.length = d.width * d.height := by
  have hrow : ∀ row ∈ rows, row.length = d.width := by
    intro row hrow
    obtain ⟨y, -, hy⟩ := (mem_of_mapM h).2 row hrow
    rw [length_of_mapM hy, List.length_range]
  have hlen : rows.length = d.height := by rw [length_of_mapM h, List.length_range]
  rw [length_flatten_of hrow, hlen, Nat.mul_comm]

def Rgba.pixels (image : Rgba) : List (List UInt8) := Reads.asChunks 4 image.bytes

def Rgba.Transparent (image : Rgba) : Prop := ∀ px ∈ image.pixels, px.getD 3 0 = 0

def Rgba.solid (image : Rgba) : Rgba := { image with bytes := (image.pixels.map fun px => px.set 3 255).flatten }

theorem asChunks_flatten (h : ∀ px ∈ out, px.length = 4) : Reads.asChunks 4 out.flatten = out :=
  (Reads.asChunks_eq_iff (by decide) h (length_flatten_of h)).mpr rfl

theorem Dib.length_px {d : Dib} {rows : List (List (List UInt8))} (h : d.rows = some rows) :
    ∀ px ∈ rows.flatten, px.length = 4 := by
  intro px hpx
  obtain ⟨y, -, x, -, hpx⟩ := (mem_rows h).mp hpx
  exact length_dibPixel hpx

theorem Dib.length_painted (d : Dib) (h : ∀ px ∈ out, px.length = 4) :
    (d.painted out).length = out.length ∧ ∀ px ∈ d.painted out, px.length = 4 := by
  unfold painted
  split
  · refine ⟨List.length_map _, fun px hpx => ?_⟩
    obtain ⟨px', hpx', rfl⟩ := List.mem_map.mp hpx
    rw [List.length_set, h px' hpx']
  · exact ⟨rfl, h⟩

theorem Dib.pixels_picture {d : Dib} {rows : List (List (List UInt8))} (h : d.rows = some rows) :
    (d.picture rows).pixels = d.painted rows.flatten :=
  asChunks_flatten (d.length_painted (length_px h)).2

theorem Dib.length_picture {d : Dib} {rows : List (List (List UInt8))} (h : d.rows = some rows) :
    (d.picture rows).bytes.length = 4 * d.width * d.height := by
  obtain ⟨hcount, hpieces⟩ := d.length_painted (length_px h)
  unfold picture
  rw [length_flatten_of hpieces, hcount, length_rows h, Nat.mul_comm, Nat.mul_assoc]

theorem Dib.transparent_picture {d : Dib} {rows : List (List (List UInt8))} (h : d.rows = some rows)
    (hsides : 0 < d.width ∧ 0 < d.height) :
    (d.picture rows).Transparent ↔ d.filled rows.flatten = false ∧ ∀ px ∈ rows.flatten, px.getD 3 0 = 0 := by
  have hlen := length_px h
  unfold Rgba.Transparent
  rw [pixels_picture h]
  unfold painted
  cases hfilled : d.filled rows.flatten with
  | false =>
    rw [if_neg Bool.false_ne_true]
    exact (and_iff_right rfl).symm
  | true =>
    rw [if_pos rfl]
    refine iff_of_false (fun hall => ?_) (fun hboth => absurd hboth.1 (by decide))
    have hpos : 0 < rows.flatten.length := by
      rw [length_rows h]
      exact Nat.mul_pos hsides.1 hsides.2
    obtain ⟨px, hpx⟩ := List.exists_mem_of_length_pos hpos
    have hzero := hall _ (List.mem_map_of_mem hpx)
    rw [List.getD_eq_getElem?_getD, List.getElem?_set_self (by rw [hlen px hpx]; decide)] at hzero
    cases hzero

/-! ## Alpha -/

/-- Pixels taken apart by masks the bitmap brings along. -/
def BitFields (data : List UInt8) : Prop :=
  u32At data 16 = some biBitfields ∨ u32At data 16 = some biAlphabitfields

def givenAlphaMask (data : List UInt8) : ℕ :=
  let header := (u32At data 0).getD 0
  if 56 ≤ header then (u32At data 52).getD 0
  else if u32At data 16 = some biAlphabitfields then (u32At data (header + 12)).getD 0
  else 0

def NoAlphaMask (data : List UInt8) : Prop :=
  u16At data 14 = some 32 ∧ BitFields data ∧ givenAlphaMask data = 0

/-- The pixel of 16 bits at a place of a line, behind the header and its masks. -/
def pixel16 (data : List UInt8) (line x : ℕ) : ℕ :=
  let header := (u32At data 0).getD 0
  let start := if 56 ≤ header then header else if u32At data 16 = some biAlphabitfields then header + 16 else header + 12
  let stride := (((i32At data 4).getD 0).toNat * 16 + 31) / 32 * 4
  leNat ((data.drop (start + line * stride + x * 2)).take 2)

/-- Bit fields of 16 bits, one of them alpha, which comes out as 0 for every pixel. -/
def NoAlphaBits (data : List UInt8) : Prop :=
  u16At data 14 = some 16 ∧ BitFields data ∧ givenAlphaMask data ≠ 0 ∧
    ∀ line < ((i32At data 8).getD 0).natAbs, ∀ x < ((i32At data 4).getD 0).toNat,
      channel (pixel16 data line x) (givenAlphaMask data) = some 0

theorem dibMasks_cases {data : List UInt8} {header compression behind : ℕ}
    (h : dibMasks data header bits compression = some (masks, behind)) :
    (compression = biRgb ∧ masks = if bits = 16 then some [0x7c00, 0x03e0, 0x001f, 0] else none) ∨
    ((compression = biBitfields ∨ compression = biAlphabitfields) ∧ ∃ r g b a, masks = some [r, g, b, a] ∧
      if 56 ≤ header then u32At data 52 = some a ∧ behind = header
      else if compression = biAlphabitfields then u32At data (header + 12) = some a ∧ behind = header + 16
      else a = 0 ∧ behind = header + 12) := by
  unfold dibMasks at h
  split at h
  · next hrgb =>
    cases h
    exact .inl ⟨hrgb, rfl⟩
  next hrgb =>
  split at h
  · next hfields =>
    refine .inr ⟨hfields, ?_⟩
    split at h
    · next hlarge =>
      obtain ⟨m, hm, h⟩ := Option.bind_eq_some_iff.mp h
      cases h
      obtain ⟨r, m, rfl, -, hm⟩ := cons_of_mapM hm
      obtain ⟨g, m, rfl, -, hm⟩ := cons_of_mapM hm
      obtain ⟨b, m, rfl, -, hm⟩ := cons_of_mapM hm
      obtain ⟨a, m, rfl, ha, hm⟩ := cons_of_mapM hm
      cases hm
      exact ⟨r, g, b, a, rfl, by rw [if_pos hlarge]; exact ⟨ha, rfl⟩⟩
    · next hsmall =>
      obtain ⟨m, hm, h⟩ := Option.bind_eq_some_iff.mp h
      cases h
      split at hm
      · next hsix =>
        obtain ⟨r, m, rfl, -, hm⟩ := cons_of_mapM (show [0, 1, 2, 3].mapM _ = _ from hm)
        obtain ⟨g, m, rfl, -, hm⟩ := cons_of_mapM hm
        obtain ⟨b, m, rfl, -, hm⟩ := cons_of_mapM hm
        obtain ⟨a, m, rfl, ha, hm⟩ := cons_of_mapM hm
        cases hm
        refine ⟨r, g, b, a, ?_, ?_⟩
        · rw [if_pos hsix]
          rfl
        · rw [if_neg hsmall, if_pos hsix, if_pos hsix]
          exact ⟨ha, rfl⟩
      · next hthree =>
        obtain ⟨r, m, rfl, -, hm⟩ := cons_of_mapM (show [0, 1, 2].mapM _ = _ from hm)
        obtain ⟨g, m, rfl, -, hm⟩ := cons_of_mapM hm
        obtain ⟨b, m, rfl, -, hm⟩ := cons_of_mapM hm
        cases hm
        refine ⟨r, g, b, 0, ?_, ?_⟩
        · rw [if_neg hthree]
          rfl
        · rw [if_neg hsmall, if_neg hthree, if_neg hthree]
          exact ⟨rfl, rfl⟩
  · cases h

theorem alpha_byMasks {pixel : ℕ} (h : dibPixel.byMasks pixel r g b a = some px) :
    px.getD 3 0 = (channel pixel a).getD 0 := by
  obtain ⟨red, -, h⟩ := Option.bind_eq_some_iff.mp h
  obtain ⟨green, -, h⟩ := Option.bind_eq_some_iff.mp h
  obtain ⟨blue, -, h⟩ := Option.bind_eq_some_iff.mp h
  cases h
  rfl

theorem alpha_dibPixel (h : dibPixel bits masks palette src x = some px) :
    ((bits = 8 ∨ bits = 24 ∧ masks = none) ∧ px.getD 3 0 = 255) ∨ (bits = 32 ∧ masks = none) ∨
    ∃ r g b a, masks = some [r, g, b, a] ∧
      ((bits = 16 ∧ px.getD 3 0 = (channel (leNat ((src.drop (x * 2)).take 2)) a).getD 0) ∨
        (bits = 32 ∧ px.getD 3 0 = (channel (leNat ((src.drop (x * 4)).take 4)) a).getD 0)) := by
  unfold dibPixel at h
  split at h
  · next h8 =>
    obtain ⟨c, -, h⟩ := Option.bind_eq_some_iff.mp h
    cases h
    exact .inl ⟨.inl h8, rfl⟩
  split at h
  · next r g b a _ => exact .inr (.inr ⟨r, g, b, a, rfl, .inl ⟨rfl, alpha_byMasks h⟩⟩)
  · next r g b a _ => exact .inr (.inr ⟨r, g, b, a, rfl, .inr ⟨rfl, alpha_byMasks h⟩⟩)
  · cases h
    exact .inl ⟨.inr ⟨rfl, rfl⟩, rfl⟩
  · exact .inr (.inl ⟨rfl, rfl⟩)
  · cases h

theorem alpha_of_masks (hbits : bits ≠ 8) (h : dibPixel bits (some [r, g, b, a]) palette src x = some px) :
    (bits = 16 → px.getD 3 0 = (channel (leNat ((src.drop (x * 2)).take 2)) a).getD 0) ∧
    (bits = 32 → px.getD 3 0 = (channel (leNat ((src.drop (x * 4)).take 4)) a).getD 0) := by
  rcases alpha_dibPixel h with ⟨h8 | ⟨-, hnone⟩, -⟩ | ⟨-, hnone⟩ | ⟨r', g', b', a', hmasks, hformat⟩
  · exact absurd h8 hbits
  · cases hnone
  · cases hnone
  obtain ⟨rfl, rfl, rfl, rfl⟩ : r = r' ∧ g = g' ∧ b = b' ∧ a = a' := by simpa using hmasks
  rcases hformat with ⟨rfl, halpha⟩ | ⟨rfl, halpha⟩
  · exact ⟨fun _ => halpha, fun h => absurd h (by decide)⟩
  · exact ⟨fun h => absurd h (by decide), fun _ => halpha⟩

theorem channel_zero (pixel : ℕ) : channel pixel 0 = none := if_pos rfl

theorem exists_channel {mask : ℕ} (h : mask ≠ 0) (pixel : ℕ) : ∃ c, channel pixel mask = some c := ⟨_, if_neg h⟩

variable {data : List UInt8} {d : Dib} {header compression colorsUsed behind start : ℕ}

theorem pixel_of_row (h : Parted data d header compression colorsUsed behind start) (hbits : d.bits = 16)
    (hx : x < d.width) (hy : y < d.height) :
    ((d.row y).drop (x * 2)).take 2 = (data.drop (start + d.line y * d.stride + x * 2)).take 2 := by
  have hstride : x * 2 + 2 ≤ d.stride := by
    unfold Dib.stride
    rw [hbits]
    omega
  have hline : (d.line y + 1) * d.stride ≤ d.height * d.stride := Nat.mul_le_mul_right _ (Dib.line_lt hy)
  rw [Nat.succ_mul, Nat.mul_comm d.height] at hline
  have hpixels : d.pixels = (data.drop start).take (d.stride * d.height) := by
    have hslice := h.pixels
    unfold slice at hslice
    split at hslice
    · exact (Option.some.inj hslice).symm
    · cases hslice
  show (((d.pixels.drop (d.line y * d.stride)).take d.stride).drop (x * 2)).take 2 = _
  rw [hpixels]
  simp only [List.drop_take, List.take_take, List.drop_drop]
  congr 1
  omega

theorem Dib.line_line (h : y < d.height) : d.line (d.line y) = y := by
  unfold line
  split
  · rfl
  · omega

theorem Dib.filled_zero {d : Dib} (h : ∀ px ∈ out, px.getD 3 0 = 0) :
    d.filled out = false ↔ ¬(d.bits = 32 ∧ (d.masks = none ∨ d.alphaMask ≠ 0)) ∧ ¬(d.bits = 16 ∧ d.alphaMask = 0) := by
  have hnone : (out.any fun px => px.getD 3 0 ≠ 0) = false :=
    List.any_eq_false.mpr fun px hpx hne => of_decide_eq_true hne (h px hpx)
  unfold filled
  rw [hnone, Bool.not_false, Bool.and_true, Bool.or_eq_false_iff, decide_eq_false_iff_not, decide_eq_false_iff_not]

theorem fields_of_masks (h : Parted data d header compression colorsUsed behind start)
    (hmasks : d.masks = some [r, g, b, a]) (hfields : compression = biBitfields ∨ compression = biAlphabitfields) :
    BitFields data ∧ givenAlphaMask data = a ∧ behind = (if 56 ≤ header then header
      else if u32At data 16 = some biAlphabitfields then header + 16 else header + 12) := by
  have hiff : u32At data 16 = some biAlphabitfields ↔ compression = biAlphabitfields := by
    rw [h.compressionAt, Option.some.injEq]
  rcases dibMasks_cases h.masks with ⟨hrgb, -⟩ | ⟨-, r', g', b', a', hmasks', hmask⟩
  · rw [hrgb] at hfields
    exact absurd hfields (by decide)
  rw [hmasks'] at hmasks
  obtain ⟨rfl, rfl, rfl, rfl⟩ : r' = r ∧ g' = g ∧ b' = b ∧ a' = a := by simpa using hmasks
  refine ⟨?_, ?_⟩
  · unfold BitFields
    rw [h.compressionAt, Option.some.injEq, Option.some.injEq]
    exact hfields
  unfold givenAlphaMask
  rw [h.headerAt, Option.getD_some]
  split at hmask
  · next hlarge =>
    rw [if_pos hlarge, if_pos hlarge, hmask.1]
    exact ⟨rfl, hmask.2⟩
  next hsmall =>
  rw [if_neg hsmall, if_neg hsmall]
  split at hmask
  · next hsix =>
    rw [if_pos (hiff.mpr hsix), if_pos (hiff.mpr hsix), hmask.1]
    exact ⟨rfl, hmask.2⟩
  · next hthree =>
    rw [if_neg (mt hiff.mp hthree), if_neg (mt hiff.mp hthree)]
    exact ⟨hmask.1.symm, hmask.2⟩

theorem pixel16_eq (h : Parted data d header compression colorsUsed behind start)
    (hmasks : d.masks = some [r, g, b, a]) (hfields : compression = biBitfields ∨ compression = biAlphabitfields)
    (hbits : d.bits = 16) (hx : x < d.width) (hy : y < d.height) :
    leNat (((d.row y).drop (x * 2)).take 2) = pixel16 data (d.line y) x := by
  have hstart : start = behind := by
    have hpalette := h.palette
    unfold dibPalette at hpalette
    rw [hbits, if_neg (by decide)] at hpalette
    exact (Prod.mk.inj (Option.some.inj hpalette)).2.symm
  rw [pixel_of_row h hbits hx hy, hstart, (fields_of_masks h hmasks hfields).2.2]
  unfold pixel16 Dib.stride
  rw [h.headerAt, h.width, Option.getD_some, Option.getD_some, Int.toNat_natCast, hbits]

theorem transparent_iff (h : Parted data d header compression colorsUsed behind start)
    {rows : List (List (List UInt8))} (hrows : d.rows = some rows) :
    (d.picture rows).Transparent ↔ NoAlphaMask data ∨ NoAlphaBits data := by
  obtain ⟨hw, hh, -, -⟩ := h.sides
  rw [Dib.transparent_picture hrows ⟨hw, hh⟩]
  have hpx : ∀ y < d.height, ∀ x < d.width, ∃ px ∈ rows.flatten,
      dibPixel d.bits d.masks d.palette (d.row y) x = some px := by
    intro y hy x hx
    obtain ⟨row, hmem, hrow⟩ := (mem_of_mapM hrows).1 y (List.mem_range.mpr hy)
    obtain ⟨px, hmem', hpx⟩ := (mem_of_mapM hrow).1 x (List.mem_range.mpr hx)
    exact ⟨px, List.mem_flatten.mpr ⟨row, hmem, hmem'⟩, hpx⟩
  obtain ⟨first, hfirst, hread⟩ := hpx 0 hh 0 hw
  have hbits : ∀ n, u16At data 14 = some n ↔ d.bits = n := fun n => by rw [h.bits, Option.some.injEq]
  have hrgb : compression = biRgb → ¬BitFields data := by
    intro hrgb hfields
    unfold BitFields at hfields
    rw [h.compressionAt, hrgb] at hfields
    exact absurd hfields (by decide)
  unfold NoAlphaMask NoAlphaBits
  rw [hbits, hbits]
  rcases alpha_dibPixel hread with ⟨hformat, hsolid⟩ | ⟨h32, hnone⟩ | ⟨r, g, b, a, hmasks, hformat⟩
  · -- a format without alpha
    refine iff_of_false (fun hboth => ?_) (by omega)
    rw [hboth.2 first hfirst] at hsolid
    cases hsolid
  · -- 32 bits whose last byte is alpha
    refine iff_of_false (fun hboth => ?_) ?_
    · exact ((Dib.filled_zero hboth.2).mp hboth.1).1 ⟨h32, Or.inl hnone⟩
    · rintro (⟨-, hfields, -⟩ | ⟨h16, -⟩)
      · rcases dibMasks_cases h.masks with ⟨hcompression, -⟩ | ⟨-, r, g, b, a, hmasks, -⟩
        · exact hrgb hcompression hfields
        · rw [hnone] at hmasks
          cases hmasks
      · omega
  have halpha : d.alphaMask = a := by
    unfold Dib.alphaMask
    rw [hmasks]
    rfl
  rcases dibMasks_cases h.masks with ⟨hcompression, hown⟩ | ⟨hfields, -⟩
  · -- the masks of 16 bits without any of the bitmap's own
    have h16 : d.bits = 16 ∧ a = 0 := by
      rw [hmasks] at hown
      split at hown
      · next h16 =>
        obtain ⟨-, -, -, hzero⟩ : r = 0x7c00 ∧ g = 0x03e0 ∧ b = 0x001f ∧ a = 0 := by simpa using hown
        exact ⟨h16, hzero⟩
      · cases hown
    refine iff_of_false (fun hboth => ?_) ?_
    · exact ((Dib.filled_zero hboth.2).mp hboth.1).2 ⟨h16.1, halpha.trans h16.2⟩
    · rintro (⟨-, hfields, -⟩ | ⟨-, hfields, -⟩)
      · exact hrgb hcompression hfields
      · exact hrgb hcompression hfields
  obtain ⟨hgiven, hmask, -⟩ := fields_of_masks h hmasks hfields
  rw [hmask]
  have hwidth : ((i32At data 4).getD 0).toNat = d.width := by rw [h.width, Option.getD_some, Int.toNat_natCast]
  have hheight : ((i32At data 8).getD 0).natAbs = d.height := by rw [h.rawHeight, Option.getD_some, Dib.height]
  rw [hwidth, hheight]
  rcases hformat with ⟨h16, -⟩ | ⟨h32, -⟩
  · -- 16 bits with masks: what is read stays as it is where there is a mask for alpha
    have halphas : ∀ y < d.height, ∀ x < d.width, ∀ px, dibPixel d.bits d.masks d.palette (d.row y) x = some px →
        px.getD 3 0 = (channel (pixel16 data (d.line y) x) a).getD 0 := by
      intro y hy x hx px hpx
      rw [hmasks] at hpx
      rw [(alpha_of_masks (by omega) hpx).1 h16, pixel16_eq h hmasks hfields h16 hx hy]
    constructor
    · rintro ⟨hkept, hzero⟩
      have hne : a ≠ 0 := fun ha => ((Dib.filled_zero hzero).mp hkept).2 ⟨h16, halpha.trans ha⟩
      refine .inr ⟨h16, hgiven, hne, fun line hline x hx => ?_⟩
      obtain ⟨px, hmem, hpx⟩ := hpx (d.line line) (Dib.line_lt hline) x hx
      have hat := halphas _ (Dib.line_lt hline) x hx px hpx
      rw [hzero px hmem, Dib.line_line hline] at hat
      obtain ⟨c, hc⟩ := exists_channel hne (pixel16 data line x)
      rw [hc, Option.getD_some] at hat
      rw [hc, hat]
    · rintro (⟨h32, -⟩ | ⟨-, -, hne, hzero⟩)
      · omega
      have hall : ∀ px ∈ rows.flatten, px.getD 3 0 = 0 := by
        intro px hmem
        obtain ⟨y, hy, x, hx, hpx⟩ := (mem_rows hrows).mp hmem
        rw [halphas y hy x hx px hpx, hzero _ (Dib.line_lt hy) x hx]
        rfl
      refine ⟨(Dib.filled_zero hall).mpr ⟨?_, ?_⟩, hall⟩
      · rintro ⟨h32, -⟩
        omega
      · rintro ⟨-, hmask⟩
        exact hne (halpha.symm.trans hmask)
  · -- 32 bits with masks
    constructor
    · rintro ⟨hkept, hzero⟩
      refine .inl ⟨h32, hgiven, ?_⟩
      by_contra hne
      exact ((Dib.filled_zero hzero).mp hkept).1 ⟨h32, Or.inr fun hmask => hne (halpha.symm.trans hmask)⟩
    · rintro (⟨-, -, ha⟩ | ⟨h16, -⟩)
      · have hall : ∀ px ∈ rows.flatten, px.getD 3 0 = 0 := by
          intro px hmem
          obtain ⟨y, hy, x, hx, hpx⟩ := (mem_rows hrows).mp hmem
          rw [hmasks, ha] at hpx
          rw [(alpha_of_masks (by omega) hpx).2 h32, channel_zero]
          rfl
        refine ⟨(Dib.filled_zero hall).mpr ⟨?_, ?_⟩, hall⟩
        · rintro ⟨-, hnone | hne⟩
          · rw [hmasks] at hnone
            cases hnone
          · exact hne (halpha.trans ha)
        · rintro ⟨h16, -⟩
          omega
      · omega

/-! ## There and back -/

theorem chunks_flatten {size count : ℕ} {bytes : List UInt8} (hsize : 0 < size) (h : bytes.length = count * size) :
    (Reads.asChunks size bytes).flatten = bytes ∧ (∀ piece ∈ Reads.asChunks size bytes, piece.length = size) ∧
    (Reads.asChunks size bytes).length = count := by
  have hcount : bytes.length / size = count := by rw [h, Nat.mul_div_cancel _ hsize]
  have hlen : (Reads.asChunks size bytes).length = count := by rw [Reads.length_asChunks, hcount]
  have hpieces : ∀ piece ∈ Reads.asChunks size bytes, piece.length = size := by
    intro piece hpiece
    obtain ⟨i, hi, rfl⟩ := List.mem_map.mp hpiece
    rw [hcount, List.mem_range] at hi
    have hle : (i + 1) * size ≤ count * size := Nat.mul_le_mul_right size hi
    rw [Nat.succ_mul] at hle
    rw [List.length_take, List.length_drop]
    omega
  exact ⟨(Reads.asChunks_eq_iff hsize hpieces (by rw [hlen, h])).mp rfl, hpieces, hlen⟩

theorem exists_pixel (h : l.length = (n + 1) * 4) : ∃ r g b a rest, l = r :: g :: b :: a :: rest := by
  rcases l with _ | ⟨r, _ | ⟨g, _ | ⟨b, _ | ⟨a, rest⟩⟩⟩⟩
  all_goals simp only [List.length_cons, List.length_nil] at h
  all_goals first | omega | exact ⟨r, g, b, a, rest, rfl⟩

theorem getD_bgra (h : l.length = n * 4) (hx : x < n) :
    [(bgra l).getD (x * 4 + 2) 0, (bgra l).getD (x * 4 + 1) 0, (bgra l).getD (x * 4) 0, (bgra l).getD (x * 4 + 3) 0] =
    (l.drop (x * 4)).take 4 := by
  induction n generalizing l x with
  | zero => exact absurd hx (Nat.not_lt_zero x)
  | succ n ih =>
    obtain ⟨r, g, b, a, rest, rfl⟩ := exists_pixel h
    cases x with
    | zero => rfl
    | succ x =>
      simp only [List.length_cons] at h
      have hrest := ih (l := rest) (by omega) (Nat.lt_of_succ_lt_succ hx)
      rw [show (x + 1) * 4 = x * 4 + 4 by omega]
      exact hrest

theorem length_bgra (h : l.length = n * 4) : (bgra l).length = n * 4 := by
  induction n generalizing l with
  | zero =>
    obtain rfl := List.length_eq_zero_iff.mp h
    rfl
  | succ n ih =>
    obtain ⟨r, g, b, a, rest, rfl⟩ := exists_pixel h
    simp only [List.length_cons] at h
    rw [bgra]
    simp only [List.length_cons]
    rw [ih (l := rest) (by omega)]
    omega

theorem pixels_bgra (h : l.length = n * 4) :
    (List.range n).mapM (dibPixel 32 none [] (bgra l)) = some (Reads.asChunks 4 l) := by
  have hcount : l.length / 4 = n := by omega
  unfold Reads.asChunks
  rw [hcount]
  refine mapM_of_eq fun x hx => ?_
  rw [← getD_bgra h (List.mem_range.mp hx)]
  rfl

def Rgba.line (image : Rgba) (y : ℕ) : List UInt8 := (image.bytes.drop (y * (image.width * 4))).take (image.width * 4)

def dibBody (image : Rgba) : List UInt8 := (List.range image.height).reverse.flatMap fun y => bgra (image.line y)

def dibHead (image : Rgba) : List UInt8 :=
  leBytes 4 40 ++ leBytes 4 image.width ++ leBytes 4 image.height ++ leBytes 2 1 ++ leBytes 2 32 ++ leBytes 4 biRgb ++
    leBytes 4 (image.width * 4 * image.height) ++ leBytes 4 3780 ++ leBytes 4 3780 ++ leBytes 4 0 ++ leBytes 4 0

/-- A picture with sides the clipboard takes and all its bytes. -/
structure Rgba.Sound (image : Rgba) : Prop where
  width : 1 ≤ image.width ∧ image.width ≤ maxImageSide
  height : 1 ≤ image.height ∧ image.height ≤ maxImageSide
  bytes : image.bytes.length = 4 * image.width * image.height

theorem Rgba.length_line (h : image.Sound) (hy : y < image.height) : (image.line y).length = image.width * 4 := by
  have hle : (y + 1) * (image.width * 4) ≤ image.height * (image.width * 4) := Nat.mul_le_mul_right _ hy
  have hbytes : image.bytes.length = image.height * (image.width * 4) := by
    rw [h.bytes, Nat.mul_comm 4, Nat.mul_comm]
  rw [Nat.succ_mul] at hle
  unfold line
  rw [List.length_take, List.length_drop]
  omega

theorem rgbaToDib_eq (h : image.Sound) : rgbaToDib image = some (dibHead image ++ dibBody image) := by
  obtain ⟨hw, hw'⟩ := h.width
  obtain ⟨hh, hh'⟩ := h.height
  have hbytes : image.bytes.length = image.width * 4 * image.height := by rw [h.bytes, Nat.mul_comm 4]
  have hsize : image.width * 4 * image.height ≤ 16384 * 4 * 16384 := Nat.mul_le_mul (Nat.mul_le_mul_right 4 hw') hh'
  unfold rgbaToDib
  rw [if_neg (by omega), if_neg (by omega), if_neg (by omega)]
  rfl

theorem lines_reversed (image : Rgba) :
    dibBody image = (List.range image.height).flatMap fun k => bgra (image.line (image.height - 1 - k)) := by
  unfold dibBody
  rw [List.range_eq_range', List.reverse_range', ← List.range_eq_range', List.flatMap_map, Nat.zero_add]

def writtenDib (image : Rgba) : Dib := ⟨image.width, image.height, 32, none, [], dibBody image⟩

theorem stride_written (image : Rgba) : (writtenDib image).stride = image.width * 4 := by
  show (image.width * 32 + 31) / 32 * 4 = _
  omega

theorem length_dibBody (h : image.Sound) : (dibBody image).length = image.height * (image.width * 4) := by
  rw [lines_reversed]
  exact Raster.length_rows fun k hk => length_bgra (Rgba.length_line h (by omega))

theorem length_dibHead (image : Rgba) : (dibHead image).length = 40 := by
  unfold dibHead
  simp only [List.length_append, length_leBytes]

theorem slice_head (image : Rgba) {start : ℕ} (h : start + len ≤ 40) :
    slice (dibHead image ++ dibBody image) start len = some (((dibHead image).drop start).take len) := by
  have hhead := length_dibHead image
  unfold slice
  rw [if_pos (by rw [List.length_append]; omega), List.drop_append_of_le_length (by omega),
    List.take_append_of_le_length (by rw [List.length_drop]; omega)]

theorem u32At_head {start : ℕ} (h : start + 4 ≤ 40) (hfield : ((dibHead image).drop start).take 4 = leBytes 4 n)
    (hn : n < 2 ^ 32) : u32At (dibHead image ++ dibBody image) start = some n := by
  unfold u32At
  rw [slice_head image h, hfield, Option.map_some, leNat_leBytes hn]

theorem i32At_head {start : ℕ} (h : start + 4 ≤ 40) (hfield : ((dibHead image).drop start).take 4 = leBytes 4 n)
    (hn : n ≤ maxImageSide) : i32At (dibHead image ++ dibBody image) start = some (n : ℤ) := by
  have hside : maxImageSide = 16384 := rfl
  unfold i32At
  rw [u32At_head h hfield (by omega)]
  show some (if (n : ℤ) < 2 ^ 31 then (n : ℤ) else _) = _
  rw [if_pos (by omega)]

theorem parted_written (h : image.Sound) :
    Parted (dibHead image ++ dibBody image) (writtenDib image) 40 0 0 40 40 := by
  obtain ⟨hw, hw'⟩ := h.width
  obtain ⟨hh, hh'⟩ := h.height
  have hhead := length_dibHead image
  have hbody := length_dibBody h
  have hbits : u16At (dibHead image ++ dibBody image) 14 = some 32 := by
    unfold u16At
    rw [slice_head image (by decide)]
    rfl
  refine ⟨u32At_head (by decide) rfl (by decide), ⟨by decide, ?_⟩, i32At_head (by decide) rfl hw', i32At_head (by decide) rfl hh', hbits,
    u32At_head (by decide) rfl (by decide), u32At_head (by decide) rfl (by decide), ⟨hw, hh, hw', hh'⟩, rfl, rfl, ?_⟩
  · rw [List.length_append]
    omega
  · have hheight' : (writtenDib image).height = image.height := rfl
    unfold slice
    rw [stride_written, hheight', Nat.mul_comm, ← hbody, ← hhead, List.length_append, if_pos (Nat.le_refl _),
      List.drop_left, List.take_length]
    rfl

theorem row_written (h : image.Sound) (hy : y < image.height) : (writtenDib image).row y = bgra (image.line y) := by
  have hlines : ∀ k < image.height, (bgra (image.line (image.height - 1 - k))).length = 1 * (image.width * 4) :=
    fun k hk => (length_bgra (Rgba.length_line h (by omega))).trans (Nat.one_mul _).symm
  have hcell := Raster.cell_rows hlines Nat.one_pos (show image.height - 1 - y < image.height by omega)
  rw [← lines_reversed, Nat.mul_one, Nat.add_zero] at hcell
  have hback : image.height - 1 - (image.height - 1 - y) = y := by omega
  have hnot : ¬(writtenDib image).rawHeight < 0 := Int.not_lt.mpr (Int.natCast_nonneg _)
  unfold Dib.row
  rw [if_neg hnot, stride_written]
  refine Eq.trans hcell ?_
  unfold Raster.cell
  rw [hback, Nat.zero_mul, List.drop_zero, List.take_of_length_le]
  exact (length_bgra (Rgba.length_line h hy)).le

theorem rows_written (h : image.Sound) : ∃ rows, (writtenDib image).rows = some rows ∧
    rows.flatten = image.pixels := by
  obtain ⟨hw, -⟩ := h.width
  have hbytes : image.bytes.length = image.height * (image.width * 4) := by
    rw [h.bytes, Nat.mul_comm 4, Nat.mul_comm]
  refine ⟨(List.range image.height).map fun y => Reads.asChunks 4 (image.line y), ?_, ?_⟩
  · refine mapM_of_eq fun y hy => ?_
    have hy' : y < image.height := List.mem_range.mp hy
    rw [row_written h hy']
    exact pixels_bgra (Rgba.length_line h hy')
  · have hline : ∀ y < image.height, (Reads.asChunks 4 (image.line y)).flatten = image.line y ∧
        ∀ px ∈ Reads.asChunks 4 (image.line y), px.length = 4 := by
      intro y hy
      obtain ⟨hflat, hfour, -⟩ := chunks_flatten (by decide) (Rgba.length_line h hy)
      exact ⟨hflat, hfour⟩
    have hpx : ∀ px ∈ ((List.range image.height).map fun y => Reads.asChunks 4 (image.line y)).flatten,
        px.length = 4 := by
      intro px hpx
      obtain ⟨row, hrow, hpx⟩ := List.mem_flatten.mp hpx
      obtain ⟨y, hy, rfl⟩ := List.mem_map.mp hrow
      exact (hline y (List.mem_range.mp hy)).2 px hpx
    have hall : ((List.range image.height).map fun y => Reads.asChunks 4 (image.line y)).flatten.flatten =
        image.bytes := by
      have hlines : (Reads.asChunks (image.width * 4) image.bytes).flatten = image.bytes :=
        (chunks_flatten (by omega) hbytes).1
      have hcount : image.bytes.length / (image.width * 4) = image.height := by
        rw [hbytes, Nat.mul_div_cancel _ (by omega)]
      unfold Reads.asChunks at hlines
      rw [hcount] at hlines
      rw [List.flatten_flatten, List.map_map]
      refine Eq.trans ?_ hlines
      exact congrArg List.flatten (List.map_congr_left fun y hy => (hline y (List.mem_range.mp hy)).1)
    unfold Rgba.pixels
    rw [← hall, asChunks_flatten hpx]

instance : DecidablePred Rgba.Transparent := fun image => by
  unfold Rgba.Transparent
  infer_instance

theorem dib_back (h : image.Sound) :
    (rgbaToDib image).bind dibToRgba = some (if image.Transparent then image.solid else image) := by
  obtain ⟨rows, hrows, hpixels⟩ := rows_written h
  have hparts := dibParts_eq_some.mpr ⟨_, _, _, _, _, parted_written h⟩
  rw [rgbaToDib_eq h, Option.bind_some, dibToRgba_eq, hparts, Option.bind_some, hrows, Option.map_some]
  have hbytes : image.pixels.flatten = image.bytes :=
    (chunks_flatten (by decide) (h.bytes.trans (by rw [Nat.mul_assoc, Nat.mul_comm]))).1
  have hfilled : (writtenDib image).filled rows.flatten = decide image.Transparent := by
    have hany : (writtenDib image).filled image.pixels = !(image.pixels.any fun px => px.getD 3 0 ≠ 0) := by
      unfold Dib.filled
      simp [writtenDib]
    rw [hpixels, hany, Bool.not_eq_eq_eq_not, ← decide_not, List.any_eq]
    apply decide_eq_decide.mpr
    unfold Rgba.Transparent
    simp only [decide_eq_true_eq, not_forall, exists_prop]
  unfold Dib.picture Dib.painted
  rw [hfilled, hpixels]
  split
  · next htransparent => rw [if_pos (of_decide_eq_true htransparent)]; rfl
  · next hvisible =>
    rw [if_neg (fun ht => hvisible (decide_eq_true ht)), hbytes]
    rfl

/-- A picture comes back as it was or solid; no place is out of range for any bytes; what they give has all its
bytes, and is transparent everywhere just where the bitmap's masks say so. -/
theorem bitmaps_exact (image : Rgba) (data : List UInt8) :
    (image.Sound →
      (rgbaToDib image).bind dibToRgba = some (if image.Transparent then image.solid else image)) ∧
    (readDib data).run = .ok (dibToRgba data) ∧
    ∀ answer, dibToRgba data = some answer →
      answer.bytes.length = 4 * answer.width * answer.height ∧
        (¬answer.Transparent ↔ ¬NoAlphaMask data ∧ ¬NoAlphaBits data) := by
  refine ⟨fun h => dib_back h, readDib_eq data, fun answer h => ?_⟩
  rw [dibToRgba_eq] at h
  obtain ⟨d, hd, h⟩ := Option.bind_eq_some_iff.mp h
  obtain ⟨rows, hrows, rfl⟩ := Option.map_eq_some_iff.mp h
  obtain ⟨header, compression, colorsUsed, behind, start, hparts⟩ := dibParts_eq_some.mp hd
  refine ⟨Dib.length_picture hrows, ?_⟩
  rw [transparent_iff hparts hrows, not_or]

/-- A picture of two pixels, one of them half transparent. -/
theorem bitmaps_exact_pair :
    (rgbaToDib ⟨2, 1, [1, 2, 3, 128, 4, 5, 6, 0]⟩).bind dibToRgba = some ⟨2, 1, [1, 2, 3, 128, 4, 5, 6, 0]⟩ := by
  have h := (bitmaps_exact ⟨2, 1, [1, 2, 3, 128, 4, 5, 6, 0]⟩ []).1 ⟨by decide, by decide, by decide⟩
  rwa [if_neg (by decide)] at h

/-- One pixel of 32 bits by masks of red, green and blue: what most programs write. -/
def maskedDib : List UInt8 :=
  leBytes 4 40 ++ leBytes 4 1 ++ leBytes 4 1 ++ leBytes 2 1 ++ leBytes 2 32 ++ leBytes 4 biBitfields ++ leBytes 4 4 ++
    leBytes 4 0 ++ leBytes 4 0 ++ leBytes 4 0 ++ leBytes 4 0 ++ leBytes 4 0xff0000 ++ leBytes 4 0xff00 ++
    leBytes 4 0xff ++ [1, 2, 3, 0]

/-- It comes out transparent everywhere. -/
theorem bitmaps_transparent : ∃ image, dibToRgba maskedDib = some image ∧ image.Transparent :=
  ⟨⟨1, 1, [3, 2, 1, 0]⟩, by decide +kernel, by decide⟩

end Formats

end UwuRdp
