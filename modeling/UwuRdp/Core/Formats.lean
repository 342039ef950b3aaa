import Mathlib.Data.Int.Basic
import UwuRdp.Lib.Bytes
import UwuRdp.Proto.Text

/-!
# Clipboard formats

What crosses the clipboard channel, in Windows' own formats: text as UTF-16, rich text with a header
of offsets, pictures as bitmaps without a file header.
-/

namespace UwuRdp

open Lib

namespace Formats

def maxImageSide : ℕ := 16384

/-! ## Text -/

/-- `char::REPLACEMENT_CHARACTER` -/
def replacement : Char := Char.ofNat 0xfffd

def units : List UInt8 → List ℕ
  | low :: high :: rest => (low.toNat + 256 * high.toNat) :: units rest
  | _ => []

/-- `char::decode_utf16`, with a replacement for each broken surrogate. -/
def decodeUtf16 : List ℕ → Text
  | [] => []
  | u :: rest =>
    if u < 0xd800 ∨ 0xdfff < u then Char.ofNat u :: decodeUtf16 rest
    else if 0xdc00 ≤ u then replacement :: decodeUtf16 rest
    else
      match rest with
      | [] => [replacement]
      | v :: rest' =>
        if 0xdc00 ≤ v ∧ v ≤ 0xdfff then
          Char.ofNat (0x10000 + (u - 0xd800) * 0x400 + (v - 0xdc00)) :: decodeUtf16 rest'
        else replacement :: decodeUtf16 (v :: rest')

/-- `CF_UNICODETEXT` up to the first NUL. -/
def decodeUtf16Text (data : List UInt8) : Text :=
  decodeUtf16 ((units data).takeWhile fun unit => unit ≠ 0)

/-- `char::encode_utf16` -/
def encodeUtf16 (c : Char) : List ℕ :=
  if c.toNat < 0x10000 then [c.toNat]
  else [0xd800 + (c.toNat - 0x10000) / 0x400, 0xdc00 + (c.toNat - 0x10000) % 0x400]

/-- Windows expects CRLF in `CF_UNICODETEXT`; this follows `previous`. -/
def toCrlfFrom (previous : Char) : Text → Text
  | [] => []
  | c :: rest => (if c = '\n' ∧ previous ≠ '\r' then ['\r', c] else [c]) ++ toCrlfFrom c rest

def toCrlf (t : Text) : Text := toCrlfFrom '\x00' t

/-- `CF_UNICODETEXT`: CRLF line ends, UTF-16, NUL-terminated. -/
def encodeUtf16Text (t : Text) : List UInt8 :=
  ((toCrlf t).flatMap encodeUtf16).flatMap (leBytes 2) ++ [0, 0]

/-- `replace("\r\n", "\n")` -/
def crlfToLf : Text → Text
  | '\r' :: '\n' :: rest => '\n' :: crlfToLf rest
  | c :: rest => c :: crlfToLf rest
  | [] => []

/-- Back to the local convention: CRLF stays on Windows, becomes LF elsewhere. -/
def fromRemoteLineEndings (windows : Bool) (t : Text) : Text := if windows then t else crlfToLf t

/-! ## HTML -/

/-- How many bytes follow a first byte of UTF-8, what the first of them may be, and the bits of the
character so far. -/
def utf8Lead (b : ℕ) : Option (ℕ × ℕ × ℕ × ℕ) :=
  if b < 0x80 then some (0, 0, 0, b)
  else if 0xc2 ≤ b ∧ b ≤ 0xdf then some (1, 0x80, 0xbf, b - 0xc0)
  else if b = 0xe0 then some (2, 0xa0, 0xbf, 0)
  else if b = 0xed then some (2, 0x80, 0x9f, 0xd)
  else if 0xe1 ≤ b ∧ b ≤ 0xef then some (2, 0x80, 0xbf, b - 0xe0)
  else if b = 0xf0 then some (3, 0x90, 0xbf, 0)
  else if 0xf1 ≤ b ∧ b ≤ 0xf3 then some (3, 0x80, 0xbf, b - 0xf0)
  else if b = 0xf4 then some (3, 0x80, 0x8f, 4)
  else none

/-- The rest of a character: what it is, or `none` at the first byte that does not belong to it, and
what follows. -/
def utf8Rest : ℕ → ℕ → ℕ → ℕ → List UInt8 → Option Char × List UInt8
  | 0, _, _, bits, data => (some (Char.ofNat bits), data)
  | _ + 1, _, _, _, [] => (none, [])
  | count + 1, low, high, bits, b :: data =>
    if low ≤ b.toNat ∧ b.toNat ≤ high then
      utf8Rest count 0x80 0xbf (bits * 64 + (b.toNat - 0x80)) data
    else (none, b :: data)

/-- The characters of UTF-8, with `none` for every run of bytes that is none; `fuel` counts bytes. -/
def utf8Chars : ℕ → List UInt8 → List (Option Char)
  | 0, _ => []
  | _, [] => []
  | fuel + 1, b :: data =>
    match utf8Lead b.toNat with
    | none => none :: utf8Chars fuel data
    | some (count, low, high, bits) =>
      let (c, rest) := utf8Rest count low high bits data
      c :: utf8Chars fuel rest

/-- `str::from_utf8` -/
def fromUtf8 (data : List UInt8) : Option Text := (utf8Chars data.length data).mapM id

/-- `String::from_utf8_lossy` -/
def fromUtf8Lossy (data : List UInt8) : Text :=
  (utf8Chars data.length data).map fun c => c.getD replacement

/-- `str::lines` -/
def lines (t : Text) : List Text :=
  let parts := t.splitOn '\n'
  let parts := if parts.getLast? = some [] then parts.dropLast else parts
  let ended := if t.getLast? = some '\n' then parts.length else parts.length - 1
  parts.zipIdx.map fun (line, i) =>
    if i < ended ∧ line.getLast? = some '\r' then line.dropLast else line

/-- `str::split_once` -/
def splitOnce (c : Char) (t : Text) : Option (Text × Text) :=
  if c ∈ t then some (t.takeWhile (· ≠ c), (t.dropWhile (· ≠ c)).tail) else none

/-- The number some digits make, unless there are none or one is no digit. -/
def parseDigits (t : Text) : Option ℕ :=
  if t ≠ [] ∧ t.all Char.isDigit then some (t.foldl (fun n c => n * 10 + (c.toNat - '0'.toNat)) 0)
  else none

/-- `str::parse::<i64>` -/
def parseI64 (t : Text) : Option ℤ :=
  let n := match t with
    | '-' :: digits => (parseDigits digits).map fun n => -(n : ℤ)
    | '+' :: digits => (parseDigits digits).map fun n => (n : ℤ)
    | digits => (parseDigits digits).map fun n => (n : ℤ)
  n.filter fun n => decide (-2 ^ 63 ≤ n ∧ n < 2 ^ 63)

/-- An offset of the header; -1 is for one that is not there. -/
def htmlOffset (header : Text) (key : Text) : Option ℕ := do
  let v ← (lines header).findSome? fun line => do
    let (k, v) ← splitOnce ':' line
    if Text.trim k = key then parseI64 (Text.trim v) else none
  if 0 ≤ v then some v.toNat else none

def pick (data : List UInt8) (start stop : Option ℕ) : Option (List UInt8) := do
  let start ← start
  let stop ← stop
  let stop := min stop data.length
  if start < stop then some ((data.take stop).drop start) else none

/-- The fragment of a CF_HTML buffer, or the whole HTML part when the fragment markers are missing or
out of range. -/
def unwrapCfHtml (data : List UInt8) : Option Text := do
  let data := data.takeWhile (· ≠ 0)
  let header ← fromUtf8 (data.takeWhile (· ≠ '<'.toNat.toUInt8))
  let offset (key : String) := htmlOffset header key.toList
  let part ← (pick data (offset "StartFragment") (offset "EndFragment")).or
    (pick data (offset "StartHTML") (offset "EndHTML"))
  some (fromUtf8Lossy part)

def htmlStart : Text := "<html><body>\r\n<!--StartFragment-->".toList

def htmlEnd : Text := "<!--EndFragment-->\r\n</body></html>".toList

/-- `format!("{:010}")` -/
def tenDigits (n : ℕ) : Text := (Nat.toDigits 10 n).leftpad 10 '0'

/-- The header, with the offsets of the whole and of the fragment. -/
def htmlHeader (startHtml endHtml startFragment endFragment : ℕ) : Text :=
  "Version:0.9\r\nStartHTML:".toList ++ tenDigits startHtml ++
  "\r\nEndHTML:".toList ++ tenDigits endHtml ++
  "\r\nStartFragment:".toList ++ tenDigits startFragment ++
  "\r\nEndFragment:".toList ++ tenDigits endFragment ++ "\r\n".toList

/-- An HTML fragment in the CF_HTML header Windows apps expect, NUL-terminated. -/
def wrapCfHtml (fragment : Text) : List UInt8 :=
  let startHtml := Text.utf8Len (htmlHeader 0 0 0 0)
  let startFragment := startHtml + Text.utf8Len htmlStart
  let endFragment := startFragment + Text.utf8Len fragment
  let endHtml := endFragment + Text.utf8Len htmlEnd
  (htmlHeader startHtml endHtml startFragment endFragment ++ htmlStart ++ fragment ++ htmlEnd).flatMap
    String.utf8EncodeChar ++ [0]

/-! ## Pictures -/

/-- A picture as straight RGBA, the top row first. -/
structure Rgba where
  width : ℕ
  height : ℕ
  bytes : List UInt8
deriving DecidableEq

def biRgb : ℕ := 0
def biBitfields : ℕ := 3
def biAlphabitfields : ℕ := 6

/-- `data.get(at..at + len)` -/
def slice (data : List UInt8) (start len : ℕ) : Option (List UInt8) :=
  if start + len ≤ data.length then some ((data.drop start).take len) else none

def u16At (data : List UInt8) (start : ℕ) : Option ℕ := (slice data start 2).map leNat

def u32At (data : List UInt8) (start : ℕ) : Option ℕ := (slice data start 4).map leNat

def i32At (data : List UInt8) (start : ℕ) : Option ℤ :=
  (u32At data start).map fun n => if n < 2 ^ 31 then n else n - 2 ^ 32

/-- `u32::trailing_zeros` of a mask that is not zero. -/
def trailingZeros : ℕ → ℕ → ℕ
  | 0, _ => 0
  | fuel + 1, mask => if mask % 2 = 1 then 0 else trailingZeros fuel (mask / 2) + 1

/-- One channel of a bit-field pixel, scaled to 0..=255. -/
def channel (pixel mask : ℕ) : Option UInt8 :=
  if mask = 0 then none
  else
    let zeros := trailingZeros 32 mask
    let value := (pixel &&& mask) >>> zeros
    let largest := mask >>> zeros
    some (UInt8.ofNat ((value * 255 + largest / 2) / largest))

/-- The masks of red, green, blue and alpha, if pixels are read by masks, and where the header with
them ends. -/
def dibMasks (data : List UInt8) (header bits compression : ℕ) : Option (Option (List ℕ) × ℕ) :=
  if compression = biRgb then some (if bits = 16 then some [0x7c00, 0x03e0, 0x001f, 0] else none, header)
  else if compression = biBitfields ∨ compression = biAlphabitfields then
    if 56 ≤ header then do
      -- V4 and V5 headers carry the masks themselves, that of alpha too.
      let masks ← [40, 44, 48, 52].mapM (u32At data)
      some (some masks, header)
    else do
      let count := if compression = biAlphabitfields then 4 else 3
      let masks ← (List.range count).mapM fun i => u32At data (header + i * 4)
      some (some (masks ++ List.replicate (4 - count) 0), header + count * 4)
  else none

def dibPalette (data : List UInt8) (start bits colorsUsed : ℕ) :
    Option (List (UInt8 × UInt8 × UInt8) × ℕ) :=
  if bits ≤ 8 then do
    let count := if colorsUsed = 0 then 2 ^ bits else min colorsUsed 256
    let table ← slice data start (count * 4)
    let colors := (List.range count).map fun i =>
      (table.getD (i * 4 + 2) 0, table.getD (i * 4 + 1) 0, table.getD (i * 4) 0)
    some (colors, start + count * 4)
  else some ([], start)

def dibPixel (bits : ℕ) (masks : Option (List ℕ)) (palette : List (UInt8 × UInt8 × UInt8))
    (src : List UInt8) (x : ℕ) : Option (List UInt8) :=
  if bits = 8 then do
    let (r, g, b) ← palette[(src.getD x 0).toNat]?
    some [r, g, b, 255]
  else
    match bits, masks with
    | 16, some [r, g, b, a] => byMasks (leNat ((src.drop (x * 2)).take 2)) r g b a
    | 32, some [r, g, b, a] => byMasks (leNat ((src.drop (x * 4)).take 4)) r g b a
    | 24, none => some [src.getD (x * 3 + 2) 0, src.getD (x * 3 + 1) 0, src.getD (x * 3) 0, 255]
    | 32, none => some [src.getD (x * 4 + 2) 0, src.getD (x * 4 + 1) 0, src.getD (x * 4) 0,
        src.getD (x * 4 + 3) 0]
    | _, _ => none
where
  /-- The channels of a pixel of bit fields. -/
  byMasks (pixel r g b a : ℕ) : Option (List UInt8) := do
    let red ← channel pixel r
    let green ← channel pixel g
    let blue ← channel pixel b
    some [red, green, blue, (channel pixel a).getD 0]

/-- `CF_DIB` and `CF_DIBV5`. A picture of 32 bits a pixel whose alpha is all zero comes out opaque. -/
def dibToRgba (data : List UInt8) : Option Rgba := do
  let header ← u32At data 0
  if header < 40 ∨ data.length < header then none
  let width ← i32At data 4
  let rawHeight ← i32At data 8
  let bits ← u16At data 14
  let compression ← u32At data 16
  let colorsUsed ← u32At data 32
  if width < 0 then none
  let width := width.toNat
  let height := rawHeight.natAbs
  if width = 0 ∨ height = 0 ∨ maxImageSide < width ∨ maxImageSide < height then none
  let (masks, start) ← dibMasks data header bits compression
  let (palette, start) ← dibPalette data start bits colorsUsed
  let stride := (width * bits + 31) / 32 * 4
  let pixels ← slice data start (stride * height)
  let rows ← (List.range height).mapM fun y =>
    let src := (pixels.drop ((if rawHeight < 0 then y else height - 1 - y) * stride)).take stride
    (List.range width).mapM (dibPixel bits masks palette src)
  let out := rows.flatten
  let anyAlpha := out.any fun px => px.getD 3 0 ≠ 0
  let alphaMask := (masks.bind (·[3]?)).getD 0
  let hasAlphaChannel : Bool := bits = 32 ∧ (masks = none ∨ alphaMask ≠ 0)
  let filled : Bool := (hasAlphaChannel && !anyAlpha) || (bits = 16 ∧ alphaMask = 0 : Bool)
  let out := if filled then out.map fun px => px.set 3 255 else out
  some ⟨width, height, out.flatten⟩

def bgra : List UInt8 → List UInt8
  | r :: g :: b :: a :: rest => b :: g :: r :: a :: bgra rest
  | _ => []

/-- `CF_DIB`: 32 bits per pixel, the bottom row first. -/
def rgbaToDib (image : Rgba) : Option (List UInt8) :=
  let row := image.width * 4
  if image.width = 0 ∨ image.height = 0 ∨ maxImageSide < image.width ∨ maxImageSide < image.height then none
  else if image.bytes.length < row * image.height then none
  else if 2 ^ 32 ≤ row * image.height then none
  else
    some (leBytes 4 40 ++ leBytes 4 image.width ++ leBytes 4 image.height ++ leBytes 2 1 ++ leBytes 2 32 ++
      leBytes 4 biRgb ++ leBytes 4 (row * image.height) ++ leBytes 4 3780 ++ leBytes 4 3780 ++ leBytes 4 0 ++
      leBytes 4 0 ++
      (List.range image.height).reverse.flatMap fun y => bgra ((image.bytes.drop (y * row)).take row))

/-- A lone surrogate is replaced, an odd byte at the end ignored, and nothing is read past a NUL. -/
example : decodeUtf16Text [0x00, 0xd8, 0x41, 0x00, 0x00, 0x00, 0x42] = [replacement, 'A'] := by decide

end Formats

end UwuRdp
