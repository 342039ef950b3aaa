import UwuRdp.Core.Formats
import UwuRdp.Lib.Utf8
import UwuRdp.Proto.Uuid

/-!
# Links

`uwurdp://connect/<host-id>` opens the desktop of a host the person already has. Anything that is not exactly this
form is refused, in whatever of its parts it differs. What the id's library makes of a text is a parameter: it
only has to read the hyphenated form.
-/

namespace UwuRdp

open Lib

/-- What a link asks for. -/
inductive DeepLink where
  /-- Connect to the host with this record id. -/
  | connect (id : Uuid)
  /-- A `uwurdp:` link of any other form. -/
  | invalid
deriving DecidableEq

namespace DeepLink

def scheme : Text := "uwurdp".toList

/-- `u8::is_ascii_hexdigit` -/
def isAsciiHexdigit (b : UInt8) : Bool := (48 ≤ b && b ≤ 57) || (65 ≤ b && b ≤ 70) || (97 ≤ b && b ≤ 102)

/-- `str::eq_ignore_ascii_case` -/
def eqIgnoreAsciiCase (s t : Text) : Bool := Text.toAsciiLowercase s = Text.toAsciiLowercase t

/-- `str::strip_prefix` -/
def stripPrefix (start t : Text) : Option Text := if start <+: t then some (t.drop start.length) else none

/-- `str::strip_suffix` of a character -/
def stripSuffix (c : Char) (t : Text) : Option Text := if t.getLast? = some c then some t.dropLast else none

section Parse

variable (tryParse : Text → Option Uuid)

/-- 36 bytes: a hyphen in four places, digits in the others. -/
def shaped (bytes : List UInt8) : Bool :=
  bytes.length = 36 && bytes.zipIdx.all fun e =>
    if e.2 = 8 ∨ e.2 = 13 ∨ e.2 = 18 ∨ e.2 = 23 then e.1 = 45 else isAsciiHexdigit e.1

/-- An id in its hyphenated form only, and not the nil one. -/
def parseId (text : Text) : Option Uuid :=
  if shaped text.utf8 then (tryParse text).filter fun id => id ≠ 0 else none

/-- What a `uwurdp:` link names. -/
def connectId (rest : Text) : Option Uuid := do
  let rest ← stripPrefix "//".toList rest
  let (host, path) ← Utf8.splitAt rest 7
  if eqIgnoreAsciiCase host "connect".toList then
    let id ← stripPrefix "/".toList path
    parseId tryParse ((stripSuffix '/' id).getD id)
  else none

/-- Reads a link; `none` for one that is not `uwurdp:` at all. -/
def parse (link : Text) : Option DeepLink := do
  let (before, rest) ← Formats.splitOnce ':' link
  if eqIgnoreAsciiCase before scheme then
    some (match connectId tryParse rest with
      | some id => .connect id
      | none => .invalid)
  else none

end Parse

/-! ## Its parts -/

variable {t a : Text} {c : Char}

theorem stripPrefix_eq_some {start rest : Text} : stripPrefix start t = some rest ↔ t = start ++ rest := by
  unfold stripPrefix
  split
  · next h =>
    obtain ⟨rest', rfl⟩ := h
    rw [List.drop_left, Option.some.injEq]
    exact ⟨fun h => by rw [h], fun h => List.append_cancel_left h⟩
  · next h => exact iff_of_false (fun he => by cases he) fun he => h ⟨rest, he.symm⟩

theorem splitOnce_append (b : Text) (h : c ∉ a) : Formats.splitOnce c (a ++ c :: b) = some (a, b) := by
  have htake : ∀ d ∈ a, decide (d ≠ c) = true := fun d hd => decide_eq_true fun he => h (he ▸ hd)
  unfold Formats.splitOnce
  rw [if_pos (List.mem_append_right _ List.mem_cons_self), List.takeWhile_append_of_pos htake,
    List.dropWhile_append_of_pos htake]
  simp

theorem splitOnce_eq_some {b : Text} : Formats.splitOnce c t = some (a, b) ↔ t = a ++ c :: b ∧ c ∉ a := by
  constructor
  · intro h
    have hmem : c ∈ t := by
      by_contra hnot
      unfold Formats.splitOnce at h
      rw [if_neg hnot] at h
      cases h
    obtain ⟨a', b', rfl, hnot⟩ := List.eq_append_cons_of_mem hmem
    rw [splitOnce_append b' hnot] at h
    cases h
    exact ⟨rfl, hnot⟩
  · rintro ⟨rfl, hnot⟩
    exact splitOnce_append b hnot

theorem hexdigit_iff : (Utf8.Ascii c ∧ isAsciiHexdigit (Utf8.byte c) = true) ↔
    ∃ d < 16, Text.asciiLowercase c = Nat.digitChar d := by
  have hall : ∀ n < 128, isAsciiHexdigit (Utf8.byte (Char.ofNat n)) = true ↔
      ∃ d < 16, Text.asciiLowercase (Char.ofNat n) = Nat.digitChar d := by decide +kernel
  constructor
  · rintro ⟨hascii, hdigit⟩
    have h := hall c.toNat hascii
    rw [Char.ofNat_toNat] at h
    exact h.mp hdigit
  · rintro ⟨d, hd, he⟩
    have hascii : Utf8.Ascii c := by
      have hdigit : ∀ d < 16, Utf8.Ascii (Nat.digitChar d) := by decide
      by_contra hwide
      unfold Text.asciiLowercase at he
      rw [if_neg fun h => hwide (Nat.lt_of_le_of_lt h.2 (by decide))] at he
      exact hwide (he ▸ hdigit d hd)
    have h := hall c.toNat hascii
    rw [Char.ofNat_toNat] at h
    exact ⟨hascii, h.mpr ⟨d, hd, he⟩⟩

theorem shaped_eq_true {bytes : List UInt8} : shaped bytes = true ↔ bytes.length = 36 ∧
    ∀ i b, bytes[i]? = some b → if i = 8 ∨ i = 13 ∨ i = 18 ∨ i = 23 then b = 45 else isAsciiHexdigit b = true := by
  unfold shaped
  rw [Bool.and_eq_true, decide_eq_true_eq, List.all_eq_true]
  refine and_congr_right fun _ => ⟨fun h i b hb => ?_, fun h e he => ?_⟩
  · have hat := h (b, i) (List.mk_mem_zipIdx_iff_getElem?.mpr hb)
    split at hat
    · next hplace => rwa [if_pos hplace, ← decide_eq_true_eq (p := b = 45)]
    · next hplace => rwa [if_neg hplace]
  · have hat := h e.2 e.1 (List.mk_mem_zipIdx_iff_getElem?.mp he)
    split
    · next hplace => rwa [if_pos hplace, ← decide_eq_true_eq (p := e.1 = 45)] at hat
    · next hplace => rwa [if_neg hplace] at hat

theorem hyphen_iff (hc : Utf8.Ascii c) : Utf8.byte c = 45 ↔ c = '-' := by
  constructor
  · intro h
    have hnum := Utf8.toNat_byte hc
    rw [h] at hnum
    exact Char.toNat_inj.mp hnum.symm
  · rintro rfl
    rfl

theorem lowercase_hyphen : Text.asciiLowercase c = '-' ↔ c = '-' := by
  unfold Text.asciiLowercase
  split
  · next h =>
    have hall : ∀ n, 65 ≤ n → n ≤ 90 → Char.ofNat (n + 32) ≠ '-' ∧ Char.ofNat n ≠ '-' := by decide
    have hc := hall c.toNat h.1 h.2
    rw [Char.ofNat_toNat] at hc
    exact iff_of_false hc.1 hc.2
  · exact Iff.rfl

theorem size_of_lowercase {low : Text} (h : Text.toAsciiLowercase t = low) (hlow : ∀ c ∈ low, Utf8.Ascii c) :
    Utf8.size t = low.length := by
  subst h
  have hascii : ∀ c ∈ t, Utf8.Ascii c := by
    intro c hc
    by_contra hwide
    have hin := hlow _ (List.mem_map_of_mem hc)
    unfold Text.asciiLowercase at hin
    rw [if_neg fun h => hwide (Nat.lt_of_le_of_lt h.2 (by decide))] at hin
    exact hwide hin
  rw [Utf8.size_ascii hascii, Text.toAsciiLowercase, List.length_map]

theorem shaped_iff : shaped t.utf8 = true ↔ ∃ u, u < 2 ^ 128 ∧ Text.toAsciiLowercase t = Uuid.hyphenated u := by
  have hutf8 : t.utf8 = Utf8.encode t := rfl
  have hlower : ∀ (i : ℕ) c, t[i]? = some c → (Text.toAsciiLowercase t)[i]? = some (Text.asciiLowercase c) := by
    intro i c hc
    rw [Text.toAsciiLowercase, List.getElem?_map, hc]
    rfl
  have hback : ∀ (i : ℕ) c, (Text.toAsciiLowercase t)[i]? = some c → ∃ d, t[i]? = some d ∧ Text.asciiLowercase d = c := by
    intro i c hc
    rw [Text.toAsciiLowercase, List.getElem?_map] at hc
    exact Option.map_eq_some_iff.mp hc
  have hlen : (Text.toAsciiLowercase t).length = t.length := List.length_map _
  rw [Uuid.exists_hyphenated_iff, shaped_eq_true, hutf8, hlen]
  constructor
  · rintro ⟨hsize, hall⟩
    have hascii : ∀ c ∈ t, Utf8.Ascii c := by
      apply Utf8.ascii_of_bytes
      intro b hb
      obtain ⟨i, hi⟩ := List.mem_iff_getElem?.mp hb
      have hat := hall i b hi
      split at hat
      · rw [hat]
        decide
      · have hsmall : ∀ n < 256, isAsciiHexdigit (UInt8.ofNat n) = true → n < 128 := by decide +kernel
        exact hsmall b.toNat b.toNat_lt (by rwa [UInt8.ofNat_toNat])
    rw [Utf8.encode_ascii hascii] at hsize hall
    rw [List.length_map] at hsize
    refine ⟨hsize, fun i c hc => ?_⟩
    obtain ⟨d, hd, rfl⟩ := hback i c hc
    have hdascii := hascii d (List.mem_of_getElem? hd)
    have hat := hall i (Utf8.byte d) (by rw [List.getElem?_map, hd]; rfl)
    split at hat
    · next hplace =>
      rw [if_pos hplace, lowercase_hyphen]
      exact (hyphen_iff hdascii).mp hat
    · next hplace =>
      rw [if_neg hplace]
      exact hexdigit_iff.mp ⟨hdascii, hat⟩
  · rintro ⟨hsize, hall⟩
    have heach : ∀ (i : ℕ) c, t[i]? = some c → Utf8.Ascii c ∧
        if i = 8 ∨ i = 13 ∨ i = 18 ∨ i = 23 then c = '-' else isAsciiHexdigit (Utf8.byte c) = true := by
      intro i c hc
      have hat := hall i _ (hlower i c hc)
      split at hat
      · next hplace =>
        rw [if_pos hplace]
        obtain rfl := lowercase_hyphen.mp hat
        exact ⟨by decide, rfl⟩
      · next hplace =>
        rw [if_neg hplace]
        exact hexdigit_iff.mpr hat
    have hascii : ∀ c ∈ t, Utf8.Ascii c := by
      intro c hc
      obtain ⟨i, hi⟩ := List.mem_iff_getElem?.mp hc
      exact (heach i c hi).1
    rw [Utf8.encode_ascii hascii, List.length_map]
    refine ⟨hsize, fun i b hb => ?_⟩
    rw [List.getElem?_map] at hb
    obtain ⟨c, hc, rfl⟩ := Option.map_eq_some_iff.mp hb
    obtain ⟨hcascii, hat⟩ := heach i c hc
    split at hat
    · next hplace =>
      rw [if_pos hplace]
      exact (hyphen_iff hcascii).mpr hat
    · next hplace => rwa [if_neg hplace]

/-! ## The grammar -/

section Grammar

variable {tryParse : Text → Option Uuid} {s : Text} {u : Uuid}

/-- The part before the first colon is there, and is the scheme. -/
def Ours (s : Text) : Prop :=
  ∃ before rest, s = before ++ ':' :: rest ∧ ':' ∉ before ∧ Text.toAsciiLowercase before = "uwurdp".toList

/-- `uwurdp://connect/`, in any case, the hyphenated form of an id that is not nil, and at most one slash. -/
def LinksTo (s : Text) (u : Uuid) : Prop :=
  ∃ before host id tail, s = before ++ "://".toList ++ host ++ '/' :: (id ++ tail) ∧
    Text.toAsciiLowercase before = "uwurdp".toList ∧ Text.toAsciiLowercase host = "connect".toList ∧
    Text.toAsciiLowercase id = u.hyphenated ∧ (tail = [] ∨ tail = ['/']) ∧ u ≠ 0 ∧ u < 2 ^ 128

theorem parseId_eq_some (h : Uuid.ReadsHyphenated tryParse) {text : Text} : parseId tryParse text = some u ↔
    Text.toAsciiLowercase text = u.hyphenated ∧ u ≠ 0 ∧ u < 2 ^ 128 := by
  unfold parseId
  constructor
  · intro hparse
    split at hparse
    · next hshaped =>
      obtain ⟨v, hv, hlower⟩ := shaped_iff.mp hshaped
      rw [h text v hv hlower] at hparse
      obtain ⟨he, hne⟩ := Option.filter_eq_some_iff.mp hparse
      cases he
      exact ⟨hlower, of_decide_eq_true hne, hv⟩
    · cases hparse
  · rintro ⟨hlower, hne, hu⟩
    rw [if_pos (shaped_iff.mpr ⟨u, hu, hlower⟩), h text u hu hlower]
    exact Option.filter_eq_some_iff.mpr ⟨rfl, decide_eq_true hne⟩

theorem slash_not_mem {id : Text} (h : Text.toAsciiLowercase id = u.hyphenated) (hu : u < 2 ^ 128) : '/' ∉ id := by
  intro hin
  obtain ⟨i, hi⟩ := List.mem_iff_getElem?.mp hin
  have hat := (Uuid.exists_hyphenated_iff.mp ⟨u, hu, h⟩).2 i '/' (by
    rw [Text.toAsciiLowercase, List.getElem?_map, hi]
    rfl)
  split at hat
  · cases hat
  · obtain ⟨d, hd, he⟩ := hat
    have hnone : ∀ d < 16, '/' ≠ Nat.digitChar d := by decide
    exact hnone d hd he

theorem parseId_stripSuffix (h : Uuid.ReadsHyphenated tryParse) {path : Text} : parseId tryParse
    ((stripSuffix '/' path).getD path) = some u ↔ ∃ id tail, path = id ++ tail ∧ (tail = [] ∨ tail = ['/']) ∧
    Text.toAsciiLowercase id = u.hyphenated ∧ u ≠ 0 ∧ u < 2 ^ 128 := by
  rw [parseId_eq_some h]
  unfold stripSuffix
  constructor
  · rintro ⟨hlower, hne, hu⟩
    split at hlower
    · next hlast =>
      refine ⟨path.dropLast, ['/'], ?_, .inr rfl, hlower, hne, hu⟩
      exact (List.dropLast_append_getLast? '/' hlast).symm
    · exact ⟨path, [], (List.append_nil path).symm, .inl rfl, hlower, hne, hu⟩
  · rintro ⟨id, tail, rfl, rfl | rfl, hlower, hne, hu⟩
    · rw [List.append_nil, if_neg fun hlast => slash_not_mem hlower hu (List.mem_of_getLast? hlast)]
      exact ⟨hlower, hne, hu⟩
    · rw [if_pos List.getLast?_concat]
      refine ⟨?_, hne, hu⟩
      rw [Option.getD_some, List.dropLast_concat]
      exact hlower

theorem connectId_eq_some (h : Uuid.ReadsHyphenated tryParse) {rest : Text} :
    connectId tryParse rest = some u ↔ ∃ host id tail, rest = "//".toList ++ (host ++ '/' :: (id ++ tail)) ∧
      Text.toAsciiLowercase host = "connect".toList ∧ (tail = [] ∨ tail = ['/']) ∧
      Text.toAsciiLowercase id = u.hyphenated ∧ u ≠ 0 ∧ u < 2 ^ 128 := by
  unfold connectId
  constructor
  · intro hconnect
    obtain ⟨rest', hslashes, hconnect⟩ := Option.bind_eq_some_iff.mp hconnect
    obtain ⟨⟨host, path⟩, hsplit, hconnect⟩ := Option.bind_eq_some_iff.mp hconnect
    dsimp only at hconnect
    split at hconnect
    · next hhost =>
      obtain ⟨id, hslash, hconnect⟩ := Option.bind_eq_some_iff.mp hconnect
      obtain ⟨id, tail, rfl, htail, hlower, hne, hu⟩ := (parseId_stripSuffix h).mp hconnect
      obtain rfl := stripPrefix_eq_some.mp hslashes
      obtain ⟨rfl, -⟩ := Utf8.splitAt_eq_some.mp hsplit
      obtain rfl := stripPrefix_eq_some.mp hslash
      refine ⟨host, id, tail, rfl, ?_, htail, hlower, hne, hu⟩
      exact (of_decide_eq_true hhost).trans (by decide)
    · cases hconnect
  · rintro ⟨host, id, tail, rfl, hhost, htail, hlower, hne, hu⟩
    have hsize : Utf8.size host = 7 := by
      rw [size_of_lowercase hhost (by decide)]
      rfl
    rw [stripPrefix_eq_some.mpr rfl, Option.bind_eq_bind, Option.bind_some,
      Utf8.splitAt_eq_some.mpr ⟨rfl, hsize⟩, Option.bind_eq_bind, Option.bind_some]
    dsimp only
    have hconnect : eqIgnoreAsciiCase host "connect".toList = true := decide_eq_true (hhost.trans (by decide))
    have hslash : stripPrefix "/".toList ('/' :: (id ++ tail)) = some (id ++ tail) := stripPrefix_eq_some.mpr rfl
    rw [if_pos hconnect, hslash, Option.bind_some]
    exact (parseId_stripSuffix h).mpr ⟨id, tail, rfl, htail, hlower, hne, hu⟩

theorem parse_eq_none : parse tryParse s = none ↔ ¬Ours s := by
  unfold parse
  constructor
  · rintro h ⟨before, rest, rfl, hcolon, hscheme⟩
    rw [splitOnce_append rest hcolon, Option.bind_eq_bind, Option.bind_some] at h
    dsimp only at h
    have hours : eqIgnoreAsciiCase before scheme = true := decide_eq_true (hscheme.trans (by decide))
    rw [if_pos hours] at h
    cases h
  · intro h
    rcases hsplit : Formats.splitOnce ':' s with _ | ⟨before, rest⟩
    · rfl
    · obtain ⟨rfl, hcolon⟩ := splitOnce_eq_some.mp hsplit
      rw [Option.bind_eq_bind, Option.bind_some]
      refine if_neg fun hours => h ⟨before, rest, rfl, hcolon, ?_⟩
      exact (of_decide_eq_true hours).trans (by decide)

theorem parse_eq_connect (h : Uuid.ReadsHyphenated tryParse) :
    parse tryParse s = some (.connect u) ↔ LinksTo s u := by
  unfold parse
  constructor
  · intro hparse
    obtain ⟨⟨before, rest⟩, hsplit, hparse⟩ := Option.bind_eq_some_iff.mp hparse
    dsimp only at hparse
    split at hparse
    · next hours =>
      split at hparse
      · next id hconnect =>
        obtain rfl : id = u := DeepLink.connect.inj (Option.some.inj hparse)
        obtain ⟨host, id, tail, rfl, hhost, htail, hlower, hne, hu⟩ := (connectId_eq_some h).mp hconnect
        obtain ⟨rfl, hcolon⟩ := splitOnce_eq_some.mp hsplit
        refine ⟨before, host, id, tail, ?_, (of_decide_eq_true hours).trans (by decide), hhost, hlower, htail, hne, hu⟩
        rw [List.append_assoc, List.append_assoc]
        rfl
      · cases hparse
    · cases hparse
  · rintro ⟨before, host, id, tail, rfl, hscheme, hhost, hlower, htail, hne, hu⟩
    have hcolon : ':' ∉ before := by
      intro hin
      have hlow : ':' ∈ Text.toAsciiLowercase before := List.mem_map.mpr ⟨':', hin, by decide⟩
      rw [hscheme] at hlow
      exact absurd hlow (by decide)
    have hshape : before ++ "://".toList ++ host ++ '/' :: (id ++ tail) =
        before ++ ':' :: ("//".toList ++ (host ++ '/' :: (id ++ tail))) := by
      rw [List.append_assoc, List.append_assoc]
      rfl
    rw [hshape, splitOnce_append _ hcolon, Option.bind_eq_bind, Option.bind_some]
    dsimp only
    have hours : eqIgnoreAsciiCase before scheme = true := decide_eq_true (hscheme.trans (by decide))
    rw [if_pos hours, (connectId_eq_some h).mpr ⟨host, id, tail, rfl, hhost, htail, hlower, hne, hu⟩]

/-- A link is read as exactly what it is, and its one cut at a byte is between two characters. -/
theorem parse_exact (h : Uuid.ReadsHyphenated tryParse) (s : Text) : (parse tryParse s = none ↔ ¬Ours s) ∧
    (∀ u, parse tryParse s = some (.connect u) ↔ LinksTo s u) ∧
    (parse tryParse s = some .invalid ↔ Ours s ∧ ∀ u, ¬LinksTo s u) ∧ ∀ rest host path, Utf8.splitAt rest 7 = some
    (host, path) → rest = host ++ path := by
  refine ⟨parse_eq_none, fun u => parse_eq_connect h, ⟨fun hinvalid => ⟨?_, fun u hlinks => ?_⟩, ?_⟩, ?_⟩
  · by_contra hnot
    rw [parse_eq_none.mpr hnot] at hinvalid
    cases hinvalid
  · rw [(parse_eq_connect h).mpr hlinks] at hinvalid
    cases hinvalid
  · rintro ⟨hours, hnone⟩
    rcases hparse : parse tryParse s with _ | ⟨u⟩ | _
    · exact absurd hours (parse_eq_none.mp hparse)
    · exact absurd ((parse_eq_connect h).mp hparse) (hnone u)
    · rfl
  · exact fun rest host path hsplit => (Utf8.splitAt_eq_some.mp hsplit).1

/-- A link in another case, with a slash after it. -/
theorem parse_exact_shouted :
    parse Uuid.ofHyphenated "UwURDP://CONNECT/0F8B2C4E-6a1d-4c3b-9e7f-112233445566/".toList =
      some (.connect 0x0f8b2c4e6a1d4c3b9e7f112233445566) := by
  refine ((parse_exact Uuid.readsHyphenated_ofHyphenated _).2.1 _).mpr ⟨"UwURDP".toList, "CONNECT".toList,
    "0F8B2C4E-6a1d-4c3b-9e7f-112233445566".toList, ['/'], ?_⟩
  decide +kernel

end Grammar

end DeepLink

end UwuRdp
