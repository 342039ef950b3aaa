import UwuRdp.App.Rdg
import UwuRdp.Lib.Planes
import UwuRdp.Lib.Utf8

/-!
# Remote Desktop files

A `.rdp` file is a list of lines `key:type:value`, one file one host. Its text is decoded leniently from one of three
encodings, so that any text can reach the reading of the values. The one that takes bytes out by their places is that
of a sealed password: a place inside a character would stop the program, so it is told apart from text that is
refused. What the decrypter makes of a blob is a parameter.
-/

namespace UwuRdp

open Lib Formats Raster

namespace Rdp

/-- A place inside a character, or past the end. -/
inductive Cut where
  | cut
deriving DecidableEq

inductive ImportError where
  | read (reason : Text)
  | empty
deriving DecidableEq

def defaultPort : UInt16 := 3389

def noise : List Text := ["winposstr".toList]

/-! ## Lines -/

def unitsBe : List UInt8 → List ℕ
  | high :: low :: rest => (low.toNat + 256 * high.toNat) :: unitsBe rest
  | _ => []

/-- The text of a file, by its byte order mark; UTF-8 without one. -/
def decodeText (bytes : List UInt8) : Option Text :=
  match bytes with
  | 0xff :: 0xfe :: rest => some (decodeUtf16 (units rest))
  | 0xfe :: 0xff :: rest => some (decodeUtf16 (unitsBe rest))
  | 0xef :: 0xbb :: 0xbf :: rest => some (fromUtf8Lossy rest)
  | rest => some (fromUtf8Lossy rest)

/-- A line `key:type:value`; only the first two fields are split off. -/
def lineEntry (line : Text) : Option (Text × Text) := do
  let line := Text.trim line
  if line.isEmpty then none
  let (key, rest) ← splitOnce ':' line
  let (_, value) ← splitOnce ':' rest
  some (Text.toAsciiLowercase (Text.trim key), Text.trim value)

def entries (text : Text) : List (Text × Text) := (lines text).filterMap lineEntry

def parseLines (text : Text) : Table Text Text :=
  (entries text).foldl (fun map entry => map.set entry.1 entry.2) Table.empty

def sortedEntries (map : Table Text Text) : List (Text × Text) := map.entries.mergeSort fun a b => Text.le a.1 b.1

/-! ## Values -/

/-- Split `DOMAIN\user`; an explicit domain line takes precedence. -/
def splitUsername (username domainLine : Option Text) : Option Text × Option Text :=
  let domain := domainLine.filter fun d => !d.isEmpty
  match username.filter fun u => !u.isEmpty with
  | none => (none, domain)
  | some u =>
    match splitOnce '\\' u with
    | some (dom, user) => (some user, if domain.isNone && !dom.isEmpty then some dom else domain)
    | none => (some u, domain)

def sliceText (t : Text) (low high : ℕ) : OptionT (Except Cut) Text :=
  match (Utf8.splitAt t low).bind fun parts => Utf8.splitAt parts.2 (high - low) with
  | some parts => pure parts.1
  | none => OptionT.mk (.error .cut)

def hexDigit (c : Char) : Option ℕ :=
  if 48 ≤ c.toNat ∧ c.toNat ≤ 57 then some (c.toNat - 48)
  else if 97 ≤ c.toNat ∧ c.toNat ≤ 102 then some (c.toNat - 87)
  else if 65 ≤ c.toNat ∧ c.toNat ≤ 70 then some (c.toNat - 55)
  else none

/-- `u8::from_str_radix(_, 16)`: digits behind a `+` or none. -/
def fromStrRadix16 (t : Text) : Option UInt8 :=
  let digits := if t.head? = some '+' ∧ t ≠ ['+'] then t.tail else t
  if digits.isEmpty then none
  else
    (digits.mapM hexDigit).bind fun values =>
      let n := values.foldl (fun n d => n * 16 + d) 0
      if n < 256 then some (UInt8.ofNat n) else none

/-- The bytes of a text in hex, two bytes of it at a time. -/
def hexToBytes (hex : Text) : OptionT (Except Cut) (List UInt8) :=
  let hex := hex.filter fun c => !Text.isWhitespace c
  if Text.utf8Len hex % 2 ≠ 0 then OptionT.mk (.ok none)
  else
    (List.range (Text.utf8Len hex / 2)).mapM fun i => do
      let pair ← sliceText hex (2 * i) (2 * i + 2)
      OptionT.mk (.ok (fromStrRadix16 pair))

/-- Drive letters and `*`; what cannot be mapped to a local drive is left out. -/
def driveEntry (entry : Text) : Option Text :=
  if entry = ['*'] then some ['*']
  else
    match Text.trimEndMatches (· = '\\') entry with
    | [letter, ':'] => if letter.isAlpha then some [Text.asciiUppercase letter, ':', '\\'] else none
    | _ => none

def parseDrives (value : Text) : ImportedDrives where
  enabled := false
  paths := ((value.splitOn ';').map Text.trim).foldl (fun paths entry =>
    match driveEntry entry with
    | some path => if paths.contains path then paths else paths ++ [path]
    | none => paths) []

section Values

variable (map : Table Text Text)

def isValue (key value : String) : Bool := map.get? key.toList = some value.toList

def parseDisplay : Option ImportedDisplay :=
  if isValue map "screen mode id" "2" then some .fullScreen
  else if isValue map "smart sizing" "1" || isValue map "dynamic resolution" "1" then some .fitWindow
  else do
    let width ← (map.get? "desktopwidth".toList).bind Rdg.parseU16
    let height ← (map.get? "desktopheight".toList).bind Rdg.parseU16
    some (.fixed width height)

/-- A method of 0 is for no gateway, one of 2 for none on the way to local addresses. -/
def parseGateway : Option ImportedGateway := do
  let address ← (map.get? "gatewayhostname".toList).filter fun h => !h.isEmpty
  if isValue map "gatewayusagemethod" "0" then none
  some { address, port := none, credential := none, useHostCredentials := false
         bypassLocal := isValue map "gatewayusagemethod" "2" }

def parseAudio (value : Text) : Option ImportedAudio :=
  if value = ['0'] then some .local
  else if value = ['1'] then some .remote
  else if value = ['2'] then some .off
  else none

def parseSettings : ImportedSettings where
  display := parseDisplay map
  colorDepth := (map.get? "session bpp".toList).bind Rdg.parseU32
  admin := (map.get? "administrative session".toList).map fun v => v = ['1']
  audio := (map.get? "audiomode".toList).bind parseAudio
  clipboard := (map.get? "redirectclipboard".toList).map fun v => v = ['1']
  gateway := parseGateway map
  drives := (map.get? "drivestoredirect".toList).map parseDrives

def consumed : List Text :=
  ["full address", "server port", "username", "domain", "password 51", "screen mode id", "smart sizing",
    "dynamic resolution", "desktopwidth", "desktopheight", "session bpp", "administrative session", "audiomode",
    "redirectclipboard", "drivestoredirect", "gatewayhostname", "gatewayusagemethod"].map String.toList

def extras : List (Text × Text) :=
  (sortedEntries map).filter fun entry =>
    !(consumed.contains entry.1 || noise.contains entry.1) && !entry.2.isEmpty

/-- The sealed password, opened, and whether one was there that could not be. -/
def readPassword (decrypt : List UInt8 → Option (List UInt8)) : Except Cut (Option (List UInt8) × Bool) :=
  match map.get? "password 51".toList with
  | none => .ok (none, false)
  | some hex => do
    match ← (hexToBytes hex).run with
    | none => .ok (none, false)
    | some blob =>
      if blob.isEmpty then .ok (none, false)
      else
        match decrypt blob with
        | some secret => .ok (some secret, false)
        | none => .ok (none, true)

end Values

/-- One file: one host named after it, and what was found and left out. -/
def parseRdpFile (decrypt : List UInt8 → Option (List UInt8)) (bytes : List UInt8) (fileStem : Text) :
    Except Cut (Except ImportError (ImportBundle × List (Text × Text))) :=
  match decodeText bytes with
  | none => .ok (.error (.read "not UTF-8 or UTF-16".toList))
  | some text =>
    let map := parseLines text
    if map.entries.isEmpty then .ok (.error .empty)
    else do
      let (address, addrPort) := ((map.get? "full address".toList).map Rdg.splitHostPort).getD ([], none)
      let port := (((map.get? "server port".toList).bind Rdg.parseU16).or addrPort).getD defaultPort
      let (username, domain) := splitUsername (map.get? "username".toList) (map.get? "domain".toList)
      let (password, pwFailed) ← readPassword map decrypt
      let (bundle, credential) := ImportBundle.internCredential ⟨[], [], []⟩
        { label := none, username, domain, password, origin := if password.isSome then .unsealed else .inFile }
      let skipped := if pwFailed then
        [("password could not be decrypted".toList,
          "DPAPI could not read it for this user; the username was kept".toList)] else []
      let host : ImportedHost :=
        { name := fileStem, address, port, groupPath := none, credential, comment := none
          settings := parseSettings map, extras := extras map }
      .ok (.ok ({ bundle with hosts := bundle.hosts ++ [host] }, skipped))

/-! ## Places inside a character -/

/-- A character of one byte before a longer one, or one of three bytes or four: the second byte is inside. -/
def Broken (t : Text) : Prop :=
  (∃ c d rest, t = c :: d :: rest ∧ c.utf8Size = 1 ∧ d.utf8Size ≠ 1) ∨ ∃ c rest, t = c :: rest ∧ 3 ≤ c.utf8Size

/-- Pairs of digits, and behind them a pair of bytes that ends inside a character. -/
def CutsCharacter (hex : Text) : Prop :=
  ∃ (pairs : List Text) (rest : Text), hex = pairs.flatten ++ rest ∧ (∀ pair ∈ pairs, pair.length = 2 ∧ (fromStrRadix16 pair).isSome) ∧
    Broken rest

theorem splitAt_zero (t : Text) : Utf8.splitAt t 0 = some ([], t) := by
  cases t <;> rfl

theorem splitAt_two {t : Text} {m : ℕ} (h : Utf8.size t = 2 * (m + 1)) : Utf8.splitAt t 2 = none ↔ Broken t := by
  unfold Broken
  cases t with
  | nil => cases h
  | cons c t =>
    have hpos := c.utf8Size_pos
    rw [Utf8.size_cons] at h
    rw [Utf8.splitAt]
    by_cases htwo : c.utf8Size ≤ 2
    · rw [if_pos htwo, Option.map_eq_none_iff]
      rcases (show c.utf8Size = 1 ∨ c.utf8Size = 2 by omega) with hc | hc
      · rw [hc] at h ⊢
        cases t with
        | nil =>
          have hzero : Utf8.size [] = 0 := rfl
          omega
        | cons d t =>
          rw [Utf8.splitAt]
          by_cases hd : d.utf8Size ≤ 0 + 1
          · have hone : d.utf8Size = 1 := Nat.le_antisymm hd d.utf8Size_pos
            rw [if_pos hd, hone, splitAt_zero]
            refine iff_of_false (fun h => by cases h) ?_
            rintro (⟨c', d', rest, heq, -, hne⟩ | ⟨c', rest, heq, hthree⟩)
            · obtain ⟨-, heq⟩ := List.cons.inj heq
              obtain ⟨rfl, -⟩ := List.cons.inj heq
              exact hne hone
            · obtain ⟨rfl, -⟩ := List.cons.inj heq
              omega
          · rw [if_neg hd]
            exact iff_of_true rfl (.inl ⟨c, d, t, rfl, hc, by omega⟩)
      · rw [hc, splitAt_zero]
        refine iff_of_false (fun h => by cases h) ?_
        rintro (⟨c', d', rest, heq, hone, -⟩ | ⟨c', rest, heq, hthree⟩)
        · obtain ⟨rfl, -⟩ := List.cons.inj heq
          omega
        · obtain ⟨rfl, -⟩ := List.cons.inj heq
          omega
    · rw [if_neg htwo]
      exact iff_of_true rfl (.inr ⟨c, t, rfl, by omega⟩)

theorem ascii_of_hexDigit {c : Char} {d : ℕ} (h : hexDigit c = some d) : Utf8.Ascii c := by
  unfold hexDigit at h
  unfold Utf8.Ascii
  split at h
  · omega
  split at h
  · omega
  split at h
  · omega
  · cases h

variable {pair front rest key value : Text} {i : ℕ}

theorem ascii_of_fromStrRadix16 (h : (fromStrRadix16 pair).isSome) : ∀ c ∈ pair, Utf8.Ascii c := by
  obtain ⟨v, hv⟩ := Option.isSome_iff_exists.mp h
  have hdigits : ∀ {digits : Text} {values : List ℕ}, digits.mapM hexDigit = some values →
      ∀ c ∈ digits, Utf8.Ascii c := by
    intro digits values hread c hc
    obtain ⟨d, -, hd⟩ := (mem_of_mapM hread).1 c hc
    exact ascii_of_hexDigit hd
  unfold fromStrRadix16 at hv
  dsimp only at hv
  split at hv
  · next hplus =>
    split at hv
    · cases hv
    obtain ⟨values, hread, -⟩ := Option.bind_eq_some_iff.mp hv
    intro c hc
    cases pair with
    | nil => cases hc
    | cons p pair =>
      obtain rfl : p = '+' := Option.some.inj hplus.1
      rcases List.mem_cons.mp hc with rfl | hc
      · decide
      · exact hdigits hread c hc
  · split at hv
    · cases hv
    obtain ⟨values, hread, -⟩ := Option.bind_eq_some_iff.mp hv
    exact hdigits hread

/-- The step of `hexToBytes` at a pair. -/
def hexPair (hex : Text) (i : ℕ) : OptionT (Except Cut) UInt8 := do
  let pair ← sliceText hex (2 * i) (2 * i + 2)
  OptionT.mk (.ok (fromStrRadix16 pair))

theorem sliceText_append (hfront : Utf8.size front = 2 * i)
    (hpair : Utf8.size pair = 2) : sliceText (front ++ (pair ++ rest)) (2 * i) (2 * i + 2) = pure pair := by
  have hfirst : Utf8.splitAt (front ++ (pair ++ rest)) (2 * i) = some (front, pair ++ rest) :=
    Utf8.splitAt_eq_some.mpr ⟨rfl, hfront⟩
  have hsecond : Utf8.splitAt (pair ++ rest) 2 = some (pair, rest) := Utf8.splitAt_eq_some.mpr ⟨rfl, hpair⟩
  unfold sliceText
  rw [hfirst, Option.bind_some, Nat.add_sub_cancel_left, hsecond]

theorem sliceText_broken (hfront : Utf8.size front = 2 * i)
    (hrest : Utf8.splitAt rest 2 = none) : sliceText (front ++ rest) (2 * i) (2 * i + 2) = OptionT.mk (.error .cut) := by
  have hfirst : Utf8.splitAt (front ++ rest) (2 * i) = some (front, rest) := Utf8.splitAt_eq_some.mpr ⟨rfl, hfront⟩
  unfold sliceText
  rw [hfirst, Option.bind_some, Nat.add_sub_cancel_left, hrest]

theorem hexPairs_run {m : ℕ} : ∀ {i : ℕ} {front rest : Text}, Utf8.size front = 2 * i → Utf8.size rest = 2 * m →
    (((List.range' i m).mapM (hexPair (front ++ rest))).run = .error .cut ↔ CutsCharacter rest) ∧
    (¬CutsCharacter rest → ∃ answer, ((List.range' i m).mapM (hexPair (front ++ rest))).run = .ok answer) := by
  induction m with
  | zero =>
    intro i front rest hfront hrest
    have hlen := Utf8.length_le_size rest
    obtain rfl : rest = [] := List.eq_nil_of_length_eq_zero (by omega)
    refine ⟨iff_of_false (fun h => by cases h) ?_, fun _ => ⟨some [], rfl⟩⟩
    rintro ⟨pairs, rest, hnil, -, hbroken⟩
    obtain ⟨-, rfl⟩ := List.append_eq_nil_iff.mp hnil.symm
    rcases hbroken with ⟨c, d, rest, h, -⟩ | ⟨c, rest, h, -⟩ <;> cases h
  | succ m ih =>
    intro i front rest hfront hrest
    rw [List.range'_succ, List.mapM_cons]
    cases hsplit : Utf8.splitAt rest 2 with
    | none =>
      have hcut : hexPair (front ++ rest) i = OptionT.mk (.error .cut) := by
        unfold hexPair
        rw [sliceText_broken hfront hsplit]
        rfl
      have hbroken : CutsCharacter rest :=
        ⟨[], rest, rfl, fun p hp => absurd hp List.not_mem_nil, (splitAt_two hrest).mp hsplit⟩
      rw [hcut]
      exact ⟨iff_of_true rfl hbroken, fun h => absurd hbroken h⟩
    | some parts =>
      obtain ⟨pair, rest'⟩ := parts
      obtain ⟨rfl, hpair⟩ := Utf8.splitAt_eq_some.mp hsplit
      have hnot : ¬Broken (pair ++ rest') := fun h => by
        rw [(splitAt_two hrest).mpr h] at hsplit
        cases hsplit
      have hstep : hexPair (front ++ (pair ++ rest')) i = OptionT.mk (.ok (fromStrRadix16 pair)) := by
        unfold hexPair
        rw [sliceText_append hfront hpair]
        rfl
      have hhead : ∀ {first rest : Text}, first.length = 2 → (fromStrRadix16 first).isSome →
          pair ++ rest' = first ++ rest → first = pair ∧ rest = rest' := by
        intro first rest hlen hgood heq
        have hsize : Utf8.size first = 2 := by rw [Utf8.size_ascii (ascii_of_fromStrRadix16 hgood), hlen]
        have hsame := (Utf8.splitAt_eq_some.mpr ⟨heq, hsize⟩).symm.trans hsplit
        exact Prod.mk.inj (Option.some.inj hsame)
      rw [hstep]
      cases hvalue : fromStrRadix16 pair with
      | none =>
        refine ⟨iff_of_false (fun h => by cases h) ?_, fun _ => ⟨none, rfl⟩⟩
        rintro ⟨pairs, rest, heq, hgood, hbroken⟩
        cases pairs with
        | nil =>
          obtain rfl : pair ++ rest' = rest := heq
          exact hnot hbroken
        | cons first pairs =>
          obtain ⟨hlen, hsome⟩ := hgood first List.mem_cons_self
          rw [List.flatten_cons, List.append_assoc] at heq
          obtain ⟨rfl, -⟩ := hhead hlen hsome heq
          rw [hvalue] at hsome
          cases hsome
      | some v =>
        have hsizes : Utf8.size (front ++ pair) = 2 * (i + 1) ∧ Utf8.size rest' = 2 * m := by
          rw [Utf8.size_append] at hrest ⊢
          omega
        have hnext := ih hsizes.1 hsizes.2
        rw [List.append_assoc] at hnext
        have hiff : CutsCharacter (pair ++ rest') ↔ CutsCharacter rest' := by
          constructor
          · rintro ⟨pairs, rest, heq, hgood, hbroken⟩
            cases pairs with
            | nil =>
              obtain rfl : pair ++ rest' = rest := heq
              exact absurd hbroken hnot
            | cons first pairs =>
              obtain ⟨hlen, hsome⟩ := hgood first List.mem_cons_self
              rw [List.flatten_cons, List.append_assoc] at heq
              obtain ⟨rfl, rfl⟩ := hhead hlen hsome heq
              exact ⟨pairs, rest, rfl, fun p hp => hgood p (List.mem_cons_of_mem _ hp), hbroken⟩
          · rintro ⟨pairs, rest, rfl, hgood, hbroken⟩
            refine ⟨pair :: pairs, rest, by rw [List.flatten_cons, List.append_assoc], ?_, hbroken⟩
            have hascii := ascii_of_fromStrRadix16 (Option.isSome_iff_exists.mpr ⟨v, hvalue⟩)
            intro p hp
            rcases List.mem_cons.mp hp with rfl | hp
            · exact ⟨(Utf8.size_ascii hascii).symm.trans hpair, by rw [hvalue]; rfl⟩
            · exact hgood p hp
        rw [hiff]
        generalize ((List.range' (i + 1) m).mapM (hexPair (front ++ (pair ++ rest')))) = tail at hnext ⊢
        obtain ⟨hcut, hread⟩ := hnext
        rcases hrun : tail.run with e | _ | bs
        · obtain rfl : tail = OptionT.mk (.error e) := hrun
          cases e
          exact ⟨iff_of_true rfl (hcut.mp rfl), fun h => absurd (hcut.mp rfl) h⟩
        · obtain rfl : tail = OptionT.mk (.ok none) := hrun
          exact ⟨iff_of_false (fun h => by cases h) (fun h => by cases hcut.mpr h), fun _ => ⟨none, rfl⟩⟩
        · obtain rfl : tail = OptionT.mk (.ok (some bs)) := hrun
          exact ⟨iff_of_false (fun h => by cases h) (fun h => by cases hcut.mpr h), fun _ => ⟨some (v :: bs), rfl⟩⟩

theorem hexToBytes_run (hex : Text) : (∃ answer, (hexToBytes hex).run = .ok answer) ↔
    ¬(Text.utf8Len (hex.filter fun c => !Text.isWhitespace c) % 2 = 0 ∧
      CutsCharacter (hex.filter fun c => !Text.isWhitespace c)) := by
  unfold hexToBytes
  dsimp only
  generalize hex.filter (fun c => !Text.isWhitespace c) = hex
  split
  · next hodd => exact iff_of_true ⟨none, rfl⟩ fun h => hodd h.1
  · next heven =>
    have hsize : Utf8.size hex = 2 * (Text.utf8Len hex / 2) := by
      show Text.utf8Len hex = _
      omega
    obtain ⟨hcut, hread⟩ := @hexPairs_run _ 0 [] hex rfl hsize
    rw [List.nil_append, ← List.range_eq_range'] at hcut hread
    constructor
    · rintro ⟨answer, hanswer⟩ ⟨-, hbroken⟩
      have herror := hcut.mpr hbroken
      rw [show (hexPair hex) = fun i => do
        let pair ← sliceText hex (2 * i) (2 * i + 2)
        OptionT.mk (.ok (fromStrRadix16 pair)) from rfl, hanswer] at herror
      cases herror
    · intro h
      exact hread fun hbroken => h ⟨not_not.mp heven, hbroken⟩

/-! ## The lines of a file -/

def lastValue (l : List (Text × Text)) (key : Text) : Option Text :=
  (l.filter fun entry => entry.1 = key).getLast?.map Prod.snd

theorem get?_foldl_set (l : List (Text × Text)) (map : Table Text Text) (key : Text) :
    (l.foldl (fun map entry => map.set entry.1 entry.2) map).get? key = (lastValue l key).or (map.get? key) := by
  induction l generalizing map with
  | nil => rfl
  | cons entry l ih =>
    rw [List.foldl_cons, ih, Table.get?_set]
    unfold lastValue
    rw [List.filter_cons]
    by_cases hkey : entry.1 = key
    · rw [if_pos hkey.symm, if_pos (decide_eq_true hkey), List.getLast?_cons]
      cases (l.filter fun entry => entry.1 = key).getLast? <;> rfl
    · rw [if_neg (Ne.symm hkey), if_neg (by simpa using hkey)]

theorem get?_parseLines (text key : Text) : (parseLines text).get? key = lastValue (entries text) key := by
  unfold parseLines
  rw [get?_foldl_set]
  exact Option.or_none

theorem filter_of_nodup {l : List (Text × Text)} (hl : (l.map Prod.fst).Nodup)
    (h : (key, value) ∈ l) : l.filter (fun entry => entry.1 = key) = [(key, value)] := by
  induction l with
  | nil => cases h
  | cons entry l ih =>
    rw [List.map_cons, List.nodup_cons] at hl
    rcases List.mem_cons.mp h with rfl | h
    · have hnone : l.filter (fun entry => entry.1 = key) = [] := by
        rw [List.filter_eq_nil_iff]
        intro entry hentry heq
        exact hl.1 (List.mem_map.mpr ⟨entry, hentry, of_decide_eq_true heq⟩)
      rw [List.filter_cons, if_pos (decide_eq_true rfl), hnone]
    · have hne : entry.1 ≠ key := fun heq => hl.1 (heq ▸ List.mem_map_of_mem h)
      rw [List.filter_cons_of_neg (by simpa using hne), ih hl.2 h]

theorem filter_extras {map : Table Text Text} (h : map.get? key = some value) (hvalue : value ≠ [])
    (hmapped : key ∉ consumed) (hnoise : key ∉ noise) :
    (extras map).filter (fun entry => entry.1 = key) = [(key, value)] := by
  have hentries : map.entries.filter (fun entry => entry.1 = key) = [(key, value)] :=
    filter_of_nodup map.nodup (Table.mem_entries.mpr h)
  have hsorted : (sortedEntries map).filter (fun entry => entry.1 = key) = [(key, value)] := by
    have hperm := (List.mergeSort_perm map.entries fun a b => Text.le a.1 b.1).filter fun entry => entry.1 = key
    rw [hentries] at hperm
    exact List.perm_singleton.mp hperm
  have hkept : !(consumed.contains key || noise.contains key) && !value.isEmpty := by
    simp [hmapped, hnoise, hvalue]
  unfold extras
  rw [List.filter_comm, hsorted, List.filter_cons, if_pos hkept, List.filter_nil]

/-! ## Any file -/

/-- The file has a last line `password 51` whose value, its blanks left out, is cut inside a character. -/
def PasswordCuts (bytes : List UInt8) : Prop :=
  ∃ text value, decodeText bytes = some text ∧ lastValue (entries text) "password 51".toList = some value ∧
    Text.utf8Len (value.filter fun c => !Text.isWhitespace c) % 2 = 0 ∧
    CutsCharacter (value.filter fun c => !Text.isWhitespace c)

theorem readPassword_ok {map : Table Text Text} {decrypt : List UInt8 → Option (List UInt8)} :
    (∃ answer, readPassword map decrypt = .ok answer) ↔
      ∀ hex, map.get? "password 51".toList = some hex → ∃ answer, (hexToBytes hex).run = .ok answer := by
  unfold readPassword
  cases map.get? "password 51".toList with
  | none => exact iff_of_true ⟨_, rfl⟩ fun hex h => by cases h
  | some hex =>
    constructor
    · rintro ⟨answer, h⟩ hex' heq
      cases heq
      rcases hrun : (hexToBytes hex).run with e | blob
      · dsimp only at h
        rw [hrun] at h
        cases h
      · exact ⟨blob, rfl⟩
    · intro h
      obtain ⟨blob, hrun⟩ := h hex rfl
      dsimp only
      rw [hrun]
      rcases blob with _ | blob
      · exact ⟨_, rfl⟩
      show ∃ answer, (if blob.isEmpty then Except.ok (none, false) else _) = Except.ok answer
      split
      · exact ⟨_, rfl⟩
      · cases decrypt blob <;> exact ⟨_, rfl⟩

theorem hosts_internCredential (bundle : ImportBundle) (cred : ImportedCredential) :
    (bundle.internCredential cred).1.hosts = bundle.hosts := by
  unfold ImportBundle.internCredential
  split
  · rfl
  · split <;> rfl

theorem password_cuts {bytes : List UInt8} {text : Text} (htext : decodeText bytes = some text)
    (decrypt : List UInt8 → Option (List UInt8)) :
    (∃ answer, readPassword (parseLines text) decrypt = .ok answer) ↔ ¬PasswordCuts bytes := by
  rw [readPassword_ok]
  simp only [hexToBytes_run, get?_parseLines]
  constructor
  · rintro h ⟨text', value, htext', hvalue, hcut⟩
    cases htext.symm.trans htext'
    exact h value hvalue hcut
  · intro h value hvalue hcut
    exact h ⟨text, value, htext, hvalue, hcut⟩

/-- The reading of a file stops just where its password is cut inside a character; what it finds beside the keys it
maps and the noise stands among the host's extras once, with its last value. -/
theorem rdp_file_read (decrypt : List UInt8 → Option (List UInt8)) (bytes : List UInt8) (fileStem : Text) :
    ((∃ answer, parseRdpFile decrypt bytes fileStem = .ok answer) ↔ ¬PasswordCuts bytes) ∧ ∀ bundle skipped,
    parseRdpFile decrypt bytes fileStem = .ok (.ok (bundle, skipped)) → ∃ host text, bundle.hosts = [host] ∧
    decodeText bytes = some text ∧ ∀ key value, lastValue (entries text) key = some value → value ≠ [] → key ∉
    consumed → key ∉ noise → host.extras.filter (fun entry => entry.1 = key) = [(key, value)] := by
  unfold parseRdpFile
  cases htext : decodeText bytes with
  | none =>
    refine ⟨iff_of_true ⟨_, rfl⟩ ?_, fun bundle skipped h => (by cases h)⟩
    rintro ⟨text, value, h, -⟩
    rw [htext] at h
    cases h
  | some text =>
    have hcuts := password_cuts htext decrypt
    dsimp only
    split
    · next hempty =>
      refine ⟨iff_of_true ⟨_, rfl⟩ (hcuts.mp ?_), fun bundle skipped h => (by cases h)⟩
      rw [readPassword_ok, Table.get?_of_entries_nil (List.isEmpty_iff.mp hempty)]
      intro hex h
      cases h
    · rw [← hcuts]
      rcases hpassword : readPassword (parseLines text) decrypt with e | ⟨password, pwFailed⟩
      · refine ⟨iff_of_false ?_ ?_, fun bundle skipped h => (by cases h)⟩
        · rintro ⟨answer, h⟩
          cases h
        · rintro ⟨answer, h⟩
          cases h
      · refine ⟨iff_of_true ⟨_, rfl⟩ ⟨_, rfl⟩, fun bundle skipped h => ?_⟩
        obtain ⟨rfl, -⟩ := Prod.mk.inj (Except.ok.inj (Except.ok.inj h))
        refine ⟨_, text, congrArg (· ++ [_]) (hosts_internCredential _ _), rfl, fun key value hlast hvalue hmapped hnoise => ?_⟩
        exact filter_extras ((get?_parseLines text key).trans hlast) hvalue hmapped hnoise

/-- A file with one line that is not mapped. -/
theorem rdp_file_read_shell : ∃ bundle skipped host,
    parseRdpFile (fun _ => none) (Text.utf8 "shell:s:cmd".toList) "h".toList = .ok (.ok (bundle, skipped)) ∧
      bundle.hosts = [host] ∧
        host.extras.filter (fun entry => entry.1 = "shell".toList) = [("shell".toList, "cmd".toList)] := by
  have hread : ∃ bundle skipped,
      parseRdpFile (fun _ => none) (Text.utf8 "shell:s:cmd".toList) "h".toList = .ok (.ok (bundle, skipped)) :=
    ⟨_, _, rfl⟩
  obtain ⟨bundle, skipped, h⟩ := hread
  obtain ⟨host, text, hhost, htext, hextras⟩ := (rdp_file_read _ _ _).2 bundle skipped h
  have hdecoded : decodeText (Text.utf8 "shell:s:cmd".toList) = some "shell:s:cmd".toList := by decide +kernel
  obtain rfl := Option.some.inj (hdecoded.symm.trans htext)
  exact ⟨bundle, skipped, host, h, hhost,
    hextras _ _ (by decide +kernel) (by decide) (by decide +kernel) (by decide +kernel)⟩

/-- A password of `a`, `é` and `b`: the second byte is inside the `é`. -/
theorem rdp_file_stops :
    parseRdpFile (fun _ => none) (Text.utf8 "password 51:b:aéb".toList) "h".toList = .error .cut := by
  rfl

end Rdp

end UwuRdp
