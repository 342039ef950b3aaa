import UwuRdp.Core.Formats
import UwuRdp.Lib.Reads
import UwuRdp.Lib.Utf8

/-!
# HTML fragments

What the header of `HTML Format` says of a fragment, and what is cut out of the buffer by it. Text goes to bytes and
back as it was; the offsets written with ten digits are the ones read back, whatever stands in the fragment. A
fragment with nothing in it has no bytes between its offsets, and then the whole HTML part is taken for it.
-/

namespace UwuRdp

open Lib

namespace Formats

/-! ## Text from bytes -/

variable {v n : ℕ}

theorem utf8Lead_three (hlow : 0x7ff < v) (hhigh : v ≤ 0xffff) (hvalid : v < 0xd800 ∨ 0xdfff < v) : ∃ low
    high, utf8Lead (v / 4096 % 16 + 0xe0) = some (2, low, high, v / 4096) ∧ low ≤ v / 64 % 64 + 0x80 ∧ v / 64 % 64 +
    0x80 ≤ high := by
  have hmod : v / 4096 % 16 = v / 4096 := Nat.mod_eq_of_lt (by omega)
  rw [hmod]
  unfold utf8Lead
  by_cases hzero : v / 4096 = 0
  · exact ⟨0xa0, 0xbf, by rw [hzero]; rfl, by omega, by omega⟩
  by_cases hd : v / 4096 = 0xd
  · exact ⟨0x80, 0x9f, by rw [hd]; rfl, by omega, by omega⟩
  · refine ⟨0x80, 0xbf, ?_, by omega, by omega⟩
    rw [if_neg (by omega), if_neg (by omega), if_neg (by omega), if_neg (by omega), if_pos (by omega),
      Nat.add_sub_cancel]

theorem utf8Lead_four (hlow : 0xffff < v) (hhigh : v < 0x110000) : ∃ low high, utf8Lead (v / 262144 % 8 + 0xf0) = some
    (3, low, high, v / 262144) ∧ low ≤ v / 4096 % 64 + 0x80 ∧ v / 4096 % 64 + 0x80 ≤ high := by
  have hmod : v / 262144 % 8 = v / 262144 := Nat.mod_eq_of_lt (by omega)
  rw [hmod]
  unfold utf8Lead
  by_cases hzero : v / 262144 = 0
  · exact ⟨0x90, 0xbf, by rw [hzero]; rfl, by omega, by omega⟩
  by_cases hfour : v / 262144 = 4
  · exact ⟨0x80, 0x8f, by rw [hfour]; rfl, by omega, by omega⟩
  · refine ⟨0x80, 0xbf, ?_, by omega, by omega⟩
    rw [if_neg (by omega), if_neg (by omega), if_neg (by omega), if_neg (by omega), if_neg (by omega),
      if_neg (by omega), if_pos (by omega), Nat.add_sub_cancel]

theorem utf8Rest_step {count low high bits : ℕ} {data : List UInt8} (hn : n < 64) (hlow : low ≤ n + 0x80)
    (hhigh : n + 0x80 ≤ high) : utf8Rest (count + 1) low high bits (UInt8.ofNat (n + 0x80) :: data) = utf8Rest count
    0x80 0xbf (bits * 64 + n) data := by
  have hbyte : (UInt8.ofNat (n + 0x80)).toNat = n + 0x80 := UInt8.toNat_ofNat_of_lt' (show n + 0x80 < 2 ^ 8 by omega)
  rw [utf8Rest, hbyte, if_pos ⟨hlow, hhigh⟩, Nat.add_sub_cancel]

theorem utf8Chars_encode (fuel : ℕ) (c : Char) (data : List UInt8) :
    utf8Chars (fuel + 1) (String.utf8EncodeChar c ++ data) = some c :: utf8Chars fuel data := by
  have hvalid : c.toNat < 0xd800 ∨ 0xdfff < c.toNat ∧ c.toNat < 0x110000 := c.valid
  have hback : Char.ofNat c.toNat = c := Char.ofNat_toNat c
  have hbyte : ∀ n < 256, (UInt8.ofNat n).toNat = n := fun n hn => UInt8.toNat_ofNat_of_lt' hn
  have hval : c.val.toNat = c.toNat := rfl
  unfold String.utf8EncodeChar
  dsimp only
  rw [hval]
  generalize c.toNat = v at hvalid hback
  split
  · next h =>
    have hlead : utf8Lead v = some (0, 0, 0, v) := if_pos (by omega)
    rw [List.singleton_append, utf8Chars, hbyte v (by omega), hlead]
    dsimp only
    rw [utf8Rest, hback]
  split
  · next h h' =>
    have hlead : utf8Lead (v / 64 % 32 + 0xc0) = some (1, 0x80, 0xbf, v / 64) := by
      unfold utf8Lead
      rw [if_neg (by omega), if_pos (by omega), Nat.add_sub_cancel, Nat.mod_eq_of_lt (by omega)]
    rw [List.cons_append, List.singleton_append, utf8Chars, hbyte _ (by omega), hlead]
    dsimp only
    rw [utf8Rest_step (Nat.mod_lt _ (by decide)) (by omega) (by omega), utf8Rest, Nat.div_add_mod', hback]
  split
  · next h h' h'' =>
    obtain ⟨low, high, hlead, hlow, hhigh⟩ := utf8Lead_three (by omega) h'' (by omega)
    rw [List.cons_append, List.cons_append, List.singleton_append, utf8Chars, hbyte _ (by omega), hlead]
    dsimp only
    rw [utf8Rest_step (Nat.mod_lt _ (by decide)) hlow hhigh,
      utf8Rest_step (Nat.mod_lt _ (by decide)) (by omega) (by omega), utf8Rest,
      show (v / 4096 * 64 + v / 64 % 64) * 64 + v % 64 = v by omega, hback]
  · next h h' h'' =>
    obtain ⟨low, high, hlead, hlow, hhigh⟩ := utf8Lead_four (v := v) (by omega) (by omega)
    rw [List.cons_append, List.cons_append, List.cons_append, List.singleton_append, utf8Chars, hbyte _ (by omega),
      hlead]
    dsimp only
    rw [utf8Rest_step (Nat.mod_lt _ (by decide)) hlow hhigh,
      utf8Rest_step (Nat.mod_lt _ (by decide)) (by omega) (by omega),
      utf8Rest_step (Nat.mod_lt _ (by decide)) (by omega) (by omega), utf8Rest,
      show ((v / 262144 * 64 + v / 4096 % 64) * 64 + v / 64 % 64) * 64 + v % 64 = v by omega, hback]

theorem utf8Chars_text (t : Text) {fuel : ℕ} (h : t.length ≤ fuel) : utf8Chars fuel (Utf8.encode t) = t.map some := by
  induction t generalizing fuel with
  | nil => cases fuel <;> rfl
  | cons c t ih =>
    obtain ⟨fuel, rfl⟩ : ∃ n, fuel = n + 1 := ⟨fuel - 1, by rw [List.length_cons] at h; omega⟩
    rw [Utf8.encode_cons, utf8Chars_encode, ih (Nat.le_of_succ_le_succ h), List.map_cons]

theorem fromUtf8Lossy_encode (t : Text) : fromUtf8Lossy (Utf8.encode t) = t := by
  unfold fromUtf8Lossy
  rw [utf8Chars_text t (Utf8.length_encode t ▸ Utf8.length_le_size t), List.map_map]
  exact List.map_id t

theorem fromUtf8_encode (t : Text) : fromUtf8 (Utf8.encode t) = some t := by
  unfold fromUtf8
  rw [utf8Chars_text t (Utf8.length_encode t ▸ Utf8.length_le_size t)]
  induction t with
  | nil => rfl
  | cons c t ih =>
    rw [List.map_cons, List.mapM_cons, ih]
    rfl

/-! ## The header -/

theorem lines_append {l rest : Text} (h : '\n' ∉ l) : lines (l ++ '\r' :: '\n' :: rest) = l :: lines rest := by
  have hsplit : (l ++ '\r' :: '\n' :: rest).splitOn '\n' = (l ++ ['\r']) :: rest.splitOn '\n' := by
    rw [← List.singleton_append, ← List.append_assoc]
    apply List.splitOnP_append_cons_of_forall_mem
    · intro c hc
      rcases List.mem_append.mp hc with hc | hc
      · exact beq_eq_false_iff_ne.mpr fun heq => h (heq ▸ hc)
      · rw [List.mem_singleton.mp hc]
        decide
    · exact beq_self_eq_true _
  unfold lines
  rw [hsplit]
  cases rest with
  | nil =>
    rw [List.splitOn_nil]
    simp
  | cons c rest =>
    have hlast : (l ++ '\r' :: '\n' :: c :: rest).getLast? = (c :: rest).getLast? := by
      rw [List.getLast?_append_of_ne_nil _ (by simp)]
      rfl
    have hback : ['\n'].intercalate ((c :: rest).splitOn '\n') = c :: rest := List.intercalate_splitOn '\n'
    have hne : (c :: rest).splitOn '\n' ≠ [] := List.splitOnP_ne_nil _ _
    generalize (c :: rest).splitOn '\n' = q at hback hne
    rw [hlast]
    generalize (c :: rest).getLast? = last
    -- what is left of the last line, when there is no more behind it
    obtain ⟨q', hq'⟩ : ∃ q', q' = if q.getLast? = some [] then q.dropLast else q := ⟨_, rfl⟩
    have hpos : q' ≠ [] := by
      rw [hq']
      split
      · next hempty =>
        intro hdrop
        have hlen := congrArg List.length hdrop
        have hq := List.length_pos_iff.mpr hne
        rw [List.length_dropLast, List.length_nil] at hlen
        obtain ⟨x, rfl⟩ := List.length_eq_one_iff.mp (show q.length = 1 by omega)
        obtain rfl : x = [] := Option.some.inj hempty
        cases hback
      · exact hne
    have hparts : (if ((l ++ ['\r']) :: q).getLast? = some [] then ((l ++ ['\r']) :: q).dropLast
        else (l ++ ['\r']) :: q) = (l ++ ['\r']) :: q' := by
      rw [List.getLast?_cons_of_ne_nil hne, List.dropLast_cons_of_ne_nil hne, hq']
      split <;> rfl
    dsimp only
    rw [hparts, ← hq', List.zipIdx_cons, List.map_cons, List.zipIdx_succ, List.map_map, List.length_cons]
    have hcount := List.length_pos_iff.mpr hpos
    have hended : (if last = some '\n' then q'.length + 1 else q'.length + 1 - 1) =
        (if last = some '\n' then q'.length else q'.length - 1) + 1 := by
      split
      · rfl
      · omega
    rw [hended]
    congr 1
    · rw [List.getLast?_concat, if_pos ⟨Nat.succ_pos _, rfl⟩, List.dropLast_concat]
    · apply List.map_congr_left
      rintro ⟨line, i⟩ -
      simp only [Function.comp, Nat.add_lt_add_iff_right]

theorem isDigit_tenDigits (n : ℕ) : ∀ c ∈ tenDigits n, c.isDigit = true := by
  intro c hc
  rcases List.mem_append.mp hc with hc | hc
  · rw [List.eq_of_mem_replicate hc]
    rfl
  · exact Nat.isDigit_of_mem_toDigits (by decide) (by decide) hc

theorem length_tenDigits (h : n < 10 ^ 10) : (tenDigits n).length = 10 := by
  have hlen : (Nat.toDigits 10 n).length ≤ 10 := (Nat.length_toDigits_le_iff (by decide) (by decide)).mpr h
  unfold tenDigits
  rw [List.length_leftpad]
  omega

theorem parseI64_tenDigits (h : n < 10 ^ 10) : parseI64 (tenDigits n) = some (n : ℤ) := by
  have hdigits := isDigit_tenDigits n
  have hparse : parseDigits (tenDigits n) = some n := by
    have hne : tenDigits n ≠ [] := List.ne_nil_of_length_pos (by rw [length_tenDigits h]; decide)
    have hfold : (tenDigits n).foldl (fun n c => n * 10 + (c.toNat - '0'.toNat)) 0 = n := by
      calc (tenDigits n).foldl (fun n c => n * 10 + (c.toNat - '0'.toNat)) 0
          = Nat.ofDigitChars 10 (tenDigits n) 0 := by
            rw [Nat.ofDigitChars_eq_foldl]
            simp only [Nat.mul_comm]
        _ = n := by
            unfold tenDigits List.leftpad
            rw [Nat.ofDigitChars_append, Nat.ofDigitChars_replicate_zero, Nat.mul_zero, Nat.ofDigitChars_ten_toDigits]
    unfold parseDigits
    rw [if_pos ⟨hne, List.all_eq_true.mpr hdigits⟩, hfold]
  unfold parseI64
  split
  · next digits heq =>
    rw [heq] at hdigits
    cases hdigits '-' List.mem_cons_self
  · next digits heq =>
    rw [heq] at hdigits
    cases hdigits '+' List.mem_cons_self
  · have hrange : -2 ^ 63 ≤ (n : ℤ) ∧ (n : ℤ) < 2 ^ 63 := by constructor <;> omega
    rw [hparse]
    show Option.filter _ (some (n : ℤ)) = _
    rw [Option.filter_some, if_pos (decide_eq_true hrange)]

theorem notMem_tenDigits {c : Char} (h : c.isDigit = false) : c ∉ tenDigits n :=
  fun hc => by rw [isDigit_tenDigits n c hc] at h; cases h

theorem trim_tenDigits (n : ℕ) : Text.trim (tenDigits n) = tenDigits n := by
  apply Text.trim_of_unspaced
  intro c hc
  have hdigit : 48 ≤ c.toNat ∧ c.toNat ≤ 57 := by
    simpa [Char.isDigit, UInt32.le_iff_toNat_le] using isDigit_tenDigits n c hc
  unfold Text.isWhitespace
  simp
  omega

def offsetLine (key : Text) (n : ℕ) : Text := key ++ ':' :: tenDigits n

theorem splitOnce_offsetLine {key : Text} (hkey : ':' ∉ key) (n : ℕ) :
    splitOnce ':' (offsetLine key n) = some (key, tenDigits n) := by
  have hall : ∀ c ∈ key, decide (c ≠ ':') = true := fun c hc => decide_eq_true fun heq => hkey (heq ▸ hc)
  unfold splitOnce offsetLine
  rw [if_pos (List.mem_append_right _ List.mem_cons_self), List.takeWhile_append_of_pos hall,
    List.dropWhile_append_of_pos hall]
  simp

theorem lines_htmlHeader (a b c d : ℕ) :
    lines (htmlHeader a b c d) = ["Version:0.9".toList, offsetLine "StartHTML".toList a, offsetLine "EndHTML".toList b,
      offsetLine "StartFragment".toList c, offsetLine "EndFragment".toList d] := by
  have hnone : ∀ (key : Text) (n : ℕ), '\n' ∉ key → '\n' ∉ offsetLine key n := by
    intro key n hkey hmem
    rcases List.mem_append.mp hmem with hmem | hmem
    · exact hkey hmem
    · rcases List.mem_cons.mp hmem with hmem | hmem
      · cases hmem
      · exact notMem_tenDigits rfl hmem
  have hheader : htmlHeader a b c d = "Version:0.9".toList ++ '\r' :: '\n' :: (offsetLine "StartHTML".toList a ++
      '\r' :: '\n' :: (offsetLine "EndHTML".toList b ++ '\r' :: '\n' :: (offsetLine "StartFragment".toList c ++
        '\r' :: '\n' :: (offsetLine "EndFragment".toList d ++ '\r' :: '\n' :: [])))) := by
    unfold htmlHeader offsetLine
    simp
  rw [hheader, lines_append (by decide), lines_append (hnone _ _ (by decide)), lines_append (hnone _ _ (by decide)),
    lines_append (hnone _ _ (by decide)), lines_append (hnone _ _ (by decide))]
  rfl

def offsetOf (wanted line : Text) : Option ℤ :=
  (splitOnce ':' line).bind fun p => if Text.trim p.1 = wanted then parseI64 (Text.trim p.2) else none

theorem htmlOffset_eq (header wanted : Text) : htmlOffset header wanted =
    ((lines header).findSome? (offsetOf wanted)).bind fun v => if 0 ≤ v then some v.toNat else none := rfl

theorem offsetOf_line {key wanted : Text} {n : ℕ} (hkey : ':' ∉ key) (htrim : Text.trim key = key) (h : n < 10 ^ 10) :
    offsetOf wanted (offsetLine key n) = if key = wanted then some (n : ℤ) else none := by
  unfold offsetOf
  rw [splitOnce_offsetLine hkey, Option.bind_some, htrim, trim_tenDigits, parseI64_tenDigits h]

theorem htmlOffset_header {a b c d : ℕ} (ha : a < 10 ^ 10) (hb : b < 10 ^ 10) (hc : c < 10 ^ 10) (hd : d < 10 ^ 10) :
    htmlOffset (htmlHeader a b c d) "StartHTML".toList = some a ∧
    htmlOffset (htmlHeader a b c d) "EndHTML".toList = some b ∧
    htmlOffset (htmlHeader a b c d) "StartFragment".toList = some c ∧
    htmlOffset (htmlHeader a b c d) "EndFragment".toList = some d := by
  have hfound : ∀ n : ℕ, ((some (n : ℤ)).bind fun v => if 0 ≤ v then some v.toNat else none) = some n := by
    intro n
    rw [Option.bind_some, if_pos (Int.natCast_nonneg n), Int.toNat_natCast]
  have hversion : ∀ wanted : Text, wanted ≠ "Version".toList → offsetOf wanted "Version:0.9".toList = none := by
    intro wanted hne
    have hsplit : splitOnce ':' "Version:0.9".toList = some ("Version".toList, "0.9".toList) := by decide
    have htrim : Text.trim "Version".toList = "Version".toList := by decide
    unfold offsetOf
    rw [hsplit, Option.bind_some, htrim, if_neg (Ne.symm hne)]
  have hstart := fun wanted => @offsetOf_line "StartHTML".toList wanted a (by decide) (by decide) ha
  have hend := fun wanted => @offsetOf_line "EndHTML".toList wanted b (by decide) (by decide) hb
  have hfragment := fun wanted => @offsetOf_line "StartFragment".toList wanted c (by decide) (by decide) hc
  have hstop := fun wanted => @offsetOf_line "EndFragment".toList wanted d (by decide) (by decide) hd
  simp only [htmlOffset_eq, lines_htmlHeader, List.findSome?_cons, hversion _ (show "StartHTML".toList ≠ _ by decide),
    hversion _ (show "EndHTML".toList ≠ _ by decide), hversion _ (show "StartFragment".toList ≠ _ by decide),
    hversion _ (show "EndFragment".toList ≠ _ by decide), hstart, hend, hfragment, hstop]
  refine ⟨?_, ?_, ?_, ?_⟩
  · rw [if_pos trivial, hfound]
  · rw [if_neg (by decide), if_pos trivial, hfound]
  · rw [if_neg (by decide), if_neg (by decide), if_pos trivial, hfound]
  · rw [if_neg (by decide), if_neg (by decide), if_neg (by decide), if_pos trivial, hfound]

/-! ## The buffer -/

theorem findIdx?_eq_takeWhile {p : UInt8 → Bool} (data : List UInt8) :
    data.take ((data.findIdx? p).getD data.length) = data.takeWhile fun b => !p b := by
  induction data with
  | nil => rfl
  | cons b data ih =>
    rw [List.findIdx?_cons]
    cases hb : p b with
    | true => simp [hb]
    | false =>
      rw [List.takeWhile_cons_of_pos (by rw [hb]; rfl), ← ih]
      cases data.findIdx? p <;> simp

/-- The bytes between two offsets, if there are any: a slice of the buffer. -/
def readPick (data : List UInt8) (start stop : Option ℕ) : Reads (List UInt8) :=
  match start, stop with
  | some start, some stop =>
    let stop := min stop data.length
    if start < stop then Reads.slice data start stop else Reads.refuse
  | _, _ => Reads.refuse

/-- `unwrap_cf_html` with its slices as the code takes them: out of range is an end of its own. -/
def readCfHtml (data : List UInt8) : Reads Text := do
  let data ← Reads.slice data 0 ((data.findIdx? (· = 0)).getD data.length)
  let header ← Reads.slice data 0 ((data.findIdx? (· = '<'.toNat.toUInt8)).getD data.length)
  let header ← OptionT.mk (pure (fromUtf8 header))
  let offset (key : String) := htmlOffset header key.toList
  let part ← readPick data (offset "StartFragment") (offset "EndFragment") <|>
    readPick data (offset "StartHTML") (offset "EndHTML")
  pure (fromUtf8Lossy part)

theorem readPick_eq (data : List UInt8) (start stop : Option ℕ) :
    readPick data start stop = OptionT.mk (pure (pick data start stop)) := by
  rcases start with _ | start
  · rfl
  rcases stop with _ | stop
  · rfl
  unfold readPick pick
  show (if start < min stop data.length then _ else _) = OptionT.mk (pure (if start < min stop data.length then _ else _))
  split
  · next h =>
    unfold Reads.slice
    rw [if_pos ⟨h.le, Nat.min_le_right _ _⟩, ← List.drop_take]
    rfl
  · rfl

theorem slice_found {p : UInt8 → Prop} [DecidablePred p] (data : List UInt8) :
    Reads.slice data 0 ((data.findIdx? p).getD data.length) = pure (data.takeWhile fun b => ¬p b) := by
  have hle : (data.findIdx? p).getD data.length ≤ data.length := by
    cases h : data.findIdx? p with
    | none => exact Nat.le_refl _
    | some i => exact (List.findIdx?_eq_some_iff_findIdx_eq.mp h).1.le
  unfold Reads.slice
  rw [if_pos ⟨Nat.zero_le _, hle⟩, List.drop_zero, Nat.sub_zero, findIdx?_eq_takeWhile]
  simp only [decide_not]

theorem readCfHtml_eq (data : List UInt8) : (readCfHtml data).run = .ok (unwrapCfHtml data) := by
  unfold readCfHtml unwrapCfHtml
  rw [slice_found, pure_bind, slice_found, pure_bind]
  dsimp only
  generalize (data.takeWhile fun b => b ≠ 0) = data
  cases fromUtf8 (data.takeWhile fun b => b ≠ '<'.toNat.toUInt8) with
  | none => rfl
  | some header =>
    show OptionT.run (do
      let part ← readPick data _ _ <|> readPick data _ _
      pure (fromUtf8Lossy part)) = _
    rw [readPick_eq, readPick_eq, Option.bind_eq_bind, Option.bind_some]
    cases pick data (htmlOffset header "StartFragment".toList) (htmlOffset header "EndFragment".toList) with
    | some part => rfl
    | none =>
      cases pick data (htmlOffset header "StartHTML".toList) (htmlOffset header "EndHTML".toList) with
      | some part | none => rfl

theorem htmlHeader_plain {a b c d : ℕ} (ha : a < 10 ^ 10) (hb : b < 10 ^ 10) (hc : c < 10 ^ 10) (hd : d < 10 ^ 10) :
    (∀ ch ∈ htmlHeader a b c d, Utf8.Ascii ch ∧ ch ≠ '<' ∧ ch ≠ '\x00') ∧ (htmlHeader a b c d).length = 105 := by
  have hdigits : ∀ n : ℕ, ∀ ch ∈ tenDigits n, Utf8.Ascii ch ∧ ch ≠ '<' ∧ ch ≠ '\x00' := by
    intro n ch hch
    have hdigit : 48 ≤ ch.toNat ∧ ch.toNat ≤ 57 := by
      simpa [Char.isDigit, UInt32.le_iff_toNat_le] using isDigit_tenDigits n ch hch
    refine ⟨Nat.lt_of_le_of_lt hdigit.2 (by decide), ?_, ?_⟩
    · rintro rfl
      exact absurd hdigit.2 (by decide)
    · rintro rfl
      cases hdigit.1
  have hkeys : ∀ key ∈ ["Version:0.9\r\nStartHTML:", "\r\nEndHTML:", "\r\nStartFragment:", "\r\nEndFragment:", "\r\n"],
      ∀ ch ∈ key.toList, Utf8.Ascii ch ∧ ch ≠ '<' ∧ ch ≠ '\x00' := by decide
  constructor
  · unfold htmlHeader
    simp only [List.forall_mem_append]
    refine ⟨⟨⟨⟨⟨⟨⟨⟨?_, hdigits a⟩, ?_⟩, hdigits b⟩, ?_⟩, hdigits c⟩, ?_⟩, hdigits d⟩, ?_⟩ <;>
      exact hkeys _ (by decide)
  · unfold htmlHeader
    simp only [List.length_append, length_tenDigits, ha, hb, hc, hd]
    rfl

theorem pick_text (a b c : Text) : pick (Utf8.encode (a ++ b ++ c)) (some (Utf8.size a)) (some (Utf8.size a + Utf8.size b)) =
    if b = [] then none else some (Utf8.encode b) := by
  have hlen : (Utf8.encode (a ++ b ++ c)).length = Utf8.size a + Utf8.size b + Utf8.size c := by
    rw [Utf8.length_encode, Utf8.size_append, Utf8.size_append]
  show (if Utf8.size a < min (Utf8.size a + Utf8.size b) _ then some _ else none) = _
  rw [hlen, Nat.min_eq_left (Nat.le_add_right _ _)]
  split
  · next h =>
    have hne : b ≠ [] := by
      rintro rfl
      exact absurd h (Nat.lt_irrefl _)
    rw [if_neg hne, Utf8.encode_append, Utf8.encode_append, ← Utf8.length_encode a, ← Utf8.length_encode b,
      ← List.length_append, List.take_left, List.drop_left]
  · next h =>
    rw [if_pos]
    cases b with
    | nil => rfl
    | cons ch b =>
      have hpos := Utf8.length_le_size (ch :: b)
      rw [List.length_cons] at hpos
      omega

theorem unwrap_wrap {fragment : Text} (hnul : '\x00' ∉ fragment) (hlen : Text.utf8Len fragment < 10 ^ 9) :
    unwrapCfHtml (wrapCfHtml fragment) = some (if fragment = [] then htmlStart ++ htmlEnd else fragment) := by
  have hsize : ∀ t, Text.utf8Len t = Utf8.size t := fun t => rfl
  have hstartLen : Text.utf8Len htmlStart = 34 := by decide
  have hendLen : Text.utf8Len htmlEnd = 34 := by decide
  have hheaderLen : Text.utf8Len (htmlHeader 0 0 0 0) = 105 := by
    obtain ⟨hplain, hlength⟩ := @htmlHeader_plain 0 0 0 0 (by decide) (by decide) (by decide) (by decide)
    rw [hsize, Utf8.size_ascii fun ch hch => (hplain ch hch).1, hlength]
  unfold wrapCfHtml
  dsimp only
  rw [hheaderLen, hstartLen, hendLen]
  obtain ⟨hplain, hlength⟩ := @htmlHeader_plain 105 (105 + 34 + Text.utf8Len fragment + 34) (105 + 34)
    (105 + 34 + Text.utf8Len fragment) (by decide) (by omega) (by decide) (by omega)
  obtain ⟨hstart, hend, hfragment, hstop⟩ := @htmlOffset_header 105 (105 + 34 + Text.utf8Len fragment + 34) (105 + 34)
    (105 + 34 + Text.utf8Len fragment) (by decide) (by omega) (by decide) (by omega)
  generalize htmlHeader 105 _ _ _ = header at hplain hlength hstart hend hfragment hstop ⊢
  have hheader : Utf8.size header = 105 := by rw [Utf8.size_ascii fun ch hch => (hplain ch hch).1, hlength]
  have hwhole : ((header ++ htmlStart ++ fragment ++ htmlEnd).flatMap String.utf8EncodeChar ++ [0]).takeWhile (· ≠ 0) =
      Utf8.encode (header ++ htmlStart ++ fragment ++ htmlEnd) := by
    have hnone : '\x00' ∉ header ++ htmlStart ++ fragment ++ htmlEnd := by
      simp only [List.mem_append, not_or]
      exact ⟨⟨⟨fun h => (hplain _ h).2.2 rfl, by decide⟩, hnul⟩, by decide⟩
    have hpos : ∀ b ∈ Utf8.encode (header ++ htmlStart ++ fragment ++ htmlEnd), decide (b ≠ 0) = true := by
      intro b hb
      refine decide_eq_true ?_
      rintro rfl
      exact Utf8.zero_notMem_encode hnone hb
    exact (List.takeWhile_append_of_pos hpos).trans (List.append_nil _)
  have hbefore : (Utf8.encode (header ++ htmlStart ++ fragment ++ htmlEnd)).takeWhile (· ≠ '<'.toNat.toUInt8) =
      Utf8.encode header := by
    have hnone : ∀ b ∈ Utf8.encode header, decide (b ≠ '<'.toNat.toUInt8) = true := by
      rw [Utf8.encode_ascii fun ch hch => (hplain ch hch).1]
      intro b hb
      obtain ⟨ch, hch, rfl⟩ := List.mem_map.mp hb
      refine decide_eq_true fun heq => (hplain ch hch).2.1 ?_
      have hnat : ch.toNat = '<'.toNat := (Utf8.toNat_byte (hplain ch hch).1).symm.trans (congrArg UInt8.toNat heq)
      exact Char.toNat_inj.mp hnat
    rw [List.append_assoc, List.append_assoc, Utf8.encode_append, List.takeWhile_append_of_pos hnone]
    exact List.append_nil _
  have hpart := pick_text (header ++ htmlStart) fragment htmlEnd
  have hall := pick_text header (htmlStart ++ fragment ++ htmlEnd) []
  rw [Utf8.size_append, hheader, ← hsize, ← hsize, hstartLen] at hpart
  rw [Utf8.size_append, Utf8.size_append, hheader, ← hsize, ← hsize, ← hsize, hstartLen, hendLen, List.append_nil,
    ← Nat.add_assoc, ← Nat.add_assoc, ← List.append_assoc, ← List.append_assoc] at hall
  unfold unwrapCfHtml
  dsimp only
  rw [hwhole, hbefore, fromUtf8_encode, Option.bind_eq_bind, Option.bind_some]
  rw [hstart, hend, hfragment, hstop, hpart, hall]
  split
  · next hempty =>
    rw [hempty, List.append_nil]
    exact congrArg some (fromUtf8Lossy_encode _)
  · exact congrArg some (fromUtf8Lossy_encode _)

/-- What is wrapped comes out as it was unless it is nothing; and no slice of any buffer is out of range. -/
theorem fragment_back (fragment : Text) (data : List UInt8) :
    ('\x00' ∉ fragment → Text.utf8Len fragment < 10 ^ 9 →
      (unwrapCfHtml (wrapCfHtml fragment) = some fragment ↔ fragment ≠ [])) ∧
    (readCfHtml data).run = .ok (unwrapCfHtml data) := by
  refine ⟨fun hnul hlen => ?_, readCfHtml_eq data⟩
  rw [unwrap_wrap hnul hlen, Option.some.injEq]
  split
  · next hempty =>
    rw [hempty]
    exact iff_of_false (by decide) (fun h => h rfl)
  · next hne => exact iff_of_true rfl hne

/-- Markup that looks like the end of a fragment. -/
theorem fragment_back_marker :
    unwrapCfHtml (wrapCfHtml "<!--EndFragment-->".toList) = some "<!--EndFragment-->".toList :=
  ((fragment_back "<!--EndFragment-->".toList []).1 (by decide) (by decide)).mpr (by decide)

/-- Of nothing the whole HTML comes back. -/
theorem fragment_not_back : '\x00' ∉ ([] : Text) ∧ Text.utf8Len [] < 10 ^ 9 ∧ unwrapCfHtml (wrapCfHtml []) ≠ some [] := by
  decide +kernel

end Formats

end UwuRdp
