import UwuRdp.Lib.Bits
import UwuRdp.Lib.Utf8
import UwuRdp.Proto.Wire

/-!
# Base64

The standard padded encoding is what the bits of the bytes are in sixes, with zeroes after them up to a whole six
and signs after those up to a whole four. The encoder written by hand here and the one of the library both write it.
The decoder written by hand takes it back to the bytes, whatever it would make of other text.
-/

namespace UwuRdp

open Lib Bits

namespace Base64

def numbers (bytes : List UInt8) : List ℕ := bytes.map UInt8.toNat

/-- The standard encoding with padding: sixes of bits as letters of the alphabet, then `=` up to a multiple of
four. -/
def Standard (bytes : List UInt8) (text : Text) : Prop :=
  ∃ digits zeroes signs, text = digits.map letter ++ List.replicate signs '=' ∧ (∀ d ∈ digits, d < 64) ∧
    concat 6 digits = concat 8 (numbers bytes) ++ List.replicate zeroes false ∧ zeroes < 6 ∧ signs < 4 ∧
    4 ∣ text.length

/-- `serde_bytes_vec::deserialize`: up to the first `=`, without what is no letter, through a word of 32 bits. -/
def decode (text : Text) : List UInt8 :=
  let letters := text.utf8.takeWhile fun b => b ≠ 61
  let indices := letters.filterMap fun b => (Text.utf8 alphabet).findIdx? fun a => a = b
  (Packer.pack 32 6 (Packer.emit 8) indices).out.map UInt8.ofNat

theorem numbers_lt (bytes : List UInt8) : ∀ d ∈ numbers bytes, d < 2 ^ 8 := by
  intro d hd
  obtain ⟨b, -, rfl⟩ := List.mem_map.mp hd
  exact b.toNat_lt

/-! ## The encoder -/

theorem bitsOf_word (a b c : UInt8) :
    bitsOf 24 (word a b c) = bitsOf 8 a.toNat ++ (bitsOf 8 b.toNat ++ bitsOf 8 c.toNat) := by
  have ha := a.toNat_lt
  have hb := b.toNat_lt
  have hc := c.toNat_lt
  have hhigh : word a b c >>> 16 = a.toNat := by
    rw [Nat.shiftRight_eq_div_pow]
    unfold word
    omega
  have hmid : word a b c >>> 8 % 2 ^ 8 = b.toNat := by
    rw [Nat.shiftRight_eq_div_pow]
    unfold word
    omega
  have hlow : word a b c % 2 ^ 8 = c.toNat := by
    unfold word
    omega
  rw [bitsOf_add 8 16, bitsOf_add 8 8, hhigh, ← bitsOf_mod le_rfl (word a b c >>> 8), hmid,
    ← bitsOf_mod le_rfl (word a b c), hlow]

theorem concat_word (w : ℕ) : concat 6 [w / 2 ^ 18 % 64, w / 2 ^ 12 % 64, w / 2 ^ 6 % 64, w % 64] = bitsOf 24 w := by
  have hsix : ∀ n : ℕ, bitsOf 6 (n % 64) = bitsOf 6 n := fun n => bitsOf_mod (le_refl 6) n
  rw [bitsOf_add 6 18, bitsOf_add 6 12, bitsOf_add 6 6, Nat.shiftRight_eq_div_pow, Nat.shiftRight_eq_div_pow,
    Nat.shiftRight_eq_div_pow]
  simp only [concat_cons, concat_nil, hsix, List.append_nil]

theorem letter_mod (n : ℕ) : letter (n % 64) = letter n := by
  unfold letter
  rw [Nat.mod_mod]

theorem concat_cut {xs ys : List ℕ} {front back : List Bool} (h : concat 6 (xs ++ ys) = front ++ back)
    (hlen : 6 * xs.length = front.length) : concat 6 xs = front := by
  rw [concat_append] at h
  exact (List.append_inj h (by rw [length_concat, hlen])).1

theorem standard_encode (bytes : List UInt8) : Standard bytes (encode bytes) := by
  have hlt : ∀ n : ℕ, n % 64 < 64 := fun n => Nat.mod_lt n (by decide)
  have hzero : bitsOf 8 (0 : UInt8).toNat = List.replicate 8 false := bitsOf_zero 8
  fun_induction encode bytes with
  | case1 => exact ⟨[], 0, 0, rfl, fun d hd => absurd hd List.not_mem_nil, rfl, by decide, by decide, by decide⟩
  | case2 a =>
    refine ⟨[word a 0 0 / 2 ^ 18 % 64, word a 0 0 / 2 ^ 12 % 64], 4, 2, ?_, ?_, ?_, by decide, by decide, ⟨1, rfl⟩⟩
    · simp only [List.map_cons, List.map_nil, letter_mod]
      rfl
    · simp only [List.forall_mem_cons, hlt, true_and]
      exact fun d hd => absurd hd List.not_mem_nil
    · refine @concat_cut _ [word a 0 0 / 2 ^ 6 % 64, word a 0 0 % 64] _ (List.replicate 12 false) ?_ ?_
      · exact (concat_word _).trans (by
          rw [bitsOf_word, hzero]
          show _ = bitsOf 8 a.toNat ++ [] ++ _ ++ _
          rw [List.append_nil, List.append_assoc]
          rfl)
      · rw [List.length_append, length_concat, List.length_replicate]
        rfl
  | case3 a b =>
    refine ⟨[word a b 0 / 2 ^ 18 % 64, word a b 0 / 2 ^ 12 % 64, word a b 0 / 2 ^ 6 % 64], 2, 1, ?_, ?_, ?_, by decide,
      by decide, ⟨1, rfl⟩⟩
    · simp only [List.map_cons, List.map_nil, letter_mod]
      rfl
    · simp only [List.forall_mem_cons, hlt, true_and]
      exact fun d hd => absurd hd List.not_mem_nil
    · refine @concat_cut _ [word a b 0 % 64] _ (List.replicate 6 false) ?_ ?_
      · exact (concat_word _).trans (by
          rw [bitsOf_word, hzero]
          show _ = bitsOf 8 a.toNat ++ (bitsOf 8 b.toNat ++ []) ++ _ ++ _
          rw [List.append_nil, List.append_assoc, List.append_assoc]
          rfl)
      · rw [List.length_append, length_concat, List.length_replicate]
        rfl
  | case4 a b c rest ih =>
    obtain ⟨digits, zeroes, signs, htext, hdigits, hbits, hzeroes, hsigns, hfour⟩ := ih
    refine ⟨[word a b c / 2 ^ 18 % 64, word a b c / 2 ^ 12 % 64, word a b c / 2 ^ 6 % 64, word a b c % 64] ++ digits,
      zeroes, signs, ?_, ?_, ?_, hzeroes, hsigns, ?_⟩
    · rw [htext, List.map_append, List.append_assoc]
      simp only [List.map_cons, List.map_nil, letter_mod]
      rfl
    · intro d hd
      rcases List.mem_append.mp hd with hd | hd
      · simp only [List.mem_cons, List.not_mem_nil, or_false] at hd
        rcases hd with rfl | rfl | rfl | rfl <;> exact hlt _
      · exact hdigits d hd
    · rw [concat_append, concat_word, bitsOf_word, hbits]
      show _ = bitsOf 8 a.toNat ++ (bitsOf 8 b.toNat ++ (bitsOf 8 c.toNat ++ concat 8 (numbers rest))) ++ _
      simp only [List.append_assoc]
    · show 4 ∣ (encode rest).length + 4
      exact Nat.dvd_add hfour (Nat.dvd_refl 4)

theorem Standard.unique {bytes : List UInt8} {text text' : Text} (h : Standard bytes text)
    (h' : Standard bytes text') : text = text' := by
  obtain ⟨digits, zeroes, signs, rfl, hdigits, hbits, hzeroes, hsigns, hfour⟩ := h
  obtain ⟨digits', zeroes', signs', rfl, hdigits', hbits', hzeroes', hsigns', hfour'⟩ := h'
  have hlen := congrArg List.length hbits
  have hlen' := congrArg List.length hbits'
  rw [length_concat, List.length_append, length_concat, List.length_replicate] at hlen hlen'
  have hsame : digits.length = digits'.length := by omega
  obtain rfl : zeroes = zeroes' := by omega
  obtain rfl := concat_inj (n := 6) hdigits hdigits' hsame (hbits.trans hbits'.symm)
  rw [List.length_append, List.length_map, List.length_replicate] at hfour hfour'
  obtain rfl : signs = signs' := by omega
  rfl

/-! ## The decoder -/

theorem letter_spec : ∀ d < 64, Utf8.Ascii (letter d) ∧ Utf8.byte (letter d) ≠ 61 ∧
    (Text.utf8 alphabet).findIdx? (fun a => a = Utf8.byte (letter d)) = some d := by
  decide +kernel

theorem decode_standard {bytes : List UInt8} {text : Text} (h : Standard bytes text) : decode text = bytes := by
  obtain ⟨digits, zeroes, signs, rfl, hdigits, hbits, hzeroes, -, -⟩ := h
  have hascii : ∀ c ∈ digits.map letter ++ List.replicate signs '=', Utf8.Ascii c := by
    intro c hc
    rcases List.mem_append.mp hc with hc | hc
    · obtain ⟨d, hd, rfl⟩ := List.mem_map.mp hc
      exact (letter_spec d (hdigits d hd)).1
    · rw [List.eq_of_mem_replicate hc]
      decide
  have hutf8 : Text.utf8 (digits.map letter ++ List.replicate signs '=') =
      digits.map (fun d => Utf8.byte (letter d)) ++ List.replicate signs 61 := by
    refine (Utf8.encode_ascii hascii).trans ?_
    rw [List.map_append, List.map_map, List.map_replicate]
    rfl
  have hletters : (Text.utf8 (digits.map letter ++ List.replicate signs '=')).takeWhile (fun b => b ≠ 61) =
      digits.map fun d => Utf8.byte (letter d) := by
    rw [hutf8, List.takeWhile_append_of_pos fun b hb => ?_]
    · cases signs <;> simp
    · obtain ⟨d, hd, rfl⟩ := List.mem_map.mp hb
      exact decide_eq_true (letter_spec d (hdigits d hd)).2.1
  have hindices : (digits.map fun d => Utf8.byte (letter d)).filterMap
      (fun b => (Text.utf8 alphabet).findIdx? fun a => a = b) = digits := by
    rw [List.filterMap_map]
    conv_rhs => rw [← List.filterMap_some (l := digits)]
    apply List.filterMap_congr
    intro d hd
    exact (letter_spec d (hdigits d hd)).2.2
  obtain ⟨hdenote, htidy, hleft⟩ := @Packer.pack_spec 32 8 6 (Packer.emit 8) digits
    (Packer.takes_emit.mono (by decide)) (by decide) (by decide) hdigits
  unfold decode
  dsimp only
  rw [hletters, hindices]
  generalize Packer.pack 32 6 (Packer.emit 8) digits = p at hdenote htidy hleft
  rw [hbits, Packer.denote] at hdenote
  have hsize := congrArg List.length hdenote
  rw [List.length_append, List.length_append, length_concat, length_concat, length_bitsOf, List.length_replicate] at hsize
  have hout : p.out = numbers bytes := (concat_prefix_inj htidy (numbers_lt bytes) (by omega) hdenote).1
  rw [hout]
  unfold numbers
  rw [List.map_map]
  conv_rhs => rw [← List.map_id bytes]
  exact List.map_congr_left fun b _ => UInt8.ofNat_toNat

end Base64

end UwuRdp
