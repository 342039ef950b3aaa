import UwuRdp.Lib.Bits
import UwuRdp.Lib.Utf8
import UwuRdp.Proto.Text
import Mathlib.Data.List.Forall2
import Mathlib.Logic.Relation

/-!
# The account key on paper

The 128 bits of an account key are written as 26 symbols of five bits, the last with two spare zeroes, and two
more symbols that check them. What was typed is read back whatever its case and its separators, and with the
letters people write for `1` and `0`. The hash behind the check is a parameter: nothing is asked of it.
-/

namespace UwuRdp

open Lib Bits

namespace AccountKey

/-- Crockford's base32: no letters that can be read as digits and no `U`. -/
def alphabet : List UInt8 := Utf8.encode "0123456789ABCDEFGHJKMNPQRSTVWXYZ".toList

/-- 26 characters carry the key, two more catch a typo. -/
def keyChars : ℕ := 26
def checkChars : ℕ := 2
def group : ℕ := 7

/-- `[u8; 16]`. -/
structure KeyBytes where
  list : List UInt8
  length_eq : list.length = 16
deriving DecidableEq

def encode (bytes : List UInt8) : List ℕ :=
  (Packer.pack 16 8 (Packer.drain 5) (bytes.map UInt8.toNat)).pad 16 5

def decode (indices : List ℕ) : Option KeyBytes :=
  let bytes := (Packer.pack 16 5 (Packer.emit 8) indices).out.map UInt8.ofNat
  if h : bytes.length = 16 then some ⟨bytes, h⟩ else none

/-- One symbol as the alphabet's index, taking the letters people substitute. -/
def normalise (byte : UInt8) : Option ℕ :=
  let upper := if 97 ≤ byte ∧ byte ≤ 122 then byte - 32 else byte
  -- `I` and `L` stand for `1`, `O` for `0`.
  let upper := if upper = 73 ∨ upper = 76 then 49 else if upper = 79 then 48 else upper
  alphabet.findIdx? fun symbol => symbol = upper

/-- What may stand between symbols: a dash, a space, a tab, the ends of a line, an underscore. -/
def separator (byte : UInt8) : Bool :=
  byte = 45 || byte = 32 || byte = 9 || byte = 13 || byte = 10 || byte = 95

def typed (code : Text) : Option (List ℕ) := ((Text.utf8 code).filter fun byte => !separator byte).mapM normalise

section Codes

variable (sha256 : List UInt8 → Fin 32 → UInt8)

def checksum (bytes : KeyBytes) : List ℕ :=
  let digest := sha256 (Text.utf8 "uwurdp/account-key/check/v1".toList ++ bytes.list)
  [(digest 0).toNat % 32, (digest 1).toNat % 32]

def symbols (key : KeyBytes) : List ℕ := encode key.list ++ checksum sha256 key

def letter (symbol : ℕ) : Char := Char.ofNat (alphabet.getD symbol 0).toNat

/-- `to_code`: a dash before every seventh symbol but the first. -/
def toCode (key : KeyBytes) : Text :=
  (symbols sha256 key).zipIdx.flatMap fun e =>
    if 0 < e.2 ∧ e.2 % group = 0 then ['-', letter e.1] else [letter e.1]

/-- `from_code`; an error is a `VaultError::Kdf` with its text. -/
def fromCode (code : Text) : Except Text KeyBytes :=
  match typed code with
  | none => .error "that is not an account key".toList
  | some symbols =>
    if symbols.length ≠ keyChars + checkChars then
      .error ("an account key is ".toList ++ Text.ofNat (keyChars + checkChars) ++
        " characters, that one is ".toList ++ Text.ofNat symbols.length)
    else
      match decode (symbols.take keyChars) with
      | none => .error "that is not an account key".toList
      | some bytes =>
        if symbols.drop keyChars ≠ checksum sha256 bytes then
          .error "that account key has a typo in it somewhere".toList
        else .ok bytes

end Codes

/-! ## Both loops -/

variable {key : KeyBytes} {indices : List ℕ}

theorem map_toNat_lt (bytes : List UInt8) : ∀ d ∈ bytes.map UInt8.toNat, d < 2 ^ 8 := by
  intro d hd
  obtain ⟨b, -, rfl⟩ := List.mem_map.mp hd
  exact b.toNat_lt

theorem encode_spec (key : KeyBytes) :
    concat 5 (encode key.list) = concat 8 (key.list.map UInt8.toNat) ++ bitsOf 2 0 ∧
      (encode key.list).length = 26 ∧ ∀ d ∈ encode key.list, d < 2 ^ 5 := by
  obtain ⟨hdenote, htidy, hbits⟩ := @Packer.pack_spec 16 5 8 (Packer.drain 5) _
    (Packer.takes_drain (by decide)) (by decide) (by decide) (map_toNat_lt key.list)
  unfold encode
  generalize Packer.pack 16 8 (Packer.drain 5) (key.list.map UInt8.toNat) = p at hdenote htidy hbits
  have hpad := @Packer.concat_pad 16 5 p hbits (by decide)
  -- 128 bits are 25 symbols and three bits.
  have hlen := congrArg List.length hdenote
  rw [Packer.denote, List.length_append, length_concat, length_bitsOf, length_concat, List.length_map,
    key.length_eq] at hlen
  have hthree : p.bits = 3 := by omega
  rw [hdenote, hthree] at hpad
  have hlen' := congrArg List.length hpad
  rw [length_concat, List.length_append, length_concat, List.length_map, key.length_eq, length_bitsOf] at hlen'
  refine ⟨hpad, ?_, htidy.pad⟩
  rw [if_pos (by decide)] at hlen'
  omega

theorem decode_spec (hlen : indices.length = 26) (hd : ∀ d ∈ indices, d < 2 ^ 5) :
    ∃ key spare, decode indices = some key ∧ concat 5 indices = concat 8 (key.list.map UInt8.toNat) ++ spare := by
  obtain ⟨hdenote, htidy, hbits⟩ := @Packer.pack_spec 16 8 5 (Packer.emit 8) _
    (Packer.takes_emit.mono (by decide)) (by decide) (by decide) hd
  unfold decode
  generalize Packer.pack 16 5 (Packer.emit 8) indices = p at hdenote htidy hbits
  have hsize := congrArg List.length hdenote
  rw [Packer.denote, List.length_append, length_concat, length_bitsOf, length_concat, hlen] at hsize
  have hsixteen : (p.out.map UInt8.ofNat).length = 16 := by
    rw [List.length_map]
    omega
  have hback : (p.out.map UInt8.ofNat).map UInt8.toNat = p.out := by
    rw [List.map_map]
    conv_rhs => rw [← List.map_id p.out]
    apply List.map_congr_left
    intro d hd
    exact UInt8.toNat_ofNat_of_lt' (htidy d hd)
  refine ⟨⟨_, hsixteen⟩, bitsOf p.bits p.acc, dif_pos hsixteen, ?_⟩
  rw [hback]
  exact hdenote.symm

theorem decode_encode (key : KeyBytes) : decode (encode key.list) = some key := by
  obtain ⟨hconcat, hlen, hd⟩ := encode_spec key
  obtain ⟨key', spare, hdecode, hconcat'⟩ := decode_spec hlen hd
  have hsame := (concat_prefix_inj (map_toNat_lt _) (map_toNat_lt _)
    (by rw [List.length_map, List.length_map, key.length_eq, key'.length_eq]) (hconcat.symm.trans hconcat')).1
  rw [hdecode]
  obtain ⟨bytes, hbytes⟩ := key
  obtain ⟨bytes', hbytes'⟩ := key'
  obtain rfl : bytes = bytes' := List.map_injective_iff.mpr (fun _ _ => UInt8.toNat_inj.mp) hsame
  rfl

theorem cut_last {l : List ℕ} (h : l.length = 26) : ∃ xs d, l = xs ++ [d] ∧ xs.length = 25 := by
  have hne : l ≠ [] := List.ne_nil_of_length_pos (by omega)
  exact ⟨l.dropLast, l.getLast hne, (List.dropLast_append_getLast hne).symm, by rw [List.length_dropLast, h]⟩

theorem concat_cut {xs : List ℕ} (d : ℕ) :
    concat 5 (xs ++ [d]) = (concat 5 xs ++ bitsOf 3 (d >>> 2)) ++ bitsOf 2 d := by
  rw [concat_append, concat_cons, concat_nil, List.append_nil, bitsOf_add 3 2 d, List.append_assoc]

theorem decode_eq_some (hlen : indices.length = 26) (hd : ∀ d ∈ indices, d < 2 ^ 5) (h : decode indices = some key) :
    ∃ xs d e, indices = xs ++ [d] ∧ encode key.list = xs ++ [e] ∧ d / 4 = e / 4 := by
  obtain ⟨hconcat, hlen', hd'⟩ := encode_spec key
  obtain ⟨key', spare, hdecode, hbits⟩ := decode_spec hlen hd
  obtain rfl : key' = key := Option.some.inj (hdecode.symm.trans h)
  obtain ⟨xs, d, rfl, hxs⟩ := cut_last hlen
  obtain ⟨ys, e, hys, hylen⟩ := cut_last hlen'
  rw [hys] at hconcat hd'
  rw [concat_cut] at hbits hconcat
  have hsize : ∀ zs : List ℕ, zs.length = 25 → ∀ n,
      (concat 5 zs ++ bitsOf 3 n).length = (concat 8 (key'.list.map UInt8.toNat)).length := by
    intro zs hz n
    rw [List.length_append, length_concat, length_bitsOf, length_concat, List.length_map, key'.length_eq, hz]
  have hfirst := (List.append_inj hbits (hsize xs hxs _)).1
  have hsecond := (List.append_inj hconcat (hsize ys hylen _)).1
  obtain ⟨rfl, htop⟩ := concat_prefix_inj (fun x hx => hd x (List.mem_append_left _ hx))
    (fun y hy => hd' y (List.mem_append_left _ hy)) (hxs.trans hylen.symm) (hfirst.trans hsecond.symm)
  have hsmall : ∀ x < 2 ^ 5, x >>> 2 < 2 ^ 3 := by decide
  have hmem : ∀ x : ℕ, x ∈ xs ++ [x] := fun x => List.mem_append_right _ (List.mem_singleton_self x)
  refine ⟨xs, d, e, rfl, hys, ?_⟩
  rw [← Nat.shiftRight_eq_div_pow d 2, ← Nat.shiftRight_eq_div_pow e 2]
  exact bitsOf_inj (hsmall d (hd d (hmem d))) (hsmall e (hd' e (hmem e))) htop

/-! ## What is typed -/

section Typed

theorem typed_append (s t : Text) : typed (s ++ t) = (typed s).bind fun xs => (typed t).map fun ys => xs ++ ys := by
  unfold typed Text.utf8
  rw [List.flatMap_append, List.filter_append, List.mapM_append]
  cases List.mapM normalise _ with
  | none => rfl
  | some xs => cases List.mapM normalise _ <;> rfl

theorem typed_replace {s t : Text} (h : typed s = typed t) (a b : Text) : typed (a ++ s ++ b) = typed (a ++ t ++ b) := by
  rw [typed_append, typed_append, typed_append (a ++ t), typed_append a t, h]

variable {c : Char}

theorem typed_ascii (h : Utf8.Ascii c) : typed [c] =
    if separator (Utf8.byte c) then some [] else (normalise (Utf8.byte c)).map fun d => [d] := by
  have hbytes : Text.utf8 [c] = [Utf8.byte c] := by
    show String.utf8EncodeChar c ++ [] = _
    rw [Utf8.encodeChar_ascii h, List.append_nil]
  unfold typed
  rw [hbytes]
  cases hs : separator (Utf8.byte c) with
  | true => rw [List.filter_cons_of_neg (by rw [hs]; decide)]; rfl
  | false =>
    rw [List.filter_cons_of_pos (by rw [hs]; rfl)]
    simp only [List.filter_nil, List.mapM_cons, List.mapM_nil]
    cases normalise (Utf8.byte c) <;> rfl

theorem of_ascii {P : Char → Prop} (h : ∀ n < 128, P (Char.ofNat n)) (hc : Utf8.Ascii c) : P c := by
  have hp := h c.toNat hc
  rwa [Char.ofNat_toNat] at hp

theorem typed_lowercase (c : Char) : typed [Text.asciiLowercase c] = typed [c] := by
  by_cases hc : Utf8.Ascii c
  · have hall : ∀ n < 128, Utf8.Ascii (Text.asciiLowercase (Char.ofNat n)) ∧
        separator (Utf8.byte (Text.asciiLowercase (Char.ofNat n))) = separator (Utf8.byte (Char.ofNat n)) ∧
        normalise (Utf8.byte (Text.asciiLowercase (Char.ofNat n))) = normalise (Utf8.byte (Char.ofNat n)) := by
      decide +kernel
    obtain ⟨hlow, hsep, hsame⟩ := of_ascii (P := fun c => Utf8.Ascii (Text.asciiLowercase c) ∧
      separator (Utf8.byte (Text.asciiLowercase c)) = separator (Utf8.byte c) ∧
      normalise (Utf8.byte (Text.asciiLowercase c)) = normalise (Utf8.byte c)) hall hc
    rw [typed_ascii hlow, typed_ascii hc, hsep, hsame]
  · have hsame : Text.asciiLowercase c = c := by
      unfold Text.asciiLowercase
      exact if_neg fun h => hc (Nat.lt_of_le_of_lt h.2 (by decide))
    rw [hsame]

theorem typed_separator (hc : Utf8.Ascii c) (h : separator (Utf8.byte c) = true) : typed [c] = some [] := by
  rw [typed_ascii hc, h, if_pos rfl]

theorem letter_spec : ∀ d < 32, Utf8.Ascii (letter d) ∧ separator (Utf8.byte (letter d)) = false ∧
    normalise (Utf8.byte (letter d)) = some d := by
  decide +kernel

theorem typed_letter {d : ℕ} (hd : d < 32) : typed [letter d] = some [d] := by
  obtain ⟨hascii, hsep, hnormal⟩ := letter_spec d hd
  rw [typed_ascii hascii, hsep, hnormal]
  rfl

end Typed

section Codes

variable {sha256 : List UInt8 → Fin 32 → UInt8}

theorem symbols_lt : ∀ d ∈ symbols sha256 key, d < 32 := by
  intro d hd
  rcases List.mem_append.mp hd with hd | hd
  · exact (encode_spec key).2.2 d hd
  · rcases List.mem_pair.mp hd with rfl | rfl <;> exact Nat.mod_lt _ (by decide)

theorem typed_toCode (key : KeyBytes) : typed (toCode sha256 key) = some (symbols sha256 key) := by
  have hread : ∀ (l : List ℕ) n, (∀ d ∈ l, d < 32) → typed ((l.zipIdx n).flatMap fun e =>
        if 0 < e.2 ∧ e.2 % group = 0 then ['-', letter e.1] else [letter e.1]) = some l := by
    intro l
    induction l with
    | nil => exact fun _ _ => rfl
    | cons d l ih =>
      intro n hl
      rw [List.zipIdx_cons, List.flatMap_cons, typed_append, ih (n + 1) fun e he => hl e (List.mem_cons_of_mem _ he)]
      have hhead : typed (if 0 < n ∧ n % group = 0 then ['-', letter d] else [letter d]) = some [d] := by
        split
        · have hdash : typed ['-'] = some [] := typed_separator (by decide) (by decide)
          rw [← List.singleton_append, typed_append, hdash, typed_letter (hl d List.mem_cons_self)]
          rfl
        · exact typed_letter (hl d List.mem_cons_self)
      rw [hhead]
      rfl
  exact hread _ 0 symbols_lt

variable {s : Text}

theorem fromCode_of_typed (h : typed s = some (symbols sha256 key)) : fromCode sha256 s = .ok key := by
  have hlen := (encode_spec key).2.1
  unfold fromCode
  rw [h]
  have htake : (symbols sha256 key).take keyChars = encode key.list := List.take_left' hlen
  have hdrop : (symbols sha256 key).drop keyChars = checksum sha256 key := List.drop_left' hlen
  have hsize : (symbols sha256 key).length = keyChars + checkChars := by
    rw [symbols, List.length_append, hlen]
    rfl
  simp only [htake, hdrop, decode_encode]
  rw [if_neg (not_not.mpr hsize), if_neg (not_not.mpr rfl)]

theorem fromCode_eq_ok (h : fromCode sha256 s = .ok key) : ∃ indices, typed s = some
    (indices ++ checksum sha256 key) ∧ indices.length = 26 ∧ decode indices = some key := by
  unfold fromCode at h
  split at h
  · cases h
  · next symbols htyped =>
    split at h
    · cases h
    · next hlen =>
      split at h
      · cases h
      · next bytes hdecode =>
        split at h
        · cases h
        · next hcheck =>
          cases h
          refine ⟨symbols.take keyChars, ?_, ?_, hdecode⟩
          · rw [← not_not.mp hcheck, List.take_append_drop]
            exact htyped
          · rw [List.length_take, not_not.mp hlen]
            rfl

end Codes

/-! ## The theorem -/

/-- One change to what was written: another case, a letter for a digit, a separator more or less. -/
inductive Retyping : Text → Text → Prop where
  | letterCase (a b : Text) (c d : Char) (h : Text.asciiLowercase c = Text.asciiLowercase d) :
      Retyping (a ++ c :: b) (a ++ d :: b)
  | one (a b : Text) (d : Char) (h : d = 'I' ∨ d = 'L') : Retyping (a ++ '1' :: b) (a ++ d :: b)
  | zero (a b : Text) : Retyping (a ++ '0' :: b) (a ++ 'O' :: b)
  | inserted (a b : Text) (c : Char) (h : c ∈ ['-', '_', ' ', '\t', '\r', '\n']) : Retyping (a ++ b) (a ++ c :: b)
  | removed (a b : Text) (c : Char) (h : c ∈ ['-', '_', ' ', '\t', '\r', '\n']) : Retyping (a ++ c :: b) (a ++ b)

variable {s : Text} {read : List ℕ}

theorem Retyping.typed_eq {t : Text} (h : Retyping s t) : typed s = typed t := by
  have hput : ∀ (a b : Text) (c d : Char), typed [c] = typed [d] → typed (a ++ c :: b) = typed (a ++ d :: b) := by
    intro a b c d h
    rw [List.append_cons, List.append_cons a d]
    exact typed_replace h a b
  have hnone : ∀ (a b : Text) (c : Char), c ∈ ['-', '_', ' ', '\t', '\r', '\n'] → typed (a ++ c :: b) = typed (a ++ b) := by
    intro a b c hc
    have hempty : ∀ c ∈ ['-', '_', ' ', '\t', '\r', '\n'], typed [c] = typed [] := by decide +kernel
    have hgone := typed_replace (hempty c hc) a b
    rwa [List.append_nil, List.append_assoc, List.singleton_append] at hgone
  cases h with
  | letterCase a b c d h => exact hput a b c d (by rw [← typed_lowercase, h, typed_lowercase])
  | one a b d h =>
    apply hput
    rcases h with rfl | rfl <;> decide +kernel
  | zero a b => exact hput a b _ _ (by decide +kernel)
  | inserted a b c h => exact (hnone a b c h).symm
  | removed a b c h => exact hnone a b c h

def withoutSeparators (s : Text) : Text := s.filter fun c => !(c ∈ ['-', '_', ' ', '\t', '\r', '\n'] : Bool)

def symbolOf (c : Char) : Option ℕ := if Utf8.Ascii c then normalise (Utf8.byte c) else none

theorem normalise_wide {b : UInt8} (h : 128 ≤ b.toNat) : normalise b = none := by
  have hall : ∀ n < 256, 128 ≤ n → normalise (UInt8.ofNat n) = none := by decide +kernel
  have hb := hall b.toNat b.toNat_lt h
  rwa [UInt8.ofNat_toNat] at hb

theorem forall₂_of_mapM {α β : Type} {f : α → Option β} {l : List α} : ∀ {out : List β}, l.mapM f = some out →
    List.Forall₂ (fun a b => f a = some b) l out := by
  induction l with
  | nil =>
    intro out h
    cases h
    exact .nil
  | cons a l ih =>
    intro out h
    rw [List.mapM_cons] at h
    obtain ⟨b, hb, h⟩ := Option.bind_eq_some_iff.mp h
    obtain ⟨rest, hrest, h⟩ := Option.bind_eq_some_iff.mp h
    cases h
    exact .cons hb (ih hrest)

theorem mapM_symbolOf : ∀ {read : List ℕ}, (Utf8.encode s).mapM normalise = some read →
    s.mapM symbolOf = some read := by
  induction s with
  | nil => exact fun h => h
  | cons c s ih =>
    intro read h
    rw [Utf8.encode_cons, List.mapM_append] at h
    obtain ⟨first, hfirst, h⟩ := Option.bind_eq_some_iff.mp h
    obtain ⟨rest, hrest, h⟩ := Option.bind_eq_some_iff.mp h
    cases h
    by_cases hc : Utf8.Ascii c
    · rw [Utf8.encodeChar_ascii hc, List.mapM_cons] at hfirst
      obtain ⟨d, hd, hfirst⟩ := Option.bind_eq_some_iff.mp hfirst
      obtain rfl : [d] = first := Option.some.inj hfirst
      have hsymbol : symbolOf c = some d := by
        unfold symbolOf
        rw [if_pos hc, hd]
      rw [List.mapM_cons, hsymbol, ih hrest]
      rfl
    · obtain ⟨b, bytes, hbytes⟩ := List.exists_cons_of_ne_nil (Utf8.encodeChar_ne_nil c)
      have hb : 128 ≤ b.toNat := Utf8.le_of_mem_encodeChar hc (hbytes ▸ List.mem_cons_self)
      rw [hbytes, List.mapM_cons, normalise_wide hb] at hfirst
      cases hfirst

theorem typed_eq_some (h : typed s = some read) : (withoutSeparators s).mapM symbolOf = some read := by
  have hseparator : ∀ c : Char, Utf8.Ascii c →
      (!(c ∈ ['-', '_', ' ', '\t', '\r', '\n'] : Bool)) = !separator (Utf8.byte c) := by
    have hall : ∀ n < 128, (!(Char.ofNat n ∈ ['-', '_', ' ', '\t', '\r', '\n'] : Bool)) =
        !separator (Utf8.byte (Char.ofNat n)) := by decide +kernel
    exact fun c => of_ascii (P := fun c => (!(c ∈ ['-', '_', ' ', '\t', '\r', '\n'] : Bool)) =
      !separator (Utf8.byte c)) hall
  have hwide : ∀ c : Char, ¬Utf8.Ascii c → (!(c ∈ ['-', '_', ' ', '\t', '\r', '\n'] : Bool)) = true := by
    intro c hc
    have hplain : ∀ d ∈ ['-', '_', ' ', '\t', '\r', '\n'], Utf8.Ascii d := by decide
    rw [decide_eq_false fun hin => hc (hplain c hin)]
    rfl
  have hbytes : ∀ b : UInt8, 128 ≤ b.toNat → (!separator b) = true := by
    intro b hb
    have hlow : separator b = true → b.toNat < 128 := by
      unfold separator
      simp only [Bool.or_eq_true, decide_eq_true_eq]
      rintro (((((rfl | rfl) | rfl) | rfl) | rfl) | rfl) <;> decide
    rw [Bool.not_eq_true']
    exact eq_false_of_ne_true fun h => absurd (hlow h) (Nat.not_lt.mpr hb)
  unfold typed at h
  rw [show Text.utf8 s = Utf8.encode s from rfl, Utf8.encode_filter hseparator hwide hbytes] at h
  exact mapM_symbolOf h

theorem typed_lt (h : typed s = some read) : ∀ d ∈ read, d < 2 ^ 5 := by
  intro d hd
  obtain ⟨i, hi, rfl⟩ := List.mem_iff_getElem.mp hd
  have hread := (forall₂_of_mapM h).get (by rw [(forall₂_of_mapM h).length_eq]; exact hi) hi
  obtain ⟨hlt, -⟩ := List.findIdx?_eq_some_iff_getElem.mp hread
  exact hlt

/-- A recovery code gives its key back however it was typed, and nothing else gives that key. -/
theorem recovery_code (sha256 : List UInt8 → Fin 32 → UInt8) (key : KeyBytes) (s : Text) :
    (Relation.ReflTransGen Retyping (toCode sha256 key) s → fromCode sha256 s = .ok key) ∧
      (fromCode sha256 s = .ok key → (withoutSeparators s).length = 28 ∧
        ∃ xs d e check, (withoutSeparators s).mapM symbolOf = some (xs ++ d :: check) ∧
          (withoutSeparators (toCode sha256 key)).mapM symbolOf = some (xs ++ e :: check) ∧
          xs.length = 25 ∧ check.length = 2 ∧ d / 4 = e / 4) := by
  constructor
  · intro h
    apply fromCode_of_typed
    induction h with
    | refl => exact typed_toCode key
    | tail _ hstep ih => rw [← hstep.typed_eq, ih]
  · intro h
    obtain ⟨indices, htyped, hlen, hdecode⟩ := fromCode_eq_ok h
    have hd : ∀ d ∈ indices, d < 2 ^ 5 := fun d hd => typed_lt htyped d (List.mem_append_left _ hd)
    obtain ⟨xs, d, e, rfl, hencode, hfour⟩ := decode_eq_some hlen hd hdecode
    have hcode := @typed_toCode sha256 key
    rw [symbols, hencode, List.append_assoc] at hcode
    rw [List.append_assoc] at htyped
    have hread := typed_eq_some htyped
    refine ⟨?_, xs, d, e, checksum sha256 key, hread, typed_eq_some hcode, ?_, rfl, hfour⟩
    · rw [List.length_append] at hlen
      rw [(forall₂_of_mapM hread).length_eq, List.length_append]
      show xs.length + (1 + 2) = 28
      exact congrArg (fun n => n + 2) hlen
    · rw [List.length_append] at hlen
      exact Nat.succ.inj hlen

/-- The key of sixteen zeroes under a hash that is always zero, with an `O` for the first zero and a space before
it. -/
theorem zeroes_retyped :
    fromCode (fun _ _ => 0) " O000000-0000000-0000000-0000000".toList = .ok ⟨List.replicate 16 0, rfl⟩ ∧
      (withoutSeparators " O000000-0000000-0000000-0000000".toList).length = 28 := by
  have hcode : toCode (fun _ _ => 0) ⟨List.replicate 16 0, rfl⟩ =
      [] ++ '0' :: "000000-0000000-0000000-0000000".toList := by decide +kernel
  have hback := (recovery_code (fun _ _ => 0) ⟨List.replicate 16 0, rfl⟩
    " O000000-0000000-0000000-0000000".toList).1 (by
      rw [hcode]
      refine .tail (.single (.zero [] _)) ?_
      exact .inserted [] "O000000-0000000-0000000-0000000".toList ' ' (by decide))
  exact ⟨hback, ((recovery_code _ _ _).2 hback).1⟩

end AccountKey

end UwuRdp
