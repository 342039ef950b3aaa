import UwuRdp.Proto.Envelope

/-!
# Bodies

What an answer of a server looks like on the wire, and how long it is. Bytes travel as padded
base64 inside JSON, so a body's length is known from the lengths of its blobs, the digits of its
numbers and the names of its fields. The bytes of a seal are not: `Cipher` stands for the encryption
and says only how many there are.
-/

namespace UwuRdp

/-! ## Lengths of text -/

namespace Text

@[simp] theorem utf8Len_nil : utf8Len [] = 0 := rfl

@[simp] theorem utf8Len_cons (c : Char) (t : Text) : utf8Len (c :: t) = c.utf8Size + utf8Len t := by
  simp only [utf8Len, List.map_cons, List.sum_cons]

@[simp] theorem utf8Len_append (s t : Text) : utf8Len (s ++ t) = utf8Len s + utf8Len t := by
  simp only [utf8Len, List.map_append, List.sum_append]

def Plain (t : Text) : Prop := ∀ c ∈ t, 0x20 ≤ c.toNat ∧ c.toNat < 0x80 ∧ c ≠ '"' ∧ c ≠ '\\'

variable {s t : Text}

theorem Plain.append (hs : Plain s) (ht : Plain t) : Plain (s ++ t) := by
  intro c hc
  rcases List.mem_append.mp hc with hc | hc
  · exact hs c hc
  · exact ht c hc

theorem Plain.sublist (hs : Plain s) (h : t.Sublist s) : Plain t :=
  fun c hc => hs c (h.subset hc)

theorem utf8Len_of_plain (h : Plain t) : utf8Len t = t.length := by
  induction t with
  | nil => rfl
  | cons c t ih =>
    have hc : c.utf8Size = 1 := by
      have h7 : c.toNat < 0x80 := (h c List.mem_cons_self).2.1
      have hv : c.val ≤ 0x7f := by
        rw [UInt32.le_iff_toNat_le]
        exact Nat.le_of_lt_succ h7
      exact if_pos hv
    rw [utf8Len_cons, hc, ih fun d hd => h d (List.mem_cons_of_mem c hd), List.length_cons, Nat.add_comm]

end Text

/-! ## Numbers -/

variable {b n : ℕ} {e : Envelope}

theorem mem_toDigits (hb : 1 < b) (n : ℕ) : ∀ c ∈ Nat.toDigits b n, ∃ d < b, c = Nat.digitChar d := by
  induction n using Nat.strong_induction_on with
  | _ n ih =>
    rw [Nat.toDigits_eq_if hb]
    split
    · next hn =>
      intro c hc
      exact ⟨n, hn, List.mem_singleton.mp hc⟩
    · next hn =>
      intro c hc
      rcases List.mem_append.mp hc with hc | hc
      · exact ih (n / b) (Nat.div_lt_self (by omega) hb) c hc
      · exact ⟨n % b, Nat.mod_lt n (by omega), List.mem_singleton.mp hc⟩

theorem plain_toDigits (hb : 1 < b) (hb' : b ≤ 16) (n : ℕ) : Text.Plain (Nat.toDigits b n) := by
  have hall : ∀ d < 16, 0x20 ≤ (Nat.digitChar d).toNat ∧ (Nat.digitChar d).toNat < 0x80 ∧
      Nat.digitChar d ≠ '"' ∧ Nat.digitChar d ≠ '\\' := by decide
  intro c hc
  obtain ⟨d, hd, rfl⟩ := mem_toDigits hb n c hc
  exact hall d (hd.trans_le hb')

def decimals (n : ℕ) : ℕ := (Text.ofNat n).length

@[simp] theorem utf8Len_ofNat (n : ℕ) : (Text.ofNat n).utf8Len = decimals n :=
  Text.utf8Len_of_plain (plain_toDigits (by decide) (by decide) n)

theorem decimals_le (h : n < 2 ^ 64) : decimals n ≤ 20 :=
  (Nat.length_toDigits_le_iff (by decide) (by decide)).mpr (h.trans (by decide))

theorem decimals_le_u32 (h : n < 2 ^ 32) : decimals n ≤ 10 :=
  (Nat.length_toDigits_le_iff (by decide) (by decide)).mpr (h.trans (by decide))

/-! ## JSON -/

namespace Json

theorem escape_of_plain {c : Char} (h : 0x20 ≤ c.toNat ∧ c.toNat < 0x80 ∧ c ≠ '"' ∧ c ≠ '\\') :
    escape c = [c] := by
  obtain ⟨hlow, -, hq, hb⟩ := h
  unfold escape
  rw [if_neg (by rintro (h | h) <;> contradiction), if_neg (by omega), if_neg (by omega),
    if_neg (by omega), if_neg (by omega), if_neg (by omega), if_neg (by omega)]

theorem utf8Len_string {t : Text} (h : t.Plain) : (string t).utf8Len = t.length + 2 := by
  have he : t.flatMap escape = t := by
    induction t with
    | nil => rfl
    | cons c t ih =>
      rw [List.flatMap_cons, escape_of_plain (h c List.mem_cons_self), ih fun d hd => h d (List.mem_cons_of_mem c hd)]
      rfl
  unfold string
  rw [he, Text.utf8Len_append, Text.utf8Len_append, Text.utf8Len_of_plain h]
  rw [show Text.utf8Len ['"'] = 1 from rfl]
  omega

@[simp] theorem utf8Len_bool (b : Bool) : (bool b).utf8Len = if b then 4 else 5 := by
  cases b <;> rfl

theorem utf8Len_uuid {n : Uuid} (h : n < 2 ^ 128) : (uuid n).utf8Len = 38 := by
  have hl : (Nat.toDigits 16 n).length ≤ 32 :=
    (Nat.length_toDigits_le_iff (by decide) (by decide)).mpr (h.trans_le (by decide))
  have hplain : Text.Plain (List.replicate (32 - (Nat.toDigits 16 n).length) '0' ++ Nat.toDigits 16 n) := by
    refine Text.Plain.append ?_ (plain_toDigits (by decide) (by decide) n)
    intro c hc
    rw [List.eq_of_mem_replicate hc]
    decide
  have hdash : Text.Plain ['-'] := by
    intro c hc
    rw [List.mem_singleton.mp hc]
    decide
  unfold uuid
  simp only
  generalize hx : List.replicate (32 - (Nat.toDigits 16 n).length) '0' ++ Nat.toDigits 16 n = hex
    at hplain
  have hlen : hex.length = 32 := by
    rw [← hx, List.length_append, List.length_replicate]
    omega
  have part : ∀ i k, Text.Plain ((hex.drop i).take k) := fun i k =>
    hplain.sublist ((List.take_sublist k _).trans (List.drop_sublist i hex))
  rw [utf8Len_string]
  · simp only [List.length_append, List.length_take, List.length_drop, List.length_cons, List.length_nil, hlen]
    rfl
  · exact (((((((part 0 8).append hdash).append (part 8 4)).append hdash).append
      (part 12 4)).append hdash).append (part 16 4)).append hdash |>.append
      (hplain.sublist (List.drop_sublist 20 hex))

theorem utf8Len_intercalate (l : List Text) :
    Text.utf8Len ([','].intercalate l) = (l.map fun t => t.utf8Len + 1).sum - 1 := by
  induction l with
  | nil => rfl
  | cons t l ih =>
    cases l with
    | nil => simp
    | cons s l =>
      rw [List.intercalate_cons_cons]
      simp only [Text.utf8Len_append, ih, List.map_cons, List.sum_cons]
      rw [show Text.utf8Len [','] = 1 from rfl]
      omega

theorem utf8Len_array (items : List Text) :
    (array items).utf8Len = (items.map fun t => t.utf8Len + 1).sum - 1 + 2 := by
  unfold array
  rw [Text.utf8Len_append, Text.utf8Len_append, utf8Len_intercalate]
  rw [show Text.utf8Len ['['] = 1 from rfl, show Text.utf8Len [']'] = 1 from rfl]
  omega

theorem utf8Len_object (fields : List (Text × Text)) : (object fields).utf8Len =
    (fields.map fun f => (string f.1).utf8Len + f.2.utf8Len + 2).sum - 1 + 2 := by
  unfold object
  rw [Text.utf8Len_append, Text.utf8Len_append, utf8Len_intercalate, List.map_map]
  rw [show Text.utf8Len ['\x7b'] = 1 from rfl, show Text.utf8Len ['\x7d'] = 1 from rfl]
  have hmap : (fun t : Text => t.utf8Len + 1) ∘
      (fun f : Text × Text => string f.1 ++ [':'] ++ f.2) =
        fun f => (string f.1).utf8Len + f.2.utf8Len + 2 := by
    funext f
    simp only [Function.comp_apply, Text.utf8Len_append]
    rw [show Text.utf8Len [':'] = 1 from rfl]
    omega
  rw [hmap]
  omega

end Json

/-! ## Base64 -/

namespace Base64

def alphabet : Text :=
  "ABCDEFGHIJKLMNOPQRSTUVWXYZabcdefghijklmnopqrstuvwxyz0123456789+/".toList

def letter (n : ℕ) : Char := alphabet.getD (n % 64) '='

def word (a b c : UInt8) : ℕ := a.toNat * 65536 + b.toNat * 256 + c.toNat

/-- `serde_bytes_vec::serialize`, padded; the standard engine writes the same. -/
def encode : List UInt8 → Text
  | [] => []
  | [a] => [letter (word a 0 0 / 2 ^ 18), letter (word a 0 0 / 2 ^ 12), '=', '=']
  | [a, b] =>
    [letter (word a b 0 / 2 ^ 18), letter (word a b 0 / 2 ^ 12), letter (word a b 0 / 2 ^ 6), '=']
  | a :: b :: c :: rest =>
    letter (word a b c / 2 ^ 18) :: letter (word a b c / 2 ^ 12) :: letter (word a b c / 2 ^ 6) ::
      letter (word a b c) :: encode rest

def size (n : ℕ) : ℕ := 4 * ((n + 2) / 3)

theorem length_encode (bytes : List UInt8) : (encode bytes).length = size bytes.length := by
  unfold size
  fun_induction encode bytes with
  | case1 => rfl
  | case2 | case3 => simp
  | case4 a b c rest ih =>
    simp only [List.length_cons, ih]
    omega

theorem letter_plain (n : ℕ) : 0x20 ≤ (letter n).toNat ∧ (letter n).toNat < 0x80 ∧
    letter n ≠ '"' ∧ letter n ≠ '\\' := by
  have hall : ∀ i < 64, 0x20 ≤ (alphabet.getD i '=').toNat ∧ (alphabet.getD i '=').toNat < 0x80 ∧
      alphabet.getD i '=' ≠ '"' ∧ alphabet.getD i '=' ≠ '\\' := by decide +kernel
  exact hall (n % 64) (Nat.mod_lt n (by decide))

theorem encode_plain (bytes : List UInt8) : (encode bytes).Plain := by
  have hpad : 0x20 ≤ '='.toNat ∧ '='.toNat < 0x80 ∧ '=' ≠ '"' ∧ '=' ≠ '\\' := by decide
  fun_induction encode bytes with
  | case1 => exact fun c hc => absurd hc List.not_mem_nil
  | case2 a | case3 a b =>
    intro c hc
    simp only [List.mem_cons, List.not_mem_nil, or_false] at hc
    rcases hc with rfl | rfl | rfl | rfl <;> first | exact letter_plain _ | exact hpad
  | case4 a b c rest ih =>
    intro d hd
    simp only [List.mem_cons] at hd
    rcases hd with rfl | rfl | rfl | rfl | hd
    · exact letter_plain _
    · exact letter_plain _
    · exact letter_plain _
    · exact letter_plain _
    · exact ih d hd

theorem utf8Len_string_encode (bytes : List UInt8) :
    (Json.string (encode bytes)).utf8Len = size bytes.length + 2 := by
  rw [Json.utf8Len_string (encode_plain bytes), length_encode]

theorem size_le (n : ℕ) : 3 * size n ≤ 4 * n + 8 := by
  unfold size
  omega

end Base64

/-! ## Envelopes -/

/-- The bytes of a seal: a nonce of 24 and the ciphertext with its tag. -/
structure Cipher where
  nonce : Sealed → List UInt8
  bytes : Sealed → List UInt8
  nonce_length : ∀ s, (nonce s).length = 24
  bytes_length : ∀ s, (bytes s).length = s.len

def kindName : EntityKind → Text
  | .host => "host".toList
  | .group => "group".toList
  | .identity => "identity".toList
  | .key => "key".toList
  | .snippet => "snippet".toList
  | .portForward => "port_forward".toList
  | .knownHost => "known_host".toList
  | .terminalProfile => "terminal_profile".toList
  | .secret => "secret".toList
  | .manifest => "manifest".toList

theorem utf8Len_string_kindName (k : EntityKind) : (Json.string (kindName k)).utf8Len = (kindName k).length + 2 := by
  cases k <;> rfl

theorem length_kindName_le (k : EntityKind) : (kindName k).length ≤ 16 := by
  cases k <;> decide

def Hlc.toJson (t : Hlc) : Text :=
  Json.object (Json.field "wall_ms" (Text.ofNat t.wallMs.toNat) ++
    Json.field "counter" (Text.ofNat t.counter.toNat) ++
    Json.field "device" (Text.ofNat t.device.toNat))

def Hlc.digits (t : Hlc) : ℕ :=
  decimals t.wallMs.toNat + decimals t.counter.toNat + decimals t.device.toNat

theorem Hlc.digits_le (t : Hlc) : t.digits ≤ 40 := by
  have hw := decimals_le t.wallMs.toNat_lt
  have hc := decimals_le_u32 t.counter.toNat_lt
  have hd := decimals_le_u32 t.device.toNat_lt
  unfold digits
  omega

theorem Hlc.utf8Len_toJson (t : Hlc) : t.toJson.utf8Len = t.digits + 33 := by
  unfold toJson digits Json.field
  rw [Json.utf8Len_object]
  simp only [List.cons_append, List.nil_append, List.map_cons, List.map_nil, List.sum_cons,
    List.sum_nil, utf8Len_ofNat]
  rw [show (Json.string "wall_ms".toList).utf8Len = 9 from rfl,
    show (Json.string "counter".toList).utf8Len = 9 from rfl,
    show (Json.string "device".toList).utf8Len = 8 from rfl]
  omega

/-- An id is 16 bytes and a sequence number a `u64`. -/
structure Envelope.InRange (e : Envelope) : Prop where
  id : e.id < 2 ^ 128
  vaultId : e.vaultId < 2 ^ 128
  baseSeq : e.baseSeq < 2 ^ 64
  seq : ∀ n, e.seq = some n → n < 2 ^ 64

def Envelope.toJson (c : Cipher) (e : Envelope) : Text :=
  Json.object (Json.field "id" (Json.uuid e.id) ++ Json.field "vault_id" (Json.uuid e.vaultId) ++
    Json.field "kind" (Json.string (kindName e.kind)) ++
    Json.field "updated_at" e.updatedAt.toJson ++
    Json.field "base_seq" (Text.ofNat e.baseSeq) ++ Json.field "deleted" (Json.bool e.deleted) ++
    Json.field "nonce" (Json.string (Base64.encode (c.nonce e.blob))) ++
    Json.field "blob" (Json.string (Base64.encode (c.bytes e.blob))) ++
    Json.field "seq" (Json.option Text.ofNat e.seq))

/-- What of an envelope's text is not the same for every envelope: the kind, the numbers, the flag
and the blob in base64. -/
def Envelope.weight (e : Envelope) : ℕ :=
  (kindName e.kind).length + e.updatedAt.digits + decimals e.baseSeq +
    (if e.deleted then 4 else 5) + Base64.size e.blob.len + e.seq.elim 4 decimals

theorem utf8Len_option_ofNat (o : Option ℕ) : (Json.option Text.ofNat o).utf8Len = o.elim 4 decimals := by
  cases o with
  | none => rfl
  | some n => exact utf8Len_ofNat n

theorem utf8Len_names : (Json.string "id".toList).utf8Len = 4 ∧ (Json.string "kind".toList).utf8Len = 6 ∧
    (Json.string "deleted".toList).utf8Len = 9 ∧ (Json.string "nonce".toList).utf8Len = 7 ∧
    (Json.string "blob".toList).utf8Len = 6 ∧ (Json.string "seq".toList).utf8Len = 5 ∧ Base64.size 24 = 32 :=
  ⟨rfl, rfl, rfl, rfl, rfl, rfl, rfl⟩

theorem Envelope.utf8Len_toJson {c : Cipher} (h : e.InRange) : (e.toJson c).utf8Len = e.weight + 235 := by
  unfold toJson weight Json.field
  rw [Json.utf8Len_object]
  simp only [List.cons_append, List.nil_append, List.map_cons, List.map_nil, List.sum_cons,
    List.sum_nil, utf8Len_ofNat, Json.utf8Len_uuid h.id, Json.utf8Len_uuid h.vaultId,
    utf8Len_string_kindName, Hlc.utf8Len_toJson, Json.utf8Len_bool, Base64.utf8Len_string_encode,
    c.nonce_length, c.bytes_length, utf8Len_option_ofNat, utf8Len_names]
  rw [show (Json.string "vault_id".toList).utf8Len = 10 from rfl,
    show (Json.string "updated_at".toList).utf8Len = 12 from rfl,
    show (Json.string "base_seq".toList).utf8Len = 10 from rfl]
  omega

theorem Envelope.weight_le (h : e.InRange) : e.weight ≤ Base64.size e.blob.len + 101 := by
  have hk := length_kindName_le e.kind
  have ht := e.updatedAt.digits_le
  have hb := decimals_le h.baseSeq
  have hs : e.seq.elim 4 decimals ≤ 20 := by
    cases hseq : e.seq with
    | none => decide
    | some n => exact decimals_le (h.seq n hseq)
  have hd : (if e.deleted then 4 else 5) ≤ 5 := by split <;> decide
  unfold weight
  omega

/-! ## Answers -/

def PullResponse.toJson (c : Cipher) (r : PullResponse) : Text :=
  Json.object (Json.field "envelopes" (Json.array (r.envelopes.map (Envelope.toJson c))) ++
    Json.field "cursor" (Text.ofNat r.cursor) ++ Json.field "has_more" (Json.bool r.hasMore))

def Accepted.toJson (a : Accepted) : Text :=
  Json.object (Json.field "id" (Json.uuid a.id) ++ Json.field "seq" (Text.ofNat a.seq))

theorem Accepted.utf8Len_toJson {a : Accepted} (h : a.id < 2 ^ 128) : a.toJson.utf8Len = decimals a.seq + 52 := by
  unfold toJson Json.field
  rw [Json.utf8Len_object]
  simp only [List.cons_append, List.nil_append, List.map_cons, List.map_nil, List.sum_cons,
    List.sum_nil, utf8Len_ofNat, Json.utf8Len_uuid h]
  rw [show (Json.string "id".toList).utf8Len = 4 from rfl,
    show (Json.string "seq".toList).utf8Len = 5 from rfl]
  omega

/-- The whole answer to a push. The engine makes no use of its cursor. -/
structure PushAnswer extends PushResponse where
  cursor : ℕ
deriving DecidableEq

/-- Both servers write the answer to a push alike, but for the records in it. -/
def PushAnswer.toJson (record : Envelope → Text) (r : PushAnswer) : Text :=
  Json.object (Json.field "accepted" (Json.array (r.accepted.map Accepted.toJson)) ++
    Json.field "conflicts" (Json.array (r.conflicts.map record)) ++
    Json.field "cursor" (Text.ofNat r.cursor))

end UwuRdp
