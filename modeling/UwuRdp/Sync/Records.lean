import UwuRdp.Lib.Json
import UwuRdp.Proto.Base64
import UwuRdp.Proto.Uuid
import UwuRdp.Sync.Sizes

/-!
# Records on both wires

An envelope with its bytes, as JSON in a UwUSync body and as the record of a UwULock space. Three libraries are
parameters: what writes and reads JSON text, what reads an id, and the base64 engines of the other transport; of
each only what it documents is used.
-/

namespace UwuRdp

open Lib

/-! ## Documents -/

namespace Json

abbrev Doc := Lib.Json.Doc

def occurrences (name : String) : Doc → List Doc
  | .obj fields => (fields.filter fun f => f.1 = name.toList).map Prod.snd
  | _ => []

def required {α : Type} (name : String) (read : Doc → Option α) (d : Doc) : Option α :=
  match occurrences name d with
  | [value] => read value
  | _ => none

/-- `#[serde(default)]`: a field that may be left out. -/
def defaulted {α : Type} (name : String) (default : α) (read : Doc → Option α) (d : Doc) : Option α :=
  match occurrences name d with
  | [] => some default
  | [value] => read value
  | _ => none

variable {name : String} {d : Doc}

variable {α : Type} {value : Doc}

theorem required_eq {read : Doc → Option α}
    (h : occurrences name d = [value]) : required name read d = read value := by
  unfold required
  rw [h]

theorem defaulted_eq {default : α} {read : Doc → Option α}
    (h : occurrences name d = [value]) : defaulted name default read d = read value := by
  unfold defaulted
  rw [h]

theorem defaulted_left_out {default : α} {read : Doc → Option α}
    (h : occurrences name d = []) : defaulted name default read d = some default := by
  unfold defaulted
  rw [h]

def readU64 : Doc → Option UInt64
  | .num n => if n < 2 ^ 64 then some (UInt64.ofNat n) else none
  | _ => none

def readU32 : Doc → Option UInt32
  | .num n => if n < 2 ^ 32 then some (UInt32.ofNat n) else none
  | _ => none

def readBool : Doc → Option Bool
  | .bool b => some b
  | _ => none

def readText : Doc → Option Text
  | .str t => some t
  | _ => none

/-- An `Option`: nothing for `null`. -/
def readOption {α : Type} (read : Doc → Option α) : Doc → Option (Option α)
  | .null => some none
  | d => (read d).map some

def optionDoc : Option UInt64 → Doc
  | none => .null
  | some n => .num n.toNat

theorem readU64_num (n : UInt64) : readU64 (.num n.toNat) = some n := by
  rw [readU64, if_pos n.toNat_lt, UInt64.ofNat_toNat]

theorem readU32_num (n : UInt32) : readU32 (.num n.toNat) = some n := by
  rw [readU32, if_pos n.toNat_lt, UInt32.ofNat_toNat]

theorem readOption_optionDoc (o : Option UInt64) : readOption readU64 (optionDoc o) = some o := by
  cases o with
  | none => rfl
  | some n =>
    show (readU64 (.num n.toNat)).map some = _
    rw [readU64_num]
    rfl

/-- What writes and reads JSON text. -/
structure Format where
  write : Doc → Text
  read : Text → Option Doc

def Format.Faithful (f : Format) : Prop := ∀ d, f.read (f.write d) = some d

end Json

/-! ## Base64 of the library -/

inductive Engine64 where
  | standard
  | standardNoPad
  | urlSafe
  | urlSafeNoPad
deriving DecidableEq

/-- The engines of the `base64` crate. -/
structure Base64Crate where
  encode : List UInt8 → Text
  decode : Engine64 → Text → Option (List UInt8)

/-- `STANDARD` writes the standard encoding and reads it. -/
structure Base64Crate.Documented (crate : Base64Crate) : Prop where
  encode : ∀ bytes, Base64.Standard bytes (crate.encode bytes)
  decode : ∀ bytes text, Base64.Standard bytes text → crate.decode .standard text = some bytes

/-- Standard base64 as written here; the URL-safe alphabet and missing padding are read too. -/
def Base64Crate.read (crate : Base64Crate) (text : Text) : Option (List UInt8) :=
  [.standard, .standardNoPad, .urlSafe, .urlSafeNoPad].findSome? fun engine => crate.decode engine (Text.trim text)

/-- The engines as they are: no letter of the other alphabet, padding where it has to be and nowhere else, no bits
left over. -/
def Base64Crate.strict : Base64Crate where
  encode := Base64.encode
  decode engine text :=
    let bytes := Base64.decode (text.map fun c => if c = '-' then '+' else if c = '_' then '/' else c)
    let standard := Base64.encode bytes
    let urlSafe := standard.map fun c => if c = '+' then '-' else if c = '/' then '_' else c
    let written := match engine with
      | .standard => standard
      | .standardNoPad => standard.filter (· ≠ '=')
      | .urlSafe => urlSafe
      | .urlSafeNoPad => urlSafe.filter (· ≠ '=')
    if written = text then some bytes else none

/-! ## Envelopes -/

/-- An envelope with the bytes of its nonce and its blob. -/
structure EnvelopeBytes where
  id : Fin (2 ^ 128)
  vaultId : Fin (2 ^ 128)
  kind : EntityKind
  updatedAt : Hlc
  baseSeq : UInt64
  deleted : Bool
  nonce : List UInt8
  blob : List UInt8
  seq : Option UInt64
deriving DecidableEq

/-- `WireRecord`: the vault id implied by the space. -/
structure RecordBytes where
  id : Fin (2 ^ 128)
  kind : Text
  updatedAt : Hlc
  baseSeq : UInt64
  deleted : Bool
  nonce : Text
  blob : Text
  seq : Option UInt64
deriving DecidableEq

section Ids

variable (parseUuid : Text → Option Uuid)

def readUuid : Json.Doc → Option (Fin (2 ^ 128))
  | .str t => (parseUuid t).map (Fin.ofNat (2 ^ 128))
  | _ => none

def uuidDoc (id : Fin (2 ^ 128)) : Json.Doc := .str (Uuid.hyphenated id.val)

theorem readUuid_uuidDoc {parseUuid : Text → Option Uuid} (h : Uuid.ReadsHyphenated parseUuid) (id : Fin (2 ^ 128)) :
    readUuid parseUuid (uuidDoc id) = some id := by
  show (parseUuid (Uuid.hyphenated id.val)).map (Fin.ofNat (2 ^ 128)) = _
  rw [h _ id.val id.isLt (Uuid.toAsciiLowercase_hyphenated id.isLt), Option.map_some, Option.some.injEq]
  exact Fin.ofNat_val_eq_self id

/-! ## UwUSync -/

def clockDoc (t : Hlc) : Json.Doc :=
  .obj [("wall_ms".toList, .num t.wallMs.toNat), ("counter".toList, .num t.counter.toNat),
    ("device".toList, .num t.device.toNat)]

def clockOfDoc (d : Json.Doc) : Option Hlc := do
  let wallMs ← Json.required "wall_ms" Json.readU64 d
  let counter ← Json.required "counter" Json.readU32 d
  let device ← Json.required "device" Json.readU32 d
  some ⟨wallMs, counter, device⟩

namespace EnvelopeBytes

/-- The JSON form, its bytes in the base64 of `serde_bytes_vec`. -/
def toDoc (e : EnvelopeBytes) : Json.Doc :=
  .obj [("id".toList, uuidDoc e.id), ("vault_id".toList, uuidDoc e.vaultId), ("kind".toList, .str (kindName e.kind)),
    ("updated_at".toList, clockDoc e.updatedAt), ("base_seq".toList, .num e.baseSeq.toNat),
    ("deleted".toList, .bool e.deleted), ("nonce".toList, .str (Base64.encode e.nonce)),
    ("blob".toList, .str (Base64.encode e.blob)), ("seq".toList, Json.optionDoc e.seq)]

def ofDoc (d : Json.Doc) : Option EnvelopeBytes := do
  let id ← Json.required "id" (readUuid parseUuid) d
  let vaultId ← Json.required "vault_id" (readUuid parseUuid) d
  let kind ← Json.required "kind" (fun v => (Json.readText v).bind kindOf) d
  let updatedAt ← Json.required "updated_at" clockOfDoc d
  let baseSeq ← Json.defaulted "base_seq" 0 Json.readU64 d
  let deleted ← Json.defaulted "deleted" false Json.readBool d
  let nonce ← Json.required "nonce" (fun v => (Json.readText v).map Base64.decode) d
  let blob ← Json.required "blob" (fun v => (Json.readText v).map Base64.decode) d
  let seq ← Json.defaulted "seq" none (Json.readOption Json.readU64) d
  some ⟨id, vaultId, kind, updatedAt, baseSeq, deleted, nonce, blob, seq⟩

end EnvelopeBytes

/-! ## UwULock -/

/-- `WireClock`, in camel case. -/
def wireClockDoc (t : Hlc) : Json.Doc :=
  .obj [("wallMs".toList, .num t.wallMs.toNat), ("counter".toList, .num t.counter.toNat),
    ("device".toList, .num t.device.toNat)]

def wireClockOfDoc (d : Json.Doc) : Option Hlc := do
  let wallMs ← Json.required "wallMs" Json.readU64 d
  let counter ← Json.required "counter" Json.readU32 d
  let device ← Json.required "device" Json.readU32 d
  some ⟨wallMs, counter, device⟩

namespace RecordBytes

/-- The JSON form: no number for a record that has none. -/
def toDoc (r : RecordBytes) : Json.Doc :=
  .obj ([("id".toList, uuidDoc r.id), ("kind".toList, .str r.kind), ("updatedAt".toList, wireClockDoc r.updatedAt),
    ("baseSeq".toList, .num r.baseSeq.toNat), ("deleted".toList, .bool r.deleted), ("nonce".toList, .str r.nonce),
    ("blob".toList, .str r.blob)] ++ if r.seq.isSome then [("seq".toList, Json.optionDoc r.seq)] else [])

def ofDoc (d : Json.Doc) : Option RecordBytes := do
  let id ← Json.required "id" (readUuid parseUuid) d
  let kind ← Json.required "kind" Json.readText d
  let updatedAt ← Json.required "updatedAt" wireClockOfDoc d
  let baseSeq ← Json.defaulted "baseSeq" 0 Json.readU64 d
  let deleted ← Json.defaulted "deleted" false Json.readBool d
  let nonce ← Json.required "nonce" Json.readText d
  let blob ← Json.required "blob" Json.readText d
  let seq ← Json.defaulted "seq" none (Json.readOption Json.readU64) d
  some ⟨id, kind, updatedAt, baseSeq, deleted, nonce, blob, seq⟩

def fromEnvelope (crate : Base64Crate) (e : EnvelopeBytes) : RecordBytes :=
  ⟨e.id, kindName e.kind, e.updatedAt, e.baseSeq, e.deleted, crate.encode e.nonce, crate.encode e.blob, e.seq⟩

/-- The envelope, or `none` for a kind this build does not know or bytes that are not base64. -/
def intoEnvelope (crate : Base64Crate) (space : Fin (2 ^ 128)) (r : RecordBytes) : Option EnvelopeBytes := do
  let kind ← kindOf r.kind
  let nonce ← crate.read r.nonce
  let blob ← crate.read r.blob
  some ⟨r.id, space, kind, r.updatedAt, r.baseSeq, r.deleted, nonce, blob, r.seq⟩

end RecordBytes

/-! ## Round trips -/

theorem clockOfDoc_clockDoc (t : Hlc) : clockOfDoc (clockDoc t) = some t := by
  have hwall : Json.occurrences "wall_ms" (clockDoc t) = [.num t.wallMs.toNat] := rfl
  have hcounter : Json.occurrences "counter" (clockDoc t) = [.num t.counter.toNat] := rfl
  have hdevice : Json.occurrences "device" (clockDoc t) = [.num t.device.toNat] := rfl
  unfold clockOfDoc
  simp only [Json.required_eq hwall, Json.required_eq hcounter, Json.required_eq hdevice, Json.readU64_num,
    Json.readU32_num, Option.bind_eq_bind, Option.bind_some]

theorem wireClockOfDoc_wireClockDoc (t : Hlc) : wireClockOfDoc (wireClockDoc t) = some t := by
  have hwall : Json.occurrences "wallMs" (wireClockDoc t) = [.num t.wallMs.toNat] := rfl
  have hcounter : Json.occurrences "counter" (wireClockDoc t) = [.num t.counter.toNat] := rfl
  have hdevice : Json.occurrences "device" (wireClockDoc t) = [.num t.device.toNat] := rfl
  unfold wireClockOfDoc
  simp only [Json.required_eq hwall, Json.required_eq hcounter, Json.required_eq hdevice, Json.readU64_num,
    Json.readU32_num, Option.bind_eq_bind, Option.bind_some]

variable {parseUuid : Text → Option Uuid}

theorem EnvelopeBytes.ofDoc_toDoc (h : Uuid.ReadsHyphenated parseUuid) (e : EnvelopeBytes) :
    ofDoc parseUuid e.toDoc = some e := by
  have hid : Json.occurrences "id" e.toDoc = [uuidDoc e.id] := rfl
  have hvault : Json.occurrences "vault_id" e.toDoc = [uuidDoc e.vaultId] := rfl
  have hkind : Json.occurrences "kind" e.toDoc = [.str (kindName e.kind)] := rfl
  have hclock : Json.occurrences "updated_at" e.toDoc = [clockDoc e.updatedAt] := rfl
  have hbase : Json.occurrences "base_seq" e.toDoc = [.num e.baseSeq.toNat] := rfl
  have hdeleted : Json.occurrences "deleted" e.toDoc = [.bool e.deleted] := rfl
  have hnonce : Json.occurrences "nonce" e.toDoc = [.str (Base64.encode e.nonce)] := rfl
  have hblob : Json.occurrences "blob" e.toDoc = [.str (Base64.encode e.blob)] := rfl
  have hseq : Json.occurrences "seq" e.toDoc = [Json.optionDoc e.seq] := rfl
  unfold ofDoc
  simp only [Json.required_eq hid, Json.required_eq hvault, Json.required_eq hkind, Json.required_eq hclock,
    Json.defaulted_eq hbase, Json.defaulted_eq hdeleted, Json.required_eq hnonce, Json.required_eq hblob,
    Json.defaulted_eq hseq, readUuid_uuidDoc h, Json.readText, clockOfDoc_clockDoc, Json.readU64_num, Json.readBool,
    Json.readOption_optionDoc, kindOf_kindName, Base64.decode_standard (Base64.standard_encode _), Option.map_some,
    Option.bind_eq_bind, Option.bind_some]

theorem RecordBytes.ofDoc_toDoc (h : Uuid.ReadsHyphenated parseUuid) (r : RecordBytes) :
    ofDoc parseUuid r.toDoc = some r := by
  obtain ⟨id, kind, updatedAt, baseSeq, deleted, nonce, blob, seq⟩ := r
  have hseq : Json.defaulted "seq" none (Json.readOption Json.readU64)
      (toDoc ⟨id, kind, updatedAt, baseSeq, deleted, nonce, blob, seq⟩) = some seq := by
    cases seq with
    | none => exact Json.defaulted_left_out rfl
    | some n => exact (Json.defaulted_eq rfl).trans (Json.readOption_optionDoc (some n))
  -- the number is the last field, so the others are found whether it is there or not
  have hfields : ∀ name, name ≠ "seq".toList → ∀ fields : List (Text × Json.Doc),
      ((fields ++ if seq.isSome then [("seq".toList, Json.optionDoc seq)] else []).filter fun f => f.1 = name) =
        fields.filter fun f => f.1 = name := by
    intro name hname fields
    rw [List.filter_append]
    split
    · rw [List.filter_cons_of_neg (by simpa using fun h => hname h.symm), List.filter_nil, List.append_nil]
    · rw [List.filter_nil, List.append_nil]
  have hfind : ∀ name : String, name.toList ≠ "seq".toList →
      Json.occurrences name (toDoc ⟨id, kind, updatedAt, baseSeq, deleted, nonce, blob, seq⟩) =
        Json.occurrences name (.obj [("id".toList, uuidDoc id), ("kind".toList, .str kind),
          ("updatedAt".toList, wireClockDoc updatedAt), ("baseSeq".toList, .num baseSeq.toNat),
          ("deleted".toList, .bool deleted), ("nonce".toList, .str nonce), ("blob".toList, .str blob)]) :=
    fun name hname => congrArg (List.map Prod.snd) (hfields name.toList hname _)
  have hid := (hfind "id" (by decide)).trans (show _ = [uuidDoc id] from rfl)
  have hkind := (hfind "kind" (by decide)).trans (show _ = [.str kind] from rfl)
  have hclock := (hfind "updatedAt" (by decide)).trans (show _ = [wireClockDoc updatedAt] from rfl)
  have hbase := (hfind "baseSeq" (by decide)).trans (show _ = [.num baseSeq.toNat] from rfl)
  have hdeleted := (hfind "deleted" (by decide)).trans (show _ = [.bool deleted] from rfl)
  have hnonce := (hfind "nonce" (by decide)).trans (show _ = [.str nonce] from rfl)
  have hblob := (hfind "blob" (by decide)).trans (show _ = [.str blob] from rfl)
  unfold ofDoc
  simp only [hseq, Json.required_eq hid, Json.required_eq hkind, Json.required_eq hclock, Json.defaulted_eq hbase,
    Json.defaulted_eq hdeleted, Json.required_eq hnonce, Json.required_eq hblob, readUuid_uuidDoc h, Json.readText,
    wireClockOfDoc_wireClockDoc, Json.readU64_num, Json.readBool, Option.bind_eq_bind, Option.bind_some]

end Ids

/-! ## Standard text -/

variable {bytes : List UInt8} {text : Text} {c : Cipher} {e : Envelope}

theorem Base64.not_whitespace (h : Base64.Standard bytes text) : ∀ c ∈ text, Text.isWhitespace c = false := by
  have hletter : ∀ d < 64, Text.isWhitespace (Base64.letter d) = false := by decide +kernel
  obtain ⟨digits, zeroes, signs, rfl, hdigits, -⟩ := h
  intro c hc
  rcases List.mem_append.mp hc with hc | hc
  · obtain ⟨d, hd, rfl⟩ := List.mem_map.mp hc
    exact hletter d (hdigits d hd)
  · rw [List.eq_of_mem_replicate hc]
    decide

variable {crate : Base64Crate}

theorem Base64Crate.read_standard (hcrate : crate.Documented)
    (h : Base64.Standard bytes text) : crate.read text = some bytes := by
  unfold Base64Crate.read
  rw [Text.trim_of_unspaced (Base64.not_whitespace h), List.findSome?_cons, hcrate.decode bytes text h]

theorem RecordBytes.intoEnvelope_fromEnvelope (hcrate : crate.Documented) (e : EnvelopeBytes) :
    (fromEnvelope crate e).intoEnvelope crate e.vaultId = some e := by
  have hread : ∀ bytes, crate.read (crate.encode bytes) = some bytes :=
    fun bytes => Base64Crate.read_standard hcrate (hcrate.encode bytes)
  unfold fromEnvelope intoEnvelope
  simp only [kindOf_kindName, hread, Option.bind_eq_bind, Option.bind_some]

theorem Base64Crate.documented_strict : strict.Documented where
  encode := Base64.standard_encode
  decode := by
    have hletter : ∀ d < 64, Base64.letter d ≠ '-' ∧ Base64.letter d ≠ '_' := by decide +kernel
    intro bytes text h
    have hkeep : text.map (fun c => if c = '-' then '+' else if c = '_' then '/' else c) = text := by
      conv_rhs => rw [← List.map_id text]
      apply List.map_congr_left
      intro c hc
      have hnot : c ≠ '-' ∧ c ≠ '_' := by
        obtain ⟨digits, zeroes, signs, rfl, hdigits, -⟩ := h
        rcases List.mem_append.mp hc with hc | hc
        · obtain ⟨d, hd, rfl⟩ := List.mem_map.mp hc
          exact hletter d (hdigits d hd)
        · rw [List.eq_of_mem_replicate hc]
          decide
      rw [if_neg hnot.1, if_neg hnot.2]
      rfl
    unfold strict
    dsimp only
    rw [hkeep, Base64.decode_standard h, if_pos ((Base64.standard_encode bytes).unique h)]

/-! ## The text of a body -/

theorem Json.render_fields (name : Text) (d : Json.Doc) (fields : List (Text × Json.Doc)) : Lib.Json.string name ++
    ':' :: (Lib.Json.render d ++ Lib.Json.renderFields fields) = [','].intercalate
    (((name, d) :: fields).map fun f => Json.string f.1 ++ [':'] ++ Lib.Json.render f.2) ++ ['}'] := by
  have hstring : ∀ t, Lib.Json.string t = Json.string t := fun t => rfl
  induction fields generalizing name d with
  | nil =>
    rw [hstring, Lib.Json.renderFields]
    simp
  | cons f fields ih =>
    rw [Lib.Json.renderFields, ih f.1 f.2, hstring]
    simp

theorem Json.render_obj (fields : List (Text × Json.Doc)) :
    Lib.Json.render (.obj fields) = Json.object (fields.map fun f => (f.1, Lib.Json.render f.2)) := by
  unfold Json.object
  rw [List.map_map]
  cases fields with
  | nil =>
    rw [Lib.Json.render]
    rfl
  | cons f fields =>
    rw [Lib.Json.render, Json.render_fields]
    rfl

/-- What an envelope is made of, its nonce and its blob as bytes. -/
def Envelope.raw (c : Cipher) (e : Envelope) : EnvelopeBytes :=
  ⟨Fin.ofNat _ e.id, Fin.ofNat _ e.vaultId, e.kind, e.updatedAt, UInt64.ofNat e.baseSeq, e.deleted, c.nonce e.blob,
    c.bytes e.blob, e.seq.map UInt64.ofNat⟩

theorem render_str (t : Text) : Lib.Json.render (.str t) = Json.string t := by
  rw [Lib.Json.render]
  rfl

theorem render_uuidDoc {id : Uuid} (h : id < 2 ^ 128) :
    Lib.Json.render (uuidDoc (Fin.ofNat (2 ^ 128) id)) = Json.uuid id := by
  have hval : (Fin.ofNat (2 ^ 128) id).val = id := Nat.mod_eq_of_lt h
  unfold uuidDoc
  rw [render_str, hval, Uuid.json_eq h]

theorem render_bool (b : Bool) : Lib.Json.render (.bool b) = Json.bool b := by
  cases b <;> rw [Lib.Json.render] <;> rfl

theorem render_nat (n : ℕ) : Lib.Json.render (.num n) = Text.ofNat n := by
  rw [Lib.Json.render]
  rfl

theorem render_num {n : ℕ} (h : n < 2 ^ 64) : Lib.Json.render (.num (UInt64.ofNat n).toNat) = Text.ofNat n := by
  rw [render_nat, UInt64.toNat_ofNat_of_lt' h]

theorem render_clockDoc (t : Hlc) : Lib.Json.render (clockDoc t) = t.toJson := by
  unfold clockDoc Hlc.toJson Json.field
  rw [Json.render_obj]
  simp only [List.map_cons, List.map_nil, render_nat, List.cons_append, List.nil_append]

theorem render_wireClockDoc (t : Hlc) : Lib.Json.render (wireClockDoc t) = t.toSuiteJson := by
  unfold wireClockDoc Hlc.toSuiteJson Json.field
  rw [Json.render_obj]
  simp only [List.map_cons, List.map_nil, render_nat, List.cons_append, List.nil_append]

theorem render_optionDoc {o : Option ℕ} (h : ∀ n, o = some n → n < 2 ^ 64) :
    Lib.Json.render (Json.optionDoc (o.map UInt64.ofNat)) = Json.option Text.ofNat o := by
  cases o with
  | none =>
    show Lib.Json.render .null = _
    rw [Lib.Json.render]
    rfl
  | some n => exact render_num (h n rfl)

theorem Envelope.render_raw (h : e.InRange) : Lib.Json.render (e.raw c).toDoc = e.toJson c := by
  unfold EnvelopeBytes.toDoc raw toJson Json.field
  rw [Json.render_obj]
  simp only [List.map_cons, List.map_nil, render_uuidDoc h.id, render_uuidDoc h.vaultId, render_clockDoc,
    render_num h.baseSeq, render_bool, render_str, render_optionDoc h.seq, List.cons_append, List.nil_append]

theorem Envelope.render_raw_suite (hcrate : crate.Documented)
    (h : e.InRange) : Lib.Json.render (RecordBytes.fromEnvelope crate (e.raw c)).toDoc = e.toSuiteJson c := by
  have hencode : ∀ bytes, crate.encode bytes = Base64.encode bytes :=
    fun bytes => (hcrate.encode bytes).unique (Base64.standard_encode bytes)
  have hseq : (if (e.seq.map UInt64.ofNat).isSome then [("seq".toList, Json.optionDoc (e.seq.map UInt64.ofNat))]
      else []).map (fun f => (f.1, Lib.Json.render f.2)) =
      Json.fieldIf e.seq.isSome "seq" (Json.option Text.ofNat e.seq) := by
    unfold Json.fieldIf
    rw [Option.isSome_map]
    split
    · rw [List.map_cons, List.map_nil, render_optionDoc h.seq]
      rfl
    · rfl
  unfold RecordBytes.toDoc RecordBytes.fromEnvelope raw toSuiteJson Json.field
  rw [Json.render_obj, List.map_append, hseq]
  simp only [List.map_cons, List.map_nil, render_uuidDoc h.id, render_wireClockDoc, render_num h.baseSeq, render_bool,
    render_str, hencode, List.cons_append, List.nil_append]

/-! ## Both wires -/

/-- Written as JSON and read again, an envelope is itself, on either transport; both write standard base64, and each
reads what the other wrote. -/
theorem records_cross {parseUuid : Text → Option Uuid} {format : Json.Format} {crate : Base64Crate}
    (huuid : Uuid.ReadsHyphenated parseUuid) (hformat : format.Faithful) (hcrate : crate.Documented) :
    (∀ e : EnvelopeBytes, (format.read (format.write e.toDoc)).bind (EnvelopeBytes.ofDoc parseUuid) = some e) ∧
    (∀ e : EnvelopeBytes,
      ((format.read (format.write (RecordBytes.fromEnvelope crate e).toDoc)).bind (RecordBytes.ofDoc parseUuid)).bind
        (RecordBytes.intoEnvelope crate e.vaultId) = some e) ∧
    ∀ bytes, Base64.Standard bytes (Base64.encode bytes) ∧ Base64.Standard bytes (crate.encode bytes) ∧
      Base64.decode (crate.encode bytes) = bytes ∧ crate.read (Base64.encode bytes) = some bytes := by
  refine ⟨fun e => ?_, fun e => ?_, fun bytes => ⟨Base64.standard_encode bytes, hcrate.encode bytes, ?_, ?_⟩⟩
  · rw [hformat, Option.bind_some, EnvelopeBytes.ofDoc_toDoc huuid]
  · rw [hformat, Option.bind_some, RecordBytes.ofDoc_toDoc huuid, Option.bind_some,
      RecordBytes.intoEnvelope_fromEnvelope hcrate]
  · exact Base64.decode_standard (hcrate.encode bytes)
  · exact Base64Crate.read_standard hcrate (Base64.standard_encode bytes)

/-- A host of four bytes that the server has not numbered. -/
theorem records_cross_host :
    let e : EnvelopeBytes := ⟨7, 1, .host, ⟨5, 0, 3⟩, 0, false, [255], [1, 2, 3, 254], none⟩
    let format : Json.Format := ⟨Lib.Json.render, Lib.Json.read⟩
    (format.read (format.write e.toDoc)).bind (EnvelopeBytes.ofDoc Uuid.ofHyphenated) = some e ∧
      Base64Crate.strict.read (Base64.encode [1, 2, 3, 254]) = some [1, 2, 3, 254] := by
  intro e format
  have h := @records_cross Uuid.ofHyphenated format Base64Crate.strict Uuid.readsHyphenated_ofHyphenated
    Lib.Json.read_render Base64Crate.documented_strict
  exact ⟨h.1 e, (h.2.2 _).2.2.2⟩

end UwuRdp
