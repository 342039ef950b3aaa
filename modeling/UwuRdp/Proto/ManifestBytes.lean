import UwuRdp.Lib.Reads
import UwuRdp.Proto.Envelope

/-!
# A manifest in bytes

The payload of a manifest is binary: a header of 29 bytes and 34 bytes an entry. Reading it takes
pieces out by their places; a place past the end would stop the program, so it is told apart from
bytes that are refused.
-/

namespace UwuRdp

open Lib Lib.Reads

namespace ManifestBytes

/-- One record as the publishing device holds it. -/
structure ManifestEntry where
  kind : UInt8
  id : BitVec 128
  updatedAt : Hlc
  deleted : Bool
deriving DecidableEq

/-- Everything one device holds, at one moment. -/
structure Manifest where
  device : UInt32
  createdAt : Hlc
  partialList : Bool
  entries : List ManifestEntry
deriving DecidableEq

def magic : List UInt8 := [85, 87, 77]
def version : UInt8 := 1
def headerBytes : ℕ := 4 + 4 + 16 + 1 + 4
def entryBytes : ℕ := 1 + 1 + 16 + 16

/-! ## Writing -/

/-- `push_clock` -/
def clockBytes (clock : Hlc) : List UInt8 :=
  beBytes 8 clock.wallMs.toNat ++ beBytes 4 clock.counter.toNat ++ beBytes 4 clock.device.toNat

/-- `u8::from` -/
def flagByte (b : Bool) : UInt8 := if b then 1 else 0

def encodeEntry (e : ManifestEntry) : List UInt8 :=
  [e.kind] ++ [flagByte e.deleted] ++ beBytes 16 e.id.toNat ++ clockBytes e.updatedAt

def encode (m : Manifest) : List UInt8 :=
  magic ++ [version] ++ beBytes 4 m.device.toNat ++ clockBytes m.createdAt ++
    [flagByte m.partialList] ++ beBytes 4 (m.entries.length % 2 ^ 32) ++ m.entries.flatMap encodeEntry

/-! ## Reading -/

def readClock (bytes : List UInt8) : Reads Hlc := do
  let wallMs ← slice bytes 0 8 >>= number 8
  let counter ← slice bytes 8 12 >>= number 4
  let device ← slice bytes 12 16 >>= number 4
  pure ⟨UInt64.ofNat wallMs, UInt32.ofNat counter, UInt32.ofNat device⟩

def readFlag (b : UInt8) : Reads Bool :=
  if b = 0 then pure false else if b = 1 then pure true else refuse

def readEntry (chunk : List UInt8) : Reads ManifestEntry := do
  let deleted ← byteAt chunk 1 >>= readFlag
  let kind ← byteAt chunk 0
  let id ← slice chunk 2 18 >>= number 16
  let updatedAt ← slice chunk 18 34 >>= readClock
  pure { kind, id := BitVec.ofNat 128 id, updatedAt, deleted }

/-- `usize::checked_mul` -/
def checkedMul (a b : ℕ) : Reads ℕ := if a * b < 2 ^ 64 then pure (a * b) else refuse

/-- Whether the bytes begin as this build's manifests do. -/
def readsOn (bytes : List UInt8) : Reads Bool :=
  if bytes.length < headerBytes then pure false
  else do
    let start ← slice bytes 0 3
    if start ≠ magic then pure false
    else do
      let read ← byteAt bytes 3
      pure (decide (read = version))

/-- Refused: anything that is not exactly a manifest this build can read. -/
def decode (bytes : List UInt8) : Reads Manifest := do
  let good ← readsOn bytes
  if good = false then refuse
  else do
    let device ← slice bytes 4 8 >>= number 4
    let createdAt ← slice bytes 8 24 >>= readClock
    let partialList ← byteAt bytes 24 >>= readFlag
    let count ← slice bytes 25 29 >>= number 4
    let body ← slice bytes headerBytes bytes.length
    if maxManifestEntries < count then refuse
    else do
      let size ← checkedMul count entryBytes
      if body.length ≠ size then refuse
      else do
        let entries ← (asChunks entryBytes body).mapM readEntry
        pure ⟨UInt32.ofNat device, createdAt, partialList, entries⟩

/-! ## Each piece -/

variable {bytes : List UInt8} {n : ℕ}

theorem exists_append {m : ℕ} (h : bytes.length = n + m) : ∃ a b, bytes = a ++ b ∧ a.length = n ∧ b.length = m := by
  refine ⟨bytes.take n, bytes.drop n, (List.take_append_drop n bytes).symm, ?_, ?_⟩
  · rw [List.length_take]
    omega
  · rw [List.length_drop]
    omega

theorem toNat_ofNat64 (h : n < 256 ^ 8) : (UInt64.ofNat n).toNat = n :=
  UInt64.toNat_ofNat'.trans (Nat.mod_eq_of_lt h)

theorem toNat_ofNat32 (h : n < 256 ^ 4) : (UInt32.ofNat n).toNat = n :=
  UInt32.toNat_ofNat'.trans (Nat.mod_eq_of_lt h)

@[simp] theorem length_clockBytes (c : Hlc) : (clockBytes c).length = 16 := by simp [clockBytes]

@[simp] theorem length_encodeEntry (e : ManifestEntry) : (encodeEntry e).length = entryBytes := by
  simp [encodeEntry, entryBytes]

theorem readFlag_exact (b : UInt8) : Exact (readFlag b) (fun v => flagByte v = b) := by
  unfold readFlag
  split
  · next h =>
    subst h
    exact Exact.pure.congr fun v => by cases v <;> decide
  · next hzero =>
    split
    · next h =>
      subst h
      exact Exact.pure.congr fun v => by cases v <;> decide
    · next hone =>
      refine .refuse fun v hv => ?_
      cases v with
      | false => exact hzero hv.symm
      | true => exact hone hv.symm

theorem readClock_exact (h : bytes.length = 16) : Exact (readClock bytes) (fun c => clockBytes c = bytes) := by
  obtain ⟨a, rest, rfl, ha, hrest⟩ := exists_append (n := 8) (m := 8) h
  obtain ⟨b, c, rfl, hb, hc⟩ := exists_append (n := 4) (m := 4) hrest
  have hcounter : slice (a ++ (b ++ c)) 8 12 = pure b := slice_at rfl ha (by rw [hb])
  have hdevice : slice (a ++ (b ++ c)) 12 16 = pure c :=
    slice_last (List.append_assoc ..).symm (by rw [List.length_append, ha, hb]) (by rw [hc])
  unfold readClock
  refine ((Exact.pure_bind (slice_front ha) (number_exact ha)).bind fun wallMs _ =>
    (Exact.pure_bind hcounter (number_exact hb)).bind fun counter _ =>
      (Exact.pure_bind hdevice (number_exact hc)).bind fun device _ => Exact.pure).congr
        fun clock => ?_
  constructor
  · rintro ⟨wallMs, ⟨hwall, rfl⟩, counter, ⟨hless, rfl⟩, device, ⟨hless', rfl⟩, rfl⟩
    unfold clockBytes
    dsimp only
    rw [toNat_ofNat64 hwall, toNat_ofNat32 hless, toNat_ofNat32 hless', List.append_assoc]
  · intro heq
    unfold clockBytes at heq
    rw [List.append_assoc] at heq
    obtain ⟨hwall, hrest'⟩ := List.append_inj heq (by rw [length_beBytes, ha])
    obtain ⟨hcount, hlast⟩ := List.append_inj hrest' (by rw [length_beBytes, hb])
    refine ⟨clock.wallMs.toNat, ⟨clock.wallMs.toNat_lt, hwall⟩, clock.counter.toNat,
      ⟨clock.counter.toNat_lt, hcount⟩, clock.device.toNat, ⟨clock.device.toNat_lt, hlast⟩, ?_⟩
    rw [UInt64.ofNat_toNat, UInt32.ofNat_toNat, UInt32.ofNat_toNat]

theorem readEntry_exact {chunk : List UInt8} (h : chunk.length = entryBytes) :
    Exact (readEntry chunk) (fun e => encodeEntry e = chunk) := by
  obtain ⟨k, rest, rfl, hk, hrest⟩ := exists_append (n := 1) (m := 33) h
  obtain ⟨d, rest, rfl, hd, hrest⟩ := exists_append (n := 1) (m := 32) hrest
  obtain ⟨i, c, rfl, hi, hc⟩ := exists_append (n := 16) (m := 16) hrest
  obtain ⟨k, rfl⟩ := List.length_eq_one_iff.mp hk
  obtain ⟨d, rfl⟩ := List.length_eq_one_iff.mp hd
  have hid : slice ([k] ++ ([d] ++ (i ++ c))) 2 18 = pure i :=
    slice_at (show _ = [k, d] ++ (i ++ c) from rfl) rfl (by rw [hi])
  have hclock : slice ([k] ++ ([d] ++ (i ++ c))) 18 34 = pure c :=
    slice_last (show _ = ([k, d] ++ i) ++ c from (List.append_assoc ..).symm)
      (by rw [List.length_append, hi]; rfl) (by rw [hc])
  unfold readEntry
  rw [hid, hclock]
  refine ((Exact.pure_bind rfl (readFlag_exact d)).bind fun deleted _ => Exact.pure_bind rfl <|
    (Exact.pure_bind rfl (number_exact hi)).bind fun id _ =>
      (Exact.pure_bind rfl (readClock_exact hc)).bind fun clock _ => Exact.pure).congr fun e => ?_
  constructor
  · rintro ⟨deleted, rfl, id, ⟨hid', rfl⟩, clock, rfl, rfl⟩
    unfold encodeEntry
    rw [BitVec.toNat_ofNat, Nat.mod_eq_of_lt (show id < 2 ^ 128 from hid'), List.append_assoc, List.append_assoc]
  · intro heq
    unfold encodeEntry at heq
    rw [List.append_assoc, List.append_assoc] at heq
    obtain ⟨hkind, hrest'⟩ := List.append_inj heq rfl
    obtain ⟨hdeleted, hrest'⟩ := List.append_inj hrest' rfl
    obtain ⟨hid', hclock'⟩ := List.append_inj hrest' (by rw [length_beBytes, hi])
    have hfits : e.id.toNat < 256 ^ 16 := e.id.isLt
    refine ⟨e.deleted, List.singleton_inj.mp hdeleted, e.id.toNat, ⟨hfits, hid'⟩, e.updatedAt, hclock', ?_⟩
    rw [BitVec.ofNat_toNat, BitVec.setWidth_eq, ← List.singleton_inj.mp hkind]

/-! ## The whole manifest -/

theorem length_flatMap_encodeEntry (l : List ManifestEntry) :
    (l.flatMap encodeEntry).length = l.length * entryBytes := by
  induction l with
  | nil => rfl
  | cons e l ih =>
    rw [List.flatMap_cons, List.length_append, length_encodeEntry, ih, List.length_cons, Nat.succ_mul, Nat.add_comm]

theorem length_encode (m : Manifest) : (encode m).length = headerBytes + m.entries.length * entryBytes := by
  unfold encode headerBytes
  simp only [List.length_append, length_beBytes, length_clockBytes, length_flatMap_encodeEntry, magic,
    List.length_cons, List.length_nil]

theorem exists_pieces (h : headerBytes ≤ bytes.length) : ∃ start read device clock flag count body, bytes = start ++
    ([read] ++ (device ++ (clock ++ ([flag] ++ (count ++ body))))) ∧ start.length = 3 ∧ device.length = 4 ∧
    clock.length = 16 ∧ count.length = 4 := by
  obtain ⟨size, hsize⟩ := Nat.exists_eq_add_of_le h
  unfold headerBytes at hsize
  obtain ⟨start, rest, rfl, hstart, hrest⟩ := exists_append (show bytes.length = 3 + (26 + size) by omega)
  obtain ⟨read, rest, rfl, hread, hrest⟩ := exists_append (show rest.length = 1 + (25 + size) by omega)
  obtain ⟨device, rest, rfl, hdevice, hrest⟩ := exists_append (show rest.length = 4 + (21 + size) by omega)
  obtain ⟨clock, rest, rfl, hclock, hrest⟩ := exists_append (show rest.length = 16 + (5 + size) by omega)
  obtain ⟨flag, rest, rfl, hflag, hrest⟩ := exists_append (show rest.length = 1 + (4 + size) by omega)
  obtain ⟨count, body, rfl, hcount, -⟩ := exists_append (show rest.length = 4 + (size) by omega)
  obtain ⟨read, rfl⟩ := List.length_eq_one_iff.mp hread
  obtain ⟨flag, rfl⟩ := List.length_eq_one_iff.mp hflag
  exact ⟨start, read, device, clock, flag, count, body, rfl, hstart, hdevice, hclock, hcount⟩

variable {count : ℕ} {body : List UInt8} {m : UwuRdp.Manifest}

theorem entries_exact (h : body.length = count * entryBytes) : Exact
    ((asChunks entryBytes body).mapM readEntry) (fun l => l.length = count ∧ l.flatMap encodeEntry = body) := by
  have hsize : 0 < entryBytes := by decide
  have hchunks : ∀ chunk ∈ asChunks entryBytes body, chunk.length = entryBytes := by
    intro chunk hchunk
    obtain ⟨i, hi, rfl⟩ := List.mem_map.mp hchunk
    have hlt := List.mem_range.mp hi
    rw [h, Nat.mul_div_cancel _ hsize] at hlt
    have hle : (i + 1) * entryBytes ≤ count * entryBytes := Nat.mul_le_mul_right _ hlt
    rw [Nat.succ_mul] at hle
    rw [List.length_take, List.length_drop]
    omega
  refine (Exact.mapM fun chunk hchunk => readEntry_exact (hchunks chunk hchunk)).congr fun l => ?_
  have hpieces : ∀ piece ∈ l.map encodeEntry, piece.length = entryBytes := by
    intro piece hpiece
    obtain ⟨e, -, rfl⟩ := List.mem_map.mp hpiece
    exact length_encodeEntry e
  have hflat : (l.map encodeEntry).flatten = l.flatMap encodeEntry := List.flatMap_def.symm
  constructor
  · intro heq
    have hlength : l.length = count := by
      rw [← List.length_map encodeEntry, heq, length_asChunks, h, Nat.mul_div_cancel _ hsize]
    refine ⟨hlength, ?_⟩
    rw [← hflat]
    exact (asChunks_eq_iff hsize hpieces (by rw [List.length_map, hlength, h])).mp heq.symm
  · rintro ⟨hlength, heq⟩
    rw [← hflat] at heq
    exact ((asChunks_eq_iff hsize hpieces (by rw [List.length_map, hlength, h])).mpr heq).symm

theorem readsOn_eq {start rest : List UInt8} {read : UInt8} (hstart : start.length = 3)
    (hlong : headerBytes ≤ (start ++ ([read] ++ rest)).length) :
    readsOn (start ++ ([read] ++ rest)) = pure (decide (start = magic ∧ read = version)) := by
  unfold readsOn
  rw [if_neg (Nat.not_lt.mpr hlong), slice_front hstart, byteAt_at rfl hstart]
  show (if start ≠ magic then (pure false : Reads Bool) else pure (decide (read = version))) = _
  by_cases hmagic : start = magic
  · rw [if_neg (not_not_intro hmagic)]
    simp only [hmagic, true_and]
  · rw [if_pos hmagic]
    simp only [hmagic, false_and, decide_false]

theorem encode_eq (m : Manifest) : encode m = magic ++ ([version] ++
    (beBytes 4 m.device.toNat ++ (clockBytes m.createdAt ++ ([flagByte m.partialList] ++
      (beBytes 4 (m.entries.length % 2 ^ 32) ++ m.entries.flatMap encodeEntry))))) := by
  unfold encode
  simp only [List.append_assoc]

/-- What is accepted: a manifest within the cap whose bytes these are. -/
def Accepts (bytes : List UInt8) (m : Manifest) : Prop :=
  m.entries.length ≤ maxManifestEntries ∧ encode m = bytes

theorem body_exact {make : List ManifestEntry → Manifest} :
    Exact (if maxManifestEntries < count then refuse
      else do
        let size ← checkedMul count entryBytes
        if body.length ≠ size then refuse
        else do
          let entries ← (asChunks entryBytes body).mapM readEntry
          pure (make entries))
      (fun m => count ≤ maxManifestEntries ∧
        ∃ l, (l.length = count ∧ l.flatMap encodeEntry = body) ∧ m = make l) := by
  split
  · next hcap =>
    exact .refuse fun m h => absurd h.1 (Nat.not_le.mpr hcap)
  · next hcap =>
    have hle := Nat.not_lt.mp hcap
    have hsmall : count * entryBytes < 2 ^ 64 := by
      have hmul : count * entryBytes ≤ maxManifestEntries * entryBytes := Nat.mul_le_mul_right _ hle
      exact Nat.lt_of_le_of_lt hmul (by decide)
    refine Exact.pure_bind (if_pos hsmall) ?_
    split
    · next hlength =>
      refine .refuse ?_
      rintro m ⟨-, l, ⟨hcount, rfl⟩, -⟩
      refine hlength ?_
      rw [length_flatMap_encodeEntry, hcount]
    · next hlength =>
      refine ((entries_exact (not_not.mp hlength)).bind fun l _ => Exact.pure).congr fun m => ?_
      exact (and_iff_right hle).symm

theorem decode_exact (bytes : List UInt8) : Exact (decode bytes) (Accepts bytes) := by
  by_cases hlong : headerBytes ≤ bytes.length
  case neg =>
    have hshort : decode bytes = refuse := by
      unfold decode readsOn
      rw [if_pos (Nat.not_le.mp hlong)]
      rfl
    rw [hshort]
    refine .refuse ?_
    rintro m ⟨-, rfl⟩
    rw [length_encode] at hlong
    omega
  obtain ⟨start, read, device, clock, flag, count, body, rfl, hstart, hdevice, hclock, hcount⟩ := exists_pieces hlong
  unfold decode
  refine Exact.pure_bind (readsOn_eq hstart hlong) ?_
  by_cases hgood : start = magic ∧ read = version
  case neg =>
    rw [if_pos (decide_eq_false hgood)]
    refine .refuse ?_
    rintro m ⟨-, heq⟩
    rw [encode_eq] at heq
    obtain ⟨hmagic, hrest⟩ := List.append_inj heq hstart.symm
    obtain ⟨hversion, -⟩ := List.append_inj hrest rfl
    exact hgood ⟨hmagic.symm, (List.singleton_inj.mp hversion).symm⟩
  rw [decide_eq_true hgood, if_neg Bool.true_eq_false.mp]
  obtain ⟨rfl, rfl⟩ := hgood
  have hslice (low high : ℕ) (front piece rest : List UInt8) (hbytes : front ++ (piece ++ rest) =
        magic ++ [version] ++ device ++ clock ++ [flag] ++ count ++ body)
      (hfront : front.length = low) (hpiece : low + piece.length = high) :
      slice (magic ++ ([version] ++ (device ++ (clock ++ ([flag] ++ (count ++ body)))))) low high =
        pure piece := by
    have hsame : magic ++ ([version] ++ (device ++ (clock ++ ([flag] ++ (count ++ body))))) =
        front ++ (piece ++ rest) := by
      rw [hbytes]
      simp only [List.append_assoc]
    exact slice_at hsame hfront hpiece
  have hdevice' := hslice 4 8 (magic ++ [version]) device (clock ++ ([flag] ++ (count ++ body)))
    (by simp only [List.append_assoc]) rfl (by rw [hdevice])
  have hclock' := hslice 8 24 (magic ++ [version] ++ device) clock ([flag] ++ (count ++ body))
    (by simp only [List.append_assoc]) (by simp [magic, hdevice]) (by rw [hclock])
  have hcount' := hslice 25 29 (magic ++ [version] ++ device ++ clock ++ [flag]) count body
    (by simp only [List.append_assoc]) (by simp [magic, hdevice, hclock]) (by rw [hcount])
  have hbody' := hslice headerBytes (magic ++ ([version] ++ (device ++ (clock ++ ([flag] ++
      (count ++ body)))))).length (magic ++ [version] ++ device ++ clock ++ [flag] ++ count) body []
    (by simp only [List.append_assoc, List.append_nil])
    (by simp [magic, hdevice, hclock, hcount, headerBytes])
    (by simp [magic, hdevice, hclock, hcount, headerBytes]; omega)
  have hflag' : byteAt (magic ++ ([version] ++ (device ++ (clock ++ ([flag] ++ (count ++ body)))))) 24 = pure flag :=
    byteAt_at (show _ = (magic ++ [version] ++ device ++ clock) ++ ([flag] ++ (count ++ body)) by
      simp only [List.append_assoc]) (by simp [magic, hdevice, hclock])
  refine ((Exact.pure_bind hdevice' (number_exact hdevice)).bind fun n _ =>
    (Exact.pure_bind hclock' (readClock_exact hclock)).bind fun c _ =>
      (Exact.pure_bind hflag' (readFlag_exact flag)).bind fun f _ =>
        (Exact.pure_bind hcount' (number_exact hcount)).bind fun k _ =>
          Exact.pure_bind hbody' body_exact).congr fun m => ?_
  constructor
  · rintro ⟨n, ⟨hn, rfl⟩, c, rfl, f, rfl, k, ⟨hk, rfl⟩, hcap, l, ⟨rfl, rfl⟩, rfl⟩
    refine ⟨hcap, ?_⟩
    rw [encode_eq]
    dsimp only
    rw [toNat_ofNat32 hn, Nat.mod_eq_of_lt (show l.length < 2 ^ 32 from hk)]
  · rintro ⟨hcap, heq⟩
    rw [encode_eq] at heq
    have hfits : m.entries.length < 256 ^ 4 := Nat.lt_of_le_of_lt hcap (by decide)
    rw [Nat.mod_eq_of_lt (show m.entries.length < 2 ^ 32 from hfits)] at heq
    have hrest := List.append_cancel_left (List.append_cancel_left heq)
    obtain ⟨hn, hrest⟩ := List.append_inj hrest (by rw [length_beBytes, hdevice])
    obtain ⟨hc, hrest⟩ := List.append_inj hrest (by rw [length_clockBytes, hclock])
    obtain ⟨hf, hrest⟩ := List.append_inj hrest rfl
    obtain ⟨hk, hl⟩ := List.append_inj hrest (by rw [length_beBytes, hcount])
    refine ⟨m.device.toNat, ⟨m.device.toNat_lt, hn⟩, m.createdAt, hc, m.partialList,
      List.singleton_inj.mp hf, m.entries.length, ⟨hfits, hk⟩, hcap, m.entries, ⟨rfl, hl⟩, ?_⟩
    rw [UInt32.ofNat_toNat]

/-- The codec is exact: every manifest within the cap comes back, whatever is accepted is the bytes
of what comes of it, and nothing is read past the end. -/
theorem codec_exact :
    (∀ m : Manifest, m.entries.length ≤ maxManifestEntries →
      (decode (encode m)).run = .ok (some m)) ∧
    (∀ bytes m, (decode bytes).run = .ok (some m) →
      encode m = bytes ∧ m.entries.length ≤ maxManifestEntries) ∧
    ∀ bytes, ∃ r, (decode bytes).run = .ok r := by
  refine ⟨fun m hcap => ?_, fun bytes m h => ?_, fun bytes => ?_⟩
  · obtain ⟨r, hr, hmem⟩ := decode_exact (encode m)
    rw [hr, (hmem m).mpr ⟨hcap, rfl⟩]
  · obtain ⟨r, hr, hmem⟩ := decode_exact bytes
    rw [hr] at h
    cases h
    obtain ⟨hcap, heq⟩ := (hmem m).mp rfl
    exact ⟨heq, hcap⟩
  · obtain ⟨r, hr, -⟩ := decode_exact bytes
    exact ⟨r, hr⟩

/-- A manifest of one deleted record of a kind this build does not know. -/
theorem codec_exact_unknown :
    let m : Manifest := ⟨7, ⟨1700000000000, 3, 7⟩, true, [⟨200, 5, ⟨1700000000001, 1, 9⟩, true⟩]⟩
    (decode (encode m)).run = .ok (some m) ∧ m.entries.length ≤ maxManifestEntries := by
  intro m
  have hback := codec_exact.1 m (by decide)
  exact ⟨hback, (codec_exact.2.1 (encode m) m hback).2⟩

/-! ## The manifests of the store -/

/-- The bytes' view of an entry of the store, and back. -/
def ofStoreEntry (e : UwuRdp.ManifestEntry) : ManifestEntry :=
  ⟨UInt8.ofNat e.kind, BitVec.ofNat 128 e.id, e.updatedAt, e.deleted⟩

def toStoreEntry (e : ManifestEntry) : UwuRdp.ManifestEntry :=
  ⟨e.kind.toNat, e.id.toNat, e.updatedAt, e.deleted⟩

def ofStore (m : UwuRdp.Manifest) : Manifest :=
  ⟨m.device, m.createdAt, m.partialList, m.entries.map ofStoreEntry⟩

/-- A manifest of the store within its bytes: its kinds are bytes and its ids of 128 bits. -/
def Fits (m : UwuRdp.Manifest) : Prop := ∀ e ∈ m.entries, e.kind < 2 ^ 8 ∧ e.id < 2 ^ 128

theorem Fits.entries_back (h : Fits m) : (ofStore m).entries.map toStoreEntry = m.entries := by
  unfold ofStore
  rw [List.map_map]
  refine (List.map_congr_left fun e he => ?_).trans (List.map_id _)
  obtain ⟨hkind, hid⟩ := h e he
  show toStoreEntry (ofStoreEntry e) = e
  unfold toStoreEntry ofStoreEntry
  dsimp only
  rw [UInt8.toNat_ofNat', Nat.mod_eq_of_lt hkind, BitVec.toNat_ofNat, Nat.mod_eq_of_lt hid]

theorem length_encode_ofStore (m : UwuRdp.Manifest) : (encode (ofStore m)).length = (Payload.manifest m).len := by
  rw [length_encode, ofStore, List.length_map, Payload.len, Nat.mul_comm]
  rfl

theorem encode_ofStore_inj {m' : UwuRdp.Manifest} (hm : Fits m) (hm' : Fits m')
    (h : encode (ofStore m) = encode (ofStore m')) : m = m' := by
  have hcap : (ofStore m).entries.length ≤ maxManifestEntries := by
    rw [ofStore, List.length_map]
    exact m.length_le
  have hcap' : (ofStore m').entries.length ≤ maxManifestEntries := by
    rw [ofStore, List.length_map]
    exact m'.length_le
  have hrun := codec_exact.1 _ hcap
  rw [h, codec_exact.1 _ hcap'] at hrun
  have hsame : ofStore m' = ofStore m := Option.some.inj (Except.ok.inj hrun)
  have hentries : m'.entries = m.entries := by
    rw [← hm.entries_back, ← hm'.entries_back, hsame]
  obtain ⟨device, createdAt, partialList, entries, length_le⟩ := m
  obtain ⟨device', createdAt', partialList', entries', length_le'⟩ := m'
  obtain ⟨rfl, rfl, rfl, -⟩ := Manifest.mk.inj hsame
  obtain rfl : entries' = entries := hentries
  rfl

end ManifestBytes

end UwuRdp
