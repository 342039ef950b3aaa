import UwuRdp.Lib.Aead
import UwuRdp.Lib.Bytes
import UwuRdp.Proto.Envelope

/-!
# What a seal is bound to, in bytes

The associated data of stored secrets, of records on their way to the server and of wrapped vault
keys: ids, kinds and clocks one after the other in a fixed number of bytes, behind a label or none.
No two headers and no two families have the same bytes, so with an ideal cipher a blob opens for the
header it was sealed with and for no other. That is what the seals of an envelope stand for.
-/

namespace UwuRdp

open Lib

/-- A ciphertext with its nonce, as it is stored and sent. -/
structure SealedBytes where
  nonce : List UInt8
  blob : List UInt8
deriving DecidableEq

def uuidBytes (id : Uuid) : List UInt8 := beBytes 16 id

/-- `kind as u8`. -/
def kindByte (k : EntityKind) : UInt8 := UInt8.ofNat k.discriminant

def asciiBytes (s : String) : List UInt8 := s.toList.map fun c => UInt8.ofNat c.toNat

/-- Bind a ciphertext to the identity of the record it belongs to. -/
def associatedData (id : Uuid) (kind : EntityKind) (vaultId : Uuid) : List UInt8 :=
  uuidBytes id ++ [kindByte kind] ++ uuidBytes vaultId

def syncedLabel : List UInt8 := asciiBytes "uwurdp/record/v2"

/-- Everything about a record a server must not be able to change. -/
def syncedAssociatedData (h : Header) : List UInt8 :=
  syncedLabel ++ uuidBytes h.id ++ [kindByte h.kind] ++ uuidBytes h.vaultId ++
    beBytes 8 h.updatedAt.wallMs.toNat ++ beBytes 4 h.updatedAt.counter.toNat ++
    beBytes 4 h.updatedAt.device.toNat ++ [if h.deleted then 1 else 0]

def wrapLabel : List UInt8 := asciiBytes "uwurdp/vault-key/v1"

def wrapAad (vaultId : Uuid) : List UInt8 := wrapLabel ++ uuidBytes vaultId

/-! ## Sealing and opening -/

section Cipher

variable {κ : Type}

/-- `seal`, with the nonce that was drawn. -/
def sealBytes (c : Aead κ) (nonce : List UInt8) (key : κ) (aad plaintext : List UInt8) :
    SealedBytes := ⟨nonce, c.encrypt key nonce aad plaintext⟩

/-- `open`: a nonce has 24 bytes. -/
def openBytes (c : Aead κ) (key : κ) (aad : List UInt8) (s : SealedBytes) : Option (List UInt8) :=
  if s.nonce.length ≠ 24 then none else c.decrypt key s.nonce aad s.blob

def encryptRecord (c : Aead κ) (nonce : List UInt8) (key : κ) (id : Uuid) (kind : EntityKind)
    (vaultId : Uuid) (plaintext : List UInt8) : SealedBytes :=
  sealBytes c nonce key (associatedData id kind vaultId) plaintext

def decryptRecord (c : Aead κ) (key : κ) (id : Uuid) (kind : EntityKind) (vaultId : Uuid)
    (s : SealedBytes) : Option (List UInt8) := openBytes c key (associatedData id kind vaultId) s

def encryptSynced (c : Aead κ) (nonce : List UInt8) (key : κ) (h : Header)
    (plaintext : List UInt8) : SealedBytes :=
  sealBytes c nonce key (syncedAssociatedData h) plaintext

def decryptSynced (c : Aead κ) (key : κ) (h : Header) (s : SealedBytes) : Option (List UInt8) :=
  openBytes c key (syncedAssociatedData h) s

def wrap (c : Aead κ) (nonce : List UInt8) (masterKey : κ) (vaultId : Uuid)
    (vaultKey : List UInt8) : SealedBytes := sealBytes c nonce masterKey (wrapAad vaultId) vaultKey

def unwrap (c : Aead κ) (masterKey : κ) (vaultId : Uuid) (wrapped : SealedBytes) :
    Option (List UInt8) := openBytes c masterKey (wrapAad vaultId) wrapped

variable {nonce : List UInt8}

theorem openBytes_sealBytes {c : Aead κ} {key key' : κ}
    {aad aad' msg msg' : List UInt8} (h : openBytes c key aad (sealBytes c nonce key' aad' msg') =
      some msg) : key = key' ∧ aad = aad' ∧ msg = msg' := by
  unfold openBytes sealBytes at h
  split at h
  · cases h
  · obtain ⟨hk, -, ha, hm⟩ := c.bound _ _ _ _ _ _ _ _ h
    exact ⟨hk, ha, hm⟩

theorem openBytes_sealBytes_self (c : Aead κ) (hn : nonce.length = 24)
    (key : κ) (aad msg : List UInt8) : openBytes c key aad (sealBytes c nonce key aad msg) = some msg := by
  unfold openBytes sealBytes
  rw [if_neg (by simpa using hn)]
  exact c.decrypt_encrypt key nonce aad msg

end Cipher

/-! ## One header, one string of bytes -/

@[simp] theorem length_uuidBytes (id : Uuid) : (uuidBytes id).length = 16 := length_beBytes 16 id

theorem uuidBytes_inj {i j : Uuid} (hi : i < 2 ^ 128) (hj : j < 2 ^ 128) (h : uuidBytes i = uuidBytes j) : i = j := by
  have he : (2 : ℕ) ^ 128 = 256 ^ 16 := by decide
  rw [he] at hi hj
  exact beBytes_inj hi hj h

theorem kindByte_inj {k k' : EntityKind} (h : kindByte k = kindByte k') : k = k' := by
  cases k <;> cases k' <;> first | rfl | cases h

theorem length_associatedData (id : Uuid) (kind : EntityKind) (vaultId : Uuid) :
    (associatedData id kind vaultId).length = 33 := by
  simp [associatedData]

theorem length_syncedLabel : syncedLabel.length = 16 := by decide

theorem length_wrapLabel : wrapLabel.length = 19 := by decide

theorem length_syncedAssociatedData (h : Header) : (syncedAssociatedData h).length = 66 := by
  simp [syncedAssociatedData, length_syncedLabel]

theorem length_wrapAad (vaultId : Uuid) : (wrapAad vaultId).length = 35 := by
  simp [wrapAad, length_wrapLabel]

variable {id id' : Uuid} {kind kind' : EntityKind}

theorem associatedData_inj {vaultId vaultId' : Uuid}
    (hid : id < 2 ^ 128) (hid' : id' < 2 ^ 128) (hv : vaultId < 2 ^ 128) (hv' : vaultId' < 2 ^ 128)
    (h : associatedData id kind vaultId = associatedData id' kind' vaultId') :
    id = id' ∧ kind = kind' ∧ vaultId = vaultId' := by
  obtain ⟨hhead, hvault⟩ := List.append_inj h (by simp)
  obtain ⟨hids, hkind⟩ := List.append_inj hhead (by simp)
  exact ⟨uuidBytes_inj hid hid' hids, kindByte_inj (List.singleton_inj.mp hkind), uuidBytes_inj hv hv' hvault⟩

/-- A header whose ids are sixteen bytes. -/
structure Header.InRange (h : Header) : Prop where
  id : h.id < 2 ^ 128
  vaultId : h.vaultId < 2 ^ 128

theorem syncedAssociatedData_inj {h h' : Header} (hr : h.InRange) (hr' : h'.InRange)
    (he : syncedAssociatedData h = syncedAssociatedData h') : h = h' := by
  obtain ⟨he, hdel⟩ := List.append_inj he (by simp)
  obtain ⟨he, hdevice⟩ := List.append_inj he (by simp)
  obtain ⟨he, hcounter⟩ := List.append_inj he (by simp)
  obtain ⟨he, hwall⟩ := List.append_inj he (by simp)
  obtain ⟨he, hvault⟩ := List.append_inj he (by simp)
  obtain ⟨he, hkind⟩ := List.append_inj he (by simp)
  obtain ⟨-, hid⟩ := List.append_inj he rfl
  have hw : h.updatedAt.wallMs = h'.updatedAt.wallMs :=
    UInt64.toNat_inj.mp (beBytes_inj h.updatedAt.wallMs.toNat_lt h'.updatedAt.wallMs.toNat_lt hwall)
  have hc : h.updatedAt.counter = h'.updatedAt.counter := UInt32.toNat_inj.mp
      (beBytes_inj h.updatedAt.counter.toNat_lt h'.updatedAt.counter.toNat_lt hcounter)
  have hd : h.updatedAt.device = h'.updatedAt.device := UInt32.toNat_inj.mp
      (beBytes_inj h.updatedAt.device.toNat_lt h'.updatedAt.device.toNat_lt hdevice)
  have hb : h.deleted = h'.deleted := by
    have := List.singleton_inj.mp hdel
    cases hx : h.deleted <;> cases hy : h'.deleted <;> simp_all
  obtain ⟨id, kind, vaultId, ⟨w, n, d⟩, deleted⟩ := h
  obtain ⟨id', kind', vaultId', ⟨w', n', d'⟩, deleted'⟩ := h'
  have hid := uuidBytes_inj hr.id hr'.id hid
  have hv := uuidBytes_inj hr.vaultId hr'.vaultId hvault
  have hk := kindByte_inj (List.singleton_inj.mp hkind)
  simp only at hid hv hk hw hc hd hb
  rw [hid, hv, hk, hw, hc, hd, hb]

theorem wrapAad_inj {v v' : Uuid} (hv : v < 2 ^ 128) (hv' : v' < 2 ^ 128) (h : wrapAad v = wrapAad v') : v = v' :=
  uuidBytes_inj hv hv' (List.append_cancel_left h)

/-! ## The families -/

theorem associatedData_ne_synced (id : Uuid) (kind : EntityKind) (vaultId : Uuid) (h : Header) :
    associatedData id kind vaultId ≠ syncedAssociatedData h := by
  intro he
  have := congrArg List.length he
  rw [length_associatedData, length_syncedAssociatedData] at this
  omega

theorem associatedData_ne_wrap (id : Uuid) (kind : EntityKind) (vaultId v : Uuid) :
    associatedData id kind vaultId ≠ wrapAad v := by
  intro he
  have := congrArg List.length he
  rw [length_associatedData, length_wrapAad] at this
  omega

theorem synced_ne_wrap (h : Header) (v : Uuid) : syncedAssociatedData h ≠ wrapAad v := by
  intro he
  have := congrArg List.length he
  rw [length_syncedAssociatedData, length_wrapAad] at this
  omega

/-- **A seal binds its whole header.** The associated data of stored records, of synced ones and of
wrapped keys tell all their fields apart, and no two families share any. So with an ideal cipher a
record opens for exactly the header it was sealed with, and nothing of one family opens as
something of another. -/
theorem seal_binds_header {κ : Type} (c : Aead κ) :
    (∀ id id' kind kind' vaultId vaultId', id < 2 ^ 128 → id' < 2 ^ 128 → vaultId < 2 ^ 128 →
      vaultId' < 2 ^ 128 → associatedData id kind vaultId = associatedData id' kind' vaultId' →
        id = id' ∧ kind = kind' ∧ vaultId = vaultId') ∧
      (∀ h h' : Header, h.InRange → h'.InRange →
        syncedAssociatedData h = syncedAssociatedData h' → h = h') ∧
      (∀ v v', v < 2 ^ 128 → v' < 2 ^ 128 → wrapAad v = wrapAad v' → v = v') ∧
      (∀ id kind vaultId h v, associatedData id kind vaultId ≠ syncedAssociatedData h ∧
        associatedData id kind vaultId ≠ wrapAad v ∧ syncedAssociatedData h ≠ wrapAad v) ∧
      (∀ nonce key key' h h' plain plain', h.InRange → h'.InRange → nonce.length = 24 →
        (decryptSynced c key h (encryptSynced c nonce key' h' plain') = some plain ↔
          key = key' ∧ h = h' ∧ plain = plain')) ∧
      (∀ nonce key key' id id' kind kind' vaultId vaultId' plain plain', id < 2 ^ 128 →
        id' < 2 ^ 128 → vaultId < 2 ^ 128 → vaultId' < 2 ^ 128 → nonce.length = 24 →
        (decryptRecord c key id kind vaultId (encryptRecord c nonce key' id' kind' vaultId' plain') =
          some plain ↔ key = key' ∧ id = id' ∧ kind = kind' ∧ vaultId = vaultId' ∧ plain = plain')) ∧
      ∀ nonce key key' id kind vaultId h v plain,
        decryptSynced c key h (encryptRecord c nonce key' id kind vaultId plain) = none ∧
          decryptRecord c key id kind vaultId (encryptSynced c nonce key' h plain) = none ∧
          unwrap c key v (encryptRecord c nonce key' id kind vaultId plain) = none ∧
          unwrap c key v (encryptSynced c nonce key' h plain) = none ∧
          decryptRecord c key id kind vaultId (wrap c nonce key' v plain) = none ∧
          decryptSynced c key h (wrap c nonce key' v plain) = none := by
  -- What was sealed for other associated data does not open.
  have closed : ∀ {nonce aad aad' plain : List UInt8} {key key' : κ}, aad ≠ aad' →
      openBytes c key aad (sealBytes c nonce key' aad' plain) = none := by
    intro nonce aad aad' plain key key' hne
    rw [Option.eq_none_iff_forall_ne_some]
    intro msg hm
    exact hne (openBytes_sealBytes hm).2.1
  refine ⟨?_, fun h h' => syncedAssociatedData_inj, fun v v' => wrapAad_inj, ?_, ?_, ?_, ?_⟩
  · intro id id' kind kind' vaultId vaultId' hid hid' hv hv' he
    exact associatedData_inj hid hid' hv hv' he
  · intro id kind vaultId h v
    exact ⟨associatedData_ne_synced id kind vaultId h, associatedData_ne_wrap id kind vaultId v, synced_ne_wrap h v⟩
  · intro nonce key key' h h' plain plain' hr hr' hn
    constructor
    · intro ho
      obtain ⟨hk, ha, hp⟩ := openBytes_sealBytes ho
      exact ⟨hk, syncedAssociatedData_inj hr hr' ha, hp⟩
    · rintro ⟨rfl, rfl, rfl⟩
      exact openBytes_sealBytes_self c hn key (syncedAssociatedData h) plain
  · intro nonce key key' id id' kind kind' vaultId vaultId' plain plain' hid hid' hv hv' hn
    constructor
    · intro ho
      obtain ⟨hk, ha, hp⟩ := openBytes_sealBytes ho
      obtain ⟨hi, hkind, hvault⟩ := associatedData_inj hid hid' hv hv' ha
      exact ⟨hk, hi, hkind, hvault, hp⟩
    · rintro ⟨rfl, rfl, rfl, rfl, rfl⟩
      exact openBytes_sealBytes_self c hn key (associatedData id kind vaultId) plain
  · intro nonce key key' id kind vaultId h v plain
    exact ⟨closed (associatedData_ne_synced id kind vaultId h).symm,
      closed (associatedData_ne_synced id kind vaultId h),
      closed (associatedData_ne_wrap id kind vaultId v).symm,
      closed (synced_ne_wrap h v).symm,
      closed (associatedData_ne_wrap id kind vaultId v),
      closed (synced_ne_wrap h v)⟩

/-! ## The seals of envelopes -/

variable {v v' : UnlockedVault} {nonce bytes : List UInt8}

theorem openSynced_isSome_iff (c : Aead VaultKey) {clock clock' : Hlc} {deleted deleted' : Bool} (plain : Payload) (hn : nonce.length = 24)
    (hr : (⟨id, kind, v.vaultId, clock, deleted⟩ : Header).InRange)
    (hr' : (⟨id', kind', v'.vaultId, clock', deleted'⟩ : Header).InRange) :
    (v.openSynced id kind clock deleted (v'.sealSynced id' kind' clock' deleted' plain)).isSome ↔
      (decryptSynced c v.key ⟨id, kind, v.vaultId, clock, deleted⟩
        (encryptSynced c nonce v'.key ⟨id', kind', v'.vaultId, clock', deleted'⟩ bytes)).isSome := by
  have hbytes : (decryptSynced c v.key ⟨id, kind, v.vaultId, clock, deleted⟩
      (encryptSynced c nonce v'.key ⟨id', kind', v'.vaultId, clock', deleted'⟩ bytes)).isSome ↔
        v.key = v'.key ∧ (⟨id, kind, v.vaultId, clock, deleted⟩ : Header) =
          ⟨id', kind', v'.vaultId, clock', deleted'⟩ := by
    constructor
    · intro h
      obtain ⟨plain', hp⟩ := Option.isSome_iff_exists.mp h
      obtain ⟨hk, ha, -⟩ := openBytes_sealBytes hp
      exact ⟨hk, syncedAssociatedData_inj hr hr' ha⟩
    · rintro ⟨hk, hh⟩
      rw [hk, hh]
      exact Option.isSome_iff_exists.mpr ⟨bytes, openBytes_sealBytes_self c hn _ _ _⟩
  rw [hbytes]
  unfold UnlockedVault.openSynced UnlockedVault.sealSynced
  simp only
  split
  · next h =>
    exact ⟨fun _ => ⟨h.1.symm, h.2.symm⟩, fun _ => rfl⟩
  · next h =>
    exact ⟨fun hs => absurd hs (by simp), fun hs => absurd ⟨hs.1.symm, hs.2.symm⟩ h⟩

theorem openRecord_isSome_iff (c : Aead VaultKey) (plain : Payload)
    (hn : nonce.length = 24) (hid : id < 2 ^ 128) (hid' : id' < 2 ^ 128) (hv : v.vaultId < 2 ^ 128)
    (hv' : v'.vaultId < 2 ^ 128) : (v.openRecord id kind (v'.sealRecord id' kind' plain)).isSome ↔
    (decryptRecord c v.key id kind v.vaultId (encryptRecord c nonce v'.key id' kind' v'.vaultId bytes)).isSome := by
  have hbytes : (decryptRecord c v.key id kind v.vaultId
      (encryptRecord c nonce v'.key id' kind' v'.vaultId bytes)).isSome ↔
        v.key = v'.key ∧ id = id' ∧ kind = kind' ∧ v.vaultId = v'.vaultId := by
    constructor
    · intro h
      obtain ⟨plain', hp⟩ := Option.isSome_iff_exists.mp h
      obtain ⟨hk, ha, -⟩ := openBytes_sealBytes hp
      exact ⟨hk, associatedData_inj hid hid' hv hv' ha⟩
    · rintro ⟨hk, hi, hkind, hvault⟩
      rw [hk, hi, hkind, hvault]
      exact Option.isSome_iff_exists.mpr ⟨bytes, openBytes_sealBytes_self c hn _ _ _⟩
  rw [hbytes]
  unfold UnlockedVault.openRecord UnlockedVault.sealRecord
  simp only
  split
  · next h =>
    exact ⟨fun _ => ⟨h.1.symm, h.2.1.symm, h.2.2.1.symm, h.2.2.2.symm⟩, fun _ => rfl⟩
  · next h =>
    exact ⟨fun hs => absurd hs (by simp), fun hs => absurd ⟨hs.1.symm, hs.2.1.symm, hs.2.2.1.symm, hs.2.2.2.symm⟩ h⟩

end UwuRdp
