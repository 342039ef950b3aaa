import Mathlib.Algebra.Order.Ring.Nat
import Mathlib.Logic.Encodable.Basic
import Mathlib.Logic.Equiv.List

/-!
# Authenticated encryption

An ideal cipher with associated data: what it encrypts opens to the same text, and opens under no
other key, nonce or associated data. Nothing is said about bytes that it did not encrypt.
-/

namespace Lib

/-- An ideal cipher for keys of a type. -/
structure Aead (κ : Type) where
  encrypt : κ → List UInt8 → List UInt8 → List UInt8 → List UInt8
  decrypt : κ → List UInt8 → List UInt8 → List UInt8 → Option (List UInt8)
  decrypt_encrypt : ∀ key nonce aad msg, decrypt key nonce aad (encrypt key nonce aad msg) = some msg
  /-- What opens was encrypted under the same key and nonce with the same associated data. -/
  bound : ∀ key nonce aad key' nonce' aad' msg msg',
    decrypt key nonce aad (encrypt key' nonce' aad' msg') = some msg →
      key = key' ∧ nonce = nonce' ∧ aad = aad' ∧ msg = msg'

namespace Aead

/-- The cipher that writes down what it was given, as so many bytes. -/
def transcript (κ : Type) [Encodable κ] [DecidableEq κ] : Aead κ where
  encrypt key nonce aad msg := List.replicate
    (Encodable.encode (key, nonce.map UInt8.toNat, aad.map UInt8.toNat, msg.map UInt8.toNat)) 0
  decrypt key nonce aad blob :=
    (Encodable.decode (α := κ × List ℕ × List ℕ × List ℕ) blob.length).bind fun x =>
      if x.1 = key ∧ x.2.1 = nonce.map UInt8.toNat ∧ x.2.2.1 = aad.map UInt8.toNat then
        some (x.2.2.2.map UInt8.ofNat)
      else none
  decrypt_encrypt key nonce aad msg := by
    rw [List.length_replicate, Encodable.encodek, Option.bind_some, if_pos ⟨rfl, rfl, rfl⟩, List.map_map]
    exact congrArg some ((List.map_congr_left fun b _ => UInt8.ofNat_toNat).trans (List.map_id msg))
  bound key nonce aad key' nonce' aad' msg msg' h := by
    have toNat_inj : ∀ a b : List UInt8, a.map UInt8.toNat = b.map UInt8.toNat → a = b :=
      fun a b => (List.map_inj_right fun _ _ => UInt8.toNat_inj.mp).mp
    rw [List.length_replicate, Encodable.encodek, Option.bind_some] at h
    split at h
    · next hx =>
      refine ⟨hx.1.symm, (toNat_inj _ _ hx.2.1).symm, (toNat_inj _ _ hx.2.2).symm, ?_⟩
      rw [List.map_map] at h
      have hm : msg'.map (UInt8.ofNat ∘ UInt8.toNat) = msg' :=
        (List.map_congr_left fun b _ => UInt8.ofNat_toNat).trans (List.map_id msg')
      rw [hm] at h
      exact (Option.some.inj h).symm
    · cases h

/-- There are ideal ciphers. -/
instance (κ : Type) [Encodable κ] [DecidableEq κ] : Nonempty (Aead κ) := ⟨transcript κ⟩

/-- A cipher with so many bytes in front of what it encrypts. -/
def padded {κ : Type} (n : ℕ) (c : Aead κ) : Aead κ where
  encrypt key nonce aad msg := List.replicate n 0 ++ c.encrypt key nonce aad msg
  decrypt key nonce aad blob := c.decrypt key nonce aad (blob.drop n)
  decrypt_encrypt key nonce aad msg := by
    rw [List.drop_left' List.length_replicate]
    exact c.decrypt_encrypt key nonce aad msg
  bound key nonce aad key' nonce' aad' msg msg' h := by
    rw [List.drop_left' List.length_replicate] at h
    exact c.bound key nonce aad key' nonce' aad' msg msg' h

theorem le_length_padded {κ : Type} (n : ℕ) (c : Aead κ) (key : κ) (nonce aad msg : List UInt8) :
    n ≤ ((c.padded n).encrypt key nonce aad msg).length := by
  show n ≤ (List.replicate n 0 ++ c.encrypt key nonce aad msg).length
  rw [List.length_append, List.length_replicate]
  exact Nat.le_add_right n _

end Aead

/-- An ideal cipher whose tag has at least so many bytes. -/
structure TaggedAead (κ : Type) (tag : ℕ) extends Aead κ where
  tag_le : ∀ key nonce aad msg, tag ≤ (encrypt key nonce aad msg).length

/-- There are ideal ciphers with a tag of any size. -/
instance (κ : Type) [Encodable κ] [DecidableEq κ] (tag : ℕ) : Nonempty (TaggedAead κ tag) :=
  ⟨⟨(Aead.transcript κ).padded tag, Aead.le_length_padded tag _⟩⟩

end Lib
