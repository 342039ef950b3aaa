import UwuRdp.Proto.Envelope

/-!
# The vault's header

The vault key is wrapped under a key derived from the master password, a salt, the derivation's
costs and, for a synced vault, the account key. The wrapping is ideal: it opens exactly for the
inputs it was made with.
-/

namespace UwuRdp

abbrev Password := List UInt8

/-- The key of an account, which a synced vault's wrapping needs next to the password. -/
abbrev AccountKey := ℕ

/-- Argon2id's cost parameters. -/
structure KdfParams where
  memoryKib : UInt32
  timeCost : UInt32
  parallelism : UInt32
deriving DecidableEq

namespace KdfParams

def recommended : KdfParams := ⟨64 * 1024, 3, 4⟩

/-- Whether these costs are something a device can actually run. -/
def withinLimits (k : KdfParams) : Bool :=
  (1 ≤ k.memoryKib ∧ k.memoryKib ≤ 1024 * 1024) ∧ (1 ≤ k.timeCost ∧ k.timeCost ≤ 16) ∧
    (1 ≤ k.parallelism ∧ k.parallelism ≤ 16)

/-- Whether guessing a password through these costs is expensive enough. -/
def strongEnough (k : KdfParams) : Bool := 19 * 1024 ≤ k.memoryKib ∧ 2 ≤ k.timeCost

end KdfParams

/-- What the wrapping key is derived from. -/
structure MasterKey where
  password : Password
  salt : ℕ
  kdf : KdfParams
  accountKey : Option AccountKey
deriving DecidableEq

/-- A vault key, wrapped. -/
structure WrappedKey where
  master : MasterKey
  vaultId : Uuid
  key : VaultKey
deriving DecidableEq

/-- Everything stored about a vault. -/
structure VaultHeader where
  vaultId : Uuid
  kdf : KdfParams
  salt : ℕ
  wrappedKey : WrappedKey
  /-- Whether opening this vault needs the account key as well as the password. -/
  needsAccountKey : Bool
deriving DecidableEq

inductive VaultError where
  | kdf
  | decrypt
  | needsAccountKey
deriving DecidableEq

namespace VaultHeader

def unlockWith (h : VaultHeader) (password : Password) (accountKey : Option AccountKey) :
    Except VaultError UnlockedVault :=
  if h.needsAccountKey ∧ accountKey = none then .error .needsAccountKey
  else if !h.kdf.withinLimits then .error .kdf
  else if h.wrappedKey.master = ⟨password, h.salt, h.kdf, accountKey⟩ ∧
      h.wrappedKey.vaultId = h.vaultId then .ok ⟨h.vaultId, h.wrappedKey.key⟩
  else .error .decrypt

def unlock (h : VaultHeader) (password : Password) : Except VaultError UnlockedVault :=
  if h.needsAccountKey then .error .needsAccountKey else h.unlockWith password none

end VaultHeader

/-- Wrap this vault's key under a password and, for a synced vault, an account key. The salt is new
each time. -/
def UnlockedVault.rewrap (v : UnlockedVault) (salt : ℕ) (password : Password)
    (accountKey : Option AccountKey) (kdf : KdfParams) : Except VaultError VaultHeader :=
  if !kdf.withinLimits then .error .kdf
  else .ok {
    vaultId := v.vaultId
    kdf := kdf
    salt := salt
    wrappedKey := ⟨⟨password, salt, kdf, accountKey⟩, v.vaultId, v.key⟩
    needsAccountKey := accountKey.isSome }

variable {h : VaultHeader} {password : Password} {v : UnlockedVault}

theorem VaultHeader.unlockWith_eq_ok {accountKey : Option AccountKey} : h.unlockWith password accountKey = .ok v ↔
    (h.needsAccountKey = true → accountKey.isSome) ∧ h.kdf.withinLimits = true ∧ h.wrappedKey.master =
    ⟨password, h.salt, h.kdf, accountKey⟩ ∧ h.wrappedKey.vaultId = h.vaultId ∧ v = ⟨h.vaultId, h.wrappedKey.key⟩ := by
  unfold unlockWith
  constructor
  · intro hv
    split at hv
    · cases hv
    next hneed =>
    split at hv
    · cases hv
    next hkdf =>
    split at hv
    · next hm =>
      refine ⟨fun hn => ?_, by simpa using hkdf, hm.1, hm.2, (Except.ok.inj hv).symm⟩
      exact Option.isSome_iff_ne_none.mpr fun hnone => hneed ⟨hn, hnone⟩
    · cases hv
  · rintro ⟨hneed, hkdf, hm, hid, rfl⟩
    have hn : ¬(h.needsAccountKey = true ∧ accountKey = none) := fun hc =>
      Option.isSome_iff_ne_none.mp (hneed hc.1) hc.2
    rw [if_neg hn, if_neg (by simp [hkdf]), if_pos ⟨hm, hid⟩]

theorem VaultHeader.unlockWith_unique {p q : Password} {j k : Option AccountKey} {w : UnlockedVault}
    (hp : h.unlockWith p j = .ok v) (hq : h.unlockWith q k = .ok w) : p = q ∧ j = k ∧ v = w := by
  obtain ⟨-, -, hpm, -, rfl⟩ := unlockWith_eq_ok.mp hp
  obtain ⟨-, -, hqm, -, rfl⟩ := unlockWith_eq_ok.mp hq
  rw [hpm, MasterKey.mk.injEq] at hqm
  exact ⟨hqm.1, hqm.2.2.2, rfl⟩

theorem VaultHeader.unlock_eq_ok :
    h.unlock password = .ok v ↔ h.needsAccountKey = false ∧ h.unlockWith password none = .ok v := by
  unfold unlock
  split
  · next hn => simp [hn]
  · next hn => simp [Bool.eq_false_iff.mpr hn]

theorem UnlockedVault.unlockWith_rewrap {salt : ℕ} {accountKey : Option AccountKey} {kdf : KdfParams}
    (hh : v.rewrap salt password accountKey kdf = .ok h) : h.unlockWith password accountKey = .ok v ∧ h.vaultId =
    v.vaultId ∧ h.needsAccountKey = accountKey.isSome := by
  unfold rewrap at hh
  split at hh
  · cases hh
  · next hkdf =>
    cases hh
    exact ⟨VaultHeader.unlockWith_eq_ok.mpr ⟨id, by simpa using hkdf, rfl, rfl, rfl⟩, rfl, rfl⟩

end UwuRdp
