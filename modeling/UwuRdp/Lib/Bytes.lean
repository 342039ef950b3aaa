import Mathlib.Algebra.Order.Ring.Nat
import Mathlib.Data.List.Basic

/-!
# Numbers in a fixed number of bytes
-/

namespace Lib

/-- A number in `width` bytes, the highest first. -/
def beBytes : ℕ → ℕ → List UInt8
  | 0, _ => []
  | width + 1, n => beBytes width (n / 256) ++ [UInt8.ofNat n]

@[simp] theorem length_beBytes (width n : ℕ) : (beBytes width n).length = width := by
  induction width generalizing n with
  | zero => rfl
  | succ width ih => rw [beBytes, List.length_append, ih, List.length_singleton]

variable {width n : ℕ} {bytes : List UInt8}

theorem beBytes_inj {m : ℕ} (hn : n < 256 ^ width) (hm : m < 256 ^ width)
    (h : beBytes width n = beBytes width m) : n = m := by
  induction width generalizing n m with
  | zero =>
    rw [Nat.pow_zero] at hn hm
    omega
  | succ width ih =>
    obtain ⟨hhigh, hlow⟩ := List.append_inj h (by simp)
    have hdiv : n / 256 = m / 256 := by
      refine ih ?_ ?_ hhigh
      · exact Nat.div_lt_of_lt_mul (by rwa [Nat.pow_succ, Nat.mul_comm] at hn)
      · exact Nat.div_lt_of_lt_mul (by rwa [Nat.pow_succ, Nat.mul_comm] at hm)
    have hmod : n % 256 = m % 256 := by
      have := congrArg UInt8.toNat (List.singleton_inj.mp hlow)
      simpa using this
    omega

/-! ## The lowest first -/

/-- A number in `width` bytes, the lowest first. -/
def leBytes : ℕ → ℕ → List UInt8
  | 0, _ => []
  | width + 1, n => UInt8.ofNat n :: leBytes width (n / 256)

def leNat : List UInt8 → ℕ
  | [] => 0
  | b :: bytes => b.toNat + 256 * leNat bytes

@[simp] theorem length_leBytes (width n : ℕ) : (leBytes width n).length = width := by
  induction width generalizing n with
  | zero => rfl
  | succ width ih => rw [leBytes, List.length_cons, ih]

theorem leNat_leBytes (h : n < 256 ^ width) : leNat (leBytes width n) = n := by
  induction width generalizing n with
  | zero =>
    rw [Nat.pow_zero] at h
    rw [leBytes, leNat]
    omega
  | succ width ih =>
    have hdiv : n / 256 < 256 ^ width := Nat.div_lt_of_lt_mul (by rwa [Nat.pow_succ, Nat.mul_comm] at h)
    have hlow : (UInt8.ofNat n).toNat = n % 256 := by simp
    rw [leBytes, leNat, ih hdiv, hlow]
    omega

theorem leBytes_leNat (h : bytes.length = width) : leBytes width (leNat bytes) = bytes := by
  induction bytes generalizing width with
  | nil =>
    subst h
    rfl
  | cons b bytes ih =>
    subst h
    have hlow : UInt8.ofNat (b.toNat + 256 * leNat bytes) = b := by
      apply UInt8.toNat_inj.mp
      have hb := b.toNat_lt
      rw [UInt8.toNat_ofNat']
      omega
    have hhigh : (b.toNat + 256 * leNat bytes) / 256 = leNat bytes := by
      have hb := b.toNat_lt
      omega
    rw [List.length_cons, leBytes, leNat, hlow, hhigh, ih rfl]

theorem leNat_lt (bytes : List UInt8) : leNat bytes < 256 ^ bytes.length := by
  induction bytes with
  | nil => exact Nat.one_pos
  | cons b bytes ih =>
    have hb := b.toNat_lt
    rw [List.length_cons, Nat.pow_succ, leNat]
    omega

/-! ## The highest first, read back -/

def beNat (bytes : List UInt8) : ℕ := leNat bytes.reverse

theorem beBytes_eq_reverse (width n : ℕ) : beBytes width n = (leBytes width n).reverse := by
  induction width generalizing n with
  | zero => rfl
  | succ width ih => rw [beBytes, leBytes, List.reverse_cons, ih]

theorem beNat_beBytes (h : n < 256 ^ width) : beNat (beBytes width n) = n := by
  rw [beNat, beBytes_eq_reverse, List.reverse_reverse, leNat_leBytes h]

theorem beBytes_beNat (h : bytes.length = width) : beBytes width (beNat bytes) = bytes := by
  rw [beNat, beBytes_eq_reverse, leBytes_leNat (by rw [List.length_reverse, h]), List.reverse_reverse]

theorem beNat_lt (h : bytes.length = width) : beNat bytes < 256 ^ width := by
  have hlt := leNat_lt bytes.reverse
  rwa [List.length_reverse, h] at hlt

end Lib
