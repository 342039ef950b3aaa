import Mathlib.Algebra.Order.Ring.Int
import Mathlib.Algebra.Order.Ring.Nat
import Mathlib.Data.Prod.Lex
import Mathlib.Data.UInt
import Mathlib.Order.Basic
import Mathlib.Order.Lattice

/-!
# The hybrid logical clock

A timestamp is the wall time in milliseconds, a counter for events of one millisecond and the
device, compared in that order. `tick` makes the next local timestamp, `merge` takes a timestamp
from another device in; both step the counter, and a counter at its end moves on to the next
millisecond. Only a clock at the last millisecond a `u64` can say has nowhere to go
(`lt_tick`, `lt_merge`), and only a remote clock beyond the drift cap is not passed
(`remote_lt_merge`).
-/

namespace UwuRdp

/-- How far ahead of this device another one's clock may push the local clock: one day. -/
def maxDriftMs : UInt64 := 24 * 60 * 60 * 1000

/-- `u64::MAX`. -/
def u64Max : ℕ := 2 ^ 64 - 1

/-- `u32::MAX`. -/
def u32Max : ℕ := 2 ^ 32 - 1

theorem toNat_le_u64Max (a : UInt64) : a.toNat ≤ u64Max := Nat.le_pred_of_lt a.toNat_lt

theorem toNat_le_u32Max (a : UInt32) : a.toNat ≤ u32Max := Nat.le_pred_of_lt a.toNat_lt

/-- `u64::saturating_add`. -/
def saturatingAdd (a b : UInt64) : UInt64 := UInt64.ofNat (min (a.toNat + b.toNat) u64Max)

theorem toNat_saturatingAdd (a b : UInt64) : (saturatingAdd a b).toNat = min (a.toNat + b.toNat) u64Max := by
  rw [saturatingAdd, UInt64.toNat_ofNat']
  refine Nat.mod_eq_of_lt (lt_of_le_of_lt (min_le_right _ _) ?_)
  unfold u64Max
  decide

theorem toNat_min (a b : UInt64) : (min a b).toNat = min a.toNat b.toNat := by
  rw [UInt64.min_def, Nat.min_def]
  simp only [UInt64.le_iff_toNat_le]
  split <;> rfl

theorem toNat_max (a b : UInt64) : (max a b).toNat = max a.toNat b.toNat := by
  rw [UInt64.max_def, Nat.max_def]
  simp only [UInt64.le_iff_toNat_le]
  split <;> rfl

/-- A hybrid logical clock timestamp. -/
structure Hlc where
  /-- Milliseconds since the Unix epoch. -/
  wallMs : UInt64
  /-- Incremented when two events share the same millisecond. -/
  counter : UInt32
  /-- Truncated device id, only used to break exact ties. -/
  device : UInt32
deriving DecidableEq

namespace Hlc

/-! ## The order -/

def key (a : Hlc) : ℕ ×ₗ ℕ ×ₗ ℕ :=
  toLex (a.wallMs.toNat, toLex (a.counter.toNat, a.device.toNat))

theorem key_injective : Function.Injective key := by
  intro a b h
  cases a; cases b
  simpa [key, UInt64.toNat_inj, UInt32.toNat_inj] using h

instance : LinearOrder Hlc := LinearOrder.lift' key key_injective

variable {a b remote : Hlc} {nowMs : UInt64}

theorem lt_iff : a < b ↔ a.wallMs.toNat < b.wallMs.toNat ∨ a.wallMs.toNat = b.wallMs.toNat ∧
    (a.counter.toNat < b.counter.toNat ∨ a.counter.toNat = b.counter.toNat ∧ a.device.toNat < b.device.toNat) := by
  change key a < key b ↔ _
  simp only [key, Prod.Lex.toLex_lt_toLex]

theorem le_iff : a ≤ b ↔ a.wallMs.toNat < b.wallMs.toNat ∨ a.wallMs.toNat = b.wallMs.toNat ∧
    (a.counter.toNat < b.counter.toNat ∨ a.counter.toNat = b.counter.toNat ∧ a.device.toNat ≤ b.device.toNat) := by
  change key a ≤ key b ↔ _
  simp only [key, Prod.Lex.toLex_le_toLex]

/-! ## Stepping -/

/-- The moment right after `(wallMs, counter)`; a counter at its end moves on to the next
millisecond. -/
def step (wallMs : UInt64) (counter : UInt32) : UInt64 × UInt32 :=
  if counter.toNat < u32Max then (wallMs, counter + 1) else (saturatingAdd wallMs 1, 0)

def tick (a : Hlc) (nowMs : UInt64) : Hlc :=
  if nowMs > a.wallMs then { a with wallMs := nowMs, counter := 0 }
  else { a with wallMs := (step a.wallMs a.counter).1, counter := (step a.wallMs a.counter).2 }

/-- The remote wall time `merge` looks at: a remote clock further ahead than `maxDriftMs` does not
drag the local one with it. -/
def remoteWall (remote : Hlc) (nowMs : UInt64) : UInt64 :=
  min remote.wallMs (saturatingAdd nowMs maxDriftMs)

/-- The millisecond `merge` starts from. -/
def maxWall (a remote : Hlc) (nowMs : UInt64) : UInt64 :=
  max (max nowMs a.wallMs) (remoteWall remote nowMs)

/-- The wall time and the counter after taking a timestamp of another device in. -/
def mergeStep (a remote : Hlc) (nowMs : UInt64) : UInt64 × UInt32 :=
  if maxWall a remote nowMs = a.wallMs ∧ maxWall a remote nowMs = remoteWall remote nowMs then
    step (maxWall a remote nowMs) (max a.counter remote.counter)
  else if maxWall a remote nowMs = a.wallMs then step (maxWall a remote nowMs) a.counter
  else if maxWall a remote nowMs = remoteWall remote nowMs then
    step (maxWall a remote nowMs) remote.counter
  else (maxWall a remote nowMs, 0)

def merge (a remote : Hlc) (nowMs : UInt64) : Hlc :=
  { a with wallMs := (mergeStep a remote nowMs).1, counter := (mergeStep a remote nowMs).2 }

@[simp] theorem tick_device (a : Hlc) (nowMs : UInt64) : (a.tick nowMs).device = a.device := by
  unfold tick; split <;> rfl

theorem step_spec (w : UInt64) (c : UInt32) : ((step w c).1.toNat = w.toNat ∧ (step w c).2.toNat = c.toNat + 1) ∨
    ((step w c).1.toNat = min (w.toNat + 1) u64Max ∧ (step w c).2.toNat = 0 ∧ c.toNat = u32Max) := by
  unfold step
  split
  · next h =>
    refine .inl ⟨rfl, ?_⟩
    rw [UInt32.toNat_add]
    refine Nat.mod_eq_of_lt ?_
    unfold u32Max at h
    exact Nat.succ_lt_of_lt_pred h
  · next h =>
    have hc := toNat_le_u32Max c
    exact .inr ⟨toNat_saturatingAdd w 1, rfl, by omega⟩

theorem wallMs_le_tick (a : Hlc) (nowMs : UInt64) : a.wallMs ≤ (a.tick nowMs).wallMs := by
  have hw := toNat_le_u64Max a.wallMs
  have hs := step_spec a.wallMs a.counter
  rw [UInt64.le_iff_toNat_le]
  unfold tick
  split
  · next h => exact Nat.le_of_lt (UInt64.lt_iff_toNat_lt.mp h)
  · simp only
    omega

theorem lt_tick (h : (a.tick nowMs).wallMs.toNat < u64Max) : a < a.tick nowMs := by
  have hs := step_spec a.wallMs a.counter
  rw [lt_iff]
  revert h
  unfold tick
  split
  · next hn => exact fun _ => Or.inl (UInt64.lt_iff_toNat_lt.mp hn)
  · intro h
    simp only at h ⊢
    omega

/-! ## Taking a remote timestamp in -/

theorem remoteWall_of_le (h : remote.wallMs ≤ saturatingAdd nowMs maxDriftMs) : remoteWall remote nowMs =
    remote.wallMs := by
  rw [remoteWall, UInt64.min_def, if_pos h]

theorem mergeStep_spec (a remote : Hlc) (nowMs : UInt64) :
    ((mergeStep a remote nowMs).1.toNat = (maxWall a remote nowMs).toNat ∧
        (maxWall a remote nowMs = a.wallMs →
          a.counter.toNat < (mergeStep a remote nowMs).2.toNat) ∧
        (maxWall a remote nowMs = remoteWall remote nowMs →
          remote.counter.toNat < (mergeStep a remote nowMs).2.toNat)) ∨
      (mergeStep a remote nowMs).1.toNat = min ((maxWall a remote nowMs).toNat + 1) u64Max := by
  have hc : (max a.counter remote.counter).toNat = max a.counter.toNat remote.counter.toNat := by
    rw [UInt32.max_def, Nat.max_def]
    simp only [UInt32.le_iff_toNat_le]
    split <;> rfl
  unfold mergeStep
  generalize maxWall a remote nowMs = mw
  generalize remoteWall remote nowMs = rw
  split
  · have hs := step_spec mw (max a.counter remote.counter)
    rcases hs with ⟨h₁, h₂⟩ | ⟨h₁, -⟩
    · exact .inl ⟨h₁, fun _ => by omega, fun _ => by omega⟩
    · exact .inr h₁
  · next hne =>
    split
    · next ha =>
      rcases step_spec mw a.counter with ⟨h₁, h₂⟩ | ⟨h₁, -⟩
      · exact .inl ⟨h₁, fun _ => by omega, fun hr => absurd ⟨ha, hr⟩ hne⟩
      · exact .inr h₁
    · next ha =>
      split
      · rcases step_spec mw remote.counter with ⟨h₁, h₂⟩ | ⟨h₁, -⟩
        · exact .inl ⟨h₁, fun h => absurd h ha, fun _ => by omega⟩
        · exact .inr h₁
      · next hr => exact .inl ⟨rfl, fun h => absurd h ha, fun h => absurd h hr⟩

theorem toNat_maxWall (a remote : Hlc) (nowMs : UInt64) : (maxWall a remote nowMs).toNat =
    max (max nowMs.toNat a.wallMs.toNat) (remoteWall remote nowMs).toNat := by
  rw [maxWall, toNat_max, toNat_max]

theorem wallMs_le_merge (a remote : Hlc) (nowMs : UInt64) : a.wallMs ≤ (a.merge remote nowMs).wallMs := by
  have hs := mergeStep_spec a remote nowMs
  have hm := toNat_maxWall a remote nowMs
  have hw := toNat_le_u64Max a.wallMs
  rw [UInt64.le_iff_toNat_le]
  change a.wallMs.toNat ≤ (mergeStep a remote nowMs).1.toNat
  omega

/-- Short of the last millisecond there is, `merge` is later than any clock whose wall time takes
part in it and whose counter it passes. -/
theorem lt_merge_of
    (h : (a.merge remote nowMs).wallMs.toNat < u64Max)
    (hb : b.wallMs.toNat ≤ (maxWall a remote nowMs).toNat)
    (hc : maxWall a remote nowMs = b.wallMs →
      (mergeStep a remote nowMs).1.toNat = (maxWall a remote nowMs).toNat →
      b.counter.toNat < (mergeStep a remote nowMs).2.toNat) : b < a.merge remote nowMs := by
  have hs := mergeStep_spec a remote nowMs
  change (mergeStep a remote nowMs).1.toNat < u64Max at h
  rw [lt_iff]
  change b.wallMs.toNat < (mergeStep a remote nowMs).1.toNat ∨
    b.wallMs.toNat = (mergeStep a remote nowMs).1.toNat ∧
      (b.counter.toNat < (mergeStep a remote nowMs).2.toNat ∨ _)
  rcases hs with ⟨hw, -⟩ | hw
  · rcases Nat.lt_or_eq_of_le hb with hlt | heq
    · exact .inl (by omega)
    · exact Or.inr ⟨by omega, Or.inl (hc (UInt64.toNat_inj.mp heq).symm hw)⟩
  · exact .inl (by omega)

theorem lt_merge (h : (a.merge remote nowMs).wallMs.toNat < u64Max) : a < a.merge remote nowMs := by
  refine lt_merge_of h (by have := toNat_maxWall a remote nowMs; omega) ?_
  intro hm hw
  change (mergeStep a remote nowMs).1.toNat < u64Max at h
  rcases mergeStep_spec a remote nowMs with hs | hs
  · exact hs.2.1 hm
  · omega

theorem remote_lt_merge (h : (a.merge remote nowMs).wallMs.toNat < u64Max)
    (hcap : remote.wallMs ≤ saturatingAdd nowMs maxDriftMs) : remote < a.merge remote nowMs := by
  have hr := remoteWall_of_le hcap
  refine lt_merge_of h (by have := toNat_maxWall a remote nowMs; rw [hr] at this; omega) ?_
  intro hm hw
  change (mergeStep a remote nowMs).1.toNat < u64Max at h
  rcases mergeStep_spec a remote nowMs with hs | hs
  · exact hs.2.2 (hm.trans hr.symm)
  · omega

/-! ## At the ends of both ranges -/

theorem toNat_remoteWall (remote : Hlc) (nowMs : UInt64) :
    (remoteWall remote nowMs).toNat = min remote.wallMs.toNat (nowMs.toNat + maxDriftMs.toNat) := by
  have hw := toNat_le_u64Max remote.wallMs
  rw [remoteWall, toNat_min, toNat_saturatingAdd]
  omega

/-- A clock at the last moment there is: the last millisecond with its counter at the end. -/
def AtEnd (a : Hlc) : Prop := a.wallMs.toNat = u64Max ∧ a.counter.toNat = u32Max

instance (a : Hlc) : Decidable a.AtEnd := inferInstanceAs (Decidable (_ ∧ _))

theorem lt_tick_iff (a : Hlc) (nowMs : UInt64) : a < a.tick nowMs ↔ ¬a.AtEnd := by
  have hnow := toNat_le_u64Max nowMs
  have hw := toNat_le_u64Max a.wallMs
  have hc := toNat_le_u32Max ((step a.wallMs a.counter).2)
  have hs := step_spec a.wallMs a.counter
  rw [lt_iff]
  unfold tick AtEnd
  split
  · next hlater =>
    have hlater' := UInt64.lt_iff_toNat_lt.mp hlater
    dsimp only
    omega
  · dsimp only
    have hpos : 0 < u32Max := by decide
    omega

/-- The clocks at the millisecond `merge` starts from, and the counter it steps; none if this device's
wall clock is later than both. -/
theorem mergeStep_cases (a remote : Hlc) (nowMs : UInt64) :
    (a.wallMs.toNat < (maxWall a remote nowMs).toNat ∧
        (remoteWall remote nowMs).toNat < (maxWall a remote nowMs).toNat ∧
        (mergeStep a remote nowMs).1 = maxWall a remote nowMs ∧ (mergeStep a remote nowMs).2 = 0) ∨
      ∃ counter, mergeStep a remote nowMs = step (maxWall a remote nowMs) counter ∧
        ((a.wallMs.toNat = (maxWall a remote nowMs).toNat ∧
            (remoteWall remote nowMs).toNat = (maxWall a remote nowMs).toNat ∧
            counter.toNat = max a.counter.toNat remote.counter.toNat) ∨
          (a.wallMs.toNat = (maxWall a remote nowMs).toNat ∧
            (remoteWall remote nowMs).toNat < (maxWall a remote nowMs).toNat ∧ counter = a.counter) ∨
          (a.wallMs.toNat < (maxWall a remote nowMs).toNat ∧
            (remoteWall remote nowMs).toNat = (maxWall a remote nowMs).toNat ∧
            counter = remote.counter)) := by
  have hmax := toNat_maxWall a remote nowMs
  have hcounter : (max a.counter remote.counter).toNat = max a.counter.toNat remote.counter.toNat := by
    rw [UInt32.max_def, Nat.max_def]
    simp only [UInt32.le_iff_toNat_le]
    split <;> rfl
  have hlocal : maxWall a remote nowMs = a.wallMs ↔
      a.wallMs.toNat = (maxWall a remote nowMs).toNat := by rw [UInt64.toNat_inj, eq_comm]
  have hremote : maxWall a remote nowMs = remoteWall remote nowMs ↔
      (remoteWall remote nowMs).toNat = (maxWall a remote nowMs).toNat := by
    rw [UInt64.toNat_inj, eq_comm]
  unfold mergeStep
  simp only [hlocal, hremote]
  split
  · next hboth => exact .inr ⟨_, rfl, .inl ⟨hboth.1, hboth.2, hcounter⟩⟩
  · next hboth =>
    split
    · next ha => exact .inr ⟨_, rfl, .inr (.inl ⟨ha, by omega, rfl⟩)⟩
    · next ha =>
      split
      · next hr => exact .inr ⟨_, rfl, .inr (.inr ⟨by omega, hr, rfl⟩)⟩
      · next hr => exact .inl ⟨by omega, by omega, rfl, rfl⟩

/-- A remote clock that takes part in `merge` at the last moment there is. -/
def RemoteAtEnd (remote : Hlc) (nowMs : UInt64) : Prop :=
  remote.AtEnd ∧ u64Max ≤ nowMs.toNat + maxDriftMs.toNat

instance (remote : Hlc) (nowMs : UInt64) : Decidable (remote.RemoteAtEnd nowMs) :=
  inferInstanceAs (Decidable (_ ∧ _))

/-- A merged clock is later than the local one, unless that is at the last millisecond and it or the
remote one at the last moment. -/
theorem lt_merge_iff (a remote : Hlc) (nowMs : UInt64) : a < a.merge remote nowMs ↔
    ¬(a.wallMs.toNat = u64Max ∧ (a.AtEnd ∨ remote.RemoteAtEnd nowMs)) := by
  have hmax := toNat_maxWall a remote nowMs
  have hwall := toNat_remoteWall remote nowMs
  have hle := toNat_le_u64Max (maxWall a remote nowMs)
  have hpos : 0 < u32Max := by decide
  rw [lt_iff]
  change a.wallMs.toNat < (mergeStep a remote nowMs).1.toNat ∨
    a.wallMs.toNat = (mergeStep a remote nowMs).1.toNat ∧
      (a.counter.toNat < (mergeStep a remote nowMs).2.toNat ∨
        a.counter.toNat = (mergeStep a remote nowMs).2.toNat ∧ a.device.toNat < a.device.toNat) ↔ _
  have hca := toNat_le_u32Max a.counter
  have hcr := toNat_le_u32Max remote.counter
  have hr := toNat_le_u64Max remote.wallMs
  unfold RemoteAtEnd AtEnd
  rcases mergeStep_cases a remote nowMs with ⟨ha, -, hw, hc⟩ | ⟨counter, hstep, hcases⟩
  · rw [hw]
    omega
  · have hs := step_spec (maxWall a remote nowMs) counter
    have hlast := toNat_le_u32Max (step (maxWall a remote nowMs) counter).2
    rw [hstep]
    generalize maxDriftMs.toNat = drift, u64Max = last at *
    rcases hcases with ⟨ha, hr', hc⟩ | ⟨ha, hr', rfl⟩ | ⟨ha, hr', rfl⟩
    · omega
    · omega
    · omega

/-- Where a merged clock is not later than a remote one within the drift: both at the last millisecond,
and the counter stepped at its end. A remote counter of zero is passed by the device all the same. -/
def NotPassed (a remote : Hlc) : Prop :=
  remote.wallMs.toNat = u64Max ∧ (remote.AtEnd ∨
    a.AtEnd ∧ ¬(remote.counter.toNat = 0 ∧ remote.device.toNat < a.device.toNat))

instance (a remote : Hlc) : Decidable (a.NotPassed remote) := inferInstanceAs (Decidable (_ ∧ _))

theorem remote_lt_merge_iff (a : Hlc) (hcap : remote.wallMs.toNat ≤ nowMs.toNat + maxDriftMs.toNat) : remote < a.merge
    remote nowMs ↔ ¬a.NotPassed remote := by
  have hmax := toNat_maxWall a remote nowMs
  have hwall := toNat_remoteWall remote nowMs
  have hle := toNat_le_u64Max (maxWall a remote nowMs)
  have hpos : 0 < u32Max := by decide
  rw [lt_iff]
  change remote.wallMs.toNat < (mergeStep a remote nowMs).1.toNat ∨
    remote.wallMs.toNat = (mergeStep a remote nowMs).1.toNat ∧
      (remote.counter.toNat < (mergeStep a remote nowMs).2.toNat ∨
        remote.counter.toNat = (mergeStep a remote nowMs).2.toNat ∧
          remote.device.toNat < a.device.toNat) ↔ _
  have hca := toNat_le_u32Max a.counter
  have hcr := toNat_le_u32Max remote.counter
  unfold NotPassed AtEnd
  rcases mergeStep_cases a remote nowMs with ⟨ha, hr, hw, hc⟩ | ⟨counter, hstep, hcases⟩
  · rw [hw]
    omega
  · have hs := step_spec (maxWall a remote nowMs) counter
    have hlast := toNat_le_u32Max (step (maxWall a remote nowMs) counter).2
    rw [hstep]
    generalize maxDriftMs.toNat = drift, u64Max = last at *
    rcases hcases with ⟨ha, hr', hc⟩ | ⟨ha, hr', rfl⟩ | ⟨ha, hr', rfl⟩
    · omega
    · omega
    · omega

/-- A merged clock is at most a millisecond beyond the local clock and the drift, and that only by a
counter at its end. -/
theorem merge_wallMs_le (a remote : Hlc) (nowMs : UInt64) : (a.merge remote nowMs).wallMs.toNat ≤ max a.wallMs.toNat
    (nowMs.toNat + maxDriftMs.toNat) ∨ (a.merge remote nowMs).wallMs.toNat = max a.wallMs.toNat
    (nowMs.toNat + maxDriftMs.toNat) + 1 ∧ (a.merge remote nowMs).counter.toNat = 0 ∧
    (a.counter.toNat = u32Max ∨ remote.counter.toNat = u32Max) := by
  have hmax := toNat_maxWall a remote nowMs
  have hwall := toNat_remoteWall remote nowMs
  change (mergeStep a remote nowMs).1.toNat ≤ _ ∨ (mergeStep a remote nowMs).1.toNat = _ ∧
    (mergeStep a remote nowMs).2.toNat = 0 ∧ _
  rcases mergeStep_cases a remote nowMs with ⟨ha, hr, hw, hc⟩ | ⟨counter, hstep, hcases⟩
  · rw [hw]
    omega
  · have hs := step_spec (maxWall a remote nowMs) counter
    rw [hstep]
    generalize maxDriftMs.toNat = drift, u64Max = last at *
    rcases hcases with ⟨ha, hr', hc⟩ | ⟨ha, hr', rfl⟩ | ⟨ha, hr', rfl⟩
    · omega
    · omega
    · omega

/-- The laws of the clock: exactly when a tick and a merge are later than what they follow, and how far
a merge goes. -/
theorem clock_laws (a remote : Hlc) (nowMs : UInt64) :
    (a < a.tick nowMs ↔ ¬a.AtEnd) ∧
      (a < a.merge remote nowMs ↔
        ¬(a.wallMs.toNat = u64Max ∧ (a.AtEnd ∨ remote.RemoteAtEnd nowMs))) ∧
      (remote.wallMs.toNat ≤ nowMs.toNat + maxDriftMs.toNat →
        (remote < a.merge remote nowMs ↔ ¬a.NotPassed remote)) ∧
      ((a.merge remote nowMs).wallMs.toNat ≤ max a.wallMs.toNat (nowMs.toNat + maxDriftMs.toNat) ∨
        (a.merge remote nowMs).wallMs.toNat =
            max a.wallMs.toNat (nowMs.toNat + maxDriftMs.toNat) + 1 ∧
          (a.merge remote nowMs).counter.toNat = 0 ∧
          (a.counter.toNat = u32Max ∨ remote.counter.toNat = u32Max)) :=
  ⟨lt_tick_iff a nowMs, lt_merge_iff a remote nowMs, remote_lt_merge_iff a, merge_wallMs_le a remote nowMs⟩

/-- At the last moment there is a tick goes back. -/
theorem tick_goes_back : tick ⟨18446744073709551615, 4294967295, 7⟩ 1000 < ⟨18446744073709551615, 4294967295, 7⟩ := by
  decide

end Hlc

end UwuRdp
