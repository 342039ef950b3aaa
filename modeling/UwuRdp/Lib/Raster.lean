import Mathlib.Algebra.Order.Ring.Nat
import Mathlib.Data.List.Basic
import Mathlib.Tactic.Ring

/-!
# Grids in one list

A grid of cells is kept row by row in one list, each cell a fixed number of entries. Ranges of the list
are read and written where they exist. Writing rows below one another changes the cells of one
rectangle and no other.
-/

namespace Lib.Raster

variable {α : Type} {data data' new : List α} {size start count i j k w h x y : ℕ}

/-! ## Ranges -/

/-- The entries from `start` on, where there are so many. -/
def slice (data : List α) (start len : ℕ) : Option (List α) :=
  if start + len ≤ data.length then some ((data.drop start).take len) else none

/-- Other entries from `start` on, where there are as many. -/
def splice (data : List α) (start : ℕ) (new : List α) : Option (List α) :=
  if start + new.length ≤ data.length then
    some (data.take start ++ (new ++ data.drop (start + new.length)))
  else none

theorem slice_eq_some (h : start + count ≤ data.length) :
    slice data start count = some ((data.drop start).take count) := if_pos h

theorem length_of_slice (h : slice data start count = some new) : new.length = count := by
  unfold slice at h
  split at h
  · next hle =>
    rw [← Option.some.inj h, List.length_take, List.length_drop]
    omega
  · cases h

theorem splice_ok (h : start + new.length ≤ data.length) :
    ∃ data', splice data start new = some data' ∧ data'.length = data.length ∧
      ∀ n, data'[n]? = if start ≤ n ∧ n < start + new.length then new[n - start]? else data[n]? := by
  refine ⟨_, if_pos h, ?_, fun n => ?_⟩
  · rw [List.length_append, List.length_append, List.length_take, List.length_drop]
    omega
  have htake : (data.take start).length = start := by
    rw [List.length_take]
    omega
  rw [List.getElem?_append, htake]
  split
  · next hn => rw [List.getElem?_take_of_lt hn, if_neg (by omega)]
  · next hn =>
    rw [List.getElem?_append]
    split
    · next hnew => rw [if_pos (by omega)]
    · next hnew =>
      rw [if_neg (by omega), List.getElem?_drop]
      congr 1
      omega

/-! ## Cells -/

def cell (size : ℕ) (data : List α) (i : ℕ) : List α := (data.drop (i * size)).take size

theorem getElem?_cell (n : ℕ) :
    (cell size data i)[n]? = if n < size then data[i * size + n]? else none := by
  unfold cell
  split
  · next hn => rw [List.getElem?_take_of_lt hn, List.getElem?_drop]
  · next hn => exact List.getElem?_take_eq_none (Nat.le_of_not_lt hn)

theorem cell_slice (hk : k < count) :
    cell size ((data.drop start).take (count * size)) k = (data.drop (start + k * size)).take size := by
  have hle : k * size + size ≤ count * size := by
    rw [← Nat.succ_mul]
    exact Nat.mul_le_mul_right size hk
  unfold cell
  rw [List.drop_take, List.drop_drop, List.take_take, Nat.min_eq_left (by omega)]

theorem cell_append_left {rest : List α} (h : (i + 1) * size ≤ data.length) :
    cell size (data ++ rest) i = cell size data i := by
  rw [Nat.succ_mul] at h
  unfold cell
  rw [List.drop_append_of_le_length (by omega), List.take_append_of_le_length]
  rw [List.length_drop]
  omega

theorem cell_append_right {rest : List α} (h : data.length = k * size) :
    cell size (data ++ rest) (k + i) = cell size rest i := by
  unfold cell
  rw [Nat.add_mul, ← h, List.drop_length_add_append]

theorem cell_splice (hlen : new.length = count * size) (hle : (i + count) * size ≤ data.length) :
    ∃ data', splice data (i * size) new = some data' ∧ data'.length = data.length ∧
      ∀ j, cell size data' j =
        if i ≤ j ∧ j < i + count then cell size new (j - i) else cell size data j := by
  rw [Nat.add_mul] at hle
  obtain ⟨data', hsplice, hlength, hget⟩ := @splice_ok _ data new (i * size) (by omega)
  refine ⟨data', hsplice, hlength, fun j => List.ext_getElem? fun n => ?_⟩
  rw [getElem?_cell, hget, hlen]
  by_cases hn : n < size
  · rw [if_pos hn]
    rcases Nat.lt_or_ge j i with hlow | hlow
    · -- The cell ends before what was written.
      have hbefore : j * size + size ≤ i * size := by
        rw [← Nat.succ_mul]
        exact Nat.mul_le_mul_right size hlow
      rw [if_neg (by omega), if_neg (by omega), getElem?_cell, if_pos hn]
    · rcases Nat.lt_or_ge j (i + count) with hhigh | hhigh
      · have hfrom : j * size = i * size + (j - i) * size := by
          rw [← Nat.add_mul, Nat.add_sub_cancel' hlow]
        have hto : (j - i) * size + size ≤ count * size := by
          rw [← Nat.succ_mul]
          exact Nat.mul_le_mul_right size (by omega)
        rw [if_pos (by omega), if_pos ⟨hlow, hhigh⟩, getElem?_cell, if_pos hn]
        congr 1
        omega
      · -- The cell starts behind it.
        have hbehind : i * size + count * size ≤ j * size := by
          rw [← Nat.add_mul]
          exact Nat.mul_le_mul_right size hhigh
        rw [if_neg (by omega), if_neg (by omega), getElem?_cell, if_pos hn]
  · rw [if_neg hn]
    split
    · rw [getElem?_cell, if_neg hn]
    · rw [getElem?_cell, if_neg hn]

/-! ## Rows -/

theorem in_row_iff {row col : ℕ} (hx : x < w) (hcount : col + count ≤ w) : row * w + col ≤ y * w + x ∧ y * w + x < row
    * w + col + count ↔ y = row ∧ col ≤ x ∧ x < col + count := by
  constructor
  · rintro ⟨hlow, hhigh⟩
    have hy : y = row := by
      rcases Nat.lt_trichotomy y row with hlt | heq | hgt
      · have hle : y * w + w ≤ row * w := by
          rw [← Nat.succ_mul]
          exact Nat.mul_le_mul_right w hlt
        omega
      · exact heq
      · have hle : row * w + w ≤ y * w := by
          rw [← Nat.succ_mul]
          exact Nat.mul_le_mul_right w hgt
        omega
    subst hy
    omega
  · rintro ⟨rfl, hlow, hhigh⟩
    omega

theorem length_rows {row : ℕ → List α} {n : ℕ} (hrow : ∀ k < h, (row k).length = n) :
    ((List.range h).flatMap row).length = h * n := by
  induction h with
  | zero => rw [List.range_zero, List.flatMap_nil, List.length_nil, Nat.zero_mul]
  | succ h ih =>
    rw [List.range_succ, List.flatMap_append, List.length_append, ih fun k hk => hrow k (by omega),
      List.flatMap_singleton, hrow h (Nat.lt_succ_self h), Nat.succ_mul]

theorem cell_rows {row : ℕ → List α} (hrow : ∀ k < h, (row k).length = w * size) (hx : x < w)
    (hy : y < h) : cell size ((List.range h).flatMap row) (y * w + x) = cell size (row y) x := by
  induction h with
  | zero => exact absurd hy (Nat.not_lt_zero y)
  | succ h ih =>
    have hbelow : ∀ k < h, (row k).length = w * size := fun k hk => hrow k (by omega)
    have hlen := length_rows hbelow
    rw [List.range_succ, List.flatMap_append, List.flatMap_singleton]
    rcases Nat.lt_or_ge y h with hlt | hge
    · have hrows : y * w + w ≤ h * w := by
        rw [← Nat.succ_mul]
        exact Nat.mul_le_mul_right w hlt
      rw [cell_append_left, ih hbelow hlt]
      rw [hlen, ← Nat.mul_assoc]
      exact Nat.mul_le_mul_right size (by omega)
    · obtain rfl : y = h := by omega
      exact cell_append_right (hlen.trans (Nat.mul_assoc _ _ _).symm)

/-- Put rows one below the other, as long as there is a next one. -/
def putRows (stride start : ℕ) (row : ℕ → Option (List α)) : ℕ → ℕ → List α → Option (List α × ℕ)
  | 0, k, data => some (data, k)
  | count + 1, k, data =>
    match row k with
    | none => some (data, k)
    | some new => do
      let data ← splice data (start + k * stride) new
      putRows stride start row count (k + 1) data

variable {row : ℕ → Option (List α)} {n : ℕ}

theorem putRows_ok {k₀ : ℕ} (hrow : ∀ k new, row k = some new → new.length = n * size)
    (hx : x + n ≤ w) (hy : y + (k₀ + count) ≤ h) (hdata : data.length = h * w * size) :
    ∃ data' m, putRows (w * size) ((y * w + x) * size) row count k₀ data = some (data', m) ∧
      k₀ ≤ m ∧ m ≤ k₀ + count ∧ data'.length = data.length ∧
      (∀ k, k₀ ≤ k → k < m → row k ≠ none) ∧ (m < k₀ + count → row m = none) ∧
      ∀ px py, px < w → cell size data' (py * w + px) =
        if x ≤ px ∧ px < x + n ∧ y + k₀ ≤ py ∧ py < y + m then
          cell size ((row (py - y)).getD []) (px - x)
        else cell size data (py * w + px) := by
  induction count generalizing k₀ data with
  | zero =>
    refine ⟨data, k₀, rfl, le_rfl, le_rfl, rfl, fun k hk hk' => absurd hk' (Nat.not_lt.mpr hk),
      fun h => absurd h (Nat.lt_irrefl _), fun px py _ => ?_⟩
    rw [if_neg (by omega)]
  | succ count ih =>
    unfold putRows
    cases hk : row k₀ with
    | none =>
      refine ⟨data, k₀, rfl, le_rfl, Nat.le_add_right _ _, rfl,
        fun k hk hk' => absurd hk' (Nat.not_lt.mpr hk), fun _ => hk, fun px py _ => ?_⟩
      rw [if_neg (by omega)]
    | some new =>
      have hplace : (y * w + x) * size + k₀ * (w * size) = ((y + k₀) * w + x) * size := by ring
      have hfits : ((y + k₀) * w + x + n) * size ≤ data.length := by
        rw [hdata]
        refine Nat.mul_le_mul_right size ?_
        have hrows : (y + k₀) * w + w ≤ h * w := by
          rw [← Nat.succ_mul]
          exact Nat.mul_le_mul_right w (by omega)
        omega
      obtain ⟨data₁, hsplice, hlen, hcell⟩ := cell_splice (hrow k₀ new hk) hfits
      obtain ⟨data', m, hput, hlow, hhigh, hlen', hsome, hnone, hcells⟩ :=
        @ih data₁ (k₀ + 1) (by omega) (hlen.trans hdata)
      refine ⟨data', m, ?_, by omega, by omega, hlen'.trans hlen, fun k hk₀ hkm => ?_, fun hm => ?_,
        fun px py hpx => ?_⟩
      · dsimp only
        rw [hplace, hsplice]
        exact hput
      · rcases Nat.eq_or_lt_of_le hk₀ with rfl | hlt
        · rw [hk]
          exact Option.some_ne_none _
        · exact hsome k hlt hkm
      · exact hnone (by omega)
      · rw [hcells px py hpx, hcell]
        by_cases hlater : x ≤ px ∧ px < x + n ∧ y + (k₀ + 1) ≤ py ∧ py < y + m
        · rw [if_pos hlater, if_pos (by omega)]
        · rw [if_neg hlater]
          by_cases hhere : py = y + k₀ ∧ x ≤ px ∧ px < x + n
          · obtain ⟨rfl, hpx₁, hpx₂⟩ := hhere
            rw [if_pos ((in_row_iff hpx hx).mpr ⟨rfl, hpx₁, hpx₂⟩), if_pos (by omega), Nat.add_sub_cancel_left, hk]
            congr 1
            omega
          · rw [if_neg fun h => hhere ((in_row_iff hpx hx).mp h), if_neg (by omega)]

end Lib.Raster
