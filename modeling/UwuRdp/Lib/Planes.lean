import UwuRdp.Lib.Raster

/-!
# Passes over a plane

A plane is a grid whose cells are single entries. A pass goes over rows or columns in order and may stop on
an index that is not there; its invariant says what the rows before this one hold by now, and each write
changes one range of one row.
-/

namespace Lib.Raster

variable {α σ ι : Type}

/-! ## Loops -/

theorem bind_of_some {α β : Type} {m : Option α} {f : α → Option β} {a : α} (h : m = some a) : (m >>= f) = f a := by
  rw [h]
  rfl

section Loops

variable {P : ℕ → σ → Prop} {f : σ → ℕ → Option σ} {start count : ℕ} {s : σ}

theorem foldlM_range' (h₀ : P start s)
    (hstep : ∀ k s, start ≤ k → k < start + count → P k s → ∃ s', f s k = some s' ∧ P (k + 1) s') :
    ∃ s', (List.range' start count).foldlM f s = some s' ∧ P (start + count) s' := by
  induction count generalizing start s with
  | zero => exact ⟨s, rfl, h₀⟩
  | succ count ih =>
    obtain ⟨s₁, h₁, hs₁⟩ := hstep start s le_rfl (by omega) h₀
    obtain ⟨s', h', hs'⟩ := ih hs₁ fun k s hlow hhigh => hstep k s (by omega) (by omega)
    refine ⟨s', ?_, ?_⟩
    · rw [List.range'_succ, List.foldlM_cons, h₁]
      exact h'
    · rwa [Nat.succ_add_eq_add_succ] at hs'

theorem foldlM_keeps {Q : σ → Prop} {f : σ → ι → Option σ} {l : List ι} {s : σ} (h₀ : Q s)
    (hstep : ∀ k s, k ∈ l → Q s → ∃ s', f s k = some s' ∧ Q s') : ∃ s', l.foldlM f s = some s' ∧ Q s' := by
  induction l generalizing s with
  | nil => exact ⟨s, rfl, h₀⟩
  | cons k l ih =>
    obtain ⟨s₁, h₁, hs₁⟩ := hstep k s (List.mem_cons_self ..) h₀
    obtain ⟨s', h', hs'⟩ := ih hs₁ fun k s hk => hstep k s (List.mem_cons_of_mem _ hk)
    refine ⟨s', ?_, hs'⟩
    rw [List.foldlM_cons, h₁]
    exact h'

theorem mapM_length {α ι : Type} {f : ι → Option α} {l : List ι} (h : ∀ k ∈ l, ∃ a, f k = some a) :
    ∃ out, l.mapM f = some out ∧ out.length = l.length := by
  induction l with
  | nil => exact ⟨[], rfl, rfl⟩
  | cons k l ih =>
    obtain ⟨a, ha⟩ := h k (List.mem_cons_self ..)
    obtain ⟨out, hout, hlen⟩ := ih fun j hj => h j (List.mem_cons_of_mem _ hj)
    refine ⟨a :: out, ?_, by rw [List.length_cons, hlen, List.length_cons]⟩
    rw [List.mapM_cons, ha, hout]
    rfl

end Loops

/-! ## Lists made entry by entry -/

section Reads

variable {α β : Type} {f : α → Option β} {l : List α} {out : List β}

theorem cons_of_mapM {a : α} (h : (a :: l).mapM f = some out) :
    ∃ b rest, out = b :: rest ∧ f a = some b ∧ l.mapM f = some rest := by
  rw [List.mapM_cons] at h
  obtain ⟨b, hb, h⟩ := Option.bind_eq_some_iff.mp h
  obtain ⟨rest, hrest, h⟩ := Option.bind_eq_some_iff.mp h
  exact ⟨b, rest, (Option.some.inj h).symm, hb, hrest⟩

theorem length_of_mapM (h : l.mapM f = some out) : out.length = l.length := by
  induction l generalizing out with
  | nil =>
    cases h
    rfl
  | cons a l ih =>
    obtain ⟨b, rest, rfl, -, hrest⟩ := cons_of_mapM h
    rw [List.length_cons, List.length_cons, ih hrest]

theorem mem_of_mapM (h : l.mapM f = some out) :
    (∀ a ∈ l, ∃ b ∈ out, f a = some b) ∧ ∀ b ∈ out, ∃ a ∈ l, f a = some b := by
  induction l generalizing out with
  | nil =>
    cases h
    exact ⟨fun a ha => absurd ha List.not_mem_nil, fun b hb => absurd hb List.not_mem_nil⟩
  | cons a l ih =>
    obtain ⟨b, rest, rfl, hb, hrest⟩ := cons_of_mapM h
    obtain ⟨hto, hfrom⟩ := ih hrest
    constructor
    · intro x hx
      rcases List.mem_cons.mp hx with rfl | hx
      · exact ⟨b, List.mem_cons_self, hb⟩
      · obtain ⟨y, hy, hxy⟩ := hto x hx
        exact ⟨y, List.mem_cons_of_mem _ hy, hxy⟩
    · intro y hy
      rcases List.mem_cons.mp hy with rfl | hy
      · exact ⟨a, List.mem_cons_self, hb⟩
      · obtain ⟨x, hx, hxy⟩ := hfrom y hy
        exact ⟨x, List.mem_cons_of_mem _ hx, hxy⟩

theorem mapM_of_eq {g : α → β} (h : ∀ a ∈ l, f a = some (g a)) : l.mapM f = some (l.map g) := by
  induction l with
  | nil => rfl
  | cons a l ih =>
    rw [List.mapM_cons, h a List.mem_cons_self, ih fun b hb => h b (List.mem_cons_of_mem _ hb)]
    rfl

theorem length_flatten_of {ls : List (List α)} {n : ℕ} (h : ∀ l ∈ ls, l.length = n) :
    ls.flatten.length = ls.length * n := by
  induction ls with
  | nil => exact (Nat.zero_mul n).symm
  | cons l ls ih =>
    obtain ⟨hl, hls⟩ := List.forall_mem_cons.mp h
    rw [List.flatten_cons, List.length_append, hl, ih hls, List.length_cons, Nat.succ_mul, Nat.add_comm]

end Reads

/-! ## Entries -/

section Entries

variable {data : List α} {w h x y row col : ℕ}

theorem entry_lt (hx : x < w) (hy : y < h) : y * w + x < w * h := by
  have hle : y * w + w ≤ w * h := by
    rw [← Nat.succ_mul, Nat.mul_comm w h]
    exact Nat.mul_le_mul_right w hy
  omega

theorem entry_eq_iff (hx : x < w) (hcol : col < w) : y * w + x = row * w + col ↔ y = row ∧ x = col := by
  have hiff : row * w + col ≤ y * w + x ∧ y * w + x < row * w + col + 1 ↔ y = row ∧ col ≤ x ∧ x < col + 1 :=
    in_row_iff hx hcol
  omega

theorem entry_splice {new : List α} (hdata : data.length = w * h) (hrow : row < h)
    (hcol : col + new.length ≤ w) :
    ∃ data', splice data (row * w + col) new = some data' ∧ data'.length = w * h ∧
      ∀ x y, x < w → data'[y * w + x]? =
        if y = row ∧ col ≤ x ∧ x < col + new.length then new[x - col]? else data[y * w + x]? := by
  have hfits : row * w + col + new.length ≤ data.length := by
    have hle : row * w + w ≤ w * h := by
      rw [← Nat.succ_mul, Nat.mul_comm w h]
      exact Nat.mul_le_mul_right w hrow
    omega
  obtain ⟨data', hsplice, hlen, hget⟩ := splice_ok hfits
  refine ⟨data', hsplice, hlen.trans hdata, fun x y hx => ?_⟩
  rw [hget]
  by_cases hin : y = row ∧ col ≤ x ∧ x < col + new.length
  · rw [if_pos ((in_row_iff hx hcol).mpr hin), if_pos hin]
    obtain ⟨rfl, _, _⟩ := hin
    congr 1
    omega
  · rw [if_neg fun hr => hin ((in_row_iff hx hcol).mp hr), if_neg hin]

theorem entry_set {a : α} (hdata : data.length = w * h) (hrow : row < h) (hcol : col < w) (hx : x < w) :
    (data.set (row * w + col) a)[y * w + x]? =
      if y = row ∧ x = col then some a else data[y * w + x]? := by
  rw [List.getElem?_set]
  by_cases hat : y = row ∧ x = col
  · rw [if_pos hat, if_pos ((entry_eq_iff hx hcol).mpr hat).symm, if_pos (hdata ▸ entry_lt hcol hrow)]
  · rw [if_neg hat, if_neg fun heq => hat ((entry_eq_iff hx hcol).mp heq.symm)]

theorem ext_entries {data data' : List α} (hdata : data.length = w * h) (hdata' : data'.length = w * h)
    (heq : ∀ x y, x < w → y < h → data[y * w + x]? = data'[y * w + x]?) : data = data' := by
  apply List.ext_getElem?
  intro n
  rcases Nat.lt_or_ge n (w * h) with hin | hout
  · have hw : 0 < w := Nat.pos_of_mul_pos_right (Nat.zero_lt_of_lt hin)
    have hn : n = n / w * w + n % w := (Nat.div_add_mod' n w).symm
    rw [hn]
    exact heq _ _ (Nat.mod_lt n hw) (Nat.div_lt_of_lt_mul hin)
  · rw [List.getElem?_eq_none (hdata.trans_le hout), List.getElem?_eq_none (hdata'.trans_le hout)]

theorem entry_rows {f : ℕ → List α} (hlen : ∀ k < h, (f k).length = w) (hx : x < w) (hy : y < h) :
    ((List.range h).flatMap f)[y * w + x]? = (f y)[x]? := by
  have hcell := @cell_rows α 1 w h x y f (by simpa using hlen) hx hy
  have hzero := congrArg (·[0]?) hcell
  rw [getElem?_cell, getElem?_cell, if_pos Nat.one_pos, if_pos Nat.one_pos] at hzero
  simpa using hzero

end Entries

end Lib.Raster
