import UwuRdp.Core.Dirty
import UwuRdp.Lib.Raster

/-!
# Pixel buffers

Surfaces, cache entries and the output the page sees: straight RGBA, row by row, without padding. Every
operation clips against the buffers it touches. `none` is a panic: a range that is not there.
-/

namespace UwuRdp

open Lib Lib.Raster

/-- `[u8; 4]` -/
structure Color where
  r : UInt8
  g : UInt8
  b : UInt8
  a : UInt8
deriving DecidableEq

def Color.bytes (c : Color) : List UInt8 := [c.r, c.g, c.b, c.a]

def Color.black : Color := ⟨0, 0, 0, 0xff⟩

/-- An RGBA pixel buffer. -/
structure Pixels where
  width : UInt16
  height : UInt16
  data : List UInt8
deriving DecidableEq

namespace Pixels

def stride (p : Pixels) : ℕ := p.width.toNat * 4

def bounds (p : Pixels) : Rect := ⟨0, 0, p.width, p.height⟩

def run (c : Color) (count : ℕ) : List UInt8 := (List.replicate count c.bytes).flatten

def clear (p : Pixels) : Pixels :=
  { p with data := run .black (p.data.length / 4) ++ p.data.drop (p.data.length / 4 * 4) }

def new (width height : UInt16) : Pixels :=
  clear ⟨width, height, List.replicate (width.toNat * height.toNat * 4) 0⟩

/-- Fill a rectangle with one colour; the rectangle is what was filled. -/
def fill (p : Pixels) (rect : Rect) (c : Color) : Option (Pixels × Rect) := do
  let rect := rect.clip p.width p.height
  let (data, _) ← putRows p.stride (rect.y.toNat * p.stride + rect.x.toNat * 4)
    (fun _ => some (run c rect.w.toNat)) rect.h.toNat 0 p.data
  some ({ p with data := data }, rect)

/-- Copy a block of `w` by `h` pixels, `srcStride` bytes a row, to `x`, `y`. What is outside the buffer
or missing from `src` is skipped; the rectangle is what was written. -/
def write (p : Pixels) (x y w h : UInt16) (src : List UInt8) (srcStride : ℕ) :
    Option (Pixels × Rect) := do
  let target := (Rect.mk x y w h).clip p.width p.height
  if target.isEmpty then some (p, target)
  else do
    let (data, writtenRows) ← putRows p.stride (target.y.toNat * p.stride + target.x.toNat * 4)
      (fun row => slice src (row * srcStride) (target.w.toNat * 4)) target.h.toNat 0 p.data
    some ({ p with data := data }, ⟨target.x, target.y, target.w, UInt16.ofNat writtenRows⟩)

/-- Like `write`, but only where `clip` allows; the rectangles are the parts written. -/
def writeClipped (x y w h : UInt16) (src : List UInt8) (srcStride : ℕ) :
    List Rect → Pixels → Option (Pixels × List Rect)
  | [], p => some (p, [])
  | c :: clip, p =>
    let part := (Rect.mk x y w h).intersect c
    let offset := (part.y.toNat - y.toNat) * srcStride + (part.x.toNat - x.toNat) * 4
    if part.isEmpty ∨ src.length < offset then writeClipped x y w h src srcStride clip p
    else do
      let (p, done) ← p.write part.x part.y part.w part.h (src.drop offset) srcStride
      let (p, written) ← writeClipped x y w h src srcStride clip p
      some (p, if done.isEmpty then written else done :: written)

/-- Copy a rectangle of another buffer to `x`, `y` here; the rectangle is what was written. -/
def blit (p src : Pixels) (rect : Rect) (x y : UInt16) : Option (Pixels × Rect) :=
  let rect := rect.clip src.width src.height
  let offset := rect.y.toNat * src.stride + rect.x.toNat * 4
  p.write x y rect.w rect.h (src.data.drop offset) src.stride

def read (p : Pixels) (rect : Rect) : Option (Rect × List UInt8) := do
  let rect := rect.clip p.width p.height
  let rows ← (List.range rect.h.toNat).mapM fun y =>
    slice p.data ((rect.y.toNat + y) * p.stride + rect.x.toNat * 4) (rect.w.toNat * 4)
  some (rect, rows.flatten)

/-! ## What they do -/

def Valid (p : Pixels) : Prop := p.data.length = p.height.toNat * p.width.toNat * 4

def pixel (p : Pixels) (x y : ℕ) : List UInt8 := cell 4 p.data (y * p.width.toNat + x)

/-- A valid buffer of the same size in which only some pixels differ. -/
structure ChangesOnly (P : ℕ → ℕ → Prop) (p p' : Pixels) : Prop where
  width : p'.width = p.width
  height : p'.height = p.height
  valid : p'.Valid
  pixel : ∀ x y, x < p.width.toNat → ¬P x y → p'.pixel x y = p.pixel x y

variable {p p' src : Pixels} {rect : Rect} {c : Color} {x y w h : UInt16} {P Q : ℕ → ℕ → Prop}

theorem ChangesOnly.refl (h : p.Valid) : ChangesOnly P p p := ⟨rfl, rfl, h, fun _ _ _ _ => rfl⟩

theorem ChangesOnly.trans {p'' : Pixels} (h : ChangesOnly P p p') (h' : ChangesOnly Q p' p'') :
    ChangesOnly (fun x y => P x y ∨ Q x y) p p'' where
  width := h'.width.trans h.width
  height := h'.height.trans h.height
  valid := h'.valid
  pixel x y hx hn := (h'.pixel x y (by rw [h.width]; exact hx) fun hq => hn (.inr hq)).trans
    (h.pixel x y hx fun hp => hn (.inl hp))

theorem ChangesOnly.mono (h : ChangesOnly P p p') (hpq : ∀ x y, P x y → Q x y) : ChangesOnly Q p p' :=
  ⟨h.width, h.height, h.valid, fun x y hx hn => h.pixel x y hx fun hp => hn (hpq x y hp)⟩

@[simp] theorem length_run (c : Color) (count : ℕ) : (run c count).length = count * 4 := by
  unfold run
  induction count with
  | zero => rfl
  | succ count ih =>
    rw [List.replicate_succ, List.flatten_cons, List.length_append, ih, Nat.succ_mul, Nat.add_comm]
    rfl

theorem cell_run {i count : ℕ} (hi : i < count) : cell 4 (run c count) i = c.bytes := by
  induction count generalizing i with
  | zero => cases hi
  | succ count ih =>
    unfold run at ih ⊢
    rw [List.replicate_succ, List.flatten_cons]
    cases i with
    | zero => rfl
    | succ i =>
      have hskip : cell 4 (c.bytes ++ (List.replicate count c.bytes).flatten) (i + 1) =
          cell 4 (List.replicate count c.bytes).flatten i := by
        unfold cell
        rw [Nat.succ_mul, Nat.add_comm, ← List.drop_drop]
        rfl
      rw [hskip]
      exact ih (Nat.lt_of_succ_lt_succ hi)

theorem valid_clear (hp : p.Valid) : p.clear.Valid := by
  unfold Valid clear at *
  dsimp only
  rw [List.length_append, length_run, List.length_drop]
  omega

theorem valid_new (width height : UInt16) : (new width height).Valid := by
  apply valid_clear
  unfold Valid
  rw [List.length_replicate, Nat.mul_comm width.toNat]

theorem index_lt {x y w h : ℕ} (hx : x < w) (hy : y < h) : y * w + x < h * w := by
  have hle : y * w + w ≤ h * w := by
    rw [← Nat.succ_mul]
    exact Nat.mul_le_mul_right w hy
  omega

theorem pixel_clear (hp : p.Valid) {x y : ℕ} (hx : x < p.width.toNat) (hy : y < p.height.toNat) :
    p.clear.pixel x y = Color.black.bytes := by
  unfold Valid at hp
  unfold pixel clear
  rw [hp, Nat.mul_div_cancel _ (by omega), List.drop_eq_nil_of_le (by omega), List.append_nil]
  exact cell_run (index_lt hx hy)

theorem clip_edges (rect : Rect) (p : Pixels) : (rect.clip p.width p.height).x.toNat +
    (rect.clip p.width p.height).w.toNat ≤ p.width.toNat ∧ (rect.clip p.width p.height).y.toNat +
    (rect.clip p.width p.height).h.toNat ≤ p.height.toNat :=
  Rect.clip_le

theorem putRows_pixels (hp : p.Valid) {target : Rect} (hx : target.x.toNat + target.w.toNat ≤ p.width.toNat)
    (hy : target.y.toNat + target.h.toNat ≤ p.height.toNat) {row : ℕ → Option (List UInt8)}
    (hrow : ∀ k new, row k = some new → new.length = target.w.toNat * 4) :
    ∃ data m, putRows p.stride (target.y.toNat * p.stride + target.x.toNat * 4) row target.h.toNat 0
        p.data = some (data, m) ∧
      m ≤ target.h.toNat ∧ (∀ k < m, row k ≠ none) ∧ (m < target.h.toNat → row m = none) ∧
      ({ p with data := data } : Pixels).Valid ∧
      ∀ x y, x < p.width.toNat → ({ p with data := data } : Pixels).pixel x y =
        if (Rect.mk target.x target.y target.w (UInt16.ofNat m)).Has x y then
          cell 4 ((row (y - target.y.toNat)).getD []) (x - target.x.toNat)
        else p.pixel x y := by
  obtain ⟨data, m, hput, -, hm, hlen, hsome, hnone, hcells⟩ :=
    @putRows_ok _ _ 4 target.h.toNat _ p.height.toNat _ target.y.toNat row _ 0 hrow hx (by omega) hp
  have hstart : target.y.toNat * p.stride + target.x.toNat * 4 =
      (target.y.toNat * p.width.toNat + target.x.toNat) * 4 := by
    unfold stride
    ring
  have hm' : m < 65536 := by
    have := target.h.toNat_lt
    omega
  refine ⟨data, m, by rw [hstart]; exact hput, by omega,
    fun k hk => hsome k (Nat.zero_le k) hk, fun h => hnone (by omega), hlen.trans hp, fun x y hx => ?_⟩
  have hin : (Rect.mk target.x target.y target.w (UInt16.ofNat m)).Has x y ↔
      target.x.toNat ≤ x ∧ x < target.x.toNat + target.w.toNat ∧ target.y.toNat ≤ y ∧
        y < target.y.toNat + m := by
    rw [Rect.has_iff, UInt16.toNat_ofNat_of_lt' hm']
  show cell 4 data (y * p.width.toNat + x) = _
  rw [hcells x y hx]
  by_cases h : target.x.toNat ≤ x ∧ x < target.x.toNat + target.w.toNat ∧ target.y.toNat ≤ y ∧
      y < target.y.toNat + m
  · rw [if_pos (by omega), if_pos (hin.mpr h)]
  · rw [if_neg (by omega), if_neg fun hhas => h (hin.mp hhas)]
    rfl

theorem fill_ok (hp : p.Valid) (rect : Rect) (c : Color) :
    ∃ p', p.fill rect c = some (p', rect.clip p.width p.height) ∧
      ChangesOnly (rect.clip p.width p.height).Has p p' := by
  obtain ⟨hx, hy⟩ := clip_edges rect p
  obtain ⟨data, m, hput, hm, -, hnone, hvalid, hpixel⟩ := @putRows_pixels _ hp _ hx hy
    (fun _ => some (run c (rect.clip p.width p.height).w.toNat)) fun k new h => by rw
    [← Option.some.inj h, length_run]
  refine ⟨{ p with data := data }, ?_, rfl, rfl, hvalid, fun x y hxw hnot => ?_⟩
  · unfold fill
    dsimp only
    rw [hput]
    rfl
  · have hall : m = (rect.clip p.width p.height).h.toNat := by
      by_contra hne
      cases hnone (by omega)
    rw [hpixel x y hxw, if_neg fun hin => hnot ?_]
    rw [hall, UInt16.ofNat_toNat] at hin
    exact hin

theorem write_ok (hp : p.Valid) (x y w h : UInt16) (src : List UInt8) (srcStride : ℕ) :
    ∃ p' done, p.write x y w h src srcStride = some (p', done) ∧ ChangesOnly done.Has p p' ∧
      done.right ≤ p.width.toNat ∧ done.bottom ≤ p.height.toNat ∧
      (∀ px py, done.Has px py → (Rect.mk x y w h).Has px py ∧
        p'.pixel px py = (src.drop ((py - y.toNat) * srcStride + (px - x.toNat) * 4)).take 4) ∧
      ((∀ k < h.toNat, k * srcStride + w.toNat * 4 ≤ src.length) →
        ∀ px py, px < p.width.toNat → py < p.height.toNat → (Rect.mk x y w h).Has px py →
          done.Has px py) := by
  obtain ⟨hx, hy⟩ := clip_edges (Rect.mk x y w h) p
  unfold write
  dsimp only
  cases hempty : ((Rect.mk x y w h).clip p.width p.height).isEmpty with
  | true =>
    refine ⟨p, _, if_pos rfl, ChangesOnly.refl hp, hx, hy, fun px py hin => ?_, fun _ px py hpx hpy hin =>
      Rect.has_clip.mpr ⟨hin, hpx, hpy⟩⟩
    cases hempty.symm.trans hin.not_empty
  | false =>
    obtain ⟨hleft, htop⟩ := Rect.clip_x hempty
    obtain ⟨hwide, hhigh⟩ := @Rect.clip_size (Rect.mk x y w h) p.width p.height
    generalize htarget : (Rect.mk x y w h).clip p.width p.height = target at *
    dsimp only at hleft htop hwide hhigh
    obtain ⟨data, m, hput, hm, hsome, hnone, hvalid, hpixel⟩ := @putRows_pixels _ hp _ hx hy
      (fun row => slice src (row * srcStride) (target.w.toNat * 4)) fun k new => length_of_slice
    have hm' : (UInt16.ofNat m).toNat = m := by
      have := target.h.toNat_lt
      exact UInt16.toNat_ofNat_of_lt' (show m < 65536 by omega)
    have hin : ∀ {px py}, (Rect.mk target.x target.y target.w (UInt16.ofNat m)).Has px py ↔
        target.x.toNat ≤ px ∧ px < target.x.toNat + target.w.toNat ∧ target.y.toNat ≤ py ∧
          py < target.y.toNat + m := fun {px py} => by rw [Rect.has_iff, hm']
    refine ⟨{ p with data := data }, ⟨target.x, target.y, target.w, UInt16.ofNat m⟩, ?_,
      ⟨rfl, rfl, hvalid, fun px py hpx hnot => ?_⟩, hx, ?_, fun px py hhas => ?_, fun hrows px py hpx hpy hhas => ?_⟩
    · rw [if_neg Bool.false_ne_true, hput]
      rfl
    · rw [hpixel px py hpx, if_neg hnot]
    · show target.y.toNat + (UInt16.ofNat m).toNat ≤ p.height.toNat
      omega
    · have hnum := hin.mp hhas
      have htar : target.Has px py := Rect.has_iff.mpr (by omega)
      rw [← htarget, Rect.has_clip] at htar
      refine ⟨htar.1, ?_⟩
      rw [hpixel px py htar.2.1, if_pos hhas]
      have hslice := hsome (py - target.y.toNat) (by omega)
      rw [hleft, htop] at *
      unfold slice at hslice ⊢
      split at hslice
      · next hle =>
        rw [if_pos hle]
        exact cell_slice (by omega)
      · exact absurd rfl hslice
    · have hall : m = target.h.toNat := by
        by_contra hne
        have hmissing := hnone (by omega)
        have hle := hrows m (by omega)
        have hpresent := @slice_eq_some _ src (m * srcStride) (target.w.toNat * 4) (by omega)
        rw [hpresent] at hmissing
        cases hmissing
      have htar : target.Has px py := htarget ▸ Rect.has_clip.mpr ⟨hhas, hpx, hpy⟩
      rw [Rect.has_iff] at htar
      rw [hin]
      omega

theorem writeClipped_ok (hp : p.Valid) (x y w h : UInt16) (src : List UInt8) (srcStride : ℕ) (clip : List Rect) : ∃ p'
    written, writeClipped x y w h src srcStride clip p = some (p', written) ∧ ChangesOnly (DirtyRegion.Has written) p
    p' ∧ ∀ r ∈ written, r.right ≤ p.width.toNat ∧ r.bottom ≤ p.height.toNat := by
  induction clip generalizing p with
  | nil => exact ⟨p, [], rfl, ChangesOnly.refl hp, fun r hr => absurd hr List.not_mem_nil⟩
  | cons c clip ih =>
    unfold writeClipped
    dsimp only
    split
    · exact ih hp
    · obtain ⟨p₁, done, hwrite, hchanges, hright, hbottom, -⟩ :=
        write_ok hp ((Rect.mk x y w h).intersect c).x ((Rect.mk x y w h).intersect c).y
          ((Rect.mk x y w h).intersect c).w ((Rect.mk x y w h).intersect c).h
          (src.drop ((((Rect.mk x y w h).intersect c).y.toNat - y.toNat) * srcStride +
            (((Rect.mk x y w h).intersect c).x.toNat - x.toNat) * 4)) srcStride
      obtain ⟨p₂, written, hrest, hchanges', hin⟩ := ih hchanges.valid
      rw [hchanges.width, hchanges.height] at hin
      refine ⟨p₂, if done.isEmpty then written else done :: written, ?_, ?_, fun r hr => ?_⟩
      · rw [hwrite]
        show (writeClipped x y w h src srcStride clip p₁ >>= fun r =>
          some (r.1, if done.isEmpty then r.2 else done :: r.2)) = _
        rw [hrest]
        rfl
      · refine (hchanges.trans hchanges').mono fun px py h => ?_
        split
        · next hempty =>
          refine h.resolve_left fun hdone => ?_
          rw [hdone.not_empty] at hempty
          cases hempty
        · rcases h with hdone | ⟨r, hr, hhas⟩
          · exact ⟨done, List.mem_cons_self, hdone⟩
          · exact ⟨r, List.mem_cons_of_mem _ hr, hhas⟩
      · split at hr
        · exact hin r hr
        · rcases List.mem_cons.mp hr with rfl | hr
          · exact ⟨hright, hbottom⟩
          · exact hin r hr

theorem blit_ok (hp : p.Valid) (hsrc : src.Valid) (rect : Rect) (x y : UInt16) :
    ∃ p' done, p.blit src rect x y = some (p', done) ∧ ChangesOnly done.Has p p' ∧
      done.right ≤ p.width.toNat ∧ done.bottom ≤ p.height.toNat ∧
      (∀ px py, done.Has px py → x.toNat ≤ px ∧ y.toNat ≤ py ∧
        rect.Has (rect.x.toNat + (px - x.toNat)) (rect.y.toNat + (py - y.toNat)) ∧
        p'.pixel px py = src.pixel (rect.x.toNat + (px - x.toNat)) (rect.y.toNat + (py - y.toNat))) ∧
      ∀ px py, px < src.width.toNat → py < src.height.toNat → rect.Has px py →
        x.toNat + (px - rect.x.toNat) < p.width.toNat → y.toNat + (py - rect.y.toNat) < p.height.toNat →
          done.Has (x.toNat + (px - rect.x.toNat)) (y.toNat + (py - rect.y.toNat)) := by
  obtain ⟨hwide, hhigh⟩ := clip_edges rect src
  have hcorner : ∀ {px py}, (rect.clip src.width src.height).Has px py →
      (rect.clip src.width src.height).x = rect.x ∧ (rect.clip src.width src.height).y = rect.y :=
    fun h => Rect.clip_x h.not_empty
  have hhas : ∀ {px py}, (rect.clip src.width src.height).Has px py ↔
      rect.Has px py ∧ px < src.width.toNat ∧ py < src.height.toNat := Rect.has_clip
  unfold blit
  generalize rect.clip src.width src.height = part at *
  obtain ⟨p', done, hwrite, hchanges, hright, hbottom, hdone, hall⟩ := write_ok hp x y part.w part.h
    (src.data.drop (part.y.toNat * src.stride + part.x.toNat * 4)) src.stride
  have hindex : ∀ row col, part.y.toNat * src.stride + part.x.toNat * 4 + (row * src.stride + col * 4) =
      ((part.y.toNat + row) * src.width.toNat + (part.x.toNat + col)) * 4 := fun row col => by
    unfold stride
    ring
  refine ⟨p', done, hwrite, hchanges, hright, hbottom, fun px py h => ?_,
    fun px py hpx hpy hin hx hy => hall (fun k hk => ?_) _ _ hx hy ?_⟩
  · obtain ⟨hblock, hpixel⟩ := hdone px py h
    rw [Rect.has_iff] at hblock
    dsimp only at hblock
    have hpart : part.Has (part.x.toNat + (px - x.toNat)) (part.y.toNat + (py - y.toNat)) :=
      Rect.has_iff.mpr (by omega)
    have hrect := (hhas.mp hpart).1
    rw [← (hcorner hpart).1, ← (hcorner hpart).2]
    refine ⟨hblock.1, hblock.2.2.1, hrect, ?_⟩
    rw [hpixel, List.drop_drop, hindex]
    rfl
  · -- Every row of the part is there.
    have hrow : (part.y.toNat + k) * src.width.toNat + src.width.toNat ≤ src.height.toNat * src.width.toNat := by
      rw [← Nat.succ_mul]
      exact Nat.mul_le_mul_right _ (by omega)
    have hend := hindex k part.w.toNat
    unfold Valid at hsrc
    rw [List.length_drop, hsrc]
    omega
  · have hpart : part.Has px py := hhas.mpr ⟨hin, hpx, hpy⟩
    rw [← (hcorner hpart).1, ← (hcorner hpart).2]
    rw [Rect.has_iff] at hpart ⊢
    dsimp only
    omega

theorem mapM_slices {rows : List ℕ} {f : ℕ → Option (List UInt8)} {n : ℕ}
    (h : ∀ k ∈ rows, ∃ row, f k = some row ∧ row.length = n) :
    ∃ out, rows.mapM f = some out ∧ out.flatten.length = rows.length * n := by
  induction rows with
  | nil => exact ⟨[], rfl, by rw [List.length_nil, Nat.zero_mul]; rfl⟩
  | cons k rows ih =>
    obtain ⟨row, hrow, hlen⟩ := h k List.mem_cons_self
    obtain ⟨out, hout, hlens⟩ := ih fun k hk => h k (List.mem_cons_of_mem _ hk)
    refine ⟨row :: out, ?_, ?_⟩
    · rw [List.mapM_cons, hrow, hout]
      rfl
    · rw [List.flatten_cons, List.length_append, hlen, hlens, List.length_cons, Nat.succ_mul, Nat.add_comm]

theorem read_ok (hp : p.Valid) (rect : Rect) : ∃ data, p.read rect = some (rect.clip p.width p.height, data) ∧
    data.length = (rect.clip p.width p.height).h.toNat * (rect.clip p.width p.height).w.toNat * 4 := by
  obtain ⟨hwide, hhigh⟩ := clip_edges rect p
  unfold read
  dsimp only
  generalize rect.clip p.width p.height = part at *
  obtain ⟨out, hout, hlen⟩ := @mapM_slices (List.range part.h.toNat)
    (fun y => slice p.data ((part.y.toNat + y) * p.stride + part.x.toNat * 4) (part.w.toNat * 4))
    (part.w.toNat * 4) fun k hk => by
      have hk := List.mem_range.mp hk
      have hrow : (part.y.toNat + k) * p.width.toNat + p.width.toNat ≤ p.height.toNat * p.width.toNat := by
        rw [← Nat.succ_mul]
        exact Nat.mul_le_mul_right _ (by omega)
      have hstride : (part.y.toNat + k) * p.stride = (part.y.toNat + k) * p.width.toNat * 4 := by
        unfold stride
        ring
      unfold Valid at hp
      have hsome := @slice_eq_some _ p.data ((part.y.toNat + k) * p.stride + part.x.toNat * 4)
        (part.w.toNat * 4) (by rw [hstride, hp]; omega)
      exact ⟨_, hsome, length_of_slice hsome⟩
  refine ⟨out.flatten, ?_, ?_⟩
  · rw [hout]
    rfl
  · rw [hlen, List.length_range, Nat.mul_assoc]

end Pixels

end UwuRdp
