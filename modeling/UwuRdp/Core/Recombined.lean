import UwuRdp.Core.Yuv
import UwuRdp.Lib.Planes

/-!
# Putting a split picture together again

The auxiliary view has every chroma sample of a 2×2 block but the top-left one, and the main view the
average of the four. Where each sample of a picture lies in a view of either layout is one function
(`auxSample`); a row of `combine_aux` is that function read along the row, and the top-left sample comes
from the average. No view, however short its planes, makes an index go out of range.
-/

namespace UwuRdp

open Lib.Raster

namespace Gfx

namespace Avc

/-! ## The two planes -/

/-- One of the two chroma planes. -/
inductive Plane where
  | u
  | v
deriving DecidableEq

namespace Plane

def of {α : Type} : Plane → α × α → α
  | u, s => s.1
  | v, s => s.2

end Plane

namespace Chroma

def plane (c : Chroma) : Plane → List UInt8
  | .u => c.u
  | .v => c.v

def Sized (n : ℕ) (c : Chroma) : Prop := ∀ k, (c.plane k).length = n

variable {n i : ℕ} {c : Chroma}

theorem put_ok (hc : c.Sized n) (hi : i < n) (s : UInt8 × UInt8) :
    ∃ c', c.put i s = some c' ∧ ∀ k, c'.plane k = (c.plane k).set i (k.of s) := by
  refine ⟨⟨c.u.set i s.1, c.v.set i s.2⟩, ?_, fun k => by cases k <;> rfl⟩
  have hu : i < c.u.length := hi.trans_eq (hc .u).symm
  have hv : i < c.v.length := hi.trans_eq (hc .v).symm
  unfold put Avc.put
  rw [if_pos hu, if_pos hv]
  rfl

end Chroma

/-- A picture as `ensure` leaves it: every plane has the size the picture's width and height say. -/
structure Yuv444.Whole (p : Yuv444) : Prop where
  y : p.y.length = p.width * p.height
  chroma : p.chroma.Sized (p.width * p.height)
  chromaWidth : p.chromaWidth = (p.width + 1) / 2
  main : p.main.Sized (p.chromaWidth * ((p.height + 1) / 2))

theorem Yuv444.whole_default : Yuv444.default.Whole :=
  ⟨rfl, fun k => by cases k <;> rfl, rfl, fun k => by cases k <;> rfl⟩

theorem Yuv444.whole_ensure {p : Yuv444} (hp : p.Whole) (width height : ℕ) : (p.ensure width height).Whole ∧
    (p.ensure width height).width = width ∧ (p.ensure width height).height = height := by
  unfold ensure
  split
  · next h =>
    obtain ⟨hsize, _⟩ := h
    exact ⟨hp, congrArg Prod.fst hsize, congrArg Prod.snd hsize⟩
  · refine ⟨⟨List.length_replicate, fun k => ?_, rfl, fun k => ?_⟩, rfl, rfl⟩
    · cases k <;> exact List.length_replicate
    · cases k <;> exact List.length_replicate

/-! ## Where the auxiliary views have their samples -/

/-- The row of a v1 view's luma plane that has an odd row of a chroma plane: U in the first eight of every
sixteen, V in the other eight. -/
def Plane.lumaRow (k : Plane) (row : ℕ) : ℕ := row / 2 / 8 * 8 + row / 2 + k.of (0, 8)

/-- The sample of a chroma plane in an auxiliary view. -/
def auxSample (view : View) (yuv : Yuv420) (k : Plane) (row x : ℕ) : Option UInt8 :=
  match view with
  | .auxV1 =>
    if row % 2 = 1 then yuv.y[k.lumaRow row * yuv.yStride + x]?
    else (k.of (yuv.u, yuv.v))[row / 2 * yuv.uvStride + x / 2]?
  | _ =>
    if x % 2 = 1 then yuv.y[row * yuv.yStride + k.of (0, yuv.width / 2) + x / 2]?
    else (if x % 4 = 0 then yuv.u else yuv.v)[row / 2 * yuv.uvStride + k.of (0, yuv.width / 4) + x / 4]?

theorem auxSample_v2 {view : View} {yuv : Yuv420} {k : Plane} {row x : ℕ} (hview : view ≠ .auxV1) :
    auxSample view yuv k row x =
      if x % 2 = 1 then yuv.y[row * yuv.yStride + k.of (0, yuv.width / 2) + x / 2]?
      else (if x % 4 = 0 then yuv.u else yuv.v)[row / 2 * yuv.uvStride + k.of (0, yuv.width / 4) + x / 4]? := by
  cases view with
  | auxV1 => exact absurd rfl hview
  | main | auxV2 => rfl

/-- The samples of a row the view is to have: all but the even columns of the even rows. -/
def Averaged (row x : ℕ) : Prop := row % 2 = 0 ∧ x % 2 = 0

/-- A view has what a row needs. -/
structure Carries (view : View) (yuv : Yuv420) (row x0 x1 : ℕ) : Prop where
  sample : ∀ k x, x0 ≤ x → x < x1 → ¬Averaged row x → (auxSample view yuv k row x).isSome
  luma : view = .auxV1 → row % 2 = 1 → ∀ k : Plane,
    k.lumaRow row < yuv.height ∧ k.lumaRow row * yuv.yStride + x1 ≤ yuv.y.length

/-- A row filled from a source: the other places stay as they were, and a source that has it all leaves its
samples in every column. -/
structure Fills (w h row : ℕ) (cols : ℕ → Prop) (sample : Plane → ℕ → Option UInt8) (given : Prop)
    (c c' : Chroma) (complete : Bool) : Prop where
  sized : c'.Sized (w * h)
  kept : ∀ k x y, x < w → ¬(y = row ∧ cols x) → (c'.plane k)[y * w + x]? = (c.plane k)[y * w + x]?
  complete : given → complete = true
  filled : given → ∀ k x, cols x → (c'.plane k)[row * w + x]? = sample k x

variable {w h row x0 x1 : ℕ} {c : Chroma}

theorem mem_stepBy2 {x start stop : ℕ} : x ∈ stepBy2 start stop ↔ start ≤ x ∧ x < stop ∧ x % 2 = start % 2 := by
  unfold stepBy2
  rw [List.mem_map]
  constructor
  · rintro ⟨i, hi, rfl⟩
    have hi := List.mem_range.mp hi
    omega
  · rintro ⟨hlow, hhigh, hparity⟩
    exact ⟨(x - start) / 2, List.mem_range.mpr (by omega), by omega⟩

theorem fillColumns_ok {source : ℕ → Option (UInt8 × UInt8)} {xs : List ℕ} (hrow : row < h) (hxs : ∀ x ∈ xs, x < w)
    (hc : c.Sized (w * h)) : ∃ c' complete, fillColumns w row source xs c = some (c', complete) ∧ Fills w h row
    (· ∈ xs) (fun k x => (source x).map k.of) (∀ x ∈ xs, (source x).isSome) c c' complete := by
  induction xs generalizing c with
  | nil =>
    exact ⟨c, true, rfl, hc, fun _ _ _ _ _ => rfl, fun _ => rfl, fun _ _ _ hx => (List.not_mem_nil hx).elim⟩
  | cons x xs ih =>
    have hx : x < w := hxs x (List.mem_cons_self ..)
    unfold fillColumns
    cases hs : source x with
    | none =>
      have hnot : ¬∀ z ∈ x :: xs, (source z).isSome := by
        intro hall
        have hsome := hall x (List.mem_cons_self ..)
        rw [hs] at hsome
        exact Bool.false_ne_true hsome
      exact ⟨c, false, rfl, hc, fun _ _ _ _ _ => rfl, fun hg => (hnot hg).elim, fun hg => (hnot hg).elim⟩
    | some s =>
      obtain ⟨c₁, hput, hplane⟩ := Chroma.put_ok hc (entry_lt hx hrow) s
      have hset : ∀ k z y, z < w → (c₁.plane k)[y * w + z]? =
          if y = row ∧ z = x then some (k.of s) else (c.plane k)[y * w + z]? := by
        intro k z y hz
        rw [hplane k, entry_set (hc k) hrow hx hz]
      have hc₁ : c₁.Sized (w * h) := fun k => by rw [hplane k, List.length_set, hc k]
      obtain ⟨c', complete, hfill, hsized, hkept, hcomplete, hfilled⟩ :=
        ih (fun z hz => hxs z (List.mem_cons_of_mem _ hz)) hc₁
      refine ⟨c', complete, ?_, hsized, fun k z y hz hnot => ?_, fun hg => ?_, fun hg k z hz => ?_⟩
      · show (c.put (row * w + x) s >>= fun c => fillColumns w row source xs c) = some (c', complete)
        rw [hput]
        exact hfill
      · rw [hkept k z y hz fun hin => hnot ⟨hin.1, List.mem_cons_of_mem _ hin.2⟩, hset k z y hz, if_neg]
        rintro ⟨hy, rfl⟩
        exact hnot ⟨hy, List.mem_cons_self ..⟩
      · exact hcomplete fun z hz => hg z (List.mem_cons_of_mem _ hz)
      · by_cases htail : z ∈ xs
        · exact hfilled (fun z hz => hg z (List.mem_cons_of_mem _ hz)) k z htail
        · -- Only this step writes the first column.
          obtain rfl : z = x := (List.mem_cons.mp hz).resolve_right htail
          rw [hkept k z row hx fun hin => htail hin.2, hset k z row hx, if_pos ⟨rfl, rfl⟩, hs]
          rfl

theorem both_some {a b : Option UInt8} (ha : a.isSome) (hb : b.isSome) :
    (both a b).isSome ∧ ∀ k : Plane, (both a b).map k.of = k.of (a, b) := by
  obtain ⟨cu, rfl⟩ := Option.isSome_iff_exists.mp ha
  obtain ⟨cv, rfl⟩ := Option.isSome_iff_exists.mp hb
  exact ⟨rfl, fun k => by cases k <;> rfl⟩

theorem fillPlanes_ok {sample : Plane → ℕ → Option UInt8} {xs : List ℕ} (hrow : row < h) (hxs : ∀ x ∈ xs, x < w)
    (hc : c.Sized (w * h)) : ∃ c' complete, fillColumns w row (fun x => both (sample .u x) (sample .v x)) xs c = some
    (c', complete) ∧ Fills w h row (· ∈ xs) sample (∀ k, ∀ x ∈ xs, (sample k x).isSome) c c' complete := by
  obtain ⟨c', complete, hrun, hfills⟩ :=
    @fillColumns_ok w h row c (fun x => both (sample .u x) (sample .v x)) xs hrow hxs hc
  have hboth : (∀ k, ∀ x ∈ xs, (sample k x).isSome) → ∀ x ∈ xs, (both (sample .u x) (sample .v x)).isSome ∧
        ∀ k : Plane, (both (sample .u x) (sample .v x)).map k.of = k.of (sample .u x, sample .v x) :=
    fun hg x hx => both_some (hg .u x hx) (hg .v x hx)
  refine ⟨c', complete, hrun, hfills.sized, hfills.kept, fun hg => hfills.complete fun x hx => (hboth hg x hx).1,
    fun hg k x hx => ?_⟩
  rw [hfills.filled (fun x hx => (hboth hg x hx).1) k x hx, (hboth hg x hx).2 k]
  cases k <;> rfl

section Fills

variable {cols cols' : ℕ → Prop} {sample sample' : Plane → ℕ → Option UInt8} {given given' : Prop}
  {c₁ c' : Chroma} {complete₁ complete : Bool}

theorem Fills.conv (hf : Fills w h row cols sample given c c' complete) (hcols : ∀ x, cols x ↔ cols' x)
    (hsample : ∀ k x, cols x → sample k x = sample' k x) (hgiven : given' → given) :
    Fills w h row cols' sample' given' c c' complete := by
  refine ⟨hf.sized, fun k x y hx hnot => ?_, fun hg => hf.complete (hgiven hg), fun hg k x hx => ?_⟩
  · exact hf.kept k x y hx fun hin => hnot ⟨hin.1, (hcols x).mp hin.2⟩
  · have hx := (hcols x).mpr hx
    rw [hf.filled (hgiven hg) k x hx, hsample k x hx]

theorem Fills.trans (h₁ : Fills w h row cols sample given c c₁ complete₁)
    (h₂ : Fills w h row cols' sample given c₁ c' complete) (hcols : ∀ x, cols x → x < w) :
    Fills w h row (fun x => cols x ∨ cols' x) sample given c c' complete := by
  refine ⟨h₂.sized, fun k x y hx hnot => ?_, h₂.complete, fun hg k x hx => ?_⟩
  · rw [h₂.kept k x y hx fun hin => hnot ⟨hin.1, .inr hin.2⟩, h₁.kept k x y hx fun hin => hnot ⟨hin.1, .inl hin.2⟩]
  · by_cases hlater : cols' x
    · exact h₂.filled hg k x hlater
    · have hx := hx.resolve_right hlater
      rw [h₂.kept k x row (hcols x hx) fun hin => hlater hin.2]
      exact h₁.filled hg k x hx

end Fills

/-! ## One row -/

theorem range_some {data : List UInt8} {start stop : ℕ} (hle : start ≤ stop) (hstop : stop ≤ data.length) :
    ∃ out, range data start stop = some out ∧ out.length = stop - start ∧
      ∀ i < stop - start, out[i]? = data[start + i]? := by
  refine ⟨(data.drop start).take (stop - start), ?_, ?_, fun i hi => ?_⟩
  · unfold range
    rw [if_pos hle, slice_eq_some (by omega)]
  · rw [List.length_take, List.length_drop]
    omega
  · rw [List.getElem?_take_of_lt hi, List.getElem?_drop]

theorem of_range {data out : List UInt8} {start stop : ℕ} (h : range data start stop = some out) :
    start ≤ stop ∧ stop ≤ data.length ∧ out.length = stop - start := by
  unfold range at h
  split at h
  · next hle =>
    refine ⟨hle, ?_, length_of_slice h⟩
    unfold slice at h
    split at h
    · omega
    · cases h
  · cases h

theorem auxV1Plane_ok {p : Yuv444} {yuv : Yuv420} {sourceRow : ℕ} {plane main : List UInt8} (hrow : row < p.height)
    (hle : x0 ≤ x1) (hx1 : x1 ≤ p.width) (hplane : plane.length = p.width * p.height)
    (hcw : p.chromaWidth = (p.width + 1) / 2) (hmain : main.length = p.chromaWidth * ((p.height + 1) / 2)) :
    ∃ plane' complete, auxV1Plane p yuv row x0 x1 sourceRow plane main = some (plane', complete) ∧
      plane'.length = p.width * p.height ∧
      (∀ x y, x < p.width → ¬(y = row ∧ x0 ≤ x ∧ x < x1) →
        plane'[y * p.width + x]? = plane[y * p.width + x]?) ∧
      (sourceRow < yuv.height ∧ sourceRow * yuv.yStride + x1 ≤ yuv.y.length → complete = true ∧
        ∀ x, x0 ≤ x → x < x1 → plane'[row * p.width + x]? = yuv.y[sourceRow * yuv.yStride + x]?) := by
  have hrows : row * p.width + p.width ≤ p.width * p.height := by
    rw [← Nat.succ_mul, Nat.mul_comm p.width]
    exact Nat.mul_le_mul_right _ hrow
  obtain ⟨target, htarget, htlen, _⟩ := @range_some plane (row * p.width + x0) (row * p.width + x1)
    (by omega) (by omega)
  unfold auxV1Plane
  rw [htarget]
  simp only [Option.bind_eq_bind, Option.bind_some]
  -- The averages are there for every row of blocks.
  have haverages : ∃ averages samples, range main (row / 2 * p.chromaWidth) main.length = some averages ∧
      (List.range target.length).mapM (fun i => averages[(x0 + i) / 2]?) = some samples ∧
      samples.length = x1 - x0 := by
    have hblocks : row / 2 * p.chromaWidth + p.chromaWidth ≤ main.length := by
      rw [hmain, ← Nat.succ_mul, Nat.mul_comm p.chromaWidth]
      exact Nat.mul_le_mul_right _ (by omega)
    obtain ⟨averages, ha, halen, _⟩ := @range_some main (row / 2 * p.chromaWidth) main.length (by omega) le_rfl
    obtain ⟨samples, hsamples, hslen⟩ := mapM_length (f := fun i => averages[(x0 + i) / 2]?)
      (l := List.range target.length) fun i hi => by
        have hi := List.mem_range.mp hi
        exact ⟨_, List.getElem?_eq_getElem (by omega)⟩
    rw [List.length_range] at hslen
    exact ⟨averages, samples, ha, hsamples, by omega⟩
  obtain ⟨averages, samples, ha, hsamples, hslen⟩ := haverages
  have hfallback : ∃ plane' complete, (do
      let averages ← range main (row / 2 * p.chromaWidth) main.length
      let samples ← (List.range target.length).mapM fun i => averages[(x0 + i) / 2]?
      let plane ← splice plane (row * p.width + x0) samples
      some (plane, false)) = some (plane', complete) ∧
      plane'.length = p.width * p.height ∧
      (∀ x y, x < p.width → ¬(y = row ∧ x0 ≤ x ∧ x < x1) →
        plane'[y * p.width + x]? = plane[y * p.width + x]?) := by
    obtain ⟨plane', hsplice, hlen, hget⟩ := @entry_splice _ _ _ _ _ x0 samples hplane hrow (by omega)
    refine ⟨plane', false, ?_, hlen, fun x y hx hnot => ?_⟩
    · simp only [ha, hsamples, hsplice, Option.bind_eq_bind, Option.bind_some]
    · rw [hget x y hx, if_neg fun hin => hnot ⟨hin.1, hin.2.1, by omega⟩]
  rcases hsource : range yuv.y (sourceRow * yuv.yStride + x0) (sourceRow * yuv.yStride + x1) with _ | source
  · obtain ⟨plane', complete, hrun, hlen, hkept⟩ := hfallback
    refine ⟨plane', complete, hrun, hlen, hkept, fun hthere => ?_⟩
    obtain ⟨out, hout, _⟩ := @range_some yuv.y (sourceRow * yuv.yStride + x0) (sourceRow * yuv.yStride + x1)
      (by omega) hthere.2
    rw [hsource] at hout
    cases hout
  · rcases Nat.lt_or_ge sourceRow yuv.height with hin | hout
    · obtain ⟨hs₁, hs₂, hslen⟩ := of_range hsource
      obtain ⟨plane', hsplice, hlen, hget⟩ := @entry_splice _ _ _ _ _ x0 source hplane hrow (by omega)
      rw [decide_eq_true hin]
      refine ⟨plane', true, ?_, hlen, fun x y hx hnot => ?_, fun _ => ⟨rfl, fun x hlow hhigh => ?_⟩⟩
      · show (splice plane (row * p.width + x0) source >>= fun plane => some (plane, true)) = _
        rw [hsplice]
        rfl
      · rw [hget x y hx, if_neg fun hin => hnot ⟨hin.1, hin.2.1, by omega⟩]
      · obtain ⟨out, hrange, _, hat⟩ := @range_some yuv.y (sourceRow * yuv.yStride + x0)
          (sourceRow * yuv.yStride + x1) hs₁ hs₂
        obtain rfl : source = out := Option.some.inj (hsource.symm.trans hrange)
        rw [hget x row (by omega), if_pos ⟨rfl, hlow, by omega⟩, hat (x - x0) (by omega)]
        congr 1
        omega
    · rw [decide_eq_false (Nat.not_lt.mpr hout)]
      obtain ⟨plane', complete, hrun, hlen, hkept⟩ := hfallback
      exact ⟨plane', complete, hrun, hlen, hkept, fun hthere => absurd hthere.1 (Nat.not_lt.mpr hout)⟩

/-- The columns of a range of a row that a view has samples for. -/
def Columns (row x0 x1 : ℕ) (x : ℕ) : Prop := x0 ≤ x ∧ x < x1 ∧ ¬Averaged row x

abbrev Filled (p : Yuv444) (yuv : Yuv420) (view : View) (row x0 x1 : ℕ) : Chroma → Chroma → Bool → Prop :=
  Fills p.width p.height row (Columns row x0 x1) (fun k x => auxSample view yuv k row x)
    (Carries view yuv row x0 x1)

theorem auxV1Row_ok {p : Yuv444} {yuv : Yuv420} (hp : p.Whole) (hc : c.Sized (p.width * p.height))
    (hrow : row < p.height) (hle : x0 ≤ x1) (hx1 : x1 ≤ p.width) (heven : x0 % 2 = 0) : ∃ c' complete, auxV1Row p yuv
    row x0 x1 c = some (c', complete) ∧ Filled p yuv .auxV1 row x0 x1 c c' complete := by
  unfold auxV1Row
  split
  · next hodd =>
    obtain ⟨u, uComplete, hu, hulen, hukept, hugiven⟩ := @auxV1Plane_ok _ _ _ p yuv (row / 2 / 8 * 8 + row / 2)
      _ _ hrow hle hx1 (hc .u) hp.chromaWidth (hp.main .u)
    obtain ⟨v, vComplete, hv, hvlen, hvkept, hvgiven⟩ := @auxV1Plane_ok _ _ _ p yuv
      (row / 2 / 8 * 8 + row / 2 + 8) _ _ hrow hle hx1 (hc .v) hp.chromaWidth (hp.main .v)
    refine ⟨⟨u, v⟩, uComplete && vComplete, ?_, fun k => ?_, fun k x y hx hnot => ?_, fun hg => ?_,
      fun hg k x hx => ?_⟩
    · show (auxV1Plane p yuv row x0 x1 (row / 2 / 8 * 8 + row / 2) (c.plane .u) (p.main.plane .u) >>= _) = _
      rw [hu]
      show (auxV1Plane p yuv row x0 x1 (row / 2 / 8 * 8 + row / 2 + 8) (c.plane .v) (p.main.plane .v) >>= _) = _
      rw [hv]
      rfl
    · cases k with
      | u => exact hulen
      | v => exact hvlen
    · have hout : ¬(y = row ∧ x0 ≤ x ∧ x < x1) := by
        rintro ⟨hy, hlow, hhigh⟩
        refine hnot ⟨hy, hlow, hhigh, ?_⟩
        unfold Averaged
        omega
      cases k with
      | u => exact hukept x y hx hout
      | v => exact hvkept x y hx hout
    · rw [(hugiven (hg.luma rfl hodd .u)).1, (hvgiven (hg.luma rfl hodd .v)).1]
      rfl
    · obtain ⟨hlow, hhigh, _⟩ := hx
      unfold auxSample
      rw [if_pos hodd]
      cases k with
      | u => exact (hugiven (hg.luma rfl hodd .u)).2 x hlow hhigh
      | v => exact (hvgiven (hg.luma rfl hodd .v)).2 x hlow hhigh
  · next hodd =>
    have hcols : ∀ x, x ∈ stepBy2 (x0 + 1) x1 ↔ Columns row x0 x1 x := by
      intro x
      rw [mem_stepBy2]
      unfold Columns Averaged
      omega
    obtain ⟨c', complete, hrun, hfills⟩ := @fillPlanes_ok p.width p.height row c
      (fun k x => (k.of (yuv.u, yuv.v))[row / 2 * yuv.uvStride + x / 2]?)
      (stepBy2 (x0 + 1) x1) hrow (fun x hx => (mem_stepBy2.mp hx).2.1.trans_le hx1) hc
    have hsample : ∀ (k : Plane) x,
        (k.of (yuv.u, yuv.v))[row / 2 * yuv.uvStride + x / 2]? = auxSample .auxV1 yuv k row x := by
      intro k x
      unfold auxSample
      rw [if_neg hodd]
    refine ⟨c', complete, hrun, hfills.conv hcols (fun k x _ => hsample k x) fun hg k x hx => ?_⟩
    obtain ⟨hlow, hhigh, hrest⟩ := (hcols x).mp hx
    rw [hsample]
    exact hg.sample k x hlow hhigh hrest

theorem auxV2Row_ok {p : Yuv444} {yuv : Yuv420} {view : View} (hview : view ≠ .auxV1)
    (hc : c.Sized (p.width * p.height)) (hrow : row < p.height) (hx1 : x1 ≤ p.width) (heven : x0 % 2 = 0) : ∃ c'
    complete, auxV2Row p yuv row x0 x1 c = some (c', complete) ∧ Filled p yuv view row x0 x1 c c' complete := by
  have hodd : ∀ (k : Plane) x, x % 2 = 1 → yuv.y[row * yuv.yStride + k.of (0, yuv.width / 2) + x / 2]? =
      auxSample view yuv k row x := by
    intro k x hx
    rw [auxSample_v2 hview, if_pos hx]
  have hcols₁ : ∀ x, x ∈ stepBy2 (x0 + 1) x1 ↔ x0 ≤ x ∧ x < x1 ∧ x % 2 = 1 := by
    intro x
    rw [mem_stepBy2]
    omega
  obtain ⟨c₁, complete₁, hrun₁, hfills₁⟩ := @fillPlanes_ok p.width p.height row c
    (fun k x => yuv.y[row * yuv.yStride + k.of (0, yuv.width / 2) + x / 2]?)
    (stepBy2 (x0 + 1) x1) hrow (fun x hx => (mem_stepBy2.mp hx).2.1.trans_le hx1) hc
  have hfills₁ : Fills p.width p.height row (fun x => x0 ≤ x ∧ x < x1 ∧ x % 2 = 1)
      (fun k x => auxSample view yuv k row x) (Carries view yuv row x0 x1) c c₁ complete₁ := by
    refine hfills₁.conv hcols₁ (fun k x hx => hodd k x ((hcols₁ x).mp hx).2.2) fun hg k x hx => ?_
    obtain ⟨hlow, hhigh, hparity⟩ := (hcols₁ x).mp hx
    rw [hodd k x hparity]
    exact hg.sample k x hlow hhigh fun hav => by
      unfold Averaged at hav
      omega
  have hrun : auxV2Row p yuv row x0 x1 c = (if complete₁ = false then some (c₁, false)
      else if row % 2 = 1 then
        fillColumns p.width row (fun x =>
          let plane := if x % 4 = 0 then yuv.u else yuv.v
          both plane[row / 2 * yuv.uvStride + x / 4]? plane[row / 2 * yuv.uvStride + yuv.width / 4 + x / 4]?)
          (stepBy2 x0 x1) c₁
      else some (c₁, true)) := by
    unfold auxV2Row
    exact bind_of_some hrun₁
  rw [hrun]
  split
  · next hfalse =>
    have hnot : ¬Carries view yuv row x0 x1 := by
      intro hg
      rw [hfills₁.complete hg] at hfalse
      cases hfalse
    refine ⟨c₁, false, rfl, hfills₁.sized, fun k x y hx hout => ?_, fun hg => (hnot hg).elim,
      fun hg => (hnot hg).elim⟩
    refine hfills₁.kept k x y hx fun ⟨hy, hlow, hhigh, hparity⟩ => hout ⟨hy, hlow, hhigh, fun hav => ?_⟩
    unfold Averaged at hav
    omega
  · split
    · next hrowOdd =>
      have heven' : ∀ (k : Plane) x, x % 2 = 0 →
          (if x % 4 = 0 then yuv.u else yuv.v)[row / 2 * yuv.uvStride + k.of (0, yuv.width / 4) + x / 4]? =
            auxSample view yuv k row x := by
        intro k x hx
        rw [auxSample_v2 hview, if_neg (show ¬x % 2 = 1 by omega)]
      have hcols₂ : ∀ x, x ∈ stepBy2 x0 x1 ↔ x0 ≤ x ∧ x < x1 ∧ x % 2 = 0 := by
        intro x
        rw [mem_stepBy2]
        omega
      obtain ⟨c₂, complete₂, hrun₂, hfills₂⟩ := @fillPlanes_ok p.width p.height row c₁
        (fun k x => (if x % 4 = 0 then yuv.u else yuv.v)[row / 2 * yuv.uvStride + k.of (0, yuv.width / 4) + x / 4]?)
        (stepBy2 x0 x1) hrow (fun x hx => (mem_stepBy2.mp hx).2.1.trans_le hx1) hfills₁.sized
      have hfills₂ : Fills p.width p.height row (fun x => x0 ≤ x ∧ x < x1 ∧ x % 2 = 0)
          (fun k x => auxSample view yuv k row x) (Carries view yuv row x0 x1) c₁ c₂ complete₂ := by
        refine hfills₂.conv hcols₂ (fun k x hx => heven' k x ((hcols₂ x).mp hx).2.2) fun hg k x hx => ?_
        obtain ⟨hlow, hhigh, hparity⟩ := (hcols₂ x).mp hx
        rw [heven' k x hparity]
        exact hg.sample k x hlow hhigh fun hav => by
          unfold Averaged at hav
          omega
      refine ⟨c₂, complete₂, hrun₂, (hfills₁.trans hfills₂ fun x hx => hx.2.1.trans_le hx1).conv (fun x => ?_)
        (fun _ _ _ => rfl) id⟩
      unfold Columns Averaged
      omega
    · next hrowEven =>
      refine ⟨c₁, true, rfl, hfills₁.sized, fun k x y hx hout => ?_, fun _ => rfl, fun hg k x hx => ?_⟩
      · refine hfills₁.kept k x y hx fun ⟨hy, hlow, hhigh, hparity⟩ => hout ⟨hy, hlow, hhigh, fun hav => ?_⟩
        unfold Averaged at hav
        omega
      · unfold Columns Averaged at hx
        exact hfills₁.filled hg k x (by omega)

theorem auxRow_ok {p : Yuv444} {yuv : Yuv420} {view : View} (hp : p.Whole) (hc : c.Sized (p.width * p.height))
    (hrow : row < p.height) (hle : x0 ≤ min x1 p.width) (heven : x0 % 2 = 0) (missing : List ℕ) :
    ∃ c' complete, auxRow p yuv view x0 x1 (c, missing) row =
        some (c', if complete then missing else missing ++ [row / 2]) ∧
      Filled p yuv view row x0 (min x1 p.width) c c' complete := by
  have hx1 : min x1 p.width ≤ p.width := Nat.min_le_right _ _
  cases view with
  | auxV1 =>
    obtain ⟨c', complete, hrun, hfilled⟩ := @auxV1Row_ok _ _ _ _ p yuv hp hc hrow hle hx1 heven
    exact ⟨c', complete, bind_of_some hrun, hfilled⟩
  | main =>
    obtain ⟨c', complete, hrun, hfilled⟩ := @auxV2Row_ok _ _ _ _ p yuv .main (fun h => nomatch h) hc hrow hx1 heven
    exact ⟨c', complete, bind_of_some hrun, hfilled⟩
  | auxV2 =>
    obtain ⟨c', complete, hrun, hfilled⟩ := @auxV2Row_ok _ _ _ _ p yuv .auxV2 (fun h => nomatch h) hc hrow hx1 heven
    exact ⟨c', complete, bind_of_some hrun, hfilled⟩

/-! ## All rows -/

/-- Rows filled from an auxiliary view. -/
structure RowsFilled (p : Yuv444) (yuv : Yuv420) (view : View) (y0 y1 x0 x1 : ℕ) (c c' : Chroma) : Prop where
  kept : ∀ k x y, x < p.width → ¬(y0 ≤ y ∧ y < y1 ∧ Columns y x0 x1 x) →
    (c'.plane k)[y * p.width + x]? = (c.plane k)[y * p.width + x]?
  filled : ∀ k x y, y0 ≤ y → y < y1 → Columns y x0 x1 x →
    (c'.plane k)[y * p.width + x]? = auxSample view yuv k y x

/-- The rows of the auxiliary view one after the other: no row stops, and where the view has all of them,
none is missing and every sample is where it belongs. -/
theorem auxRows_ok {p : Yuv444} {yuv : Yuv420} {view : View} {y0 count : ℕ} (hp : p.Whole)
    (hc : c.Sized (p.width * p.height)) (hrows : y0 + count ≤ p.height) (hle : x0 ≤ min x1 p.width)
    (heven : x0 % 2 = 0) :
    ∃ c' missing, (List.range' y0 count).foldlM (auxRow p yuv view x0 x1) (c, []) = some (c', missing) ∧
      c'.Sized (p.width * p.height) ∧
      ((∀ y, y0 ≤ y → y < y0 + count → Carries view yuv y x0 (min x1 p.width)) →
        missing = [] ∧ RowsFilled p yuv view y0 (y0 + count) x0 (min x1 p.width) c c') := by
  obtain ⟨⟨c', missing⟩, hrun, hinv⟩ := @foldlM_range' (Chroma × List ℕ) (fun k s => s.1.Sized (p.width * p.height) ∧
      ((∀ y, y0 ≤ y → y < y0 + count → Carries view yuv y x0 (min x1 p.width)) →
        s.2 = [] ∧ RowsFilled p yuv view y0 k x0 (min x1 p.width) c s.1))
    (auxRow p yuv view x0 x1) y0 count (c, [])
    ⟨hc, fun _ => ⟨rfl, fun _ _ _ _ _ => rfl, fun _ _ _ hlow hhigh => absurd hhigh (Nat.not_lt.mpr hlow)⟩⟩
    fun k s hlow hhigh ⟨hsized, hexact⟩ => by
      obtain ⟨c₁, missing⟩ := s
      obtain ⟨c₂, complete, hrow, hfills⟩ := @auxRow_ok k x0 x1 c₁ p yuv view hp hsized (by omega) hle heven missing
      refine ⟨_, hrow, hfills.sized, fun hgiven => ?_⟩
      obtain ⟨hmissing, hkept, hfilled⟩ := hexact hgiven
      have hcarries := hgiven k hlow hhigh
      refine ⟨?_, fun pl x y hx hnot => ?_, fun pl x y hy₀ hy₁ hcol => ?_⟩
      · rw [hfills.complete hcarries, if_pos rfl]
        exact hmissing
      · rw [hfills.kept pl x y hx fun ⟨hy, hcol⟩ => hnot ⟨by omega, by omega, hy ▸ hcol⟩]
        exact hkept pl x y hx fun ⟨hy₀, hy₁, hcol⟩ => hnot ⟨hy₀, by omega, hcol⟩
      · rcases Nat.eq_or_lt_of_le (Nat.le_of_lt_succ hy₁) with rfl | hbefore
        · exact hfills.filled hcarries pl x hcol
        · have hx : x < p.width := hcol.2.1.trans_le (Nat.min_le_right _ _)
          rw [hfills.kept pl x y hx fun hin => absurd hin.1 (Nat.ne_of_lt hbefore)]
          exact hfilled pl x y hy₀ hbefore hcol
  exact ⟨c', missing, hrun, hinv⟩

/-! ## The fourth sample -/

/-- What a block's top-left sample becomes: the average where the view lacks the block, or worked out from
the average and the other three. -/
def cornerSample (p : Yuv444) (missing : List ℕ) (c : Chroma) (k : Plane) (by' bx : ℕ) : Option UInt8 := do
  let average ← (p.main.plane k)[by' * p.chromaWidth + bx]?
  if missing.contains by' then some average
  else do
    let a ← (c.plane k)[2 * by' * p.width + (2 * bx + 1)]?
    let b ← (c.plane k)[(2 * by' + 1) * p.width + 2 * bx]?
    let d ← (c.plane k)[(2 * by' + 1) * p.width + (2 * bx + 1)]?
    some (conditionalClip (4 * (average.toNat : ℤ) - (a.toNat + b.toNat + d.toNat)) average)

/-- Some blocks' top-left samples are worked out anew, and nothing else changes. -/
structure Rebuilds (p : Yuv444) (missing : List ℕ) (done : ℕ → ℕ → Prop) (c c' : Chroma) : Prop where
  sized : c'.Sized (p.width * p.height)
  kept : ∀ k x y, x < p.width → ¬(Averaged y x ∧ done (y / 2) (x / 2)) →
    (c'.plane k)[y * p.width + x]? = (c.plane k)[y * p.width + x]?
  made : ∀ k by' bx, done by' bx → 2 * by' + 1 < p.height → 2 * bx + 1 < p.width →
    (c'.plane k)[2 * by' * p.width + 2 * bx]? = cornerSample p missing c k by' bx

section Rebuilds

variable {p : Yuv444} {missing : List ℕ} {done done' : ℕ → ℕ → Prop} {c' : Chroma} {by' bx : ℕ}

theorem Rebuilds.none (hc : c.Sized (p.width * p.height)) : Rebuilds p missing (fun _ _ => False) c c :=
  ⟨hc, fun _ _ _ _ _ => rfl, fun _ _ _ h => h.elim⟩

theorem Rebuilds.cornerSample_eq (h : Rebuilds p missing done c c') (k : Plane) (hbx : 2 * bx + 1 < p.width) :
    cornerSample p missing c' k by' bx = cornerSample p missing c k by' bx := by
  have hodd : ∀ {y x : ℕ}, y % 2 = 1 ∨ x % 2 = 1 → ¬(Averaged y x ∧ done (y / 2) (x / 2)) := by
    rintro y x hone ⟨hav, _⟩
    unfold Averaged at hav
    omega
  unfold cornerSample
  rw [h.kept k (2 * bx + 1) (2 * by') hbx (hodd (by omega)),
    h.kept k (2 * bx) (2 * by' + 1) (by omega) (hodd (by omega)),
    h.kept k (2 * bx + 1) (2 * by' + 1) hbx (hodd (by omega))]

theorem Rebuilds.trans {c₁ : Chroma} (h₁ : Rebuilds p missing done c c₁) (h₂ : Rebuilds p missing done' c₁ c') :
    Rebuilds p missing (fun by' bx => done by' bx ∨ done' by' bx) c c' := by
  refine ⟨h₂.sized, fun k x y hx hnot => ?_, fun k by' bx hdone hrow hcol => ?_⟩
  · rw [h₂.kept k x y hx fun hin => hnot ⟨hin.1, .inr hin.2⟩, h₁.kept k x y hx fun hin => hnot ⟨hin.1, .inl hin.2⟩]
  · by_cases hlater : done' by' bx
    · rw [h₂.made k by' bx hlater hrow hcol, h₁.cornerSample_eq k hcol]
    · rw [h₂.kept k (2 * bx) (2 * by') (by omega) fun ⟨_, hin⟩ => hlater ?_,
        h₁.made k by' bx (hdone.resolve_right hlater) hrow hcol]
      rwa [Nat.mul_div_cancel_left _ Nat.two_pos, Nat.mul_div_cancel_left _ Nat.two_pos] at hin

theorem Rebuilds.conv (h : Rebuilds p missing done c c') (hdone : ∀ by' bx, done by' bx ↔ done' by' bx) :
    Rebuilds p missing done' c c' :=
  ⟨h.sized, fun k x y hx hnot => h.kept k x y hx fun hin => hnot ⟨hin.1, (hdone _ _).mp hin.2⟩,
    fun k by' bx hin => h.made k by' bx ((hdone by' bx).mpr hin)⟩

theorem reconstructSample_ok (hp : p.Whole) (hc : c.Sized (p.width * p.height)) (k : Plane)
    (hrow : 2 * by' + 1 < p.height) (hcol : 2 * bx + 1 < p.width) : ∃ s, cornerSample p missing c k by' bx = some s ∧
    reconstructSample p (missing.contains by') by' bx (c.plane k) (p.main.plane k) = some
    ((c.plane k).set (2 * by' * p.width + 2 * bx) s) := by
  have hin : ∀ {y x}, y < p.height → x < p.width → y * p.width + x < (c.plane k).length := by
    intro y x hy hx
    rw [hc k]
    exact entry_lt hx hy
  have hblock : by' * p.chromaWidth + bx < (p.main.plane k).length := by
    rw [hp.main k]
    refine entry_lt ?_ (by omega)
    rw [hp.chromaWidth]
    omega
  unfold cornerSample reconstructSample
  rw [List.getElem?_eq_getElem hblock]
  by_cases hlacking : missing.contains by' = true
  · refine ⟨_, show (if missing.contains by' = true then _ else _) = _ from if_pos hlacking, ?_⟩
    show (if missing.contains by' = true then _ else _) = _
    rw [if_pos hlacking]
    exact if_pos (hin (by omega) (by omega))
  · rw [List.getElem?_eq_getElem (hin (show 2 * by' < p.height by omega) hcol),
      List.getElem?_eq_getElem (hin hrow (show 2 * bx < p.width by omega)),
      List.getElem?_eq_getElem (hin hrow hcol)]
    refine ⟨_, show (if missing.contains by' = true then _ else _) = _ from if_neg hlacking, ?_⟩
    show (if missing.contains by' = true then _ else _) = _
    rw [if_neg hlacking]
    exact if_pos (hin (by omega) (by omega))

theorem rebuildBlock (hp : p.Whole) (hc : c.Sized (p.width * p.height)) (hrow : 2 * by' + 1 < p.height) :
    ∃ c', (if p.width ≤ 2 * bx + 1 then some c
      else do
        let u ← reconstructSample p (missing.contains by') by' bx c.u p.main.u
        let v ← reconstructSample p (missing.contains by') by' bx c.v p.main.v
        some ⟨u, v⟩) = some c' ∧ Rebuilds p missing (fun b x => b = by' ∧ x = bx) c c' := by
  split
  · next hout =>
    refine ⟨c, rfl, hc, fun _ _ _ _ _ => rfl, fun k b x hdone _ hcol => ?_⟩
    omega
  · next hcol =>
    have hcol : 2 * bx + 1 < p.width := Nat.lt_of_not_le hcol
    obtain ⟨su, hsu, hu⟩ := @reconstructSample_ok c p missing by' bx hp hc .u hrow hcol
    obtain ⟨sv, hsv, hv⟩ := @reconstructSample_ok c p missing by' bx hp hc .v hrow hcol
    have hplane : ∀ k, Chroma.plane ⟨(c.plane .u).set (2 * by' * p.width + 2 * bx) su,
        (c.plane .v).set (2 * by' * p.width + 2 * bx) sv⟩ k =
          (c.plane k).set (2 * by' * p.width + 2 * bx) (k.of (su, sv)) := fun k => by cases k <;> rfl
    have hset : ∀ k x y, x < p.width → (Chroma.plane ⟨(c.plane .u).set (2 * by' * p.width + 2 * bx) su,
        (c.plane .v).set (2 * by' * p.width + 2 * bx) sv⟩ k)[y * p.width + x]? =
          if y = 2 * by' ∧ x = 2 * bx then some (k.of (su, sv)) else (c.plane k)[y * p.width + x]? := by
      intro k x y hx
      rw [hplane k, entry_set (hc k) (by omega) (by omega) hx]
    refine ⟨_, (bind_of_some hu).trans (bind_of_some hv), fun k => ?_, fun k x y hx hnot => ?_,
      fun k b x ⟨hb, hx⟩ _ _ => ?_⟩
    · rw [hplane k, List.length_set, hc k]
    · rw [hset k x y hx, if_neg]
      rintro ⟨rfl, rfl⟩
      unfold Averaged at hnot
      omega
    · rw [hb, hx, hset k (2 * bx) (2 * by') (by omega), if_pos ⟨rfl, rfl⟩]
      cases k with
      | u => exact hsu.symm
      | v => exact hsv.symm

theorem reconstructRow_ok (hp : p.Whole) (hc : c.Sized (p.width * p.height)) (bx0 bx1 by' : ℕ) : ∃ c', reconstructRow
    p missing bx0 bx1 c by' = some c' ∧ Rebuilds p missing (fun b x => b = by' ∧ bx0 ≤ x ∧ x < bx1) c c' := by
  unfold reconstructRow
  split
  · next hout =>
    refine ⟨c, rfl, hc, fun _ _ _ _ _ => rfl, fun k b x hdone hrow _ => ?_⟩
    omega
  · next hrow =>
    have hrow : 2 * by' + 1 < p.height := Nat.lt_of_not_le hrow
    obtain ⟨c', hrun, hinv⟩ := @foldlM_range' Chroma
      (fun k c' => Rebuilds p missing (fun b x => b = by' ∧ bx0 ≤ x ∧ x < k) c c') _ bx0 (bx1 - bx0) c
      ((Rebuilds.none hc).conv fun b x => ⟨False.elim, fun h => by omega⟩) fun k c₁ hlow _ hinv => by
        obtain ⟨c₂, hstep, hblock⟩ := @rebuildBlock c₁ p missing by' k hp hinv.sized hrow
        exact ⟨c₂, hstep, (hinv.trans hblock).conv fun b x => by omega⟩
    exact ⟨c', hrun, hinv.conv fun b x => by omega⟩

theorem reconstructRows_ok (hp : p.Whole) (hc : c.Sized (p.width * p.height)) (bx0 bx1 by0 by1 : ℕ) : ∃ c',
    (List.range' by0 (by1 - by0)).foldlM (reconstructRow p missing bx0 bx1) c = some c' ∧ Rebuilds p missing
    (fun b x => by0 ≤ b ∧ b < by1 ∧ bx0 ≤ x ∧ x < bx1) c c' := by
  obtain ⟨c', hrun, hinv⟩ := @foldlM_range' Chroma
    (fun k c' => Rebuilds p missing (fun b x => by0 ≤ b ∧ b < k ∧ bx0 ≤ x ∧ x < bx1) c c') _ by0 (by1 - by0) c
    ((Rebuilds.none hc).conv fun b x => ⟨False.elim, fun h => by omega⟩) fun k c₁ hlow _ hinv => by
      obtain ⟨c₂, hstep, hrow⟩ := @reconstructRow_ok c₁ p missing hp hinv.sized bx0 bx1 k
      exact ⟨c₂, hstep, (hinv.trans hrow).conv fun b x => by omega⟩
  exact ⟨c', hrun, hinv.conv fun b x => by omega⟩

end Rebuilds

/-! ## A whole region -/

def Inside (r : Rect) (w h : ℕ) : Prop := r.x.toNat + r.w.toNat ≤ w ∧ r.y.toNat + r.h.toNat ≤ h

/-- A sample's block is one of those the region touches. -/
def Touched (r : Rect) (y x : ℕ) : Prop :=
  r.x.toNat / 2 ≤ x / 2 ∧ x / 2 < (r.x.toNat + r.w.toNat + 1) / 2 ∧
    r.y.toNat / 2 ≤ y / 2 ∧ y / 2 < (r.y.toNat + r.h.toNat + 1) / 2

/-- What the average and the other three samples of a block make of its top-left one. -/
def fourth (view : View) (yuv : Yuv420) (main : List UInt8) (chromaWidth : ℕ) (k : Plane) (by' bx : ℕ) :
    Option UInt8 := do
  let average ← main[by' * chromaWidth + bx]?
  let a ← auxSample view yuv k (2 * by') (2 * bx + 1)
  let b ← auxSample view yuv k (2 * by' + 1) (2 * bx)
  let d ← auxSample view yuv k (2 * by' + 1) (2 * bx + 1)
  some (conditionalClip (4 * (average.toNat : ℤ) - (a.toNat + b.toNat + d.toNat)) average)

/-- The blocks a region touches are as an auxiliary view that has them makes them; the others stay. -/
structure Recombines (p : Yuv444) (yuv : Yuv420) (view : View) (r : Rect) (c c' : Chroma) : Prop where
  kept : ∀ k x y, x < p.width → y < p.height → ¬Touched r y x →
    (c'.plane k)[y * p.width + x]? = (c.plane k)[y * p.width + x]?
  exact : ∀ k x y, x < p.width → y < p.height → Touched r y x → ¬Averaged y x →
    (c'.plane k)[y * p.width + x]? = auxSample view yuv k y x
  fourth : ∀ k by' bx, 2 * bx + 1 < p.width → 2 * by' + 1 < p.height → Touched r (2 * by') (2 * bx) →
    (c'.plane k)[2 * by' * p.width + 2 * bx]? =
      Avc.fourth view yuv (p.main.plane k) p.chromaWidth k by' bx

/-- The auxiliary view of a region: no index is out of range, and where the view has the region, every
block is as it says. -/
theorem combineAux_ok {p : Yuv444} {yuv : Yuv420} {view : View} {r : Rect} (hp : p.Whole)
    (hr : Inside r p.width p.height) :
    ∃ c, combineAux p yuv r view = some { p with chroma := c } ∧ c.Sized (p.width * p.height) ∧
      ((∀ y, r.y.toNat / 2 * 2 ≤ y → y < min ((r.y.toNat + r.h.toNat + 1) / 2 * 2) p.height →
          Carries view yuv y (r.x.toNat / 2 * 2) (min ((r.x.toNat + r.w.toNat + 1) / 2 * 2) p.width)) →
        Recombines p yuv view r p.chroma c) := by
  obtain ⟨hwide, hhigh⟩ := hr
  obtain ⟨c₁, missing, hrows, hsized, hexact⟩ := @auxRows_ok (r.x.toNat / 2 * 2)
    ((r.x.toNat + r.w.toNat + 1) / 2 * 2) p.chroma p yuv view (r.y.toNat / 2 * 2)
    (min ((r.y.toNat + r.h.toNat + 1) / 2 * 2) p.height - r.y.toNat / 2 * 2) hp hp.chroma (by omega) (by omega)
    (by omega)
  obtain ⟨c₂, hblocks, hrebuilt⟩ := @reconstructRows_ok c₁ p missing hp hsized (r.x.toNat / 2 * 2 / 2)
    ((r.x.toNat + r.w.toNat + 1) / 2 * 2 / 2) (r.y.toNat / 2 * 2 / 2) ((r.y.toNat + r.h.toNat + 1) / 2 * 2 / 2)
  refine ⟨c₂, ?_, hrebuilt.sized, fun hgiven => ?_⟩
  · unfold combineAux
    exact (bind_of_some hrows).trans (bind_of_some hblocks)
  obtain ⟨rfl, hkept, hfilled⟩ := hexact fun y hlow hhigh => hgiven y hlow (by omega)
  have hdiv : ∀ n : ℕ, n / 2 * 2 / 2 = n / 2 := fun n => Nat.mul_div_cancel _ Nat.two_pos
  refine ⟨fun k x y hx hy hnot => ?_, fun k x y hx hy htouched hav => ?_, fun k by' bx hx hy htouched => ?_⟩
  · unfold Touched at hnot
    rw [hrebuilt.kept k x y hx fun ⟨_, hin⟩ => hnot (by omega), hkept k x y hx fun ⟨hlow, hhigh, hcol⟩ => ?_]
    unfold Columns at hcol
    omega
  · unfold Touched at htouched
    rw [hrebuilt.kept k x y hx fun ⟨hin, _⟩ => hav hin]
    exact hfilled k x y (by omega) (by omega) ⟨by omega, by omega, hav⟩
  · unfold Touched at htouched
    rw [hrebuilt.made k by' bx (by omega) hy hx]
    have hat : ∀ y x, y < p.height → x < p.width → y / 2 = by' → x / 2 = bx → y % 2 = 1 ∨ x % 2 = 1 →
        (c₁.plane k)[y * p.width + x]? = auxSample view yuv k y x := by
      intro y x hy hx hyb hxb hone
      refine hfilled k x y (by omega) (by omega) ⟨by omega, by omega, fun hav => ?_⟩
      unfold Averaged at hav
      omega
    unfold cornerSample fourth
    rw [hat (2 * by') (2 * bx + 1) (by omega) hx (by omega) (by omega) (by omega),
      hat (2 * by' + 1) (2 * bx) hy (by omega) (by omega) (by omega) (by omega),
      hat (2 * by' + 1) (2 * bx + 1) hy hx (by omega) (by omega) (by omega)]
    rfl

/-! ## The main view -/

theorem lumaRow_ok {yuv : Yuv420} {y : List UInt8} (hy : y.length = w * h) (hrow : row < h) (hle : x0 ≤ x1)
    (hx1 : x1 ≤ w) :
    ∃ y', lumaRow w yuv x0 x1 y row = some y' ∧ y'.length = w * h ∧
      (∀ x z, x < w → ¬(z = row ∧ x0 ≤ x ∧ x < x1) → y'[z * w + x]? = y[z * w + x]?) ∧
      (row * yuv.yStride + x1 ≤ yuv.y.length →
        ∀ x, x0 ≤ x → x < x1 → y'[row * w + x]? = yuv.y[row * yuv.yStride + x]?) := by
  unfold lumaRow
  rcases hsrc : range yuv.y (row * yuv.yStride + x0) (row * yuv.yStride + x1) with _ | src
  · refine ⟨y, rfl, hy, fun _ _ _ _ => rfl, fun hthere => ?_⟩
    obtain ⟨out, hout, _⟩ := @range_some yuv.y (row * yuv.yStride + x0) (row * yuv.yStride + x1) (by omega) hthere
    rw [hsrc] at hout
    cases hout
  · have hrows : row * w + w ≤ w * h := by
      rw [← Nat.succ_mul, Nat.mul_comm w]
      exact Nat.mul_le_mul_right _ hrow
    obtain ⟨target, htarget, _⟩ := @range_some y (row * w + x0) (row * w + x1) (by omega) (by omega)
    obtain ⟨hs₁, hs₂, hslen⟩ := of_range hsrc
    obtain ⟨y', hsplice, hlen, hget⟩ := @entry_splice _ _ _ _ _ x0 src hy hrow (by omega)
    refine ⟨y', (bind_of_some htarget).trans hsplice, hlen, fun x z hx hnot => ?_, fun _ x hlow hhigh => ?_⟩
    · rw [hget x z hx, if_neg fun hin => hnot ⟨hin.1, hin.2.1, by omega⟩]
    · obtain ⟨out, hrange, _, hat⟩ := @range_some yuv.y (row * yuv.yStride + x0) (row * yuv.yStride + x1) hs₁ hs₂
      obtain rfl : src = out := Option.some.inj (hsrc.symm.trans hrange)
      rw [hget x row (by omega), if_pos ⟨rfl, hlow, by omega⟩, hat (x - x0) (by omega)]
      congr 1
      omega

theorem spreadRow_ok {samples : List (UInt8 × UInt8)} {bx : ℕ} (hc : c.Sized (w * h)) (hrow : row < h) :
    ∃ c', spreadRow w row bx samples c = some c' ∧ c'.Sized (w * h) := by
  induction samples generalizing bx c with
  | nil => exact ⟨c, rfl, hc⟩
  | cons s samples ih =>
    obtain ⟨c₁, hrun, hc₁⟩ := @foldlM_keeps Chroma ℕ (·.Sized (w * h))
      (fun c col => if col < w then c.put (row * w + col) s else some c) [2 * bx, 2 * bx + 1] c hc
      fun col c _ hc => by
        split
        · next hcol =>
          obtain ⟨c', hput, hplane⟩ := Chroma.put_ok hc (entry_lt hcol hrow) s
          exact ⟨c', hput, fun k => by rw [hplane k, List.length_set, hc k]⟩
        · exact ⟨c, rfl, hc⟩
    obtain ⟨c', hrest, hc'⟩ := @ih c₁ (bx + 1) hc₁
    exact ⟨c', (bind_of_some hrun).trans hrest, hc'⟩

def HasBlocks (yuv : Yuv420) (bx1 by' : ℕ) : Prop :=
  ∀ k : Plane, by' * yuv.uvStride + bx1 ≤ (k.of (yuv.u, yuv.v)).length

theorem blockRow_ok {p : Yuv444} {yuv : Yuv420} {main : Chroma} {bx0 bx1 by' : ℕ}
    (hmain : main.Sized (p.chromaWidth * ((p.height + 1) / 2))) (hc : c.Sized (p.width * p.height))
    (hrow : by' < (p.height + 1) / 2) (hle : bx0 ≤ bx1) (hbx1 : bx1 ≤ p.chromaWidth) : ∃ s, blockRow p yuv bx0 bx1
    (main, c) by' = some s ∧ s.2.Sized (p.width * p.height) ∧ Fills p.chromaWidth ((p.height + 1) / 2) by'
    (fun x => bx0 ≤ x ∧ x < bx1) (fun k x => (k.of (yuv.u, yuv.v))[by' * yuv.uvStride + x]?) (HasBlocks yuv bx1 by')
    main s.1 true := by
  by_cases hthere : HasBlocks yuv bx1 by'
  · obtain ⟨su, hsu, hulen, huat⟩ := @range_some yuv.u (by' * yuv.uvStride + bx0) (by' * yuv.uvStride + bx1)
      (by omega) (hthere .u)
    obtain ⟨sv, hsv, hvlen, hvat⟩ := @range_some yuv.v (by' * yuv.uvStride + bx0) (by' * yuv.uvStride + bx1)
      (by omega) (hthere .v)
    obtain ⟨mainU, hmu, hmulen, hmuget⟩ := @entry_splice _ _ _ _ _ bx0 su (hmain .u) hrow (by omega)
    obtain ⟨mainV, hmv, hmvlen, hmvget⟩ := @entry_splice _ _ _ _ _ bx0 sv (hmain .v) hrow (by omega)
    obtain ⟨c', hspread, hc'⟩ := @foldlM_keeps Chroma ℕ (·.Sized (p.width * p.height))
      (fun c row => if p.height ≤ row then some c else spreadRow p.width row bx0 (su.zip sv) c)
      [2 * by', 2 * by' + 1] c hc fun row c _ hc => by
        split
        · exact ⟨c, rfl, hc⟩
        · next hin => exact spreadRow_ok hc (Nat.lt_of_not_le hin)
    refine ⟨(⟨mainU, mainV⟩, c'), ?_, hc', fun k => ?_, fun k x y hx hnot => ?_, fun _ => rfl,
      fun _ k x ⟨hlow, hhigh⟩ => ?_⟩
    · unfold blockRow
      dsimp only
      rw [hsu, hsv]
      exact (bind_of_some hmu).trans ((bind_of_some hmv).trans (bind_of_some hspread))
    · cases k with
      | u => exact hmulen
      | v => exact hmvlen
    · cases k with
      | u => exact (hmuget x y hx).trans (if_neg fun hin => hnot ⟨hin.1, hin.2.1, by omega⟩)
      | v => exact (hmvget x y hx).trans (if_neg fun hin => hnot ⟨hin.1, hin.2.1, by omega⟩)
    · have hplace : by' * yuv.uvStride + bx0 + (x - bx0) = by' * yuv.uvStride + x := by omega
      cases k with
      | u =>
        refine ((hmuget x by' (by omega)).trans (if_pos ⟨rfl, hlow, by omega⟩)).trans ?_
        rw [huat (x - bx0) (by omega), hplace]
        rfl
      | v =>
        refine ((hmvget x by' (by omega)).trans (if_pos ⟨rfl, hlow, by omega⟩)).trans ?_
        rw [hvat (x - bx0) (by omega), hplace]
        rfl
  · refine ⟨(main, c), ?_, hc, hmain, fun _ _ _ _ _ => rfl, fun _ => rfl, fun hg => absurd hg hthere⟩
    unfold blockRow
    dsimp only
    split
    · next su sv hsu hsv =>
      refine absurd (fun k => ?_) hthere
      cases k with
      | u => exact (of_range hsu).2.1
      | v => exact (of_range hsv).2.1
    · rfl

/-- The main view of a region: no index is out of range, and the luma and the averages of the rows the view
has are kept. -/
structure MainTaken (yuv : Yuv420) (r : Rect) (p p' : Yuv444) : Prop where
  whole : p'.Whole
  width : p'.width = p.width
  height : p'.height = p.height
  chromaWidth : p'.chromaWidth = p.chromaWidth
  luma : ∀ y, r.y.toNat ≤ y → y < r.y.toNat + r.h.toNat →
    y * yuv.yStride + (r.x.toNat + r.w.toNat) ≤ yuv.y.length → ∀ x, r.x.toNat ≤ x → x < r.x.toNat + r.w.toNat →
      p'.y[y * p.width + x]? = yuv.y[y * yuv.yStride + x]?
  main : ∀ by', r.y.toNat / 2 ≤ by' → by' < (r.y.toNat + r.h.toNat + 1) / 2 →
    HasBlocks yuv ((r.x.toNat + r.w.toNat + 1) / 2) by' →
      ∀ (k : Plane) bx, r.x.toNat / 2 ≤ bx → bx < (r.x.toNat + r.w.toNat + 1) / 2 →
        (p'.main.plane k)[by' * p.chromaWidth + bx]? = (k.of (yuv.u, yuv.v))[by' * yuv.uvStride + bx]?

theorem combineMain_ok {p : Yuv444} {yuv : Yuv420} {r : Rect} (hp : p.Whole)
    (hr : Inside r p.width p.height) : ∃ p', combineMain p yuv r = some p' ∧ MainTaken yuv r p p' := by
  obtain ⟨hwide, hhigh⟩ := hr
  have hcw := hp.chromaWidth
  obtain ⟨y, hluma, hylen, hy⟩ := @foldlM_range' (List UInt8)
    (fun k y => y.length = p.width * p.height ∧ ∀ z, r.y.toNat ≤ z → z < k →
      z * yuv.yStride + (r.x.toNat + r.w.toNat) ≤ yuv.y.length → ∀ x, r.x.toNat ≤ x → x < r.x.toNat + r.w.toNat →
        y[z * p.width + x]? = yuv.y[z * yuv.yStride + x]?)
    (lumaRow p.width yuv r.x.toNat (r.x.toNat + r.w.toNat)) r.y.toNat r.h.toNat p.y
    ⟨hp.y, fun z hlow hhigh => absurd hhigh (Nat.not_lt.mpr hlow)⟩ fun k y hlow hhigh ⟨hlen, hrows⟩ => by
      obtain ⟨y', hrun, hlen', hkept, hfilled⟩ := @lumaRow_ok p.width p.height k r.x.toNat
        (r.x.toNat + r.w.toNat) yuv y hlen (by omega) (by omega) hwide
      refine ⟨y', hrun, hlen', fun z hz₀ hz₁ hthere x hx₀ hx₁ => ?_⟩
      rcases Nat.eq_or_lt_of_le (Nat.le_of_lt_succ hz₁) with rfl | hbefore
      · exact hfilled hthere x hx₀ hx₁
      · rw [hkept x z (by omega) fun hin => absurd hin.1 (Nat.ne_of_lt hbefore)]
        exact hrows z hz₀ hbefore hthere x hx₀ hx₁
  obtain ⟨⟨main, c⟩, hblocks, hmain, hc, hrows⟩ := @foldlM_range' (Chroma × Chroma)
    (fun n s => s.1.Sized (p.chromaWidth * ((p.height + 1) / 2)) ∧ s.2.Sized (p.width * p.height) ∧
      ∀ by', r.y.toNat / 2 ≤ by' → by' < n → HasBlocks yuv ((r.x.toNat + r.w.toNat + 1) / 2) by' →
        ∀ (k : Plane) bx, r.x.toNat / 2 ≤ bx → bx < (r.x.toNat + r.w.toNat + 1) / 2 →
          (s.1.plane k)[by' * p.chromaWidth + bx]? = (k.of (yuv.u, yuv.v))[by' * yuv.uvStride + bx]?)
    (blockRow p yuv (r.x.toNat / 2) ((r.x.toNat + r.w.toNat + 1) / 2)) (r.y.toNat / 2)
    ((r.y.toNat + r.h.toNat + 1) / 2 - r.y.toNat / 2) (p.main, p.chroma)
    ⟨hp.main, hp.chroma, fun by' hlow hhigh => absurd hhigh (Nat.not_lt.mpr hlow)⟩
    fun n s hlow hhigh ⟨hmain, hc, hrows⟩ => by
      obtain ⟨⟨main', c'⟩, hrun, hc', hfills⟩ := @blockRow_ok s.2 p yuv s.1 (r.x.toNat / 2)
        ((r.x.toNat + r.w.toNat + 1) / 2) n hmain hc (by omega) (by omega) (by omega)
      refine ⟨_, hrun, hfills.sized, hc', fun by' hb₀ hb₁ hthere k bx hx₀ hx₁ => ?_⟩
      rcases Nat.eq_or_lt_of_le (Nat.le_of_lt_succ hb₁) with rfl | hbefore
      · exact hfills.filled hthere k bx ⟨hx₀, hx₁⟩
      · refine (hfills.kept k bx by' (by omega) fun hin => absurd hin.1 (Nat.ne_of_lt hbefore)).trans ?_
        exact hrows by' hb₀ hbefore hthere k bx hx₀ hx₁
  refine ⟨{ p with y := y, main := main, chroma := c }, ?_, ⟨hylen, hc, hcw, hmain⟩, rfl, rfl, rfl, hy,
    fun by' hb₀ hb₁ => hrows by' hb₀ (by omega)⟩
  unfold combineMain
  exact (bind_of_some hluma).trans (bind_of_some hblocks)

end Avc

end Gfx

end UwuRdp
