import UwuRdp.Core.Recombined

/-!
# What a server does to a picture

The split before the encoder: the main view has the luma and the averaged chroma, the auxiliary view the
chroma the main view left out, in the v1 or the v2 layout, each as I420 bytes. The lemmas read the views
back: where `auxSample` looks, the sample of that place is.
-/

namespace UwuRdp

open Lib.Raster

namespace Gfx

namespace Avc

namespace Split

/-- A picture in YUV 4:4:4, one byte per sample, no padding. -/
structure Yuv444 where
  width : ℕ
  height : ℕ
  y : List UInt8
  u : List UInt8
  v : List UInt8
  length_y : y.length = width * height
  length_u : u.length = width * height
  length_v : v.length = width * height

/-- `at` -/
def sampleAt (plane : List UInt8) (width x y : ℕ) : UInt8 := plane.getD (y * width + x) 0

namespace Yuv444

/-- The averages of one chroma plane, each over a 2×2 block. -/
def averages (s : Yuv444) (plane : List UInt8) : List UInt8 :=
  (List.range (s.height / 2)).flatMap fun y => (List.range (s.width / 2)).map fun x =>
    let sum := (sampleAt plane s.width (2 * x) (2 * y)).toNat + (sampleAt plane s.width (2 * x + 1) (2 * y)).toNat +
      (sampleAt plane s.width (2 * x) (2 * y + 1)).toNat + (sampleAt plane s.width (2 * x + 1) (2 * y + 1)).toNat
    UInt8.ofNat (min ((sum + 2) / 4) 255)

/-- The main view: luma as it is, chroma averaged over each 2×2 block. -/
def mainView (s : Yuv444) : List UInt8 := s.y ++ [s.u, s.v].flatMap s.averages

/-- The odd columns of the even rows of one chroma plane. -/
def oddColumns (s : Yuv444) (plane : List UInt8) : List UInt8 :=
  (List.range (s.height / 2)).flatMap fun y => (List.range (s.width / 2)).map fun x =>
    sampleAt plane s.width (2 * x + 1) (2 * y)

/-- The luma plane of the v1 view with one more odd row of each chroma plane. -/
def oddRow (s : Yuv444) (luma : List UInt8) (k : ℕ) : List UInt8 :=
  let row := k / 8 * 8 + k
  [(s.u, row), (s.v, row + 8)].foldl (fun luma (plane, target) =>
    if target < s.height then
      (splice luma (target * s.width) ((plane.drop ((2 * k + 1) * s.width)).take s.width)).getD luma
    else luma) luma

/-- The v1 auxiliary view: the odd chroma rows in its luma plane, eight U rows then eight V rows in every
sixteen; the odd columns of the even rows in its chroma planes. -/
def auxViewV1 (s : Yuv444) : List UInt8 :=
  (List.range (s.height / 2)).foldl s.oddRow (List.replicate (s.width * s.height) 128) ++
    [s.u, s.v].flatMap s.oddColumns

/-- Every so many columns of a row of both chroma planes, U left and V right. -/
def sideBySide (s : Yuv444) (count step offset row : ℕ) : List UInt8 :=
  [s.u, s.v].flatMap fun plane => (List.range count).map fun x => sampleAt plane s.width (step * x + offset) row

/-- The v2 auxiliary view: the odd columns of U and V side by side in its luma plane, the columns 4n and
4n+2 of the odd rows in its chroma planes. -/
def auxViewV2 (s : Yuv444) : List UInt8 :=
  (List.range s.height).flatMap (fun y => s.sideBySide (s.width / 2) 2 1 y) ++
    [0, 2].flatMap fun offset => (List.range (s.height / 2)).flatMap fun y =>
      s.sideBySide (s.width / 4) 4 offset (2 * y + 1)

def auxView (s : Yuv444) : View → List UInt8
  | .auxV2 => s.auxViewV2
  | _ => s.auxViewV1

def plane (s : Yuv444) : Plane → List UInt8
  | .u => s.u
  | .v => s.v

end Yuv444

/-- A picture's planes as the decoder would hand them over, from I420. -/
def planes (i420 : List UInt8) (width height : ℕ) : Yuv420 :=
  let luma := width * height
  let chroma := luma / 4
  { width := width
    height := height
    y := i420.take luma
    u := (i420.drop luma).take chroma
    v := i420.drop (luma + chroma)
    yStride := width
    uvStride := width / 2 }

/-! ## The planes of the views -/

variable {s : Yuv444} {w h : ℕ}

theorem planes_append {y u v : List UInt8} (hy : y.length = w * h) (hu : u.length = w * h / 4) :
    planes (y ++ (u ++ v)) w h = ⟨w, h, y, u, v, w, w / 2⟩ := by
  unfold planes
  dsimp only
  rw [← hu, ← hy, List.take_left, List.drop_left, List.take_left, ← List.drop_drop, List.drop_left, List.drop_left]

variable {x y n by' bx count step offset row : ℕ} {g : ℕ → UInt8} {view : View}

theorem plane_at (k : Plane) (hx : x < s.width) (hy : y < s.height) :
    (s.plane k)[y * s.width + x]? = some (sampleAt (s.plane k) s.width x y) := by
  have hlen : (s.plane k).length = s.width * s.height := by
    cases k with
    | u => exact s.length_u
    | v => exact s.length_v
  have hin : y * s.width + x < (s.plane k).length := hlen ▸ entry_lt hx hy
  unfold sampleAt
  rw [List.getD_eq_getElem?_getD, List.getElem?_eq_getElem hin, Option.getD_some]

theorem both_planes {f : List UInt8 → List UInt8} : [s.u, s.v].flatMap f = f s.u ++ f s.v := by
  rw [List.flatMap_cons, List.flatMap_cons, List.flatMap_nil, List.append_nil]

theorem quarter (hw : w % 2 = 0) (hh : h % 2 = 0) : w * h / 4 = h / 2 * (w / 2) := by
  obtain ⟨a, rfl⟩ : ∃ a, w = 2 * a := ⟨w / 2, by omega⟩
  obtain ⟨b, rfl⟩ : ∃ b, h = 2 * b := ⟨h / 2, by omega⟩
  rw [Nat.mul_div_cancel_left _ Nat.two_pos, Nat.mul_div_cancel_left _ Nat.two_pos,
    show 2 * a * (2 * b) = b * a * 4 by ring, Nat.mul_div_cancel _ (by omega)]

theorem getElem?_row (hx : x < n) : ((List.range n).map g)[x]? = some (g x) := by
  rw [List.getElem?_map, List.getElem?_range hx]
  rfl

theorem length_row : ((List.range n).map g).length = n := by
  rw [List.length_map, List.length_range]

def average (s : Yuv444) (k : Plane) (by' bx : ℕ) : UInt8 :=
  let at' (x y : ℕ) : ℕ := (sampleAt (s.plane k) s.width x y).toNat
  UInt8.ofNat (min ((at' (2 * bx) (2 * by') + at' (2 * bx + 1) (2 * by') + at' (2 * bx) (2 * by' + 1) +
    at' (2 * bx + 1) (2 * by' + 1) + 2) / 4) 255)

theorem mainView_planes (hw : s.width % 2 = 0) (hh : s.height % 2 = 0) : planes s.mainView s.width s.height =
    ⟨s.width, s.height, s.y, s.averages s.u, s.averages s.v, s.width, s.width / 2⟩ := by
  unfold Yuv444.mainView
  rw [both_planes]
  refine planes_append s.length_y ?_
  rw [quarter hw hh]
  exact length_rows fun _ _ => length_row

theorem averages_at (k : Plane) (hx : bx < s.width / 2) (hy : by' < s.height / 2) :
    (s.averages (s.plane k))[by' * (s.width / 2) + bx]? = some (average s k by' bx) := by
  unfold Yuv444.averages
  rw [entry_rows (fun _ _ => length_row) hx hy, getElem?_row hx]
  rfl

theorem length_averages (plane : List UInt8) : (s.averages plane).length = s.height / 2 * (s.width / 2) :=
  length_rows fun _ _ => length_row

/-! ## The v1 layout -/

/-- The luma plane of the v1 view so far: the odd rows that were put are where they belong. -/
def LumaHas (s : Yuv444) (n : ℕ) (luma : List UInt8) : Prop :=
  luma.length = s.width * s.height ∧ ∀ k : Plane, ∀ j < n, k.lumaRow (2 * j + 1) < s.height →
    ∀ x < s.width, luma[k.lumaRow (2 * j + 1) * s.width + x]? =
      some (sampleAt (s.plane k) s.width x (2 * j + 1))

theorem putRow_ok {luma : List UInt8} (k : Plane) {target j : ℕ} (hluma : luma.length = s.width * s.height)
    (hj : 2 * j + 1 < s.height) :
    let luma' := if target < s.height then
        (splice luma (target * s.width) (((s.plane k).drop ((2 * j + 1) * s.width)).take s.width)).getD luma
      else luma
    luma'.length = s.width * s.height ∧ ∀ y x, x < s.width → luma'[y * s.width + x]? =
      if y = target ∧ target < s.height then some (sampleAt (s.plane k) s.width x (2 * j + 1))
      else luma[y * s.width + x]? := by
  dsimp only
  split
  · next htarget =>
    have hplane : (s.plane k).length = s.width * s.height := by
      cases k with
      | u => exact s.length_u
      | v => exact s.length_v
    have hrows : (2 * j + 1) * s.width + s.width ≤ s.width * s.height := by
      rw [← Nat.succ_mul, Nat.mul_comm s.width]
      exact Nat.mul_le_mul_right _ hj
    have hlen : (((s.plane k).drop ((2 * j + 1) * s.width)).take s.width).length = s.width := by
      rw [List.length_take, List.length_drop]
      omega
    obtain ⟨luma', hsplice, hlen', hget⟩ := @entry_splice _ _ _ _ _ 0
      (((s.plane k).drop ((2 * j + 1) * s.width)).take s.width) hluma htarget (by omega)
    rw [Nat.add_zero] at hsplice
    rw [hsplice, Option.getD_some]
    refine ⟨hlen', fun y x hx => ?_⟩
    rw [hget x y hx]
    by_cases hy : y = target
    · rw [if_pos ⟨hy, Nat.zero_le _, by omega⟩, if_pos ⟨hy, htarget⟩, Nat.sub_zero,
        List.getElem?_take_of_lt hx, List.getElem?_drop, plane_at k hx hj]
    · rw [if_neg fun h => hy h.1, if_neg fun h => hy h.1]
  · next htarget =>
    refine ⟨hluma, fun y x _ => ?_⟩
    rw [if_neg fun h => htarget h.2]

theorem oddRow_ok {luma : List UInt8} {j : ℕ} (hj : 2 * j + 1 < s.height) (hluma : LumaHas s j luma) :
    LumaHas s (j + 1) (s.oddRow luma j) := by
  obtain ⟨hlen, hrows⟩ := hluma
  obtain ⟨hlen₁, hget₁⟩ := @putRow_ok s luma .u (j / 8 * 8 + j) j hlen hj
  obtain ⟨hlen₂, hget₂⟩ := @putRow_ok s _ .v (j / 8 * 8 + j + 8) j hlen₁ hj
  have hdiv : (2 * j + 1) / 2 = j := by omega
  refine ⟨hlen₂, fun k i hi htarget x hx => ?_⟩
  refine (hget₂ _ x hx).trans ?_
  unfold Plane.lumaRow at htarget ⊢
  -- Every odd row of either plane has a row of its own.
  rcases Nat.eq_or_lt_of_le (Nat.le_of_lt_succ hi) with rfl | hbefore
  · rw [hdiv] at htarget ⊢
    cases k with
    | u =>
      have hzero : Plane.u.of (0, 8) = 0 := rfl
      rw [hzero] at htarget ⊢
      exact (if_neg fun h => by omega).trans ((hget₁ _ x hx).trans (if_pos ⟨rfl, htarget⟩))
    | v => exact if_pos ⟨rfl, htarget⟩
  · have hi2 : (2 * i + 1) / 2 = i := by omega
    have hold := hrows k i hbefore htarget x hx
    unfold Plane.lumaRow at hold
    rw [hi2] at htarget hold ⊢
    have hof : k.of (0, 8) = 0 ∨ k.of (0, 8) = 8 := by
      cases k with
      | u => exact .inl rfl
      | v => exact .inr rfl
    refine (if_neg fun h => by omega).trans ((hget₁ _ x hx).trans ?_)
    exact (if_neg fun h => by omega).trans hold

def lumaV1 (s : Yuv444) : List UInt8 :=
  (List.range (s.height / 2)).foldl s.oddRow (List.replicate (s.width * s.height) 128)

theorem lumaV1_ok : LumaHas s (s.height / 2) (lumaV1 s) := by
  have hstep : ∀ n ≤ s.height / 2,
      LumaHas s n ((List.range n).foldl s.oddRow (List.replicate (s.width * s.height) 128)) := by
    intro n hn
    induction n with
    | zero => exact ⟨List.length_replicate, fun _ j hj => absurd hj (Nat.not_lt_zero j)⟩
    | succ n ih =>
      rw [List.range_succ, List.foldl_append]
      exact oddRow_ok (by omega) (ih (by omega))
  exact hstep _ le_rfl

theorem auxViewV1_planes (hw : s.width % 2 = 0) (hh : s.height % 2 = 0) : planes s.auxViewV1 s.width s.height =
    ⟨s.width, s.height, lumaV1 s, s.oddColumns s.u, s.oddColumns s.v, s.width, s.width / 2⟩ := by
  unfold Yuv444.auxViewV1
  rw [both_planes]
  refine planes_append lumaV1_ok.1 ?_
  rw [quarter hw hh]
  exact length_rows fun _ _ => length_row

theorem oddColumns_at (k : Plane) (hx : bx < s.width / 2) (hy : by' < s.height / 2) :
    (s.oddColumns (s.plane k))[by' * (s.width / 2) + bx]? =
      some (sampleAt (s.plane k) s.width (2 * bx + 1) (2 * by')) := by
  unfold Yuv444.oddColumns
  rw [entry_rows (fun _ _ => length_row) hx hy, getElem?_row hx]

/-! ## The v2 layout -/

theorem length_sideBySide : (s.sideBySide count step offset row).length = count + count := by
  unfold Yuv444.sideBySide
  rw [both_planes, List.length_append, length_row, length_row]

theorem sideBySide_at (k : Plane) (hx : x < count) : (s.sideBySide count step offset row)[k.of (0, count) + x]? = some
    (sampleAt (s.plane k) s.width (step * x + offset) row) := by
  unfold Yuv444.sideBySide
  rw [both_planes]
  cases k with
  | u =>
    show (_ ++ _)[0 + x]? = _
    rw [Nat.zero_add, List.getElem?_append_left (length_row.symm ▸ hx)]
    exact getElem?_row hx
  | v =>
    show (_ ++ _)[count + x]? = _
    rw [List.getElem?_append_right (by rw [length_row]; omega), length_row, Nat.add_sub_cancel_left]
    exact getElem?_row hx

def lumaV2 (s : Yuv444) : List UInt8 :=
  (List.range s.height).flatMap fun y => s.sideBySide (s.width / 2) 2 1 y

def chromaV2 (s : Yuv444) (offset : ℕ) : List UInt8 :=
  (List.range (s.height / 2)).flatMap fun y => s.sideBySide (s.width / 4) 4 offset (2 * y + 1)

theorem auxViewV2_planes (hw : s.width % 4 = 0) (hh : s.height % 2 = 0) : planes s.auxViewV2 s.width s.height =
    ⟨s.width, s.height, lumaV2 s, chromaV2 s 0, chromaV2 s 2, s.width, s.width / 2⟩ := by
  have hview : s.auxViewV2 = lumaV2 s ++ (chromaV2 s 0 ++ chromaV2 s 2) := by
    unfold Yuv444.auxViewV2
    rw [List.flatMap_cons, List.flatMap_cons, List.flatMap_nil, List.append_nil]
    rfl
  rw [hview]
  refine planes_append ?_ ?_
  · rw [Nat.mul_comm s.width]
    exact length_rows fun _ _ => length_sideBySide.trans (by omega)
  · rw [quarter (by omega) hh]
    exact length_rows fun _ _ => length_sideBySide.trans (by omega)

theorem lumaV2_at (hw : s.width % 2 = 0) (k : Plane) (hx : x < s.width / 2) (hy : y < s.height) :
    (lumaV2 s)[y * s.width + k.of (0, s.width / 2) + x]? = some (sampleAt (s.plane k) s.width (2 * x + 1) y) := by
  have hof : k.of (0, s.width / 2) + x < s.width := by
    cases k with
    | u => show 0 + x < s.width; omega
    | v => show s.width / 2 + x < s.width; omega
  unfold lumaV2
  rw [Nat.add_assoc, entry_rows (fun _ _ => length_sideBySide.trans (by omega)) hof hy, sideBySide_at k hx]

theorem chromaV2_at (hw : s.width % 4 = 0) (k : Plane) (hx : x < s.width / 4) (hy : y < s.height / 2) :
    (chromaV2 s offset)[y * (s.width / 2) + k.of (0, s.width / 4) + x]? = some
    (sampleAt (s.plane k) s.width (4 * x + offset) (2 * y + 1)) := by
  have hof : k.of (0, s.width / 4) + x < s.width / 2 := by
    cases k with
    | u => show 0 + x < s.width / 2; omega
    | v => show s.width / 4 + x < s.width / 2; omega
  unfold chromaV2
  rw [Nat.add_assoc, entry_rows (fun _ _ => length_sideBySide.trans (by omega)) hof hy, sideBySide_at k hx]

/-! ## Reading an auxiliary view -/

def Fits (s : Yuv444) (view : View) : Prop :=
  s.width % 4 = 0 ∧ s.height % 2 = 0 ∧ (view = .auxV1 → s.height % 16 = 0)

theorem auxSample_auxView (hview : view ≠ .main) (hfits : Fits s view) (k : Plane)
    (hx : x < s.width) (hy : y < s.height) (hav : ¬Averaged y x) : auxSample view
    (planes (s.auxView view) s.width s.height) k y x = some (sampleAt (s.plane k) s.width x y) := by
  obtain ⟨hw, hh, h16⟩ := hfits
  unfold Averaged at hav
  cases view with
  | main => exact absurd rfl hview
  | auxV1 =>
    have h16 := h16 rfl
    show auxSample .auxV1 (planes s.auxViewV1 s.width s.height) k y x = _
    rw [auxViewV1_planes (by omega) hh]
    unfold auxSample
    dsimp only
    split
    · next hodd =>
      have hj : 2 * (y / 2) + 1 = y := by omega
      have hrow := lumaV1_ok.2 k (y / 2) (by omega) ?_ x hx
      · rw [hj] at hrow
        exact hrow
      · rw [hj]
        unfold Plane.lumaRow
        have hof : k.of (0, 8) ≤ 8 := by
          cases k with
          | u => exact Nat.zero_le 8
          | v => exact le_rfl
        omega
    · next heven =>
      have hplane : k.of (s.oddColumns s.u, s.oddColumns s.v) = s.oddColumns (s.plane k) := by
        cases k <;> rfl
      rw [hplane, oddColumns_at k (by omega) (by omega), show 2 * (x / 2) + 1 = x by omega,
        show 2 * (y / 2) = y by omega]
  | auxV2 =>
    show auxSample .auxV2 (planes s.auxViewV2 s.width s.height) k y x = _
    rw [auxViewV2_planes hw hh, auxSample_v2 (show View.auxV2 ≠ .auxV1 from fun h => nomatch h)]
    dsimp only
    split
    · next hodd =>
      rw [lumaV2_at (by omega) k (by omega) hy, show 2 * (x / 2) + 1 = x by omega]
    · next heven =>
      split
      · next hfour =>
        rw [chromaV2_at hw k (by omega) (by omega), show 4 * (x / 4) + 0 = x by omega,
          show 2 * (y / 2) + 1 = y by omega]
      · next hfour =>
        rw [chromaV2_at hw k (by omega) (by omega), show 4 * (x / 4) + 2 = x by omega,
          show 2 * (y / 2) + 1 = y by omega]

theorem auxView_carries (hview : view ≠ .main) (hfits : Fits s view) {x0 x1 : ℕ} (hy : y < s.height)
    (hx1 : x1 ≤ s.width) : Carries view (planes (s.auxView view) s.width s.height) y x0 x1 := by
  refine ⟨fun k x _ hx hav => ?_, fun hv1 hodd k => ?_⟩
  · rw [auxSample_auxView hview hfits k (by omega) hy hav]
    rfl
  · subst hv1
    obtain ⟨hw, hh, h16⟩ := hfits
    have h16 := h16 rfl
    have hrow : k.lumaRow y < s.height := by
      unfold Plane.lumaRow
      have hof : k.of (0, 8) ≤ 8 := by
        cases k with
        | u => exact Nat.zero_le 8
        | v => exact le_rfl
      omega
    show _ < (planes s.auxViewV1 s.width s.height).height ∧ _ ≤ (planes s.auxViewV1 s.width s.height).y.length
    rw [auxViewV1_planes (by omega) hh]
    refine ⟨hrow, ?_⟩
    show k.lumaRow y * s.width + x1 ≤ (lumaV1 s).length
    rw [lumaV1_ok.1, Nat.mul_comm s.width]
    have hle : k.lumaRow y * s.width + s.width ≤ s.height * s.width := by
      rw [← Nat.succ_mul]
      exact Nat.mul_le_mul_right _ hrow
    omega

end Split

end Avc

end Gfx

end UwuRdp
