import UwuRdp.Core.Split

/-!
# Putting together undoes the split

A picture that was split comes back inside every region: luma and three of the four chroma samples of each
block as they were, the fourth as close as the average allows. What comes back depends on the split picture
alone, so a region is the same part of the whole, and the same view again changes nothing. Whatever the
decoder hands over, no index is out of range.
-/

namespace UwuRdp

open Lib.Raster

namespace Gfx

namespace Avc

/-- A picture a surface may have: what any decoded pictures leave of the first one. -/
inductive Kept : Yuv444 → Prop where
  | default : Kept .default
  | decoded {p q : Yuv444} (hp : Kept p) (yuv : Yuv420) (view : View) (rectangles : List Edges) (dest : Rect)
      (h : p.decoded yuv view rectangles dest = some q) : Kept q

/-! ## No index is out of range -/

/-- A picture's width or height as a rectangle has it. -/
def edge (n : ℕ) : UInt16 := UInt16.ofNat (min n 65535)

theorem inside_clip (r : Rect) (w h : ℕ) : Inside (r.clip (edge w) (edge h)) w h := by
  have hle : ∀ n, (edge n).toNat ≤ n := by
    intro n
    unfold edge
    rw [UInt16.toNat_ofNat_of_lt' (Nat.lt_of_le_of_lt (Nat.min_le_right _ _) (by decide))]
    exact Nat.min_le_left _ _
  obtain ⟨hwide, hhigh⟩ := @Rect.clip_le r (edge w) (edge h)
  exact ⟨hwide.trans (hle w), hhigh.trans (hle h)⟩

theorem inside_of_regions {rectangles : List Edges} {dest r : Rect} {w h : ℕ}
    (hr : r ∈ regions rectangles dest w h) : Inside r w h := by
  obtain ⟨r₀, _, rfl⟩ := List.mem_map.mp (List.mem_filter.mp hr).1
  exact inside_clip r₀ w h

theorem combine_ok {p : Yuv444} (hp : p.Whole) (yuv : Yuv420) (view : View) {r : Rect}
    (hr : Inside r p.width p.height) :
    ∃ q, combine yuv view p r = some q ∧ q.Whole ∧ q.width = p.width ∧ q.height = p.height := by
  have haux : ∀ view, ∃ q, combineAux p yuv r view = some q ∧ q.Whole ∧ q.width = p.width ∧ q.height = p.height := by
    intro view
    obtain ⟨c, hrun, hc, _⟩ := @combineAux_ok p yuv view r hp hr
    exact ⟨_, hrun, ⟨hp.y, hc, hp.chromaWidth, hp.main⟩, rfl, rfl⟩
  cases view with
  | main =>
    obtain ⟨q, hrun, htaken⟩ := @combineMain_ok p yuv r hp hr
    exact ⟨q, hrun, htaken.whole, htaken.width, htaken.height⟩
  | auxV1 => exact haux .auxV1
  | auxV2 => exact haux .auxV2

theorem decoded_ok {p : Yuv444} (hp : p.Whole) (yuv : Yuv420) (view : View) (rectangles : List Edges)
    (dest : Rect) : ∃ q, p.decoded yuv view rectangles dest = some q ∧ q.Whole := by
  obtain ⟨hwhole, hwidth, hheight⟩ := Yuv444.whole_ensure hp yuv.width yuv.height
  obtain ⟨q, hrun, hq, _⟩ := @foldlM_keeps Yuv444 Rect
    (fun q => q.Whole ∧ q.width = yuv.width ∧ q.height = yuv.height) (combine yuv view)
    (regions rectangles dest yuv.width yuv.height) _ ⟨hwhole, hwidth, hheight⟩ fun r q hr ⟨hq, hw, hh⟩ => by
      obtain ⟨q', hrun, hq', hw', hh'⟩ := combine_ok hq yuv view (show Inside r q.width q.height from
        hw ▸ hh ▸ inside_of_regions hr)
      exact ⟨q', hrun, hq', hw'.trans hw, hh'.trans hh⟩
  exact ⟨q, hrun, hq⟩

theorem Kept.whole {p : Yuv444} (hp : Kept p) : p.Whole := by
  induction hp with
  | default => exact Yuv444.whole_default
  | decoded hp yuv view rectangles dest h ih =>
    obtain ⟨q, hrun, hq⟩ := decoded_ok ih yuv view rectangles dest
    obtain rfl : q = _ := Option.some.inj (hrun.symm.trans h)
    exact hq

/-! ## The fourth sample -/

theorem toNat_clip (value : ℤ) : (clip value).toNat = (max 0 (min value 255)).toNat := by
  unfold clip
  exact UInt8.toNat_ofNat_of_lt' (show _ < 256 by omega)

def distance (a b : UInt8) : ℕ := max a.toNat b.toNat - min a.toNat b.toNat

theorem conditionalClip_close {value : ℤ} {original a : UInt8} (hlow : (a.toNat : ℤ) - 1 ≤ value)
    (hhigh : value ≤ a.toNat + 2) : distance (conditionalClip value original) a ≤ filterThreshold + 1 := by
  have ha : a.toNat < 256 := a.toNat_lt
  have hclipped : (clip value).toNat ≤ a.toNat + 2 ∧ a.toNat ≤ (clip value).toNat + 1 := by
    rw [toNat_clip]
    omega
  unfold conditionalClip distance filterThreshold
  dsimp only
  split <;> omega

/-- The top-left sample the split of a picture comes back with. -/
def restored (s : Split.Yuv444) (k : Plane) (by' bx : ℕ) : UInt8 :=
  let at' (x y : ℕ) : ℕ := (Split.sampleAt (s.plane k) s.width x y).toNat
  conditionalClip (4 * ((Split.average s k by' bx).toNat : ℤ) -
    (at' (2 * bx + 1) (2 * by') + at' (2 * bx) (2 * by' + 1) + at' (2 * bx + 1) (2 * by' + 1)))
    (Split.average s k by' bx)

theorem restored_close (s : Split.Yuv444) (k : Plane) (by' bx : ℕ) : distance (restored s k by' bx)
    (Split.sampleAt (s.plane k) s.width (2 * bx) (2 * by')) ≤ filterThreshold + 1 := by
  have havg : (Split.average s k by' bx).toNat = ((Split.sampleAt (s.plane k) s.width (2 * bx) (2 * by')).toNat +
        (Split.sampleAt (s.plane k) s.width (2 * bx + 1) (2 * by')).toNat +
        (Split.sampleAt (s.plane k) s.width (2 * bx) (2 * by' + 1)).toNat +
        (Split.sampleAt (s.plane k) s.width (2 * bx + 1) (2 * by' + 1)).toNat + 2) / 4 := by
    have hlt : ∀ x y, (Split.sampleAt (s.plane k) s.width x y).toNat < 256 := fun x y => UInt8.toNat_lt _
    have h₀ := hlt (2 * bx) (2 * by')
    have h₁ := hlt (2 * bx + 1) (2 * by')
    have h₂ := hlt (2 * bx) (2 * by' + 1)
    have h₃ := hlt (2 * bx + 1) (2 * by' + 1)
    unfold Split.average
    dsimp only
    refine (UInt8.toNat_ofNat_of_lt' (Nat.lt_of_le_of_lt (Nat.min_le_right _ _) (by decide))).trans ?_
    exact Nat.min_eq_left (by omega)
  unfold restored
  dsimp only
  refine conditionalClip_close ?_ ?_
  · rw [havg]
    omega
  · rw [havg]
    omega

/-! ## Both views of a split picture -/

/-- The main view, then the auxiliary one, inside one region. -/
def recombine (p : Yuv444) (s : Split.Yuv444) (view : View) (r : Rect) : Option Yuv444 := do
  let p ← combine (Split.planes s.mainView s.width s.height) .main p r
  combine (Split.planes (s.auxView view) s.width s.height) view p r

/-- What a picture has of a split one in a region: everything is determined by the split picture. -/
structure Carried (s : Split.Yuv444) (r : Rect) (q : Yuv444) : Prop where
  luma : ∀ x y, r.Has x y → q.y[y * s.width + x]? = s.y[y * s.width + x]?
  exact : ∀ k x y, r.Has x y → ¬Averaged y x → (q.chroma.plane k)[y * s.width + x]? = (s.plane k)[y * s.width + x]?
  fourth : ∀ k x y, r.Has x y → Averaged y x →
    (q.chroma.plane k)[y * s.width + x]? = some (restored s k (y / 2) (x / 2))

variable {s : Split.Yuv444} {view : View} {p : Yuv444} {r : Rect}

theorem combineAux_again {q : Yuv444} {yuv : Yuv420} (hp : p.Whole) (hr : Inside r p.width p.height)
    (hw : p.width % 2 = 0) (hh : p.height % 2 = 0)
    (hcarries : ∀ y x0 x1, y < p.height → x1 ≤ p.width → Carries view yuv y x0 x1)
    (hq : combineAux p yuv r view = some q) : combineAux q yuv r view = some q := by
  obtain ⟨c, hrun, hc, hexact⟩ := @combineAux_ok p yuv view r hp hr
  have hfirst := hexact fun y _ hy => hcarries y _ _ (by omega) (Nat.min_le_right _ _)
  obtain rfl : q = { p with chroma := c } := Option.some.inj (hq.symm.trans hrun)
  obtain ⟨c', hrun', hc', hexact'⟩ := @combineAux_ok { p with chroma := c } yuv view r
    ⟨hp.y, hc, hp.chromaWidth, hp.main⟩ hr
  have hsecond := hexact' fun y _ hy => hcarries y _ _ (hy.trans_le (Nat.min_le_right _ _)) (Nat.min_le_right _ _)
  have hsame : ∀ k, c'.plane k = c.plane k := by
    refine fun k => ext_entries (hc' k) (hc k) fun x y (hx : x < p.width) (hy : y < p.height) => ?_
    by_cases htouched : Touched r y x
    · by_cases hav : Averaged y x
      · have hx2 : 2 * (x / 2) = x := by unfold Averaged at hav; omega
        have hy2 : 2 * (y / 2) = y := by unfold Averaged at hav; omega
        have h₁ := hfirst.fourth k (y / 2) (x / 2) (by omega) (by omega) (by rwa [hx2, hy2])
        have h₂ := hsecond.fourth k (y / 2) (x / 2) (show _ < p.width by omega) (show _ < p.height by omega)
          (by rwa [hx2, hy2])
        rw [hx2, hy2] at h₁ h₂
        exact h₂.trans h₁.symm
      · exact (hsecond.exact k x y hx hy htouched hav).trans (hfirst.exact k x y hx hy htouched hav).symm
    · exact hsecond.kept k x y hx hy htouched
  have heq : c' = c := by
    have hu := hsame .u
    have hv := hsame .v
    cases c'
    cases c
    exact congrArg₂ Chroma.mk hu hv
  rw [hrun', heq]

theorem recombine_ok (hview : view ≠ .main) (hfits : Split.Fits s view) (hp : p.Whole) (hwidth : p.width = s.width)
    (hheight : p.height = s.height) (hr : Inside r s.width s.height) : ∃ q, recombine p s view r = some q ∧ Carried s
    r q ∧ combine (Split.planes (s.auxView view) s.width s.height) view q r = some q := by
  have hw := hfits.1
  have hh := hfits.2.1
  obtain ⟨p₁, hmain, htaken⟩ := @combineMain_ok p (Split.planes s.mainView s.width s.height) r hp
    (hwidth ▸ hheight ▸ hr)
  have hw₁ : p₁.width = s.width := htaken.width.trans hwidth
  have hh₁ : p₁.height = s.height := htaken.height.trans hheight
  have hr₁ : Inside r p₁.width p₁.height := hw₁ ▸ hh₁ ▸ hr
  have hcw : p₁.chromaWidth = s.width / 2 := by
    rw [htaken.whole.chromaWidth, hw₁]
    omega
  have hplanes := Split.mainView_planes (s := s) (by omega) hh
  have hcarries : ∀ y x0 x1, y < p₁.height → x1 ≤ p₁.width →
      Carries view (Split.planes (s.auxView view) s.width s.height) y x0 x1 :=
    fun y x0 x1 hy hx1 => Split.auxView_carries hview hfits (hh₁ ▸ hy) (hw₁ ▸ hx1)
  obtain ⟨c, haux, hc, hexact⟩ := @combineAux_ok p₁ (Split.planes (s.auxView view) s.width s.height) view r
    htaken.whole hr₁
  have hrecombined := hexact fun y _ hy => hcarries y _ _ (by omega) (Nat.min_le_right _ _)
  have hcombine : ∀ p, combine (Split.planes (s.auxView view) s.width s.height) view p r =
      combineAux p (Split.planes (s.auxView view) s.width s.height) r view := by
    intro p
    cases view with
    | main => exact absurd rfl hview
    | auxV1 | auxV2 => rfl
  obtain ⟨hwide, hhigh⟩ := hr
  have hin : ∀ {x y}, r.Has x y → x < s.width ∧ y < s.height ∧ Touched r y x := by
    intro x y hxy
    unfold Rect.Has Rect.right Rect.bottom at hxy
    unfold Touched
    omega
  refine ⟨{ p₁ with chroma := c }, ?_, ⟨fun x y hxy => ?_, fun k x y hxy hav => ?_, fun k x y hxy hav => ?_⟩, ?_⟩
  · exact (bind_of_some hmain).trans ((hcombine p₁).trans haux)
  · obtain ⟨hx, hy, _⟩ := hin hxy
    obtain ⟨hx₀, hx₁, hy₀, hy₁⟩ := hxy
    have hluma := htaken.luma y hy₀ hy₁
    rw [hplanes, hwidth] at hluma
    refine hluma ?_ x hx₀ hx₁
    show y * s.width + (r.x.toNat + r.w.toNat) ≤ s.y.length
    rw [s.length_y, Nat.mul_comm s.width]
    have hle : y * s.width + s.width ≤ s.height * s.width := by
      rw [← Nat.succ_mul]
      exact Nat.mul_le_mul_right _ hy
    omega
  · obtain ⟨hx, hy, htouched⟩ := hin hxy
    have hat := hrecombined.exact k x y (hw₁ ▸ hx) (hh₁ ▸ hy) htouched hav
    rw [hw₁, Split.auxSample_auxView hview hfits k hx hy hav] at hat
    rw [Split.plane_at k hx hy]
    exact hat
  · obtain ⟨hx, hy, htouched⟩ := hin hxy
    have hx2 : 2 * (x / 2) = x := by unfold Averaged at hav; omega
    have hy2 : 2 * (y / 2) = y := by unfold Averaged at hav; omega
    -- The average of the block is the split picture's.
    have haverage : (p₁.main.plane k)[y / 2 * p₁.chromaWidth + x / 2]? = some (Split.average s k (y / 2) (x / 2)) := by
      have hmainRow := htaken.main (y / 2) htouched.2.2.1 htouched.2.2.2
      rw [hplanes, ← htaken.chromaWidth] at hmainRow
      refine (hmainRow (fun k => ?_) k (x / 2) htouched.1 htouched.2.1).trans ?_
      · have hlen : (k.of (s.averages s.u, s.averages s.v)).length = s.height / 2 * (s.width / 2) := by
          cases k with
          | u => exact Split.length_averages s.u
          | v => exact Split.length_averages s.v
        show y / 2 * (s.width / 2) + _ ≤ (k.of (s.averages s.u, s.averages s.v)).length
        rw [hlen]
        have hle : y / 2 * (s.width / 2) + s.width / 2 ≤ s.height / 2 * (s.width / 2) := by
          rw [← Nat.succ_mul]
          exact Nat.mul_le_mul_right _ (by omega)
        omega
      · show (k.of (s.averages s.u, s.averages s.v))[y / 2 * (s.width / 2) + x / 2]? = _
        have hof : k.of (s.averages s.u, s.averages s.v) = s.averages (s.plane k) := by
          cases k <;> rfl
        rw [hof]
        exact Split.averages_at k (by omega) (by omega)
    have hat := hrecombined.fourth k (y / 2) (x / 2) (by omega) (by omega) (by rwa [hx2, hy2])
    have hsample : ∀ {x y}, x < s.width → y < s.height → ¬Averaged y x →
        auxSample view (Split.planes (s.auxView view) s.width s.height) k y x =
          some (Split.sampleAt (s.plane k) s.width x y) :=
      fun hx hy hav => Split.auxSample_auxView hview hfits k hx hy hav
    unfold Avc.fourth at hat
    rw [haverage, hsample (by omega) (by omega) (by unfold Averaged; omega),
      hsample (by omega) (by omega) (by unfold Averaged; omega),
      hsample (by omega) (by omega) (by unfold Averaged; omega), hx2, hy2, hw₁] at hat
    unfold restored
    rw [hx2, hy2]
    exact hat
  · exact (hcombine _).trans (combineAux_again htaken.whole hr₁ (by omega) (by omega) hcarries haux)

/-! ## The result -/

/-- What a picture has of a split one in a region: luma and three of four chroma samples as they were, the
fourth within the threshold and one. -/
structure Restores (s : Split.Yuv444) (r : Rect) (q : Yuv444) : Prop where
  luma : ∀ x y, r.Has x y → ∃ a, q.y[y * s.width + x]? = some a ∧ s.y[y * s.width + x]? = some a
  exact : ∀ k x y, r.Has x y → ¬Averaged y x →
    ∃ a, (q.chroma.plane k)[y * s.width + x]? = some a ∧ (s.plane k)[y * s.width + x]? = some a
  fourth : ∀ k x y, r.Has x y → Averaged y x →
    ∃ a b, (q.chroma.plane k)[y * s.width + x]? = some a ∧ (s.plane k)[y * s.width + x]? = some b ∧
      distance a b ≤ filterThreshold + 1

theorem Carried.restores {q : Yuv444} (hq : Carried s r q) (hr : Inside r s.width s.height) : Restores s r q := by
  obtain ⟨hwide, hhigh⟩ := hr
  have hin : ∀ {x y}, r.Has x y → x < s.width ∧ y < s.height := by
    intro x y hxy
    unfold Rect.Has Rect.right Rect.bottom at hxy
    omega
  refine ⟨fun x y hxy => ?_, fun k x y hxy hav => ?_, fun k x y hxy hav => ?_⟩
  · obtain ⟨hx, hy⟩ := hin hxy
    have hlt : y * s.width + x < s.y.length := s.length_y ▸ entry_lt hx hy
    exact ⟨_, (hq.luma x y hxy).trans (List.getElem?_eq_getElem hlt), List.getElem?_eq_getElem hlt⟩
  · obtain ⟨hx, hy⟩ := hin hxy
    exact ⟨_, (hq.exact k x y hxy hav).trans (Split.plane_at k hx hy), Split.plane_at k hx hy⟩
  · obtain ⟨hx, hy⟩ := hin hxy
    have hx2 : 2 * (x / 2) = x := by unfold Averaged at hav; omega
    have hy2 : 2 * (y / 2) = y := by unfold Averaged at hav; omega
    refine ⟨_, _, hq.fourth k x y hxy hav, Split.plane_at k hx hy, ?_⟩
    have hclose := restored_close s k (y / 2) (x / 2)
    rwa [hx2, hy2] at hclose

/-- Two pictures have the same samples where two regions meet. -/
def Agree (width : ℕ) (r r' : Rect) (q q' : Yuv444) : Prop :=
  ∀ x y, r.Has x y → r'.Has x y → q.y[y * width + x]? = q'.y[y * width + x]? ∧
    ∀ k, (q.chroma.plane k)[y * width + x]? = (q'.chroma.plane k)[y * width + x]?

theorem Carried.agree {r' : Rect} {q q' : Yuv444} (hq : Carried s r q) (hq' : Carried s r' q') :
    Agree s.width r r' q q' := by
  intro x y hr hr'
  refine ⟨(hq.luma x y hr).trans (hq'.luma x y hr').symm, fun k => ?_⟩
  by_cases hav : Averaged y x
  · exact (hq.fourth k x y hr hav).trans (hq'.fourth k x y hr' hav).symm
  · exact (hq.exact k x y hr hav).trans (hq'.exact k x y hr' hav).symm

/-- Putting a split picture together inside a region of it restores the region, whatever the surface had
before: the same as in every other region that has it, the whole picture's among them, and the auxiliary
view again changes nothing. No picture, region or view makes an index go out of range. -/
theorem recombination_restores :
    (∀ (s : Split.Yuv444) (view : View), view ≠ .main → Split.Fits s view →
      ∀ p r, Kept p → Inside r s.width s.height →
        ∃ q, recombine (p.ensure s.width s.height) s view r = some q ∧ Restores s r q ∧
          (∀ p' r', Kept p' → Inside r' s.width s.height →
            ∃ q', recombine (p'.ensure s.width s.height) s view r' = some q' ∧ Agree s.width r r' q q') ∧
          combine (Split.planes (s.auxView view) s.width s.height) view q r = some q) ∧
    (∀ p, Kept p → ∀ (w h : ℕ) (yuv : Yuv420) (r : Rect),
      (combineMain (p.ensure w h) yuv (r.clip (edge w) (edge h))).isSome ∧
        ∀ view, (combineAux (p.ensure w h) yuv (r.clip (edge w) (edge h)) view).isSome) := by
  refine ⟨fun s view hview hfits p r hp hr => ?_, fun p hp w h yuv r => ?_⟩
  · have hany : ∀ p r, Kept p → Inside r s.width s.height → ∃ q,
        recombine (p.ensure s.width s.height) s view r = some q ∧ Carried s r q ∧
          combine (Split.planes (s.auxView view) s.width s.height) view q r = some q := by
      intro p r hp hr
      obtain ⟨hwhole, hwidth, hheight⟩ := Yuv444.whole_ensure hp.whole s.width s.height
      exact recombine_ok hview hfits hwhole hwidth hheight hr
    obtain ⟨q, hrun, hcarried, hagain⟩ := hany p r hp hr
    refine ⟨q, hrun, hcarried.restores hr, fun p' r' hp' hr' => ?_, hagain⟩
    obtain ⟨q', hrun', hcarried', _⟩ := hany p' r' hp' hr'
    exact ⟨q', hrun', hcarried.agree hcarried'⟩
  · obtain ⟨hwhole, hwidth, hheight⟩ := Yuv444.whole_ensure hp.whole w h
    have hr : Inside (r.clip (edge w) (edge h)) (p.ensure w h).width (p.ensure w h).height := by
      rw [hwidth, hheight]
      exact inside_clip r w h
    obtain ⟨q, hmain, _⟩ := @combineMain_ok _ yuv _ hwhole hr
    refine ⟨Option.isSome_iff_exists.mpr ⟨q, hmain⟩, fun view => ?_⟩
    obtain ⟨c, haux, _⟩ := @combineAux_ok _ yuv view _ hwhole hr
    exact Option.isSome_iff_exists.mpr ⟨_, haux⟩

/-- Four columns of two rows, sharp in both chroma planes. -/
def stripes : Split.Yuv444 where
  width := 4
  height := 2
  y := [10, 20, 30, 40, 50, 60, 70, 80]
  u := [200, 30, 200, 30, 90, 90, 10, 250]
  v := [0, 255, 0, 255, 255, 0, 128, 128]
  length_y := rfl
  length_u := rfl
  length_v := rfl

/-- A region that starts and ends within blocks. -/
theorem stripes_restored : ∃ q, recombine (Yuv444.default.ensure 4 2) stripes .auxV2 ⟨1, 0, 2, 2⟩ = some q ∧
    Restores stripes ⟨1, 0, 2, 2⟩ q ∧ combine (Split.planes stripes.auxViewV2 4 2) .auxV2 q ⟨1, 0, 2, 2⟩ = some q := by
  obtain ⟨q, hrun, hrestores, _, hagain⟩ := recombination_restores.1 stripes .auxV2 (by decide)
    ⟨rfl, rfl, fun h => nomatch h⟩ .default ⟨1, 0, 2, 2⟩ .default (by unfold Inside; decide)
  exact ⟨q, hrun, hrestores, hagain⟩

end Avc

end Gfx

end UwuRdp
