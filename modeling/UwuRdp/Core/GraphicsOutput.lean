import UwuRdp.Core.GraphicsBounds
import UwuRdp.Lib.Steps

/-!
# What the output shows

The output shows the mapped surfaces where they are mapped, but for what waits for the end of a frame,
and the dirty rectangles cover what changed on it. This holds along every run in which no surface is
drawn on that reaches past the 32-bit positions, and no RemoteFX payload fails after it was partly drawn:
there the rectangles drawn so far are dropped with the error, and the output keeps what was there before.
-/

namespace UwuRdp

open Lib Lib.Raster Lib.Steps

namespace Gfx

def Pdu.target : Pdu → Option UInt16
  | .wireToSurface1 id _ _ => some id
  | .wireToSurface2 id _ => some id
  | .solidFill id _ _ _ _ => some id
  | .surfaceToSurface _ destination _ _ => some destination
  | .cacheToSurface _ id _ => some id
  | _ => none

namespace Pipeline

def Covers (s : Pipeline) (id : UInt16) (px py : ℕ) : Prop :=
  ∃ surface ox oy, s.surfaces.get? id = some surface ∧ surface.origin = some (ox, oy) ∧
    (ox.toNat ≤ px ∧ px < ox.toNat + surface.pixels.width.toNat) ∧
    oy.toNat ≤ py ∧ py < oy.toNat + surface.pixels.height.toNat

def NoOverlap (s : Pipeline) : Prop :=
  ∀ output, s.output = some output → ∀ i j px py, px < output.width.toNat → py < output.height.toNat →
    s.Covers i px py → s.Covers j px py → i = j

/-- The output shows every mapped surface, except maybe some pixels of it. -/
def ShowsBut (s : Pipeline) (P : UInt16 → ℕ → ℕ → Prop) : Prop :=
  ∀ output id surface ox oy x y, s.output = some output → s.surfaces.get? id = some surface →
    surface.origin = some (ox, oy) → x < surface.pixels.width.toNat → y < surface.pixels.height.toNat →
    ox.toNat + x < output.width.toNat → oy.toNat + y < output.height.toNat →
    P id x y ∨ output.pixel (ox.toNat + x) (oy.toNat + y) = surface.pixels.pixel x y

def Shows (s : Pipeline) : Prop := s.ShowsBut fun _ _ _ => False

/-- A pixel of a surface waits for the end of the frame. -/
def Waits (s : Pipeline) (id : UInt16) (x y : ℕ) : Prop :=
  ∃ region, s.pending.get? id = some region ∧ DirtyRegion.Has region x y

def InReach (s : Pipeline) (id : UInt16) : Prop :=
  ∀ surface ox oy, s.surfaces.get? id = some surface → surface.origin = some (ox, oy) →
    ox.toNat + surface.pixels.width.toNat ≤ 2 ^ 32 ∧ oy.toNat + surface.pixels.height.toNat ≤ 2 ^ 32

/-- A surface whose updates a message brings to the output. -/
def Brings (s : Pipeline) (pdu : Pdu) (id : UInt16) : Prop :=
  match pdu with
  | .endFrame _ => s.pending.get? id ≠ none
  | pdu => s.inFrame = false ∧ pdu.target = some id

/-- No update fails after it changed a mapped surface. -/
def FailsWhole (s : Pipeline) : Pdu → Prop
  | .wireToSurface1 id destination payload => ∀ surface p', s.surfaces.get? id = some surface →
      surface.origin ≠ none → s.payloadOn destination.rect payload surface.pixels = some (p', none) →
      p' = surface.pixels
  | _ => True

def Clean (s : Pipeline) : Call → Prop
  | .handle pdu => (∀ id, s.Brings pdu id → s.InReach id) ∧ s.FailsWhole pdu
  | .takeChanges => True

end Pipeline

/-- A pipeline, and the output when the changes were last taken. -/
structure Watched where
  pipeline : Pipeline
  seen : Option Pixels

namespace Watched

def new (h264 : Bool) : Watched := ⟨.new h264, none⟩

def step (w : Watched) (c : Pipeline.Call) : Watched :=
  match w.pipeline.call c with
  | none => w
  | some s =>
    ⟨s, match c with
      | .takeChanges => s.output
      | .handle _ => w.seen⟩

/-- What changed on the output since is in the dirty rectangles, or it has another size now. -/
def Recorded (w : Watched) : Prop :=
  w.pipeline.resized ≠ none ∨ ∀ output, w.pipeline.output = some output → ∃ seen, w.seen = some seen ∧
    Pixels.ChangesOnly (DirtyRegion.Has w.pipeline.outputDirty) seen output

def Quiet (w : Watched) (c : Pipeline.Call) : Prop :=
  w.pipeline.inFrame = true → (∀ frameId, c ≠ .handle (.endFrame frameId)) →
    (∀ width height, c ≠ .handle (.resetGraphics width height)) →
    (w.step c).pipeline.inFrame = true ∧ (w.step c).pipeline.output = w.pipeline.output

end Watched

namespace Pipeline

variable {s s' s'' : Pipeline} {id : UInt16} {rect : Rect} {P Q : UInt16 → ℕ → ℕ → Prop} {pdu : Pdu}

/-! ## Invariants -/

def PendingWithin (s : Pipeline) : Prop :=
  ∀ id region, s.pending.get? id = some region → DirtyRegion.Within region 65535 65535

/-- What changed on the output was added to the dirty rectangles. -/
structure Records (s s' : Pipeline) : Prop where
  resized : s'.resized = s.resized
  dirty : ∀ x y, DirtyRegion.Has s.outputDirty x y → DirtyRegion.Has s'.outputDirty x y
  none : s.output = none → s'.output = none
  changes : ∀ output, s.output = some output → ∃ output', s'.output = some output' ∧
    Pixels.ChangesOnly (DirtyRegion.Has s'.outputDirty) output output'

/-- Areas were shown. -/
structure Composed (s s' : Pipeline) : Prop where
  redrawn : Redrawn s s'
  records : Records s s'
  pending : s'.pending = s.pending
  inFrame : s'.inFrame = s.inFrame

/-- Areas were shown, or put off to the end of the frame. -/
structure Touched (s s' : Pipeline) : Prop where
  redrawn : Redrawn s s'
  records : Records s s'
  within : PendingWithin s → PendingWithin s'
  closed : s.inFrame = false → s'.pending = s.pending
  inFrame : s'.inFrame = s.inFrame
  still : s.inFrame = true → s'.output = s.output

theorem ShowsBut.mono (h : s.ShowsBut P)
    (hpq : ∀ id surface x y, s.surfaces.get? id = some surface → surface.origin ≠ none →
      x < surface.pixels.width.toNat → y < surface.pixels.height.toNat → P id x y → Q id x y) :
    s.ShowsBut Q := by
  intro output id surface ox oy x y hout hget horigin hx hy hpx hpy
  have hmapped : surface.origin ≠ none := by
    rw [horigin]
    exact Option.some_ne_none _
  exact (h output id surface ox oy x y hout hget horigin hx hy hpx hpy).imp_left
    (hpq id surface x y hget hmapped hx hy)

theorem ShowsBut.same (h : s.ShowsBut P) (hout : s'.output = s.output)
    (hsurfaces : s'.surfaces = s.surfaces) : s'.ShowsBut P := by
  unfold ShowsBut
  rw [hout, hsurfaces]
  exact h

theorem Records.same (hs : s.Bounded) (hout : s'.output = s.output)
    (hdirty : s'.outputDirty = s.outputDirty) (hresized : s'.resized = s.resized) : Records s s' where
  resized := hresized
  dirty _ _ h := hdirty ▸ h
  none h := hout.trans h
  changes output h := ⟨output, hout.trans h, .refl (hs.output output h)⟩

theorem Records.trans (h : Records s s') (h' : Records s' s'') : Records s s'' where
  resized := h'.resized.trans h.resized
  dirty x y hin := h'.dirty x y (h.dirty x y hin)
  none hnone := h'.none (h.none hnone)
  changes output hout := by
    obtain ⟨output', hout', hchanges⟩ := h.changes output hout
    obtain ⟨output'', hout'', hchanges'⟩ := h'.changes output' hout'
    refine ⟨output'', hout'', (hchanges.trans hchanges').mono fun x y hin => ?_⟩
    exact hin.elim (h'.dirty x y) id

theorem Composed.refl (hs : s.Bounded) : Composed s s := ⟨.refl, .same hs rfl rfl rfl, rfl, rfl⟩

theorem Composed.trans (h : Composed s s') (h' : Composed s' s'') : Composed s s'' where
  redrawn := h.redrawn.trans h'.redrawn
  records := h.records.trans h'.records
  pending := h'.pending.trans h.pending
  inFrame := h'.inFrame.trans h.inFrame

theorem Touched.refl (hs : s.Bounded) : Touched s s :=
  ⟨.refl, .same hs rfl rfl rfl, fun h => h, fun _ => rfl, rfl, fun _ => rfl⟩

theorem Touched.trans (h : Touched s s') (h' : Touched s' s'') : Touched s s'' where
  redrawn := h.redrawn.trans h'.redrawn
  records := h.records.trans h'.records
  within hw := h'.within (h.within hw)
  closed hc := (h'.closed (h.inFrame.trans hc)).trans (h.closed hc)
  inFrame := h'.inFrame.trans h.inFrame
  still hf := (h'.still (h.inFrame.trans hf)).trans (h.still hf)

theorem NoOverlap.of_size (h : s'.NoOverlap) (hsurfaces : s.surfaces = s'.surfaces)
    (hsize : s.size = s'.size) : s.NoOverlap := by
  intro output hout i j px py hpx hpy hi hj
  unfold size at hsize
  rw [hout] at hsize
  obtain ⟨output', hout', hdims⟩ := Option.map_eq_some_iff.mp hsize.symm
  obtain ⟨hw, hh⟩ := Prod.mk.inj hdims
  unfold Covers at hi hj
  rw [hsurfaces] at hi hj
  exact h output' hout' i j px py (hw ▸ hpx) (hh ▸ hpy) hi hj

theorem NoOverlap.before (h : s'.NoOverlap) (hr : Redrawn s s') : s.NoOverlap :=
  h.of_size hr.surfaces.symm hr.size.symm

theorem NoOverlap.after (h : s.NoOverlap) (hr : Redrawn s s') : s'.NoOverlap :=
  h.of_size hr.surfaces hr.size

/-! ## Showing an area -/

def Lands (s : Pipeline) (id : UInt16) (rect : Rect) : Prop :=
  ∀ surface ox oy x y, s.surfaces.get? id = some surface → surface.origin = some (ox, oy) →
    rect.Has x y → x < surface.pixels.width.toNat → y < surface.pixels.height.toNat →
    ox.toNat + rect.x.toNat < 2 ^ 32 ∧ oy.toNat + rect.y.toNat < 2 ^ 32

theorem InReach.lands (h : s.InReach id) (rect : Rect) : s.Lands id rect := by
  intro surface ox oy x y hget horigin hin hx hy
  obtain ⟨hright, hbottom⟩ := h surface ox oy hget horigin
  rw [Rect.has_iff] at hin
  omega

theorem toNat_add_offset {a : UInt32} {b : UInt16} (h : a.toNat + b.toNat < 2 ^ 32) :
    (a + UInt32.ofNat b.toNat).toNat = a.toNat + b.toNat := by
  have hb := b.toNat_lt
  rw [UInt32.toNat_add, UInt32.toNat_ofNat_of_lt' (show b.toNat < 2 ^ 32 by omega), Nat.mod_eq_of_lt h]

theorem blit_shows {output pixels p' : Pixels} {done part : Rect} {ox oy : UInt32} {px py : UInt16}
    (hout : output.Valid) (hpixels : pixels.Valid)
    (hplace : ∀ x y, part.Has x y → px.toNat = ox.toNat + part.x.toNat ∧ py.toNat = oy.toNat + part.y.toNat)
    (hblit : output.blit pixels part px py = some (p', done)) :
    Pixels.ChangesOnly done.Has output p' ∧
      (∀ m n, done.Has m n → ∃ x y, m = ox.toNat + x ∧ n = oy.toNat + y ∧ part.Has x y ∧
        p'.pixel m n = pixels.pixel x y) ∧
      ∀ x y, x < pixels.width.toNat → y < pixels.height.toNat → part.Has x y →
        ox.toNat + x < output.width.toNat → oy.toNat + y < output.height.toNat →
        done.Has (ox.toNat + x) (oy.toNat + y) := by
  obtain ⟨other, done', hblit', hchanges, -, -, hdone, hall⟩ := Pixels.blit_ok hout hpixels part px py
  cases hblit'.symm.trans hblit
  refine ⟨hchanges, fun m n hin => ?_, fun x y hx hy hin hm hn => ?_⟩
  · obtain ⟨hleft, htop, hpart, hpixel⟩ := hdone m n hin
    obtain ⟨hpx, hpy⟩ := hplace _ _ hpart
    exact ⟨_, _, by omega, by omega, hpart, hpixel⟩
  · obtain ⟨hpx, hpy⟩ := hplace x y hin
    have hnum := Rect.has_iff.mp hin
    have h := hall x y hx hy hin (by omega) (by omega)
    rw [hpx, hpy, show ox.toNat + part.x.toNat + (x - part.x.toNat) = ox.toNat + x by omega,
      show oy.toNat + part.y.toNat + (y - part.y.toNat) = oy.toNat + y by omega] at h
    exact h

theorem compose_shows (hs : s.Bounded) (h : s.compose id rect = some s') (hlands : s.Lands id rect)
    (hone : s.NoOverlap) (hshown : s.ShowsBut P) :
    Composed s s' ∧ s'.ShowsBut fun i x y => P i x y ∧ ¬(i = id ∧ rect.Has x y) := by
  unfold compose at h
  split at h
  · next output surface hout hsurface =>
    have hvalid := hs.stored.valid id surface hsurface
    split at h
    · next horigin =>
      cases h
      refine ⟨.refl hs, hshown.mono fun i other x y hi hmapped _ _ hp => ⟨hp, ?_⟩⟩
      rintro ⟨rfl, -⟩
      rw [hsurface] at hi
      cases hi
      exact hmapped horigin
    · next ox oy horigin =>
      have hpart : ∀ {x y}, (rect.clip surface.pixels.width surface.pixels.height).Has x y ↔
          rect.Has x y ∧ x < surface.pixels.width.toNat ∧ y < surface.pixels.height.toNat :=
        Rect.has_clip
      have hsums : ∀ {x y}, (rect.clip surface.pixels.width surface.pixels.height).Has x y →
          (ox + UInt32.ofNat (rect.clip surface.pixels.width surface.pixels.height).x.toNat).toNat =
            ox.toNat + (rect.clip surface.pixels.width surface.pixels.height).x.toNat ∧
          (oy + UInt32.ofNat (rect.clip surface.pixels.width surface.pixels.height).y.toNat).toNat =
            oy.toNat + (rect.clip surface.pixels.width surface.pixels.height).y.toNat := by
        intro x y hin
        obtain ⟨hrect, hx, hy⟩ := hpart.mp hin
        obtain ⟨hcx, hcy⟩ := Rect.clip_x hin.not_empty
        obtain ⟨hox, hoy⟩ := hlands surface ox oy x y hsurface horigin hrect hx hy
        exact ⟨toNat_add_offset (by rw [hcx]; exact hox), toNat_add_offset (by rw [hcy]; exact hoy)⟩
      dsimp only at h
      generalize rect.clip surface.pixels.width surface.pixels.height = part at h hpart hsums
      split at h
      · next hfits =>
        obtain ⟨⟨p', done⟩, hblit, hs'⟩ := Option.bind_eq_some_iff.mp h
        cases hs'
        obtain ⟨hchanges, hdone, hall⟩ := @blit_shows _ _ _ _ _ ox oy _ _ (hs.output output hout) hvalid
          (fun x y hin => by
            rw [UInt16.toNat_ofNat_of_lt' hfits.1, UInt16.toNat_ofNat_of_lt' hfits.2]
            exact hsums hin) hblit
        have hdirty : ∀ x y, DirtyRegion.Has s.outputDirty x y ∨ done.Has x y → DirtyRegion.Has
            (if done.isEmpty then s.outputDirty else s.outputDirty ++ [done]) x y := by
          intro x y hin
          split
          · next hempty =>
            refine hin.resolve_right fun hhas => ?_
            rw [hhas.not_empty] at hempty
            cases hempty
          · rcases hin with ⟨r, hr, hhas⟩ | hhas
            · exact ⟨r, List.mem_append_left _ hr, hhas⟩
            · exact ⟨done, List.mem_append_right _ (List.mem_singleton.mpr rfl), hhas⟩
        refine ⟨⟨⟨rfl, rfl, rfl, rfl, ?_, fun _ p hp => Option.some.inj hp ▸ hchanges.valid⟩,
          ⟨rfl, fun x y hin => hdirty x y (.inl hin), fun hnone => ?_, fun other hother => ?_⟩, rfl, rfl⟩, ?_⟩
        · unfold size
          rw [hout]
          exact congrArg some (Prod.ext hchanges.width hchanges.height)
        · rw [hout] at hnone
          cases hnone
        · cases hout.symm.trans hother
          exact ⟨p', rfl, hchanges.mono fun x y hin => hdirty x y (.inr hin)⟩
        · intro output' i other ax ay x y hout' hi horigin' hx hy hpx hpy
          cases hout'
          rw [hchanges.width] at hpx
          rw [hchanges.height] at hpy
          have hold := hshown output i other ax ay x y hout hi horigin' hx hy hpx hpy
          by_cases hin : done.Has (ax.toNat + x) (ay.toNat + y)
          · -- Only one surface shows there.
            obtain ⟨x', y', hxx', hyy', hpart', hpixel⟩ := hdone _ _ hin
            obtain ⟨-, hx', hy'⟩ := hpart.mp hpart'
            have hsame : i = id := hone output hout i id _ _ hpx hpy ⟨other, ax, ay, hi, horigin', by omega, by omega⟩
              ⟨surface, ox, oy, hsurface, horigin, by omega, by omega⟩
            subst hsame
            cases hsurface.symm.trans hi
            cases horigin.symm.trans horigin'
            obtain rfl := Nat.add_left_cancel hxx'
            obtain rfl := Nat.add_left_cancel hyy'
            exact .inr hpixel
          · rcases hold with hp | hpixel
            · refine .inl ⟨hp, ?_⟩
              rintro ⟨rfl, hrect⟩
              cases hsurface.symm.trans hi
              cases horigin.symm.trans horigin'
              exact hin (hall x y hx hy (hpart.mpr ⟨hrect, hx, hy⟩) hpx hpy)
            · exact .inr ((hchanges.pixel _ _ hpx hin).trans hpixel)
      · next hfar =>
        -- What does not fit 16 bits is not on the output.
        cases h
        refine ⟨.refl hs, fun output' i other ax ay x y hout' hi horigin' hx hy hpx hpy => ?_⟩
        refine (hshown output' i other ax ay x y hout' hi horigin' hx hy hpx hpy).imp_left fun hp => ⟨hp, ?_⟩
        rintro ⟨rfl, hrect⟩
        cases hsurface.symm.trans hi
        cases horigin.symm.trans horigin'
        have hin := hpart.mpr ⟨hrect, hx, hy⟩
        obtain ⟨hsx, hsy⟩ := hsums hin
        have hw := output'.width.toNat_lt
        have hh := output'.height.toNat_lt
        rw [hsx, hsy] at hfar
        rw [Rect.has_iff] at hin
        omega
  · next hmissing =>
    cases h
    refine ⟨.refl hs, fun output i surface ox oy x y hout hi horigin hx hy hpx hpy => ?_⟩
    refine (hshown output i surface ox oy x y hout hi horigin hx hy hpx hpy).imp_left fun hp => ⟨hp, ?_⟩
    rintro ⟨rfl, -⟩
    exact hmissing output surface hout hi

/-! ## Frames -/

theorem add_waits (hwithin : s.PendingWithin) (hrect : rect.right ≤ 65535 ∧ rect.bottom ≤ 65535)
    (hpending : s'.pending = s.pending.set id (((s.pending.get? id).getD []).add rect)) :
    s'.PendingWithin ∧ ∀ i x y, s.Waits i x y ∨ i = id ∧ rect.Has x y → s'.Waits i x y := by
  have hold : DirtyRegion.Within ((s.pending.get? id).getD []) 65535 65535 := by
    cases h : s.pending.get? id with
    | none => exact fun r hr => absurd hr List.not_mem_nil
    | some region => exact hwithin id region h
  refine ⟨fun i region hi => ?_, fun i x y h => ?_⟩
  · rw [hpending, Table.get?_set] at hi
    split at hi
    · cases hi
      exact (@DirtyRegion.add_spec _ _ 0 0 _ _ hold le_rfl le_rfl hrect).1
    · exact hwithin i region hi
  · unfold Waits
    rw [hpending, Table.get?_set]
    by_cases hi : i = id
    · subst hi
      rw [if_pos rfl]
      refine ⟨_, rfl, (DirtyRegion.add_spec hold le_rfl le_rfl hrect).2 ?_⟩
      rcases h with ⟨region, hregion, hhas⟩ | ⟨-, hhas⟩
      · rw [hregion]
        exact .inl hhas
      · exact .inr hhas
    · rw [if_neg hi]
      exact h.resolve_right fun h => hi h.1

theorem touch_shows (hs : s.Bounded) (h : s.touch id rect = some s')
    (hrect : rect.right ≤ 65535 ∧ rect.bottom ≤ 65535) (hlands : s.inFrame = false → s.Lands id rect)
    (hone : s.NoOverlap) (hwithin : s.PendingWithin) (hshown : s.ShowsBut fun i x y => s.Waits i x y ∨ Q i x y) :
    Touched s s' ∧ s'.ShowsBut fun i x y => s'.Waits i x y ∨ Q i x y ∧ ¬(i = id ∧ rect.Has x y) := by
  unfold touch at h
  split at h
  · next hempty =>
    cases h
    refine ⟨.refl hs, hshown.mono fun i _ x y _ _ _ _ hp => hp.imp_right fun hq => ⟨hq, ?_⟩⟩
    rintro ⟨-, hin⟩
    rw [hin.not_empty] at hempty
    cases hempty
  · split at h
    · next hframe =>
      cases h
      obtain ⟨hwithin', hwaits⟩ := @add_waits _
        { s with pending := s.pending.set id (((s.pending.get? id).getD []).add rect) } _ _ hwithin hrect rfl
      refine ⟨⟨⟨rfl, rfl, rfl, rfl, rfl, fun h => h⟩, .same hs rfl rfl rfl, fun _ => hwithin', fun hclosed => ?_,
        rfl, fun _ => rfl⟩, ?_⟩
      · rw [hframe] at hclosed
        cases hclosed
      · refine (ShowsBut.same hshown rfl rfl).mono fun i _ x y _ _ _ _ hp => ?_
        rcases hp with hp | hq
        · exact .inl (hwaits i x y (.inl hp))
        · by_cases hin : i = id ∧ rect.Has x y
          · exact .inl (hwaits i x y (.inr hin))
          · exact .inr ⟨hq, hin⟩
    · next hframe =>
      obtain ⟨hcomposed, hshown'⟩ := compose_shows hs h (hlands (Bool.eq_false_iff.mpr hframe)) hone hshown
      have hwaits : ∀ i x y, s.Waits i x y → s'.Waits i x y := fun i x y => by
        unfold Waits
        rw [hcomposed.pending]
        exact fun h => h
      refine ⟨⟨hcomposed.redrawn, hcomposed.records, fun hw => ?_, fun _ => hcomposed.pending,
        hcomposed.inFrame, fun h => absurd h hframe⟩, hshown'.mono fun i _ x y _ _ _ _ hp => ?_⟩
      · unfold PendingWithin
        rw [hcomposed.pending]
        exact hw
      · exact hp.1.elim (fun hw => .inl (hwaits i x y hw)) fun hq => .inr ⟨hq, hp.2⟩

theorem foldlM_touch_shows {rects : List Rect} (hs : s.Bounded)
    (h : rects.foldlM (fun s r => s.touch id r) s = some s')
    (hrects : ∀ r ∈ rects, r.right ≤ 65535 ∧ r.bottom ≤ 65535)
    (hreach : s.inFrame = false → s.InReach id) (hone : s.NoOverlap) (hwithin : s.PendingWithin)
    (hshown : s.ShowsBut fun i x y => s.Waits i x y ∨ i = id ∧ DirtyRegion.Has rects x y) :
    Touched s s' ∧ s'.ShowsBut s'.Waits := by
  induction rects generalizing s with
  | nil =>
    cases h
    refine ⟨.refl hs, hshown.mono fun i _ x y _ _ _ _ hp => hp.resolve_right ?_⟩
    rintro ⟨-, r, hr, -⟩
    cases hr
  | cons r rects ih =>
    rw [List.foldlM_cons] at h
    obtain ⟨s₁, htouch, hrest⟩ := Option.bind_eq_some_iff.mp h
    obtain ⟨htouched, hshown₁⟩ := touch_shows hs htouch (hrects r List.mem_cons_self)
      (fun hclosed => (hreach hclosed).lands r) hone hwithin hshown
    have hsurfaces := htouched.redrawn.surfaces
    obtain ⟨hrest', hdone⟩ := ih (hs.redrawn htouched.redrawn) hrest
      (fun r' hr' => hrects r' (List.mem_cons_of_mem r hr'))
      (fun hclosed => by
        unfold InReach
        rw [hsurfaces]
        exact hreach (htouched.inFrame.symm.trans hclosed))
      (hone.after htouched.redrawn) (htouched.within hwithin)
      (hshown₁.mono fun i _ x y _ _ _ _ hp => hp.imp_right fun ⟨⟨hi, r', hr', hhas⟩, hnot⟩ =>
        ⟨hi, r', (List.mem_cons.mp hr').resolve_left fun heq => hnot ⟨hi, heq ▸ hhas⟩, hhas⟩)
    exact ⟨htouched.trans hrest', hdone⟩

theorem foldlM_compose_shows {areas : List (UInt16 × Rect)} (hs : s.Bounded)
    (h : areas.foldlM (fun s e => s.compose e.1 e.2) s = some s')
    (hreach : ∀ e ∈ areas, s.InReach e.1) (hone : s.NoOverlap) (hshown : s.ShowsBut P) :
    Composed s s' ∧ s'.ShowsBut fun i x y => P i x y ∧ ∀ e ∈ areas, ¬(i = e.1 ∧ e.2.Has x y) := by
  induction areas generalizing s P with
  | nil =>
    cases h
    exact ⟨.refl hs, hshown.mono fun i _ x y _ _ _ _ hp => ⟨hp, fun e he => absurd he List.not_mem_nil⟩⟩
  | cons e areas ih =>
    rw [List.foldlM_cons] at h
    obtain ⟨s₁, hcompose, hrest⟩ := Option.bind_eq_some_iff.mp h
    obtain ⟨hcomposed, hshown₁⟩ := compose_shows hs hcompose ((hreach e List.mem_cons_self).lands e.2) hone hshown
    have hsurfaces := hcomposed.redrawn.surfaces
    obtain ⟨hrest', hdone⟩ := ih (hs.redrawn hcomposed.redrawn) hrest (fun e' he' => by
        unfold InReach
        rw [hsurfaces]
        exact hreach e' (List.mem_cons_of_mem e he'))
      (hone.after hcomposed.redrawn) hshown₁
    refine ⟨hcomposed.trans hrest', hdone.mono fun i _ x y _ _ _ _ hp => ⟨hp.1.1, fun e' he' => ?_⟩⟩
    rcases List.mem_cons.mp he' with rfl | he'
    · exact hp.1.2
    · exact hp.2 e' he'

theorem mem_pendingAreas {r : Rect} :
    (id, r) ∈ s.pendingAreas ↔ ∃ region, s.pending.get? id = some region ∧ r ∈ region := by
  unfold pendingAreas
  rw [List.mem_flatMap]
  constructor
  · rintro ⟨⟨i, region⟩, he, hr⟩
    obtain ⟨r', hr', heq⟩ := List.mem_map.mp hr
    cases heq
    exact ⟨region, Table.mem_entries.mp (List.mem_mergeSort.mp he), hr'⟩
  · rintro ⟨region, hget, hr⟩
    exact ⟨(id, region), List.mem_mergeSort.mpr (Table.mem_entries.mpr hget), List.mem_map.mpr ⟨r, hr, rfl⟩⟩

theorem composePending_shows (hs : s.Bounded) (h : s.composePending = some s')
    (hreach : ∀ id, s.pending.get? id ≠ none → s.InReach id) (hone : s.NoOverlap)
    (hshown : s.ShowsBut s.Waits) :
    Composed { s with pending := .empty } s' ∧ s'.Shows := by
  obtain ⟨hcomposed, hshown'⟩ := @foldlM_compose_shows { s with pending := .empty } s' _ _
    ⟨hs.stored, hs.cached, hs.output⟩ h (fun e he => by
      obtain ⟨region, hget, -⟩ := mem_pendingAreas.mp he
      exact hreach e.1 (by rw [hget]; exact Option.some_ne_none _)) hone hshown
  refine ⟨hcomposed, hshown'.mono fun i _ x y _ _ _ _ hp => ?_⟩
  obtain ⟨⟨region, hget, r, hr, hin⟩, hnone⟩ := hp
  exact hnone (i, r) (mem_pendingAreas.mpr ⟨region, hget, hr⟩) ⟨rfl, hin⟩

/-! ## Messages -/

/-- What holds between messages. -/
structure Consistent (s : Pipeline) : Prop where
  bounded : s.Bounded
  shown : s.ShowsBut s.Waits
  closed : s.inFrame = false → ∀ id, s.pending.get? id = none
  within : s.PendingWithin

/-- A message other than a reset or the end of a frame. -/
structure Drawn (s s' : Pipeline) : Prop where
  consistent : s'.Consistent
  records : Records s s'
  inFrame : s'.inFrame = s.inFrame
  still : s.inFrame = true → s'.output = s.output

/-- Any message. -/
structure Advances (s : Pipeline) (pdu : Pdu) (s' : Pipeline) : Prop where
  consistent : s'.Consistent
  recorded : s'.resized ≠ none ∨ Records s s'
  still : s.inFrame = true → (∀ frameId, pdu ≠ .endFrame frameId) →
    (∀ width height, pdu ≠ .resetGraphics width height) → s'.inFrame = true ∧ s'.output = s.output

theorem Drawn.advances (h : Drawn s s') : Advances s pdu s' :=
  ⟨h.consistent, .inr h.records, fun hframe _ _ => ⟨h.inFrame.trans hframe, h.still hframe⟩⟩

theorem Consistent.not_waits (hs : s.Consistent) (hclosed : s.inFrame = false) {i : UInt16} {x y : ℕ} :
    ¬s.Waits i x y := by
  rintro ⟨region, hget, -⟩
  rw [hs.closed hclosed i] at hget
  cases hget

theorem Consistent.drawn (hs : s.Consistent) (hbounded : s'.Bounded) (hout : s'.output = s.output)
    (hdirty : s'.outputDirty = s.outputDirty) (hresized : s'.resized = s.resized)
    (hframe : s'.inFrame = s.inFrame)
    (hpending : ∀ id region, s'.pending.get? id = some region → s.pending.get? id = some region)
    (hshown : s'.ShowsBut s'.Waits) : Drawn s s' where
  consistent :=
    { bounded := hbounded
      shown := hshown
      closed := fun h i => Option.eq_none_iff_forall_not_mem.mpr fun region hregion => by
        have hold := hpending i region hregion
        rw [hs.closed (hframe.symm.trans h) i] at hold
        cases hold
      within := fun i region hregion => hs.within i region (hpending i region hregion) }
  records := .same hs.bounded hout hdirty hresized
  inFrame := hframe
  still _ := hout

theorem Consistent.touched {s₁ : Pipeline} (hs : s.Consistent) (hbounded : s₁.Bounded)
    (hout : s₁.output = s.output) (hdirty : s₁.outputDirty = s.outputDirty)
    (hresized : s₁.resized = s.resized) (hframe : s₁.inFrame = s.inFrame)
    (hpending : s₁.pending = s.pending) (h : Touched s₁ s') (hshown : s'.ShowsBut s'.Waits) :
    Drawn s s' where
  consistent :=
    { bounded := hbounded.redrawn h.redrawn
      shown := hshown
      closed := fun hclosed i => by
        have hclosed₁ := h.inFrame.symm.trans hclosed
        rw [h.closed hclosed₁, hpending]
        exact hs.closed (hframe.symm.trans hclosed₁) i
      within := h.within fun i region hregion => hs.within i region (hpending ▸ hregion) }
  records := (Records.same hs.bounded hout hdirty hresized).trans h.records
  inFrame := h.inFrame.trans hframe
  still hopen := (h.still (hframe.trans hopen)).trans hout

theorem draw_shows (hs : s.Consistent) {f : Pixels → Option Written} (hf : Draws f)
    (hfails : ∀ surface p', s.surfaces.get? id = some surface → surface.origin ≠ none →
      f surface.pixels = some (p', none) → p' = surface.pixels)
    (hreach : s.inFrame = false → s.InReach id) (h : s.draw id f = some s') (hone : s'.NoOverlap) :
    Drawn s s' := by
  obtain ⟨s₂, hdraw, hbounded⟩ := draw_bounded hs.bounded id hf
  obtain rfl := Option.some.inj (hdraw.symm.trans h)
  unfold draw at h
  split at h
  · obtain rfl := Option.some.inj h
    exact hs.drawn hs.bounded rfl rfl rfl rfl (fun _ _ h => h) hs.shown
  · next surface hsurface =>
    obtain ⟨⟨p', result⟩, hsome, hupdated⟩ := Option.bind_eq_some_iff.mp h
    have hvalid := hs.bounded.stored.valid id surface hsurface
    have hwrote : Wrote surface.pixels (p', result) := by
      obtain ⟨r, hr, hwrote⟩ := hf surface.pixels hvalid
      obtain rfl := Option.some.inj (hr.symm.trans hsome)
      exact hwrote
    have hwidth : p'.width = surface.pixels.width := hwrote.changes.width
    have hheight : p'.height = surface.pixels.height := hwrote.changes.height
    -- The state with the new pixels, before they are shown.
    have hbounded₁ : ({ s with surfaces := s.surfaces.set id { surface with pixels := p' } } :
        Pipeline).Bounded := hs.bounded.painted hf hsurface hsome
    have hshown₁ : ({ s with surfaces := s.surfaces.set id { surface with pixels := p' } } :
        Pipeline).ShowsBut fun i x y => s.Waits i x y ∨
          i = id ∧ DirtyRegion.Has (result.getD []) x y := by
      intro output i other ox oy x y hout hi horigin hx hy hpx hpy
      replace hi : (s.surfaces.set id { surface with pixels := p' }).get? i = some other := hi
      rw [Table.get?_set] at hi
      split at hi
      · next heq =>
        subst heq
        obtain rfl := Option.some.inj hi
        rw [hwidth] at hx
        rw [hheight] at hy
        have hold := hs.shown output i surface ox oy x y hout hsurface horigin hx hy hpx hpy
        refine hold.elim (fun hw => .inl (.inl hw)) fun hpixel => ?_
        cases hresult : result with
        | none =>
          rw [hresult] at hsome
          rw [hfails surface p' hsurface (by rw [horigin]; exact Option.some_ne_none _) hsome]
          exact .inr hpixel
        | some rects =>
          by_cases hin : DirtyRegion.Has rects x y
          · exact .inl (.inr ⟨rfl, hin⟩)
          · refine .inr (hpixel.trans (hwrote.changes.pixel x y hx fun hall => hin ?_).symm)
            exact hall rects hresult
      · exact (hs.shown output i other ox oy x y hout hi horigin hx hy hpx hpy).imp_left .inl
    have hfinal : Touched { s with surfaces := s.surfaces.set id { surface with pixels := p' } } s₂ ∧
        s₂.ShowsBut s₂.Waits := by
      cases result with
      | none =>
        cases hupdated
        refine ⟨.refl hbounded₁, hshown₁.mono fun i _ x y _ _ _ _ hp => hp.resolve_right ?_⟩
        rintro ⟨-, r, hr, -⟩
        cases hr
      | some rects =>
        obtain ⟨s₃, hupdated', hredrawn⟩ := updated_bounded hbounded₁ id (some rects)
        cases hupdated'.symm.trans hupdated
        refine foldlM_touch_shows hbounded₁ hupdated (fun r hr => ?_) (fun hclosed => ?_)
          (hone.before hredrawn) hs.within hshown₁
        · obtain ⟨hright, hbottom⟩ := hwrote.within rects rfl r hr
          have hw := surface.pixels.width.toNat_lt
          have hh := surface.pixels.height.toNat_lt
          omega
        · intro other ox oy hi horigin
          replace hi : (s.surfaces.set id { surface with pixels := p' }).get? id = some other := hi
          rw [Table.get?_set_self] at hi
          cases hi
          rw [hwidth, hheight]
          exact hreach hclosed surface ox oy hsurface horigin
    exact hs.touched hbounded₁ rfl rfl rfl rfl rfl hfinal.1 hfinal.2

theorem createSurface_shows (hs : s.Consistent) {id width height : UInt16}
    (h : s.createSurface id width height = some s') : Drawn s s' := by
  obtain ⟨s₂, hcreate, hbounded⟩ := createSurface_bounded hs.bounded id width height
  cases hcreate.symm.trans h
  have hshown : ∀ {s₁ : Pipeline}, s₁.output = s.output → s₁.pending = s.pending →
      (∀ i surface, s₁.surfaces.get? i = some surface → surface.origin ≠ none →
        s.surfaces.get? i = some surface) → s₁.ShowsBut s₁.Waits := by
    intro s₁ hout hpending hold output i surface ox oy x y hout' hi horigin hx hy hpx hpy
    unfold Waits
    rw [hpending]
    exact hs.shown output i surface ox oy x y (hout ▸ hout')
      (hold i surface hi (by rw [horigin]; exact Option.some_ne_none _)) horigin hx hy hpx hpy
  have herase : ∀ i surface, (s.surfaces.erase id).get? i = some surface → s.surfaces.get? i = some surface := by
    intro i surface hi
    rw [Table.get?_erase] at hi
    split at hi
    · cases hi
    · exact hi
  obtain ⟨bytes, -, h⟩ := Option.bind_eq_some_iff.mp h
  dsimp only at h
  split at h
  · cases h
    exact hs.drawn hbounded rfl rfl rfl rfl (fun _ _ h => h) (hshown rfl rfl fun i surface hi _ => herase i surface hi)
  · cases h
    refine hs.drawn hbounded rfl rfl rfl rfl (fun _ _ h => h) (hshown rfl rfl fun i surface hi hmapped => ?_)
    replace hi : ((s.surfaces.erase id).set id ⟨Pixels.new width height, none⟩).get? i = some surface := hi
    rw [Table.get?_set] at hi
    split at hi
    · -- A new surface is not mapped.
      cases hi
      exact absurd rfl hmapped
    · exact herase i surface hi

theorem deleteSurface_shows (hs : s.Consistent) (h : s.deleteSurface id = some s') : Drawn s s' := by
  obtain ⟨s₂, hdelete, hbounded⟩ := deleteSurface_bounded hs.bounded id
  cases hdelete.symm.trans h
  obtain ⟨bytes, -, h⟩ := Option.bind_eq_some_iff.mp h
  cases h
  refine hs.drawn hbounded rfl rfl rfl rfl (fun i region hi => ?_) ?_
  · replace hi : (s.pending.erase id).get? i = some region := hi
    rw [Table.get?_erase] at hi
    split at hi
    · cases hi
    · exact hi
  · intro output i surface ox oy x y hout hi horigin hx hy hpx hpy
    replace hi : (s.surfaces.erase id).get? i = some surface := hi
    rw [Table.get?_erase] at hi
    split at hi
    · cases hi
    · next hne =>
      refine (hs.shown output i surface ox oy x y hout hi horigin hx hy hpx hpy).imp_left ?_
      rintro ⟨region, hget, hin⟩
      refine ⟨region, ?_, hin⟩
      rw [Table.get?_erase, if_neg hne]
      exact hget

theorem map_shows (hs : s.Consistent) {x y : UInt32} (h : s.map id x y = some s') (hone : s'.NoOverlap) :
    Drawn s s' := by
  unfold map at h
  split at h
  · cases h
    exact hs.drawn hs.bounded rfl rfl rfl rfl (fun _ _ h => h) hs.shown
  · next surface hsurface =>
    have hmapped := hs.bounded.moved hsurface (some (x, y))
    obtain ⟨s₂, htouch, hredrawn⟩ := touch_bounded hmapped id surface.pixels.bounds
    cases htouch.symm.trans h
    have hw := surface.pixels.width.toNat_lt
    have hh := surface.pixels.height.toNat_lt
    have hbounds : surface.pixels.bounds.right ≤ 65535 ∧ surface.pixels.bounds.bottom ≤ 65535 := by
      show 0 + surface.pixels.width.toNat ≤ 65535 ∧ 0 + surface.pixels.height.toNat ≤ 65535
      omega
    have hlands : ({ s with surfaces := s.surfaces.set id { surface with origin := some (x, y) } } :
        Pipeline).Lands id surface.pixels.bounds :=
      fun _ ox oy _ _ _ _ _ _ _ => ⟨ox.toNat_lt, oy.toNat_lt⟩
    -- Nothing of the surface is taken to show; all of it is shown now, or waits.
    have hshown : ({ s with surfaces := s.surfaces.set id { surface with origin := some (x, y) } } :
        Pipeline).ShowsBut fun i px py => s.Waits i px py ∨ i = id ∧ surface.pixels.bounds.Has px py := by
      intro output i other ox oy px py hout hi horigin hx hy hpx hpy
      replace hi : (s.surfaces.set id { surface with origin := some (x, y) }).get? i = some other := hi
      rw [Table.get?_set] at hi
      split at hi
      · next heq =>
        cases hi
        refine .inl (.inr ⟨heq, ?_⟩)
        rw [Rect.has_iff]
        show 0 ≤ px ∧ px < 0 + surface.pixels.width.toNat ∧ 0 ≤ py ∧ py < 0 + surface.pixels.height.toNat
        dsimp only at hx hy
        omega
      · exact (hs.shown output i other ox oy px py hout hi horigin hx hy hpx hpy).imp_left .inl
    obtain ⟨htouched, hshown'⟩ := touch_shows hmapped h hbounds (fun _ => hlands) (hone.before hredrawn)
      hs.within hshown
    refine hs.touched hmapped rfl rfl rfl rfl rfl htouched (hshown'.mono fun i _ px py _ _ _ _ hp => ?_)
    exact hp.resolve_right fun hq => hq.2 hq.1

theorem resetGraphics_shows (hs : s.Consistent) (width height : UInt32) :
    (s.resetGraphics width height).Consistent where
  bounded := resetGraphics_bounded hs.bounded width height
  shown output i surface ox oy x y hout hi _ hx hy hpx hpy := by
    cases hout
    replace hi : (s.surfaces.map fun _ surface => { surface with pixels := surface.pixels.clear }).get? i =
        some surface := hi
    rw [Table.get?_map] at hi
    obtain ⟨old, hold, rfl⟩ := Option.map_eq_some_iff.mp hi
    have hvalid : (Pixels.mk (clampEdge width) (clampEdge height)
        (List.replicate ((clampEdge width).toNat * (clampEdge height).toNat * 4) 0)).Valid := by
      unfold Pixels.Valid
      rw [List.length_replicate, Nat.mul_comm (clampEdge width).toNat]
    exact .inr ((Pixels.pixel_clear hvalid hpx hpy).trans
      (Pixels.pixel_clear (hs.bounded.stored.valid i old hold) hx hy).symm)
  closed _ _ := rfl
  within _ _ h := nomatch h

theorem evict_shows (hs : s.Consistent) {slot : UInt16} (h : s.evict slot = some s') : Drawn s s' := by
  obtain ⟨s₂, hevict, hbounded, -⟩ := evict_bounded hs.bounded slot
  cases hevict.symm.trans h
  obtain ⟨bytes, -, h⟩ := Option.bind_eq_some_iff.mp h
  cases h
  exact hs.drawn hbounded rfl rfl rfl rfl (fun _ _ h => h) (hs.shown.same rfl rfl)

theorem cachePut_shows (hs : s.Consistent) {slot : UInt16} {entry : Pixels} (hvalid : entry.Valid)
    (h : s.cachePut slot entry = some s') : Drawn s s' := by
  obtain ⟨s₂, hput, hbounded⟩ := cachePut_bounded hs.bounded slot hvalid
  cases hput.symm.trans h
  unfold cachePut at h
  split at h
  · cases h
    exact hs.drawn hbounded rfl rfl rfl rfl (fun _ _ h => h) hs.shown
  · obtain ⟨s₁, hevict, h⟩ := Option.bind_eq_some_iff.mp h
    have hdrawn := evict_shows hs hevict
    split at h
    · cases h
      exact hdrawn
    · cases h
      obtain ⟨bytes, -, hs₁⟩ := Option.bind_eq_some_iff.mp hevict
      cases hs₁
      exact hs.drawn hbounded rfl rfl rfl rfl (fun _ _ h => h) (hs.shown.same rfl rfl)

theorem endFrame_shows (hs : s.Consistent) (h : s.endFrame = some s') (hone : s'.NoOverlap)
    (hreach : ∀ id, s.pending.get? id ≠ none → s.InReach id) : s'.Consistent ∧ Records s s' := by
  obtain ⟨s₁, hcompose, hs₁⟩ := Option.bind_eq_some_iff.mp h
  have hopen : ({ s with inFrame := false } : Pipeline).Bounded :=
    ⟨hs.bounded.stored, hs.bounded.cached, hs.bounded.output⟩
  obtain ⟨s₂, hcompose', hredrawn⟩ := composePending_bounded hopen
  obtain rfl := Option.some.inj (hcompose'.symm.trans hcompose)
  cases hs₁
  have hone₂ : s₂.NoOverlap := hone.of_size rfl rfl
  obtain ⟨hcomposed, hshown⟩ := composePending_shows hopen hcompose hreach (hone₂.before hredrawn)
    (hs.shown.same rfl rfl)
  have hpending : s₂.pending = .empty := hcomposed.pending
  have hbounded := hopen.redrawn hredrawn
  refine ⟨⟨⟨hbounded.stored, hbounded.cached, hbounded.output⟩, ?_, fun _ i => ?_, fun i region hi => ?_⟩,
    ⟨hcomposed.records.resized, hcomposed.records.dirty, hcomposed.records.none, hcomposed.records.changes⟩⟩
  · exact (ShowsBut.same hshown rfl rfl).mono fun _ _ _ _ _ _ _ _ hp => hp.elim
  · show s₂.pending.get? i = none
    rw [hpending]
    rfl
  · replace hi : s₂.pending.get? i = some region := hi
    rw [hpending] at hi
    cases hi

theorem act_advances (hs : s.Consistent) (h : s.act pdu = some s') (hone : s'.NoOverlap)
    (hreach : ∀ id, s.Brings pdu id → s.InReach id) (hfails : s.FailsWhole pdu) : Advances s pdu s' := by
  have hsame : Drawn s s := hs.drawn hs.bounded rfl rfl rfl rfl (fun _ _ h => h) hs.shown
  have hdraw : ∀ {id : UInt16} {f : Pixels → Option Written}, Draws f → FailsClean f →
      (s.inFrame = false → s.InReach id) → s.draw id f = some s' → Drawn s s' :=
    fun hf hclean hreach h => draw_shows hs hf (fun surface p' _ _ hp => hclean surface.pixels p' hp) hreach h hone
  cases pdu with
  | capabilitiesConfirm set =>
    cases h
    refine Drawn.advances (hs.drawn ?_ rfl rfl rfl rfl (fun _ _ h => h) (hs.shown.same rfl rfl))
    exact ⟨hs.bounded.stored, hs.bounded.cached, hs.bounded.output⟩
  | resetGraphics width height =>
    cases h
    exact ⟨resetGraphics_shows hs width height, .inl (Option.some_ne_none _),
      fun _ _ hreset => absurd rfl (hreset width height)⟩
  | createSurface id width height => exact (createSurface_shows hs h).advances
  | deleteSurface id => exact (deleteSurface_shows hs h).advances
  | mapSurfaceToOutput id x y | mapSurfaceToScaledOutput id x y => exact (map_shows hs h hone).advances
  | startFrame =>
    cases h
    refine ⟨⟨⟨hs.bounded.stored, hs.bounded.cached, hs.bounded.output⟩, hs.shown.same rfl rfl, fun h => ?_,
      hs.within⟩, .inr (.same hs.bounded rfl rfl rfl), fun _ _ _ => ⟨rfl, rfl⟩⟩
    cases h
  | endFrame frameId =>
    obtain ⟨hconsistent, hrecords⟩ := endFrame_shows hs h hone fun id hid => hreach id hid
    exact ⟨hconsistent, .inr hrecords, fun _ hend => absurd rfl (hend frameId)⟩
  | wireToSurface1 id destination payload =>
    exact (draw_shows hs (payloadOn_draws s destination.rect payload).1 hfails
      (fun hclosed => hreach id ⟨hclosed, rfl⟩) h hone).advances
  | wireToSurface2 id tiles =>
    obtain ⟨hf, hclean⟩ := progressive_draws tiles
    exact (hdraw hf hclean (fun hclosed => hreach id ⟨hclosed, rfl⟩) h).advances
  | deleteEncodingContext =>
    cases h
    exact hsame.advances
  | solidFill id r g b rectangles =>
    obtain ⟨hf, hclean⟩ := draws_all fun p hp => fillAll_draws ⟨r, g, b, 0xff⟩ rectangles hp
    exact (hdraw hf hclean (fun hclosed => hreach id ⟨hclosed, rfl⟩) h).advances
  | surfaceToSurface source destination rectangle points =>
    unfold act surfaceToSurface at h
    dsimp only at h
    split at h
    · cases h
      exact hsame.advances
    · obtain ⟨⟨rect, block⟩, -, h⟩ := Option.bind_eq_some_iff.mp h
      obtain ⟨hf, hclean⟩ := draws_all fun p hp => writeAll_draws rect.w rect.h block points hp
      exact (hdraw hf hclean (fun hclosed => hreach destination ⟨hclosed, rfl⟩) h).advances
  | surfaceToCache id slot rectangle =>
    unfold act surfaceToCache at h
    dsimp only at h
    split at h
    · cases h
      exact hsame.advances
    · next surface hsurface =>
      obtain ⟨⟨rect, data⟩, hread, h⟩ := Option.bind_eq_some_iff.mp h
      obtain ⟨data', hread', hlen⟩ := Pixels.read_ok (hs.bounded.stored.valid id surface hsurface) rectangle.rect
      cases hread'.symm.trans hread
      refine (cachePut_shows hs ?_ h).advances
      exact hlen
  | cacheToSurface slot id points =>
    unfold act cacheToSurface at h
    dsimp only at h
    split at h
    · cases h
      exact hsame.advances
    · next entry _ =>
      obtain ⟨hf, hclean⟩ := draws_all fun p hp => writeAll_draws entry.width entry.height entry.data points hp
      exact (hdraw hf hclean (fun hclosed => hreach id ⟨hclosed, rfl⟩) h).advances
  | evictCacheEntry slot => exact (evict_shows hs h).advances
  | other =>
    cases h
    exact hsame.advances

end Pipeline

/-! ## Runs -/

namespace Watched

variable {w : Watched} {c : Pipeline.Call} {h264 : Bool} {calls first later : List Pipeline.Call}

/-- What holds between calls. -/
structure Inv (w : Watched) : Prop where
  consistent : w.pipeline.Consistent
  recorded : w.Recorded

theorem inv_new (h264 : Bool) : (new h264).Inv where
  consistent :=
    { bounded := Pipeline.bounded_new h264
      shown := fun _ _ _ _ _ _ _ h => nomatch h
      closed := fun _ _ => rfl
      within := fun _ _ h => nomatch h }
  recorded := .inr fun _ h => nomatch h

theorem recorded_of_records {s : Pipeline} (h : w.Recorded) (hr : Pipeline.Records w.pipeline s) :
    Recorded ⟨s, w.seen⟩ := by
  rcases h with hresized | hrecorded
  · exact .inl (hr.resized ▸ hresized)
  · refine .inr fun output' hout' => ?_
    cases hout : w.pipeline.output with
    | none =>
      have hnone := hr.none hout
      rw [hnone] at hout'
      cases hout'
    | some output =>
      obtain ⟨other, hother, hchanges⟩ := hr.changes output hout
      cases hother.symm.trans hout'
      obtain ⟨seen, hseen, hold⟩ := hrecorded output hout
      refine ⟨seen, hseen, (hold.trans hchanges).mono fun x y hin => ?_⟩
      exact hin.elim (hr.dirty x y) id

theorem step_inv (hw : w.Inv) (hone : (w.step c).pipeline.NoOverlap) (hclean : w.pipeline.Clean c) :
    (w.step c).Inv ∧ w.Quiet c ∧ w.pipeline.call c = some (w.step c).pipeline := by
  obtain ⟨s', hcall, hbounded⟩ := Pipeline.call_bounded hw.consistent.bounded c
  have hstep : (w.step c).pipeline = s' := by
    unfold step
    rw [hcall]
  rw [hstep] at hone ⊢
  refine ⟨?_, ?_, hcall⟩
  · cases c with
    | handle pdu =>
      have hact : w.pipeline.act pdu = some s' := (Pipeline.handle_fst _ _).symm.trans hcall
      have hadvances := Pipeline.act_advances hw.consistent hact hone hclean.1 hclean.2
      have hpair : w.step (.handle pdu) = ⟨s', w.seen⟩ := by
        unfold step
        rw [hcall]
      rw [hpair]
      exact ⟨hadvances.consistent, hadvances.recorded.elim .inl (recorded_of_records hw.recorded)⟩
    | takeChanges =>
      cases hcall
      refine ⟨⟨hbounded, hw.consistent.shown.same rfl rfl, hw.consistent.closed, hw.consistent.within⟩,
        .inr fun output hout => ⟨output, hout, ?_⟩⟩
      exact .refl (hbounded.output output hout)
  · intro hframe hend hreset
    rw [hstep]
    cases c with
    | handle pdu =>
      have hact : w.pipeline.act pdu = some s' := (Pipeline.handle_fst _ _).symm.trans hcall
      exact (Pipeline.act_advances hw.consistent hact hone hclean.1 hclean.2).still hframe
        (fun frameId heq => hend frameId (congrArg _ heq)) fun width height heq =>
          hreset width height (congrArg _ heq)
    | takeChanges =>
      cases hcall
      exact ⟨hframe, rfl⟩

/-- Where mapped surfaces do not overlap and neither way to lose an update is taken, the output shows its
surfaces whenever no frame is open, the dirty rectangles cover what changed, a frame keeps the output as it
is, and no call panics. -/
theorem output_shows (h264 : Bool) (calls : List Pipeline.Call)
    (h : Along step (fun w c => (w.step c).pipeline.NoOverlap ∧ w.pipeline.Clean c) (new h264) calls) :
    (∀ first later, calls = first ++ later →
      ((run step (new h264) first).pipeline.inFrame = false →
        (run step (new h264) first).pipeline.Shows) ∧
      (run step (new h264) first).Recorded) ∧
    Along step (fun w c => w.Quiet c ∧ w.pipeline.call c = some (w.step c).pipeline) (new h264) calls := by
  have hkeeps : ∀ (w : Watched) c, w.Inv → (w.step c).pipeline.NoOverlap ∧ w.pipeline.Clean c → (w.step c).Inv :=
    fun w c hw hc => (step_inv hw hc.1 hc.2).1
  refine ⟨?_, h.mono (inv_new h264) hkeeps fun w c hw hc => (step_inv hw hc.1 hc.2).2⟩
  rintro first later rfl
  have hinv : (run step (new h264) first).Inv := h.before.invariant (inv_new h264) hkeeps
  refine ⟨fun hclosed => ?_, hinv.recorded⟩
  exact hinv.consistent.shown.mono fun _ _ _ _ _ _ _ _ hp => hinv.consistent.not_waits hclosed hp

/-! ### Two runs -/

def meet (a b : Surface) : Bool :=
  match a.origin, b.origin with
  | some (ax, ay), some (bx, b_y) =>
    ax.toNat < bx.toNat + b.pixels.width.toNat ∧ bx.toNat < ax.toNat + a.pixels.width.toNat ∧
      ay.toNat < b_y.toNat + b.pixels.height.toNat ∧ b_y.toNat < ay.toNat + a.pixels.height.toNat
  | _, _ => false

theorem noOverlap_of_meet {s : Pipeline}
    (h : ∀ e ∈ s.surfaces.entries, ∀ e' ∈ s.surfaces.entries, meet e.2 e'.2 = true → e.1 = e'.1) : s.NoOverlap := by
  rintro output - i j px py - - ⟨a, ax, ay, hi, hax, hpx, hpy⟩ ⟨b, bx, b_y, hj, hbx, hpx', hpy'⟩
  refine h (i, a) (Table.mem_entries.mpr hi) (j, b) (Table.mem_entries.mpr hj) ?_
  unfold meet
  dsimp only
  rw [hax, hbx]
  exact decide_eq_true (by omega)

/-- Where all surfaces are mapped close by, and no update can break off. -/
def plain (s : Pipeline) : Pipeline.Call → Bool
  | .handle (.wireToSurface1 _ _ _) => false
  | _ => s.surfaces.entries.all fun e => e.2.origin.elim true fun o =>
      o.1.toNat + e.2.pixels.width.toNat ≤ 2 ^ 32 ∧ o.2.toNat + e.2.pixels.height.toNat ≤ 2 ^ 32

theorem clean_of_plain {s : Pipeline} (h : plain s c = true) : s.Clean c := by
  have hreach : ∀ {id}, (s.surfaces.entries.all fun e => e.2.origin.elim true fun o =>
      o.1.toNat + e.2.pixels.width.toNat ≤ 2 ^ 32 ∧ o.2.toNat + e.2.pixels.height.toNat ≤ 2 ^ 32) = true →
      s.InReach id := by
    intro id hall surface ox oy hget horigin
    have hfits := List.all_eq_true.mp hall (id, surface) (Table.mem_entries.mpr hget)
    rw [horigin] at hfits
    exact of_decide_eq_true hfits
  cases c with
  | takeChanges => trivial
  | handle pdu =>
    cases pdu with
    | wireToSurface1 => cases h
    | _ => exact ⟨fun id _ => hreach h, trivial⟩

/-- Two surfaces side by side, and a frame that fills one of them. -/
def filled : List Pipeline.Call :=
  [.handle (.resetGraphics 2 1), .handle (.createSurface 0 1 1), .handle (.mapSurfaceToOutput 0 0 0),
    .handle (.createSurface 1 1 1), .handle (.mapSurfaceToOutput 1 1 0), .takeChanges, .handle .startFrame,
    .handle (.solidFill 1 1 2 3 [⟨0, 0, 1, 1⟩]), .handle (.endFrame 7)]

theorem output_shows_filled : (run step (new false) filled).pipeline.Shows ∧
    (run step (new false) filled).pipeline.outputDirty = [⟨1, 0, 1, 1⟩] ∧
    (run step (new false) filled).pipeline.output.map (fun output => output.data) = some
    [0, 0, 0, 0xff, 1, 2, 3, 0xff] := by
  have hplain : Along step (fun w c => (∀ e ∈ (w.step c).pipeline.surfaces.entries,
      ∀ e' ∈ (w.step c).pipeline.surfaces.entries, meet e.2 e'.2 = true → e.1 = e'.1) ∧
      plain w.pipeline c = true) (new false) filled := by decide +kernel
  have h := output_shows false filled (hplain.imp fun w c hc => ⟨noOverlap_of_meet hc.1, clean_of_plain hc.2⟩)
  exact ⟨(h.1 filled [] (List.append_nil _).symm).1 (by decide +kernel), by decide +kernel, by decide +kernel⟩

/-- A RemoteFX update of a surface that breaks off behind its first tile. -/
def brokenOff : List Pipeline.Call :=
  [.handle (.resetGraphics 1 1), .handle (.createSurface 0 1 1), .handle (.mapSurfaceToOutput 0 0 0),
    .handle (.wireToSurface1 0 ⟨0, 0, 1, 1⟩
      (.remoteFx [.tileSet [⟨0, 0, some (Pixels.run ⟨9, 9, 9, 0xff⟩ 4096)⟩], .broken]))]

theorem broken_off_left_behind : ¬∀ calls, Along step (fun w c => (w.step c).pipeline.NoOverlap) (new false) calls → ∀
    first later, calls = first ++ later → (run step (new false) first).pipeline.inFrame = false →
    (run step (new false) first).pipeline.Shows := by
  intro h
  have hapart : Along step (fun w c => ∀ e ∈ (w.step c).pipeline.surfaces.entries,
      ∀ e' ∈ (w.step c).pipeline.surfaces.entries, meet e.2 e'.2 = true → e.1 = e'.1) (new false) brokenOff := by
    decide +kernel
  have hshows := h brokenOff (hapart.imp fun w c hc => noOverlap_of_meet hc) brokenOff [] (List.append_nil _).symm (by decide +kernel)
  have hsurface : (run step (new false) brokenOff).pipeline.surfaces.get? 0 =
      some ⟨⟨1, 1, [9, 9, 9, 0xff]⟩, some (0, 0)⟩ := by decide +kernel
  have houtput : (run step (new false) brokenOff).pipeline.output = some ⟨1, 1, [0, 0, 0, 0xff]⟩ := by
    decide +kernel
  have hpixel := hshows _ 0 _ 0 0 0 0 houtput hsurface rfl (by decide) (by decide) (by decide) (by decide)
  exact absurd (hpixel.resolve_left id) (by decide)

end Watched

end Gfx

end UwuRdp
