import UwuRdp.Core.GraphicsOutput

/-!
# What the session learns of the output

Whatever the server sends, and whether or not the output still shows its surfaces: what changes on the
output is in the dirty rectangles, which end within 16 bits, or the output was reset, which is noted.
-/

namespace UwuRdp

open Lib Lib.Raster

namespace Gfx

namespace Pipeline

variable {s s' s'' : Pipeline} {id : UInt16} {rect : Rect}

/-- What changed was added to the dirty rectangles, which stay within 16 bits. -/
structure Noted (s s' : Pipeline) : Prop where
  records : Records s s'
  within : DirtyRegion.Within s.outputDirty 65535 65535 → DirtyRegion.Within s'.outputDirty 65535 65535

/-- What changed can be told from the dirty rectangles, or the output was reset. -/
structure Told (s s' : Pipeline) : Prop where
  recorded : s'.resized ≠ none ∨ Records s s'
  within : DirtyRegion.Within s.outputDirty 65535 65535 → DirtyRegion.Within s'.outputDirty 65535 65535

theorem Noted.same (hs : s.Bounded) (hout : s'.output = s.output) (hdirty : s'.outputDirty = s.outputDirty)
    (hresized : s'.resized = s.resized) : Noted s s' where
  records := .same hs hout hdirty hresized
  within h := hdirty ▸ h

theorem Noted.trans (h : Noted s s') (h' : Noted s' s'') : Noted s s'' where
  records := h.records.trans h'.records
  within hw := h'.within (h.within hw)

theorem Noted.told (h : Noted s s') : Told s s' := ⟨.inr h.records, h.within⟩

theorem Told.same (hs : s.Bounded) (hout : s'.output = s.output) (hdirty : s'.outputDirty = s.outputDirty)
    (hresized : s'.resized = s.resized) : Told s s' := (Noted.same hs hout hdirty hresized).told

theorem Told.trans (h : Told s s') (h' : Told s' s'') : Told s s'' where
  recorded := by
    rcases h'.recorded with hreset | hrecords'
    · exact .inl hreset
    rcases h.recorded with hreset | hrecords
    · exact .inl (by rw [hrecords'.resized]; exact hreset)
    · exact .inr (hrecords.trans hrecords')
  within hw := h'.within (h.within hw)

theorem compose_noted (hs : s.Bounded) (h : s.compose id rect = some s') : Noted s s' := by
  unfold compose at h
  split at h
  · rename_i output surface hout hsurface
    split at h
    · cases h
      exact .same hs rfl rfl rfl
    · rename_i ox oy _
      dsimp only at h
      split at h
      · obtain ⟨⟨p', done⟩, hblit, hs'⟩ := Option.bind_eq_some_iff.mp h
        cases hs'
        obtain ⟨p'', done', hblit', hchanges, hright, hbottom, -⟩ := Pixels.blit_ok (hs.output output hout)
          (hs.stored.valid id surface hsurface) (rect.clip surface.pixels.width surface.pixels.height)
          (UInt16.ofNat (ox + UInt32.ofNat (rect.clip surface.pixels.width surface.pixels.height).x.toNat).toNat)
          (UInt16.ofNat (oy + UInt32.ofNat (rect.clip surface.pixels.width surface.pixels.height).y.toNat).toNat)
        obtain ⟨rfl, rfl⟩ := Prod.mk.inj (Option.some.inj (hblit'.symm.trans hblit))
        by_cases hempty : done'.isEmpty = true
        · have hnot : ∀ x y, ¬done'.Has x y := by
            intro x y hhas
            rw [hhas.not_empty] at hempty
            cases hempty
          refine ⟨⟨rfl, fun x y hin => ?_, fun hnone => ?_, fun other hother => ?_⟩, fun hw => ?_⟩
          · show DirtyRegion.Has (if done'.isEmpty = true then _ else _) x y
            rw [if_pos hempty]
            exact hin
          · rw [hout] at hnone
            cases hnone
          · cases hout.symm.trans hother
            exact ⟨p'', rfl, hchanges.mono fun x y hin => absurd hin (hnot x y)⟩
          · show DirtyRegion.Within (if done'.isEmpty = true then _ else _) 65535 65535
            rw [if_pos hempty]
            exact hw
        · refine ⟨⟨rfl, fun x y hin => ?_, fun hnone => ?_, fun other hother => ?_⟩, fun hw => ?_⟩
          · show DirtyRegion.Has (if done'.isEmpty = true then _ else _) x y
            rw [if_neg hempty]
            obtain ⟨r, hr, hhas⟩ := hin
            exact ⟨r, List.mem_append_left _ hr, hhas⟩
          · rw [hout] at hnone
            cases hnone
          · cases hout.symm.trans hother
            refine ⟨p'', rfl, hchanges.mono fun x y hin => ?_⟩
            rw [if_neg hempty]
            exact ⟨done', List.mem_append_right _ (List.mem_singleton.mpr rfl), hin⟩
          · show DirtyRegion.Within (if done'.isEmpty = true then _ else _) 65535 65535
            rw [if_neg hempty]
            intro r hr
            rcases List.mem_append.mp hr with hr | hr
            · exact hw r hr
            · rw [List.mem_singleton.mp hr]
              have hwidth := output.width.toNat_lt
              have hheight := output.height.toNat_lt
              exact ⟨le_trans hright (by omega), le_trans hbottom (by omega)⟩
      · cases h
        exact .same hs rfl rfl rfl
  · cases h
    exact .same hs rfl rfl rfl

theorem touch_noted (hs : s.Bounded) (h : s.touch id rect = some s') : Noted s s' := by
  unfold touch at h
  split at h
  · cases h
    exact .same hs rfl rfl rfl
  · split at h
    · cases h
      exact .same hs rfl rfl rfl
    · exact compose_noted hs h

theorem foldlM_noted {α : Type} {f : Pipeline → α → Option Pipeline}
    (hf : ∀ s a s', s.Bounded → f s a = some s' → Noted s s' ∧ s'.Bounded) {l : List α} (hs : s.Bounded)
    (h : l.foldlM f s = some s') : Noted s s' := by
  induction l generalizing s with
  | nil =>
    cases h
    exact .same hs rfl rfl rfl
  | cons a l ih =>
    rw [List.foldlM_cons] at h
    obtain ⟨s₁, hstep, hrest⟩ := Option.bind_eq_some_iff.mp h
    obtain ⟨hnoted, hs₁⟩ := hf s a s₁ hs hstep
    exact hnoted.trans (ih hs₁ hrest)

theorem updated_noted (hs : s.Bounded) {result : Option (List Rect)} (h : s.updated id result = some s') :
    Noted s s' := by
  cases result with
  | none =>
    cases h
    exact .same hs rfl rfl rfl
  | some rects =>
    refine foldlM_noted (fun s r s' hs hr => ?_) hs h
    obtain ⟨s₁, htouch, hredrawn⟩ := touch_bounded hs id r
    cases htouch.symm.trans hr
    exact ⟨touch_noted hs hr, hs.redrawn hredrawn⟩

theorem draw_noted (hs : s.Bounded) {f : Pixels → Option Written} (hf : Draws f)
    (h : s.draw id f = some s') : Noted s s' := by
  unfold draw at h
  split at h
  · cases h
    exact .same hs rfl rfl rfl
  · rename_i surface hsurface
    obtain ⟨⟨p', result⟩, hsome, hupdated⟩ := Option.bind_eq_some_iff.mp h
    have hbounded := hs.painted hf hsurface hsome
    exact (@Noted.same _ { s with surfaces := s.surfaces.set id { surface with pixels := p' } } hs rfl rfl rfl).trans
      (updated_noted hbounded hupdated)

theorem map_noted (hs : s.Bounded) {x y : UInt32} (h : s.map id x y = some s') : Noted s s' := by
  unfold map at h
  split at h
  · cases h
    exact .same hs rfl rfl rfl
  · rename_i surface hsurface
    have hmoved : Noted s { s with surfaces := s.surfaces.set id { surface with origin := some (x, y) } } :=
      .same hs rfl rfl rfl
    exact hmoved.trans (touch_noted (hs.moved hsurface (some (x, y))) h)

theorem endFrame_noted (hs : s.Bounded) (h : s.endFrame = some s') : Noted s s' := by
  obtain ⟨s₁, hcompose, hs'⟩ := Option.bind_eq_some_iff.mp h
  cases hs'
  have hopen : ({ s with inFrame := false, pending := .empty } : Pipeline).Bounded :=
    ⟨hs.stored, hs.cached, hs.output⟩
  have hcleared : Noted s { s with inFrame := false, pending := .empty } := .same hs rfl rfl rfl
  have hfold : Noted { s with inFrame := false, pending := .empty } s₁ ∧ s₁.Bounded := by
    refine ⟨foldlM_noted (fun s e s' hs he => ?_) hopen hcompose, ?_⟩
    · obtain ⟨s₂, hshown, hredrawn⟩ := compose_bounded hs e.1 e.2
      cases hshown.symm.trans he
      exact ⟨compose_noted hs he, hs.redrawn hredrawn⟩
    · have hclosed : ({ s with inFrame := false } : Pipeline).Bounded := ⟨hs.stored, hs.cached, hs.output⟩
      obtain ⟨s₂, hshown, hredrawn⟩ := composePending_bounded hclosed
      cases hshown.symm.trans hcompose
      exact hclosed.redrawn hredrawn
  exact (hcleared.trans hfold.1).trans (.same hfold.2 rfl rfl rfl)

theorem evict_noted (hs : s.Bounded) {slot : UInt16} (h : s.evict slot = some s') : Noted s s' := by
  obtain ⟨rest, -, h⟩ := Option.bind_eq_some_iff.mp h
  cases h
  exact .same hs rfl rfl rfl

theorem cachePut_noted (hs : s.Bounded) {slot : UInt16} {entry : Pixels} (h : s.cachePut slot entry = some s') :
    Noted s s' := by
  unfold cachePut at h
  split at h
  · cases h
    exact .same hs rfl rfl rfl
  · obtain ⟨s₁, hevict, h⟩ := Option.bind_eq_some_iff.mp h
    obtain ⟨s₂, hevicted, hs₁, -⟩ := evict_bounded hs slot
    cases hevicted.symm.trans hevict
    have hnoted := evict_noted hs hevict
    split at h
    · cases h
      exact hnoted
    · cases h
      exact hnoted.trans (.same hs₁ rfl rfl rfl)

theorem act_told (hs : s.Bounded) {pdu : Pdu} (h : s.act pdu = some s') : Told s s' := by
  have hsame : Told s s := .same hs rfl rfl rfl
  cases pdu with
  | capabilitiesConfirm set =>
    cases h
    exact .same hs rfl rfl rfl
  | resetGraphics width height =>
    cases h
    refine ⟨.inl (Option.some_ne_none _), fun _ r hr => ?_⟩
    cases hr
  | createSurface id width height =>
    obtain ⟨rest, -, h⟩ := Option.bind_eq_some_iff.mp h
    dsimp only at h
    split at h
    · cases h
      exact .same hs rfl rfl rfl
    · cases h
      exact .same hs rfl rfl rfl
  | deleteSurface id =>
    obtain ⟨rest, -, h⟩ := Option.bind_eq_some_iff.mp h
    cases h
    exact .same hs rfl rfl rfl
  | mapSurfaceToOutput id x y | mapSurfaceToScaledOutput id x y =>
    exact (map_noted hs h).told
  | startFrame =>
    cases h
    exact .same hs rfl rfl rfl
  | endFrame frameId => exact (endFrame_noted hs h).told
  | wireToSurface1 id destination payload =>
    exact (draw_noted hs (payloadOn_draws s destination.rect payload).1 h).told
  | wireToSurface2 id tiles => exact (draw_noted hs (progressive_draws tiles).1 h).told
  | deleteEncodingContext =>
    cases h
    exact hsame
  | solidFill id r g b rectangles =>
    exact (draw_noted hs (draws_all fun p hp => fillAll_draws ⟨r, g, b, 0xff⟩ rectangles hp).1 h).told
  | surfaceToSurface source destination rectangle points =>
    unfold act surfaceToSurface at h
    dsimp only at h
    split at h
    · cases h
      exact hsame
    · obtain ⟨⟨rect, block⟩, -, h⟩ := Option.bind_eq_some_iff.mp h
      exact (draw_noted hs (draws_all fun p hp => writeAll_draws rect.w rect.h block points hp).1 h).told
  | surfaceToCache id slot rectangle =>
    unfold act surfaceToCache at h
    dsimp only at h
    split at h
    · cases h
      exact hsame
    · obtain ⟨⟨rect, data⟩, -, h⟩ := Option.bind_eq_some_iff.mp h
      exact (cachePut_noted hs h).told
  | cacheToSurface slot id points =>
    unfold act cacheToSurface at h
    dsimp only at h
    split at h
    · cases h
      exact hsame
    · rename_i entry _
      exact (draw_noted hs (draws_all fun p hp =>
        writeAll_draws entry.width entry.height entry.data points hp).1 h).told
  | evictCacheEntry slot => exact (evict_noted hs h).told
  | other =>
    cases h
    exact hsame

end Pipeline

end Gfx

end UwuRdp
