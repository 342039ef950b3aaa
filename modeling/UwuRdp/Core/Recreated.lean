import UwuRdp.Core.Decoders

/-!
# Surfaces that are created again

A surface created under a number that is taken replaces the old one. The pipeline goes on as if the old
one had been deleted first; what the decoders keep for the number stays, and the updates of the new
surface are decoded on top of it.
-/

namespace UwuRdp

open Lib

namespace Gfx

namespace Pipeline

variable {s s' s'' : Pipeline} {h264 : Bool} {id : UInt16} {rect : Rect} {pdu : Pdu}

/-! ## Between messages -/

/-- What holds between messages: outside of a frame nothing waits, and every surface has pixels. -/
structure Settled (s : Pipeline) (h264 : Bool) : Prop where
  bounded : s.Bounded
  decoder : s.h264 = h264
  closed : s.inFrame = false → ∀ id, s.pending.get? id = none
  filled : ∀ id surface, s.surfaces.get? id = some surface →
    surface.pixels.width ≠ 0 ∧ surface.pixels.height ≠ 0

/-- Only the output and what waits for it may differ, and outside of a frame nothing comes to wait. -/
structure Repaints (s s' : Pipeline) : Prop where
  surfaces : s'.surfaces = s.surfaces
  decoder : s'.h264 = s.h264
  inFrame : s'.inFrame = s.inFrame
  pending : s.inFrame = false → s'.pending = s.pending

theorem Repaints.refl : Repaints s s := ⟨rfl, rfl, rfl, fun _ => rfl⟩

theorem Repaints.trans (h : Repaints s s') (h' : Repaints s' s'') : Repaints s s'' where
  surfaces := h'.surfaces.trans h.surfaces
  decoder := h'.decoder.trans h.decoder
  inFrame := h'.inFrame.trans h.inFrame
  pending hclosed := (h'.pending (h.inFrame.trans hclosed)).trans (h.pending hclosed)

theorem compose_pending (h : s.compose id rect = some s') : Repaints s s' ∧ s'.pending = s.pending := by
  unfold compose at h
  split at h
  · split at h
    · cases h
      exact ⟨.refl, rfl⟩
    · dsimp only at h
      split at h
      · obtain ⟨⟨output, written⟩, -, h⟩ := Option.bind_eq_some_iff.mp h
        cases h
        exact ⟨⟨rfl, rfl, rfl, fun _ => rfl⟩, rfl⟩
      · cases h
        exact ⟨.refl, rfl⟩
  · cases h
    exact ⟨.refl, rfl⟩

theorem touch_repaints (h : s.touch id rect = some s') : Repaints s s' := by
  unfold touch at h
  split at h
  · cases h
    exact .refl
  · split at h
    · next hframe =>
      cases h
      refine ⟨rfl, rfl, rfl, fun hclosed => ?_⟩
      rw [hframe] at hclosed
      cases hclosed
    · exact (compose_pending h).1

theorem foldlM_repaints {α : Type} {f : Pipeline → α → Option Pipeline}
    (hf : ∀ s a s', f s a = some s' → Repaints s s') (as : List α) (h : as.foldlM f s = some s') : Repaints s s' := by
  induction as generalizing s with
  | nil =>
    cases h
    exact .refl
  | cons a as ih =>
    rw [List.foldlM_cons] at h
    obtain ⟨s₁, hstep, hrest⟩ := Option.bind_eq_some_iff.mp h
    exact (hf s a s₁ hstep).trans (ih hrest)

variable {result : Option (List Rect)} {f : Pixels → Option Written} {slot : UInt16} {rest : ℕ}

theorem updated_repaints (h : s.updated id result = some s') : Repaints s s' := by
  unfold updated at h
  split at h
  · exact foldlM_repaints (fun _ _ _ => touch_repaints) _ h
  · cases h
    exact .refl

theorem Settled.repaints (hs : s.Settled h264) (hbounded : s'.Bounded) (h : Repaints s s') : s'.Settled h264 where
  bounded := hbounded
  decoder := h.decoder.trans hs.decoder
  closed hclosed := by
    have hopen := h.inFrame.symm.trans hclosed
    rw [h.pending hopen]
    exact hs.closed hopen
  filled id surface hsurface := hs.filled id surface (by rw [← h.surfaces, hsurface])

theorem Settled.surfaces (hs : s.Settled h264) (hbounded : s'.Bounded) (hdecoder : s'.h264 = s.h264) (hframe : s'.inFrame = s.inFrame)
    (hpending : ∀ id, s.pending.get? id = none → s'.pending.get? id = none)
    (hfilled : ∀ id surface, s'.surfaces.get? id = some surface →
      surface.pixels.width ≠ 0 ∧ surface.pixels.height ≠ 0) : s'.Settled h264 where
  bounded := hbounded
  decoder := hdecoder.trans hs.decoder
  closed hclosed id := hpending id (hs.closed (hframe.symm.trans hclosed) id)
  filled := hfilled

theorem draw_settled (hs : s.Settled h264) (hf : Draws f) (h : s.draw id f = some s') : s'.Settled h264 := by
  obtain ⟨s₁, hdraw, hbounded⟩ := draw_bounded hs.bounded id hf
  cases hdraw.symm.trans h
  unfold draw at h
  split at h
  · cases h
    exact hs
  · next surface hsurface =>
    obtain ⟨⟨p', result⟩, hsome, hupdated⟩ := Option.bind_eq_some_iff.mp h
    obtain ⟨r, hr, hwrote⟩ := hf surface.pixels (hs.bounded.stored.valid id surface hsurface)
    cases hr.symm.trans hsome
    have hpainted := hs.bounded.painted hf hsurface hsome
    refine Settled.repaints (hs.surfaces hpainted rfl rfl (fun _ h => h) fun i other hi => ?_) hbounded
      (updated_repaints hupdated)
    rw [Table.get?_set] at hi
    split at hi
    · cases hi
      have hold := hs.filled id surface hsurface
      rw [hwrote.changes.width, hwrote.changes.height]
      exact hold
    · exact hs.filled i other hi

theorem createSurface_settled (hs : s.Settled h264) {width height : UInt16}
    (h : s.createSurface id width height = some s') : s'.Settled h264 := by
  obtain ⟨s₁, hcreate, hbounded⟩ := createSurface_bounded hs.bounded id width height
  cases hcreate.symm.trans h
  unfold createSurface at h
  obtain ⟨rest, -, h⟩ := Option.bind_eq_some_iff.mp h
  dsimp only at h
  have hrest : ∀ i other, (s.surfaces.erase id).get? i = some other →
      other.pixels.width ≠ 0 ∧ other.pixels.height ≠ 0 := by
    intro i other hi
    rw [Table.get?_erase] at hi
    split at hi
    · cases hi
    · exact hs.filled i other hi
  split at h
  · cases h
    exact hs.surfaces hbounded rfl rfl (fun _ h => h) hrest
  · next hfits =>
    cases h
    refine hs.surfaces hbounded rfl rfl (fun _ h => h) fun i other hi => ?_
    rw [Table.get?_set] at hi
    split at hi
    · cases hi
      exact ⟨fun h => hfits (.inl h), fun h => hfits (.inr (.inl h))⟩
    · exact hrest i other hi

theorem deleteSurface_settled (hs : s.Settled h264) (h : s.deleteSurface id = some s') : s'.Settled h264 := by
  obtain ⟨s₁, hdelete, hbounded⟩ := deleteSurface_bounded hs.bounded id
  cases hdelete.symm.trans h
  unfold deleteSurface at h
  obtain ⟨rest, -, h⟩ := Option.bind_eq_some_iff.mp h
  cases h
  refine hs.surfaces hbounded rfl rfl (fun i hi => ?_) fun i other hi => ?_
  · rw [Table.get?_erase]
    split
    · rfl
    · exact hi
  · rw [Table.get?_erase] at hi
    split at hi
    · cases hi
    · exact hs.filled i other hi

theorem map_settled (hs : s.Settled h264) {x y : UInt32} (h : s.map id x y = some s') : s'.Settled h264 := by
  obtain ⟨s₁, hmap, hbounded⟩ := map_bounded hs.bounded id x y
  cases hmap.symm.trans h
  unfold map at h
  split at h
  · cases h
    exact hs
  · next surface hsurface =>
    have hmoved := hs.bounded.moved hsurface (some (x, y))
    refine Settled.repaints (hs.surfaces hmoved rfl rfl (fun _ h => h) fun i other hi => ?_) hbounded
      (touch_repaints h)
    rw [Table.get?_set] at hi
    split at hi
    · cases hi
      exact hs.filled id surface hsurface
    · exact hs.filled i other hi

theorem resetGraphics_settled (hs : s.Settled h264) (width height : UInt32) :
    (s.resetGraphics width height).Settled h264 where
  bounded := resetGraphics_bounded hs.bounded width height
  decoder := hs.decoder
  closed _ _ := rfl
  filled i surface hi := by
    rw [show (s.resetGraphics width height).surfaces =
      s.surfaces.map fun _ surface => { surface with pixels := surface.pixels.clear } from rfl,
      Table.get?_map] at hi
    obtain ⟨old, hold, rfl⟩ := Option.map_eq_some_iff.mp hi
    exact hs.filled i old hold

theorem evict_repaints (h : s.evict slot = some s') : Repaints s s' := by
  unfold evict at h
  obtain ⟨rest, -, h⟩ := Option.bind_eq_some_iff.mp h
  cases h
  exact ⟨rfl, rfl, rfl, fun _ => rfl⟩

theorem cachePut_repaints {entry : Pixels} (h : s.cachePut slot entry = some s') : Repaints s s' := by
  unfold cachePut at h
  split at h
  · cases h
    exact .refl
  · obtain ⟨s₁, hevict, h⟩ := Option.bind_eq_some_iff.mp h
    have hevicted := evict_repaints hevict
    split at h
    · cases h
      exact hevicted
    · cases h
      exact ⟨hevicted.surfaces, hevicted.decoder, hevicted.inFrame, hevicted.pending⟩

theorem foldlM_compose_pending {areas : List (UInt16 × Rect)}
    (h : areas.foldlM (fun s e => s.compose e.1 e.2) s = some s') :
    s'.surfaces = s.surfaces ∧ s'.h264 = s.h264 ∧ s'.pending = s.pending := by
  induction areas generalizing s with
  | nil =>
    cases h
    exact ⟨rfl, rfl, rfl⟩
  | cons e areas ih =>
    rw [List.foldlM_cons] at h
    obtain ⟨s₁, hstep, hrest⟩ := Option.bind_eq_some_iff.mp h
    obtain ⟨hrepaints, hpending⟩ := compose_pending hstep
    obtain ⟨hsurfaces', hdecoder', hpending'⟩ := ih hrest
    exact ⟨hsurfaces'.trans hrepaints.surfaces, hdecoder'.trans hrepaints.decoder, hpending'.trans hpending⟩

theorem endFrame_settled (hs : s.Settled h264) (h : s.endFrame = some s') (hbounded : s'.Bounded) :
    s'.Settled h264 := by
  unfold endFrame at h
  obtain ⟨s₁, hcompose, h⟩ := Option.bind_eq_some_iff.mp h
  cases h
  obtain ⟨hsurfaces, hdecoder, hpending⟩ := foldlM_compose_pending hcompose
  refine ⟨hbounded, hdecoder.trans hs.decoder, fun _ i => ?_, fun i surface hi => hs.filled i surface ?_⟩
  · show s₁.pending.get? i = none
    rw [hpending]
    rfl
  · exact hsurfaces ▸ hi

theorem act_settled (hs : s.Settled h264) (h : s.act pdu = some s') : s'.Settled h264 := by
  obtain ⟨s₁, hact, hbounded⟩ := act_bounded hs.bounded pdu
  obtain rfl := Option.some.inj (hact.symm.trans h)
  cases pdu with
  | capabilitiesConfirm set =>
    cases h
    exact ⟨hbounded, hs.decoder, hs.closed, hs.filled⟩
  | resetGraphics width height =>
    cases h
    exact resetGraphics_settled hs width height
  | createSurface id width height => exact createSurface_settled hs h
  | deleteSurface id => exact deleteSurface_settled hs h
  | mapSurfaceToOutput id x y | mapSurfaceToScaledOutput id x y => exact map_settled hs h
  | startFrame =>
    cases h
    exact ⟨hbounded, hs.decoder, fun hopen => (nomatch hopen), hs.filled⟩
  | endFrame frameId => exact endFrame_settled hs h hbounded
  | wireToSurface1 id destination payload =>
    exact draw_settled hs (payloadOn_draws s destination.rect payload).1 h
  | wireToSurface2 id tiles => exact draw_settled hs (progressive_draws tiles).1 h
  | deleteEncodingContext =>
    cases h
    exact hs
  | solidFill id r g b rectangles =>
    exact draw_settled hs (draws_all fun p hp => fillAll_draws ⟨r, g, b, 0xff⟩ rectangles hp).1 h
  | surfaceToSurface source destination rectangle points =>
    have h : s.surfaceToSurface source destination rectangle points = some s₁ := h
    unfold surfaceToSurface at h
    split at h
    · cases h
      exact hs
    · obtain ⟨data, -, h⟩ := Option.bind_eq_some_iff.mp h
      exact draw_settled hs (draws_all fun p hp => writeAll_draws _ _ _ points hp).1 h
  | surfaceToCache id slot rectangle =>
    have h : s.surfaceToCache id slot rectangle = some s₁ := h
    unfold surfaceToCache at h
    split at h
    · cases h
      exact hs
    · obtain ⟨data, -, h⟩ := Option.bind_eq_some_iff.mp h
      exact hs.repaints hbounded (cachePut_repaints h)
  | cacheToSurface slot id points =>
    have h : s.cacheToSurface slot id points = some s₁ := h
    unfold cacheToSurface at h
    split at h
    · cases h
      exact hs
    · exact draw_settled hs (draws_all fun p hp => writeAll_draws _ _ _ points hp).1 h
  | evictCacheEntry slot => exact hs.repaints hbounded (evict_repaints h)
  | other =>
    cases h
    exact hs

def others (s : Pipeline) (id : UInt16) : Option ℕ :=
  sub s.surfaceBytes ((s.surfaces.get? id).elim 0 fun old => old.pixels.data.length)

theorem Settled.room (hs : s.Settled h264) {old : Surface} (hold : s.surfaces.get? id = some old) :
    ∃ rest, s.others id = some rest ∧ rest + 4 ≤ maxSurfaceBytes := by
  have hsum := Table.total_erase (fun surface : Surface => surface.pixels.data.length) s.surfaces id
  rw [hold] at hsum
  have hsum : _ + old.pixels.data.length = _ := hsum
  have hcounted := hs.bounded.stored.counted
  have hlimit := hs.bounded.stored.limit
  have hvalid := hs.bounded.stored.valid id old hold
  obtain ⟨hwidth, hheight⟩ := hs.filled id old hold
  have hw : 0 < old.pixels.width.toNat := Nat.pos_of_ne_zero fun h => hwidth (UInt16.toNat_inj.mp h)
  have hh : 0 < old.pixels.height.toNat := Nat.pos_of_ne_zero fun h => hheight (UInt16.toNat_inj.mp h)
  have harea := Nat.mul_pos hh hw
  unfold Pixels.Valid at hvalid
  refine ⟨s.surfaceBytes - old.pixels.data.length, ?_, ?_⟩
  · unfold others
    rw [hold]
    exact sub_ok (show old.pixels.data.length ≤ s.surfaceBytes by omega)
  · show s.surfaceBytes - old.pixels.data.length + 4 ≤ maxSurfaceBytes
    omega

theorem createSurface_others (hrest : s.others id = some rest) (width height : UInt16) :
    ∃ s', s.createSurface id width height = some s' ∧ s'.others id = some rest ∧ s'.allowed = s.allowed := by
  have hgone : (s.surfaces.erase id).get? id = none := by rw [Table.get?_erase, if_pos rfl]
  unfold others at hrest
  unfold createSurface
  dsimp only
  rw [hrest]
  dsimp only [Option.bind_eq_bind, Option.bind_some]
  split
  · refine ⟨_, rfl, ?_, rfl⟩
    unfold others
    rw [hgone]
    exact sub_ok (Nat.zero_le rest)
  · refine ⟨_, rfl, ?_, rfl⟩
    have hlen : (Pixels.new width height).data.length = width.toNat * height.toNat * 4 := by
      rw [Nat.mul_comm width.toNat]
      exact Pixels.valid_new width height
    unfold others
    rw [Table.get?_set_self]
    dsimp only [Option.elim_some]
    rw [hlen, sub_ok (Nat.le_add_left _ _), Nat.add_sub_cancel]

theorem createSurface_pixel (hrest : s.others id = some rest) (hroom : rest + 4 ≤ maxSurfaceBytes) : ∃ s',
    s.createSurface id 1 1 = some s' ∧ s'.surfaces.get? id = some ⟨Pixels.new 1 1, none⟩ := by
  unfold others at hrest
  unfold createSurface
  dsimp only
  rw [hrest]
  dsimp only [Option.bind_eq_bind, Option.bind_some]
  rw [if_neg]
  · exact ⟨_, rfl, Table.get?_set_self _ _ _⟩
  · have hmax : ¬maxSurfaceBytes < rest + 4 := Nat.not_lt.mpr hroom
    rintro (h | h | h | h | h)
    · cases h
    · cases h
    · exact absurd h (by decide)
    · exact absurd h (by decide)
    · exact hmax h

theorem draw_pixels {surface : Surface} {pixels : Pixels} (hget : s.surfaces.get? id = some surface)
    (hf : f surface.pixels = some (pixels, result)) (h : s.draw id f = some s') :
    s'.surfaces.get? id = some { surface with pixels := pixels } := by
  unfold draw at h
  rw [hget] at h
  dsimp only at h
  rw [hf] at h
  rw [(updated_repaints h).surfaces, Table.get?_set_self]

theorem createSurface_deleted (hnone : s.pending.get? id = none) (width height : UInt16) :
    (s.deleteSurface id).bind (fun s => s.createSurface id width height) = s.createSurface id width height := by
  have hpending : s.pending.erase id = s.pending := Table.erase_of_none hnone
  unfold deleteSurface createSurface
  dsimp only
  rcases hsub : sub s.surfaceBytes ((s.surfaces.get? id).elim 0 fun old => old.pixels.data.length) with _ | rest
  · rfl
  · have hgone : (s.surfaces.erase id).get? id = none := by rw [Table.get?_erase, if_pos rfl]
    have hagain : (s.surfaces.erase id).erase id = s.surfaces.erase id := Table.erase_of_none hgone
    dsimp only [Option.bind_eq_bind, Option.bind_some]
    rw [hgone, hagain, hpending]
    dsimp only [Option.elim_none]
    rw [sub_ok (Nat.zero_le rest), Nat.sub_zero]
    rfl

end Pipeline

namespace Live

variable {P H C : Type} {M : Decoders P H C} {s s' : Live P H C} {h264 : Bool} {id : UInt16}

/-! ## Runs -/

/-- What holds between messages: and without an H.264 decoder there are no streams. -/
structure Sound (s : Live P H C) (h264 : Bool) : Prop where
  settled : s.pipeline.Settled h264
  streams : h264 = false → ∀ id, s.streams.get? id = none

theorem acts_sound {pdu : Pdu} (hs : s.Sound h264) (h : s.acts pdu = some s') : s'.Sound h264 := by
  obtain ⟨pipeline, hact, rfl⟩ := Option.map_eq_some_iff.mp h
  exact ⟨Pipeline.act_settled hs.settled hact, hs.streams⟩

theorem payload_sound (hs : s.Sound h264) (codec : Codec) (dest : Rect) (data : List UInt8) :
    (s.payload M id codec dest data).2.Sound h264 := by
  have havc : ∀ codec allowed, (s.avc M id codec allowed dest data).2.Sound h264 := by
    intro codec allowed
    unfold avc
    split
    · next hboth =>
      refine ⟨hs.settled, fun hnone => ?_⟩
      rw [← hs.settled.decoder, hboth.2] at hnone
      cases hnone
    · exact hs
  cases codec with
  | avc420 | avc444 | avc444v2 => exact havc _ _
  | _ => exact ⟨hs.settled, hs.streams⟩

theorem told_sound (hs : s.Sound h264) (pdu : Pdu) : (s.told M pdu).Sound h264 := by
  cases pdu with
  | deleteSurface id =>
    refine ⟨hs.settled, fun hnone i => ?_⟩
    show (s.streams.erase id).get? i = none
    rw [Table.get?_erase, hs.streams hnone i, ite_self]
  | _ => exact ⟨hs.settled, hs.streams⟩

theorem act_missing (h : s.pipeline.surfaces.get? id = none) :
    (∀ codec destination data, s.act M (.wireToSurface1 id codec destination data) = some s) ∧ ∀ context data, s.act M
    (.wireToSurface2 id context data) = some s := by
  refine ⟨fun codec destination data => ?_, fun context data => ?_⟩
  · unfold act
    dsimp only
    rw [h]
  · unfold act
    dsimp only
    rw [h]

variable {surface : Surface} {t : Live P H C}

theorem act_wireToSurface1 (h : s.pipeline.surfaces.get? id = some surface) (codec : Codec) (destination : Edges)
    (data : List UInt8) : s.act M (.wireToSurface1 id codec destination data) =
    (s.payload M id codec destination.rect data).2.acts
    (.wireToSurface1 id destination (s.payload M id codec destination.rect data).1) := by
  unfold act
  dsimp only
  rw [h]

theorem act_wireToSurface2 (h : s.pipeline.surfaces.get? id = some surface)
    (context : UInt32) (data : List UInt8) : s.act M (.wireToSurface2 id context data) =
      ({ s with contexts := put s.contexts id (M.progressive (s.contexts.get? id) context
        surface.pixels.width surface.pixels.height data s.pipeline.inFrame).1 } : Live P H C).acts
        (.wireToSurface2 id (M.progressive (s.contexts.get? id) context surface.pixels.width
          surface.pixels.height data s.pipeline.inFrame).2) := by
  unfold act
  dsimp only
  rw [h]

variable {message : Message} {answers : List FrameAcknowledge}

theorem act_sound (hs : s.Sound h264) (h : s.act M message = some s') : s'.Sound h264 := by
  cases message with
  | wireToSurface1 id codec destination data =>
    rcases hget : s.pipeline.surfaces.get? id with _ | surface
    · rw [(act_missing hget).1] at h
      cases h
      exact hs
    · rw [act_wireToSurface1 hget] at h
      exact acts_sound (payload_sound hs codec destination.rect data) h
  | wireToSurface2 id context data =>
    rcases hget : s.pipeline.surfaces.get? id with _ | surface
    · rw [(act_missing hget).2] at h
      cases h
      exact hs
    · rw [act_wireToSurface2 hget] at h
      refine acts_sound ?_ h
      exact ⟨hs.settled, hs.streams⟩
  | deleteEncodingContext id context =>
    cases h
    exact ⟨hs.settled, hs.streams⟩
  | plain pdu => exact acts_sound (told_sound hs pdu) h

theorem call_sound {c : Call} (hs : s.Sound h264) (h : s.call M c = some (s', answers)) : s'.Sound h264 := by
  cases c with
  | handle message =>
    obtain ⟨s₁, hact, he⟩ := Option.map_eq_some_iff.mp h
    cases he
    exact act_sound hs hact
  | takeChanges =>
    cases h
    have hbounded := hs.settled.bounded
    exact ⟨⟨⟨hbounded.stored, hbounded.cached, hbounded.output⟩, hs.settled.decoder, hs.settled.closed,
      hs.settled.filled⟩, hs.streams⟩

theorem run_sound {calls : List Call} (hs : s.Sound h264)
    (h : run M s calls = some (s', answers)) : s'.Sound h264 := by
  induction calls generalizing s answers with
  | nil =>
    cases h
    exact hs
  | cons c calls ih =>
    unfold run at h
    obtain ⟨⟨s₁, first⟩, hcall, h⟩ := Option.bind_eq_some_iff.mp h
    obtain ⟨⟨s₂, more⟩, hrest, he⟩ := Option.bind_eq_some_iff.mp h
    cases he
    exact ih (call_sound hs hcall) hrest

theorem new_sound (h264 : Bool) (shared : C) : (new h264 shared : Live P H C).Sound h264 where
  settled :=
    { bounded := Pipeline.bounded_new h264
      decoder := rfl
      closed := fun _ _ => rfl
      filled := fun _ _ h => nomatch h }
  streams _ _ := rfl

/-! ## Created again -/

/-- A state that some decoders and some calls lead to. -/
def Reached (s : Live P H C) : Prop :=
  ∃ (M : Decoders P H C) (h264 : Bool) (shared : C) (calls : List Call) (answers : List FrameAcknowledge),
    run M (new h264 shared) calls = some (s, answers)

theorem Reached.sound (h : s.Reached) : ∃ h264, s.Sound h264 := by
  obtain ⟨M, h264, shared, calls, answers, hrun⟩ := h
  exact ⟨h264, run_sound (new_sound h264 shared) hrun⟩

def createCall (id width height : UInt16) : Call := .handle (.plain (.createSurface id width height))

def deleteCall (id : UInt16) : Call := .handle (.plain (.deleteSurface id))

/-- Whatever the decoders do and whatever comes later, creating a surface shows the same as deleting and
creating it. -/
def RecreatesAlike (s : Live P H C) (id width height : UInt16) : Prop :=
  ∀ (M : Decoders P H C) (later : List Call), observe M s (createCall id width height :: later) =
    observe M s (deleteCall id :: createCall id width height :: later)

def Blank (s : Live P H C) (id : UInt16) : Prop :=
  s.contexts.get? id = none ∧ s.streams.get? id = none

theorem observe_cons (M : Decoders P H C) (s : Live P H C) (c : Call) (calls : List Call) : observe M s (c :: calls) =
    (s.call M c).bind fun r => (observe M r.1 calls).map fun seen => (seen.1, r.2 ++ seen.2) := by
  unfold observe
  rw [run]
  cases s.call M c with
  | none => rfl
  | some r =>
    show ((run M r.1 calls).bind _).map _ = ((run M r.1 calls).map _).map _
    cases run M r.1 calls <;> rfl

theorem map_no_answers (seen : Option (Pipeline × List FrameAcknowledge)) :
    seen.map (fun seen => (seen.1, [] ++ seen.2)) = seen := by
  cases seen <;> rfl

def without (s : Live P H C) (id : UInt16) : Live P H C :=
  { s with contexts := s.contexts.erase id, streams := s.streams.erase id }

theorem observe_create (M : Decoders P H C) (s : Live P H C) (id width height : UInt16) (later : List Call) :
    observe M s (createCall id width height :: later) =
      (s.pipeline.createSurface id width height).bind fun p => observe M { s with pipeline := p } later := by
  rw [observe_cons]
  show ((((s.pipeline.createSurface id width height).map _).map _).bind _) = _
  cases s.pipeline.createSurface id width height with
  | none => rfl
  | some p =>
    exact map_no_answers (observe M { s with pipeline := p } later)

theorem observe_delete (M : Decoders P H C) (s : Live P H C) (id : UInt16) (later : List Call) :
    observe M s (deleteCall id :: later) =
      (s.pipeline.deleteSurface id).bind fun p => observe M { s.without id with pipeline := p } later := by
  rw [observe_cons]
  show ((((s.pipeline.deleteSurface id).map _).map _).bind _) = _
  cases s.pipeline.deleteSurface id with
  | none => rfl
  | some p =>
    exact map_no_answers (observe M { s.without id with pipeline := p } later)

theorem observe_recreate (M : Decoders P H C) (hnone : s.pipeline.pending.get? id = none) (width height : UInt16)
    (later : List Call) : observe M s (deleteCall id :: createCall id width height :: later) = observe M
    (s.without id) (createCall id width height :: later) := by
  rw [observe_delete, observe_create]
  have hcreate := Pipeline.createSurface_deleted hnone width height
  cases hdelete : s.pipeline.deleteSurface id with
  | none =>
    rw [hdelete] at hcreate
    show none = (s.pipeline.createSurface id width height).bind _
    rw [← hcreate]
    rfl
  | some p =>
    rw [hdelete] at hcreate
    show observe M { s.without id with pipeline := p } (createCall id width height :: later) =
      (s.pipeline.createSurface id width height).bind _
    rw [observe_create, ← hcreate]
    rfl

theorem without_blank (h : s.Blank id) : s.without id = s := by
  unfold without
  rw [Table.erase_of_none h.1, Table.erase_of_none h.2]

theorem observe_small (hs : s.Sound h264) {old : Surface} (hold : s.pipeline.surfaces.get? id = some old)
    (width height : UInt16) : ∃ p : Pipeline, p.Settled h264 ∧
      p.surfaces.get? id = some ⟨Pixels.new 1 1, none⟩ ∧ p.allowed = ⟨true, true⟩ ∧
        ∀ (M : Decoders P H C) (t : Live P H C) (later : List Call), t.pipeline = s.pipeline →
          observe M t (createCall id width height :: createCall id 1 1 ::
            .handle (.plain (.capabilitiesConfirm (some .v101))) :: later) =
              observe M { t with pipeline := p } later := by
  obtain ⟨rest, hrest, hroom⟩ := hs.settled.room hold
  obtain ⟨p₁, hfirst, hrest₁, -⟩ := Pipeline.createSurface_others hrest width height
  obtain ⟨p₂, hsecond, hget⟩ := Pipeline.createSurface_pixel hrest₁ hroom
  have hsettled := Pipeline.createSurface_settled (Pipeline.createSurface_settled hs.settled hfirst) hsecond
  refine ⟨{ p₂ with allowed := ⟨true, true⟩ }, ?_, hget, rfl, fun M t later ht => ?_⟩
  · exact @Pipeline.act_settled _ _ _ (.capabilitiesConfirm (some .v101)) hsettled rfl
  · rw [observe_create, ht, hfirst]
    show observe M { t with pipeline := p₁ } (createCall id 1 1 :: _) = _
    rw [observe_create]
    show (p₁.createSurface id 1 1).bind _ = _
    rw [hsecond]
    show observe M { t with pipeline := p₂ } (.handle _ :: later) = _
    rw [observe_cons]
    exact map_no_answers (observe M { t with pipeline := { p₂ with allowed := ⟨true, true⟩ } } later)

def whitePixel : List UInt8 := [0xff, 0xff, 0xff, 0xff]

/-- Decoders that draw a white pixel where they keep something for the surface. -/
def telling : Decoders P H C where
  progressive kept _ _ _ _ _ := (kept, if kept.isSome then some [⟨0, 0, whitePixel, [⟨0, 0, 1, 1⟩]⟩] else none)
  beginFrame kept := kept
  endFrame kept := kept
  deleteContext _ kept := some kept
  avc kept _ _ _ :=
    (kept, if kept.isSome then some ([⟨0, 0, 1, 1⟩], ⟨1, 1, fun _ _ => ⟨0xff, 0xff, 0xff, 0xff⟩⟩) else none)
  planar shared _ _ := (shared, none)
  clear shared _ _ := (shared, none)
  remoteFx shared _ := (shared, [])

theorem observe_handle (M : Decoders P H C) (t : Live P H C) (message : Message) :
    (observe M t [.handle message]).map Prod.fst = (t.act M message).map Live.pipeline := by
  rw [observe_cons]
  show (((t.act M message).map _).bind _).map Prod.fst = _
  cases t.act M message <;> rfl

theorem observe_draw {M : Decoders P H C} {f : Pixels → Option Written} {pixels : Pixels} {result : Option (List Rect)} (hs : t.pipeline.Bounded)
    (hget : t.pipeline.surfaces.get? id = some surface) (hdraws : Draws f)
    (hact : (t.act M message).map Live.pipeline = t.pipeline.draw id f)
    (hf : f surface.pixels = some (pixels, result)) :
    ∃ p answers, observe M t [.handle message] = some (p, answers) ∧
      p.surfaces.get? id = some { surface with pixels := pixels } := by
  obtain ⟨p, hdraw, -⟩ := Pipeline.draw_bounded hs id hdraws
  have hseen := observe_handle M t message
  rw [hact, hdraw] at hseen
  obtain ⟨⟨p', answers⟩, hobserve, rfl⟩ := Option.map_eq_some_iff.mp hseen
  exact ⟨p', answers, hobserve, Pipeline.draw_pixels hget hf hdraw⟩

theorem acts_pipeline (s : Live P H C) (pdu : Pdu) : (s.acts pdu).map Live.pipeline = s.pipeline.act pdu := by
  unfold acts
  cases s.pipeline.act pdu <;> rfl

def whiteSurface : Surface := ⟨⟨1, 1, whitePixel⟩, none⟩

theorem progressive_white : Gfx.progressive (Pixels.new 1 1)
    (some [⟨0, 0, whitePixel, [⟨0, 0, 1, 1⟩]⟩]) = some (⟨1, 1, whitePixel⟩, some [⟨0, 0, 1, 1⟩]) := by
  decide +kernel

theorem avc_white : Gfx.avc (Pixels.new 1 1) (some ([⟨0, 0, 1, 1⟩], ⟨1, 1, fun _ _ => ⟨0xff, 0xff, 0xff, 0xff⟩⟩)) =
    some (⟨1, 1, whitePixel⟩, some [⟨0, 0, 1, 1⟩]) := by
  decide +kernel

theorem observe_progressive (hs : t.pipeline.Bounded)
    (hget : t.pipeline.surfaces.get? id = some ⟨Pixels.new 1 1, none⟩) :
    ∃ p answers, observe telling t [.handle (.wireToSurface2 id 0 [])] = some (p, answers) ∧
      p.surfaces.get? id =
        some (if (t.contexts.get? id).isSome then whiteSurface else ⟨Pixels.new 1 1, none⟩) := by
  have hact : ∀ tiles, (((telling : Decoders P H C).progressive (t.contexts.get? id) 0 1 1 [] t.pipeline.inFrame).2 = tiles) →
      (t.act telling (.wireToSurface2 id 0 [])).map Live.pipeline =
        t.pipeline.draw id fun p => Gfx.progressive p tiles := by
    rintro tiles rfl
    rw [act_wireToSurface2 hget, acts_pipeline]
    rfl
  split
  · next hkept =>
    have hdrawn := hact (some [⟨0, 0, whitePixel, [⟨0, 0, 1, 1⟩]⟩]) (if_pos hkept)
    exact observe_draw hs hget (progressive_draws _).1 hdrawn progressive_white
  · next hkept =>
    exact observe_draw hs hget (progressive_draws _).1 (hact none (if_neg hkept)) rfl

theorem observe_avc (hs : t.pipeline.Bounded)
    (hget : t.pipeline.surfaces.get? id = some ⟨Pixels.new 1 1, none⟩)
    (hallowed : t.pipeline.allowed = ⟨true, true⟩) (hdecoder : t.pipeline.h264 = true) :
    ∃ p answers, observe telling t [.handle (.wireToSurface1 id .avc420 ⟨0, 0, 1, 1⟩ [])] =
        some (p, answers) ∧ p.surfaces.get? id =
          some (if (t.streams.get? id).isSome then whiteSurface else ⟨Pixels.new 1 1, none⟩) := by
  have hboth : t.pipeline.allowed.avc420 = true ∧ t.pipeline.h264 = true := ⟨by rw [hallowed], hdecoder⟩
  have hact : ∀ decoded, (((telling : Decoders P H C).avc (t.streams.get? id) .avc420 (Edges.rect ⟨0, 0, 1, 1⟩) []).2 = decoded) →
      (t.act telling (.wireToSurface1 id .avc420 ⟨0, 0, 1, 1⟩ [])).map Live.pipeline =
        t.pipeline.draw id (t.pipeline.payloadOn (Edges.rect ⟨0, 0, 1, 1⟩) (.avc420 decoded)) := by
    rintro decoded rfl
    rw [act_wireToSurface1 hget, acts_pipeline]
    unfold payload avc
    rw [if_pos hboth]
    rfl
  have hpayload : ∀ decoded p, t.pipeline.payloadOn (Edges.rect ⟨0, 0, 1, 1⟩) (.avc420 decoded) p =
      Gfx.avc p decoded := fun decoded p => if_pos hboth
  split
  · next hkept =>
    have hdrawn := (hpayload _ _).trans avc_white
    exact observe_draw hs hget (Pipeline.payloadOn_draws t.pipeline _ _).1 (hact _ (if_pos hkept)) hdrawn
  · next hkept =>
    have hdrawn : t.pipeline.payloadOn (Edges.rect ⟨0, 0, 1, 1⟩) (.avc420 none) (Pixels.new 1 1) =
      some (Pixels.new 1 1, none) := hpayload none _
    exact observe_draw hs hget (Pipeline.payloadOn_draws t.pipeline _ _).1 (hact none (if_neg hkept)) hdrawn

/-- **Exactly when creating a surface again is deleting and creating it**: when the decoders keep nothing
for it. -/
theorem recreates_alike_iff (hs : s.Reached) (hframe : s.pipeline.inFrame = false)
    (hid : s.pipeline.surfaces.get? id ≠ none) (width height : UInt16) :
    s.RecreatesAlike id width height ↔ s.Blank id := by
  obtain ⟨h264, hsound⟩ := hs.sound
  have hnone := hsound.settled.closed hframe id
  constructor
  · intro h
    obtain ⟨old, hold⟩ := Option.ne_none_iff_exists'.mp hid
    obtain ⟨p, hsettled, hget, hallowed, hsmall⟩ := observe_small hsound hold width height
    have hseen : ∀ message, observe telling { s with pipeline := p } [.handle message] =
        observe telling { s.without id with pipeline := p } [.handle message] := by
      intro message
      have halike := h telling (createCall id 1 1 :: .handle (.plain (.capabilitiesConfirm (some .v101))) ::
        [.handle message])
      rw [observe_recreate telling hnone, hsmall _ s _ rfl, hsmall _ (s.without id) _ rfl] at halike
      exact halike
    have hdiffers : whiteSurface ≠ ⟨Pixels.new 1 1, none⟩ := by decide +kernel
    have hgone : ∀ {α : Type} (kept : Table UInt16 α), ((kept.erase id).get? id).isSome = false := by
      intro α kept
      rw [Table.get?_erase, if_pos rfl]
      rfl
    constructor
    · by_contra hkept
      obtain ⟨p₁, answers₁, hfirst, hwhite⟩ :=
        observe_progressive (t := { s with pipeline := p }) hsettled.bounded hget
      obtain ⟨p₂, answers₂, hsecond, hblack⟩ :=
        observe_progressive (t := { s.without id with pipeline := p }) hsettled.bounded hget
      rw [if_pos (Option.isSome_iff_ne_none.mpr hkept)] at hwhite
      rw [show ({ s.without id with pipeline := p } : Live P H C).contexts = s.contexts.erase id from rfl,
        hgone] at hblack
      rw [hseen, hsecond] at hfirst
      cases hfirst
      exact hdiffers (Option.some.inj (hwhite.symm.trans hblack))
    · by_contra hkept
      have hdecoder : p.h264 = true := by
        rw [hsettled.decoder]
        by_contra hno
        exact hkept (hsound.streams (Bool.eq_false_of_not_eq_true hno) id)
      obtain ⟨p₁, answers₁, hfirst, hwhite⟩ :=
        observe_avc (t := { s with pipeline := p }) hsettled.bounded hget hallowed hdecoder
      obtain ⟨p₂, answers₂, hsecond, hblack⟩ :=
        observe_avc (t := { s.without id with pipeline := p }) hsettled.bounded hget hallowed hdecoder
      rw [if_pos (Option.isSome_iff_ne_none.mpr hkept)] at hwhite
      rw [show ({ s.without id with pipeline := p } : Live P H C).streams = s.streams.erase id from rfl,
        hgone] at hblack
      rw [hseen, hsecond] at hfirst
      cases hfirst
      exact hdiffers (Option.some.inj (hwhite.symm.trans hblack))
  · intro h M later
    rw [observe_recreate M hnone, without_blank h]

/-- Created and not drawn on, a surface is created again alike. -/
theorem recreates_alike_new :
    RecreatesAlike (P := Unit) (H := Unit)
      { new false () with pipeline := { Pipeline.new false with
          surfaces := Table.empty.set 1 ⟨Pixels.new 1 1, none⟩, surfaceBytes := 4 } } 1 2 2 :=
  (recreates_alike_iff ⟨telling, false, (), [createCall 1 1 1], [], rfl⟩ rfl (by decide) 2 2).mpr
    ⟨rfl, rfl⟩

/-- A progressive decoder that draws once a context was described for the surface: by data that begins
with a one. -/
def described : Decoders Unit Unit Unit where
  progressive kept _ _ _ data _ :=
    let kept := if data.head? = some 1 then some () else kept
    (kept, if kept.isSome then some [⟨0, 0, whitePixel, [⟨0, 0, 1, 1⟩]⟩] else none)
  beginFrame kept := kept
  endFrame kept := kept
  deleteContext _ kept := some kept
  avc kept _ _ _ := (kept, none)
  planar shared _ _ := (shared, none)
  clear shared _ _ := (shared, none)
  remoteFx shared _ := (shared, [])

/-- A surface is created and a context described for it. -/
def describedOnce : Option (Live Unit Unit Unit × List FrameAcknowledge) :=
  run described (new false ()) [createCall 1 1 1, .handle (.wireToSurface2 1 0 [1])]

/-- Created again, it takes an update without a description. Deleted and created, it does not. -/
theorem recreated_keeps_context :
    ∃ s answers, describedOnce = some (s, answers) ∧ s.pipeline.inFrame = false ∧
      (s.pipeline.surfaces.get? 1).isSome = true ∧
      ((observe described s [createCall 1 1 1, .handle (.wireToSurface2 1 0 [])]).map fun seen =>
        (seen.1.surfaces.get? 1).map fun surface => surface.pixels.data) =
          some (some [0xff, 0xff, 0xff, 0xff]) ∧
      ((observe described s [deleteCall 1, createCall 1 1 1, .handle (.wireToSurface2 1 0 [])]).map fun seen =>
        (seen.1.surfaces.get? 1).map fun surface => surface.pixels.data) = some (some [0, 0, 0, 0xff]) ∧
      ¬RecreatesAlike s 1 1 1 := by
  have hwhite : describedOnce.bind (fun r =>
      (observe described r.1 [createCall 1 1 1, .handle (.wireToSurface2 1 0 [])]).map fun seen =>
        (seen.1.surfaces.get? 1).map fun surface => surface.pixels.data) =
          some (some [0xff, 0xff, 0xff, 0xff]) := by decide +kernel
  have hblack : describedOnce.bind (fun r =>
      (observe described r.1 [deleteCall 1, createCall 1 1 1, .handle (.wireToSurface2 1 0 [])]).map fun seen =>
        (seen.1.surfaces.get? 1).map fun surface => surface.pixels.data) = some (some [0, 0, 0, 0xff]) := by
    decide +kernel
  have hstate : describedOnce.map (fun r =>
      (r.1.pipeline.inFrame, (r.1.pipeline.surfaces.get? 1).isSome)) = some (false, true) := by decide +kernel
  obtain ⟨⟨s, answers⟩, hrun, hstate⟩ := Option.map_eq_some_iff.mp hstate
  rw [hrun, Option.bind_some] at hwhite hblack
  refine ⟨s, answers, hrun, congrArg Prod.fst hstate, congrArg Prod.snd hstate, hwhite, hblack, fun h => ?_⟩
  have halike := h described [.handle (.wireToSurface2 1 0 [])]
  rw [halike, hblack] at hwhite
  cases hwhite

end Live

end Gfx

end UwuRdp
