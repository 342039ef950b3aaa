import UwuRdp.Core.Drawing

/-!
# The buffers of the graphics pipeline

Whatever a server sends, the byte counters are what the buffers hold, they stay under their limits, and
no buffer is ever read or written outside its bytes.
-/

namespace UwuRdp

open Lib Lib.Raster

namespace Gfx

/-- The surfaces are as counted, within the limit. -/
structure Stored (surfaces : Table UInt16 Surface) (bytes : ℕ) : Prop where
  counted : bytes = surfaces.total fun surface => surface.pixels.data.length
  limit : bytes ≤ maxSurfaceBytes
  valid : ∀ id surface, surfaces.get? id = some surface → surface.pixels.Valid

/-- The cache is as counted, within its limits. -/
structure Cached (cache : Table UInt16 Pixels) (bytes : ℕ) : Prop where
  counted : bytes = cache.total fun entry => entry.data.length
  limit : bytes ≤ maxCacheBytes
  slots : ∀ slot entry, cache.get? slot = some entry → 1 ≤ slot.toNat ∧ slot.toNat ≤ maxCacheSlots
  valid : ∀ slot entry, cache.get? slot = some entry → entry.Valid

namespace Pipeline

/-- The buffers are as they should be. -/
structure Bounded (s : Pipeline) : Prop where
  stored : Stored s.surfaces s.surfaceBytes
  cached : Cached s.cache s.cacheBytes
  output : ∀ output, s.output = some output → output.Valid

def size (s : Pipeline) : Option (UInt16 × UInt16) := s.output.map fun output => (output.width, output.height)

/-- Only what shows, or waits to, may differ. -/
structure Redrawn (s s' : Pipeline) : Prop where
  surfaces : s'.surfaces = s.surfaces
  surfaceBytes : s'.surfaceBytes = s.surfaceBytes
  cache : s'.cache = s.cache
  cacheBytes : s'.cacheBytes = s.cacheBytes
  size : s'.size = s.size
  output : (∀ output, s.output = some output → output.Valid) → ∀ output, s'.output = some output → output.Valid

/-- What a session does with the pipeline. -/
inductive Call where
  | handle (pdu : Pdu)
  | takeChanges

def call (s : Pipeline) : Call → Option Pipeline
  | .handle pdu => (s.handle pdu).map Prod.fst
  | .takeChanges => some s.takeChanges.2

variable {s s' s'' : Pipeline} {id slot : UInt16} {rect : Rect}

theorem handle_fst (s : Pipeline) (pdu : Pdu) : (s.handle pdu).map Prod.fst = s.act pdu := by
  unfold handle
  cases s.act pdu with
  | none => rfl
  | some s' => cases pdu <;> rfl

theorem sub_ok {a b : ℕ} (h : b ≤ a) : sub a b = some (a - b) := if_pos h

theorem Redrawn.refl : Redrawn s s := ⟨rfl, rfl, rfl, rfl, rfl, fun h => h⟩

theorem Redrawn.trans (h : Redrawn s s') (h' : Redrawn s' s'') : Redrawn s s'' where
  surfaces := h'.surfaces.trans h.surfaces
  surfaceBytes := h'.surfaceBytes.trans h.surfaceBytes
  cache := h'.cache.trans h.cache
  cacheBytes := h'.cacheBytes.trans h.cacheBytes
  size := h'.size.trans h.size
  output hout := h'.output (h.output hout)

theorem Bounded.redrawn (hs : s.Bounded) (h : Redrawn s s') : s'.Bounded where
  stored := by rw [h.surfaces, h.surfaceBytes]; exact hs.stored
  cached := by rw [h.cache, h.cacheBytes]; exact hs.cached
  output := h.output hs.output

theorem bounded_new (h264 : Bool) : (Pipeline.new h264).Bounded where
  stored := ⟨rfl, Nat.zero_le _, fun _ _ h => nomatch h⟩
  cached := ⟨rfl, Nat.zero_le _, fun _ _ h => (nomatch h), fun _ _ h => (nomatch h)⟩
  output _ h := nomatch h

/-! ## Surfaces -/

variable {surfaces : Table UInt16 Surface} {bytes : ℕ}

theorem Stored.erase (h : Stored surfaces bytes) (id : UInt16) : ∃ rest, sub bytes
    ((surfaces.get? id).elim 0 fun old => old.pixels.data.length) = some rest ∧ Stored (surfaces.erase id) rest := by
  have hsum := Table.total_erase (fun surface : Surface => surface.pixels.data.length) surfaces id
  have hcounted := h.counted
  refine ⟨_, sub_ok (by omega), by omega, Nat.le_trans (Nat.sub_le _ _) h.limit, fun i surface hi => ?_⟩
  rw [Table.get?_erase] at hi
  split at hi
  · cases hi
  · exact h.valid i surface hi

theorem Stored.set {surfaces : Table UInt16 Surface} {bytes : ℕ} (h : Stored surfaces bytes)
    (hnone : surfaces.get? id = none) {surface : Surface} (hvalid : surface.pixels.Valid)
    (hlimit : bytes + surface.pixels.data.length ≤ maxSurfaceBytes) :
    Stored (surfaces.set id surface) (bytes + surface.pixels.data.length) := by
  have hsum := Table.total_set (fun surface : Surface => surface.pixels.data.length) surfaces id surface
  rw [hnone] at hsum
  refine ⟨?_, hlimit, fun i other hi => ?_⟩
  · rw [h.counted]
    exact hsum.symm
  · rw [Table.get?_set] at hi
    split at hi
    · exact Option.some.inj hi ▸ hvalid
    · exact h.valid i other hi

variable {surface : Surface} {f : Pixels → Option Written}

theorem Stored.replace (h : Stored surfaces bytes) {old : Surface} (hold : surfaces.get? id = some old)
    (hvalid : surface.pixels.Valid) (hlen : surface.pixels.data.length = old.pixels.data.length) : Stored
    (surfaces.set id surface) bytes := by
  have hsum := Table.total_set (fun surface : Surface => surface.pixels.data.length) surfaces id surface
  rw [hold] at hsum
  have hcounted := h.counted
  refine ⟨?_, h.limit, fun i other hi => ?_⟩
  · rw [hlen] at hsum
    rw [hcounted]
    exact (Nat.add_right_cancel hsum).symm
  · rw [Table.get?_set] at hi
    split at hi
    · exact Option.some.inj hi ▸ hvalid
    · exact h.valid i other hi

theorem Stored.clear (h : Stored surfaces bytes) :
    Stored (surfaces.map fun _ surface => { surface with pixels := surface.pixels.clear }) bytes := by
  refine ⟨?_, h.limit, fun i surface hi => ?_⟩
  · rw [h.counted, Table.total_map]
    rintro ⟨i, surface⟩ he
    have hvalid := h.valid i surface (Table.mem_entries.mp he)
    exact (Pixels.valid_clear hvalid).trans hvalid.symm
  · rw [Table.get?_map] at hi
    obtain ⟨old, hold, rfl⟩ := Option.map_eq_some_iff.mp hi
    exact Pixels.valid_clear (h.valid i old hold)

/-! ## The output -/

theorem compose_bounded (hs : s.Bounded) (id : UInt16) (rect : Rect) :
    ∃ s', s.compose id rect = some s' ∧ Redrawn s s' := by
  unfold compose
  split
  · next output surface hout hsurface =>
    split
    · exact ⟨s, rfl, .refl⟩
    · next ox oy _ =>
      dsimp only
      split
      · obtain ⟨p', done, hblit, hchanges, -⟩ := Pixels.blit_ok (hs.output output hout)
          (hs.stored.valid id surface hsurface) (rect.clip surface.pixels.width surface.pixels.height)
          (UInt16.ofNat (ox + UInt32.ofNat (rect.clip surface.pixels.width surface.pixels.height).x.toNat).toNat)
          (UInt16.ofNat (oy + UInt32.ofNat (rect.clip surface.pixels.width surface.pixels.height).y.toNat).toNat)
        rw [hblit]
        refine ⟨_, rfl, rfl, rfl, rfl, rfl, ?_, fun _ p hp => Option.some.inj hp ▸ hchanges.valid⟩
        unfold size
        rw [hout]
        exact congrArg some (Prod.ext hchanges.width hchanges.height)
      · exact ⟨s, rfl, .refl⟩
  · exact ⟨s, rfl, .refl⟩

theorem touch_bounded (hs : s.Bounded) (id : UInt16) (rect : Rect) :
    ∃ s', s.touch id rect = some s' ∧ Redrawn s s' := by
  unfold touch
  split
  · exact ⟨s, rfl, .refl⟩
  · split
    · exact ⟨_, rfl, rfl, rfl, rfl, rfl, rfl, fun h => h⟩
    · exact compose_bounded hs id rect

theorem foldlM_bounded {α : Type} {f : Pipeline → α → Option Pipeline}
    (hf : ∀ s a, s.Bounded → ∃ s', f s a = some s' ∧ Redrawn s s') (l : List α) (hs : s.Bounded) :
    ∃ s', l.foldlM f s = some s' ∧ Redrawn s s' := by
  induction l generalizing s with
  | nil => exact ⟨s, rfl, .refl⟩
  | cons a l ih =>
    obtain ⟨s₁, hstep, hredrawn⟩ := hf s a hs
    obtain ⟨s₂, hrest, hredrawn'⟩ := ih (hs.redrawn hredrawn)
    refine ⟨s₂, ?_, hredrawn.trans hredrawn'⟩
    rw [List.foldlM_cons, hstep]
    exact hrest

theorem updated_bounded (hs : s.Bounded) (id : UInt16) (result : Option (List Rect)) :
    ∃ s', s.updated id result = some s' ∧ Redrawn s s' := by
  cases result with
  | none => exact ⟨s, rfl, .refl⟩
  | some rects => exact foldlM_bounded (fun s r hs => touch_bounded hs id r) rects hs

theorem composePending_bounded (hs : s.Bounded) : ∃ s', s.composePending = some s' ∧ Redrawn s s' := by
  have hempty : Redrawn s { s with pending := .empty } := ⟨rfl, rfl, rfl, rfl, rfl, fun h => h⟩
  obtain ⟨s', hfold, hredrawn⟩ := foldlM_bounded (fun s (e : UInt16 × Rect) hs => compose_bounded hs e.1 e.2)
    s.pendingAreas (hs.redrawn hempty)
  exact ⟨s', hfold, hempty.trans hredrawn⟩

/-! ## Messages -/

theorem createSurface_bounded (hs : s.Bounded) (id width height : UInt16) :
    ∃ s', s.createSurface id width height = some s' ∧ s'.Bounded := by
  obtain ⟨rest, hsub, hrest⟩ := Stored.erase hs.stored id
  unfold createSurface
  dsimp only
  rw [hsub]
  dsimp only [Option.bind_eq_bind, Option.bind_some]
  split
  · exact ⟨_, rfl, hrest, hs.cached, hs.output⟩
  · next hfits =>
    have hlen : (Pixels.new width height).data.length = width.toNat * height.toNat * 4 := by
      rw [Nat.mul_comm width.toNat]
      exact Pixels.valid_new width height
    have hnone : (s.surfaces.erase id).get? id = none := by rw [Table.get?_erase, if_pos rfl]
    have hset := @Stored.set _ _ _ hrest hnone ⟨Pixels.new width height, none⟩ (Pixels.valid_new width height) (by
        rw [hlen]
        exact Nat.le_of_not_lt fun h => hfits (.inr (.inr (.inr (.inr h)))))
    rw [show (Surface.mk (Pixels.new width height) none).pixels.data.length = _ from hlen] at hset
    exact ⟨_, rfl, hset, hs.cached, hs.output⟩

theorem deleteSurface_bounded (hs : s.Bounded) (id : UInt16) : ∃ s', s.deleteSurface id = some s' ∧ s'.Bounded := by
  obtain ⟨rest, hsub, hrest⟩ := Stored.erase hs.stored id
  unfold deleteSurface
  dsimp only
  rw [hsub]
  exact ⟨_, rfl, hrest, hs.cached, hs.output⟩

theorem Bounded.moved (hs : s.Bounded) {surface : Surface} (hsurface : s.surfaces.get? id = some surface)
    (origin : Option (UInt32 × UInt32)) :
    ({ s with surfaces := s.surfaces.set id { surface with origin := origin } } : Pipeline).Bounded :=
  ⟨Stored.replace hs.stored hsurface (hs.stored.valid id surface hsurface) rfl, hs.cached, hs.output⟩

theorem map_bounded (hs : s.Bounded) (id : UInt16) (x y : UInt32) : ∃ s', s.map id x y = some s' ∧ s'.Bounded := by
  unfold map
  split
  · exact ⟨s, rfl, hs⟩
  · next surface hsurface =>
    have hmapped := hs.moved hsurface (some (x, y))
    obtain ⟨s', htouch, hredrawn⟩ := touch_bounded hmapped id surface.pixels.bounds
    exact ⟨s', htouch, hmapped.redrawn hredrawn⟩

theorem evict_bounded (hs : s.Bounded) (slot : UInt16) :
    ∃ s', s.evict slot = some s' ∧ s'.Bounded ∧ s'.cache.get? slot = none := by
  have hsum := Table.total_erase (fun entry : Pixels => entry.data.length) s.cache slot
  have hcounted := hs.cached.counted
  unfold evict
  dsimp only
  rw [sub_ok (by omega)]
  refine ⟨_, rfl, ⟨hs.stored, ⟨?_, ?_, fun i entry hi => ?_, fun i entry hi => ?_⟩, hs.output⟩, ?_⟩
  · show s.cacheBytes - _ = (s.cache.erase slot).total _
    omega
  · exact Nat.le_trans (Nat.sub_le _ _) hs.cached.limit
  · rw [Table.get?_erase] at hi
    split at hi
    · cases hi
    · exact hs.cached.slots i entry hi
  · rw [Table.get?_erase] at hi
    split at hi
    · cases hi
    · exact hs.cached.valid i entry hi
  · rw [Table.get?_erase, if_pos rfl]

theorem cachePut_bounded (hs : s.Bounded) (slot : UInt16) {entry : Pixels} (hvalid : entry.Valid) :
    ∃ s', s.cachePut slot entry = some s' ∧ s'.Bounded := by
  unfold cachePut
  split
  · exact ⟨s, rfl, hs⟩
  · next hslot =>
    obtain ⟨s₁, hevict, hs₁, hnone⟩ := evict_bounded hs slot
    rw [hevict]
    dsimp only [Option.bind_eq_bind, Option.bind_some]
    split
    · exact ⟨s₁, rfl, hs₁⟩
    · next hfits =>
      have hsum := Table.total_set (fun entry : Pixels => entry.data.length) s₁.cache slot entry
      rw [hnone] at hsum
      refine ⟨_, rfl, hs₁.stored, ⟨?_, Nat.le_of_not_lt hfits, fun i other hi => ?_, fun i other hi => ?_⟩,
        hs₁.output⟩
      · rw [hs₁.cached.counted]
        exact hsum.symm
      · rw [Table.get?_set] at hi
        split at hi
        · next heq =>
          subst heq
          rw [← UInt16.toNat_inj] at hslot
          exact ⟨Nat.one_le_iff_ne_zero.mpr fun h => hslot (.inl h), Nat.le_of_not_lt fun h => hslot (.inr h)⟩
        · exact hs₁.cached.slots i other hi
      · rw [Table.get?_set] at hi
        split at hi
        · exact Option.some.inj hi ▸ hvalid
        · exact hs₁.cached.valid i other hi

theorem resetGraphics_bounded (hs : s.Bounded) (width height : UInt32) :
    (s.resetGraphics width height).Bounded where
  stored := Stored.clear hs.stored
  cached := hs.cached
  output _ h := Option.some.inj h ▸ Pixels.valid_new _ _

theorem Bounded.painted (hs : s.Bounded) (hf : Draws f)
    (hsurface : s.surfaces.get? id = some surface) {p' : Pixels} {result : Option (List Rect)}
    (hsome : f surface.pixels = some (p', result)) :
    ({ s with surfaces := s.surfaces.set id { surface with pixels := p' } } : Pipeline).Bounded := by
  have hvalid := hs.stored.valid id surface hsurface
  obtain ⟨r, hr, hwrote⟩ := hf surface.pixels hvalid
  cases hr.symm.trans hsome
  refine ⟨Stored.replace hs.stored hsurface hwrote.valid ?_, hs.cached, hs.output⟩
  have hlen : p'.Valid := hwrote.valid
  unfold Pixels.Valid at hlen hvalid
  rw [hwrote.changes.width, hwrote.changes.height, ← hvalid] at hlen
  exact hlen

theorem draw_bounded (hs : s.Bounded) (id : UInt16) (hf : Draws f) : ∃ s', s.draw id f = some s' ∧ s'.Bounded := by
  unfold draw
  split
  · exact ⟨s, rfl, hs⟩
  · next surface hsurface =>
    obtain ⟨⟨p', result⟩, hsome, -⟩ := hf surface.pixels (hs.stored.valid id surface hsurface)
    have hdrawn := hs.painted hf hsurface hsome
    obtain ⟨s', hupdated, hredrawn⟩ := updated_bounded hdrawn id result
    refine ⟨s', ?_, hdrawn.redrawn hredrawn⟩
    rw [hsome]
    exact hupdated

theorem act_bounded (hs : s.Bounded) (pdu : Pdu) : ∃ s', s.act pdu = some s' ∧ s'.Bounded := by
  cases pdu with
  | capabilitiesConfirm set => exact ⟨_, rfl, hs.stored, hs.cached, hs.output⟩
  | resetGraphics width height => exact ⟨_, rfl, resetGraphics_bounded hs width height⟩
  | createSurface id width height => exact createSurface_bounded hs id width height
  | deleteSurface id => exact deleteSurface_bounded hs id
  | mapSurfaceToOutput id x y | mapSurfaceToScaledOutput id x y => exact map_bounded hs id x y
  | startFrame => exact ⟨_, rfl, hs.stored, hs.cached, hs.output⟩
  | endFrame frameId =>
    have hopen : ({ s with inFrame := false } : Pipeline).Bounded := ⟨hs.stored, hs.cached, hs.output⟩
    obtain ⟨s', hcompose, hredrawn⟩ := composePending_bounded hopen
    have hs' := hopen.redrawn hredrawn
    refine ⟨{ s' with framesDecoded := s'.framesDecoded + 1 }, ?_, hs'.stored, hs'.cached, hs'.output⟩
    show ({ s with inFrame := false } : Pipeline).composePending.bind _ = _
    rw [hcompose]
    rfl
  | wireToSurface1 id destination payload =>
    exact draw_bounded hs id (payloadOn_draws s destination.rect payload).1
  | wireToSurface2 id tiles => exact draw_bounded hs id (progressive_draws tiles).1
  | deleteEncodingContext => exact ⟨s, rfl, hs⟩
  | solidFill id r g b rectangles =>
    exact draw_bounded hs id (draws_all fun p hp => fillAll_draws ⟨r, g, b, 0xff⟩ rectangles hp).1
  | surfaceToSurface source destination rectangle points =>
    show ∃ s', s.surfaceToSurface source destination rectangle points = some s' ∧ s'.Bounded
    unfold surfaceToSurface
    split
    · exact ⟨s, rfl, hs⟩
    · next surface hsurface =>
      obtain ⟨data, hread, -⟩ := Pixels.read_ok (hs.stored.valid source surface hsurface) rectangle.rect
      rw [hread]
      exact draw_bounded hs destination (draws_all fun p hp => writeAll_draws _ _ _ points hp).1
  | surfaceToCache id slot rectangle =>
    show ∃ s', s.surfaceToCache id slot rectangle = some s' ∧ s'.Bounded
    unfold surfaceToCache
    split
    · exact ⟨s, rfl, hs⟩
    · next surface hsurface =>
      obtain ⟨data, hread, hlen⟩ := Pixels.read_ok (hs.stored.valid id surface hsurface) rectangle.rect
      rw [hread]
      exact cachePut_bounded hs slot hlen
  | cacheToSurface slot id points =>
    show ∃ s', s.cacheToSurface slot id points = some s' ∧ s'.Bounded
    unfold cacheToSurface
    split
    · exact ⟨s, rfl, hs⟩
    · exact draw_bounded hs id (draws_all fun p hp => writeAll_draws _ _ _ points hp).1
  | evictCacheEntry slot =>
    obtain ⟨s', hevict, hs', -⟩ := evict_bounded hs slot
    exact ⟨s', hevict, hs'⟩
  | other => exact ⟨s, rfl, hs⟩

theorem call_bounded (hs : s.Bounded) (c : Call) : ∃ s', s.call c = some s' ∧ s'.Bounded := by
  cases c with
  | handle pdu =>
    show ∃ s', (s.handle pdu).map Prod.fst = some s' ∧ _
    rw [handle_fst]
    exact act_bounded hs pdu
  | takeChanges => exact ⟨_, rfl, hs.stored, hs.cached, hs.output⟩

theorem run_bounded (hs : s.Bounded) (calls : List Call) : ∃ s', calls.foldlM call s = some s' ∧ s'.Bounded := by
  induction calls generalizing s with
  | nil => exact ⟨s, rfl, hs⟩
  | cons c calls ih =>
    obtain ⟨s₁, hstep, hs₁⟩ := call_bounded hs c
    obtain ⟨s₂, hrest, hs₂⟩ := ih hs₁
    refine ⟨s₂, ?_, hs₂⟩
    rw [List.foldlM_cons, hstep]
    exact hrest

/-- Whatever is sent, the pipeline goes on with its buffers as they should be, and on such buffers every
operation finds its ranges and changes nothing outside the rectangles it returns. -/
theorem buffers_hold (h264 : Bool) (calls : List Call) :
    (∃ s, calls.foldlM call (Pipeline.new h264) = some s ∧ s.Bounded) ∧
      ∀ p : Pixels, p.Valid →
        (∀ rect c, ∃ p' done, p.fill rect c = some (p', done) ∧ Pixels.ChangesOnly done.Has p p') ∧
        (∀ x y w h src srcStride, ∃ p' done, p.write x y w h src srcStride = some (p', done) ∧
          Pixels.ChangesOnly done.Has p p') ∧
        (∀ x y w h src srcStride clip, ∃ p' done,
          Pixels.writeClipped x y w h src srcStride clip p = some (p', done) ∧
            Pixels.ChangesOnly (DirtyRegion.Has done) p p') ∧
        (∀ src rect x y, src.Valid → ∃ p' done, p.blit src rect x y = some (p', done) ∧
          Pixels.ChangesOnly done.Has p p') ∧
        ∀ rect, ∃ data, p.read rect = some (rect.clip p.width p.height, data) := by
  refine ⟨run_bounded (bounded_new h264) calls, fun p hp => ⟨fun rect c => ?_, fun x y w h src n => ?_,
    fun x y w h src n clip => ?_, fun src rect x y hsrc => ?_, fun rect => ?_⟩⟩
  · obtain ⟨p', hfill, hchanges⟩ := Pixels.fill_ok hp rect c
    exact ⟨p', _, hfill, hchanges⟩
  · obtain ⟨p', done, hwrite, hchanges, -⟩ := Pixels.write_ok hp x y w h src n
    exact ⟨p', done, hwrite, hchanges⟩
  · obtain ⟨p', done, hwrite, hchanges, -⟩ := Pixels.writeClipped_ok hp x y w h src n clip
    exact ⟨p', done, hwrite, hchanges⟩
  · obtain ⟨p', done, hblit, hchanges, -⟩ := Pixels.blit_ok hp hsrc rect x y
    exact ⟨p', done, hblit, hchanges⟩
  · obtain ⟨data, hread, -⟩ := Pixels.read_ok hp rect
    exact ⟨data, hread⟩

end Pipeline

end Gfx

end UwuRdp
