import UwuRdp.Core.Graphics

/-!
# What drawing does to a surface

Whatever a message draws, with whatever payload, there is no panic, the surface keeps its size and its
bytes, and where it reports rectangles nothing else changed. A codec that fails leaves the surface as it
was, with one exception: a RemoteFX payload that fails after tiles of it were drawn.
-/

namespace UwuRdp

open Lib Lib.Raster

namespace Gfx

/-- What was drawn on a buffer: only the rectangles of the report changed, if there is one. -/
structure Wrote (p : Pixels) (r : Written) : Prop where
  changes : Pixels.ChangesOnly (fun x y => ∀ rects, r.2 = some rects → DirtyRegion.Has rects x y) p r.1
  within : ∀ rects, r.2 = some rects → ∀ rect ∈ rects,
    rect.right ≤ p.width.toNat ∧ rect.bottom ≤ p.height.toNat

/-- Drawing that does not panic and does what it reports. -/
def Draws (f : Pixels → Option Written) : Prop := ∀ p, p.Valid → ∃ r, f p = some r ∧ Wrote p r

def FailsClean (f : Pixels → Option Written) : Prop := ∀ p p', f p = some (p', none) → p' = p

variable {p p' p'' : Pixels} {r : Written} {rect dest : Rect} {done written : List Rect}
  {result : Option (List Rect)}

namespace Wrote

theorem failed (hp : p.Valid) : Wrote p (p, none) := ⟨.refl hp, fun _ h => nomatch h⟩

theorem nothing (hp : p.Valid) : Wrote p (p, some []) where
  changes := .refl hp
  within rects h := by
    cases h
    exact fun _ hr => absurd hr List.not_mem_nil

theorem one (h : Pixels.ChangesOnly rect.Has p p') (hright : rect.right ≤ p.width.toNat)
    (hbottom : rect.bottom ≤ p.height.toNat) : Wrote p (p', some [rect]) where
  changes := h.mono fun _ _ hin _ hrects =>
    Option.some.inj hrects ▸ ⟨rect, List.mem_singleton.mpr rfl, hin⟩
  within rects h := by
    cases h
    intro r hr
    obtain rfl := List.mem_singleton.mp hr
    exact ⟨hright, hbottom⟩

theorem many (h : Pixels.ChangesOnly (DirtyRegion.Has done) p p')
    (hin : ∀ r ∈ done, r.right ≤ p.width.toNat ∧ r.bottom ≤ p.height.toNat) :
    Wrote p (p', some done) where
  changes := h.mono fun _ _ hin _ hrects => Option.some.inj hrects ▸ hin
  within _ h := Option.some.inj h ▸ hin

theorem append (h : Wrote p (p', some done)) (h' : Wrote p' (p'', result)) :
    Wrote p (p'', result.map (done ++ ·)) where
  changes := by
    refine (h.changes.trans h'.changes).mono fun x y hin rects hrects => ?_
    obtain ⟨written, hresult, rfl⟩ := Option.map_eq_some_iff.mp hrects
    rcases hin with hin | hin
    · obtain ⟨r, hr, hhas⟩ := hin done rfl
      exact ⟨r, List.mem_append_left _ hr, hhas⟩
    · obtain ⟨r, hr, hhas⟩ := hin written hresult
      exact ⟨r, List.mem_append_right _ hr, hhas⟩
  within rects hrects := by
    obtain ⟨written, hresult, rfl⟩ := Option.map_eq_some_iff.mp hrects
    intro r hr
    rcases List.mem_append.mp hr with hr | hr
    · exact h.within done rfl r hr
    · rw [← h.changes.width, ← h.changes.height]
      exact h'.within written hresult r hr

theorem valid (h : Wrote p r) : r.1.Valid := h.changes.valid

end Wrote

/-! ## Blocks -/

theorem write_draws (hp : p.Valid) (x y w h : UInt16) (src : List UInt8) (srcStride : ℕ) :
    ∃ p' done, p.write x y w h src srcStride = some (p', done) ∧ Wrote p (p', some [done]) := by
  obtain ⟨p', done, hwrite, hchanges, hright, hbottom, -⟩ := Pixels.write_ok hp x y w h src srcStride
  exact ⟨p', done, hwrite, .one hchanges hright hbottom⟩

theorem writeBlock_draws (dest : Rect) (rgba : List UInt8) (hp : p.Valid) :
    ∃ p' done, writeBlock p dest rgba = some (p', some done) ∧ Wrote p (p', some done) := by
  obtain ⟨p', done, hwrite, hwrote⟩ := write_draws hp dest.x dest.y dest.w dest.h rgba (dest.w.toNat * 4)
  refine ⟨p', [done], ?_, hwrote⟩
  unfold writeBlock
  rw [hwrite]
  rfl

theorem draws_of_block {f : Pixels → Option Written} (h : ∀ p : Pixels, f p = some (p, none) ∨
    ∃ rgba, f p = writeBlock p dest rgba) : Draws f ∧ FailsClean f := by
  refine ⟨fun p hp => ?_, fun p p' hf => ?_⟩
  · rcases h p with hnone | ⟨rgba, hblock⟩
    · exact ⟨(p, none), hnone, .failed hp⟩
    · obtain ⟨p', done, hwrite, hwrote⟩ := writeBlock_draws dest rgba hp
      exact ⟨(p', some done), hblock.trans hwrite, hwrote⟩
  · rcases h p with hnone | ⟨rgba, hblock⟩
    · exact (congrArg Prod.fst (Option.some.inj (hnone.symm.trans hf))).symm
    · rw [hblock] at hf
      unfold writeBlock at hf
      obtain ⟨⟨p₁, done⟩, -, hsome⟩ := Option.bind_eq_some_iff.mp hf
      cases Option.some.inj hsome

theorem uncompressed_draws (dest : Rect) (data : List UInt8) :
    Draws (fun p => uncompressed p dest data) ∧ FailsClean fun p => uncompressed p dest data := by
  refine @draws_of_block dest _ fun p => ?_
  unfold uncompressed
  dsimp only
  split
  · exact .inl rfl
  · exact .inr ⟨_, rfl⟩

theorem planar_draws (dest : Rect) (header : Option UInt8) (rgb : Option (List UInt8)) :
    Draws (fun p => planar p dest header rgb) ∧ FailsClean fun p => planar p dest header rgb := by
  refine @draws_of_block dest _ fun p => ?_
  unfold planar
  cases rgb with
  | none => exact .inl rfl
  | some rgb =>
    dsimp only
    split
    · exact .inl rfl
    · exact .inr ⟨_, rfl⟩

theorem clearCodec_draws (dest : Rect) (bgra : Option (List UInt8)) :
    Draws (fun p => clearCodec p dest bgra) ∧ FailsClean fun p => clearCodec p dest bgra := by
  refine @draws_of_block dest _ fun p => ?_
  cases bgra with
  | none => exact .inl rfl
  | some bgra => exact .inr ⟨_, rfl⟩

/-! ## Tiles -/

theorem progressiveTiles_draws (tiles : List ProgressiveTile) (hp : p.Valid) :
    ∃ p' written, progressiveTiles p tiles = some (p', written) ∧ Wrote p (p', some written) := by
  induction tiles generalizing p with
  | nil => exact ⟨p, [], rfl, .nothing hp⟩
  | cons t tiles ih =>
    unfold progressiveTiles
    split
    · next x y _ _ =>
      obtain ⟨p₁, done, hwrite, hchanges, hin⟩ := Pixels.writeClipped_ok hp x y tile tile t.pixels
        tileStride (t.updateRectangles.map Edges.rect)
      obtain ⟨p₂, written, hrest, hwrote⟩ := ih hchanges.valid
      refine ⟨p₂, done ++ written, ?_, (Wrote.many hchanges hin).append hwrote⟩
      rw [hwrite]
      show (progressiveTiles p₁ tiles >>= fun r => some (r.1, done ++ r.2)) = _
      rw [hrest]
      rfl
    · exact ih hp

theorem progressive_draws (tiles : Option (List ProgressiveTile)) :
    Draws (fun p => progressive p tiles) ∧ FailsClean fun p => progressive p tiles := by
  cases tiles with
  | none =>
    exact ⟨fun p hp => ⟨(p, none), rfl, .failed hp⟩, fun p p' h => (Prod.mk.inj (Option.some.inj h)).1.symm⟩
  | some tiles =>
    refine ⟨fun p hp => ?_, fun p p' h => ?_⟩
    · obtain ⟨p', written, htiles, hwrote⟩ := progressiveTiles_draws tiles hp
      refine ⟨(p', some written), ?_, hwrote⟩
      unfold progressive
      dsimp only
      rw [htiles]
      rfl
    · unfold progressive at h
      obtain ⟨⟨p₁, written⟩, -, hsome⟩ := Option.bind_eq_some_iff.mp h
      cases Option.some.inj hsome

namespace RemoteFx

theorem tiles_draws (dest : Rect) (clip : List Rect) (set : List RfxTile) (hp : p.Valid) :
    ∃ r, tiles dest clip set p = some r ∧ Wrote p r := by
  induction set generalizing p with
  | nil => exact ⟨(p, some []), rfl, .nothing hp⟩
  | cons t set ih =>
    unfold tiles
    cases t.rgba with
    | none => exact ⟨(p, none), rfl, .failed hp⟩
    | some rgba =>
      dsimp only
      split
      · next x y _ _ =>
        obtain ⟨p₁, done, hwrite, hchanges, hin⟩ := Pixels.writeClipped_ok hp x y tile tile rgba tileStride clip
        obtain ⟨⟨p₂, result⟩, hrest, hwrote⟩ := ih hchanges.valid
        refine ⟨(p₂, result.map (done ++ ·)), ?_, (Wrote.many hchanges hin).append hwrote⟩
        rw [hwrite]
        show (tiles dest clip set p₁ >>= fun r => some (r.1, r.2.map (done ++ ·))) = _
        rw [hrest]
        rfl
      · exact ih hp

theorem decode_draws (dest : Rect) (blocks : List RfxBlock) (region : List Rect) (hp : p.Valid) :
    ∃ r, decode dest blocks region p = some r ∧ Wrote p r := by
  induction blocks generalizing p region with
  | nil => exact ⟨(p, some []), rfl, .nothing hp⟩
  | cons block blocks ih =>
    cases block with
    | region rectangles => exact ih rectangles hp
    | other => exact ih region hp
    | broken => exact ⟨(p, none), rfl, .failed hp⟩
    | tileSet set =>
      obtain ⟨⟨p₁, result⟩, hset, hwrote⟩ := tiles_draws dest (clip region dest) set hp
      unfold decode
      rw [hset]
      cases result with
      | none => exact ⟨(p₁, none), rfl, hwrote⟩
      | some done =>
        obtain ⟨⟨p₂, result⟩, hrest, hwrote'⟩ := ih region hwrote.valid
        refine ⟨(p₂, result.map (done ++ ·)), ?_, hwrote.append hwrote'⟩
        show (decode dest blocks region p₁ >>= fun r => some (r.1, r.2.map (done ++ ·))) = _
        rw [hrest]
        rfl

end RemoteFx

/-! ## Pictures -/

namespace Avc

theorem length_row (picture : Picture) (x y count : ℕ) : (row picture x y count).length = count * 4 := by
  unfold row
  rw [List.length_flatten, List.map_map]
  show ((List.range count).map fun _ => 4).sum = count * 4
  rw [List.map_const', List.sum_replicate_nat, List.length_range]

theorem draw_draws (picture : Picture) (regions : List Rect) (hp : p.Valid) :
    ∃ p' written, draw picture regions p = some (p', written) ∧ Wrote p (p', some written) := by
  induction regions generalizing p with
  | nil => exact ⟨p, [], rfl, .nothing hp⟩
  | cons r regions ih =>
    unfold draw
    dsimp only
    generalize r.clip (UInt16.ofNat (min picture.width 65535)) (UInt16.ofNat (min picture.height 65535)) =
      part
    obtain ⟨hx, hy⟩ := Pixels.clip_edges part p
    generalize part.clip p.width p.height = target at *
    split
    · exact ih hp
    · obtain ⟨data, m, hput, hm, -, hall, hvalid, hpixel⟩ := @Pixels.putRows_pixels _ hp _ hx hy
        (fun i => some (row picture target.x.toNat (target.y.toNat + i) target.w.toNat)) fun k new h => by
        rw [← Option.some.inj h, length_row]
      have hchanges : Pixels.ChangesOnly target.Has p { p with data := data } := by
        refine ⟨rfl, rfl, hvalid, fun px py hpx hnot => ?_⟩
        have hfull : m = target.h.toNat := by
          by_contra hne
          cases hall (by omega)
        rw [hpixel px py hpx, if_neg fun hin => hnot ?_]
        rw [hfull, UInt16.ofNat_toNat] at hin
        exact hin
      obtain ⟨p₂, written, hrest, hwrote⟩ := ih hchanges.valid
      refine ⟨p₂, target :: written, ?_, (Wrote.one hchanges hx hy).append hwrote⟩
      rw [hput]
      show (draw picture regions { p with data := data } >>= fun r => some (r.1, target :: r.2)) = _
      rw [hrest]
      rfl

end Avc

theorem avc_draws (decoded : Option (List Rect × Picture)) :
    Draws (fun p => avc p decoded) ∧ FailsClean fun p => avc p decoded := by
  cases decoded with
  | none =>
    exact ⟨fun p hp => ⟨(p, none), rfl, .failed hp⟩, fun p p' h => (Prod.mk.inj (Option.some.inj h)).1.symm⟩
  | some decoded =>
    refine ⟨fun p hp => ?_, fun p p' h => ?_⟩
    · obtain ⟨p', written, hdraw, hwrote⟩ := Avc.draw_draws decoded.2 decoded.1 hp
      refine ⟨(p', some written), ?_, hwrote⟩
      unfold avc
      dsimp only
      rw [hdraw]
      rfl
    · unfold avc at h
      obtain ⟨⟨p₁, written⟩, -, hsome⟩ := Option.bind_eq_some_iff.mp h
      cases Option.some.inj hsome

/-! ## Messages -/

namespace Pipeline

variable {s : Pipeline}

theorem payloadOn_draws (s : Pipeline) (dest : Rect) (payload : Payload) : Draws (s.payloadOn dest payload) ∧
    ((∀ blocks, payload ≠ .remoteFx blocks) → FailsClean (s.payloadOn dest payload)) := by
  have hskip : Draws (fun p => some (p, none)) ∧ FailsClean fun p => some (p, none) :=
    ⟨fun p hp => ⟨(p, none), rfl, .failed hp⟩, fun p p' h => (Prod.mk.inj (Option.some.inj h)).1.symm⟩
  have hclean : ∀ {f : Pixels → Option Written} {P : Prop}, Draws f ∧ FailsClean f →
      Draws f ∧ (P → FailsClean f) := fun h => ⟨h.1, fun _ => h.2⟩
  cases payload with
  | uncompressed data => exact hclean (uncompressed_draws dest data)
  | planar header rgb => exact hclean (planar_draws dest header rgb)
  | clearCodec bgra => exact hclean (clearCodec_draws dest bgra)
  | remoteFx blocks =>
    exact ⟨fun p hp => RemoteFx.decode_draws dest blocks [] hp, fun h => absurd rfl (h blocks)⟩
  | avc420 decoded =>
    apply hclean
    unfold payloadOn
    by_cases h : s.allowed.avc420 ∧ s.h264
    · simp only [if_pos h]
      exact avc_draws decoded
    · simp only [if_neg h]
      exact hskip
  | avc444 decoded =>
    apply hclean
    unfold payloadOn
    by_cases h : s.allowed.avc444 ∧ s.h264
    · simp only [if_pos h]
      exact avc_draws decoded
    · simp only [if_neg h]
      exact hskip
  | alpha =>
    exact hclean ⟨fun p hp => ⟨(p, some []), rfl, .nothing hp⟩, fun p p' h => by cases Option.some.inj h⟩
  | other => exact hclean hskip

theorem fillAll_draws (c : Color) (rectangles : List Edges) (hp : p.Valid) :
    ∃ p' written, fillAll c rectangles p = some (p', written) ∧ Wrote p (p', some written) := by
  induction rectangles generalizing p with
  | nil => exact ⟨p, [], rfl, .nothing hp⟩
  | cons e rectangles ih =>
    obtain ⟨p₁, hfill, hchanges⟩ := Pixels.fill_ok hp e.rect c
    obtain ⟨hright, hbottom⟩ := Pixels.clip_edges e.rect p
    obtain ⟨p₂, written, hrest, hwrote⟩ := ih hchanges.valid
    refine ⟨p₂, e.rect.clip p.width p.height :: written, ?_, (Wrote.one hchanges hright hbottom).append hwrote⟩
    unfold fillAll
    rw [hfill]
    show (fillAll c rectangles p₁ >>= fun r => some (r.1, e.rect.clip p.width p.height :: r.2)) = _
    rw [hrest]
    rfl

theorem writeAll_draws (w h : UInt16) (block : List UInt8) (points : List (UInt16 × UInt16)) (hp : p.Valid) : ∃ p'
    written, writeAll w h block points p = some (p', written) ∧ Wrote p (p', some written) := by
  induction points generalizing p with
  | nil => exact ⟨p, [], rfl, .nothing hp⟩
  | cons point points ih =>
    obtain ⟨x, y⟩ := point
    obtain ⟨p₁, done, hwrite, hwrote⟩ := write_draws hp x y w h block (w.toNat * 4)
    obtain ⟨p₂, written, hrest, hwrote'⟩ := ih hwrote.valid
    refine ⟨p₂, done :: written, ?_, hwrote.append hwrote'⟩
    unfold writeAll
    rw [hwrite]
    show (writeAll w h block points p₁ >>= fun r => some (r.1, done :: r.2)) = _
    rw [hrest]
    rfl

theorem draws_all {f : Pixels → Option (Pixels × List Rect)}
    (h : ∀ p, p.Valid → ∃ p' written, f p = some (p', written) ∧ Wrote p (p', some written)) :
    Draws (fun p => (f p).map all) ∧ FailsClean fun p => (f p).map all := by
  refine ⟨fun p hp => ?_, fun p p' hf => ?_⟩
  · obtain ⟨p', written, hsome, hwrote⟩ := h p hp
    exact ⟨(p', some written), Option.map_eq_some_iff.mpr ⟨_, hsome, rfl⟩, hwrote⟩
  · obtain ⟨r, -, hr⟩ := Option.map_eq_some_iff.mp hf
    cases congrArg Prod.snd hr

end Pipeline

end Gfx

end UwuRdp
