import UwuRdp.App.Canvas
import UwuRdp.Core.GraphicsChanges
import UwuRdp.Core.Loop

/-!
# The page keeps in step

Between the turns of the session loop, what the page shows is the desktop but for what is marked dirty,
and no more messages with pixels are on their way than the window allows: whichever way updates, resizes,
resets and acknowledgements come.
-/

namespace UwuRdp

open Lib

/-! ## Rectangles -/

namespace DirtyRegion

variable {rects region : DirtyRegion} {px py m n : ℕ}

theorem foldl_add_spec (hm : m ≤ 65535) (hn : n ≤ 65535) (hregion : Within region m n)
    (hrects : Within rects m n) :
    Within (rects.foldl add region) m n ∧
      (Has region px py ∨ Has rects px py → Has (rects.foldl add region) px py) := by
  induction rects generalizing region with
  | nil =>
    refine ⟨hregion, fun h => h.resolve_right ?_⟩
    rintro ⟨r, hr, -⟩
    cases hr
  | cons r rects ih =>
    obtain ⟨hadded, hcovers⟩ := @add_spec _ _ px py _ _ hregion hm hn (hrects r List.mem_cons_self)
    obtain ⟨hwithin, hall⟩ := ih hadded fun r' hr' => hrects r' (List.mem_cons_of_mem _ hr')
    refine ⟨hwithin, fun h => hall ?_⟩
    rcases h with h | ⟨r', hr', hhas⟩
    · exact .inl (hcovers (.inl h))
    · rcases List.mem_cons.mp hr' with rfl | hr'
      · exact .inl (hcovers (.inr hhas))
      · exact .inr ⟨r', hr', hhas⟩

end DirtyRegion

namespace Frame

def ofPixels (p : Pixels) (hp : p.Valid) : Framebuffer where
  data := p.data
  stride := p.stride
  width := p.width.toNat
  height := p.height.toNat
  fits := by
    intro y hy
    have hrows : (y + 1) * p.width.toNat ≤ p.height.toNat * p.width.toNat := Nat.mul_le_mul_right _ hy
    unfold Pixels.Valid at hp
    unfold Pixels.stride
    rw [hp]
    have hone : (y + 1) * p.width.toNat = y * p.width.toNat + p.width.toNat := Nat.succ_mul _ _
    have hstride : y * (p.width.toNat * 4) = y * p.width.toNat * 4 := (Nat.mul_assoc _ _ _).symm
    omega

theorem rgb_ofPixels {p : Pixels} (hp : p.Valid) (px py : ℕ) :
    (ofPixels p hp).rgb px py = (p.pixel px py).take 3 := by
  show (p.data.drop (py * (p.width.toNat * 4) + px * 4)).take 3 =
    ((p.data.drop ((py * p.width.toNat + px) * 4)).take 4).take 3
  rw [List.take_take, Nat.add_mul, Nat.mul_assoc]
  rfl

theorem right_planBitmaps {rects message : List Rect} {m n : ℕ} (hrects : DirtyRegion.Within rects m n)
    (hn : n ≤ 65535) (hmessage : message ∈ planBitmaps rects) : DirtyRegion.Within message m n := by
  intro r hr
  have hfull := (mem_planBitmaps hmessage).2.2.2 r hr
  have hsize : r.w.toNat ≠ 0 ∧ r.h.toNat ≠ 0 := by
    rw [← not_or, ← Rect.isEmpty_iff, hfull]
    exact Bool.false_ne_true
  have hcorner : r.Has (r.right - 1) (r.bottom - 1) := by
    rw [Rect.has_iff]
    unfold Rect.right Rect.bottom
    omega
  obtain ⟨rect, hrect, hhas⟩ := (has_planBitmaps fun r' hr' => le_trans (hrects r' hr').2 hn).mp
    ⟨message, hmessage, r, hr, hcorner⟩
  obtain ⟨hright, hbottom⟩ := hrects rect hrect
  obtain ⟨-, hx, -, hy⟩ := hhas
  exact ⟨by omega, by omega⟩

end Frame

/-! ## The page -/

namespace Page

variable {Link Closed Note : Type} (browser : Browser Closed Note) (link : Link)

/-- What the page makes of messages, one after the other. -/
def received (driver : Driver Link Closed Note) (sent : List (List UInt8)) : Driver Link Closed Note :=
  sent.foldl (fun driver bytes => driver.onData browser (Uint8Array.of bytes) link) driver

variable {browser link} {driver : Driver Link Closed Note} {sent : List (List UInt8)} {canvas : Canvas}
  {fb : Frame.Framebuffer}

theorem received_concat (bytes : List UInt8) : received browser link driver (sent ++ [bytes]) =
    (received browser link driver sent).onData browser (Uint8Array.of bytes) link := List.foldl_concat ..

theorem painted_append (a b : List Rect) : (canvas.painted fb a).painted fb b = canvas.painted fb (a ++ b) := by
  unfold Canvas.painted
  congr 1
  funext px py
  dsimp only
  have happend : (∃ r ∈ a ++ b, r.Has px py) ↔ (∃ r ∈ a, r.Has px py) ∨ ∃ r ∈ b, r.Has px py := by
    constructor
    · rintro ⟨r, hr, hhas⟩
      rcases List.mem_append.mp hr with hr | hr
      · exact .inl ⟨r, hr, hhas⟩
      · exact .inr ⟨r, hr, hhas⟩
    · rintro (⟨r, hr, hhas⟩ | ⟨r, hr, hhas⟩)
      · exact ⟨r, List.mem_append_left _ hr, hhas⟩
      · exact ⟨r, List.mem_append_right _ hr, hhas⟩
  by_cases hb : px < canvas.width ∧ py < canvas.height ∧ ∃ r ∈ b, r.Has px py
  · rw [if_pos hb, if_pos ⟨hb.1, hb.2.1, happend.mpr (.inr hb.2.2)⟩]
  · rw [if_neg hb]
    by_cases ha : px < canvas.width ∧ py < canvas.height ∧ ∃ r ∈ a, r.Has px py
    · rw [if_pos ha, if_pos ⟨ha.1, ha.2.1, happend.mpr (.inl ha.2.2)⟩]
    · rw [if_neg ha, if_neg]
      rintro ⟨hx, hy, hin⟩
      rcases happend.mp hin with hin | hin
      · exact ha ⟨hx, hy, hin⟩
      · exact hb ⟨hx, hy, hin⟩

theorem received_bitmaps {rects : List Rect} {messages : List (List Rect)}
    (hplanned : ∀ message ∈ messages, message ∈ Frame.planBitmaps rects)
    (hinside : ∀ message ∈ messages, ∀ r ∈ message, fb.Contains r) :
    (received browser link driver (messages.map (Frame.bitmaps fb.data fb.stride))).canvas = driver.canvas.painted fb
    messages.flatten := by
  induction messages generalizing driver with
  | nil => exact painted_nil.symm
  | cons message messages ih =>
    have hfirst := (decodes browser driver link (.bitmaps fb rects message (hplanned message List.mem_cons_self)
      (hinside message List.mem_cons_self)) (Uint8Array.of (Frame.bitmaps fb.data fb.stride message))
      (congrArg some (Uint8Array.view_of _).symm)).2.2.2
    show (received browser link (driver.onData browser _ link)
      (messages.map (Frame.bitmaps fb.data fb.stride))).canvas = _
    rw [ih (fun m hm => hplanned m (List.mem_cons_of_mem _ hm)) fun m hm => hinside m (List.mem_cons_of_mem _ hm),
      hfirst, List.flatten_cons, ← painted_append]
    rfl

theorem canvas_onData (message : Message) {bytes : List UInt8} (h : message.encode = some bytes)
    (hpixels : message.kind ≠ Frame.kindBitmaps) (hsize : message.kind ≠ Frame.kindDesktopSize) :
    (driver.onData browser (Uint8Array.of bytes) link).canvas = driver.canvas := by
  have hshown := (decodes browser driver link message (Uint8Array.of bytes)
    (by rw [Uint8Array.view_of]; exact h)).2.2.2
  rw [hshown]
  cases message with
  | bitmaps fb rects message planned inside => exact absurd rfl hpixels
  | desktopSize width height => exact absurd rfl hsize
  | pointerBitmap hotX hotY w h rgba =>
    unfold Message.shown
    dsimp only
    split <;> rfl
  | pointerDefault | pointerHidden | pointerPosition | closed | clipboard => rfl

theorem canvas_desktopSize {width height : UInt16} (hw : 0 < width.toNat) (hh : 0 < height.toNat) :
    (driver.onData browser (Uint8Array.of (Frame.desktopSize width height)) link).canvas = Canvas.cleared width.toNat
    height.toNat 255 := by
  have hshown := (decodes browser driver link (.desktopSize width height)
    (Uint8Array.of (Frame.desktopSize width height)) (congrArg some (Uint8Array.view_of _).symm)).2.2.2
  rw [hshown]
  unfold Message.shown
  dsimp only
  rw [if_pos ⟨UInt16.lt_iff_toNat_lt.mpr hw, UInt16.lt_iff_toNat_lt.mpr hh⟩]

end Page

/-! ## A flush -/

namespace Screen

variable {s : Screen} {unacked : ℕ} {messages : List (List Rect)} {px py : ℕ}

theorem sendSome_spec (hroom : unacked < ackWindow) :
    (sendSome unacked messages).1 ++ (sendSome unacked messages).2.1 = messages ∧
      (sendSome unacked messages).2.2 = unacked + (sendSome unacked messages).1.length ∧
      (sendSome unacked messages).2.2 ≤ ackWindow := by
  induction messages generalizing unacked with
  | nil => exact ⟨rfl, rfl, Nat.le_of_lt hroom⟩
  | cons message rest ih =>
    unfold sendSome
    split
    · exact ⟨rfl, rfl, hroom⟩
    · rename_i hmore
      obtain ⟨hall, hcount, hwindow⟩ := ih (Nat.lt_of_not_le hmore)
      refine ⟨congrArg (message :: ·) hall, ?_, hwindow⟩
      show (sendSome (unacked + 1) rest).2.2 = unacked + ((sendSome (unacked + 1) rest).1.length + 1)
      omega

variable {source : Pixels}

theorem flushRects_within : DirtyRegion.Within (s.flushRects source) source.width.toNat source.height.toNat := by
  intro r hr
  obtain ⟨d, -, rfl⟩ := List.mem_map.mp (List.mem_filter.mp hr).1
  obtain ⟨hright, hbottom⟩ := @Rect.clip_le d (min s.image.width source.width) (min s.image.height source.height)
  rw [Rect.toNat_min] at hright hbottom
  exact ⟨by omega, by omega⟩

theorem has_flushRects (hx : px < s.image.width.toNat) (hy : py < s.image.height.toNat)
    (hx' : px < source.width.toNat) (hy' : py < source.height.toNat) (h : DirtyRegion.Has s.dirty px py) :
    ∃ r ∈ s.flushRects source, r.Has px py := by
  obtain ⟨d, hd, hhas⟩ := h
  have hclip : (d.clip (min s.image.width source.width) (min s.image.height source.height)).Has px py := by
    rw [Rect.has_clip, Rect.toNat_min, Rect.toNat_min]
    exact ⟨hhas, by omega, by omega⟩
  refine ⟨_, List.mem_filter.mpr ⟨List.mem_map.mpr ⟨d, hd, rfl⟩, ?_⟩, hclip⟩
  rw [hclip.not_empty]
  rfl

end Screen

/-! ## The loop -/

def InclusiveRectangle.Has (r : InclusiveRectangle) (px py : ℕ) : Prop :=
  (r.left.toNat ≤ px ∧ px ≤ r.right.toNat) ∧ r.top.toNat ≤ py ∧ py ≤ r.bottom.toNat

namespace Running

def picture (s : Running) : Pixels := s.screen.source s.graphics

/-- A pixel of the desktop of which there is a picture. -/
def OnScreen (s : Running) (px py : ℕ) : Prop :=
  (px < s.screen.image.width.toNat ∧ py < s.screen.image.height.toNat) ∧
    px < s.picture.width.toNat ∧ py < s.picture.height.toNat

def current (s : Running) (px py : ℕ) : List UInt8 := (s.picture.pixel px py).take 3 ++ [255]

def frames (s : Running) : ℕ := s.sent.countP fun bytes => bytes.head? = some Frame.kindBitmaps

def Turn.isAck : Turn → Bool
  | .ack => true
  | _ => false

/-- A pixel is in a region that is said to be updated. -/
def Updated (outputs : List StageOutput) (px py : ℕ) : Prop :=
  ∃ region, .graphicsUpdate region ∈ outputs ∧ region.Has px py

def Marked (s : Running) : Turn → Prop
  | .process image _ outputs => Pixels.ChangesOnly (Updated outputs) s.screen.image image
  | _ => True

variable {Link Closed Note : Type}

section Invariant

variable (browser : Page.Browser Closed Note) (link : Link) (driver : Page.Driver Link Closed Note)

/-- What the page shows once it has everything that was sent. -/
def canvas (s : Running) : Page.Canvas := (Page.received browser link driver s.sent).canvas

/-- What holds all the time. -/
structure Ready (acks : ℕ) (s : Running) : Prop where
  window : s.screen.unacked ≤ ackWindow
  frames : s.frames ≤ acks + s.screen.unacked
  image : s.screen.image.Valid
  bounded : ∀ p, s.graphics = some p → p.Bounded
  within : DirtyRegion.Within s.screen.dirty 65535 65535
  noted : ∀ p, s.graphics = some p → DirtyRegion.Within p.outputDirty 65535 65535
  size : 0 < s.screen.image.width.toNat → 0 < s.screen.image.height.toNat →
    (s.canvas browser link driver).width = s.screen.image.width.toNat ∧
      (s.canvas browser link driver).height = s.screen.image.height.toNat

/-- What holds in the middle of a turn, with some outputs still to be handled: a pixel the page does not
show right is marked, or noted by the pipeline, or in one of these outputs; or the pipeline was reset. -/
structure Midway (acks : ℕ) (left : List StageOutput) (s : Running) : Prop where
  ready : Ready browser link driver acks s
  shown : (∃ p, s.graphics = some p ∧ p.resized ≠ none) ∨ ∀ px py, s.OnScreen px py →
    DirtyRegion.Has s.screen.dirty px py ∨
      (∃ p, s.graphics = some p ∧ DirtyRegion.Has p.outputDirty px py) ∨ Updated left px py ∨
        (s.canvas browser link driver).pixel px py = s.current px py

/-- What holds between turns. -/
structure InStep (acks : ℕ) (s : Running) : Prop where
  midway : Midway browser link driver acks [] s
  quiet : ∀ p, s.graphics = some p → p.resized = none ∧ p.outputDirty = []

end Invariant

variable {browser : Page.Browser Closed Note} {link : Link} {driver : Page.Driver Link Closed Note} {acks : ℕ}
  {left : List StageOutput} {s : Running}

theorem InStep.shown (h : InStep browser link driver acks s) {px py : ℕ} (hon : s.OnScreen px py) :
    DirtyRegion.Has s.screen.dirty px py ∨ (s.canvas browser link driver).pixel px py = s.current px py := by
  rcases h.midway.shown with ⟨p, hp, hreset⟩ | hshown
  · exact absurd (h.quiet p hp).1 hreset
  rcases hshown px py hon with hdirty | ⟨p, hp, r, hr, -⟩ | ⟨region, hregion, -⟩ | hsame
  · exact .inl hdirty
  · rw [(h.quiet p hp).2] at hr
    cases hr
  · cases hregion
  · exact .inr hsame

/-! ### Outputs -/

theorem has_whole {width height : UInt16} {px py : ℕ} (hx : px < width.toNat) (hy : py < height.toNat) :
    DirtyRegion.Has (DirtyRegion.add [] ⟨0, 0, width, height⟩) px py := by
  have hhas : (⟨0, 0, width, height⟩ : Rect).Has px py := by
    rw [Rect.has_iff]
    exact ⟨Nat.zero_le _, by rw [show (0 : UInt16).toNat = 0 from rfl, Nat.zero_add]; exact hx, Nat.zero_le _,
      by rw [show (0 : UInt16).toNat = 0 from rfl, Nat.zero_add]; exact hy⟩
  unfold DirtyRegion.add
  rw [if_neg (by rw [hhas.not_empty]; exact Bool.noConfusion)]
  exact ⟨_, List.mem_singleton.mpr rfl, hhas⟩

theorem within_whole {width height : UInt16} :
    DirtyRegion.Within (DirtyRegion.add [] ⟨0, 0, width, height⟩) 65535 65535 := by
  have hw := width.toNat_lt
  have hh := height.toNat_lt
  have hempty : DirtyRegion.Within [] 65535 65535 := fun r hr => by cases hr
  refine (@DirtyRegion.add_spec _ _ 0 0 _ _ hempty le_rfl le_rfl ⟨?_, ?_⟩).1
  · show 0 + width.toNat ≤ 65535
    omega
  · show 0 + height.toNat ≤ 65535
    omega

theorem Ready.resized (h : Ready browser link driver acks s) (width height : UInt16) :
    Midway browser link driver acks left (s.resized width height) where
  ready := by
    refine ⟨h.window, ?_, List.length_replicate, h.bounded, within_whole, h.noted, fun hw hh => ?_⟩
    · have hcount : (s.resized width height).frames = s.frames := by
        show (s.sent ++ [Frame.desktopSize width height]).countP _ = _
        rw [List.countP_append]
        rfl
      rw [hcount]
      exact h.frames
    · have hcanvas : (s.resized width height).canvas browser link driver =
          Page.Canvas.cleared width.toNat height.toNat 255 := by
        show (Page.received browser link driver (s.sent ++ [Frame.desktopSize width height])).canvas = _
        rw [Page.received_concat]
        exact Page.canvas_desktopSize hw hh
      rw [hcanvas]
      exact ⟨rfl, rfl⟩
  shown := .inr fun _ _ hon => .inl (has_whole hon.1.1 hon.1.2)

theorem Ready.markAllDirty (h : Ready browser link driver acks s) :
    Midway browser link driver acks left { s with screen := s.screen.markAllDirty } where
  ready := ⟨h.window, h.frames, h.image, h.bounded, within_whole, h.noted, h.size⟩
  shown := .inr fun _ _ hon => .inl (has_whole hon.1.1 hon.1.2)

theorem Midway.send (h : Midway browser link driver acks left s) (message : Page.Message) {bytes : List UInt8}
    (hbytes : message.encode = some bytes) (hpixels : message.kind ≠ Frame.kindBitmaps)
    (hsize : message.kind ≠ Frame.kindDesktopSize) : Midway browser link driver acks left (s.send bytes) := by
  have hcanvas : (s.send bytes).canvas browser link driver = s.canvas browser link driver := by
    show (Page.received browser link driver (s.sent ++ [bytes])).canvas = _
    rw [Page.received_concat]
    exact Page.canvas_onData message hbytes hpixels hsize
  have hhead : bytes.head? = some message.kind := by
    have hdecoded := (Page.decodes browser driver link message (Page.Uint8Array.of bytes)
      (by rw [Page.Uint8Array.view_of]; exact hbytes)).2.1
    rwa [Page.Uint8Array.view_of] at hdecoded
  have hframes : (s.send bytes).frames = s.frames := by
    show (s.sent ++ [bytes]).countP _ = _
    rw [List.countP_append, List.countP_singleton, if_neg, Nat.add_zero]
    · rfl
    · rw [hhead, decide_eq_true_eq]
      exact fun heq => hpixels (Option.some.inj heq)
  refine ⟨⟨h.ready.window, by rw [hframes]; exact h.ready.frames, h.ready.image, h.ready.bounded,
    h.ready.within, h.ready.noted, ?_⟩, ?_⟩
  · rw [hcanvas]
    exact h.ready.size
  · rw [hcanvas]
    exact h.shown

theorem has_extent {r : InclusiveRectangle} {image : Pixels} {px py : ℕ} (h : r.Has px py)
    (hx : px < image.width.toNat) (hy : py < image.height.toNat) :
    ((⟨r.left, r.top, Screen.extent r.left r.right, Screen.extent r.top r.bottom⟩ : Rect).clip image.width
      image.height).Has px py := by
  have hw := image.width.toNat_lt
  have hh := image.height.toNat_lt
  obtain ⟨⟨hleft, hright⟩, htop, hbottom⟩ := h
  have hextent : ∀ start stop : UInt16,
      (Screen.extent start stop).toNat = min (stop.toNat - start.toNat + 1) 65535 := fun start stop =>
    UInt16.toNat_ofNat_of_lt' (Nat.lt_succ_of_le (Nat.min_le_right _ _))
  rw [Rect.has_clip, Rect.has_iff]
  dsimp only
  rw [hextent, hextent]
  exact ⟨⟨hleft, by omega, htop, by omega⟩, hx, hy⟩

theorem Midway.graphicsUpdate {region : InclusiveRectangle}
    (h : Midway browser link driver acks (.graphicsUpdate region :: left) s) :
    Midway browser link driver acks left { s with screen := s.screen.markDirty region } := by
  have hclip : ((⟨region.left, region.top, Screen.extent region.left region.right,
      Screen.extent region.top region.bottom⟩ : Rect).clip s.screen.image.width s.screen.image.height).right ≤ 65535 ∧
      ((⟨region.left, region.top, Screen.extent region.left region.right,
      Screen.extent region.top region.bottom⟩ : Rect).clip s.screen.image.width s.screen.image.height).bottom ≤
        65535 := by
    have hw := s.screen.image.width.toNat_lt
    have hh := s.screen.image.height.toNat_lt
    obtain ⟨hright, hbottom⟩ := @Rect.clip_le ⟨region.left, region.top, Screen.extent region.left region.right,
      Screen.extent region.top region.bottom⟩ s.screen.image.width s.screen.image.height
    exact ⟨by omega, by omega⟩
  have hcovers := fun px py => @DirtyRegion.add_spec _ _ px py _ _ h.ready.within le_rfl le_rfl hclip
  refine ⟨⟨h.ready.window, h.ready.frames, h.ready.image, h.ready.bounded, (hcovers 0 0).1, h.ready.noted,
    h.ready.size⟩, ?_⟩
  refine h.shown.imp_right fun hshown px py hon => ?_
  rcases hshown px py hon with hdirty | hnoted | ⟨r, hr, hhas⟩ | hsame
  · exact .inl ((hcovers px py).2 (.inl hdirty))
  · exact .inr (.inl hnoted)
  · rcases List.mem_cons.mp hr with heq | hr
    · obtain rfl := StageOutput.graphicsUpdate.inj heq
      exact .inl ((hcovers px py).2 (.inr (has_extent hhas hon.1.1 hon.1.2)))
    · exact .inr (.inr (.inl ⟨r, hr, hhas⟩))
  · exact .inr (.inr (.inr hsame))

theorem Midway.drop {o : StageOutput} (ho : ∀ region, o ≠ .graphicsUpdate region)
    (h : Midway browser link driver acks (o :: left) s) : Midway browser link driver acks left s := by
  refine { h with shown := h.shown.imp_right fun hshown px py hon => ?_ }
  refine (hshown px py hon).imp_right fun hrest => hrest.imp_right fun hrest => hrest.imp_left ?_
  rintro ⟨region, hregion, hhas⟩
  rcases List.mem_cons.mp hregion with heq | hregion
  · exact absurd heq.symm (ho region)
  · exact ⟨region, hregion, hhas⟩

theorem Midway.output {o : StageOutput} (h : Midway browser link driver acks (o :: left) s) :
    Midway browser link driver acks left (s.output o) := by
  cases o with
  | graphicsUpdate region => exact h.graphicsUpdate
  | pointerDefault => exact (h.drop (by intro r hr; cases hr)).send .pointerDefault rfl (by decide) (by decide)
  | pointerHidden => exact (h.drop (by intro r hr; cases hr)).send .pointerHidden rfl (by decide) (by decide)
  | pointerPosition x y =>
    exact (h.drop (by intro r hr; cases hr)).send (.pointerPosition x y) rfl (by show (6 : UInt8) ≠ 1; decide)
      (by show (6 : UInt8) ≠ 2; decide)
  | pointerBitmap hotX hotY w h' rgba =>
    have hdropped := h.drop (by intro r hr; cases hr)
    unfold Running.output
    dsimp only
    cases hbytes : Frame.pointerBitmap hotX hotY w h' rgba with
    | none => exact hdropped
    | some bytes =>
      exact hdropped.send (.pointerBitmap hotX hotY w h' rgba) hbytes (by show (3 : UInt8) ≠ 1; decide)
        (by show (3 : UInt8) ≠ 2; decide)
  | deactivateAll width height => exact h.ready.resized width height
  | responseFrame | other => exact h.drop (by intro r hr; cases hr)

theorem Midway.outputs {outputs : List StageOutput} (h : Midway browser link driver acks outputs s) :
    Midway browser link driver acks [] (outputs.foldl Running.output s) := by
  induction outputs generalizing s with
  | nil => exact h
  | cons o outputs ih => exact ih h.output

/-! ### The end of a turn -/

theorem Ready.added {dirty : List Rect} (h : Ready browser link driver acks s)
    (hdirty : DirtyRegion.Within dirty 65535 65535) : Ready browser link driver acks
      { s with screen := { s.screen with dirty := dirty.foldl DirtyRegion.add s.screen.dirty } } :=
  ⟨h.window, h.frames, h.image, h.bounded,
    (@DirtyRegion.foldl_add_spec _ _ 0 0 _ _ le_rfl le_rfl h.within hdirty).1, h.noted, h.size⟩

theorem Ready.taken {p : Gfx.Pipeline} (h : Ready browser link driver acks s) (hp : s.graphics = some p) :
    Ready browser link driver acks { s with graphics := some p.takeChanges.2 } := by
  have hbounded := h.bounded p hp
  refine ⟨h.window, h.frames, h.image, fun q hq => ?_, h.within, fun q hq => ?_, h.size⟩
  · rw [← Option.some.inj hq]
    exact ⟨hbounded.stored, hbounded.cached, hbounded.output⟩
  · rw [← Option.some.inj hq]
    intro r hr
    cases hr

theorem Midway.added {dirty : List Rect} (h : Midway browser link driver acks [] s)
    (hdirty : DirtyRegion.Within dirty 65535 65535)
    (hquiet : ∀ p, s.graphics = some p → p.resized = none ∧ p.outputDirty = []) :
    InStep browser link driver acks
      { s with screen := { s.screen with dirty := dirty.foldl DirtyRegion.add s.screen.dirty } } := by
  refine ⟨⟨h.ready.added hdirty, ?_⟩, hquiet⟩
  refine h.shown.imp_right fun hshown px py hon => (hshown px py hon).imp_left fun hin => ?_
  exact (DirtyRegion.foldl_add_spec le_rfl le_rfl h.ready.within hdirty).2 (.inl hin)

theorem Midway.takeChanges (h : Midway browser link driver acks [] s) :
    InStep browser link driver acks s.takeChanges := by
  unfold Running.takeChanges
  cases hgraphics : s.graphics with
  | none =>
    refine ⟨h, fun p hp => ?_⟩
    rw [hgraphics] at hp
    cases hp
  | some p =>
    have hnoted := h.ready.noted p hgraphics
    have htaken := h.ready.taken hgraphics
    have hquiet : ∀ q, some p.takeChanges.2 = some q → q.resized = none ∧ q.outputDirty = [] := by
      intro q hq
      rw [← Option.some.inj hq]
      exact ⟨rfl, rfl⟩
    dsimp only
    cases hresized : p.takeChanges.1.resized with
    | none =>
      refine ⟨⟨htaken.added hnoted, .inr fun px py hon => ?_⟩, hquiet⟩
      have hcovers := (@DirtyRegion.foldl_add_spec _ _ px py _ _ le_rfl le_rfl h.ready.within hnoted).2
      -- The pipeline draws what it drew.
      have hpicture : s.screen.source (some p.takeChanges.2) = s.picture := by
        unfold picture
        rw [hgraphics]
        rfl
      have hon' : s.OnScreen px py := by
        refine ⟨hon.1, ?_⟩
        rw [← hpicture]
        exact hon.2
      rcases h.shown with ⟨q, hq, hreset⟩ | hshown
      · cases hgraphics.symm.trans hq
        exact absurd hresized hreset
      rcases hshown px py hon' with hdirty | ⟨q, hq, hin⟩ | ⟨region, hregion, -⟩ | hsame
      · exact .inl (hcovers (.inl hdirty))
      · cases hgraphics.symm.trans hq
        exact .inl (hcovers (.inr hin))
      · cases hregion
      · refine .inr (.inr (.inr (hsame.trans ?_)))
        unfold current
        rw [← hpicture]
        rfl
    | some size =>
      obtain ⟨width, height⟩ := size
      dsimp only
      split
      · exact htaken.markAllDirty.added hnoted hquiet
      · exact (htaken.resized width height).added hnoted hquiet

/-! ### What comes from the server -/

theorem told_handleAll {p : Gfx.Pipeline} (hp : p.Bounded) (pdus : List Gfx.Pdu) :
    (handleAll p pdus).Bounded ∧ Gfx.Pipeline.Told p (handleAll p pdus) := by
  induction pdus generalizing p with
  | nil => exact ⟨hp, .same hp rfl rfl rfl⟩
  | cons pdu pdus ih =>
    obtain ⟨p', hact, hp'⟩ := Gfx.Pipeline.act_bounded hp pdu
    show (handleAll ((p.act pdu).getD p) pdus).Bounded ∧ Gfx.Pipeline.Told p (handleAll ((p.act pdu).getD p) pdus)
    rw [hact]
    exact ⟨(ih hp').1, (Gfx.Pipeline.act_told hp hact).trans (ih hp').2⟩

/-- The image and the pipeline after a message of the server. -/
def processed (s : Running) (image : Pixels) (pdus : List Gfx.Pdu) : Running :=
  { s with
    screen := { s.screen with image := image }
    graphics := s.graphics.map fun pipeline => handleAll pipeline pdus }

theorem picture_eq_image {s : Running} (h : s.graphics.bind Gfx.Pipeline.output = none) :
    s.picture = s.screen.image := by
  unfold picture Screen.source
  rw [h]
  rfl

theorem picture_eq_output {s : Running} {output : Pixels} (h : s.graphics.bind Gfx.Pipeline.output = some output) :
    s.picture = output := by
  unfold picture Screen.source
  rw [h]
  rfl

theorem told_processed (hbounded : ∀ p, s.graphics = some p → p.Bounded) {image : Pixels}
    {outputs : List StageOutput} (hmarked : Pixels.ChangesOnly (Updated outputs) s.screen.image image)
    (pdus : List Gfx.Pdu) :
    (∃ p, (s.processed image pdus).graphics = some p ∧ p.resized ≠ none) ∨
      Pixels.ChangesOnly (fun px py => Updated outputs px py ∨
          ∃ p, (s.processed image pdus).graphics = some p ∧ DirtyRegion.Has p.outputDirty px py)
        s.picture (s.processed image pdus).picture := by
  cases hgraphics : s.graphics with
  | none =>
    have hafter : (s.processed image pdus).graphics = none := by
      unfold processed
      rw [hgraphics]
      rfl
    rw [picture_eq_image (show s.graphics.bind Gfx.Pipeline.output = none by rw [hgraphics]; rfl),
      picture_eq_image (show (s.processed image pdus).graphics.bind Gfx.Pipeline.output = none by
        rw [hafter]; rfl)]
    exact .inr (hmarked.mono fun px py hin => .inl hin)
  | some p =>
    have hafter : (s.processed image pdus).graphics = some (handleAll p pdus) := by
      unfold processed
      rw [hgraphics]
      rfl
    obtain ⟨-, htold⟩ := told_handleAll (hbounded p hgraphics) pdus
    rcases htold.recorded with hreset | hrecords
    · exact .inl ⟨_, hafter, hreset⟩
    refine .inr ?_
    cases hout : p.output with
    | none =>
      rw [picture_eq_image (show s.graphics.bind Gfx.Pipeline.output = none by rw [hgraphics]; exact hout),
        picture_eq_image (show (s.processed image pdus).graphics.bind Gfx.Pipeline.output = none by
          rw [hafter]; exact hrecords.none hout)]
      exact hmarked.mono fun px py hin => .inl hin
    | some output =>
      obtain ⟨output', hout', hchanges⟩ := hrecords.changes output hout
      rw [picture_eq_output (show s.graphics.bind Gfx.Pipeline.output = some output by rw [hgraphics]; exact hout),
        picture_eq_output (show (s.processed image pdus).graphics.bind Gfx.Pipeline.output = some output' by
          rw [hafter]; exact hout')]
      exact hchanges.mono fun px py hin => .inr ⟨_, hafter, hin⟩

theorem InStep.process (h : InStep browser link driver acks s) {image : Pixels} {outputs : List StageOutput}
    (hmarked : Pixels.ChangesOnly (Updated outputs) s.screen.image image) (pdus : List Gfx.Pdu) :
    Midway browser link driver acks outputs (s.processed image pdus) := by
  have hready := h.midway.ready
  refine ⟨⟨hready.window, hready.frames, hmarked.valid, ?_, hready.within, ?_, ?_⟩, ?_⟩
  · intro q hq
    obtain ⟨p, hp, rfl⟩ := Option.map_eq_some_iff.mp hq
    exact (told_handleAll (hready.bounded p hp) pdus).1
  · intro q hq
    obtain ⟨p, hp, rfl⟩ := Option.map_eq_some_iff.mp hq
    exact (told_handleAll (hready.bounded p hp) pdus).2.within (hready.noted p hp)
  · show 0 < image.width.toNat → 0 < image.height.toNat → _ = image.width.toNat ∧ _ = image.height.toNat
    rw [hmarked.width, hmarked.height]
    exact hready.size
  · refine (told_processed hready.bounded hmarked pdus).imp_right fun hchanges px py hon => ?_
    obtain ⟨⟨hx, hy⟩, hx', hy'⟩ := hon
    rw [hchanges.width] at hx'
    rw [hchanges.height] at hy'
    have hon' : s.OnScreen px py := by
      refine ⟨⟨?_, ?_⟩, hx', hy'⟩
      · rw [← hmarked.width]
        exact hx
      · rw [← hmarked.height]
        exact hy
    by_cases hin : Updated outputs px py ∨
        ∃ p, (s.processed image pdus).graphics = some p ∧ DirtyRegion.Has p.outputDirty px py
    · rcases hin with hin | hin
      · exact .inr (.inr (.inl hin))
      · exact .inr (.inl hin)
    refine (h.shown hon').imp_right fun hsame => .inr (.inr (hsame.trans ?_))
    unfold current
    rw [hchanges.pixel px py hx' hin]

/-! ### A flush -/

theorem picture_valid (h : Ready browser link driver acks s) : s.picture.Valid := by
  unfold picture Screen.source
  cases hout : s.graphics.bind Gfx.Pipeline.output with
  | none => exact h.image
  | some output =>
    obtain ⟨p, hp, hout⟩ := Option.bind_eq_some_iff.mp hout
    exact (h.bounded p hp).output output hout

theorem InStep.flush (h : InStep browser link driver acks s) (hflush : s.screen.canFlush = true) :
    InStep browser link driver acks (s.step .flush) := by
  have hready := h.midway.ready
  have hvalid := picture_valid hready
  have hroom : s.screen.unacked < ackWindow := (of_decide_eq_true hflush).2
  obtain ⟨hall, hcount, hwindow⟩ := @Screen.sendSome_spec s.screen.unacked
    (Frame.planBitmaps (s.screen.flushRects s.picture)) hroom
  have hstep : s.step .flush = { s with
      screen := (s.screen.flush s.graphics).1, sent := s.sent ++ (s.screen.flush s.graphics).2 } := if_pos hflush
  rw [hstep]
  unfold Screen.flush
  dsimp only
  rw [show s.screen.source s.graphics = s.picture from rfl]
  generalize hsome : Screen.sendSome s.screen.unacked (Frame.planBitmaps (s.screen.flushRects s.picture)) = parts
    at hall hcount hwindow ⊢
  obtain ⟨sent, rest, unacked⟩ := parts
  dsimp only at hall hcount hwindow ⊢
  have hw := s.picture.width.toNat_lt
  have hh := s.picture.height.toNat_lt
  have hplanned : ∀ message ∈ sent ++ rest, DirtyRegion.Within message s.picture.width.toNat
      s.picture.height.toNat := by
    intro message hmessage
    rw [hall] at hmessage
    exact Frame.right_planBitmaps Screen.flushRects_within (by omega) hmessage
  have hcanvas (screen : Screen) : Running.canvas browser link driver
      ⟨screen, s.graphics, s.sent ++ sent.map (Frame.bitmaps s.picture.data s.picture.stride)⟩ =
      (s.canvas browser link driver).painted (Frame.ofPixels s.picture hvalid) sent.flatten := by
    generalize hpicture : Frame.ofPixels s.picture hvalid = fb
    have hmessages : ∀ message ∈ sent, message ∈ Frame.planBitmaps (s.screen.flushRects s.picture) :=
      fun message hmessage => hall ▸ List.mem_append_left _ hmessage
    have hinside : ∀ message ∈ sent, ∀ r ∈ message, fb.Contains r := fun message hmessage r hr =>
      hpicture ▸ hplanned message (List.mem_append_left _ hmessage) r hr
    have hreceived : (Page.received browser link (Page.received browser link driver s.sent)
        (sent.map (Frame.bitmaps fb.data fb.stride))).canvas =
          (s.canvas browser link driver).painted fb sent.flatten := Page.received_bitmaps hmessages hinside
    rw [← hreceived, ← hpicture]
    unfold Running.canvas Page.received
    rw [List.foldl_append]
    rfl
  have hrest : DirtyRegion.Within rest.flatten 65535 65535 := by
    intro r hr
    obtain ⟨message, hmessage, hr⟩ := List.mem_flatten.mp hr
    obtain ⟨hright, hbottom⟩ := hplanned message (List.mem_append_right _ hmessage) r hr
    exact ⟨by omega, by omega⟩
  have hnone : DirtyRegion.Within [] 65535 65535 := fun r hr => by cases hr
  have hadded := fun px py => @DirtyRegion.foldl_add_spec _ _ px py _ _ le_rfl le_rfl hnone hrest
  refine ⟨⟨⟨hwindow, ?_, hready.image, hready.bounded, (hadded 0 0).1, hready.noted, ?_⟩, .inr ?_⟩, h.quiet⟩
  · have hframes : (sent.map (Frame.bitmaps s.picture.data s.picture.stride)).countP
        (fun bytes => bytes.head? = some Frame.kindBitmaps) = sent.length := by
      rw [List.countP_map]
      refine List.countP_eq_length.mpr fun message _ => ?_
      show decide ((Frame.bitmaps s.picture.data s.picture.stride message).head? = some Frame.kindBitmaps) = true
      exact decide_eq_true rfl
    show (s.sent ++ _).countP _ ≤ acks + unacked
    rw [List.countP_append, hframes, hcount]
    have hold : s.sent.countP (fun bytes => bytes.head? = some Frame.kindBitmaps) ≤ acks + s.screen.unacked :=
      hready.frames
    omega
  · rw [hcanvas]
    exact hready.size
  · intro px py hon
    rw [hcanvas]
    have hon' : s.OnScreen px py := hon
    obtain ⟨hwidth, hheight⟩ := hready.size (Nat.zero_lt_of_lt hon'.1.1) (Nat.zero_lt_of_lt hon'.1.2)
    by_cases hsent : ∃ r ∈ sent.flatten, r.Has px py
    · refine .inr (.inr (.inr ?_))
      unfold Page.Canvas.painted
      dsimp only
      rw [if_pos ⟨by rw [hwidth]; exact hon'.1.1, by rw [hheight]; exact hon'.1.2, hsent⟩, Frame.rgb_ofPixels]
      rfl
    · rcases h.shown hon' with hdirty | hsame
      · obtain ⟨message, hmessage, r, hr, hhas⟩ := (Frame.has_planBitmaps fun r hr =>
          le_trans (Screen.flushRects_within r hr).2 (by omega)).mpr
          (Screen.has_flushRects hon'.1.1 hon'.1.2 hon'.2.1 hon'.2.2 hdirty)
        rw [← hall] at hmessage
        rcases List.mem_append.mp hmessage with hmessage | hmessage
        · exact absurd ⟨r, List.mem_flatten.mpr ⟨message, hmessage, hr⟩, hhas⟩ hsent
        · exact .inl ((hadded px py).2 (.inr ⟨r, List.mem_flatten.mpr ⟨message, hmessage, hr⟩, hhas⟩))
      · refine .inr (.inr (.inr ?_))
        unfold Page.Canvas.painted
        dsimp only
        rw [if_neg fun hin => hsent hin.2.2]
        exact hsame

/-! ### Runs -/

theorem InStep.step (h : InStep browser link driver acks s) {turn : Turn} (hmarked : s.Marked turn) :
    InStep browser link driver (acks + if turn.isAck then 1 else 0) (s.step turn) := by
  cases turn with
  | ack =>
    have hready := h.midway.ready
    have hframes := hready.frames
    have hwindow := hready.window
    have hacked : Midway browser link driver (acks + 1) []
        { s with screen := { s.screen with unacked := s.screen.unacked - 1 } } := by
      refine ⟨⟨?_, ?_, hready.image, hready.bounded, hready.within, hready.noted, hready.size⟩, h.midway.shown⟩
      · show s.screen.unacked - 1 ≤ ackWindow
        omega
      · show s.frames ≤ acks + 1 + (s.screen.unacked - 1)
        omega
    exact hacked.takeChanges
  | flush =>
    by_cases hflush : s.screen.canFlush = true
    · exact h.flush hflush
    · have hstays : s.step .flush = s := if_neg hflush
      rw [hstays]
      exact h
  | clipboard json =>
    have hsent := h.midway.send (.clipboard json) rfl (by show (8 : UInt8) ≠ 1; decide)
      (by show (8 : UInt8) ≠ 2; decide)
    exact hsent.takeChanges
  | process image pdus outputs => exact (h.process hmarked pdus).outputs.takeChanges

theorem inStep_start (width height : UInt16) {graphics : Option Gfx.Pipeline}
    (hgraphics : ∀ p, graphics = some p → ∃ h264, p = .new h264) :
    InStep browser link driver 0 (start width height graphics) := by
  have hempty : Ready browser link driver 0 (⟨⟨Screen.decodedImage 0 0, [], 0⟩, graphics, []⟩ : Running) := by
    refine ⟨Nat.zero_le _, le_rfl, List.length_replicate, fun p hp => ?_, fun r hr => ?_, fun p hp => ?_, ?_⟩
    · obtain ⟨h264, rfl⟩ := hgraphics p hp
      exact Gfx.Pipeline.bounded_new h264
    · cases hr
    · obtain ⟨h264, rfl⟩ := hgraphics p hp
      intro r hr
      cases hr
    · intro hw
      exact absurd hw (Nat.lt_irrefl 0)
  refine ⟨hempty.resized width height, fun p hp => ?_⟩
  obtain ⟨h264, rfl⟩ := hgraphics p hp
  exact ⟨rfl, rfl⟩

open Steps in
theorem inStep_run {turns : List Turn} (h : InStep browser link driver acks s)
    (hmarked : Along Running.step Marked s turns) :
    InStep browser link driver (acks + turns.countP Turn.isAck) (run Running.step s turns) := by
  induction turns generalizing s acks with
  | nil => exact h
  | cons turn turns ih =>
    have hrest := ih (h.step hmarked.1) hmarked.2
    have hcount : acks + (turn :: turns).countP Turn.isAck =
        (acks + if turn.isAck then 1 else 0) + turns.countP Turn.isAck := by
      rw [List.countP_cons]
      omega
    rw [hcount]
    exact hrest

open Steps in
/-- After any turns, in which the decoder says where it draws: no more messages with pixels are
unacknowledged than the window allows, and a page that has received what was sent shows the desktop on every
pixel that is not marked. -/
theorem page_in_step (browser : Page.Browser Closed Note) (link : Link) (driver : Page.Driver Link Closed Note)
    (width height : UInt16) (graphics : Option Gfx.Pipeline)
    (hgraphics : ∀ p, graphics = some p → ∃ h264, p = .new h264) (turns : List Turn)
    (hmarked : Along Running.step Marked (start width height graphics) turns) :
    let s := run Running.step (start width height graphics) turns
    (s.screen.unacked ≤ ackWindow ∧ s.frames ≤ turns.countP Turn.isAck + s.screen.unacked) ∧
      ∀ px py, s.OnScreen px py → ¬DirtyRegion.Has s.screen.dirty px py →
        (px < (s.canvas browser link driver).width ∧ py < (s.canvas browser link driver).height) ∧
          (s.canvas browser link driver).pixel px py = s.current px py := by
  intro s
  have h : InStep browser link driver (0 + turns.countP Turn.isAck) s := inStep_run (inStep_start width height hgraphics) hmarked
  rw [Nat.zero_add] at h
  refine ⟨⟨h.midway.ready.window, h.midway.ready.frames⟩, fun px py hon hclean => ⟨?_, (h.shown hon).resolve_left hclean⟩⟩
  obtain ⟨hw, hh⟩ := h.midway.ready.size (Nat.zero_lt_of_lt hon.1.1) (Nat.zero_lt_of_lt hon.1.2)
  rw [hw, hh]
  exact hon.1

/-- The whole desktop goes out, then the server draws its first pixel. -/
def drawnTurns : List Turn :=
  [.flush, .process ⟨2, 1, [1, 2, 3, 0, 0, 0, 0, 0]⟩ [] [.graphicsUpdate ⟨0, 0, 0, 0⟩], .flush, .ack]

open Steps in
theorem drawnTurns_marked : Along Running.step Marked (start 2 1 (some (.new false))) drawnTurns := by
  refine ⟨trivial, ⟨rfl, rfl, rfl, fun px py hx hout => ?_⟩, trivial, trivial, trivial⟩
  have hx : px < 2 := hx
  cases py with
  | zero =>
    rcases px with _ | _ | px
    · exact absurd ⟨_, List.mem_cons_self, ⟨Nat.zero_le _, Nat.zero_le _⟩, Nat.zero_le _, Nat.zero_le _⟩ hout
    · rfl
    · omega
  | succ py =>
    have hbeyond : ∀ data : List UInt8, data.length = 8 → Raster.cell 4 data ((py + 1) * 2 + px) = [] := by
      intro data hlength
      unfold Raster.cell
      rw [List.drop_eq_nil_of_le (by omega), List.take_nil]
    exact (hbeyond [1, 2, 3, 0, 0, 0, 0, 0] rfl).trans (hbeyond (List.replicate 8 0) rfl).symm

open Steps in
theorem page_in_step_drawn :
    let s := run Running.step (start 2 1 (some (.new false))) drawnTurns
    s.screen.unacked = 1 ∧ s.frames = 2 ∧
      (s.canvas ⟨true, fun _ => none, fun _ => none⟩ 7 Page.blank).pixel 0 0 = [1, 2, 3, 255] := by
  intro s
  obtain ⟨-, hshown⟩ := page_in_step ⟨true, fun _ => none, fun _ => none⟩ 7 Page.blank 2 1 (some (.new false))
    (fun p hp => ⟨false, (Option.some.inj hp).symm⟩) drawnTurns drawnTurns_marked
  have hclean : ¬DirtyRegion.Has s.screen.dirty 0 0 := by
    rw [show s.screen.dirty = [] by decide +kernel]
    rintro ⟨r, hr, -⟩
    cases hr
  have hon : s.OnScreen 0 0 := ⟨⟨by decide +kernel, by decide +kernel⟩, by decide +kernel, by decide +kernel⟩
  exact ⟨by decide +kernel, by decide +kernel, (hshown 0 0 hon hclean).2.trans (by decide +kernel)⟩

end Running

end UwuRdp
