import Mathlib.Data.List.Forall2
import UwuRdp.Core.Frame

/-!
# Bitmaps planned are the rectangles cut up

Every rectangle is cut into strips from the top down, and no pixel of it is in two of them or in
none. Grouping the strips into messages keeps them and their order.
-/

namespace UwuRdp

namespace Frame

variable {rect piece : Rect} {px py fuel : ℕ} {y remaining rows : UInt16}

/-- The loop over the rows of a rectangle, between two strips. -/
structure StripState where
  pieces : List Rect
  y : UInt16
  remaining : UInt16

def nextStrip (rect : Rect) (rows : UInt16) (s : StripState) : Option StripState :=
  if 0 < s.remaining then
    let h := min s.remaining rows
    let below := UInt16.ofNat (min (s.y.toNat + h.toNat) 65535)
    some ⟨s.pieces ++ [⟨rect.x, s.y, rect.w, h⟩], below, s.remaining - h⟩
  else none

/-- Turns of the loop lead from one state to another, where the loop ends. -/
def StripsEnd (rect : Rect) (rows : UInt16) (s s' : StripState) : Prop :=
  Relation.ReflTransGen (fun s s' => nextStrip rect rows s = some s') s s' ∧
    nextStrip rect rows s' = none

theorem strips_end (hrows : 0 < rows.toNat) (hfuel : remaining.toNat ≤ fuel) (before : List Rect) : ∃ s', StripsEnd
    rect rows ⟨before, y, remaining⟩ s' ∧ s'.pieces = before ++ strips rect rows fuel y remaining := by
  induction fuel generalizing y remaining before with
  | zero =>
    have hzero : ¬0 < remaining := fun h => by
      have hpos := UInt16.lt_iff_toNat_lt.mp h
      omega
    exact ⟨⟨before, y, remaining⟩, ⟨.refl, if_neg hzero⟩, (List.append_nil _).symm⟩
  | succ fuel ih =>
    unfold strips
    split
    · next hpos =>
      obtain ⟨hstrip, hle, hleft⟩ := stripRows (y := y) hrows hpos
      have hrest : (remaining - min remaining rows).toNat ≤ fuel := by omega
      obtain ⟨s', ⟨hturns, hend⟩, heq⟩ := @ih
        (UInt16.ofNat (min (y.toNat + (min remaining rows).toNat) 65535)) _ hrest
        (before ++ [⟨rect.x, y, rect.w, min remaining rows⟩])
      refine ⟨s', ⟨.head (if_pos hpos) hturns, hend⟩, ?_⟩
      rw [heq, List.append_assoc]
      rfl
    · next hzero => exact ⟨⟨before, y, remaining⟩, ⟨.refl, if_neg hzero⟩, (List.append_nil _).symm⟩

theorem strip_between (hrows : 0 < rows.toNat) (hy : y.toNat + remaining.toNat ≤ 65535)
    (h : piece ∈ strips rect rows fuel y remaining) :
    y.toNat ≤ piece.y.toNat ∧ piece.bottom ≤ y.toNat + remaining.toNat := by
  induction fuel generalizing y remaining with
  | zero => cases h
  | succ fuel ih =>
    unfold strips at h
    split at h
    · next hpos =>
      obtain ⟨hstrip, hle, hleft⟩ := stripRows (y := y) hrows hpos
      have hbelow := toNat_below (y := y) (h := min remaining rows) (by omega)
      rcases List.mem_cons.mp h with rfl | hrest
      · refine ⟨Nat.le_refl _, ?_⟩
        show y.toNat + (min remaining rows).toNat ≤ _
        omega
      · have hrest' := ih (by omega) hrest
        omega
    · cases h

theorem strips_below (hrows : 0 < rows.toNat) (hy : y.toNat + remaining.toNat ≤ 65535) :
    (strips rect rows fuel y remaining).Pairwise fun a b => a.bottom ≤ b.y.toNat := by
  induction fuel generalizing y remaining with
  | zero => exact .nil
  | succ fuel ih =>
    unfold strips
    split
    · next hpos =>
      obtain ⟨hstrip, hle, hleft⟩ := stripRows (y := y) hrows hpos
      have hbelow := toNat_below (y := y) (h := min remaining rows) (by omega)
      refine .cons (fun b hb => ?_) (ih (by omega))
      show y.toNat + (min remaining rows).toNat ≤ _
      have hb' := (strip_between hrows (by omega) hb).1
      omega
    · exact .nil

/-- A rectangle cut up: pieces as wide as it is, from the top down, and each pixel of the rectangle
in one of them. -/
structure IsCut (rect : Rect) (pieces : List Rect) : Prop where
  once : ∀ px py, pieces.countP (fun piece => piece.Has px py) = if rect.Has px py then 1 else 0
  down : pieces.Pairwise fun a b => a.bottom ≤ b.y.toNat
  wide : ∀ piece ∈ pieces, piece.isEmpty = false ∧ piece.x = rect.x ∧ piece.w = rect.w

theorem countP_le_one {pieces : List Rect} (h : pieces.Pairwise fun a b => a.bottom ≤ b.y.toNat) :
    pieces.countP (fun piece => piece.Has px py) ≤ 1 := by
  induction pieces with
  | nil => exact Nat.zero_le _
  | cons piece rest ih =>
    obtain ⟨hfirst, hrest⟩ := List.pairwise_cons.mp h
    rw [List.countP_cons]
    split
    · next hhas =>
      have hnone : rest.countP (fun piece => piece.Has px py) = 0 := by
        rw [List.countP_eq_zero]
        intro other hother hhas'
        have hbelow := hfirst other hother
        have htop := (of_decide_eq_true hhas).2.2.2
        have hlow := (of_decide_eq_true hhas').2.2.1
        omega
      omega
    · exact ih hrest

theorem isCut_stripsOf (hfull : rect.isEmpty = false) (hbottom : rect.bottom ≤ 65535) :
    IsCut rect (stripsOf rect) where
  once := by
    intro px py
    have hdown : (stripsOf rect).Pairwise fun a b => a.bottom ≤ b.y.toNat := strips_below maxRows_pos hbottom
    have hle : (stripsOf rect).countP (fun piece => piece.Has px py) ≤ 1 := countP_le_one hdown
    have hhas : (∃ piece ∈ stripsOf rect, piece.Has px py) ↔ rect.Has px py := has_strips maxRows_pos le_rfl hbottom
    have hpos : 0 < (stripsOf rect).countP (fun piece => piece.Has px py) ↔ rect.Has px py := by
      rw [List.countP_pos_iff, ← hhas]
      simp only [decide_eq_true_eq]
    split
    · next h =>
      have := hpos.mpr h
      omega
    · next h =>
      have := mt hpos.mp h
      omega
  down := strips_below maxRows_pos hbottom
  wide := by
    have hw : rect.w.toNat ≠ 0 := fun hw => by
      rw [Rect.isEmpty_iff.mpr (Or.inl hw)] at hfull
      cases hfull
    exact fun piece hpiece => mem_strips hw maxRows_pos hpiece

/-- The messages planned cut every rectangle up exactly, in order; each keeps to its limits; and the
loops come to an end. -/
theorem planBitmaps_partitions (width height : UInt16) (rects : List Rect)
    (h : ∀ r ∈ rects, r.right ≤ width.toNat ∧ r.bottom ≤ height.toNat) :
    (∃ cuts, (planBitmaps rects).flatten = cuts.flatten ∧
      List.Forall₂ IsCut (rects.filter fun r => !r.isEmpty) cuts) ∧
    (∀ message ∈ planBitmaps rects, message ≠ [] ∧ message.length ≤ 65535 ∧
      bitmapsSize message ≤ maxBitmapsBytes) ∧
    ∀ r ∈ rects, ∃ s', StripsEnd r (maxRows r) ⟨[], r.y, r.h⟩ s' ∧ s'.pieces = stripsOf r := by
  refine ⟨⟨(rects.filter fun r => !r.isEmpty).map stripsOf, ?_, ?_⟩, fun message hmessage => ?_,
    fun r _ => strips_end maxRows_pos (Nat.le_refl _) []⟩
  · have hflat := flatten_group [] bitmapsHeader (pieces rects)
    rw [List.nil_append] at hflat
    exact hflat.trans List.flatMap_def
  · rw [List.forall₂_map_right_iff, List.forall₂_same]
    intro r hr
    obtain ⟨hmem, hfull⟩ := List.mem_filter.mp hr
    exact isCut_stripsOf (Bool.not_eq_true' _ ▸ hfull) ((h r hmem).2.trans (Nat.le_of_lt_succ height.toNat_lt))
  · obtain ⟨hne, hlen, hsize, -⟩ := mem_planBitmaps hmessage
    exact ⟨hne, hlen, hsize⟩

theorem planBitmaps_partitions_huge : ∃ cuts, (planBitmaps [⟨0, 0, 65535, 65535⟩, ⟨7, 3, 0, 9⟩]).flatten =
    cuts.flatten ∧ List.Forall₂ IsCut [⟨0, 0, 65535, 65535⟩] cuts :=
  (planBitmaps_partitions 65535 65535 [⟨0, 0, 65535, 65535⟩, ⟨7, 3, 0, 9⟩] (by decide)).1

end Frame

end UwuRdp
