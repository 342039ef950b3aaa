import Mathlib.Algebra.Order.Ring.Int
import Mathlib.Algebra.Order.Ring.Nat
import Mathlib.Data.List.Basic
import Mathlib.Data.UInt
import Mathlib.Logic.Relation
import Mathlib.Order.Lattice

/-!
# Rectangles and what changed

Rectangles of at most 65535 by 65535 pixels, with edges up to twice as far, and the parts of a picture
that changed, as a short list of them.
-/

namespace UwuRdp

/-- A rectangle in pixels; `x + w` and `y + h` are exclusive edges. -/
structure Rect where
  x : UInt16
  y : UInt16
  w : UInt16
  h : UInt16
deriving DecidableEq

namespace Rect

def isEmpty (r : Rect) : Bool := r.w = 0 ∨ r.h = 0

def area (r : Rect) : ℕ := r.w.toNat * r.h.toNat

def right (r : Rect) : ℕ := r.x.toNat + r.w.toNat

def bottom (r : Rect) : ℕ := r.y.toNat + r.h.toNat

/-- `end - start`, as far as it fits. -/
def span (start : UInt16) (stop : ℕ) : UInt16 := UInt16.ofNat (min (stop - start.toNat) 65535)

def union (r other : Rect) : Rect :=
  if r.isEmpty then other
  else if other.isEmpty then r
  else
    let x := min r.x other.x
    let y := min r.y other.y
    ⟨x, y, span x (max r.right other.right), span y (max r.bottom other.bottom)⟩

def contains (r other : Rect) : Bool :=
  r.x ≤ other.x ∧ r.y ≤ other.y ∧ other.right ≤ r.right ∧ other.bottom ≤ r.bottom

/-- Whether the two overlap once each is grown by `gap` pixels on every side. -/
def near (r other : Rect) (gap : ℕ) : Bool :=
  r.x.toNat ≤ other.right + gap ∧ other.x.toNat ≤ r.right + gap ∧ r.y.toNat ≤ other.bottom + gap ∧
    other.y.toNat ≤ r.bottom + gap

def clip (r : Rect) (width height : UInt16) : Rect :=
  let x := min r.x width
  let y := min r.y height
  ⟨x, y, span x (min r.right width.toNat), span y (min r.bottom height.toNat)⟩

/-- The overlap of two rectangles, empty if there is none. -/
def intersect (a b : Rect) : Rect :=
  let left := max a.x b.x
  let top := max a.y b.y
  let right := min a.right b.right
  let bottom := min a.bottom b.bottom
  if right ≤ left.toNat ∨ bottom ≤ top.toNat then ⟨0, 0, 0, 0⟩
  else
    let fit (n : ℕ) : UInt16 := if n < 65536 then UInt16.ofNat n else 0
    ⟨left, top, fit (right - left.toNat), fit (bottom - top.toNat)⟩

/-- From exclusive edges; empty if they are the wrong way round. -/
def fromEdges (left top right bottom : UInt16) : Rect :=
  ⟨left, top, UInt16.ofNat (right.toNat - left.toNat), UInt16.ofNat (bottom.toNat - top.toNat)⟩

def Has (r : Rect) (px py : ℕ) : Prop :=
  r.x.toNat ≤ px ∧ px < r.right ∧ r.y.toNat ≤ py ∧ py < r.bottom

instance (r : Rect) (px py : ℕ) : Decidable (r.Has px py) := inferInstanceAs (Decidable (_ ∧ _))

end Rect

/-- Above this many rectangles the region collapses into its bounding box. -/
def maxRects : ℕ := 32

/-- Rectangles closer than this are candidates for merging. -/
def mergeGap : ℕ := 8

/-- Whether the union wastes little enough on pixels that did not change. -/
def shouldMerge (a b : Rect) : Bool :=
  if a.contains b || b.contains a then true
  else if !a.near b mergeGap then false
  else (a.union b).area ≤ a.area + b.area + max a.area b.area / 2

/-- `Vec::swap_remove` -/
def swapRemove {α : Type} (l : List α) (i : ℕ) : List α :=
  match l.getLast? with
  | some last => (l.set i last).dropLast
  | none => []

abbrev DirtyRegion := List Rect

namespace DirtyRegion

/-- Merge a rectangle with whatever wants to join; `fuel` counts the rectangles. -/
def absorb : ℕ → DirtyRegion → Rect → DirtyRegion
  | 0, rects, current => rects ++ [current]
  | fuel + 1, rects, current =>
    match rects.findIdx? fun r => shouldMerge r current with
    | none => rects ++ [current]
    | some i =>
      match rects[i]? with
      | none => rects ++ [current]
      | some other => absorb fuel (swapRemove rects i) (current.union other)

def add (rects : DirtyRegion) (rect : Rect) : DirtyRegion :=
  if rect.isEmpty then rects
  else
    let rects := absorb rects.length rects rect
    if maxRects < rects.length then [rects.foldl Rect.union ⟨0, 0, 0, 0⟩] else rects

def Has (rects : DirtyRegion) (px py : ℕ) : Prop := ∃ r ∈ rects, r.Has px py

end DirtyRegion

/-! ## What is covered -/

namespace Rect

variable {r other a b : Rect} {px py : ℕ} {width height : UInt16}

theorem toNat_min (m n : UInt16) : (min m n).toNat = min m.toNat n.toNat := by
  show (if m ≤ n then m else n).toNat = _
  split
  · next h => rw [Nat.min_eq_left (UInt16.le_iff_toNat_le.mp h)]
  · next h => rw [Nat.min_eq_right (Nat.le_of_not_le fun hle => h (UInt16.le_iff_toNat_le.mpr hle))]

theorem toNat_span {start : UInt16} {stop : ℕ} : (span start stop).toNat = min (stop - start.toNat) 65535 :=
  UInt16.toNat_ofNat_of_lt' (Nat.lt_succ_of_le (Nat.min_le_right _ _))

theorem isEmpty_iff : r.isEmpty = true ↔ r.w.toNat = 0 ∨ r.h.toNat = 0 := by
  unfold isEmpty
  rw [decide_eq_true_iff, ← UInt16.toNat_inj, ← UInt16.toNat_inj]
  rfl

theorem has_iff : r.Has px py ↔ r.x.toNat ≤ px ∧ px < r.x.toNat + r.w.toNat ∧
    r.y.toNat ≤ py ∧ py < r.y.toNat + r.h.toNat := Iff.rfl

theorem Has.not_empty (h : r.Has px py) : r.isEmpty = false := by
  rw [has_iff] at h
  rw [← Bool.not_eq_true, isEmpty_iff]
  omega

theorem has_clip : (r.clip width height).Has px py ↔ r.Has px py ∧ px < width.toNat ∧ py < height.toNat := by
  have hw := width.toNat_lt
  have hh := height.toNat_lt
  rw [has_iff, has_iff]
  unfold clip right bottom
  rw [toNat_span, toNat_span, toNat_min, toNat_min]
  omega

theorem clip_le : (r.clip width height).right ≤ width.toNat ∧ (r.clip width height).bottom ≤ height.toNat := by
  unfold clip right bottom
  rw [toNat_span, toNat_span, toNat_min, toNat_min]
  omega

theorem clip_x (h : (r.clip width height).isEmpty = false) :
    (r.clip width height).x = r.x ∧ (r.clip width height).y = r.y := by
  rw [← Bool.not_eq_true, isEmpty_iff] at h
  rw [← UInt16.toNat_inj, ← UInt16.toNat_inj]
  unfold clip right bottom at h ⊢
  rw [toNat_span, toNat_span, toNat_min, toNat_min] at h
  rw [toNat_min, toNat_min]
  omega

theorem clip_size : (r.clip width height).w.toNat ≤ r.w.toNat ∧ (r.clip width height).h.toNat ≤ r.h.toNat := by
  unfold clip right bottom
  rw [toNat_span, toNat_span, toNat_min, toNat_min]
  omega

theorem has_union (h : r.Has px py ∨ other.Has px py) (hr : r.right ≤ 65535) (hrb : r.bottom ≤ 65535)
    (ho : other.right ≤ 65535) (hob : other.bottom ≤ 65535) : (r.union other).Has px py := by
  unfold union
  split
  · next hempty => exact h.resolve_left fun hr => by rw [hr.not_empty] at hempty; cases hempty
  · split
    · next hempty => exact h.resolve_right fun ho => by rw [ho.not_empty] at hempty; cases hempty
    · rw [has_iff]
      rw [toNat_span, toNat_span, toNat_min, toNat_min]
      rw [has_iff, has_iff] at h
      unfold right at hr ho ⊢
      unfold bottom at hrb hob ⊢
      rcases h with ⟨hleft, hright, htop, hbottom⟩ | ⟨hleft, hright, htop, hbottom⟩
      · exact ⟨by omega, by omega, by omega, by omega⟩
      · exact ⟨by omega, by omega, by omega, by omega⟩

theorem union_le {m n : ℕ} (hr : r.right ≤ m) (hrb : r.bottom ≤ n) (ho : other.right ≤ m)
    (hob : other.bottom ≤ n) : (r.union other).right ≤ m ∧ (r.union other).bottom ≤ n := by
  unfold union
  split
  · exact ⟨ho, hob⟩
  · split
    · exact ⟨hr, hrb⟩
    · unfold right at hr ho ⊢
      unfold bottom at hrb hob ⊢
      rw [toNat_span, toNat_span, toNat_min, toNat_min]
      exact ⟨by omega, by omega⟩

end Rect

namespace DirtyRegion

variable {rects : DirtyRegion} {rect r : Rect} {px py m n : ℕ}

def Within (rects : DirtyRegion) (m n : ℕ) : Prop := ∀ r ∈ rects, r.right ≤ m ∧ r.bottom ≤ n

variable {α : Type} {i : ℕ} {current : Rect}

theorem swapRemove_concat (l : List α) (last : α) (i : ℕ) : swapRemove (l ++ [last]) i = l.set i last := by
  unfold swapRemove
  rw [List.getLast?_concat]
  dsimp only
  rw [List.set_append]
  split
  · exact List.dropLast_concat
  · next hi =>
    rw [List.set_eq_of_length_le (Nat.le_of_not_lt hi)]
    cases i - l.length <;> exact List.dropLast_concat

theorem mem_swapRemove {l : List α} {a b : α} (hi : l[i]? = some b) (ha : a ∈ l) : a = b ∨ a ∈ swapRemove l i := by
  rcases List.eq_nil_or_concat l with rfl | ⟨l, last, rfl⟩
  · cases ha
  rw [List.concat_eq_append] at hi ha ⊢
  rw [swapRemove_concat]
  rcases Nat.lt_or_ge i l.length with hlt | hge
  · rw [List.getElem?_append_left hlt] at hi
    rcases List.mem_append.mp ha with ha | ha
    · obtain ⟨j, hj⟩ := List.getElem?_of_mem ha
      by_cases hij : i = j
      · subst hij
        exact .inl (Option.some.inj (hj.symm.trans hi))
      · refine .inr (List.mem_of_getElem? (i := j) ?_)
        rw [List.getElem?_set_ne hij, hj]
    · obtain rfl := List.mem_singleton.mp ha
      exact .inr (List.mem_set hlt _)
  · rw [List.set_eq_of_length_le hge]
    rcases List.mem_append.mp ha with ha | ha
    · exact .inr ha
    · obtain rfl := List.mem_singleton.mp ha
      rw [List.getElem?_append_right hge] at hi
      exact .inl (List.mem_singleton.mp (List.mem_of_getElem? hi)).symm

theorem mem_of_swapRemove {l : List α} {a : α} (h : a ∈ swapRemove l i) : a ∈ l := by
  rcases List.eq_nil_or_concat l with rfl | ⟨l, last, rfl⟩
  · cases h
  rw [List.concat_eq_append] at h ⊢
  rw [swapRemove_concat] at h
  rcases List.mem_or_eq_of_mem_set h with h | h
  · exact List.mem_append_left _ h
  · exact List.mem_append_right _ (List.mem_singleton.mpr h)

theorem absorb_spec (fuel : ℕ) (hwithin : Within rects m n) (hm : m ≤ 65535) (hn : n ≤ 65535)
    (hcurrent : current.right ≤ m ∧ current.bottom ≤ n) : Within (absorb fuel rects current) m n ∧
    ((Has rects px py ∨ current.Has px py) → Has (absorb fuel rects current) px py) := by
  have hdone : ∀ {rects : DirtyRegion} {current : Rect}, Within rects m n →
      current.right ≤ m ∧ current.bottom ≤ n → Within (rects ++ [current]) m n ∧
        ((Has rects px py ∨ current.Has px py) → Has (rects ++ [current]) px py) := by
    intro rects current hwithin hcurrent
    refine ⟨fun r hr => ?_, fun h => ?_⟩
    · rcases List.mem_append.mp hr with hr | hr
      · exact hwithin r hr
      · obtain rfl := List.mem_singleton.mp hr
        exact hcurrent
    · rcases h with ⟨r, hr, hhas⟩ | hhas
      · exact ⟨r, List.mem_append_left _ hr, hhas⟩
      · exact ⟨current, List.mem_append_right _ (List.mem_singleton.mpr rfl), hhas⟩
  induction fuel generalizing rects current with
  | zero => exact hdone hwithin hcurrent
  | succ fuel ih =>
    unfold absorb
    split
    · exact hdone hwithin hcurrent
    · next i _ =>
      split
      · exact hdone hwithin hcurrent
      · next other hother =>
        have hin := hwithin other (List.mem_of_getElem? hother)
        have hrest : Within (swapRemove rects i) m n := fun r hr => hwithin r (mem_of_swapRemove hr)
        have hunion := Rect.union_le hcurrent.1 hcurrent.2 hin.1 hin.2
        have hcovers : ∀ {px py}, current.Has px py ∨ other.Has px py → (current.union other).Has px py :=
          fun h => Rect.has_union h (Nat.le_trans hcurrent.1 hm) (Nat.le_trans hcurrent.2 hn)
            (Nat.le_trans hin.1 hm) (Nat.le_trans hin.2 hn)
        refine ⟨(ih hrest hunion).1, fun h => (ih hrest hunion).2 ?_⟩
        rcases h with ⟨r, hr, hhas⟩ | hhas
        · rcases mem_swapRemove hother hr with rfl | hr
          · exact .inr (hcovers (.inr hhas))
          · exact .inl ⟨r, hr, hhas⟩
        · exact .inr (hcovers (.inl hhas))

theorem foldl_union_spec {box : Rect} (hwithin : Within rects m n) (hm : m ≤ 65535) (hn : n ≤ 65535)
    (hbox : box.right ≤ m ∧ box.bottom ≤ n) :
    ((rects.foldl Rect.union box).right ≤ m ∧ (rects.foldl Rect.union box).bottom ≤ n) ∧
    ((Has rects px py ∨ box.Has px py) → (rects.foldl Rect.union box).Has px py) := by
  induction rects generalizing box with
  | nil =>
    refine ⟨hbox, fun h => h.resolve_left ?_⟩
    rintro ⟨r, hr, -⟩
    cases hr
  | cons r rects ih =>
    have hr := hwithin r List.mem_cons_self
    have hunion := Rect.union_le hbox.1 hbox.2 hr.1 hr.2
    have hcovers : box.Has px py ∨ r.Has px py → (box.union r).Has px py := fun h =>
      Rect.has_union h (Nat.le_trans hbox.1 hm) (Nat.le_trans hbox.2 hn) (Nat.le_trans hr.1 hm)
        (Nat.le_trans hr.2 hn)
    have hrest := ih (fun r' hr' => hwithin r' (List.mem_cons_of_mem _ hr')) hunion
    refine ⟨hrest.1, fun h => hrest.2 ?_⟩
    rcases h with ⟨r', hr', hhas⟩ | hhas
    · rcases List.mem_cons.mp hr' with rfl | hr'
      · exact .inr (hcovers (.inr hhas))
      · exact .inl ⟨r', hr', hhas⟩
    · exact .inr (hcovers (.inl hhas))

theorem add_spec (hwithin : Within rects m n) (hm : m ≤ 65535) (hn : n ≤ 65535)
    (hrect : rect.right ≤ m ∧ rect.bottom ≤ n) :
    Within (add rects rect) m n ∧ (Has rects px py ∨ rect.Has px py → Has (add rects rect) px py) := by
  unfold add
  split
  · next hempty =>
    refine ⟨hwithin, fun h => h.resolve_right fun hhas => ?_⟩
    rw [hhas.not_empty] at hempty
    cases hempty
  · have habsorb : _ ∧ (Has rects px py ∨ rect.Has px py → _) := absorb_spec rects.length hwithin hm hn hrect
    dsimp only
    split
    · have hzero : (⟨0, 0, 0, 0⟩ : Rect).right ≤ m ∧ (⟨0, 0, 0, 0⟩ : Rect).bottom ≤ n :=
        ⟨Nat.zero_le m, Nat.zero_le n⟩
      have hbox : _ ∧ (Has (absorb rects.length rects rect) px py ∨ _ → _) := foldl_union_spec habsorb.1 hm hn hzero
      refine ⟨fun r hr => ?_, fun h => ⟨_, List.mem_singleton.mpr rfl, hbox.2 (.inl (habsorb.2 h))⟩⟩
      obtain rfl := List.mem_singleton.mp hr
      exact hbox.1
    · exact habsorb

/-! ## The loop and the cap -/

/-- One turn of the loop in `add`: the first rectangle that wants to join does. -/
def joinFirst (s : DirtyRegion × Rect) : Option (DirtyRegion × Rect) :=
  match s.1.findIdx? fun r => shouldMerge r s.2 with
  | none => none
  | some i => (s.1[i]?).map fun other => (swapRemove s.1 i, s.2.union other)

/-- Turns of the loop lead from one state to another, where the loop ends. -/
def EndsAt (s s' : DirtyRegion × Rect) : Prop :=
  Relation.ReflTransGen (fun s s' => joinFirst s = some s') s s' ∧ joinFirst s' = none

theorem length_swapRemove {l : List α} {a : α} (hi : l[i]? = some a) : (swapRemove l i).length + 1 = l.length := by
  rcases List.eq_nil_or_concat l with rfl | ⟨l, last, rfl⟩
  · cases hi
  rw [List.concat_eq_append, swapRemove_concat, List.length_set, List.length_append, List.length_singleton]

theorem absorb_ends {fuel : ℕ} (hfuel : rects.length ≤ fuel) :
    ∃ s', EndsAt (rects, current) s' ∧ absorb fuel rects current = s'.1 ++ [s'.2] := by
  induction fuel generalizing rects current with
  | zero =>
    obtain rfl : rects = [] := List.length_eq_zero_iff.mp (Nat.le_zero.mp hfuel)
    exact ⟨([], current), ⟨.refl, rfl⟩, rfl⟩
  | succ fuel ih =>
    unfold absorb
    split
    · next hnone =>
      refine ⟨(rects, current), ⟨.refl, ?_⟩, rfl⟩
      unfold joinFirst
      rw [hnone]
    · next i hi =>
      split
      · next hout =>
        refine ⟨(rects, current), ⟨.refl, ?_⟩, rfl⟩
        unfold joinFirst
        rw [hi]
        dsimp only
        rw [hout]
        rfl
      · next other hother =>
        have hshorter := length_swapRemove hother
        obtain ⟨s', ⟨hturns, hdone⟩, heq⟩ := @ih (swapRemove rects i) (current.union other) (by omega)
        have hturn : joinFirst (rects, current) = some (swapRemove rects i, current.union other) := by
          unfold joinFirst
          rw [hi]
          dsimp only
          rw [hother]
          rfl
        exact ⟨s', ⟨hturns.head hturn, hdone⟩, heq⟩

theorem length_add (hlen : rects.length ≤ maxRects) : (add rects rect).length ≤ maxRects := by
  unfold add
  split
  · exact hlen
  · dsimp only
    split
    · show 1 ≤ maxRects
      decide
    · next hfew => exact Nat.le_of_not_lt hfew

theorem adds_spec {adds : List Rect} (hwithin : Within rects m n) (hlen : rects.length ≤ maxRects)
    (hm : m ≤ 65535) (hn : n ≤ 65535) (hadds : ∀ r ∈ adds, r.right ≤ m ∧ r.bottom ≤ n) :
    Within (adds.foldl add rects) m n ∧ (adds.foldl add rects).length ≤ maxRects ∧
      (Has rects px py ∨ Has adds px py → Has (adds.foldl add rects) px py) := by
  induction adds generalizing rects with
  | nil =>
    refine ⟨hwithin, hlen, fun h => h.resolve_right ?_⟩
    rintro ⟨r, hr, -⟩
    cases hr
  | cons rect adds ih =>
    have hadd : _ ∧ (Has rects px py ∨ rect.Has px py → _) := add_spec hwithin hm hn (hadds rect List.mem_cons_self)
    obtain ⟨hin, hfew, hcover⟩ := ih hadd.1 (length_add hlen) fun r hr => hadds r (List.mem_cons_of_mem _ hr)
    refine ⟨hin, hfew, fun h => hcover ?_⟩
    rcases h with hold | ⟨r, hr, hhas⟩
    · exact .inl (hadd.2 (.inl hold))
    · rcases List.mem_cons.mp hr with rfl | hr
      · exact .inl (hadd.2 (.inr hhas))
      · exact .inr ⟨r, hr, hhas⟩

/-- Whatever is added inside a picture stays covered, by few rectangles, and the next add ends. -/
theorem adds_covered (width height : UInt16) (adds : List Rect)
    (h : ∀ r ∈ adds, r.right ≤ width.toNat ∧ r.bottom ≤ height.toNat) :
    (∀ r ∈ adds, ∀ px py, r.Has px py → Has (adds.foldl add []) px py) ∧ (adds.foldl add []).length ≤ maxRects ∧ ∀
    rect, ∃ s', EndsAt (adds.foldl add [], rect) s' ∧ absorb (adds.foldl add []).length (adds.foldl add []) rect =
    s'.1 ++ [s'.2] := by
  have hnone : Within [] width.toNat height.toNat := fun r hr => absurd hr List.not_mem_nil
  have hspec : ∀ px py, _ ∧ _ ∧ (Has [] px py ∨ Has adds px py → Has (adds.foldl add []) px py) :=
    fun px py => adds_spec hnone (Nat.zero_le _) (Nat.le_of_lt_succ width.toNat_lt)
      (Nat.le_of_lt_succ height.toNat_lt) h
  refine ⟨fun r hr px py hhas => ?_, (hspec 0 0).2.1, fun rect => absorb_ends (Nat.le_refl _)⟩
  exact (hspec px py).2.2 (.inr ⟨r, hr, hhas⟩)

theorem adds_covered_corner : Has ([⟨0, 0, 65535, 1⟩, ⟨65534, 65534, 1, 1⟩].foldl add []) 65534 65534 :=
  (adds_covered 65535 65535 [⟨0, 0, 65535, 1⟩, ⟨65534, 65534, 1, 1⟩] (by decide)).1
    ⟨65534, 65534, 1, 1⟩ (by decide) 65534 65534 (by decide)

end DirtyRegion

end UwuRdp
