import Mathlib.Data.List.Basic
import Mathlib.Data.List.DropRight

/-!
# Endings cut off in one order

Endings are cut off a list, each at most once and in a fixed order, with the marks at its end taken off before
and after. Where an ending begins with a mark and has no other, what a first round leaves is left by a second as
it is just when nothing but one run of endings in their order, and marks around it, comes after something
that has none of them at its end.
-/

namespace Lib

namespace Endings

variable {α : Type} [DecidableEq α]

def cut (t ending : List α) : List α := (t.dropSuffix? ending).getD t

def cutAll (endings : List (List α)) (t : List α) : List α := endings.foldl cut t

theorem cut_append (t e : List α) : cut (t ++ e) e = t := by
  rw [cut, List.dropSuffix?_eq_some_iff.mpr ⟨e, rfl, beq_self_eq_true e⟩, Option.getD_some]

variable {t : List α} {es : List (List α)}

theorem cut_of_not {e : List α} (h : ¬e <:+ t) : cut t e = t := by
  unfold cut
  rcases hcut : t.dropSuffix? e with _ | t'
  · rfl
  · obtain ⟨e', rfl, he⟩ := List.dropSuffix?_eq_some_iff.mp hcut
    exact absurd (List.suffix_append t' e) (eq_of_beq he ▸ h)

@[simp] theorem cutAll_nil (t : List α) : cutAll [] t = t := rfl

@[simp] theorem cutAll_cons (e : List α) (es : List (List α)) (t : List α) :
    cutAll (e :: es) t = cutAll es (cut t e) := rfl

theorem exists_cutAll (es : List (List α)) (t : List α) :
    ∃ c : List (List α), c.Sublist es ∧ t = cutAll es t ++ c.reverse.flatten := by
  induction es generalizing t with
  | nil => exact ⟨[], List.Sublist.refl [], by simp⟩
  | cons e es ih =>
    by_cases h : e <:+ t
    · obtain ⟨t', rfl⟩ := h
      obtain ⟨c, hc, ht⟩ := ih t'
      refine ⟨e :: c, hc.cons_cons e, ?_⟩
      rw [cutAll_cons, cut_append, List.reverse_cons, List.flatten_append, List.flatten_singleton, ← List.append_assoc,
        ← ht]
    · obtain ⟨c, hc, ht⟩ := ih t
      refine ⟨c, hc.cons e, ?_⟩
      rwa [cutAll_cons, cut_of_not h]

theorem cutAll_of_not (h : ∀ e ∈ es, ¬e <:+ t) : cutAll es t = t := by
  induction es with
  | nil => rfl
  | cons e es ih =>
    rw [cutAll_cons, cut_of_not (h e List.mem_cons_self)]
    exact ih fun e' he' => h e' (List.mem_cons_of_mem e he')

theorem cutAll_eq_self_iff (hne : ∀ e ∈ es, e ≠ []) : cutAll es t = t ↔ ∀ e ∈ es, ¬e <:+ t := by
  refine ⟨fun h => ?_, cutAll_of_not⟩
  induction es with
  | nil =>
    intro e he
    cases he
  | cons e es ih =>
    have hnot : ¬e <:+ t := by
      rintro ⟨t', rfl⟩
      rw [cutAll_cons, cut_append] at h
      obtain ⟨c, -, ht⟩ := exists_cutAll es t'
      have hlength := congrArg List.length ht
      have hpos := List.length_pos_iff.mpr (hne e List.mem_cons_self)
      rw [h] at hlength
      simp only [List.length_append] at hlength
      omega
    rw [cutAll_cons, cut_of_not hnot] at h
    intro e' he'
    rcases List.mem_cons.mp he' with rfl | he'
    · exact hnot
    · exact ih (fun x hx => hne x (List.mem_cons_of_mem e hx)) h e' he'

theorem cutAll_append {c : List (List α)} {x : List α} (hnodup : es.Nodup)
    (hapart : ∀ e ∈ es, ∀ e' ∈ es, ∀ y, e <:+ y ++ e' → e = e') (hx : ∀ e ∈ es, ¬e <:+ x) (hc : c.Sublist es) :
    cutAll es (x ++ c.reverse.flatten) = x := by
  induction hc with
  | slnil => simp
  | @cons c es e hc ih =>
    obtain ⟨hnot, hnodup⟩ := List.nodup_cons.mp hnodup
    have hkept : ¬e <:+ x ++ c.reverse.flatten := by
      cases c with
      | nil => simpa using hx e List.mem_cons_self
      | cons e' c =>
        intro hsuffix
        have hmem : e' ∈ es := hc.subset List.mem_cons_self
        have hsame : e = e' := hapart e List.mem_cons_self e' (List.mem_cons_of_mem e hmem)
          (x ++ c.reverse.flatten) (by simpa using hsuffix)
        exact hnot (hsame ▸ hmem)
    rw [cutAll_cons, cut_of_not hkept]
    exact ih hnodup (fun a ha b hb => hapart a (List.mem_cons_of_mem e ha) b (List.mem_cons_of_mem e hb))
      fun a ha => hx a (List.mem_cons_of_mem e ha)
  | @cons_cons c es e hc ih =>
    obtain ⟨-, hnodup⟩ := List.nodup_cons.mp hnodup
    rw [cutAll_cons, List.reverse_cons, List.flatten_append, ← List.append_assoc, List.flatten_singleton, cut_append]
    exact ih hnodup (fun a ha b hb => hapart a (List.mem_cons_of_mem e ha) b (List.mem_cons_of_mem e hb))
      fun a ha => hx a (List.mem_cons_of_mem e ha)

/-! ## With a mark -/

section Marked

variable (mark : α)

def trim (t : List α) : List α := t.rdropWhile (· == mark)

variable {mark}

theorem trim_append_replicate (t : List α) (n : ℕ) : trim mark (t ++ List.replicate n mark) = trim mark t := by
  induction n with
  | zero => simp
  | succ n ih =>
    rw [List.replicate_succ', ← List.append_assoc]
    exact (List.rdropWhile_concat_pos (· == mark) _ mark (beq_self_eq_true mark)).trans ih

theorem exists_trim (mark : α) (t : List α) : ∃ n, t = trim mark t ++ List.replicate n mark := by
  refine ⟨(t.rtakeWhile (· == mark)).length, ?_⟩
  have hmarks : t.rtakeWhile (· == mark) = List.replicate (t.rtakeWhile (· == mark)).length mark :=
    List.eq_replicate_iff.mpr ⟨rfl, fun x hx => eq_of_beq (List.mem_rtakeWhile_imp (p := fun b => b == mark) hx)⟩
  rw [← hmarks]
  exact List.rdropWhile_append_rtakeWhile.symm

theorem trim_trim (t : List α) : trim mark (trim mark t) = trim mark t := List.rdropWhile_idempotent _ _

theorem trim_append {t : List α} (h : trim mark t = t) (hne : t ≠ []) (u : List α) :
    trim mark (t ++ u) = t ++ trim mark u := by
  obtain ⟨n, hn⟩ := exists_trim mark u
  conv_lhs => rw [hn, ← List.append_assoc, trim_append_replicate]
  refine List.rdropWhile_eq_self_iff.mpr fun hl => ?_
  by_cases hu : trim mark u = []
  · simpa [hu] using List.rdropWhile_eq_self_iff.mp h hne
  · rw [List.getLast_append_of_ne_nil _ hu]
    exact List.rdropWhile_eq_self_iff.mp (trim_trim u) hu

theorem trim_concat_ne {x : α} (h : x ≠ mark) (t : List α) : trim mark (t ++ [x]) = t ++ [x] :=
  List.rdropWhile_concat_neg _ _ _ (by simpa using h)

/-- An ending that begins with the mark, has no other, and does not end there. -/
def Marked (mark : α) (e : List α) : Prop := ∃ name, e = mark :: name ∧ mark ∉ name ∧ name ≠ []

variable {e : List α} {es : List (List α)}

omit [DecidableEq α] in
theorem Marked.ne_nil (h : Marked mark e) : e ≠ [] := by
  obtain ⟨name, rfl, -⟩ := h
  exact List.cons_ne_nil mark name

omit [DecidableEq α] in
theorem Marked.concat (h : Marked mark e) : ∃ t x, e = t ++ [x] ∧ x ≠ mark := by
  obtain ⟨name, rfl, hnot, hne⟩ := h
  refine ⟨mark :: name.dropLast, name.getLast hne, ?_, fun hlast => hnot (hlast ▸ List.getLast_mem hne)⟩
  rw [List.cons_append, List.dropLast_append_getLast]

theorem Marked.eq_of_suffix {e' y : List α} (h : Marked mark e) (h' : Marked mark e') (hsuffix : e <:+ y ++ e') :
    e = e' := by
  obtain ⟨name, rfl, hnot, -⟩ := h
  obtain ⟨name', rfl, hnot', -⟩ := h'
  obtain ⟨t, ht⟩ := hsuffix
  have hname : name = name' := by
    have hdrop := congrArg (List.takeWhile fun b => b != mark) (congrArg List.reverse ht)
    have htake : ∀ (u n : List α), mark ∉ n → (u ++ mark :: n).reverse.takeWhile (fun b => b != mark) = n.reverse := by
      intro u n hn
      rw [List.reverse_append, List.reverse_cons, List.append_assoc, List.takeWhile_append_of_pos]
      · simp
      · intro b hb
        rw [bne_iff_ne]
        rintro rfl
        exact hn (List.mem_reverse.mp hb)
    rw [htake t name hnot, htake y name' hnot'] at hdrop
    exact List.reverse_injective hdrop
  rw [hname]

omit [DecidableEq α] in
theorem Marked.not_suffix_concat (h : Marked mark e) (t : List α) : ¬e <:+ t ++ [mark] := by
  rintro ⟨u, hu⟩
  obtain ⟨e', x, rfl, hx⟩ := h.concat
  rw [← List.append_assoc] at hu
  exact hx (List.append_singleton_inj.mp hu).2

def rest (mark : α) (es : List (List α)) (t : List α) : List α := trim mark (cutAll es (trim mark t))

theorem rest_append_replicate (es : List (List α)) (t : List α) (n : ℕ) :
    rest mark es (t ++ List.replicate n mark) = rest mark es t := by
  rw [rest, trim_append_replicate, rest]

theorem exists_cutAll_trim (hmarked : ∀ e ∈ es, Marked mark e) (t : List α) :
    ∃ r, t = cutAll es (trim mark t) ++ r ∧ (r = [] ∨ ∃ r', r = mark :: r') := by
  obtain ⟨n, hn⟩ := exists_trim mark t
  obtain ⟨c, hc, hcut⟩ := exists_cutAll es (trim mark t)
  refine ⟨c.reverse.flatten ++ List.replicate n mark, ?_, ?_⟩
  · rw [← List.append_assoc, ← hcut, ← hn]
  · rcases List.eq_nil_or_concat c.reverse with hnil | ⟨c', e, hconcat⟩
    · cases n with
      | zero => exact .inl (by rw [hnil]; rfl)
      | succ n => exact .inr ⟨List.replicate n mark, by rw [hnil]; rfl⟩
    · cases hrun : c.reverse with
      | nil => exact .inl (by rw [hrun] at hconcat; simp at hconcat)
      | cons e c' =>
        obtain ⟨name, rfl, -⟩ := hmarked e (hc.subset (List.mem_reverse.mp (hrun ▸ List.mem_cons_self)))
        exact .inr ⟨_, rfl⟩

theorem exists_rest (hmarked : ∀ e ∈ es, Marked mark e) (t : List α) :
    ∃ r, t = rest mark es t ++ r ∧ (r = [] ∨ ∃ r', r = mark :: r') := by
  obtain ⟨r, hr, hmark⟩ := exists_cutAll_trim hmarked t
  obtain ⟨m, hm⟩ := exists_trim mark (cutAll es (trim mark t))
  refine ⟨List.replicate m mark ++ r, ?_, ?_⟩
  · conv_lhs => rw [hr, hm]
    rw [rest, List.append_assoc]
  · cases m with
    | zero => exact hmark
    | succ m => exact .inr ⟨_, rfl⟩

/-- Nothing but one run of endings, with marks around it, comes after something with none of them at its end. -/
def Once (mark : α) (es : List (List α)) (t : List α) : Prop :=
  ∃ (x : List α) (c : List (List α)) (m n : ℕ),
    t = x ++ List.replicate m mark ++ c.reverse.flatten ++ List.replicate n mark ∧ c.Sublist es ∧ trim mark x = x ∧
      ∀ e ∈ es, ¬e <:+ x

theorem rest_eq_of_once (hnodup : es.Nodup) (hmarked : ∀ e ∈ es, Marked mark e) {x : List α} {c : List (List α)}
    (m n : ℕ) (hc : c.Sublist es) (htrim : trim mark x = x) (hx : ∀ e ∈ es, ¬e <:+ x) : rest mark es
    (x ++ List.replicate m mark ++ c.reverse.flatten ++ List.replicate n mark) = x := by
  have hnone : ∀ e ∈ es, ¬e <:+ x ++ List.replicate m mark := by
    intro e he
    cases m with
    | zero => simpa using hx e he
    | succ m =>
      rw [List.replicate_succ', ← List.append_assoc]
      exact (hmarked e he).not_suffix_concat _
  unfold rest
  rw [trim_append_replicate]
  cases c with
  | nil =>
    rw [List.reverse_nil, List.flatten_nil, List.append_nil, trim_append_replicate, htrim, cutAll_of_not hx, htrim]
  | cons e c =>
    obtain ⟨t, y, rfl, hy⟩ := (hmarked e (hc.subset List.mem_cons_self)).concat
    have hkept : trim mark (x ++ List.replicate m mark ++ ((t ++ [y]) :: c).reverse.flatten) =
        x ++ List.replicate m mark ++ ((t ++ [y]) :: c).reverse.flatten := by
      simp only [List.reverse_cons, List.flatten_append, List.flatten_singleton, ← List.append_assoc]
      exact trim_concat_ne hy _
    rw [hkept, cutAll_append hnodup (fun e he e' he' _ => (hmarked e he).eq_of_suffix (hmarked e' he')) hnone hc,
      trim_append_replicate, htrim]

theorem rest_rest_iff (hnodup : es.Nodup) (hmarked : ∀ e ∈ es, Marked mark e) (t : List α) :
    rest mark es (rest mark es t) = rest mark es t ↔ Once mark es t := by
  have htrim : trim mark (rest mark es t) = rest mark es t := trim_trim _
  constructor
  · intro hagain
    have hkept : cutAll es (rest mark es t) = rest mark es t := by
      obtain ⟨c, -, hc⟩ := exists_cutAll es (rest mark es t)
      obtain ⟨k, hk⟩ := exists_trim mark (cutAll es (rest mark es t))
      rw [rest, htrim] at hagain
      rw [hagain] at hk
      have hlength := congrArg List.length hc
      rw [hk] at hlength ⊢
      simp only [List.length_append, List.length_replicate] at hlength
      rw [show k = 0 by omega, List.replicate_zero, List.append_nil]
    obtain ⟨n, hn⟩ := exists_trim mark t
    obtain ⟨c, hc, hcut⟩ := exists_cutAll es (trim mark t)
    obtain ⟨m, hm⟩ := exists_trim mark (cutAll es (trim mark t))
    refine ⟨rest mark es t, c, m, n, ?_, hc, htrim, (cutAll_eq_self_iff fun e he => (hmarked e he).ne_nil).mp hkept⟩
    calc t = trim mark t ++ List.replicate n mark := hn
      _ = cutAll es (trim mark t) ++ c.reverse.flatten ++ List.replicate n mark := by rw [← hcut]
      _ = _ := by rw [rest, ← hm]
  · rintro ⟨x, c, m, n, rfl, hc, hx, hnone⟩
    rw [rest_eq_of_once hnodup hmarked m n hc hx hnone, rest, hx, cutAll_of_not hnone, hx]

end Marked

end Endings

end Lib
