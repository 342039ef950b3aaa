import Mathlib.Algebra.Order.Ring.Nat
import Mathlib.Data.List.Basic
import Mathlib.Data.List.Nodup

/-!
# Keyed tables

A table is a list of rows under distinct keys, in the order they were first written. `get?` is the
row of a key; the operations are the ones a database offers on a table with a primary key: write
one row, change the rows a condition picks, remove one row. Every lemma is stated through `get?`,
so that nothing outside this file looks at the list.
-/

namespace Lib

/-- Rows under distinct keys. -/
structure Table (ι α : Type) where
  entries : List (ι × α)
  nodup : (entries.map Prod.fst).Nodup

namespace Table

variable {ι α : Type}

def empty : Table ι α := ⟨[], List.nodup_nil⟩

/-- Every row `(i, a)` becomes `(i, f i a)`. -/
def map (t : Table ι α) (f : ι → α → α) : Table ι α where
  entries := t.entries.map fun p => (p.1, f p.1 p.2)
  nodup := by simpa [List.map_map, Function.comp_def] using t.nodup

def mapRows {β : Type} (t : Table ι α) (f : α → β) : Table ι β where
  entries := t.entries.map fun p => (p.1, f p.2)
  nodup := by simpa [List.map_map, Function.comp_def] using t.nodup

variable [DecidableEq ι]

def get? (t : Table ι α) (i : ι) : Option α :=
  (t.entries.find? fun p => p.1 = i).map Prod.snd

def modify (t : Table ι α) (i : ι) (f : α → α) : Table ι α :=
  t.map fun j a => if j = i then f a else a

def erase (t : Table ι α) (i : ι) : Table ι α where
  entries := t.entries.filter fun p => p.1 ≠ i
  nodup := t.nodup.sublist (List.filter_sublist.map _)

variable {i : ι} {a : α}

theorem get?_eq_none_iff {t : Table ι α} : t.get? i = none ↔ i ∉ t.entries.map Prod.fst := by
  rw [get?, Option.map_eq_none_iff, List.find?_eq_none, List.mem_map]
  constructor
  · rintro h ⟨p, hp, rfl⟩
    exact h p hp (by simp)
  · intro h p hp hi
    exact h ⟨p, hp, by simpa using hi⟩

/-- Write a row: in its place if the key has one, else at the end. -/
def set (t : Table ι α) (i : ι) (a : α) : Table ι α :=
  if h : t.get? i = none then
    { entries := t.entries ++ [(i, a)]
      nodup := by
        rw [List.map_append, List.nodup_append]
        refine ⟨t.nodup, by simp, ?_⟩
        intro x hx y hy
        simp only [List.map_cons, List.map_nil, List.mem_singleton] at hy
        subst hy
        rintro rfl
        exact get?_eq_none_iff.mp h hx }
  else t.modify i fun _ => a

@[simp] theorem get?_empty (i : ι) : (empty : Table ι α).get? i = none := rfl

theorem mem_entries {t : Table ι α} : (i, a) ∈ t.entries ↔ t.get? i = some a := by
  unfold get?
  have hn := t.nodup
  generalize t.entries = l at hn
  induction l with
  | nil => simp
  | cons p l ih =>
    rw [List.map_cons, List.nodup_cons] at hn
    by_cases hp : p.1 = i
    · have hi : (i, a) ∉ l := fun hm => hn.1 (hp ▸ List.mem_map_of_mem (f := Prod.fst) hm)
      subst hp
      simp only [List.mem_cons, hi, or_false, decide_true, List.find?_cons_of_pos, Option.map_some, Option.some.injEq]
      exact ⟨fun h => (congrArg Prod.snd h).symm, fun h => by rw [← h]⟩
    · rw [List.find?_cons_of_neg (by simpa using hp), List.mem_cons]
      refine Iff.trans ⟨fun h => h.resolve_left fun e => ?_, .inr⟩ (ih hn.2)
      exact hp (congrArg Prod.fst e).symm

@[simp] theorem get?_map (t : Table ι α) (f : ι → α → α) (i : ι) :
    (t.map f).get? i = (t.get? i).map (f i) := by
  simp only [get?, map, List.find?_map, Function.comp_def, Option.map_map]
  cases h : t.entries.find? fun p => decide (p.1 = i) with
  | none => rfl
  | some p =>
    have hp : p.1 = i := by simpa using List.find?_some h
    simp [hp]

@[simp] theorem get?_mapRows {β : Type} (t : Table ι α) (f : α → β) (i : ι) :
    (t.mapRows f).get? i = (t.get? i).map f := by
  simp only [get?, mapRows, List.find?_map, Function.comp_def, Option.map_map]

theorem get?_modify (t : Table ι α) (i : ι) (f : α → α) (j : ι) :
    (t.modify i f).get? j = if j = i then (t.get? j).map f else t.get? j := by
  rw [modify, get?_map]
  by_cases h : j = i <;> simp [h]

theorem get?_set (t : Table ι α) (i : ι) (a : α) (j : ι) :
    (t.set i a).get? j = if j = i then some a else t.get? j := by
  unfold set
  split
  · next h =>
    by_cases hj : j = i
    · subst hj
      rw [if_pos rfl]
      refine mem_entries.mp ?_
      simp
    · rw [if_neg hj]
      simp [get?, List.find?_append, Ne.symm hj]
  · next h =>
    rw [get?_modify]
    by_cases hj : j = i
    · subst hj
      obtain ⟨b, hb⟩ := Option.ne_none_iff_exists'.mp h
      simp [hb]
    · simp [hj]

@[simp] theorem get?_set_self (t : Table ι α) (i : ι) (a : α) : (t.set i a).get? i = some a := by
  rw [get?_set, if_pos rfl]

theorem get?_set_ne {t : Table ι α} {j : ι} (h : j ≠ i) : (t.set i a).get? j = t.get? j := by
  rw [get?_set, if_neg h]

theorem set_same {t : Table ι α} (h : t.get? i = some a) : t.set i a = t := by
  obtain ⟨entries, nodup⟩ := t
  rw [set, dif_neg (by rw [h]; simp), modify, map, Table.mk.injEq]
  refine (List.map_congr_left fun e he => ?_).trans (List.map_id entries)
  by_cases hi : e.1 = i
  · have := mem_entries.mp (he : (e.1, e.2) ∈ (Table.mk entries nodup).entries)
    rw [hi, h] at this
    rw [if_pos hi, Option.some.inj this]
    rfl
  · rw [if_neg hi]
    rfl

theorem set_set (t : Table ι α) (i : ι) (a b : α) : (t.set i a).set i b = t.set i b := by
  have hset : ∀ c, (t.get? i = none → (t.set i c).entries = t.entries ++ [(i, c)]) ∧
      (t.get? i ≠ none → (t.set i c).entries = t.entries.map fun p => (p.1, if p.1 = i then c else p.2)) := by
    intro c
    refine ⟨fun h => by rw [set, dif_pos h], fun h => by rw [set, dif_neg h]; rfl⟩
  have hagain : ((t.set i a).set i b).entries =
      (t.set i a).entries.map fun p => (p.1, if p.1 = i then b else p.2) := by
    rw [set, dif_neg (by rw [get?_set_self]; exact Option.some_ne_none a)]
    rfl
  have hentries : ((t.set i a).set i b).entries = (t.set i b).entries := by
    rw [hagain]
    by_cases h : t.get? i = none
    · rw [(hset a).1 h, (hset b).1 h, List.map_append, List.map_singleton, if_pos rfl]
      congr 1
      refine (List.map_congr_left fun p hp => ?_).trans (List.map_id _)
      have hne : ¬p.1 = i := fun hi => get?_eq_none_iff.mp h (hi ▸ List.mem_map_of_mem hp)
      rw [if_neg hne]
      rfl
    · rw [(hset a).2 h, (hset b).2 h, List.map_map]
      refine List.map_congr_left fun p _ => ?_
      show (p.1, if p.1 = i then b else if p.1 = i then a else p.2) = _
      split <;> rfl
  generalize (t.set i a).set i b = t₁ at hentries
  generalize t.set i b = t₂ at hentries
  cases t₁
  cases t₂
  cases hentries
  rfl

theorem erase_of_none {t : Table ι α} (h : t.get? i = none) : t.erase i = t := by
  have hnot := get?_eq_none_iff.mp h
  obtain ⟨entries, nodup⟩ := t
  rw [erase, Table.mk.injEq]
  refine List.filter_eq_self.mpr fun e he => decide_eq_true fun hi => hnot ?_
  exact List.mem_map.mpr ⟨e, he, hi⟩

theorem get?_erase (t : Table ι α) (i j : ι) :
    (t.erase i).get? j = if j = i then none else t.get? j := by
  by_cases hj : j = i
  · subst hj
    rw [if_pos rfl, get?_eq_none_iff]
    simp [erase]
  · rw [if_neg hj]
    cases h : t.get? j with
    | none =>
      rw [get?_eq_none_iff] at h ⊢
      intro hm
      obtain ⟨p, hp, rfl⟩ := List.mem_map.mp hm
      exact h (List.mem_map_of_mem (List.mem_of_mem_filter hp))
    | some a =>
      refine mem_entries.mp ?_
      simpa [erase, hj] using mem_entries.mpr h

/-- Every row under the key a function gives it; the rows it gives none are left out. -/
def rekey (t : Table ι α) (f : ι → Option ι) : Table ι α :=
  t.entries.foldl (fun t' e => match f e.1 with
    | some j => t'.set j e.2
    | none => t') empty

variable {k : ι} {p : ι → α → Bool} {β : Type} {t' : Table ι α} {f : ι → α → α}

theorem get?_foldl_rekey {f : ι → Option ι} {l : List (ι × α)}
    (hf : ∀ e ∈ l, ∀ e' ∈ l, f e.1 = some k → f e'.1 = some k → e = e') (t' : Table ι α) :
    (l.foldl (fun t' e => match f e.1 with
      | some j => t'.set j e.2
      | none => t') t').get? k = some a ↔
      (∃ e ∈ l, f e.1 = some k ∧ e.2 = a) ∨ (∀ e ∈ l, f e.1 ≠ some k) ∧ t'.get? k = some a := by
  induction l generalizing t' with
  | nil =>
    constructor
    · exact fun h => .inr ⟨fun e he => absurd he List.not_mem_nil, h⟩
    · rintro (⟨e, he, -⟩ | ⟨-, h⟩)
      · cases he
      · exact h
  | cons e l ih =>
    have hf' : ∀ x ∈ l, ∀ y ∈ l, f x.1 = some k → f y.1 = some k → x = y := fun x hx y hy =>
      hf x (List.mem_cons_of_mem _ hx) y (List.mem_cons_of_mem _ hy)
    rw [List.foldl_cons, ih hf']
    by_cases hk : f e.1 = some k
    · rw [hk]
      rw [get?_set_self, Option.some.injEq]
      constructor
      · rintro (⟨x, hx, hxk, hxa⟩ | ⟨-, ha⟩)
        · exact .inl ⟨x, List.mem_cons_of_mem _ hx, hxk, hxa⟩
        · exact .inl ⟨e, List.mem_cons_self, hk, ha⟩
      · rintro (⟨x, hx, hxk, hxa⟩ | ⟨hnone, -⟩)
        · rcases List.mem_cons.mp hx with rfl | hx
          · by_cases hl : ∃ y ∈ l, f y.1 = some k
            · obtain ⟨y, hy, hyk⟩ := hl
              have hxy := hf x List.mem_cons_self y (List.mem_cons_of_mem _ hy) hk hyk
              exact .inl ⟨y, hy, hyk, hxy ▸ hxa⟩
            · exact .inr ⟨fun y hy hyk => hl ⟨y, hy, hyk⟩, hxa⟩
          · exact .inl ⟨x, hx, hxk, hxa⟩
        · exact absurd hk (hnone e List.mem_cons_self)
    · have hsame : (match f e.1 with
          | some j => t'.set j e.2
          | none => t').get? k = t'.get? k := by
        cases hj : f e.1 with
        | none => rfl
        | some j => exact get?_set_ne fun hkj => hk (hj.trans (congrArg some hkj.symm))
      rw [hsame]
      constructor
      · rintro (⟨x, hx, hxk, hxa⟩ | ⟨hnone, ha⟩)
        · exact .inl ⟨x, List.mem_cons_of_mem _ hx, hxk, hxa⟩
        · refine .inr ⟨fun x hx => ?_, ha⟩
          rcases List.mem_cons.mp hx with rfl | hx
          · exact hk
          · exact hnone x hx
      · rintro (⟨x, hx, hxk, hxa⟩ | ⟨hnone, ha⟩)
        · rcases List.mem_cons.mp hx with rfl | hx
          · exact absurd hxk hk
          · exact .inl ⟨x, hx, hxk, hxa⟩
        · exact .inr ⟨fun x hx => hnone x (List.mem_cons_of_mem _ hx), ha⟩

theorem get?_rekey {t : Table ι α} {f : ι → Option ι}
    (hf : ∀ i j, t.get? i ≠ none → t.get? j ≠ none → f i = some k → f j = some k → i = j) :
    (t.rekey f).get? k = some a ↔ ∃ i, f i = some k ∧ t.get? i = some a := by
  unfold rekey
  rw [get?_foldl_rekey]
  · constructor
    · rintro (⟨⟨i, b⟩, he, hk, rfl⟩ | ⟨-, ha⟩)
      · exact ⟨i, hk, mem_entries.mp he⟩
      · cases ha
    · rintro ⟨i, hk, ha⟩
      exact .inl ⟨(i, a), mem_entries.mpr ha, hk, rfl⟩
  · rintro ⟨i, b⟩ he ⟨j, b'⟩ he' hi hj
    have hb := mem_entries.mp he
    have hb' := mem_entries.mp he'
    obtain rfl := hf i j (by rw [hb]; exact Option.some_ne_none _) (by rw [hb']; exact Option.some_ne_none _) hi hj
    rw [Option.some.inj (hb.symm.trans hb')]

/-! ## Queries -/

/-- The first row, in table order, that a condition picks. -/
def find? (t : Table ι α) (p : ι → α → Bool) : Option (ι × α) := t.entries.find? fun e => p e.1 e.2

def select (t : Table ι α) (p : ι → α → Bool) : List (ι × α) := t.entries.filter fun e => p e.1 e.2

theorem mem_select {t : Table ι α} : (i, a) ∈ t.select p ↔ t.get? i = some a ∧ p i a = true := by
  rw [select, List.mem_filter, mem_entries]

theorem find?_some {t : Table ι α} (h : t.find? p = some (i, a)) : t.get? i = some a ∧ p i a = true :=
  ⟨mem_entries.mp (List.mem_of_find?_eq_some h), by simpa using List.find?_some h⟩

theorem find?_none {t : Table ι α} (h : t.find? p = none) (hi : t.get? i = some a) : p i a = false := by
  have := List.find?_eq_none.mp h (i, a) (mem_entries.mpr hi)
  simpa using this

omit [DecidableEq ι] in
theorem nodup_select (t : Table ι α) (p : ι → α → Bool) : ((t.select p).map Prod.fst).Nodup :=
  t.nodup.sublist (List.filter_sublist.map _)

theorem mem_keys_select {t : Table ι α} : i ∈ (t.select p).map Prod.fst ↔ ∃ a, t.get? i = some a ∧ p i a = true := by
  rw [List.mem_map]
  constructor
  · rintro ⟨⟨j, a⟩, hm, rfl⟩
    exact ⟨a, mem_select.mp hm⟩
  · rintro ⟨a, ha⟩
    exact ⟨(i, a), mem_select.mpr ha, rfl⟩

theorem filter_map_of_drop {g : β → β} {p q : β → Bool}
    (h : ∀ e, q e = true ∧ g e = e ∨ q e = false ∧ p (g e) = false) (l : List β) :
    (l.map g).filter p = (l.filter p).filter q := by
  induction l with
  | nil => rfl
  | cons e l ih =>
    rw [List.map_cons, List.filter_cons, List.filter_cons, ih]
    rcases h e with ⟨hq, hg⟩ | ⟨hq, hp⟩
    · rw [hg]
      split
      · rw [List.filter_cons_of_pos hq]
      · rfl
    · rw [hp, if_neg Bool.false_ne_true]
      split
      · rw [List.filter_cons_of_neg (Bool.not_eq_true _ ▸ hq)]
      · rfl

theorem select_modify {t : Table ι α} {p : ι → α → Bool} {i : ι} {f : α → α} {hit : α → Bool}
    (hf : ∀ a, hit a = true → p i (f a) = false) (hn : ∀ a, hit a = false → f a = a) :
    (t.modify i f).select p = (t.select p).filter fun e => !(decide (e.1 = i) && hit e.2) := by
  apply filter_map_of_drop
  rintro ⟨j, a⟩
  by_cases hj : j = i
  · subst hj
    cases ha : hit a with
    | true => exact .inr ⟨by simp, by simpa using hf a ha⟩
    | false => exact Or.inl ⟨by simp, by simp [hn a ha]⟩
  · exact Or.inl ⟨by simp [hj], by simp [hj]⟩

theorem find?_select {t : Table ι α} (hi : t.get? i = some a) :
    (t.select p).find? (fun e => e.1 = i) = if p i a then some (i, a) else none := by
  cases hf : (t.select p).find? fun e => e.1 = i with
  | none =>
    rw [List.find?_eq_none] at hf
    split
    · next hp =>
      have hne := hf (i, a) (mem_select.mpr ⟨hi, hp⟩)
      exact absurd (decide_eq_true rfl) hne
    · rfl
  | some e =>
    have hkey : e.1 = i := by simpa using List.find?_some hf
    subst hkey
    obtain ⟨hget, hp⟩ := mem_select.mp (List.mem_of_find?_eq_some hf : (e.1, e.2) ∈ _)
    rw [hi] at hget
    cases hget
    rw [if_pos hp]

theorem length_select_le {t : Table ι α}
    (h : ∀ i a', t'.get? i = some a' → p i a' = true → ∃ a, t.get? i = some a ∧ p i a = true) :
    (t'.select p).length ≤ (t.select p).length := by
  have hsub : (t'.select p).map Prod.fst ⊆ (t.select p).map Prod.fst := by
    intro i hi
    obtain ⟨a', ha', hp⟩ := mem_keys_select.mp hi
    exact mem_keys_select.mpr (h i a' ha' hp)
  have hle := (t'.nodup_select p).length_le_of_subset hsub
  rwa [List.length_map, List.length_map] at hle

theorem length_select_lt {t : Table ι α}
    (h : ∀ i a', t'.get? i = some a' → p i a' = true → ∃ a, t.get? i = some a ∧ p i a = true) (hi : t.get? i = some a) (hp : p i a = true)
    (hn : ∀ a', t'.get? i = some a' → p i a' = false) :
    (t'.select p).length < (t.select p).length := by
  have hnot : i ∉ (t'.select p).map Prod.fst := by
    intro hm
    obtain ⟨a', ha', hp'⟩ := mem_keys_select.mp hm
    rw [hn a' ha'] at hp'
    cases hp'
  have hsub : i :: (t'.select p).map Prod.fst ⊆ (t.select p).map Prod.fst := by
    intro j hj
    rcases List.mem_cons.mp hj with rfl | hj
    · exact mem_keys_select.mpr ⟨a, hi, hp⟩
    · obtain ⟨a', ha', hp'⟩ := mem_keys_select.mp hj
      exact mem_keys_select.mpr (h j a' ha' hp')
  have hle := (List.nodup_cons.mpr ⟨hnot, t'.nodup_select p⟩).length_le_of_subset hsub
  rw [List.length_cons, List.length_map, List.length_map] at hle
  exact hle

theorem length_select_set (t : Table ι α) (p : ι → α → Bool) (i : ι) (a : α) :
    ((t.set i a).select p).length + ((t.get? i).elim 0 fun b => if p i b then 1 else 0) =
      (t.select p).length + if p i a then 1 else 0 := by
  unfold set
  split
  · next h =>
    simp only [h, select, List.filter_append, List.length_append, Option.elim_none, Nat.add_zero,
      List.filter_cons, List.filter_nil]
    split <;> rfl
  · next h =>
    have hn := t.nodup
    revert h
    simp only [get?, modify, map, select]
    generalize t.entries = l at hn
    intro h
    induction l with
    | nil => exact absurd rfl h
    | cons e l ih =>
      rw [List.map_cons, List.nodup_cons] at hn
      by_cases he : e.1 = i
      · -- The row itself: no other entry has its key.
        have hl : l.map (fun e => (e.1, if e.1 = i then a else e.2)) = l := by
          refine (List.map_congr_left fun f hf => ?_).trans (List.map_id l)
          have hfi : f.1 ≠ i := fun hfi => hn.1 (he ▸ hfi ▸ List.mem_map_of_mem hf)
          rw [if_neg hfi]
          rfl
        subst he
        simp only [List.map_cons, List.filter_cons, hl, if_true, decide_true,
          List.find?_cons_of_pos, Option.map_some, Option.elim_some]
        split <;> split <;> simp only [List.length_cons]
      · rw [List.find?_cons_of_neg (by simpa using he)] at h ⊢
        have := ih hn.2 h
        simp only [List.map_cons, List.filter_cons, he, if_false]
        split
        · simp only [List.length_cons]
          omega
        · exact this

theorem map_select_set {t : Table ι α} {b : α} {g : ι × α → β}
    (h : t.get? i = some b) (hg : g (i, a) = g (i, b)) (p : ι → α → Bool) :
    ((t.set i a).select p).map g = (t.select fun j x => if j = i then p i a else p j x).map g := by
  rw [set, dif_neg (by rw [h]; simp)]
  simp only [select, modify, map, List.filter_map, List.map_map]
  have hp : ∀ e ∈ t.entries, ((fun e => p e.1 e.2) ∘ fun e => (e.1, if e.1 = i then a else e.2)) e =
      (fun e => if e.1 = i then p i a else p e.1 e.2) e := by
    intro e _
    by_cases he : e.1 = i
    · simp [he]
    · simp [he]
  rw [List.filter_congr hp]
  refine List.map_congr_left fun e he => ?_
  by_cases hi : e.1 = i
  · have := mem_entries.mp (List.mem_of_mem_filter he : (e.1, e.2) ∈ t.entries)
    rw [hi, h] at this
    have heb : e = (i, b) := Prod.ext hi (Option.some.inj this).symm
    rw [heb]
    simpa using hg
  · simp [hi]

/-! ## Several changes -/

omit [DecidableEq ι] in
theorem map_map (t : Table ι α) (f g : ι → α → α) : (t.map f).map g = t.map fun i a => g i (f i a) := by
  rw [map, map, map, Table.mk.injEq]
  exact List.map_map

theorem map_congr {t : Table ι α} {g : ι → α → α}
    (h : ∀ i a, t.get? i = some a → f i a = g i a) : t.map f = t.map g := by
  rw [map, map, Table.mk.injEq]
  refine List.map_congr_left fun e he => ?_
  rw [h e.1 e.2 (mem_entries.mp he)]

theorem map_eq_self {t : Table ι α} (h : ∀ i a, t.get? i = some a → f i a = a) : t.map f = t := by
  rw [map_congr h, map]
  obtain ⟨entries, nodup⟩ := t
  rw [Table.mk.injEq]
  exact List.map_id entries

theorem foldl_modify (l : List (ι × β)) (g : ι × β → α → α) (t : Table ι α)
    (hl : (l.map Prod.fst).Nodup) :
    l.foldl (fun t e => t.modify e.1 (g e)) t =
      t.map fun i a => match l.find? (fun e => e.1 = i) with
        | some e => g e a
        | none => a := by
  induction l generalizing t with
  | nil => exact (map_eq_self fun _ _ _ => rfl).symm
  | cons e l ih =>
    rw [List.map_cons, List.nodup_cons] at hl
    rw [List.foldl_cons, ih (t.modify e.1 (g e)) hl.2, modify, map_map]
    apply map_congr
    intro i a _
    by_cases hi : i = e.1
    · subst hi
      have hnone : l.find? (fun p => decide (p.1 = e.1)) = none := by
        rw [List.find?_eq_none]
        intro p hp heq
        exact hl.1 (of_decide_eq_true heq ▸ List.mem_map_of_mem hp)
      rw [List.find?_cons_of_pos (by simp), hnone, if_pos rfl]
    · rw [List.find?_cons_of_neg (by simpa using Ne.symm hi), if_neg hi]

/-! ## Collecting -/

def record (t : Table ι α) : Option (ι × α) → Table ι α
  | none => t
  | some e => t.set e.1 e.2

theorem isSome_foldl_record (f : β → Option (ι × α)) (l : List β) (t : Table ι α)
    (i : ι) : ((l.foldl (fun t b => t.record (f b)) t).get? i).isSome ↔
      (t.get? i).isSome ∨ ∃ b ∈ l, ∃ a, f b = some (i, a) := by
  induction l generalizing t with
  | nil => simp
  | cons b l ih =>
    rw [List.foldl_cons, ih]
    cases hb : f b with
    | none => simp [record, hb]
    | some e =>
      obtain ⟨j, a⟩ := e
      by_cases hj : i = j
      · subst hj
        simp [record, hb]
      · simp [record, hb, get?_set_ne hj, Ne.symm hj]

/-! ## Sums over the rows -/

def total (w : α → ℕ) (t : Table ι α) : ℕ := (t.entries.map fun e => w e.2).sum

variable {w : α → ℕ} {t : Table ι α}

omit [DecidableEq ι] in
theorem total_map (h : ∀ e ∈ t.entries, w (f e.1 e.2) = w e.2) : (t.map f).total w = t.total w := by
  unfold total map
  rw [List.map_map]
  exact congrArg List.sum (List.map_congr_left h)

theorem total_erase (w : α → ℕ) (t : Table ι α) (i : ι) : (t.erase i).total w + (t.get? i).elim 0 w = t.total w := by
  have hn := t.nodup
  unfold total erase get?
  dsimp only
  generalize t.entries = l at hn
  induction l with
  | nil => rfl
  | cons e l ih =>
    rw [List.map_cons, List.nodup_cons] at hn
    have hrest := ih hn.2
    by_cases he : e.1 = i
    · -- No other row has the key.
      subst he
      have hkeep : l.filter (fun p => p.1 ≠ e.1) = l := List.filter_eq_self.mpr fun p hp => decide_eq_true fun heq =>
          hn.1 (heq ▸ List.mem_map_of_mem hp)
      rw [List.filter_cons_of_neg (by simp), List.find?_cons_of_pos (by simp), hkeep, List.map_cons,
        List.sum_cons, Nat.add_comm]
      rfl
    · rw [List.filter_cons_of_pos (by simpa using he), List.find?_cons_of_neg (by simpa using he),
        List.map_cons, List.map_cons, List.sum_cons, List.sum_cons, ← hrest, Nat.add_assoc]

theorem total_set (w : α → ℕ) (t : Table ι α) (i : ι) (a : α) :
    (t.set i a).total w + (t.get? i).elim 0 w = t.total w + w a := by
  cases h : t.get? i with
  | none =>
    unfold set
    rw [dif_pos h]
    unfold total
    rw [List.map_append, List.sum_append]
    rfl
  | some b =>
    -- Apart from the row, both tables hold the same.
    have hrest : ((t.set i a).erase i).entries = (t.erase i).entries := by
      unfold set
      rw [dif_neg (by rw [h]; exact Option.some_ne_none b)]
      unfold erase modify map
      dsimp only
      induction t.entries with
      | nil => rfl
      | cons e l ih =>
        rw [List.map_cons]
        by_cases he : e.1 = i
        · rw [List.filter_cons_of_neg (by simpa using he), List.filter_cons_of_neg (by simpa using he)]
          exact ih
        · rw [List.filter_cons_of_pos (by simpa using he), List.filter_cons_of_pos (by simpa using he), if_neg he, ih]
    have hnew := total_erase w (t.set i a) i
    have hold := total_erase w t i
    have hsame : ((t.set i a).erase i).total w = (t.erase i).total w := by
      unfold total
      rw [hrest]
    rw [get?_set_self] at hnew
    rw [h] at hold
    show (t.set i a).total w + w b = t.total w + w a
    change _ + w a = _ at hnew
    change _ + w b = _ at hold
    omega

omit [DecidableEq ι] in
theorem total_one (t : Table ι α) : t.total (fun _ => 1) = t.entries.length := by
  unfold total
  rw [List.map_const', List.sum_replicate_nat, Nat.mul_one]

theorem entries_set_of_none (a : α) (h : t.get? i = none) : (t.set i a).entries = t.entries ++ [(i, a)] := by
  unfold set
  rw [dif_pos h]

theorem length_set_of_none (a : α) (h : t.get? i = none) : (t.set i a).entries.length = t.entries.length + 1 := by
  have hsum := total_set (fun _ => 1) t i a
  rw [h, total_one, total_one] at hsum
  exact hsum

theorem length_set_of_some (b : α) (h : t.get? i = some a) : (t.set i b).entries.length = t.entries.length := by
  rw [set, dif_neg (by rw [h]; exact Option.some_ne_none a)]
  exact List.length_map _

theorem length_erase_of_some (h : t.get? i = some a) : (t.erase i).entries.length + 1 = t.entries.length := by
  have hsum := total_erase (fun _ => 1) t i
  rw [h, total_one, total_one] at hsum
  exact hsum

theorem entries_set_last {first : List (ι × α)} (b : α) (h : t.entries = first ++ [(i, a)]) :
    (t.set i b).entries = first ++ [(i, b)] := by
  have hget : t.get? i = some a := mem_entries.mp (h ▸ List.mem_append_right _ List.mem_cons_self)
  have hne : ∀ e ∈ first, e.1 ≠ i := by
    have hn := t.nodup
    rw [h, List.map_append, List.nodup_append] at hn
    exact fun e he => hn.2.2 e.1 (List.mem_map_of_mem he) i List.mem_cons_self
  rw [set, dif_neg (by rw [hget]; exact Option.some_ne_none a)]
  show t.entries.map _ = _
  rw [h, List.map_append, List.map_singleton]
  dsimp only
  rw [if_pos rfl]
  congr 1
  refine (List.map_congr_left fun e he => ?_).trans (List.map_id first)
  rw [if_neg (hne e he)]
  rfl

theorem get?_of_entries_nil (h : t.entries = []) (i : ι) : t.get? i = none := by
  unfold get?
  rw [h]
  rfl

end Table

end Lib
