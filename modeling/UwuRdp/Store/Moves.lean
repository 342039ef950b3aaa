import UwuRdp.Lib.Order
import UwuRdp.Lib.Sort
import UwuRdp.Store.Again
import UwuRdp.Store.Backup

/-!
# What a move leaves

A move takes an entry out of its order and puts it before another one, or at the end, and then
numbers the order by place. The list of hosts and the list of groups show that order. Only what has
another place than before is written.
-/

namespace UwuRdp

open Lib

variable {db db' : Db} {cx : Session} {s s' : TxState} {k : EntityKind} {id : Uuid} {clock : Hlc}
  {workspace dst : Workspace}

/-! ## What the lists show -/

instance : IsTrans Text textLe := ⟨fun _ _ _ => Text.le_trans⟩

instance : Std.Antisymm textLe := ⟨fun _ _ => Text.le_antisymm⟩

instance : Std.Total textLe := ⟨Text.le_total⟩

instance : IsTrans (ℤ × Text) placeLe where
  trans := by
    rintro a b c (hab | ⟨hab, hle⟩) (hbc | ⟨hbc, hle'⟩)
    · exact .inl (hab.trans hbc)
    · exact .inl (hbc ▸ hab)
    · exact .inl (hab ▸ hbc)
    · exact .inr ⟨hab.trans hbc, Text.le_trans hle hle'⟩

instance : Std.Total placeLe where
  total := by
    intro a b
    rcases lt_trichotomy a.1 b.1 with h | h | h
    · exact .inl (.inl h)
    · exact (Text.le_total _ _).imp (fun hle => .inr ⟨h, hle⟩) fun hle => .inr ⟨h.symm, hle⟩
    · exact .inr (.inl h)

section LexLe

variable {α β : Type} {r : α → α → Prop} {q : β → β → Prop}

instance [IsTrans α r] [Std.Antisymm r] [IsTrans β q] : IsTrans (α × β) (lexLe r q) where
  trans := by
    rintro a b c ⟨hab, hq⟩ ⟨hbc, hq'⟩
    refine ⟨IsTrans.trans a.1 b.1 c.1 hab hbc, fun hac => ?_⟩
    have heq : a.1 = b.1 := Std.Antisymm.antisymm a.1 b.1 hab (hac ▸ hbc)
    exact IsTrans.trans a.2 b.2 c.2 (hq heq) (hq' (heq.symm.trans hac))

instance [DecidableEq α] [Std.Total r] [Std.Total q] : Std.Total (lexLe r q) where
  total := by
    intro a b
    by_cases h : a.1 = b.1
    · have hrefl : r b.1 b.1 := (Std.Total.total b.1 b.1).elim (fun h => h) fun h => h
      exact (Std.Total.total a.2 b.2).imp (fun hq => ⟨h ▸ hrefl, fun _ => hq⟩) fun hq => ⟨h ▸ hrefl, fun _ => hq⟩
    · exact (Std.Total.total a.1 b.1).imp (fun hr => ⟨hr, fun he => absurd he h⟩)
        fun hr => ⟨hr, fun he => absurd he.symm h⟩

end LexLe

def HostBody.inGroup (workspace : Workspace) (group : Option Uuid) (b : HostBody) : Bool :=
  b.workspace = workspace && b.groupId = group

/-- The hosts of a group as the list of hosts shows them, with their positions. -/
def shownHosts (db : Db) (workspace : Workspace) (group : Option Uuid) : List (Uuid × ℤ) :=
  ((hostRows db).filter fun e => e.2.inGroup workspace group).map fun e => (e.1, e.2.position)

/-- The groups of a workspace as the list of groups shows them, with their positions. -/
def shownGroups (db : Db) (workspace : Workspace) : List (Uuid × ℤ) :=
  (((((db.rows .group).select fun _ r => !r.deleted).map fun e => (e.1, e.2.body)).insertionSort
    fun a b => groupLe a.2 b.2).filter fun e => e.2.workspace = workspace).map
      fun e => (e.1, e.2.position)

instance (db : Db) : IsTrans (Uuid × HostBody) (fun a b => hostLe db a.2 b.2) :=
  ⟨fun _ _ _ h h' => IsTrans.trans (r := lexLe textLe (lexLe textLe placeLe)) _ _ _ h h'⟩

instance (db : Db) : Std.Total (fun a b : Uuid × HostBody => hostLe db a.2 b.2) :=
  ⟨fun _ _ => Std.Total.total (r := lexLe textLe (lexLe textLe placeLe)) _ _⟩

instance : IsTrans (Uuid × GroupBody) (fun a b => groupLe a.2 b.2) :=
  ⟨fun _ _ _ h h' => IsTrans.trans (r := lexLe textLe placeLe) _ _ _ h h'⟩

instance : Std.Total (fun a b : Uuid × GroupBody => groupLe a.2 b.2) :=
  ⟨fun _ _ => Std.Total.total (r := lexLe textLe placeLe) _ _⟩

instance : IsTrans (Uuid × ℤ × Text) (fun a b => placeLe a.2 b.2) :=
  ⟨fun _ _ _ h h' => IsTrans.trans (r := placeLe) _ _ _ h h'⟩

instance : Std.Total (fun a b : Uuid × ℤ × Text => placeLe a.2 b.2) :=
  ⟨fun _ _ => Std.Total.total (r := placeLe) _ _⟩

theorem map_sort_eq_inOrder {β : Type} {le : Uuid × β → Uuid × β → Prop} [DecidableRel le]
    {position : β → ℤ} {name : β → Text} {l : List (Uuid × β)}
    (h : ∀ a ∈ l, ∀ b ∈ l, le a b ↔ placeLe (position a.2, name a.2) (position b.2, name b.2)) :
    (l.insertionSort le).map (fun e => (e.1, position e.2)) =
      inOrder (l.map fun e => (e.1, position e.2, name e.2)) := by
  unfold inOrder
  rw [← List.map_insertionSort le (fun a b : Uuid × ℤ × Text => placeLe a.2 b.2)
    (fun e => (e.1, position e.2, name e.2)) l h, List.map_map]
  rfl

theorem filter_map_select {β γ : Type} {t : Table Uuid β} {p : β → Bool} {q : γ → Bool} {f : β → γ} :
    ((t.select fun _ r => p r).map fun e => (e.1, f e.2)).filter (fun e => q e.2) =
    (t.select fun _ r => p r && q (f r)).map fun e => (e.1, f e.2) := by
  rw [List.filter_map, Table.select, List.filter_filter]
  congr 1
  exact List.filter_congr fun e _ => Bool.and_comm _ _

theorem lexLe_of_eq {α β : Type} {r : α → α → Prop} {q : β → β → Prop} [Std.Total r] {a b : α × β}
    (h : a.1 = b.1) : lexLe r q a b ↔ q a.2 b.2 := by
  have hrefl : r b.1 b.1 := (Std.Total.total b.1 b.1).elim (fun h => h) fun h => h
  exact ⟨fun hl => hl.2 h, fun hq => ⟨h ▸ hrefl, fun _ => hq⟩⟩

theorem shownHosts_eq (db : Db) (workspace : Workspace) (group : Option Uuid) :
    shownHosts db workspace group = hostOrder db fun _ b => b.inGroup workspace group := by
  unfold shownHosts hostRows hostOrder
  rw [filter_insertionSort, filter_map_select, @map_sort_eq_inOrder _ _ _ HostBody.position HostBody.name _,
    List.map_map]
  · rfl
  · intro a ha b hb
    have hin : ∀ e ∈ ((db.rows .host).select fun _ r => !r.deleted && r.body.inGroup workspace group).map
        (fun e => (e.1, e.2.body)), e.2.workspace = workspace ∧ e.2.groupId = group := by
      intro e he
      obtain ⟨x, hx, rfl⟩ := List.mem_map.mp he
      have hp := (List.mem_filter.mp hx).2
      simp only [HostBody.inGroup, Bool.and_eq_true, decide_eq_true_eq] at hp
      exact hp.2
    obtain ⟨haw, hag⟩ := hin a ha
    obtain ⟨hbw, hbg⟩ := hin b hb
    refine (lexLe_of_eq (by rw [haw, hbw])).trans (lexLe_of_eq ?_)
    dsimp only
    rw [hag, hbg]

theorem shownGroups_eq (db : Db) (workspace : Workspace) : shownGroups db workspace = groupOrder db workspace := by
  unfold shownGroups groupOrder
  rw [filter_insertionSort, filter_map_select (q := fun b : GroupBody => decide (b.workspace = workspace)),
    @map_sort_eq_inOrder _ _ _ GroupBody.position GroupBody.name _, List.map_map]
  · rfl
  · intro a ha b hb
    have hin : ∀ e ∈ ((db.rows .group).select fun _ r =>
        !r.deleted && decide (r.body.workspace = workspace)).map
        (fun e => (e.1, e.2.body)), e.2.workspace = workspace := by
      intro e he
      obtain ⟨x, hx, rfl⟩ := List.mem_map.mp he
      have hp := (List.mem_filter.mp hx).2
      simp only [Bool.and_eq_true, decide_eq_true_eq] at hp
      exact hp.2
    exact lexLe_of_eq (by rw [hin a ha, hin b hb])

/-! ## Numbering an order -/

theorem inOrder_filter (rows : List (Uuid × ℤ × Text)) (id : Uuid) :
    inOrder (rows.filter fun r => r.1 ≠ id) = (inOrder rows).filter fun e => e.1 ≠ id := by
  unfold inOrder
  rw [← filter_insertionSort, List.filter_map]
  rfl

theorem mem_inOrder {rows : List (Uuid × ℤ × Text)} {i : Uuid} {p : ℤ} :
    (i, p) ∈ inOrder rows ↔ ∃ n, (i, p, n) ∈ rows := by
  unfold inOrder
  rw [List.mem_map]
  constructor
  · rintro ⟨⟨j, q, n⟩, hm, he⟩
    cases he
    exact ⟨n, (List.mem_insertionSort _).mp hm⟩
  · rintro ⟨n, hm⟩
    exact ⟨(i, p, n), (List.mem_insertionSort _).mpr hm, rfl⟩

theorem nodup_inOrder {rows : List (Uuid × ℤ × Text)} (h : (rows.map Prod.fst).Nodup) :
    ((inOrder rows).map Prod.fst).Nodup := by
  unfold inOrder
  rw [List.map_map]
  exact ((List.perm_insertionSort _ rows).map Prod.fst).nodup_iff.mpr h

theorem inOrder_pairwise (rows : List (Uuid × ℤ × Text)) : (inOrder rows).Pairwise fun a b => a.2 ≤ b.2 := by
  have hsort := List.pairwise_insertionSort (fun a b : Uuid × ℤ × Text => placeLe a.2 b.2) rows
  refine List.pairwise_map.mpr (hsort.imp fun {a b} h => ?_)
  rcases h with h | ⟨h, -⟩
  · exact le_of_lt h
  · exact le_of_eq h

theorem inOrder_eq_places {rows : List (Uuid × ℤ × Text)} {ids : List Uuid} (hids : ids.Nodup)
    (hrows : (rows.map Prod.fst).Nodup) (h : ∀ e, e ∈ inOrder rows ↔ e ∈ places ids) : inOrder rows = places ids :=
  eq_places hids (nodup_inOrder hrows) h (inOrder_pairwise rows)

/-- The rows of an order are picked and at their places; what is outside is as it was. -/
structure Ranked {α : Type} (t t' : Table Uuid α) (p : α → Bool) (position : α → ℤ)
    (Stays : α → α → Prop) (order : List Uuid) : Prop where
  nodup : order.Nodup
  placed : ∀ (n : ℕ) i, order[n]? = some i → ∃ a a', t.get? i = some a ∧ t'.get? i = some a' ∧
    Stays a a' ∧ p a' = true ∧ position a' = n
  same : ∀ i, i ∉ order → t'.get? i = t.get? i

namespace Ranked

variable {α : Type} {t t' : Table Uuid α} {p : α → Bool} {position : α → ℤ} {Stays : α → α → Prop}
  {order : List Uuid}

theorem of_mem (h : Ranked t t' p position Stays order) {i : Uuid} (hi : i ∈ order) : ∃ n : ℕ, ∃ a a', order[n]? =
    some i ∧ t.get? i = some a ∧ t'.get? i = some a' ∧ Stays a a' ∧ p a' = true ∧ position a' = n := by
  obtain ⟨n, hn, hget⟩ := List.mem_iff_getElem.mp hi
  have hget : order[n]? = some i := by rw [List.getElem?_eq_getElem hn, hget]
  obtain ⟨a, a', h⟩ := h.placed n i hget
  exact ⟨n, a, a', hget, h⟩

theorem rows (h : Ranked t t' p position Stays order) (hrefl : ∀ a, Stays a a) {i : Uuid} {a : α}
    (hi : t.get? i = some a) : ∃ a', t'.get? i = some a' ∧ Stays a a' := by
  by_cases hm : i ∈ order
  · obtain ⟨-, b, a', -, hb, ha', hstays, -⟩ := h.of_mem hm
    rw [hi] at hb
    cases hb
    exact ⟨a', ha', hstays⟩
  · exact ⟨a, (h.same i hm).trans hi, hrefl a⟩

theorem missing (h : Ranked t t' p position Stays order) {i : Uuid} (hi : t.get? i = none) : t'.get? i = none := by
  refine (h.same i fun hm => ?_).trans hi
  obtain ⟨-, b, -, -, hb, -⟩ := h.of_mem hm
  rw [hi] at hb
  cases hb

theorem inOrder_eq (h : Ranked t t' p position Stays order) {name : α → Text}
    (hcover : ∀ i a, t.get? i = some a → p a = true → i ∈ order) : inOrder
    ((t'.select fun _ a => p a).map fun r => (r.1, position r.2, name r.2)) = places order := by
  refine inOrder_eq_places h.nodup ?_ fun ⟨i, q⟩ => ?_
  · rw [List.map_map]
    exact t'.nodup_select _
  rw [mem_inOrder, mem_places]
  constructor
  · rintro ⟨n, hn⟩
    obtain ⟨⟨j, a⟩, hm, he⟩ := List.mem_map.mp hn
    cases he
    obtain ⟨ha, hp⟩ := Table.mem_select.mp hm
    have hi : j ∈ order := by
      by_contra hno
      exact hno (hcover j a (h.same j hno ▸ ha) hp)
    obtain ⟨m, -, b, hget, -, hb, -, -, hpos⟩ := h.of_mem hi
    rw [ha] at hb
    cases hb
    exact ⟨m, hget, hpos⟩
  · rintro ⟨m, hget, rfl⟩
    obtain ⟨-, a, -, ha, -, hp, hpos⟩ := h.placed m i hget
    refine ⟨name a, List.mem_map.mpr ⟨(i, a), Table.mem_select.mpr ⟨ha, hp⟩, ?_⟩⟩
    rw [hpos]

end Ranked

theorem mem_outOfPlace {order : List (Uuid × ℤ)} {i : Uuid} {n : ℕ} :
    (i, n) ∈ outOfPlace order ↔ ∃ p, order[n]? = some (i, p) ∧ p ≠ n := by
  unfold outOfPlace
  rw [List.mem_map]
  constructor
  · rintro ⟨⟨⟨j, p⟩, m⟩, hm, he⟩
    cases he
    obtain ⟨hm, hp⟩ := List.mem_filter.mp hm
    exact ⟨p, List.mem_zipIdx_iff_getElem?.mp hm, of_decide_eq_true hp⟩
  · rintro ⟨p, hget, hp⟩
    exact ⟨((i, p), n), List.mem_filter.mpr ⟨List.mem_zipIdx_iff_getElem?.mpr hget, decide_eq_true hp⟩, rfl⟩

theorem outOfPlace_sublist (order : List (Uuid × ℤ)) :
    ((outOfPlace order).map Prod.fst).Sublist (order.map Prod.fst) := by
  have hfst : (order.zipIdx.map fun e => e.1.1) = order.map Prod.fst := by
    calc (order.zipIdx.map fun e => e.1.1) = (order.zipIdx.map Prod.fst).map Prod.fst := (List.map_map).symm
      _ = order.map Prod.fst := by rw [List.zipIdx_map_fst]
  unfold outOfPlace
  rw [List.map_map, ← hfst]
  exact List.Sublist.map _ List.filter_sublist

theorem updateRow_rows {f : Row (Body k) → Row (Body k)} {u : Unit}
    (h : StoreTx.updateRow k id f s = .ok (u, s')) :
    (∀ i, s'.db.row k i = if i = id then (s.db.row k i).map f else s.db.row k i) ∧
      ∀ k', k' ≠ k → s'.db.rows k' = s.db.rows k' := by
  rcases updateRow_ok h with ⟨hnone, hdb⟩ | ⟨r, hr, -, hdb⟩
  · refine ⟨fun i => ?_, fun k' _ => by rw [hdb]⟩
    rw [hdb]
    split
    · next hi => rw [hi, hnone]; rfl
    · rfl
  · refine ⟨fun i => ?_, fun k' hk => by rw [hdb, rows_setRow_ne hk]⟩
    rw [hdb]
    split
    · next hi => rw [hi, Db.row_setRow_self, hr]; rfl
    · next hi => rw [Db.row_setRow_ne_id hi]

theorem updateRows_ok {β : Type} {key : β → Uuid} {f : β → Row (Body k) → Row (Body k)} {l : List β} {u : PUnit}
    (hl : (l.map key).Nodup) (h : (l.forM fun e => StoreTx.updateRow k (key e) (f e)) s = .ok (u, s')) :
    (∀ e ∈ l, s'.db.row k (key e) = (s.db.row k (key e)).map (f e)) ∧
    (∀ i, i ∉ l.map key → s'.db.row k i = s.db.row k i) ∧ ∀ k', k' ≠ k → s'.db.rows k' = s.db.rows k' := by
  induction l generalizing s with
  | nil =>
    cases h
    exact ⟨fun e he => absurd he List.not_mem_nil, fun _ _ => rfl, fun _ _ => rfl⟩
  | cons e l ih =>
    obtain ⟨⟨⟩, s₁, h₁, h⟩ := Tx.bind_eq_ok.mp (show (StoreTx.updateRow k (key e) (f e) >>= fun _ =>
      l.forM fun e => StoreTx.updateRow k (key e) (f e)) s = _ from h)
    rw [List.map_cons, List.nodup_cons] at hl
    obtain ⟨hin, hout, hother⟩ := ih hl.2 h
    obtain ⟨hrow, htable⟩ := updateRow_rows h₁
    refine ⟨fun x hx => ?_, fun i hi => ?_, fun k' hk => (hother k' hk).trans (htable k' hk)⟩
    · rcases List.mem_cons.mp hx with rfl | hx
      · rw [hout (key x) hl.1, hrow, if_pos rfl]
      · rw [hin x hx, hrow, if_neg]
        rintro he
        exact hl.1 (he ▸ List.mem_map_of_mem hx)
    · rw [List.map_cons, List.mem_cons, not_or] at hi
      rw [hout i hi.2, hrow, if_neg hi.1]

theorem renumbered_ok {f : ℕ → Row (Body k) → Row (Body k)} {order : List (Uuid × ℤ)} {u : PUnit}
    (horder : (order.map Prod.fst).Nodup)
    (h : ((outOfPlace order).forM fun e => StoreTx.updateRow k e.1 (f e.2)) s = .ok (u, s')) :
    (∀ (n : ℕ) i p, order[n]? = some (i, p) →
      s'.db.row k i = if p = n then s.db.row k i else (s.db.row k i).map (f n)) ∧
      (∀ i, i ∉ order.map Prod.fst → s'.db.row k i = s.db.row k i) ∧
      ∀ k', k' ≠ k → s'.db.rows k' = s.db.rows k' := by
  obtain ⟨hin, hout, hother⟩ := updateRows_ok (f := fun e => f e.2) (horder.sublist (outOfPlace_sublist order)) h
  refine ⟨fun n i p hget => ?_, fun i hi => hout i fun hm => hi ((outOfPlace_sublist order).subset hm), hother⟩
  split
  · next hp =>
    refine hout i fun hm => ?_
    obtain ⟨⟨j, m⟩, hplace, he⟩ := List.mem_map.mp hm
    cases he
    obtain ⟨q, hq, hne⟩ := mem_outOfPlace.mp hplace
    -- An id stands at one place of the order.
    have hi : (order.map Prod.fst)[n]? = some j := by rw [List.getElem?_map, hget]; rfl
    have hi' : (order.map Prod.fst)[m]? = some j := by rw [List.getElem?_map, hq]; rfl
    have hnm : n = m := (List.getElem?_inj (List.getElem?_eq_some_iff.mp hi).1 horder).mp (hi.trans hi'.symm)
    subst hnm
    rw [hget] at hq
    cases hq
    exact hne hp
  · next hp => exact hin (i, n) (mem_outOfPlace.mpr ⟨p, hget, hp⟩)

theorem map_fst_insertIdx (order : List (Uuid × ℤ)) (e : Uuid × ℤ) (before : Option Uuid) :
    (order.insertIdx (placeBefore order before) e).map Prod.fst = putBefore (order.map Prod.fst) e.1 before := by
  rw [← insertIdx_eq_putBefore, List.map_insertIdx, List.length_map]
  congr 2
  cases before with
  | none => rfl
  | some b =>
    show (order.findIdx? fun e => e.1 = b).getD order.length =
      ((order.map Prod.fst).findIdx? fun y => y = b).getD order.length
    rw [List.findIdx?_map]
    rfl

theorem placeBefore_le (order : List (Uuid × ℤ)) (before : Option Uuid) :
    placeBefore order before ≤ order.length := by
  unfold placeBefore
  cases before with
  | none => exact le_refl _
  | some b =>
    show (order.findIdx? fun e => e.1 = b).getD order.length ≤ order.length
    rw [← List.findIdx_eq_getD_findIdx?]
    exact List.findIdx_le_length

/-! ## Moving a host -/

def HostBody.place (b : HostBody) : Workspace × Option Uuid × ℤ := (b.workspace, b.groupId, b.position)

variable {group : Option Uuid}

theorem HostBody.place_eq {b : HostBody} {p : ℤ} : b.place = (workspace, group, p) ↔ b.workspace = workspace ∧
    b.groupId = group ∧ b.position = p := by
  rw [HostBody.place, Prod.mk.injEq, Prod.mk.injEq]

/-- A host keeps everything but its place, and as long as it keeps that too it is not written. -/
structure HostStays (r r' : Row HostBody) : Prop where
  body : r'.body = { r.body with
    workspace := r'.body.workspace, groupId := r'.body.groupId, position := r'.body.position }
  deleted : r'.deleted = r.deleted
  untouched : r'.body.place = r.body.place → r' = r
  pushed : r'.body.place ≠ r.body.place → r'.dirty = true

theorem HostStays.refl (r : Row HostBody) : HostStays r r :=
  ⟨rfl, rfl, fun _ => rfl, fun h => absurd rfl h⟩

/-- What the move of a host leaves in its group and outside. -/
structure HostMoved (db db' : Db) (id : Uuid) (workspace : Workspace) (group before : Option Uuid) :
    Prop where
  order : (shownHosts db' workspace group).map Prod.fst =
    putBefore (((shownHosts db workspace group).map Prod.fst).filter fun i => i ≠ id) id before
  positions : (shownHosts db' workspace group).Pairwise fun a b => a.2 < b.2
  rows : ∀ i r, db.row .host i = some r → ∃ r', db'.row .host i = some r' ∧ HostStays r r'
  missing : ∀ i, db.row .host i = none → db'.row .host i = none
  outside : ∀ i r, db.row .host i = some r → i ≠ id →
    (r.deleted = true ∨ r.body.inGroup workspace group = false) → db'.row .host i = some r
  groups : ∀ g r, db.row .group g = some r → db'.row .group g = some r
  made : ∀ g, db.row .group g = none → db'.row .group g ≠ none → group = some g
  others : ∀ k, k ≠ .host → k ≠ .group → db'.rows k = db.rows k

theorem hostOrder_others (db : Db) (workspace : Workspace) (group : Option Uuid) (id : Uuid) :
    (hostOrder db fun i b => b.workspace = workspace && b.groupId = group && i ≠ id) =
    (shownHosts db workspace group).filter fun e => e.1 ≠ id := by
  rw [shownHosts_eq]
  unfold hostOrder
  rw [← inOrder_filter, List.filter_map, Table.select, Table.select, List.filter_filter]
  congr 2
  refine List.filter_congr fun e _ => ?_
  simp only [Function.comp_apply, HostBody.inGroup]
  cases e.2.deleted <;> cases decide (e.2.body.workspace = workspace) <;>
    cases decide (e.2.body.groupId = group) <;> simp

theorem mem_hostOrder_iff {p : Uuid → HostBody → Bool} {i : Uuid} {q : ℤ} : (i, q) ∈ hostOrder db p ↔ ∃ r, db.row
    .host i = some r ∧ r.deleted = false ∧ p i r.body = true ∧ r.body.position = q := by
  unfold hostOrder
  rw [mem_inOrder]
  constructor
  · rintro ⟨n, hn⟩
    obtain ⟨⟨j, r⟩, hm, he⟩ := List.mem_map.mp hn
    cases he
    obtain ⟨hr, hp⟩ := Table.mem_select.mp hm
    rw [Bool.and_eq_true, Bool.not_eq_true'] at hp
    exact ⟨r, hr, hp.1, hp.2, rfl⟩
  · rintro ⟨r, hr, hd, hp, rfl⟩
    refine ⟨r.body.name, List.mem_map.mpr ⟨(i, r), Table.mem_select.mpr ⟨hr, ?_⟩, rfl⟩⟩
    rw [hd, hp]
    rfl

theorem nodup_hostOrder (db : Db) (p : Uuid → HostBody → Bool) : ((hostOrder db p).map Prod.fst).Nodup := by
  refine nodup_inOrder ?_
  rw [List.map_map]
  exact Table.nodup_select _ _

theorem mem_shownHosts {i : Uuid} {q : ℤ} : (i, q) ∈ shownHosts db workspace group ↔ ∃ r, db.row
    .host i = some r ∧ r.deleted = false ∧ r.body.inGroup workspace group = true ∧ r.body.position = q := by
  rw [shownHosts_eq, mem_hostOrder_iff]

theorem nodup_shownHosts (db : Db) (workspace : Workspace) (group : Option Uuid) :
    ((shownHosts db workspace group).map Prod.fst).Nodup := by
  rw [shownHosts_eq]
  exact nodup_hostOrder _ _

theorem shownHosts_congr (h : db'.rows .host = db.rows .host) (workspace : Workspace)
    (group : Option Uuid) : shownHosts db' workspace group = shownHosts db workspace group := by
  rw [shownHosts_eq, shownHosts_eq, hostOrder, hostOrder, h]

theorem mem_insertIdx_place {rest : List (Uuid × ℤ)} {place : ℕ} {e : Uuid × ℤ}
    (hplace : place ≤ rest.length) (hnodup : ((rest.insertIdx place e).map Prod.fst).Nodup) {n : ℕ}
    {x : Uuid × ℤ} (h : (rest.insertIdx place e)[n]? = some x) : (n = place ∧ x = e) ∨ x ∈ rest := by
  have hentry : (rest.insertIdx place e)[place]? = some e := by
    rw [List.getElem?_insertIdx_self, if_pos hplace]
  refine ((List.mem_insertIdx hplace).mp (List.mem_of_getElem? h)).imp (fun hx => ⟨?_, hx⟩) fun hx => hx
  subst hx
  have hlt : n < (rest.insertIdx place x).length := (List.getElem?_eq_some_iff.mp h).1
  exact (List.getElem?_inj hlt hnodup.of_map).mp (h.trans hentry.symm)

theorem host_placed {r : Row HostBody} {o : Option (Row HostBody)} {n : ℕ} {p : ℤ}
    (hlive : r.deleted = false) (hp : p = n → r.body.place = (workspace, group, (n : ℤ)))
    (hp' : p ≠ n → r.body.place ≠ (workspace, group, (n : ℤ)))
    (h : o = if p = n then some r else (some r).map fun r =>
      r.rewrite clock fun b => { b with workspace, groupId := group, position := n }) :
    ∃ r', o = some r' ∧ HostStays r r' ∧ (!r'.deleted && r'.body.inGroup workspace group) = true ∧
      r'.body.position = n := by
  by_cases hn : p = n
  · rw [if_pos hn] at h
    obtain ⟨hw, hg, hpos⟩ := HostBody.place_eq.mp (hp hn)
    refine ⟨r, h, HostStays.refl r, ?_, hpos⟩
    simp [hlive, HostBody.inGroup, hw, hg]
  · rw [if_neg hn] at h
    refine ⟨_, h, ⟨rfl, rfl, fun he => absurd he.symm (hp' hn), fun _ => rfl⟩, ?_, rfl⟩
    simp [Row.rewrite, HostBody.inGroup, hlive]

/-- The hosts of the group with the moved one in its place. -/
def hostsWith (db : Db) (workspace : Workspace) (group : Option Uuid) (id : Uuid)
    (before : Option Uuid) : List Uuid :=
  putBefore (((shownHosts db workspace group).map Prod.fst).filter fun i => i ≠ id) id before

variable {before : Option Uuid}

theorem placeInGroup_ranked {r : Row HostBody} {u : Unit}
    {rest : List (Uuid × ℤ)} {place : ℕ} {position : ℤ}
    (hr : s.db.row .host id = some r) (hlive : r.deleted = false)
    (hrest : rest = (shownHosts s.db workspace group).filter fun e => e.1 ≠ id)
    (hplace : place = placeBefore rest before)
    (hposition : position = if r.body.workspace ≠ workspace ∨ r.body.groupId ≠ group ∨
      r.body.position ≠ (place : ℤ) then -1 else r.body.position)
    (h : placeInGroup workspace group clock (outOfPlace (rest.insertIdx place (id, position))) s =
      .ok (u, s')) :
    Ranked (s.db.rows .host) (s'.db.rows .host)
      (fun r => !r.deleted && r.body.inGroup workspace group) (fun r => r.body.position) HostStays
      (hostsWith s.db workspace group id before) ∧ ∀ k, k ≠ .host → s'.db.rows k = s.db.rows k := by
  have hids : (rest.insertIdx place (id, position)).map Prod.fst = hostsWith s.db workspace group id before := by
    rw [hplace, map_fst_insertIdx, hrest, hostsWith, List.filter_map]
    rfl
  have hnodup : ((rest.insertIdx place (id, position)).map Prod.fst).Nodup := by
    rw [hids]
    refine nodup_putBefore ((nodup_shownHosts _ _ _).filter _) (fun hm => ?_) before
    exact of_decide_eq_true (List.mem_filter.mp hm).2 rfl
  obtain ⟨hin, hout, hother⟩ := renumbered_ok (k := .host) (f := fun n r => r.rewrite clock fun b =>
      { b with workspace, groupId := group, position := n }) hnodup h
  refine ⟨⟨hids ▸ hnodup, fun n i hget => ?_, fun i hi => hout i (hids ▸ hi)⟩, hother⟩
  rw [← hids, List.getElem?_map, Option.map_eq_some_iff] at hget
  obtain ⟨⟨j, p⟩, hget, rfl⟩ := hget
  have hwritten := hin n j p hget
  have hlen : place ≤ rest.length := hplace ▸ placeBefore_le rest before
  rcases mem_insertIdx_place hlen hnodup hget with ⟨rfl, he⟩ | hm
  · -- The moved host counts as changed exactly if its place is new.
    cases he
    rw [hr] at hwritten
    refine ⟨r, (host_placed hlive (fun hp => ?_) (fun hp he => ?_) hwritten).imp fun r' h => ⟨hr, h⟩⟩
    · split at hposition
      · omega
      · next hsame =>
        simp only [not_or, not_not] at hsame
        exact HostBody.place_eq.mpr hsame
    · obtain ⟨hw, hg, hpos⟩ := HostBody.place_eq.mp he
      refine hp ?_
      rw [hposition, if_neg fun hc => ?_, hpos]
      rcases hc with hc | hc | hc
      · exact hc hw
      · exact hc hg
      · exact hc hpos
  · rw [hrest] at hm
    obtain ⟨r, hr, hlive, hgroup, hp⟩ := mem_shownHosts.mp (List.mem_of_mem_filter hm)
    rw [HostBody.inGroup, Bool.and_eq_true, decide_eq_true_iff, decide_eq_true_iff] at hgroup
    rw [hr] at hwritten
    refine ⟨r, (host_placed hlive (fun he => ?_) (fun hne he => hne ?_) hwritten).imp fun r' h => ⟨hr, h⟩⟩
    · exact HostBody.place_eq.mpr ⟨hgroup.1, hgroup.2, hp.trans he⟩
    · exact hp.symm.trans (HostBody.place_eq.mp he).2.2

theorem hostMoved_of_ranked
    (h : Ranked (db.rows .host) (db'.rows .host) (fun r => !r.deleted && r.body.inGroup workspace group)
      (fun r => r.body.position) HostStays (hostsWith db workspace group id before))
    (hgroups : ∀ g r, db.row .group g = some r → db'.row .group g = some r)
    (hmade : ∀ g, db.row .group g = none → db'.row .group g ≠ none → group = some g)
    (hothers : ∀ k, k ≠ .host → k ≠ .group → db'.rows k = db.rows k) :
    HostMoved db db' id workspace group before := by
  have hmem : ∀ i, i ∈ hostsWith db workspace group id before ↔ i = id ∨ i ≠ id ∧ ∃ r,
      db.row .host i = some r ∧ r.deleted = false ∧ r.body.inGroup workspace group = true := by
    intro i
    rw [hostsWith, mem_putBefore, List.mem_filter, List.mem_map, decide_eq_true_iff]
    refine or_congr Iff.rfl ⟨?_, ?_⟩
    · rintro ⟨⟨⟨j, p⟩, hm, rfl⟩, hne⟩
      obtain ⟨r, hr, hlive, hgroup, -⟩ := mem_shownHosts.mp hm
      exact ⟨hne, r, hr, hlive, hgroup⟩
    · rintro ⟨hne, r, hr, hlive, hgroup⟩
      exact ⟨⟨(i, r.body.position), mem_shownHosts.mpr ⟨r, hr, hlive, hgroup, rfl⟩, rfl⟩, hne⟩
  have hshown : shownHosts db' workspace group = places (hostsWith db workspace group id before) := by
    rw [shownHosts_eq]
    refine @Ranked.inOrder_eq _ _ _ _ _ _ _ h (fun r => r.body.name) fun i r hr hp => ?_
    rw [Bool.and_eq_true, Bool.not_eq_true'] at hp
    rw [hmem]
    by_cases he : i = id
    · exact .inl he
    · exact .inr ⟨he, r, hr, hp.1, hp.2⟩
  refine ⟨?_, ?_, fun i r hr => h.rows HostStays.refl hr, fun i hi => h.missing hi, ?_, hgroups, hmade, hothers⟩
  · rw [hshown, map_fst_places, hostsWith]
  · rw [hshown]
    exact places_pairwise _
  · intro i r hr hne hoff
    refine (h.same i fun hm => ?_).trans hr
    obtain ⟨-, r₀, hr₀, hlive₀, hgroup₀⟩ := ((hmem i).mp hm).resolve_left hne
    rw [hr] at hr₀
    cases hr₀
    rw [hlive₀, hgroup₀] at hoff
    simp at hoff

variable {path : Option Text}

theorem FindsGroup.target (h : FindsGroup workspace db db' path group) :
    path.map (groupId db' workspace) = group.map some := by
  cases h with
  | ungrouped => rfl
  | found hg hrows =>
    rw [groupId_of_rows_eq hrows]
    exact congrArg some hg
  | made hfree hnew hrows =>
    rw [groupId_of_rows_eq hrows]
    exact congrArg some (groupId_made hnew rfl hfree)

theorem FindsGroup.made_eq {g : Uuid} (h : FindsGroup workspace db db' path group) (hg : db.row .group g = none)
    (hg' : db'.row .group g ≠ none) : group = some g := by
  cases h with
  | ungrouped hrows | found _ hrows => exact absurd ((row_congr hrows _ _).trans hg) hg'
  | @made name g' clock position _ _ hrows =>
    by_contra hne
    refine hg' ?_
    rw [row_congr hrows, Db.row_setRow_ne_id fun he => hne (congrArg some he.symm), hg]

theorem moveHost_moved {record : HostRecord}
    (h : moveHost cx id workspace path before s = .ok (record, s')) : ∃ name group, groupName path = .ok name ∧
    name.map (groupId s'.db workspace) = group.map some ∧ HostMoved s.db s'.db id workspace group before := by
  unfold moveHost at h
  cases hname : groupName path with
  | error e =>
    simp only [hname] at h
    cases h
  | ok name =>
    simp only [hname] at h
    obtain ⟨row, s₀, h₀, h⟩ := Tx.bind_eq_ok.mp h
    cases h₀
    obtain ⟨r, s₀, h₀, h⟩ := Tx.bind_eq_ok.mp h
    obtain ⟨hrow, rfl⟩ := Tx.orFail_eq_ok.mp h₀
    obtain ⟨hr, hlive⟩ := Option.filter_eq_some_iff.mp (show liveHost s.db id = some r from hrow)
    obtain ⟨group, s₁, h₁, h⟩ := Tx.bind_eq_ok.mp h
    have hfinds := ensureGroupPath_ok h₁
    obtain ⟨order, s₂, h₂, h⟩ := Tx.bind_eq_ok.mp h
    cases h₂
    obtain ⟨clock, s₂, h₂, h⟩ := Tx.bind_eq_ok.mp h
    obtain ⟨-, htick⟩ := tick_eq_ok h₂
    have hrows : s₂.db.rows = s₁.db.rows := by rw [htick]; rfl
    obtain ⟨_, s₃, h₃, h⟩ := Tx.bind_eq_ok.mp h
    obtain ⟨found, s₄, h₄, h⟩ := Tx.bind_eq_ok.mp h
    cases h₄
    obtain ⟨-, rfl⟩ := Tx.orFail_eq_ok.mp h
    have hhosts : s₂.db.rows .host = s.db.rows .host := by rw [hrows, hfinds.rows_ne (by decide)]
    have hr₂ : s₂.db.row .host id = some r := by rw [Db.row, hhosts]; exact hr
    obtain ⟨hranked, hother⟩ := placeInGroup_ranked hr₂ (by simpa using hlive)
      (by rw [← hostOrder_others]; unfold hostOrder; rw [hrows]) rfl rfl h₃
    rw [hostsWith, shownHosts_congr hhosts, hhosts] at hranked
    have hgroups : s₃.db.rows .group = s₁.db.rows .group := by rw [hother .group (by decide), hrows]
    refine ⟨name, group, rfl, ?_, hostMoved_of_ranked hranked ?_ ?_ ?_⟩
    · rw [← hfinds.target]
      exact congrArg (fun f => name.map (f workspace)) (groupId_congr hgroups)
    · intro g r hg
      rw [Db.row, hgroups]
      exact hfinds.group_some hg
    · intro g hg hg'
      refine hfinds.made_eq hg ?_
      rw [Db.row, hgroups] at hg'
      exact hg'
    · intro k hk hk'
      rw [hother k hk, hrows, hfinds.rows_ne hk']

end UwuRdp
