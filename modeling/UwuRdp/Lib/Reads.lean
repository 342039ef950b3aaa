import UwuRdp.Lib.Bytes

/-!
# Reading pieces of bytes

Reading by places has three ends: a value, a refusal, and a place past the end. A read is exact for
a condition when it never goes past the end and gives just the value that meets it.
-/

namespace Lib

/-- A place past the end of what is read. -/
inductive PastEnd where
  | pastEnd
deriving DecidableEq

abbrev Reads (α : Type) := OptionT (Except PastEnd) α

namespace Reads

variable {α β : Type}

def refuse : Reads α := OptionT.mk (.ok none)

def fault : Reads α := OptionT.mk (.error .pastEnd)

def slice (bytes : List UInt8) (low high : ℕ) : Reads (List UInt8) :=
  if low ≤ high ∧ high ≤ bytes.length then pure ((bytes.drop low).take (high - low)) else fault

def byteAt (bytes : List UInt8) (i : ℕ) : Reads UInt8 :=
  match bytes[i]? with
  | some b => pure b
  | none => fault

/-- The number, the highest byte first, of as many bytes as there have to be. -/
def number (width : ℕ) (bytes : List UInt8) : Reads ℕ :=
  if bytes.length = width then pure (beNat bytes) else refuse

variable {bytes front rest : List UInt8} {low high size : ℕ}

variable {piece : List UInt8} {i : ℕ} {f : α → Reads β} {g : α → Option β}

theorem slice_at (hbytes : bytes = front ++ (piece ++ rest)) (hfront : front.length = low)
    (hpiece : low + piece.length = high) : slice bytes low high = pure piece := by
  subst hbytes hfront hpiece
  unfold slice
  rw [if_pos (by simp), List.drop_left, Nat.add_sub_cancel_left, List.take_left]

theorem slice_front {a b : List UInt8} (h : a.length = high) : slice (a ++ b) 0 high = pure a :=
  slice_at (List.nil_append _).symm rfl (by rw [Nat.zero_add, h])

theorem slice_last (hbytes : bytes = front ++ piece) (hfront : front.length = low)
    (hpiece : low + piece.length = high) : slice bytes low high = pure piece :=
  slice_at (by rw [hbytes, List.append_nil]) hfront hpiece

theorem byteAt_at {b : UInt8} (hbytes : bytes = front ++ ([b] ++ rest)) (hfront : front.length = i) : byteAt
    bytes i = pure b := by
  subst hbytes hfront
  unfold byteAt
  rw [List.getElem?_append_right (Nat.le_refl _), Nat.sub_self]
  rfl

/-! ## Parts that cannot go past the end -/

def lift (o : Option α) : Reads α := OptionT.mk (.ok o)

def within (low high size : ℕ) : Reads Unit := if low ≤ high ∧ high ≤ size then pure () else fault

theorem lift_bind {o : Option α} (h : ∀ a, o = some a → f a = lift (g a)) : (lift o >>= f) = lift (o.bind g) := by
  cases o with
  | none => rfl
  | some a => exact h a rfl

theorem mapM_lift {l : List α} (h : ∀ a ∈ l, f a = lift (g a)) : l.mapM f = lift (l.mapM g) := by
  induction l with
  | nil => rfl
  | cons a l ih =>
    rw [List.mapM_cons, List.mapM_cons, h a List.mem_cons_self, ih fun b hb => h b (List.mem_cons_of_mem _ hb)]
    exact lift_bind fun b _ => lift_bind fun bs _ => rfl

theorem byteAt_lt (h : i < bytes.length) : byteAt bytes i = lift (some (bytes.getD i 0)) := by
  unfold byteAt
  rw [List.getD_eq_getElem?_getD, List.getElem?_eq_getElem h]
  rfl

theorem slice_le (h : low ≤ high) (h' : high ≤ bytes.length) :
    slice bytes low high = lift (some ((bytes.drop low).take (high - low))) := if_pos ⟨h, h'⟩

theorem within_le (h : low ≤ high) (h' : high ≤ size) : within low high size = lift (some ()) :=
  if_pos ⟨h, h'⟩

/-! ## Exact reads -/

/-- The read does not go past the end, and gives just the value that meets a condition. -/
def Exact (x : Reads α) (p : α → Prop) : Prop := ∃ r, x.run = .ok r ∧ ∀ a, r = some a ↔ p a

namespace Exact

variable {x : Reads α} {p q : α → Prop}

theorem congr (h : Exact x p) (hiff : ∀ a, p a ↔ q a) : Exact x q := by
  obtain ⟨r, hr, hmem⟩ := h
  exact ⟨r, hr, fun a => (hmem a).trans (hiff a)⟩

variable {v : α} {f : α → Reads β}

protected theorem pure : Exact (pure v) (fun a => a = v) :=
  ⟨some v, rfl, fun a => by rw [Option.some.injEq, eq_comm]⟩

protected theorem refuse (h : ∀ a, ¬p a) : Exact refuse p :=
  ⟨none, rfl, fun a => iff_of_false (by simp) (h a)⟩

protected theorem bind {s : α → β → Prop} (hx : Exact x p)
    (hf : ∀ a, p a → Exact (f a) (s a)) : Exact (x >>= f) (fun b => ∃ a, p a ∧ s a b) := by
  obtain ⟨r, hr, hmem⟩ := hx
  obtain rfl : x = OptionT.mk (.ok r) := hr
  cases r with
  | none =>
    refine ⟨none, rfl, fun b => iff_of_false (by simp) ?_⟩
    rintro ⟨a, ha, -⟩
    cases (hmem a).mpr ha
  | some v =>
    obtain ⟨r', hr', hmem'⟩ := hf v ((hmem v).mp rfl)
    refine ⟨r', hr', fun b => (hmem' b).trans ⟨fun h => ⟨v, (hmem v).mp rfl, h⟩, ?_⟩⟩
    rintro ⟨a, ha, h⟩
    cases (hmem a).mpr ha
    exact h

theorem pure_bind {s : β → Prop} (hx : x = pure v) (hf : Exact (f v) s) : Exact (x >>= f) s := by
  subst hx
  exact hf

protected theorem mapM {f : List UInt8 → Reads α} {write : α → List UInt8}
    {pieces : List (List UInt8)} (hf : ∀ piece ∈ pieces, Exact (f piece) (fun a => write a = piece)) :
    Exact (pieces.mapM f) (fun l => l.map write = pieces) := by
  induction pieces with
  | nil =>
    rw [List.mapM_nil]
    exact Exact.pure.congr fun l => List.map_eq_nil_iff.symm
  | cons piece pieces ih =>
    obtain ⟨hpiece, hpieces⟩ := List.forall_mem_cons.mp hf
    rw [List.mapM_cons]
    refine (hpiece.bind fun a _ => (ih hpieces).bind fun l _ => Exact.pure).congr fun l => ?_
    constructor
    · rintro ⟨a, rfl, l, rfl, rfl⟩
      rfl
    · intro h
      cases l with
      | nil => cases h
      | cons a l =>
        obtain ⟨hhead, htail⟩ := List.cons.inj h
        exact ⟨a, hhead, l, htail, rfl⟩

end Exact

theorem number_exact {width : ℕ} (h : bytes.length = width) :
    Exact (number width bytes) (fun n => n < 256 ^ width ∧ beBytes width n = bytes) := by
  unfold number
  rw [if_pos h]
  refine Exact.pure.congr fun n => ?_
  constructor
  · rintro rfl
    exact ⟨beNat_lt h, beBytes_beNat h⟩
  · rintro ⟨hlt, rfl⟩
    exact (beNat_beBytes hlt).symm

/-! ## Pieces of one size -/

/-- The pieces of a size; what is left over at the end is not among them. -/
def asChunks (size : ℕ) (bytes : List UInt8) : List (List UInt8) :=
  (List.range (bytes.length / size)).map fun i => (bytes.drop (i * size)).take size

theorem length_asChunks (size : ℕ) (bytes : List UInt8) : (asChunks size bytes).length = bytes.length / size := by
  rw [asChunks, List.length_map, List.length_range]

theorem asChunks_append {chunk : List UInt8} (hsize : 0 < size)
    (h : chunk.length = size) : asChunks size (chunk ++ rest) = chunk :: asChunks size rest := by
  unfold asChunks
  have hcount : (chunk ++ rest).length / size = rest.length / size + 1 := by
    rw [List.length_append, h, Nat.add_div_left _ hsize]
  rw [hcount, List.range_succ_eq_map, List.map_cons, List.map_map, Nat.zero_mul, List.drop_zero, List.take_left' h]
  refine congrArg (chunk :: ·) (List.map_congr_left fun i _ => ?_)
  have hat : (i + 1) * size = chunk.length + i * size := by
    rw [h, Nat.succ_mul, Nat.add_comm]
  show ((chunk ++ rest).drop ((i + 1) * size)).take size = _
  rw [hat, ← List.drop_drop, List.drop_left]

theorem asChunks_eq_iff (hsize : 0 < size) {pieces : List (List UInt8)}
    (hpieces : ∀ piece ∈ pieces, piece.length = size) (hbytes : bytes.length = pieces.length * size) : asChunks size
    bytes = pieces ↔ pieces.flatten = bytes := by
  induction pieces generalizing bytes with
  | nil =>
    rw [List.length_nil, Nat.zero_mul, List.length_eq_zero_iff] at hbytes
    subst hbytes
    simp [asChunks]
  | cons piece pieces ih =>
    obtain ⟨hpiece, hrest⟩ := List.forall_mem_cons.mp hpieces
    rw [List.length_cons, Nat.succ_mul] at hbytes
    have htake : (bytes.take size).length = size := by
      rw [List.length_take]
      omega
    have hdrop : (bytes.drop size).length = pieces.length * size := by
      rw [List.length_drop]
      omega
    conv_lhs => rw [← List.take_append_drop size bytes, asChunks_append hsize htake]
    rw [List.flatten_cons]
    constructor
    · intro h
      obtain ⟨hhead, htail⟩ := List.cons.inj h
      rw [(ih hrest hdrop).mp htail, ← hhead, List.take_append_drop]
    · rintro rfl
      rw [List.take_left' hpiece, List.drop_left' hpiece] at *
      rw [(ih hrest hdrop).mpr rfl]

end Reads

end Lib
