import Mathlib.Algebra.Order.Ring.Nat
import Mathlib.Data.List.Basic
import Mathlib.Data.Nat.Bitwise
import Mathlib.Logic.Function.Iterate

/-!
# Regrouping bits

Digits of one width go into an accumulator of a machine word, and digits of another width come out of it
while it has enough bits. What a state stands for is the bits that came out and those still waiting: feeding a
digit adds its bits and taking one out changes nothing, so what comes out is what went in, cut differently.
-/

namespace Lib.Bits

variable {m n v w : ℕ}

def bitsOf : ℕ → ℕ → List Bool
  | 0, _ => []
  | n + 1, v => v.testBit n :: bitsOf n v

@[simp] theorem length_bitsOf (n v : ℕ) : (bitsOf n v).length = n := by
  induction n with
  | zero => rfl
  | succ n ih => rw [bitsOf, List.length_cons, ih]

theorem bitsOf_congr (h : ∀ i < n, v.testBit i = w.testBit i) : bitsOf n v = bitsOf n w := by
  induction n with
  | zero => rfl
  | succ n ih =>
    rw [bitsOf, bitsOf, h n (Nat.lt_succ_self n), ih fun i hi => h i (hi.trans (Nat.lt_succ_self n))]

theorem bitsOf_mod (h : n ≤ m) (v : ℕ) : bitsOf n (v % 2 ^ m) = bitsOf n v := by
  apply bitsOf_congr
  intro i hi
  rw [Nat.testBit_mod_two_pow, decide_eq_true (hi.trans_le h), Bool.true_and]

theorem bitsOf_add (m n v : ℕ) : bitsOf (m + n) v = bitsOf m (v >>> n) ++ bitsOf n v := by
  induction m with
  | zero => rw [Nat.zero_add, bitsOf, List.nil_append]
  | succ m ih =>
    rw [Nat.succ_add, bitsOf, ih, bitsOf, Nat.testBit_shiftRight, Nat.add_comm n m, List.cons_append]

theorem bitsOf_shiftLeft (m n v : ℕ) : bitsOf (m + n) (v <<< n) = bitsOf m v ++ bitsOf n 0 := by
  rw [bitsOf_add, Nat.shiftLeft_shiftRight]
  congr 1
  apply bitsOf_congr
  intro i hi
  rw [Nat.testBit_shiftLeft, decide_eq_false (Nat.not_le.mpr hi), Bool.false_and, Nat.zero_testBit]

theorem bitsOf_zero (n : ℕ) : bitsOf n 0 = List.replicate n false := by
  induction n with
  | zero => rfl
  | succ n ih => rw [bitsOf, ih, Nat.zero_testBit, List.replicate_succ]

theorem bitsOf_inj (hv : v < 2 ^ n) (hw : w < 2 ^ n) (h : bitsOf n v = bitsOf n w) : v = w := by
  have hbits : ∀ i < n, v.testBit i = w.testBit i := by
    clear hv hw
    induction n with
    | zero => exact fun i hi => absurd hi (Nat.not_lt_zero i)
    | succ n ih =>
      rw [bitsOf, bitsOf] at h
      obtain ⟨htop, hrest⟩ := List.cons.inj h
      intro i hi
      rcases Nat.eq_or_lt_of_le (Nat.le_of_lt_succ hi) with rfl | hlt
      · exact htop
      · exact ih hrest i hlt
  apply Nat.eq_of_testBit_eq
  intro i
  rcases Nat.lt_or_ge i n with hi | hi
  · exact hbits i hi
  · rw [Nat.testBit_lt_two_pow (hv.trans_le (Nat.pow_le_pow_right Nat.two_pos hi)),
      Nat.testBit_lt_two_pow (hw.trans_le (Nat.pow_le_pow_right Nat.two_pos hi))]

/-! ## Digits -/

def concat (n : ℕ) (digits : List ℕ) : List Bool := digits.flatMap (bitsOf n)

@[simp] theorem concat_nil (n : ℕ) : concat n [] = [] := rfl

theorem concat_cons (n d : ℕ) (digits : List ℕ) : concat n (d :: digits) = bitsOf n d ++ concat n digits := rfl

theorem concat_append (n : ℕ) (xs ys : List ℕ) : concat n (xs ++ ys) = concat n xs ++ concat n ys :=
  List.flatMap_append

theorem length_concat (n : ℕ) (digits : List ℕ) : (concat n digits).length = n * digits.length := by
  induction digits with
  | nil => rfl
  | cons d digits ih => rw [concat_cons, List.length_append, length_bitsOf, ih, List.length_cons, Nat.mul_succ,
      Nat.add_comm]

theorem concat_prefix_inj {xs ys : List ℕ} {rest rest' : List Bool} (hx : ∀ d ∈ xs, d < 2 ^ n)
    (hy : ∀ d ∈ ys, d < 2 ^ n) (hlen : xs.length = ys.length) (h : concat n xs ++ rest = concat n ys ++ rest') :
    xs = ys ∧ rest = rest' := by
  induction xs generalizing ys with
  | nil =>
    obtain rfl := List.length_eq_zero_iff.mp hlen.symm
    exact ⟨rfl, h⟩
  | cons x xs ih =>
    obtain ⟨y, ys, rfl⟩ := List.exists_cons_of_length_eq_add_one hlen.symm
    rw [concat_cons, concat_cons, List.append_assoc, List.append_assoc] at h
    obtain ⟨hhead, htail⟩ := List.append_inj h (by rw [length_bitsOf, length_bitsOf])
    obtain rfl := bitsOf_inj (hx x List.mem_cons_self) (hy y List.mem_cons_self) hhead
    obtain ⟨rfl, hrest⟩ := ih (fun d hd => hx d (List.mem_cons_of_mem _ hd))
      (fun d hd => hy d (List.mem_cons_of_mem _ hd)) (Nat.succ.inj hlen) htail
    exact ⟨rfl, hrest⟩

theorem concat_inj {xs ys : List ℕ} (hx : ∀ d ∈ xs, d < 2 ^ n) (hy : ∀ d ∈ ys, d < 2 ^ n)
    (hlen : xs.length = ys.length) (h : concat n xs = concat n ys) : xs = ys :=
  (@concat_prefix_inj n xs ys [] [] hx hy hlen (by rw [h])).1

/-! ## The accumulator -/

/-- What came out, and the accumulator with so many bits that wait in it. -/
structure Packer where
  out : List ℕ
  acc : ℕ
  bits : ℕ
deriving DecidableEq

namespace Packer

def start : Packer := ⟨[], 0, 0⟩

/-- One more digit of a width into an accumulator of a word. -/
def feed (word width : ℕ) (p : Packer) (digit : ℕ) : Packer :=
  { p with acc := (p.acc <<< width ||| digit) % 2 ^ word, bits := p.bits + width }

def emit (width : ℕ) (p : Packer) : Packer :=
  if width ≤ p.bits then
    { p with out := p.out ++ [p.acc >>> (p.bits - width) % 2 ^ width], bits := p.bits - width }
  else p

/-- The bits a state stands for, where digits of a width come out. -/
def denote (width : ℕ) (p : Packer) : List Bool := concat width p.out ++ bitsOf p.bits p.acc

def Tidy (width : ℕ) (p : Packer) : Prop := ∀ d ∈ p.out, d < 2 ^ width

variable {word width a : ℕ} {p : Packer} {d : ℕ}

theorem denote_feed (hfits : p.bits + a ≤ word) (hd : d < 2 ^ a) :
    (p.feed word a d).denote width = p.denote width ++ bitsOf a d := by
  have hshift : (p.acc <<< a ||| d) >>> a = p.acc := by
    rw [Nat.shiftRight_or_distrib, Nat.shiftLeft_shiftRight, Nat.shiftRight_eq_div_pow d,
      Nat.div_eq_of_lt hd, Nat.or_zero]
  have hlow : bitsOf a (p.acc <<< a ||| d) = bitsOf a d := by
    apply bitsOf_congr
    intro i hi
    rw [Nat.testBit_or, Nat.testBit_shiftLeft, decide_eq_false (Nat.not_le.mpr hi), Bool.false_and, Bool.false_or]
  show concat width p.out ++ bitsOf (p.bits + a) ((p.acc <<< a ||| d) % 2 ^ word) = _
  rw [bitsOf_mod hfits, bitsOf_add, hshift, hlow, ← List.append_assoc]
  rfl

theorem denote_emit : (p.emit width).denote width = p.denote width := by
  unfold emit
  split
  · next h =>
    show concat width (p.out ++ [_]) ++ bitsOf (p.bits - width) p.acc = concat width p.out ++ bitsOf p.bits p.acc
    rw [concat_append, concat_cons, concat_nil, List.append_nil, bitsOf_mod le_rfl, List.append_assoc,
      ← bitsOf_add, Nat.add_sub_cancel' h]
  · rfl

theorem Tidy.feed (h : p.Tidy width) : (p.feed word a d).Tidy width := h

theorem Tidy.emit (h : p.Tidy width) : (p.emit width).Tidy width := by
  unfold Packer.emit
  split
  · intro x hx
    rcases List.mem_append.mp hx with hx | hx
    · exact h x hx
    · rw [List.mem_singleton.mp hx]
      exact Nat.mod_lt _ (Nat.two_pow_pos width)
  · exact h

theorem bits_emit (h : width ≤ p.bits) : (p.emit width).bits = p.bits - width := by
  unfold emit
  rw [if_pos h]

theorem emit_of_lt (h : p.bits < width) : p.emit width = p := by
  unfold emit
  rw [if_neg (Nat.not_le.mpr h)]

/-- Digits come out for as long as there are bits enough. -/
def drain (width : ℕ) (p : Packer) : Packer := (emit width)^[p.bits] p

theorem bits_iterate_lt {k : ℕ} (h : p.bits < width + k * width) : ((emit width)^[k] p).bits < width := by
  induction k generalizing p with
  | zero => rwa [Nat.zero_mul, Nat.add_zero] at h
  | succ k ih =>
    rw [Function.iterate_succ_apply]
    apply ih
    rw [Nat.succ_mul] at h
    rcases Nat.lt_or_ge p.bits width with hlt | hge
    · rw [emit_of_lt hlt]
      exact Nat.lt_add_right _ hlt
    · rw [bits_emit hge]
      omega

/-! ## Runs -/

/-- A way to take digits out: nothing is lost, and less than a digit stays when less than so many bits were
there. -/
structure Takes (width limit : ℕ) (f : Packer → Packer) : Prop where
  denote : ∀ p, (f p).denote width = p.denote width
  tidy : ∀ p, p.Tidy width → (f p).Tidy width
  bits : ∀ p, p.bits < limit → (f p).bits < width

theorem Takes.mono {limit limit' : ℕ} {f : Packer → Packer} (hf : Takes width limit f) (h : limit' ≤ limit) :
    Takes width limit' f :=
  ⟨hf.denote, hf.tidy, fun p hp => hf.bits p (hp.trans_le h)⟩

theorem takes_emit : Takes width (width + width) (emit width) where
  denote _ := denote_emit
  tidy _ := Tidy.emit
  bits p h := by
    have hone := bits_iterate_lt (k := 1) (by rwa [Nat.one_mul])
    exact hone

theorem takes_drain {limit : ℕ} (hw : 0 < width) : Takes width limit (drain width) where
  denote p := by
    unfold drain
    generalize p.bits = k
    induction k with
    | zero => rfl
    | succ k ih => rw [Function.iterate_succ_apply', denote_emit, ih]
  tidy p h := by
    unfold drain
    generalize p.bits = k
    induction k with
    | zero => exact h
    | succ k ih =>
      rw [Function.iterate_succ_apply']
      exact ih.emit
  bits p _ := bits_iterate_lt (Nat.lt_of_lt_of_le (Nat.lt_add_of_pos_left hw)
    (Nat.add_le_add_left (Nat.le_mul_of_pos_right _ hw) _))

def pack (word a : ℕ) (f : Packer → Packer) (digits : List ℕ) : Packer :=
  digits.foldl (fun p d => f (p.feed word a d)) start

theorem pack_spec {f : Packer → Packer} {digits : List ℕ} (hf : Takes width (width + a) f)
    (hword : width + a ≤ word + 1) (hw : 0 < width) (hd : ∀ d ∈ digits, d < 2 ^ a) : (pack word a f digits).denote
    width = concat a digits ∧ (pack word a f digits).Tidy width ∧ (pack word a f digits).bits < width := by
  have hrun : ∀ p : Packer, p.Tidy width → p.bits < width →
      (digits.foldl (fun p d => f (p.feed word a d)) p).denote width = p.denote width ++ concat a digits ∧
        (digits.foldl (fun p d => f (p.feed word a d)) p).Tidy width ∧
        (digits.foldl (fun p d => f (p.feed word a d)) p).bits < width := by
    induction digits with
    | nil =>
      intro p htidy hbits
      exact ⟨(List.append_nil _).symm, htidy, hbits⟩
    | cons d digits ih =>
      intro p htidy hbits
      have hfed : (p.feed word a d).bits < width + a := Nat.add_lt_add_right hbits a
      obtain ⟨hdenote, htidy', hbits'⟩ := ih (fun e he => hd e (List.mem_cons_of_mem _ he))
        (f (p.feed word a d)) (hf.tidy _ htidy.feed) (hf.bits _ hfed)
      refine ⟨?_, htidy', hbits'⟩
      rw [List.foldl_cons, hdenote, hf.denote, denote_feed (Nat.le_of_lt_succ (hfed.trans_le hword))
        (hd d List.mem_cons_self), List.append_assoc]
      rfl
  exact hrun start (fun d h => absurd h List.not_mem_nil) hw

/-- The last bits, with zeroes after them, are one more digit. -/
def pad (word width : ℕ) (p : Packer) : List ℕ :=
  if 0 < p.bits then p.out ++ [(p.acc <<< (width - p.bits)) % 2 ^ word % 2 ^ width] else p.out

theorem concat_pad (hbits : p.bits < width) (hword : width ≤ word) :
    concat width (p.pad word width) =
      p.denote width ++ bitsOf (if 0 < p.bits then width - p.bits else 0) 0 := by
  unfold pad denote
  split
  · rw [concat_append, concat_cons, concat_nil, List.append_nil, bitsOf_mod le_rfl, bitsOf_mod hword,
      List.append_assoc, ← bitsOf_shiftLeft, Nat.add_sub_cancel' hbits.le]
  · next h =>
    rw [Nat.eq_zero_of_not_pos h]
    exact (List.append_nil _).symm.trans (List.append_nil _).symm

theorem Tidy.pad (h : p.Tidy width) : ∀ d ∈ p.pad word width, d < 2 ^ width := by
  unfold Packer.pad
  split
  · intro d hd
    rcases List.mem_append.mp hd with hd | hd
    · exact h d hd
    · rw [List.mem_singleton.mp hd]
      exact Nat.mod_lt _ (Nat.two_pow_pos width)
  · exact h

end Packer

end Lib.Bits
