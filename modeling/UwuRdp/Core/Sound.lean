import UwuRdp.Lib.Newest
import Mathlib.Data.UInt

/-!
# Sound on its way to the device

The session pushes waves into a queue, the device's callback pulls from it. The queue holds whole sample frames and
drops its oldest rather than grow past its capacity. What the session sent is one stream of frames with a place
up to which the device has read; the queue is the newest of what lies behind that place.
-/

namespace UwuRdp

open Lib

/-- A byte queue of whole sample frames. -/
structure Pcm where
  bytes : List UInt8
  capacity : ℕ
  frame : ℕ
  frame_pos : 0 < frame
  frame_dvd : frame ∣ capacity

/-- What happens to the queue: a wave of the session, or a buffer of the device to fill. -/
inductive SoundOp where
  | push (data : List UInt8)
  | pull (room : ℕ) (silence : UInt8)
deriving DecidableEq

namespace Pcm

def new (capacity frame : ℕ) : Pcm where
  bytes := []
  capacity := max (capacity - capacity % max frame 1) (max frame 1)
  frame := max frame 1
  frame_pos := Nat.lt_of_lt_of_le Nat.one_pos (Nat.le_max_right _ _)
  frame_dvd := by
    rcases Nat.le_total (capacity - capacity % max frame 1) (max frame 1) with h | h
    · rw [Nat.max_eq_right h]
    · rw [Nat.max_eq_left h]
      exact Nat.dvd_sub_mod capacity

def wholeLen (frame : ℕ) (data : List UInt8) : ℕ := data.length - data.length % frame

def push (q : Pcm) (data : List UInt8) : Pcm :=
  let whole := wholeLen q.frame data
  -- More than fits on its own: only its newest part can still play.
  let data := (data.take whole).drop (whole - q.capacity)
  let bytes := q.bytes ++ data
  { q with bytes := bytes.drop (bytes.length - q.capacity) }

/-- Fills a buffer from the front of the queue, and with `silence` where the queue runs dry. -/
def pull (q : Pcm) (room : ℕ) (silence : UInt8) : List UInt8 × Pcm :=
  let n := min q.bytes.length room
  (q.bytes.take n ++ List.replicate (room - n) silence, { q with bytes := q.bytes.drop n })

def act (q : Pcm) : SoundOp → Pcm
  | .push data => q.push data
  | .pull room silence => (q.pull room silence).2

def run (q : Pcm) (ops : List SoundOp) : Pcm := ops.foldl act q

end Pcm

/-! ## The stream -/

/-- What the session sent, in whole frames, and the place just behind the last byte that was pulled. -/
structure Tape where
  stream : List UInt8
  read : ℕ
deriving DecidableEq

namespace Tape

variable {frame capacity : ℕ} {t : Tape}

def waiting (capacity : ℕ) (t : Tape) : List UInt8 := newest capacity (t.stream.drop t.read)

/-- A pull that gets nothing leaves the place where it is. -/
def act (frame capacity : ℕ) (t : Tape) : SoundOp → Tape
  | .push data => { t with stream := t.stream ++ data.take (Pcm.wholeLen frame data) }
  | .pull room _ =>
    let n := min (t.waiting capacity).length room
    if n = 0 then t else { t with read := t.stream.length - (t.waiting capacity).length + n }

def run (frame capacity : ℕ) (ops : List SoundOp) : Tape := ops.foldl (act frame capacity) ⟨[], 0⟩

def sent (frame : ℕ) (ops : List SoundOp) : List UInt8 :=
  ops.flatMap fun
    | .push data => data.take (Pcm.wholeLen frame data)
    | .pull _ _ => []

/-- A place between two frames, up to the end. -/
structure Even (frame : ℕ) (t : Tape) : Prop where
  stream : frame ∣ t.stream.length
  read : frame ∣ t.read
  inside : t.read ≤ t.stream.length

theorem length_waiting (capacity : ℕ) (t : Tape) :
    (t.waiting capacity).length = min capacity (t.stream.length - t.read) := by
  rw [waiting, length_newest, List.length_drop]

theorem waiting_eq (h : t.read ≤ t.stream.length) :
    t.waiting capacity = t.stream.drop (t.stream.length - (t.waiting capacity).length) := by
  have hlen := length_waiting capacity t
  conv_lhs => unfold waiting newest
  rw [List.drop_drop, List.length_drop, hlen]
  congr 1
  omega

theorem dvd_wholeLen (frame : ℕ) (data : List UInt8) : frame ∣ Pcm.wholeLen frame data := Nat.dvd_sub_mod data.length

theorem length_whole (frame : ℕ) (data : List UInt8) :
    (data.take (Pcm.wholeLen frame data)).length = Pcm.wholeLen frame data := by
  rw [List.length_take]
  exact Nat.min_eq_left (Nat.sub_le _ _)

theorem Even.dvd_waiting (h : t.Even frame) (hcapacity : frame ∣ capacity) : frame ∣ (t.waiting capacity).length := by
  rw [length_waiting]
  rcases Nat.le_total capacity (t.stream.length - t.read) with hle | hge
  · rwa [Nat.min_eq_left hle]
  · rw [Nat.min_eq_right hge]
    exact Nat.dvd_sub h.stream h.read

end Tape

/-! ## The queue is the newest of the stream -/

namespace Pcm

variable {q : Pcm} {t : Tape}

/-- The queue and the stream it comes from. -/
structure Plays (q : Pcm) (t : Tape) : Prop where
  content : q.bytes = t.waiting q.capacity
  even : t.Even q.frame

def Whole (frame : ℕ) : SoundOp → Prop
  | .push _ => True
  | .pull room _ => frame ∣ room

theorem Plays.length_le (h : q.Plays t) : q.bytes.length ≤ q.capacity := by
  rw [h.content, Tape.length_waiting]
  exact Nat.min_le_left _ _

theorem Plays.dvd_length (h : q.Plays t) : q.frame ∣ q.bytes.length := by
  rw [h.content]
  exact h.even.dvd_waiting q.frame_dvd

theorem Plays.push (h : q.Plays t) (data : List UInt8) :
    (q.push data).Plays (t.act q.frame q.capacity (.push data)) := by
  have hbytes : (q.push data).bytes = newest q.capacity (q.bytes ++ data.take (wholeLen q.frame data)) := by
    rw [← newest_append_newest]
    unfold Pcm.push newest
    dsimp only
    rw [Tape.length_whole]
  refine ⟨?_, ⟨?_, h.even.read, ?_⟩⟩
  · rw [hbytes, h.content]
    show _ = newest q.capacity ((t.stream ++ data.take (wholeLen q.frame data)).drop t.read)
    rw [List.drop_append_of_le_length h.even.inside]
    exact newest_newest_append _ _ _
  · show q.frame ∣ (t.stream ++ data.take (wholeLen q.frame data)).length
    rw [List.length_append, Tape.length_whole]
    exact Nat.dvd_add h.even.stream (Tape.dvd_wholeLen _ _)
  · show t.read ≤ (t.stream ++ data.take (wholeLen q.frame data)).length
    rw [List.length_append]
    exact Nat.le_add_right_of_le h.even.inside

theorem Plays.pull (h : q.Plays t) {room : ℕ} (silence : UInt8) (hroom : q.frame ∣ room) :
    (q.pull room silence).2.Plays (t.act q.frame q.capacity (.pull room silence)) := by
  have hdvd := h.even.dvd_waiting q.frame_dvd
  have hlen := Tape.length_waiting q.capacity t
  have hinside := h.even.inside
  have hn : q.frame ∣ min (t.waiting q.capacity).length room := by
    rcases Nat.le_total (t.waiting q.capacity).length room with hle | hge
    · rwa [Nat.min_eq_left hle]
    · rwa [Nat.min_eq_right hge]
  have hbytes : (q.pull room silence).2.bytes =
      (t.waiting q.capacity).drop (min (t.waiting q.capacity).length room) := by
    unfold Pcm.pull
    rw [h.content]
  show Plays _ (if min (t.waiting q.capacity).length room = 0 then t else _)
  split
  · next hzero =>
    refine ⟨?_, h.even⟩
    rw [hbytes, hzero, List.drop_zero]
    rfl
  · refine ⟨?_, ⟨h.even.stream, ?_, ?_⟩⟩
    · rw [hbytes]
      generalize min (t.waiting q.capacity).length room = n at *
      show _ = newest q.capacity (t.stream.drop (t.stream.length - (t.waiting q.capacity).length + n))
      rw [newest_of_le (by rw [List.length_drop]; omega), ← List.drop_drop, ← Tape.waiting_eq hinside]
    · exact Nat.dvd_add (Nat.dvd_sub h.even.stream hdvd) hn
    · show t.stream.length - (t.waiting q.capacity).length + _ ≤ t.stream.length
      have hle := Nat.min_le_left (t.waiting q.capacity).length room
      omega

theorem Plays.act (h : q.Plays t) {op : SoundOp} (hop : Whole q.frame op) :
    (q.act op).Plays (t.act q.frame q.capacity op) := by
  cases op with
  | push data => exact h.push data
  | pull room silence => exact h.pull silence hop

theorem act_settings (q : Pcm) (op : SoundOp) : (q.act op).frame = q.frame ∧ (q.act op).capacity = q.capacity := by
  cases op <;> exact ⟨rfl, rfl⟩

theorem run_settings (q : Pcm) (ops : List SoundOp) :
    (q.run ops).frame = q.frame ∧ (q.run ops).capacity = q.capacity := by
  induction ops generalizing q with
  | nil => exact ⟨rfl, rfl⟩
  | cons op ops ih =>
    obtain ⟨hframe, hcapacity⟩ := act_settings q op
    obtain ⟨hframe', hcapacity'⟩ := ih (q.act op)
    exact ⟨hframe'.trans hframe, hcapacity'.trans hcapacity⟩

theorem Plays.run {ops : List SoundOp} (h : q.Plays t) (hops : ∀ op ∈ ops, Whole q.frame op) :
    (q.run ops).Plays (ops.foldl (Tape.act q.frame q.capacity) t) := by
  induction ops generalizing q t with
  | nil => exact h
  | cons op ops ih =>
    obtain ⟨hframe, hcapacity⟩ := act_settings q op
    have hrest := ih (h.act (hops op List.mem_cons_self)) fun op' hop' =>
      hframe ▸ hops op' (List.mem_cons_of_mem _ hop')
    rw [hframe, hcapacity] at hrest
    exact hrest

theorem plays_new (capacity frame : ℕ) : (new capacity frame).Plays ⟨[], 0⟩ where
  content := (List.drop_nil (i := 0 - (new capacity frame).capacity)).symm
  even := ⟨Nat.dvd_zero _, Nat.dvd_zero _, Nat.le_refl 0⟩

/-! ## Where a byte was pushed -/

theorem stream_run (frame capacity : ℕ) (ops : List SoundOp) :
    (Tape.run frame capacity ops).stream = Tape.sent frame ops := by
  have hact : ∀ (ops : List SoundOp) (t : Tape),
      (ops.foldl (Tape.act frame capacity) t).stream = t.stream ++ Tape.sent frame ops := by
    intro ops
    induction ops with
    | nil => exact fun t => (List.append_nil _).symm
    | cons op ops ih =>
      intro t
      rw [List.foldl_cons, ih]
      cases op with
      | push data => exact List.append_assoc ..
      | pull room silence =>
        show (if _ then t else _).stream ++ _ = _
        split <;> rfl
  exact hact ops ⟨[], 0⟩

theorem dvd_length_sent_one (frame : ℕ) (op : SoundOp) : frame ∣ (Tape.sent frame [op]).length := by
  cases op with
  | push data =>
    show frame ∣ (data.take (wholeLen frame data) ++ []).length
    rw [List.append_nil, Tape.length_whole]
    exact Tape.dvd_wholeLen frame data
  | pull room silence => exact Nat.dvd_zero frame

theorem sent_cons (frame : ℕ) (op : SoundOp) (ops : List SoundOp) :
    Tape.sent frame (op :: ops) = Tape.sent frame [op] ++ Tape.sent frame ops := by
  rw [Tape.sent, List.flatMap_cons, Tape.sent, List.flatMap_singleton]
  rfl

theorem exists_push {frame p : ℕ} {ops : List SoundOp} (hp : p < (Tape.sent frame ops).length) : ∃ before data after
    j, ops = before ++ .push data :: after ∧ p = (Tape.sent frame before).length + j ∧ (Tape.sent frame ops)[p]? =
    data[j]? ∧ j < data.length ∧ j % frame = p % frame := by
  induction ops generalizing p with
  | nil => exact absurd hp (Nat.not_lt_zero p)
  | cons op ops ih =>
    have hone := dvd_length_sent_one frame op
    rw [sent_cons, List.length_append] at hp
    rcases Nat.lt_or_ge p (Tape.sent frame [op]).length with hlt | hge
    · cases op with
      | pull room silence => exact absurd hlt (Nat.not_lt_zero p)
      | push data =>
        have hwhole : Tape.sent frame [.push data] = data.take (wholeLen frame data) := List.append_nil _
        rw [hwhole, Tape.length_whole] at hlt
        refine ⟨[], data, ops, p, rfl, (Nat.zero_add p).symm, ?_, hlt.trans_le (Nat.sub_le _ _), rfl⟩
        rw [sent_cons, hwhole, List.getElem?_append_left (by rwa [Tape.length_whole]), List.getElem?_take_of_lt hlt]
    · obtain ⟨before, data, after, j, rfl, hplace, hbyte, hj, hoffset⟩ :=
        @ih (p - (Tape.sent frame [op]).length) (by omega)
      refine ⟨op :: before, data, after, j, rfl, ?_, ?_, hj, ?_⟩
      · rw [sent_cons, List.length_append]
        omega
      · rw [sent_cons, List.getElem?_append_right hge, hbyte]
      · obtain ⟨k, hk⟩ := hone
        rw [hk] at hoffset hge
        rw [hoffset, Nat.sub_mul_mod hge]

/-- The queue keeps whole frames, the newest of what was pushed and not yet pulled, and gives each byte at the
offset in its frame at which it was pushed; where it runs dry the device plays silence. -/
theorem keeps_newest (capacity frame : ℕ) (ops : List SoundOp)
    (hops : ∀ op ∈ ops, Whole (new capacity frame).frame op) :
    let q := (new capacity frame).run ops
    let t := Tape.run q.frame q.capacity ops
    q.frame = max frame 1 ∧ q.capacity = max (capacity - capacity % q.frame) q.frame ∧
      q.bytes.length ≤ q.capacity ∧ q.frame ∣ q.bytes.length ∧
      t.stream = Tape.sent q.frame ops ∧ LongestEnd q.capacity (t.stream.drop t.read) q.bytes ∧
      ∀ room silence, q.frame ∣ room →
        (q.pull room silence).1.length = room ∧
        (∀ i < min q.bytes.length room, ∃ before data after j, ops = before ++ .push data :: after ∧
          (Tape.sent q.frame before).length + j = t.stream.length - q.bytes.length + i ∧
          (q.pull room silence).1[i]? = data[j]? ∧ j < data.length ∧ j % q.frame = i % q.frame) ∧
        ∀ i, min q.bytes.length room ≤ i → i < room → (q.pull room silence).1[i]? = some silence := by
  obtain ⟨hframe, hcapacity⟩ := run_settings (new capacity frame) ops
  have hplays := (plays_new capacity frame).run hops
  intro q t
  have ht : ops.foldl (Tape.act (new capacity frame).frame (new capacity frame).capacity) ⟨[], 0⟩ = t := by
    rw [← hframe, ← hcapacity]
    rfl
  rw [ht] at hplays
  have hstream : t.stream = Tape.sent q.frame ops := stream_run _ _ ops
  have hbytes : q.bytes = t.waiting q.capacity := hplays.content
  have hwaiting := @Tape.waiting_eq q.capacity t hplays.even.inside
  have hlen := Tape.length_waiting q.capacity t
  rw [← hbytes] at hwaiting hlen
  refine ⟨hframe, ?_, hplays.length_le, hplays.dvd_length, hstream, ?_, fun room silence hroom => ?_⟩
  · rw [hcapacity, hframe]
    rfl
  · rw [hbytes]
    exact longestEnd_newest _ _
  have hsize : q.bytes.length ≤ t.stream.length := by omega
  refine ⟨?_, fun i hi => ?_, fun i hlow hhigh => ?_⟩
  · show (q.bytes.take _ ++ List.replicate _ silence).length = room
    rw [List.length_append, List.length_take, List.length_replicate]
    omega
  · have hat : t.stream.length - q.bytes.length + i < (Tape.sent q.frame ops).length := by
      rw [← hstream]
      omega
    obtain ⟨before, data, after, j, hsplit, hplace, hbyte, hj, hoffset⟩ := exists_push hat
    refine ⟨before, data, after, j, hsplit, hplace.symm, ?_, hj, ?_⟩
    · show (q.bytes.take _ ++ List.replicate _ silence)[i]? = _
      rw [List.getElem?_append_left (by rw [List.length_take]; omega), List.getElem?_take_of_lt hi, ← hbyte,
        ← hstream, ← List.getElem?_drop, ← hwaiting]
    · obtain ⟨k, hk⟩ : q.frame ∣ t.stream.length - q.bytes.length := Nat.dvd_sub hplays.even.stream hplays.dvd_length
      rw [hoffset, hk, Nat.mul_add_mod]
  · show (q.bytes.take _ ++ List.replicate _ silence)[i]? = _
    rw [List.getElem?_append_right (by rw [List.length_take]; omega), List.length_take,
      List.getElem?_replicate_of_lt (by omega)]

/-- Two frames are too many for the queue, half a frame is not sent. -/
theorem keeps_newest_overflowing :
    let q := (new 8 4).run [.push [1, 2, 3, 4, 5, 6], .push [7, 8, 9, 10, 11, 12, 13, 14, 15, 16, 17, 18], .pull 4 0]
    q.bytes = [15, 16, 17, 18] ∧ q.frame ∣ q.bytes.length := by
  refine ⟨by decide, ?_⟩
  have hwhole : ∀ op ∈ [SoundOp.push [1, 2, 3, 4, 5, 6],
      .push [7, 8, 9, 10, 11, 12, 13, 14, 15, 16, 17, 18], .pull 4 0], Whole (new 8 4).frame op := by
    intro op hop
    rcases List.mem_cons.mp hop with rfl | hop
    · trivial
    rcases List.mem_cons.mp hop with rfl | hop
    · trivial
    obtain rfl := List.mem_singleton.mp hop
    exact ⟨1, rfl⟩
  exact (keeps_newest 8 4 _ hwhole).2.2.2.1

end Pcm

end UwuRdp
