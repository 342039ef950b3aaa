import UwuRdp.Core.Fetched

/-!
# Which answer belongs to which request

A request goes to the channel, which refuses it or sends it on, and the server answers what it got in
the order it got it. The answers carry no number. While at most one request is out, the answer that
comes is the one to it; a request that was given up is still out, so the next must not be sent before
its answer came: `Calm` says so, and `late_answer` what happens otherwise.
-/

namespace UwuRdp

open Lib

namespace Clipboard

open ClipboardBackend

/-- The backend, with the numbers of the requests on their way to the channel and of those the server
has, both in the order they were sent. -/
structure Exchange where
  backend : ClipboardBackend
  waiting : List ℕ
  server : List ℕ

inductive Move where
  | remoteCopy (formats : List ClipboardFormat)
  /-- The channel takes the next request, or refuses it. -/
  | send (accepted : Bool)
  /-- The server answers the oldest request it has. -/
  | answer (data : Option (List UInt8))
  | answerFileList (files : List FileDescriptor) (clipDataId : Option UInt32)
  | tick

namespace Exchange

def new : Exchange := ⟨ClipboardBackend.new, [], []⟩

/-- The backend is called; what it sends is on its way. -/
def call (x : Exchange) (e : ℕ × Event) : Exchange :=
  let backend := x.backend.step e
  let sent := backend.session.length - x.backend.session.length
  { x with backend := backend, waiting := x.waiting ++ List.range' x.backend.session.length sent }

def step (x : Exchange) (m : ℕ × Move) : Exchange :=
  match m with
  | (now, .remoteCopy formats) => x.call (now, .remoteCopy formats)
  | (now, .send accepted) =>
    match x.waiting with
    | [] => x
    | n :: waiting =>
      if accepted then { x with waiting := waiting, server := x.server ++ [n] }
      else { x with waiting := waiting }.call (now, .refused)
  | (now, .answer data) =>
    match x.server with
    | [] => x
    | _ :: server => { x with server := server }.call (now, .formatDataResponse data)
  | (now, .answerFileList files clipDataId) =>
    match x.server with
    | [] => x
    | _ :: server => { x with server := server }.call (now, .remoteFileList files clipDataId)
  | (now, .tick) => x.call (now, .tick)

def out (x : Exchange) : List ℕ := x.server ++ x.waiting

/-- The number of the request in flight: it is the last one sent. -/
def current (x : Exchange) : Option ℕ := x.backend.inFlight.map fun _ => x.backend.session.length - 1

def Stores (x : Exchange) (m : ℕ × Move) (wanted : Wanted) : Prop :=
  x.server ≠ [] ∧ x.backend.answered = some wanted ∧ (∃ data, m.2 = .answer (some data)) ∧
    ∀ id, wanted ≠ .fileList id

/-- No request is sent while one that was given up may still be answered. -/
def Calm (x : Exchange) (m : ℕ × Move) : Prop :=
  match m.2 with
  | .remoteCopy formats => x.backend.inFlight = none → x.out = [] ∨ wantedOf formats = []
  | .tick => x.backend.timedOut m.1 = true → x.backend.queue = []
  | _ => True

/-- At most one request is out: the one in flight, or one that was given up. -/
structure Aligned (x : Exchange) : Prop where
  inFlight : ∀ request sent, x.backend.inFlight = some (request, sent) →
    x.backend.session.getLast? = some request ∧ x.out = [x.backend.session.length - 1]
  idle : x.backend.inFlight = none → x.backend.queue = [] ∧ x.out.length ≤ 1

variable {x : Exchange} {b : ClipboardBackend} {now : ℕ}

theorem aligned_new : Aligned new where
  inFlight _ _ h := by cases h
  idle _ := ⟨rfl, Nat.zero_le 1⟩

theorem aligned_pump (hflight : b.inFlight = none) : Aligned
    ⟨b.pump now, [] ++ List.range' b.session.length ((b.pump now).session.length - b.session.length), []⟩ := by
  cases hqueue : b.queue with
  | nil =>
    rw [pump_idle hqueue, Nat.sub_self]
    exact ⟨fun r t h => (Option.some_ne_none _ (h.symm.trans hflight)).elim, fun _ => ⟨hqueue, Nat.zero_le 1⟩⟩
  | cons wanted queue =>
    rw [pump_next hflight hqueue]
    refine ⟨fun r t h => ?_, fun h => (Option.some_ne_none _ h).elim⟩
    cases h
    refine ⟨List.getLast?_concat, ?_⟩
    rw [List.length_append, List.length_singleton, Nat.add_sub_cancel_left, Nat.add_sub_cancel]
    rfl

theorem call_pump {e : ℕ × Event} (hstep : x.backend.step e = b.pump now) (hflight : b.inFlight = none)
    (hsession : b.session = x.backend.session) (hout : x.out = []) : Aligned (x.call e) := by
  obtain ⟨hserver, hwaiting⟩ := List.append_eq_nil_iff.mp hout
  have h := @aligned_pump _ now hflight
  unfold call
  rw [hserver, hwaiting, hstep, ← hsession]
  exact h

theorem formatDataResponse_eq (b : ClipboardBackend) (now : ℕ) (data : Option (List UInt8)) : ∃ b' : ClipboardBackend,
    b.onFormatDataResponse now data = b'.pump now ∧ b'.inFlight = none ∧ b'.session = b.session := by
  have hdeliver : ∀ b' : ClipboardBackend,
      b'.deliverIfComplete.inFlight = b'.inFlight ∧ b'.deliverIfComplete.session = b'.session := fun b' => by
    unfold deliverIfComplete
    split <;> exact ⟨rfl, rfl⟩
  unfold onFormatDataResponse
  split
  · exact ⟨_, rfl, rfl, rfl⟩
  · split
    · exact ⟨_, rfl, (hdeliver _).1, (hdeliver _).2⟩
    · exact ⟨_, rfl, (hdeliver _).1, (hdeliver _).2⟩

theorem remoteFileList_eq (b : ClipboardBackend) (now : ℕ) (files : List FileDescriptor)
    (clipDataId : Option UInt32) :
    ∃ b' : ClipboardBackend, b.onRemoteFileList now files clipDataId = b'.pump now ∧
      b'.inFlight = none ∧ b'.session = b.session := by
  unfold onRemoteFileList
  split
  · exact ⟨_, rfl, rfl, rfl⟩
  · exact ⟨_, rfl, rfl, rfl⟩

theorem Aligned.length_out (h : Aligned x) : x.out.length ≤ 1 := by
  cases hflight : x.backend.inFlight with
  | none => exact (h.idle hflight).2
  | some r =>
    rw [(h.inFlight r.1 r.2 hflight).2]
    exact le_rfl

theorem call_quiet {e : ℕ × Event} (h : Aligned x) (hflight : (x.backend.step e).inFlight = x.backend.inFlight)
    (hsession : (x.backend.step e).session = x.backend.session)
    (hqueue : x.backend.inFlight = none → (x.backend.step e).queue = []) : Aligned (x.call e) := by
  have hout : (x.call e).out = x.out := by
    unfold call out
    dsimp only
    rw [hsession, Nat.sub_self]
    exact congrArg _ (List.append_nil _)
  refine ⟨fun r t hr => ?_, fun hnone => ⟨hqueue (hflight.symm.trans hnone), ?_⟩⟩
  · have hlast := h.inFlight r t (hflight.symm.trans hr)
    rw [hout]
    show (x.backend.step e).session.getLast? = some r ∧ x.out = [(x.backend.step e).session.length - 1]
    rw [hsession]
    exact hlast
  · rw [hout]
    exact h.length_out

theorem Aligned.remoteCopy (h : Aligned x) {formats : List ClipboardFormat}
    (hm : Calm x (now, .remoteCopy formats)) : Aligned (x.call (now, .remoteCopy formats)) := by
  cases hflight : x.backend.inFlight with
  | none =>
    rcases hm hflight with hout | hwanted
    · exact call_pump rfl hflight rfl hout
    · have hidle : x.backend.step (now, .remoteCopy formats) = { x.backend with
          generation := x.backend.generation + 1, queue := wantedOf formats, content := .none,
          worker := x.backend.worker ++ [.remoteCopy] } := pump_idle hwanted
      refine call_quiet h ?_ ?_ fun _ => ?_
      · rw [hidle]
      · rw [hidle]
      · rw [hidle]
        exact hwanted
  | some r =>
    have hbusy : x.backend.step (now, .remoteCopy formats) = { x.backend with
        generation := x.backend.generation + 1, queue := wantedOf formats, content := .none,
        worker := x.backend.worker ++ [.remoteCopy] } := pump_busy hflight
    refine call_quiet h ?_ ?_ fun hnone => ?_
    · rw [hbusy]
    · rw [hbusy]
    · cases hflight.symm.trans hnone

theorem Aligned.tick (h : Aligned x) (hm : Calm x (now, .tick)) : Aligned (x.call (now, .tick)) := by
  by_cases hout : x.backend.timedOut now = true
  · -- The request that is given up stays out.
    have hqueue := hm hout
    have hstep : x.backend.step (now, .tick) = { x.backend with inFlight := none } := by
      show ClipboardBackend.tick x.backend now = _
      unfold ClipboardBackend.tick
      rw [if_pos hout]
      exact pump_idle hqueue
    have hsame : (x.call (now, .tick)).out = x.out := by
      unfold call out
      dsimp only
      rw [hstep, Nat.sub_self]
      exact congrArg _ (List.append_nil _)
    refine ⟨fun r t hr => ?_, fun _ => ⟨?_, hsame ▸ h.length_out⟩⟩
    · have hr : (x.backend.step (now, .tick)).inFlight = some (r, t) := hr
      rw [hstep] at hr
      cases hr
    · show (x.backend.step (now, .tick)).queue = []
      rw [hstep]
      exact hqueue
  · have hstep : x.backend.step (now, .tick) = x.backend := if_neg hout
    refine call_quiet h ?_ ?_ fun hnone => ?_
    · rw [hstep]
    · rw [hstep]
    · rw [hstep]
      exact (h.idle hnone).1

theorem out_tail {n : ℕ} {rest : List ℕ} (h : (n :: rest).length ≤ 1) : rest = [] :=
  List.length_eq_zero_iff.mp (Nat.le_zero.mp (Nat.le_of_succ_le_succ h))

theorem aligned_step (h : Aligned x) {m : ℕ × Move} (hm : Calm x m) : Aligned (x.step m) := by
  obtain ⟨now, m⟩ := m
  have hlength := h.length_out
  cases m with
  | remoteCopy formats => exact h.remoteCopy hm
  | tick => exact h.tick hm
  | send accepted =>
    unfold step
    cases hwaiting : x.waiting with
    | nil => exact h
    | cons n waiting =>
      dsimp only
      cases accepted with
      | true =>
        have hout : (Exchange.mk x.backend waiting (x.server ++ [n])).out = x.out := by
          unfold out
          rw [hwaiting, List.append_assoc]
          rfl
        refine ⟨fun r t hr => ?_, fun hnone => ?_⟩
        · rw [if_pos rfl, hout]
          exact h.inFlight r t hr
        · rw [if_pos rfl, hout]
          exact h.idle hnone
      | false =>
        have hserver : x.server = [] ∧ waiting = [] := by
          unfold out at hlength
          rw [hwaiting, List.length_append, List.length_cons] at hlength
          exact ⟨List.length_eq_zero_iff.mp (by omega), List.length_eq_zero_iff.mp (by omega)⟩
        refine call_pump (b := { x.backend with inFlight := none }) rfl rfl rfl ?_
        show x.server ++ waiting = []
        rw [hserver.1, hserver.2, List.nil_append]
  | answer data =>
    unfold step
    cases hserver : x.server with
    | nil => exact h
    | cons n server =>
      obtain ⟨b', hstep, hflight, hsession⟩ := formatDataResponse_eq x.backend now data
      unfold out at hlength
      rw [hserver] at hlength
      exact call_pump hstep hflight hsession (out_tail hlength)
  | answerFileList files clipDataId =>
    unfold step
    cases hserver : x.server with
    | nil => exact h
    | cons n server =>
      obtain ⟨b', hstep, hflight, hsession⟩ := remoteFileList_eq x.backend now files clipDataId
      unfold out at hlength
      rw [hserver] at hlength
      exact call_pump hstep hflight hsession (out_tail hlength)

/-! ## What is stored -/

/-- As long as nothing is sent while an answer is owed to a request that was given up, an answer is
stored only where it is the answer to the request in flight, which was made for just that in the
current copy. -/
theorem answers_attributed (moves first later : List (ℕ × Move)) (m : ℕ × Move) (wanted : Wanted)
    (hcalm : Steps.Along step Calm new moves) (hrun : moves = first ++ m :: later)
    (h : Stores (Steps.run step new first) m wanted) : ∃ n server, (Steps.run step new first).server = n :: server ∧
    (Steps.run step new first).current = some n ∧ (Steps.run step new first).backend.session[n]? = some
    ⟨(Steps.run step new first).backend.generation, wanted⟩ := by
  subst hrun
  have haligned := hcalm.before.invariant aligned_new fun _ _ hx hm => aligned_step hx hm
  obtain ⟨hserver, hanswered, -, -⟩ := h
  obtain ⟨n, server, hn⟩ := List.exists_cons_of_ne_nil hserver
  obtain ⟨r, t, hflight, hgen, hwanted⟩ := answered_eq_some hanswered
  obtain ⟨hlast, hout⟩ := haligned.inFlight r t hflight
  unfold out at hout
  rw [hn, List.cons_append] at hout
  have hnum := (List.cons.inj hout).1
  refine ⟨n, server, hn, ?_, ?_⟩
  · unfold current
    rw [hflight, hnum]
    rfl
  · rw [hnum, ← List.getLast?_eq_getElem?, hlast, ← hgen, ← hwanted]

/-- A text is fetched. -/
theorem answers_attributed_text : ∃ n server,
    (Steps.run step new [(0, .remoteCopy [⟨cfUnicodetext, none⟩]), (1, .send true)]).server = n :: server ∧
    (Steps.run step new [(0, .remoteCopy [⟨cfUnicodetext, none⟩]), (1, .send true)]).current = some n ∧
    (Steps.run step new [(0, .remoteCopy [⟨cfUnicodetext, none⟩]), (1, .send true)]).backend.session[n]? = some
    ⟨(Steps.run step new [(0, .remoteCopy [⟨cfUnicodetext, none⟩]), (1, .send true)]).backend.generation, .text⟩ :=
  answers_attributed
    [(0, .remoteCopy [⟨cfUnicodetext, none⟩]), (1, .send true), (2, .answer (some [0x41, 0]))]
    [(0, .remoteCopy [⟨cfUnicodetext, none⟩]), (1, .send true)] [] (2, .answer (some [0x41, 0])) .text
    ⟨fun _ => .inl rfl, trivial, trivial, trivial⟩ rfl
    ⟨by decide, by decide, ⟨_, rfl⟩, fun _ h => by cases h⟩

/-- A request is given up, another copy is made, and then the answer to the first one comes: it is
stored as the text of the second. -/
theorem late_answer :
    ¬∀ (first : List (ℕ × Move)) (m : ℕ × Move) (wanted : Wanted),
      Stores (Steps.run step new first) m wanted →
        ∃ n server, (Steps.run step new first).server = n :: server ∧
          (Steps.run step new first).current = some n ∧
          (Steps.run step new first).backend.session[n]? =
            some ⟨(Steps.run step new first).backend.generation, wanted⟩ := by
  intro hall
  obtain ⟨n, server, hn, hcurrent, -⟩ := hall
    [(0, .remoteCopy [⟨cfUnicodetext, none⟩]), (1, .send true), (15000, .tick),
      (15001, .remoteCopy [⟨cfUnicodetext, none⟩]), (15002, .send true)]
    (15003, .answer (some [0x41, 0])) .text
    ⟨by decide, by decide, ⟨_, rfl⟩, fun _ h => by cases h⟩
  obtain rfl := (List.cons.inj hn).1
  exact absurd hcurrent (by decide)

end Exchange

end Clipboard

end UwuRdp
