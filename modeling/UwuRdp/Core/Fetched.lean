import UwuRdp.Core.Clipboard
import UwuRdp.Lib.Steps

/-!
# What is fetched is handed over

A copy of text with HTML is fetched in two requests, and handed to the worker when the second is
answered. A second request that ends otherwise (it was given up, refused, or answered with a list of
files) ends without that, and the text stays behind until the next copy drops it. `handed_iff` says
that nothing else goes wrong.
-/

namespace UwuRdp

open Lib

namespace Clipboard

open ClipboardBackend

/-! ## What was fetched -/

/-- The backend, with what was fetched for the current copy. -/
structure Fetching where
  backend : ClipboardBackend
  fetched : RemoteContent

def noteFetched (b : ClipboardBackend) (fetched : RemoteContent) : Event → RemoteContent
  | .remoteCopy _ => .none
  | .formatDataResponse (some data) =>
    match b.answered with
    | some wanted => accept wanted data fetched
    | none => fetched
  | _ => fetched

def Fetching.step (f : Fetching) (e : ℕ × Event) : Fetching :=
  ⟨f.backend.step e, noteFetched f.backend f.fetched e.2⟩

def Fetching.new : Fetching := ⟨ClipboardBackend.new, .none⟩

/-- What the worker was sent to store since the last copy. -/
def stores (msgs : List WorkerMsg) : List RemoteContent :=
  msgs.foldl (fun contents m => match m with
    | .remoteCopy => []
    | .store content => contents ++ [content]
    | .remoteFiles _ _ => contents) []

variable {msgs : List WorkerMsg} {b : ClipboardBackend} {f : Fetching} {now : ℕ}

@[simp] theorem stores_remoteCopy : stores (msgs ++ [.remoteCopy]) = [] := List.foldl_concat ..

@[simp] theorem stores_store (content : RemoteContent) :
    stores (msgs ++ [.store content]) = stores msgs ++ [content] := List.foldl_concat ..

@[simp] theorem stores_remoteFiles (files : List FileDescriptor) (clipDataId : Option UInt32) :
    stores (msgs ++ [.remoteFiles files clipDataId]) = stores msgs := List.foldl_concat ..

/-- With nothing to wait for, what was fetched is with the worker, in one piece; HTML whose text never
came is no content. -/
structure Handed (f : Fetching) : Prop where
  empty : f.backend.content.isEmpty = true
  rest : f.backend.content = if f.fetched.isEmpty then f.fetched else .none
  stored : stores f.backend.worker = if f.fetched.isEmpty then [] else [f.fetched]

def Idle (b : ClipboardBackend) : Prop := b.inFlight = none ∧ b.queue = []

instance (b : ClipboardBackend) : Decidable (Idle b) := inferInstanceAs (Decidable (_ ∧ _))

/-- While something is fetched, what is still in flight ends with an answer. -/
def EndsAnswered (f : Fetching) (e : ℕ × Event) : Prop :=
  f.backend.content.isEmpty = false →
    match e.2 with
    | .tick => f.backend.timedOut e.1 = false
    | .refused | .remoteFileList _ _ => False
    | .remoteCopy _ | .formatDataResponse _ => True

/-! ## What holds until then -/

/-- What may be left to ask for: one thing, or a text with its HTML. -/
inductive Left : List Wanted → Prop
  | nil : Left []
  | one (wanted : Wanted) : Left [wanted]
  | html (id : FormatId) : Left [.text, .html id]

theorem left_wantedOf (formats : List ClipboardFormat) : Left (wantedOf formats) := by
  unfold wantedOf
  dsimp only
  split
  · exact .one _
  · split
    · split
      · exact .html _
      · exact .one _
    · split
      · exact .one _
      · split
        · exact .one _
        · exact .nil

variable {wanted : Wanted} {queue : List Wanted}

theorem Left.tail (h : Left (wanted :: queue)) : queue = [] ∨ ∃ w, queue = [w] := by
  cases h with
  | one => exact .inl rfl
  | html id => exact .inr ⟨_, rfl⟩

theorem left_of_tail (h : queue = [] ∨ ∃ w, queue = [w]) : Left queue := by
  rcases h with rfl | ⟨w, rfl⟩
  · exact .nil
  · exact .one w

def Kept (f : Fetching) : Prop := stores f.backend.worker = [] ∧ f.backend.content = f.fetched

def Delivered (f : Fetching) : Prop :=
  stores f.backend.worker = [f.fetched] ∧ f.fetched.isEmpty = false ∧ f.backend.content = .none

/-- Between what was in flight and what is next. -/
structure Ready (f : Fetching) : Prop where
  inFlight : f.backend.inFlight = none
  left : Left f.backend.queue
  content : (Kept f ∧ (f.backend.content.isEmpty = false → ∃ w, f.backend.queue = [w])) ∨
    (Delivered f ∧ f.backend.queue = [])

/-- What holds between events. -/
structure Sound (f : Fetching) : Prop where
  idle : f.backend.inFlight = none → f.backend.queue = []
  current : ∀ request sent, f.backend.inFlight = some (request, sent) →
    request.generation = f.backend.generation → Left (request.wanted :: f.backend.queue) ∧ Kept f ∧
      (f.backend.content.isEmpty = false → f.backend.queue = [])
  stale : ∀ request sent, f.backend.inFlight = some (request, sent) →
    request.generation ≠ f.backend.generation → request.generation < f.backend.generation ∧
      Left f.backend.queue ∧ Kept f ∧ f.fetched = .none
  done : f.backend.inFlight = none → Delivered f ∨ (Kept f ∧ f.fetched.isEmpty = true)

theorem pump_idle (h : b.queue = []) : b.pump now = b := by
  unfold pump
  split
  · next hqueue =>
    rw [h] at hqueue
    cases hqueue
  · rfl

theorem pump_busy {r : Request × ℕ} (h : b.inFlight = some r) : b.pump now = b := by
  unfold pump
  rw [h]

theorem pump_next (h : b.inFlight = none)
    (hqueue : b.queue = wanted :: queue) :
    b.pump now = { b with
      queue := queue
      inFlight := some (⟨b.generation, wanted⟩, now)
      session := b.session ++ [⟨b.generation, wanted⟩] } := by
  unfold pump
  rw [h, hqueue]

theorem Ready.pump (h : Ready f) : Sound ⟨f.backend.pump now, f.fetched⟩ := by
  obtain ⟨hflight, hleft, hcontent⟩ := h
  cases hqueue : f.backend.queue with
  | nil =>
    rw [pump_idle hqueue]
    refine ⟨fun _ => hqueue, fun r t h => ?_, fun r t h => ?_, fun _ => ?_⟩
    · cases hflight.symm.trans h
    · cases hflight.symm.trans h
    · rcases hcontent with ⟨hkept, hnext⟩ | ⟨hdone, -⟩
      · refine .inr ⟨hkept, ?_⟩
        by_contra hne
        rw [← hkept.2] at hne
        obtain ⟨w, hw⟩ := hnext (Bool.eq_false_iff.mpr hne)
        cases hqueue.symm.trans hw
      · exact .inl hdone
  | cons wanted queue =>
    rw [pump_next hflight hqueue]
    rw [hqueue] at hleft hcontent
    obtain ⟨hkept, hnext⟩ := hcontent.resolve_right fun h => List.cons_ne_nil _ _ h.2
    refine ⟨fun h => (Option.some_ne_none _ h).elim, fun r t h _ => ?_, fun r t h hne => ?_,
      fun h => (Option.some_ne_none _ h).elim⟩
    · cases h
      refine ⟨hleft, hkept, fun hfull => ?_⟩
      obtain ⟨w, hw⟩ := hnext hfull
      exact (List.cons.inj hw).2
    · cases h
      exact absurd rfl hne

theorem Sound.ends (h : Sound f) (hempty : f.backend.content.isEmpty = true) :
    Ready ⟨{ f.backend with inFlight := none }, f.fetched⟩ := by
  have hkept : Kept f → Kept ⟨{ f.backend with inFlight := none }, f.fetched⟩ := id
  have hfull : f.backend.content.isEmpty = false → ∃ w, f.backend.queue = [w] := fun hf => by
    rw [hempty] at hf
    cases hf
  cases hflight : f.backend.inFlight with
  | none =>
    have hqueue := h.idle hflight
    refine ⟨rfl, hqueue ▸ Left.nil, ?_⟩
    rcases h.done hflight with hdone | ⟨hk, -⟩
    · exact .inr ⟨hdone, hqueue⟩
    · exact .inl ⟨hk, hfull⟩
  | some r =>
    by_cases hgen : r.1.generation = f.backend.generation
    · obtain ⟨hleft, hk, -⟩ := h.current r.1 r.2 hflight hgen
      exact ⟨rfl, left_of_tail hleft.tail, .inl ⟨hk, hfull⟩⟩
    · obtain ⟨-, hleft, hk, -⟩ := h.stale r.1 r.2 hflight hgen
      exact ⟨rfl, hleft, .inl ⟨hk, hfull⟩⟩

theorem Sound.remoteCopy (h : Sound f) (formats : List ClipboardFormat) :
    Sound (f.step (now, .remoteCopy formats)) := by
  have hstores : stores (f.backend.worker ++ [.remoteCopy]) = [] := stores_remoteCopy
  cases hflight : f.backend.inFlight with
  | none =>
    refine Ready.pump (f := ⟨{ f.backend with
      generation := f.backend.generation + 1, queue := wantedOf formats, content := .none,
      worker := f.backend.worker ++ [.remoteCopy] }, .none⟩) ⟨hflight, left_wantedOf formats, .inl ?_⟩
    exact ⟨⟨hstores, rfl⟩, fun hfull => Bool.noConfusion hfull⟩
  | some r =>
    have hold : r.1.generation < f.backend.generation + 1 := by
      by_cases hgen : r.1.generation = f.backend.generation
      · omega
      · have := (h.stale r.1 r.2 hflight hgen).1
        omega
    have hbusy : f.backend.onRemoteCopy now formats = { f.backend with
        generation := f.backend.generation + 1, queue := wantedOf formats, content := .none,
        worker := f.backend.worker ++ [.remoteCopy] } := pump_busy hflight
    show Sound ⟨f.backend.onRemoteCopy now formats, .none⟩
    rw [hbusy]
    refine ⟨fun hnone => ?_, fun q t hq hgen => ?_, fun q t hq _ => ?_, fun hnone => ?_⟩
    · cases hflight.symm.trans hnone
    · cases hflight.symm.trans hq
      exact absurd hgen (Nat.ne_of_lt hold)
    · cases hflight.symm.trans hq
      exact ⟨hold, left_wantedOf formats, ⟨hstores, rfl⟩, rfl⟩
    · cases hflight.symm.trans hnone

theorem Sound.not_answered (h : Sound f) (hnone : f.backend.answered = none) : f.backend.content.isEmpty = true := by
  unfold answered at hnone
  split at hnone
  · next r t hflight =>
    split at hnone
    · cases hnone
    · next hgen =>
      obtain ⟨-, -, hkept, hfetched⟩ := h.stale r t hflight hgen
      rw [hkept.2, hfetched]
      rfl
  · next hflight =>
    rcases h.done hflight with ⟨-, -, hdone⟩ | ⟨hkept, hempty⟩
    · rw [hdone]
      rfl
    · rw [hkept.2]
      exact hempty

theorem answered_eq_some (h : b.answered = some wanted) : ∃ request sent, b.inFlight = some (request, sent) ∧
    request.generation = b.generation ∧ request.wanted = wanted := by
  unfold answered at h
  split at h
  · next r t hflight =>
    split at h
    · next hgen => exact ⟨r, t, hflight, hgen, Option.some.inj h⟩
    · cases h
  · cases h

theorem Sound.delivers {wanted : Wanted} (h : Sound f) (ha : f.backend.answered = some wanted)
    {content : RemoteContent} :
    Ready ⟨{ f.backend with inFlight := none, content := content }.deliverIfComplete, content⟩ := by
  obtain ⟨r, t, hflight, hgen, rfl⟩ := answered_eq_some ha
  obtain ⟨hleft, ⟨hstores, -⟩, -⟩ := h.current r t hflight hgen
  unfold deliverIfComplete
  split
  · next hcomplete =>
    refine ⟨rfl, hcomplete.1 ▸ Left.nil, .inr ⟨⟨?_, hcomplete.2, rfl⟩, hcomplete.1⟩⟩
    rw [stores_store, hstores, List.nil_append]
  · next hmore =>
    refine ⟨rfl, left_of_tail hleft.tail, .inl ⟨⟨hstores, rfl⟩, fun hfull => ?_⟩⟩
    exact hleft.tail.resolve_left fun hqueue => hmore ⟨hqueue, hfull⟩

theorem Sound.formatDataResponse (h : Sound f) (data : Option (List UInt8)) :
    Sound (f.step (now, .formatDataResponse data)) := by
  cases ha : f.backend.answered with
  | none =>
    have hstep : f.step (now, .formatDataResponse data) =
        ⟨{ f.backend with inFlight := none }.pump now, f.fetched⟩ := by
      unfold Fetching.step ClipboardBackend.step onFormatDataResponse noteFetched
      cases data <;> simp only [ha]
    rw [hstep]
    exact (h.ends (h.not_answered ha)).pump
  | some wanted =>
    obtain ⟨r, t, hflight, hgen, rfl⟩ := answered_eq_some ha
    have hkept := (h.current r t hflight hgen).2.1
    cases data with
    | none =>
      have hstep : f.step (now, .formatDataResponse none) =
          ⟨({ f.backend with inFlight := none }.deliverIfComplete).pump now, f.backend.content⟩ := by
        unfold Fetching.step ClipboardBackend.step onFormatDataResponse noteFetched
        simp only [ha, hkept.2]
      rw [hstep]
      exact (@Clipboard.Sound.delivers _ _ h ha f.backend.content).pump
    | some data =>
      have hstep : f.step (now, .formatDataResponse (some data)) = ⟨({ f.backend with
              inFlight := none
              content := accept r.wanted data f.backend.content }.deliverIfComplete).pump now,
            accept r.wanted data f.backend.content⟩ := by
        unfold Fetching.step ClipboardBackend.step onFormatDataResponse noteFetched
        simp only [ha, hkept.2]
      rw [hstep]
      exact (h.delivers ha).pump

theorem Sound.remoteFileList (h : Sound f) (hempty : f.backend.content.isEmpty = true) (files : List FileDescriptor)
    (clipDataId : Option UInt32) : Sound (f.step (now, .remoteFileList files clipDataId)) := by
  have hready := h.ends hempty
  show Sound ⟨f.backend.onRemoteFileList now files clipDataId, f.fetched⟩
  unfold onRemoteFileList
  split
  · obtain ⟨hflight, hleft, hcontent⟩ := hready
    refine Ready.pump (f := ⟨{ f.backend with
      inFlight := none, worker := f.backend.worker ++ [.remoteFiles files clipDataId] }, f.fetched⟩)
      ⟨hflight, hleft, ?_⟩
    unfold Kept Delivered at hcontent ⊢
    rw [stores_remoteFiles]
    exact hcontent
  · exact hready.pump

theorem sound_step (h : Sound f) {e : ℕ × Event} (he : EndsAnswered f e) : Sound (f.step e) := by
  obtain ⟨now, e⟩ := e
  have hempty : (f.backend.content.isEmpty = false → False) → f.backend.content.isEmpty = true :=
    (Bool.not_eq_false _).mp
  cases e with
  | remoteCopy formats => exact h.remoteCopy formats
  | formatDataResponse data => exact h.formatDataResponse data
  | remoteFileList files clipDataId => exact h.remoteFileList (hempty he) files clipDataId
  | refused => exact (h.ends (hempty he)).pump
  | tick =>
    show Sound ⟨f.backend.tick now, f.fetched⟩
    unfold tick
    split
    · next hout =>
      refine (h.ends (hempty fun hfull => ?_)).pump
      exact Bool.noConfusion (hout.symm.trans (he hfull))
    · exact h

/-! ## Runs -/

theorem sound_new : Sound Fetching.new where
  idle _ := rfl
  current _ _ h := by cases h
  stale _ _ h := by cases h
  done _ := .inr ⟨⟨rfl, rfl⟩, rfl⟩

theorem Sound.handed (h : Sound f) (hidle : Idle f.backend) : Handed f := by
  rcases h.done hidle.1 with ⟨hstores, hfull, hcontent⟩ | ⟨⟨hstores, hcontent⟩, hempty⟩
  · refine ⟨by rw [hcontent]; rfl, ?_, ?_⟩
    · rw [hfull, hcontent]
      rfl
    · rw [hfull]
      exact hstores
  · refine ⟨by rw [hcontent]; exact hempty, ?_, ?_⟩
    · rw [if_pos hempty]
      exact hcontent
    · rw [if_pos hempty]
      exact hstores

theorem left_behind (h : Sound f) {e : ℕ × Event} (he : ¬EndsAnswered f e) :
    Idle (f.step e).backend ∧ (f.step e).backend.content.isEmpty = false := by
  obtain ⟨now, e⟩ := e
  unfold EndsAnswered at he
  obtain ⟨hfull, hends⟩ := Classical.not_imp.mp he
  have hqueue : f.backend.queue = [] := by
    cases hflight : f.backend.inFlight with
    | none => exact h.idle hflight
    | some r =>
      by_cases hgen : r.1.generation = f.backend.generation
      · exact (h.current r.1 r.2 hflight hgen).2.2 hfull
      · obtain ⟨-, -, hkept, hfetched⟩ := h.stale r.1 r.2 hflight hgen
        rw [hkept.2, hfetched] at hfull
        cases hfull
  have hpump : ∀ msgs, { f.backend with inFlight := none, worker := msgs }.pump now =
      { f.backend with inFlight := none, worker := msgs } := fun msgs => pump_idle hqueue
  cases e with
  | remoteCopy formats | formatDataResponse data => exact absurd trivial hends
  | remoteFileList files clipDataId =>
    show Idle (f.backend.onRemoteFileList now files clipDataId) ∧
      (f.backend.onRemoteFileList now files clipDataId).content.isEmpty = false
    unfold onRemoteFileList
    split
    · rw [hpump]
      exact ⟨⟨rfl, hqueue⟩, hfull⟩
    · rw [hpump]
      exact ⟨⟨rfl, hqueue⟩, hfull⟩
  | refused =>
    show Idle (f.backend.refused now) ∧ (f.backend.refused now).content.isEmpty = false
    unfold refused
    rw [hpump]
    exact ⟨⟨rfl, hqueue⟩, hfull⟩
  | tick =>
    show Idle (f.backend.tick now) ∧ (f.backend.tick now).content.isEmpty = false
    unfold tick
    rw [if_pos ((Bool.not_eq_false _).mp hends), hpump]
    exact ⟨⟨rfl, hqueue⟩, hfull⟩

/-- In every state with nothing to wait for, what was fetched is with the worker, just when nothing
fetched was waiting whenever a request ended without an answer to it. -/
theorem handed_iff (events : List (ℕ × Event)) :
    (∀ first later, events = first ++ later → Idle (Steps.run Fetching.step Fetching.new first).backend →
      Handed (Steps.run Fetching.step Fetching.new first)) ↔
      Steps.Along Fetching.step EndsAnswered Fetching.new events := by
  refine (Steps.along_iff (I := Sound) (G := fun f => Idle f.backend → Handed f) (fun f hf => hf.handed)
    (fun f e hf he => sound_step hf he) (fun f e hf he hgood => ?_) sound_new).symm
  obtain ⟨hidle, hfull⟩ := left_behind hf he
  rw [(hgood hidle).empty] at hfull
  cases hfull

/-- A text is copied with its HTML and comes; the HTML does not. -/
theorem text_left_behind :
    ¬∀ (events : List (ℕ × Event)), Idle (Steps.run Fetching.step Fetching.new events).backend →
      (Steps.run Fetching.step Fetching.new events).backend.content.isEmpty = true := by
  intro hall
  have hempty := hall [(0, .remoteCopy [⟨cfUnicodetext, none⟩, ⟨0xC0F0, some htmlName⟩]),
    (10, .formatDataResponse (some [0x41, 0])), (15010, .tick)] (by decide +kernel)
  exact absurd hempty (by decide +kernel)

end Clipboard

end UwuRdp
