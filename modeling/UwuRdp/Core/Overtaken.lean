import UwuRdp.Core.Echo

/-!
# A local copy wins

A download takes a while, and what the user copies meanwhile is not to be lost under its files. The worker counts
what its looks find new, and looks once more when the download is complete.
-/

namespace UwuRdp

open Lib

namespace Clipboard

variable {C D T H : Type} [DecidableEq T] [DecidableEq H] (pc : Computer C D T H)

namespace Desk

/-- Whether a look finds something new: the session is up, and the clipboard reads as other files or text than at
the last look, or, if the look is deep or there is a change counter, as another picture. -/
def Sees (s : Desk C D T H) (deep : Bool) : Prop :=
  s.worker.opened = true ∧ s.worker.ready = true ∧
    (s.worker.lastShallow ≠ some (pc.hashShallow (pc.readShallow s.content)) ∨
      (deep = true ∨ pc.counter.isSome = true) ∧ s.seen ≠ pc.fingerprint s.content)

/-- Whether a step finds something new; when the channel starts over all there is is new to it. -/
def Notices (s : Desk C D T H) : DeskEvent C D → Prop
  | .poll => s.Sees pc false
  | .check deep => s.Sees pc deep
  | .ready => s.worker.opened = true
  | .initial => s.worker.opened = true ∧ s.worker.ready = true
  | _ => False

def Starts (s : Desk C D T H) (e : ℕ × DeskEvent C D) : Prop := (s.step pc e).worker.downloads ≠ s.worker.downloads

instance (s : Desk C D T H) (e : ℕ × DeskEvent C D) : Decidable (s.Starts pc e) :=
  inferInstanceAs (Decidable (_ ≠ _))

/-- An answer completes a download, and these are its files. -/
def Completes (s : Desk C D T H) (streamId : UInt32) (data : Option (List UInt8)) (top : List Path) : Prop :=
  ∃ d, s.worker.download = some d ∧ (d.inFlight.get? streamId).isSome ∧
    ((Run.mk d s.disk s.worker.nextStream).onResponse pc.fs streamId data).2.2 = .finished top

variable {pc} {s : Desk C D T H}

/-- What a worker knows of its downloads, but for how many changes there were. -/
def job (s : Desk C D T H) : ℕ × ℕ × Option Download :=
  (s.worker.downloads, s.worker.downloadChanges, s.worker.download)

/-! ## What a check counts -/

theorem look_changed (h : s.Sound pc) (hopen : s.worker.opened = true) (deep : Bool) :
    ((s.look pc deep).1.any fun r => r.2.2) = true ↔ s.worker.lastShallow ≠ some
    (pc.hashShallow (pc.readShallow s.content)) ∨ (deep = true ∨ pc.counter.isSome = true) ∧ s.seen ≠ pc.fingerprint
    s.content := by
  obtain ⟨hlooked, -, -⟩ := sound_look h hopen deep
  have hknown : (s.look pc deep).1 = none → s.seen = pc.fingerprint s.content := by
    generalize s.look pc deep = r at hlooked ⊢
    obtain ⟨found, s'⟩ := r
    rintro rfl
    cases hlooked with
    | nothing hseen => exact hseen
  have hseen : s.seen = pc.fingerprint s.content ↔
      s.worker.lastShallow = some (pc.hashShallow (pc.readShallow s.content)) ∧ s.worker.lastImage =
        if pc.readShallow s.content = .empty then (pc.image s.content).map pc.hashImage else none := by
    rw [seen, Computer.fingerprint, Prod.mk.injEq]
  clear hlooked
  unfold look at hknown ⊢
  rw [if_neg (by rw [hopen]; exact Bool.noConfusion)] at hknown ⊢
  split
  · rename_i hsame
    have hprint := hknown (by rw [if_pos hsame])
    simp [hprint, (hseen.mp hprint).1]
  by_cases hempty : pc.readShallow s.content = .empty
  · rw [if_pos hempty] at hseen ⊢
    rw [ne_eq s.seen, hseen, not_and_or]
    by_cases hshallow : s.worker.lastShallow = some (pc.hashShallow (pc.readShallow s.content))
    · split
      · rename_i hfull
        have hdeep : deep = true ∨ pc.counter.isSome = true := by simpa [hshallow] using hfull
        simpa [hshallow, hdeep] using not_congr eq_comm
      · rename_i hlight
        have hdeep : ¬(deep = true ∨ pc.counter.isSome = true) := by simpa [hshallow] using hlight
        simp [hshallow, hdeep]
    · simp [hshallow]
  · rw [if_neg hempty] at hseen ⊢
    by_cases hshallow : s.worker.lastShallow = some (pc.hashShallow (pc.readShallow s.content))
    · have hpicture : s.worker.lastImage = none := by
        by_contra hne
        have hwas := h.image hne
        rw [hshallow] at hwas
        exact hempty (pc.hashShallow.injective (Option.some.inj hwas))
      simp [hshallow, hseen, hpicture]
    · simp [hshallow]

omit [DecidableEq T] [DecidableEq H] in
theorem job_offerFiles (pc : Computer C D T H) (s : Desk C D T H) (paths : List Path) (dropped : Bool) :
    (s.offerFiles pc paths dropped).1.job = s.job ∧ (s.offerFiles pc paths dropped).1.worker.changes =
    s.worker.changes := by
  unfold offerFiles
  dsimp only
  split
  · split <;> exact ⟨rfl, rfl⟩
  · split <;> exact ⟨rfl, rfl⟩

omit [DecidableEq T] [DecidableEq H] in
theorem job_announce (pc : Computer C D T H) (s : Desk C D T H) (shallow : Shallow) (image : Option Formats.Rgba) :
    (s.announce pc shallow image).2.1.job = s.job ∧ (s.announce pc shallow image).2.1.worker.changes =
    s.worker.changes := by
  unfold announce
  cases shallow with
  | files paths => exact job_offerFiles pc s paths false
  | text text => exact ⟨rfl, rfl⟩
  | empty => cases image <;> exact ⟨rfl, rfl⟩

/-- A check counts what it finds new, and says nothing where there is nothing new. -/
inductive Counted (pc : Computer C D T H) (s : Desk C D T H) (deep : Bool) (r : Bool × Reply C D T H) : Prop where
  | new (hsees : s.Sees pc deep) (hchanges : r.2.1.worker.changes = s.worker.changes + 1)
  | old (hsees : ¬s.Sees pc deep) (hchanges : r.2.1.worker.changes = s.worker.changes) (hsilent : r.1 = false)

theorem counted_check (h : s.Sound pc) (deep : Bool) :
    Counted pc s deep (s.check pc deep) ∧ (s.check pc deep).2.1.job = s.job := by
  unfold check
  by_cases hready : s.worker.ready = false
  · rw [if_pos hready]
    exact ⟨.old (fun hsees => Bool.noConfusion (hready.symm.trans hsees.2.1)) rfl rfl, rfl⟩
  rw [if_neg hready]
  by_cases hopen : s.worker.opened = true
  · have hchanged := look_changed h hopen deep
    obtain ⟨-, -, token, seen, hs'⟩ := sound_look h hopen deep
    generalize s.look pc deep = r at hchanged hs'
    obtain ⟨found, s'⟩ := r
    obtain rfl : s' = s.remember token seen := hs'
    rcases found with _ | ⟨shallow, image, _ | _⟩
    · exact ⟨.old (fun hsees => by simp [hsees.2.2] at hchanged) rfl rfl, rfl⟩
    · exact ⟨.old (fun hsees => by simp [hsees.2.2] at hchanged) rfl rfl, rfl⟩
    · obtain ⟨hjob, hchanges⟩ := job_announce pc ({ s.remember token seen with
        worker := { (s.remember token seen).worker with changes := s.worker.changes + 1 } }) shallow image
      exact ⟨.new ⟨hopen, eq_true_of_ne_false hready, hchanged.mp rfl⟩ hchanges, hjob⟩
  · have hclosed : s.worker.opened = false := Bool.eq_false_iff.mpr hopen
    have hlook : s.look pc deep = (none, s) := by
      unfold look
      exact if_pos hclosed
    rw [hlook]
    exact ⟨.old (fun hsees => hopen hsees.1) rfl rfl, rfl⟩

theorem absorb_kept (pc : Computer C D T H) (s : Desk C D T H) :
    ((s.absorb pc).job = s.job ∧ (s.absorb pc).worker.changes = s.worker.changes) ∧
      (s.absorb pc).content = s.content ∧ (s.absorb pc).writes = s.writes := by
  unfold absorb look
  dsimp only
  split
  · exact ⟨⟨rfl, rfl⟩, rfl, rfl⟩
  split
  · exact ⟨⟨rfl, rfl⟩, rfl, rfl⟩
  split
  · split <;> exact ⟨⟨rfl, rfl⟩, rfl, rfl⟩
  · exact ⟨⟨rfl, rfl⟩, rfl, rfl⟩

theorem job_store (pc : Computer C D T H) (s : Desk C D T H) (content : RemoteContent) :
    (s.store pc content).job = s.job ∧ (s.store pc content).worker.changes = s.worker.changes := by
  unfold store
  dsimp only
  split
  · exact ⟨rfl, rfl⟩
  split
  · rename_i stored hset
    exact (absorb_kept pc (s.put stored)).1
  · exact ⟨rfl, rfl⟩

/-! ## The end of a download -/

def Declines (pc : Computer C D T H) (s : Desk C D T H) (top : List Path) : Prop :=
  s.worker.opened = false ∨ ∃ message, pc.setFiles top s.content = .error message

theorem job_downloadFinished (h : s.Sound pc) (base : Path) (top : List Path) :
    (s.downloadFinished pc base top).1.job = s.job ∧
      s.worker.changes ≤ (s.downloadFinished pc base top).1.worker.changes := by
  obtain ⟨hcounted, hjob⟩ := counted_check h false
  have hle : s.worker.changes ≤ (s.check pc false).2.1.worker.changes := by
    cases hcounted with
    | new hsees hchanges | old hsees hchanges hsilent => omega
  unfold downloadFinished
  generalize s.check pc false = r at hjob hle
  obtain ⟨announced, s', out⟩ := r
  dsimp only
  split
  · exact ⟨hjob, hle⟩
  split
  · rename_i content hset
    obtain ⟨hjob', hchanges'⟩ := (absorb_kept pc (s'.put content)).1
    exact ⟨hjob'.trans hjob, hle.trans (Nat.le_of_eq hchanges'.symm)⟩
  · exact ⟨hjob, hle⟩

/-- The files of a complete download are put on the clipboard just when no look found anything new since it
started, the one at the end included, and the clipboard takes them. -/
theorem writes_downloadFinished (h : s.Sound pc) (hle : s.worker.downloadChanges ≤ s.worker.changes) (base : Path)
    (top : List Path) :
    ((s.downloadFinished pc base top).1.writes = s.writes ↔
      s.Sees pc false ∨ s.worker.changes ≠ s.worker.downloadChanges ∨ s.Declines pc top) ∧
    ((s.downloadFinished pc base top).1.writes = s.writes → (s.downloadFinished pc base top).1.content = s.content) := by
  obtain ⟨hcounted, hjob⟩ := counted_check h false
  obtain ⟨-, -, hbeside⟩ := sound_check h false
  have hfound : (s.check pc false).1 = true ∨
        (s.check pc false).2.1.worker.changes ≠ (s.check pc false).2.1.worker.downloadChanges ↔
      s.Sees pc false ∨ s.worker.changes ≠ s.worker.downloadChanges := by
    have hstart : (s.check pc false).2.1.worker.downloadChanges = s.worker.downloadChanges :=
      congrArg (fun j => j.2.1) hjob
    rw [hstart]
    cases hcounted with
    | new hsees hchanges =>
      have hmore : (s.check pc false).2.1.worker.changes ≠ s.worker.downloadChanges := by omega
      simp [hsees, hmore]
    | old hsees hchanges hsilent => simp [hsees, hchanges, hsilent]
  unfold downloadFinished
  generalize s.check pc false = r at hfound hbeside
  obtain ⟨announced, s', out⟩ := r
  dsimp only at hfound hbeside ⊢
  rw [← or_assoc, ← hfound]
  split
  · rename_i hnew
    exact ⟨⟨fun _ => .inl hnew, fun _ => hbeside.writes⟩, fun _ => hbeside.content⟩
  rename_i hold
  split
  · rename_i content hset
    obtain ⟨-, hwrites⟩ := (absorb_kept pc (s'.put content)).2
    have hmore : ((s'.put content).absorb pc).writes ≠ s.writes := by
      rw [hwrites, ← hbeside.writes]
      exact Nat.succ_ne_self _
    refine ⟨⟨fun hsame => absurd hsame hmore, ?_⟩, fun hsame => absurd hsame hmore⟩
    rintro (hnew | hdeclines)
    · exact absurd hnew hold
    · rcases hdeclines with hclosed | ⟨message, hmessage⟩
      · simp [hbeside.opened, hclosed] at hset
      · rw [hbeside.content, hmessage] at hset
        split at hset <;> cases hset
  · rename_i message hset
    refine ⟨⟨fun _ => .inr ?_, fun _ => hbeside.writes⟩, fun _ => hbeside.content⟩
    split at hset
    · exact .inr ⟨message, by rw [← hbeside.content, hset]⟩
    · rename_i hclosed
      exact .inl (by rw [← hbeside.opened]; exact Bool.eq_false_iff.mpr hclosed)

/-! ## A step -/

/-- What a step does to the downloads: it starts one, with nothing found new since if it goes on; or it starts none,
and one that goes on has counted what the step found new. -/
inductive Booked (pc : Computer C D T H) (s : Desk C D T H) (e : DeskEvent C D) (s' : Desk C D T H) : Prop where
  | started (hstarts : s'.worker.downloads ≠ s.worker.downloads) (hle : s'.worker.downloadChanges ≤ s'.worker.changes)
      (hnew : s'.worker.download ≠ none → s'.worker.changes = s'.worker.downloadChanges)
  | same (hdownloads : s'.worker.downloads = s.worker.downloads)
      (hsince : s'.worker.downloadChanges = s.worker.downloadChanges) (hle : s.worker.changes ≤ s'.worker.changes)
      (hgoes : s'.worker.download ≠ none → s.worker.download ≠ none)
      (hcount : s'.worker.download ≠ none → s'.worker.changes = s.worker.changes ∧ ¬s.Notices pc e ∨
        s'.worker.changes = s.worker.changes + 1 ∧ s.Notices pc e)

omit [DecidableEq T] [DecidableEq H] in
theorem job_progress (s : Desk C D T H) (now done total : ℕ) : (s.progress now done total).1.job = s.job ∧
    (s.progress now done total).1.worker.changes = s.worker.changes := by
  unfold progress
  split <;> exact ⟨rfl, rfl⟩

theorem job_downloadEnded (h : s.Sound pc) (now : ℕ) (progress : Progress) :
    (s.downloadEnded pc now progress).1.worker.downloads = s.worker.downloads ∧
    (s.downloadEnded pc now progress).1.worker.downloadChanges = s.worker.downloadChanges ∧
    s.worker.changes ≤ (s.downloadEnded pc now progress).1.worker.changes ∧
    ((s.downloadEnded pc now progress).1.worker.download ≠ none → s.worker.download ≠ none ∧
      (s.downloadEnded pc now progress).1.worker.changes = s.worker.changes) := by
  cases progress with
  | running done total =>
    obtain ⟨hjob, hchanges⟩ := job_progress s now done total
    simp only [job, Prod.mk.injEq] at hjob
    exact ⟨hjob.1, hjob.2.1, Nat.le_of_eq hchanges.symm, fun hne => ⟨hjob.2.2 ▸ hne, hchanges⟩⟩
  | failed message => exact ⟨rfl, rfl, le_rfl, fun h => absurd rfl h⟩
  | finished top =>
    unfold downloadEnded
    cases hdownload : s.worker.download with
    | none => exact ⟨rfl, rfl, le_rfl, fun hne => absurd hdownload hne⟩
    | some download =>
      obtain ⟨hjob, hle⟩ := job_downloadFinished (h.of_view (t := s.endDownload pc) rfl) download.base top
      simp only [job, Prod.mk.injEq] at hjob
      exact ⟨hjob.1, hjob.2.1, hle, fun hne => absurd hjob.2.2 hne⟩

theorem booked_startDownload (h : s.Sound pc) (now : ℕ) (entries : List RemoteEntry) (clipDataId : Option UInt32)
    (e : DeskEvent C D) : Booked pc s e (s.startDownload pc now entries clipDataId).1 := by
  unfold startDownload
  extract_lets base started worker s'
  have hview : s'.view = s.view := rfl
  split
  · obtain ⟨hjob, hchanges⟩ := job_progress s' now 0 0
    simp only [job, Prod.mk.injEq] at hjob
    obtain ⟨hdownloads, hsince, -⟩ := hjob
    refine .started ?_ ?_ fun _ => ?_
    · exact ne_of_eq_of_ne hdownloads (Nat.succ_ne_self _)
    · exact Nat.le_of_eq (hsince.trans hchanges.symm)
    · exact hchanges.trans hsince.symm
  · rename_i result hend
    obtain ⟨hdownloads, hsince, hle, hgoes⟩ := job_downloadEnded (h.of_view hview) now result
    refine .started ?_ ?_ fun hne => ?_
    · exact ne_of_eq_of_ne hdownloads (Nat.succ_ne_self _)
    · exact le_trans (Nat.le_of_eq hsince) hle
    · exact (hgoes hne).2.trans hsince.symm

theorem booked_fileResponse (h : s.Sound pc) (now : ℕ) (streamId : UInt32) (data : Option (List UInt8)) :
    Booked pc s (.fileResponse streamId data) (s.fileResponse pc now streamId data).1 := by
  unfold fileResponse
  split
  · exact .same rfl rfl le_rfl id fun _ => .inl ⟨rfl, id⟩
  · rename_i download hdownload
    have hsome : s.worker.download ≠ none := by
      intro hnone
      simp [hnone] at hdownload
    generalize (Run.mk download s.disk s.worker.nextStream).onResponse pc.fs streamId data = r
    obtain ⟨run, requests, progress⟩ := r
    let s' : Desk C D T H := { s with
      disk := run.disk
      worker := { s.worker with download := some run.download, nextStream := run.nextStream } }
    have hview : s'.view = s.view := rfl
    obtain ⟨hdownloads, hsince, hle, hgoes⟩ := job_downloadEnded (h.of_view hview) now progress
    exact .same hdownloads hsince hle (fun _ => hsome) fun hne => .inl ⟨(hgoes hne).2, id⟩

omit [DecidableEq T] [DecidableEq H] in
theorem Booked.beside {e : DeskEvent C D} {s' : Desk C D T H} (hjob : s'.job = s.job)
    (hcount : s'.worker.changes = s.worker.changes ∧ ¬s.Notices pc e ∨
      s'.worker.changes = s.worker.changes + 1 ∧ s.Notices pc e) : Booked pc s e s' := by
  simp only [job, Prod.mk.injEq] at hjob
  obtain ⟨hdownloads, hsince, hdownload⟩ := hjob
  refine .same hdownloads hsince ?_ (fun hne => hdownload ▸ hne) fun _ => hcount
  rcases hcount with ⟨hsame, -⟩ | ⟨hmore, -⟩ <;> omega

theorem booked_check (h : s.Sound pc) (deep : Bool) {e : DeskEvent C D} (he : s.Notices pc e ↔ s.Sees pc deep) :
    Booked pc s e (s.check pc deep).2.1 := by
  obtain ⟨hcounted, hjob⟩ := counted_check h deep
  refine .beside hjob ?_
  cases hcounted with
  | new hsees hchanges => exact .inr ⟨hchanges, he.mpr hsees⟩
  | old hsees hchanges hsilent => exact .inl ⟨hchanges, fun hnotices => hsees (he.mp hnotices)⟩

theorem booked_announceCurrent (pc : Computer C D T H) (s : Desk C D T H) (hready : s.worker.ready = true) :
    (s.announceCurrent pc).2.1.job = s.job ∧
      ((s.announceCurrent pc).2.1.worker.changes = s.worker.changes ∧ s.worker.opened ≠ true ∨
        (s.announceCurrent pc).2.1.worker.changes = s.worker.changes + 1 ∧ s.worker.opened = true) := by
  let s' : Desk C D T H :=
    { s with worker := { s.worker with lastToken := none, lastShallow := none, lastImage := none } }
  have hs' : s'.Sound pc := ⟨fun t ht => (by cases ht), fun himage => absurd rfl himage⟩
  obtain ⟨hcounted, hjob⟩ := counted_check hs' true
  refine ⟨hjob, ?_⟩
  cases hcounted with
  | new hsees hchanges => exact .inr ⟨hchanges, hsees.1⟩
  | old hsees hchanges hsilent =>
    exact .inl ⟨hchanges, fun hopen => hsees ⟨hopen, hready, .inl (Option.some_ne_none _).symm⟩⟩

theorem booked_step (h : s.Sound pc) (e : ℕ × DeskEvent C D) : Booked pc s e.2 (s.step pc e) := by
  obtain ⟨now, e⟩ := e
  cases e with
  | initial =>
    by_cases hready : s.worker.ready = true
    · have hstep : s.step pc (now, .initial) = (s.announceCurrent pc).2.1 := by
        simp only [step, handle, if_pos hready]
      obtain ⟨hjob, hcount⟩ := booked_announceCurrent pc s hready
      rw [hstep]
      refine .beside hjob (hcount.imp (fun hc => ⟨hc.1, fun hn => hc.2 hn.1⟩) fun hc => ⟨hc.1, hc.2, hready⟩)
    · have hstep : s.step pc (now, .initial) = s := by simp only [step, handle, if_neg hready]
      rw [hstep]
      exact .beside rfl (.inl ⟨rfl, fun hn => hready hn.2⟩)
  | ready =>
    obtain ⟨hjob, hcount⟩ := booked_announceCurrent pc
      ({ s with worker := { s.worker with ready := true } } : Desk C D T H) rfl
    exact .beside hjob hcount
  | check deep => exact booked_check h deep Iff.rfl
  | poll => exact booked_check h false Iff.rfl
  | capabilities | serve | fileRequest | write | disk => exact .beside rfl (.inl ⟨rfl, id⟩)
  | copied msg =>
    cases msg with
    | remoteCopy => exact .same rfl rfl le_rfl (fun hne => absurd rfl hne) fun _ => .inl ⟨rfl, id⟩
    | store content =>
      obtain ⟨hjob, hchanges⟩ := job_store pc s content
      exact .beside hjob (.inl ⟨hchanges, id⟩)
    | remoteFiles files clipDataId =>
      show Booked pc s _ (s.remoteFiles pc now files clipDataId).1
      unfold remoteFiles
      split
      · exact .beside rfl (.inl ⟨rfl, id⟩)
      · exact booked_startDownload h now _ clipDataId _
      · exact .beside rfl (.inl ⟨rfl, id⟩)
  | download =>
    unfold step handle
    cases hoffered : s.worker.offered with
    | none => exact .beside rfl (.inl ⟨rfl, id⟩)
    | some offered =>
      let s' : Desk C D T H := { s with worker := { s.worker with offered := none } }
      have hview : s'.view = s.view := rfl
      cases booked_startDownload (h.of_view hview) now offered.1 offered.2 .download with
      | started hstarts hle hnew => exact .started hstarts hle hnew
      | same hdownloads hsince hle hgoes hcount => exact .same hdownloads hsince hle hgoes hcount
  | offerFiles paths =>
    obtain ⟨hjob, hchanges⟩ := job_offerFiles pc s paths true
    exact .beside hjob (.inl ⟨hchanges, id⟩)
  | fileResponse streamId data => exact booked_fileResponse h now streamId data
  | lock id | unlock id => exact .beside rfl (.inl ⟨rfl, fun hn => hn⟩)

/-! ## An answer -/

/-- An answer puts files on the clipboard just when it completes a download, nothing new was found since that
started, and the clipboard takes them; otherwise what is on the clipboard stays. -/
theorem writes_fileResponse (h : s.Sound pc) (hle : s.worker.downloadChanges ≤ s.worker.changes) (now : ℕ)
    (streamId : UInt32) (data : Option (List UInt8)) :
    ((s.step pc (now, .fileResponse streamId data)).writes = s.writes ↔
      ∀ top, s.Completes pc streamId data top →
        s.Sees pc false ∨ s.worker.changes ≠ s.worker.downloadChanges ∨ s.Declines pc top) ∧
    ((s.step pc (now, .fileResponse streamId data)).writes = s.writes →
      (s.step pc (now, .fileResponse streamId data)).content = s.content) := by
  show ((s.fileResponse pc now streamId data).1.writes = s.writes ↔ _) ∧
    ((s.fileResponse pc now streamId data).1.writes = s.writes →
      (s.fileResponse pc now streamId data).1.content = s.content)
  unfold fileResponse
  split
  · rename_i hnone
    refine ⟨⟨fun _ top hc => ?_, fun _ => rfl⟩, fun _ => rfl⟩
    obtain ⟨d, hd, howns, -⟩ := hc
    rw [hd, Option.filter_some, if_pos howns] at hnone
    cases hnone
  · rename_i download hdownload
    obtain ⟨hd, howns⟩ := Option.filter_eq_some_iff.mp hdownload
    have hcompletes : ∀ top, s.Completes pc streamId data top ↔
        ((Run.mk download s.disk s.worker.nextStream).onResponse pc.fs streamId data).2.2 = .finished top := by
      intro top
      constructor
      · rintro ⟨d, hd', -, hend⟩
        cases hd.symm.trans hd'
        exact hend
      · exact fun hend => ⟨download, hd, howns, hend⟩
    simp only [hcompletes]
    generalize (Run.mk download s.disk s.worker.nextStream).onResponse pc.fs streamId data = r
    obtain ⟨run, requests, progress⟩ := r
    let s' : Desk C D T H := { s with
      disk := run.disk
      worker := { s.worker with download := some run.download, nextStream := run.nextStream } }
    have hview : s'.view = s.view := rfl
    cases progress with
    | running done total =>
      have hprogress : (s'.progress now done total).1.writes = s.writes ∧
          (s'.progress now done total).1.content = s.content := by
        unfold progress
        split <;> exact ⟨rfl, rfl⟩
      exact ⟨⟨fun _ top hend => (by cases hend), fun _ => hprogress.1⟩, fun _ => hprogress.2⟩
    | failed message => exact ⟨⟨fun _ top hend => (by cases hend), fun _ => rfl⟩, fun _ => rfl⟩
    | finished top =>
      have ht : (s'.endDownload pc).Sound pc := h.of_view hview
      obtain ⟨hwrites, hcontent⟩ := writes_downloadFinished ht hle run.download.base top
      refine ⟨⟨fun hsame top' hend => ?_, fun hall => hwrites.mpr (hall top rfl)⟩, hcontent⟩
      cases hend
      exact hwrites.mp hsame

/-! ## A run -/

section Run

variable (pc) (s₀ : Desk C D T H)

/-- The download started last started over a content. -/
def StartedOver (content : C) : List (ℕ × DeskEvent C D) → Prop :=
  Steps.Since
    (fun before e => (Steps.run (step pc) s₀ before).Starts pc e ∧ (Steps.run (step pc) s₀ before).content = content)
    fun before e => ¬(Steps.run (step pc) s₀ before).Starts pc e

/-- Since the last start of a download, no look found anything new. -/
def Unnoticed : List (ℕ × DeskEvent C D) → Prop :=
  Steps.Since (fun before e => (Steps.run (step pc) s₀ before).Starts pc e)
    fun before e => ¬(Steps.run (step pc) s₀ before).Starts pc e ∧ ¬(Steps.run (step pc) s₀ before).Notices pc e.2

/-- A local copy wins over a download that completes: where the clipboard holds something else than when it
started, its files are not put there, and what is there stays. -/
def LocalWins (events : List (ℕ × DeskEvent C D)) : Prop :=
  ∀ before now streamId data later content, events = before ++ (now, .fileResponse streamId data) :: later →
    StartedOver pc s₀ content before →
    let s := Steps.run (step pc) s₀ before
    s.content ≠ content → (s.step pc (now, .fileResponse streamId data)).writes = s.writes ∧
      (s.step pc (now, .fileResponse streamId data)).content = s.content

/-- Whenever a download completes over something else than it started over, some look since then found
something new, the one at the end included, or the clipboard does not take the files. -/
def AlwaysNoticed (events : List (ℕ × DeskEvent C D)) : Prop :=
  ∀ before now streamId data later content top, events = before ++ (now, .fileResponse streamId data) :: later →
    StartedOver pc s₀ content before →
    let s := Steps.run (step pc) s₀ before
    s.content ≠ content → s.Completes pc streamId data top →
      s.Sees pc false ∨ ¬Unnoticed pc s₀ before ∨ s.Declines pc top

end Run

/-- The count of changes tells whether there was one since the download started. -/
structure Tallied (pc : Computer C D T H) (s₀ : Desk C D T H) (events : List (ℕ × DeskEvent C D))
    (s : Desk C D T H) : Prop where
  sound : s.Sound pc
  le : s.worker.downloadChanges ≤ s.worker.changes
  quiet : s.worker.download ≠ none → (s.worker.changes = s.worker.downloadChanges ↔ Unnoticed pc s₀ events)

theorem tallied_run {s₀ : Desk C D T H} (h : s₀.Sound pc) (hle : s₀.worker.downloadChanges ≤ s₀.worker.changes)
    (hnone : s₀.worker.download = none) (events : List (ℕ × DeskEvent C D)) :
    Tallied pc s₀ events (Steps.run (step pc) s₀ events) := by
  induction events using List.reverseRecOn with
  | nil => exact ⟨h, hle, fun hne => absurd hnone hne⟩
  | append_singleton events e ih =>
    rw [Steps.run_append]
    have hquiet : Unnoticed pc s₀ (events ++ [e]) ↔ (Steps.run (step pc) s₀ events).Starts pc e ∨
        (¬(Steps.run (step pc) s₀ events).Starts pc e ∧ ¬(Steps.run (step pc) s₀ events).Notices pc e.2) ∧
          Unnoticed pc s₀ events := Steps.since_concat
    generalize Steps.run (step pc) s₀ events = s at ih hquiet ⊢
    show Tallied pc s₀ (events ++ [e]) (s.step pc e)
    cases booked_step ih.sound e with
    | started hstarts hle hnew =>
      exact ⟨(sound_step ih.sound e).1, hle, fun hne => ⟨fun _ => hquiet.mpr (.inl hstarts), fun _ => hnew hne⟩⟩
    | same hdownloads hsince hle hgoes hcount =>
      have hstays : ¬s.Starts pc e := fun hstarts => hstarts hdownloads
      refine ⟨(sound_step ih.sound e).1, by rw [hsince]; exact ih.le.trans hle, fun hne => ?_⟩
      rw [hquiet, ← ih.quiet (hgoes hne), hsince]
      have hbound := ih.le
      rcases hcount hne with ⟨hsame, hnotices⟩ | ⟨hmore, hnotices⟩
      · simp [hstays, hnotices, hsame]
      · have hne' : s.worker.changes + 1 ≠ s.worker.downloadChanges := by omega
        simp [hstays, hnotices, hmore, hne']

/-- In every run a local copy wins over each download that completes just when, whenever one completes over something
else than it started over, that was noticed. -/
theorem local_copy_wins (pc : Computer C D T H) (opened : Bool) (folder : Path) (content : C) (disk : D)
    (events : List (ℕ × DeskEvent C D)) :
    LocalWins pc (.new opened folder content disk) events ↔ AlwaysNoticed pc (.new opened folder content disk) events := by
  have hrun := tallied_run (sound_new pc opened folder content disk) le_rfl rfl
  have hwrites : ∀ (before : List (ℕ × DeskEvent C D)) (now : ℕ) (streamId : UInt32) (data : Option (List UInt8)),
      let s : Desk C D T H := Steps.run (step pc) (.new opened folder content disk) before
      ((s.step pc (now, .fileResponse streamId data)).writes = s.writes ↔ ∀ top, s.Completes pc streamId data top →
        s.Sees pc false ∨ ¬Unnoticed pc (.new opened folder content disk) before ∨ s.Declines pc top) ∧
      ((s.step pc (now, .fileResponse streamId data)).writes = s.writes →
        (s.step pc (now, .fileResponse streamId data)).content = s.content) := by
    intro before now streamId data s
    obtain ⟨hiff, hcontent⟩ := writes_fileResponse (hrun before).sound (hrun before).le now streamId data
    refine ⟨hiff.trans (forall_congr' fun top => forall_congr' fun hc => ?_), hcontent⟩
    obtain ⟨d, hd, -⟩ := hc
    have hquiet := (hrun before).quiet (by rw [hd]; exact Option.some_ne_none d)
    rw [← hquiet]
  constructor
  · intro hwins before now streamId data later c top hevents hstarted s hdiffers hcompletes
    exact (hwrites before now streamId data).1.mp (hwins before now streamId data later c hevents hstarted hdiffers).1
      top hcompletes
  · intro hnoticed before now streamId data later c hevents hstarted s hdiffers
    have hsame := (hwrites before now streamId data).1.mpr fun top hcompletes =>
      hnoticed before now streamId data later c top hevents hstarted hdiffers hcompletes
    exact ⟨hsame, (hwrites before now streamId data).2 hsame⟩

/-! ## One picture after another -/

/-- A computer whose clipboard holds a picture or files, with a change counter or without. -/
def album (counter : Option (ℕ ↪ ℕ)) : Computer (Formats.Rgba ⊕ List Path) Unit ℕ (Shallow ⊕ Formats.Rgba) where
  windows := false
  files content := content.getRight?
  text _ := none
  html _ := none
  image content := content.getLeft?
  setText _ _ _ := .error []
  setImage image _ := .ok (.inl image)
  setFiles files _ := .ok (.inr files)
  counter := counter
  hashShallow := .inl
  hashImage := .inr
  collect _ _ := ⟨[], []⟩
  contents _ _ _ := none
  fs _ _ := (none, ())
  removeDirAll _ _ := ()

/-- A session is up, the server copies a file, and while it is fetched another picture is copied. -/
def meanwhile : List (ℕ × DeskEvent (Formats.Rgba ⊕ List Path) Unit) :=
  [(0, .ready), (1, .copied (.remoteFiles [⟨['a'], none, none, some 1, none⟩] none)), (2, .write (.inl ⟨1, 1, [1, 1, 1, 1]⟩))]

/-- Without a change counter the check at the end takes the new picture for the old one, and the file goes over it. -/
theorem picture_lost : ¬LocalWins (album none) (.new true [] (.inl ⟨1, 1, [0, 0, 0, 0]⟩) ())
    (meanwhile ++ [(3, .fileResponse 1 (some [0]))]) := by
  intro h
  have hstarted : StartedOver (album none) (.new true [] (.inl ⟨1, 1, [0, 0, 0, 0]⟩) ()) (.inl ⟨1, 1, [0, 0, 0, 0]⟩)
      meanwhile :=
    (@Steps.since_concat _ _ _ (meanwhile.take 2) _).mpr (.inr ⟨by decide +kernel,
      (@Steps.since_concat _ _ _ (meanwhile.take 1) _).mpr (.inl ⟨by decide +kernel, by decide +kernel⟩)⟩)
  exact absurd (h meanwhile 3 1 (some [0]) [] _ rfl hstarted (by decide +kernel)).1 (by decide +kernel)

/-- With a change counter the check at the end reads the picture too. -/
example :
    let s := Steps.run (step (album (some (.refl ℕ)))) (.new true [] (.inl ⟨1, 1, [0, 0, 0, 0]⟩) ()) meanwhile
    (s.step (album (some (.refl ℕ))) (3, .fileResponse 1 (some [0]))).content = .inl ⟨1, 1, [1, 1, 1, 1]⟩ := by
  decide +kernel

end Desk

end Clipboard

end UwuRdp
