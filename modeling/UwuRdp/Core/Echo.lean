import UwuRdp.Core.Worker
import UwuRdp.Lib.Steps

/-!
# The clipboard never echoes

What the worker put on the clipboard it has seen, whichever of counter, contents and picture it goes by,
so it announces it to nobody. What another program puts there is announced by the first check that sees
it, once, unless it reads just as what was seen before it.
-/

namespace UwuRdp

open Lib

namespace Clipboard

/-! ## What is announced -/

/-- Whether it is a list of formats, by which the server learns of a copy. -/
def Outgoing.isList : Outgoing → Bool
  | .initiateCopy _ | .initiateFileCopy _ => true
  | _ => false

/-- What the clipboard is announced with when something happens; files dropped on the desktop were never
on it. -/
def announced {C D : Type} (e : DeskEvent C D) (out : List Outgoing) : List Outgoing :=
  match e with
  | .offerFiles _ => []
  | _ => out.filter Outgoing.isList

/-- What other programs do, and what looks at the clipboard whether or not it changed. -/
def DeskEvent.calm {C D : Type} : DeskEvent C D → Bool
  | .write _ | .initial | .ready => false
  | _ => true

variable {C D T H : Type} [DecidableEq T] [DecidableEq H] (pc : Computer C D T H)

def Computer.fingerprint (content : C) : Option H × Option H :=
  (some (pc.hashShallow (pc.readShallow content)),
    if pc.readShallow content = .empty then (pc.image content).map pc.hashImage else none)

/-- The list that announces a content: one, or none where there is nothing on it, or only files that
cannot be read. -/
def Computer.formatsOf (content : C) (filesOk : Bool) (disk : D) : List Outgoing :=
  match pc.readShallow content with
  | .files paths =>
    if filesOk = false then [.initiateCopy []]
    else if (pc.collect paths disk).descriptors = [] then []
    else [.initiateFileCopy (pc.collect paths disk).descriptors]
  | .text _ =>
    [.initiateCopy (⟨cfUnicodetext, none⟩ ::
      if (pc.html content).isSome then [⟨htmlFormatId, some htmlName⟩] else [])]
  | .empty => if (pc.image content).isSome then [.initiateCopy [⟨cfDib, none⟩]] else []

namespace Desk

def announcements : Desk C D T H → List (ℕ × DeskEvent C D) → List Outgoing
  | _, [] => []
  | s, e :: events => announced e.2 (s.handle pc e.1 e.2).2 ++ announcements (s.step pc e) events

def seen (s : Desk C D T H) : Option H × Option H := (s.worker.lastShallow, s.worker.lastImage)

/-- What a look depends on and what it may change. -/
structure View (C T H : Type) where
  opened : Bool
  ready : Bool
  lastToken : Option T
  lastShallow : Option H
  lastImage : Option H
  content : C
  writes : ℕ

def view (s : Desk C D T H) : View C T H :=
  ⟨s.worker.opened, s.worker.ready, s.worker.lastToken, s.worker.lastShallow, s.worker.lastImage, s.content,
    s.writes⟩

/-- The counter was read after some write, and if that was the last one, its content was seen; a picture is
remembered only where there is nothing else. -/
structure Sound (s : Desk C D T H) : Prop where
  token : ∀ t, s.worker.lastToken = some t → ∃ count, pc.counter = some count ∧
    ∃ w ≤ s.writes, t = count w ∧ (w = s.writes → s.seen = pc.fingerprint s.content)
  image : s.worker.lastImage ≠ none → s.worker.lastShallow = some (pc.hashShallow .empty)

variable {pc} {s t : Desk C D T H}

omit [DecidableEq T] [DecidableEq H] in
theorem view_eq (h : t.view = s.view) : t.worker.opened = s.worker.opened ∧ t.worker.ready = s.worker.ready ∧
    t.worker.lastToken = s.worker.lastToken ∧ t.seen = s.seen ∧ t.content = s.content ∧ t.writes = s.writes := by
  simp only [view, View.mk.injEq] at h
  obtain ⟨hopened, hready, htoken, hshallow, himage, hcontent, hwrites⟩ := h
  refine ⟨hopened, hready, htoken, ?_, hcontent, hwrites⟩
  rw [seen, seen, hshallow, himage]

omit [DecidableEq T] [DecidableEq H] in
theorem Sound.of_view (h : s.Sound pc) (hview : t.view = s.view) : t.Sound pc := by
  obtain ⟨-, -, htoken, hseen, hcontent, hwrites⟩ := view_eq hview
  have hshallow : t.worker.lastShallow = s.worker.lastShallow := congrArg Prod.fst hseen
  have himage : t.worker.lastImage = s.worker.lastImage := congrArg Prod.snd hseen
  constructor
  · rw [htoken, hseen, hcontent, hwrites]
    exact h.token
  · rw [hshallow, himage]
    exact h.image

/-! ## One look -/

/-- What a look at an open clipboard does: nothing new and nothing remembered, or something new and all of
it remembered. A deep look that finds nothing new has seen it all. -/
inductive Looked (pc : Computer C D T H) (s : Desk C D T H) (deep : Bool) :
    Option (Shallow × Option Formats.Rgba × Bool) → Desk C D T H → Prop where
  | nothing (hseen : s.seen = pc.fingerprint s.content) : Looked pc s deep none s
  | same {shallow : Shallow} {image : Option Formats.Rgba} {s' : Desk C D T H} (hseen : s'.seen = s.seen)
      (hdeep : deep = true → s.seen = pc.fingerprint s.content) : Looked pc s deep (some (shallow, image, false)) s'
  | changed {image : Option Formats.Rgba} {s' : Desk C D T H} (hnew : s.seen ≠ pc.fingerprint s.content)
      (hseen : s'.seen = pc.fingerprint s.content)
      (himage : pc.readShallow s.content = .empty → image = pc.image s.content) :
      Looked pc s deep (some (pc.readShallow s.content, image, true)) s'

def remember (s : Desk C D T H) (token : Option T) (seen : Option H × Option H) : Desk C D T H :=
  { s with worker := { s.worker with lastToken := token, lastShallow := seen.1, lastImage := seen.2 } }

omit [DecidableEq T] [DecidableEq H] in
theorem sound_remember (pc : Computer C D T H) (s : Desk C D T H) :
    (s.remember (pc.counter.map fun count => count s.writes) (pc.fingerprint s.content)).Sound pc where
  token := by
    intro t ht
    obtain ⟨count, hcount, rfl⟩ := Option.map_eq_some_iff.mp ht
    exact ⟨count, hcount, s.writes, le_rfl, rfl, fun _ => rfl⟩
  image := by
    intro himage
    show some (pc.hashShallow (pc.readShallow s.content)) = some (pc.hashShallow .empty)
    have hempty : pc.readShallow s.content = .empty := by
      by_contra hne
      exact himage (if_neg hne)
    rw [hempty]

theorem sound_look (h : s.Sound pc) (hopen : s.worker.opened = true) (deep : Bool) : Looked pc s deep
    (s.look pc deep).1 (s.look pc deep).2 ∧ (s.look pc deep).2.Sound pc ∧ ∃ token seen, (s.look pc deep).2 =
    s.remember token seen := by
  have hfull := sound_remember pc s
  unfold look
  generalize htoken : pc.counter.map (fun count => count s.writes) = token at hfull ⊢
  generalize hshallow : pc.readShallow s.content = shallow
  have hprint : pc.fingerprint s.content = (some (pc.hashShallow shallow),
      if shallow = .empty then (pc.image s.content).map pc.hashImage else none) := by
    rw [Computer.fingerprint, hshallow]
  have hseen : s.seen = (s.worker.lastShallow, s.worker.lastImage) := rfl
  rw [if_neg (by rw [hopen]; exact Bool.noConfusion)]
  split
  · rename_i hsame
    refine ⟨.nothing ?_, h, s.worker.lastToken, s.seen, rfl⟩
    -- The counter is as it was at the last look.
    obtain ⟨hsome, hlast, -⟩ := hsame
    obtain ⟨t, rfl⟩ := Option.isSome_iff_exists.mp hsome
    obtain ⟨count, hcount, w, -, hw, hprints⟩ := h.token t hlast.symm
    rw [hcount] at htoken
    have hnow : count s.writes = count w := (Option.some.inj htoken).trans hw
    exact hprints (count.injective hnow).symm
  · by_cases hempty : shallow = .empty
    · rw [if_pos hempty] at hprint
      simp only [if_pos hempty]
      split
      · -- A full look.
        rw [hprint] at hfull
        refine ⟨?_, hfull, token, (some (pc.hashShallow shallow), (pc.image s.content).map pc.hashImage), rfl⟩
        by_cases hnew : s.seen = pc.fingerprint s.content
        · have hsame : (s.worker.lastShallow, s.worker.lastImage) = _ := hnew.trans hprint
          obtain ⟨hlast, hpicture⟩ := Prod.mk.inj hsame
          rw [hlast, hpicture]
          simp only [ne_eq, not_true_eq_false, decide_false, Bool.or_self]
          exact .same (hprint.symm.trans hnew.symm) fun _ => hnew
        · have hchanged : ((decide (s.worker.lastShallow ≠ some (pc.hashShallow shallow))) ||
              decide (Option.map pc.hashImage (pc.image s.content) ≠ s.worker.lastImage)) = true := by
            by_contra hno
            simp only [ne_eq, Bool.or_eq_true, decide_eq_true_eq, not_or, not_not] at hno
            exact hnew (by rw [hseen, hprint, hno.1, hno.2])
          rw [hchanged]
          subst hshallow
          exact .changed hnew hprint.symm fun _ => rfl
      · -- Without a counter, and no other text or files: the picture is left alone.
        rename_i hlight
        simp only [not_or] at hlight
        obtain ⟨hdeep, hnone, hsame⟩ := hlight
        have hlast : s.worker.lastShallow = some (pc.hashShallow shallow) := by
          by_contra hne
          exact hsame (decide_eq_true hne)
        refine ⟨?_, ⟨?_, ?_⟩, token, (some (pc.hashShallow shallow), s.worker.lastImage), rfl⟩
        · rw [hlast]
          simp only [ne_eq, not_true_eq_false, decide_false]
          refine .same ?_ fun h => absurd h hdeep
          rw [hseen, hlast]
          rfl
        · intro t ht
          rw [Option.not_isSome_iff_eq_none.mp hnone] at ht
          cases ht
        · intro _
          rw [hempty]
    · rw [if_neg hempty] at hprint
      simp only [if_neg hempty]
      rw [hprint] at hfull
      refine ⟨?_, hfull, token, (some (pc.hashShallow shallow), none), rfl⟩
      by_cases hlast : s.worker.lastShallow = some (pc.hashShallow shallow)
      · have hpicture : s.worker.lastImage = none := by
          by_contra hne
          have hwas := h.image hne
          rw [hlast] at hwas
          exact hempty (pc.hashShallow.injective (Option.some.inj hwas))
        have hnew : s.seen = pc.fingerprint s.content := by rw [hseen, hprint, hlast, hpicture]
        simp only [hlast, ne_eq, not_true_eq_false, decide_false]
        exact .same (hprint.symm.trans hnew.symm) fun _ => hnew
      · have hnew : s.seen ≠ pc.fingerprint s.content := by
          rw [hseen, hprint]
          exact fun h => hlast (Prod.mk.inj h).1
        rw [decide_eq_true hlast]
        subst hshallow
        exact .changed hnew hprint.symm fun h => absurd h hempty

/-! ## One check -/

/-- What looking leaves alone. -/
structure Beside (s s' : Desk C D T H) : Prop where
  opened : s'.worker.opened = s.worker.opened
  ready : s'.worker.ready = s.worker.ready
  content : s'.content = s.content
  writes : s'.writes = s.writes

omit [DecidableEq T] [DecidableEq H] in
theorem Beside.of_view {s₁ s₂ t : Desk C D T H} (h : Beside s₁ s₂) (hs : s₁.view = s.view) (ht : t.view = s₂.view) :
    Beside s t := by
  obtain ⟨hopened, hready, -, -, hcontent, hwrites⟩ := view_eq hs
  obtain ⟨hopened', hready', -, -, hcontent', hwrites'⟩ := view_eq ht
  exact ⟨hopened'.trans (h.opened.trans hopened), hready'.trans (h.ready.trans hready),
    hcontent'.trans (h.content.trans hcontent), hwrites'.trans (h.writes.trans hwrites)⟩

/-- What a check does: it announces nothing and knows nothing new, which after a deep look means that there
is nothing new; or it announces the content, which it had not seen, and has seen it now. -/
inductive Checked (pc : Computer C D T H) (s : Desk C D T H) (deep : Bool) (r : Reply C D T H) : Prop where
  | nothing (hseen : r.1.seen = s.seen) (hout : r.2.filter Outgoing.isList = [])
      (hdeep : s.worker.opened = true → s.worker.ready = true → deep = true →
        s.seen = pc.fingerprint s.content)
  | announced (hnew : s.seen ≠ pc.fingerprint s.content) (hseen : r.1.seen = pc.fingerprint s.content)
      (hout : r.2.filter Outgoing.isList = pc.formatsOf s.content s.worker.filesOk s.disk)

omit [DecidableEq T] [DecidableEq H] in
theorem view_offerFiles (pc : Computer C D T H) (s : Desk C D T H) (paths : List Path) (dropped : Bool) :
    (s.offerFiles pc paths dropped).1.view = s.view := by
  unfold offerFiles
  split
  · split <;> rfl
  · dsimp only
    split <;> rfl

omit [DecidableEq T] [DecidableEq H] in
theorem view_announce (pc : Computer C D T H) (s : Desk C D T H) (shallow : Shallow) (image : Option Formats.Rgba) :
    (s.announce pc shallow image).2.1.view = s.view := by
  unfold announce
  cases shallow with
  | files paths => exact view_offerFiles pc s paths false
  | text text => rfl
  | empty => cases image <;> rfl

variable {image : Option Formats.Rgba} {r : Reply C D T H} {e : DeskEvent C D}

omit [DecidableEq T] [DecidableEq H] in
theorem lists_announce (himage : pc.readShallow s.content = .empty → image = pc.image s.content) :
    (s.announce pc (pc.readShallow s.content) image).2.2.filter Outgoing.isList = pc.formatsOf s.content
    s.worker.filesOk s.disk := by
  unfold announce Computer.formatsOf
  cases hshallow : pc.readShallow s.content with
  | files paths =>
    show (s.offerFiles pc paths false).2.filter Outgoing.isList = _
    unfold offerFiles
    split
    · rfl
    · dsimp only
      split <;> rfl
  | text text => rfl
  | empty =>
    rw [himage hshallow]
    cases pc.image s.content <;> rfl

omit [DecidableEq T] [DecidableEq H] in
theorem announce_false {shallow : Shallow}
    (h : (s.announce pc shallow image).1 = false) : (s.announce pc shallow image).2.2 = [] := by
  unfold announce at h ⊢
  cases shallow with
  | files paths | text text => exact Bool.noConfusion h
  | empty =>
    cases image with
    | none => rfl
    | some image => exact Bool.noConfusion h

theorem check_false {deep : Bool} (h : (s.check pc deep).1 = false) : (s.check pc deep).2.2 = [] := by
  unfold check at h ⊢
  split at h
  · rw [if_pos ‹_›]
  · rw [if_neg ‹_›]
    split at h
    · exact announce_false h
    · rfl

theorem sound_check (h : s.Sound pc) (deep : Bool) :
    Checked pc s deep (s.check pc deep).2 ∧ (s.check pc deep).2.1.Sound pc ∧ Beside s (s.check pc deep).2.1 := by
  have hstays (hready : s.worker.ready = true → s.worker.opened = false) :
      Checked pc s deep (s, []) ∧ s.Sound pc ∧ Beside s s :=
    ⟨.nothing rfl rfl fun hopen hr => absurd hopen (by rw [hready hr]; exact Bool.noConfusion), h,
      rfl, rfl, rfl, rfl⟩
  unfold check
  by_cases hready : s.worker.ready = false
  · rw [if_pos hready]
    exact hstays fun hr => absurd hr (by rw [hready]; exact Bool.noConfusion)
  rw [if_neg hready]
  by_cases hopen : s.worker.opened = true
  · obtain ⟨hlooked, hsound, token, seen, hs'⟩ := sound_look h hopen deep
    generalize s.look pc deep = r at hlooked hsound hs'
    obtain ⟨found, s'⟩ := r
    have hbeside : Beside s s' := by
      rw [show s' = _ from hs']
      exact ⟨rfl, rfl, rfl, rfl⟩
    cases hlooked with
    | nothing hseen => exact ⟨.nothing rfl rfl fun _ _ _ => hseen, h, rfl, rfl, rfl, rfl⟩
    | same hseen hdeep => exact ⟨.nothing hseen rfl fun _ _ hd => hdeep hd, hsound, hbeside⟩
    | @changed image _ hnew hseen himage =>
      let counted : Desk C D T H := { s' with worker := { s'.worker with changes := s'.worker.changes + 1 } }
      show Checked pc s deep (counted.announce pc (pc.readShallow s.content) image).2 ∧
        (counted.announce pc (pc.readShallow s.content) image).2.1.Sound pc ∧
        Beside s (counted.announce pc (pc.readShallow s.content) image).2.1
      have hview : (counted.announce pc (pc.readShallow s.content) image).2.1.view = s'.view :=
        view_announce pc counted _ image
      refine ⟨.announced hnew ((view_eq hview).2.2.2.1.trans hseen) ?_, hsound.of_view hview,
        hbeside.of_view rfl hview⟩
      have hs : s' = s.remember token seen := hs'
      have hcontent : counted.content = s.content := by
        show s'.content = s.content
        rw [hs]
        rfl
      have hfiles : counted.worker.filesOk = s.worker.filesOk := by
        show s'.worker.filesOk = s.worker.filesOk
        rw [hs]
        rfl
      have hdisk : counted.disk = s.disk := by
        show s'.disk = s.disk
        rw [hs]
        rfl
      rw [← hcontent, ← hfiles, ← hdisk]
      exact lists_announce (by rw [hcontent]; exact himage)
  · have hlook : s.look pc deep = (none, s) := by
      unfold look
      exact if_pos (Bool.eq_false_iff.mpr hopen)
    rw [hlook]
    exact hstays fun _ => Bool.eq_false_iff.mpr hopen

/-! ## A write of its own -/

omit [DecidableEq T] [DecidableEq H] in
theorem Sound.put (h : s.Sound pc) (content : C) : (s.put content).Sound pc where
  token := by
    intro t ht
    obtain ⟨count, hcount, w, hle, hw, -⟩ := h.token t ht
    exact ⟨count, hcount, w, Nat.le_succ_of_le hle, hw, fun heq => absurd heq (Nat.ne_of_lt (Nat.lt_succ_of_le hle))⟩
  image := h.image

theorem sound_absorb (h : s.Sound pc) (hopen : s.worker.opened = true) :
    (s.absorb pc).seen = pc.fingerprint s.content ∧ (s.absorb pc).Sound pc ∧ Beside s (s.absorb pc) := by
  obtain ⟨hlooked, hsound, token, seen, hs'⟩ := sound_look h hopen true
  refine ⟨?_, hsound, ?_⟩
  · show (s.look pc true).2.seen = pc.fingerprint s.content
    generalize s.look pc true = r at hlooked
    obtain ⟨found, s'⟩ := r
    cases hlooked with
    | nothing hseen => exact hseen
    | same hseen hdeep => exact hseen.trans (hdeep rfl)
    | changed hnew hseen himage => exact hseen
  · show Beside s (s.look pc true).2
    rw [hs']
    exact ⟨rfl, rfl, rfl, rfl⟩

/-! ## What happens to the clipboard -/

/-- What a message that is no check does to the clipboard: nothing; or there is a shallow check, perhaps
after files were written; or something is put on it. -/
inductive Happened (pc : Computer C D T H) (s : Desk C D T H) (r : Reply C D T H) : Prop where
  | quiet (hview : r.1.view = s.view) (hout : r.2.filter Outgoing.isList = [])
  | checked {t : Desk C D T H} (hview : t.view = s.view) (hfiles : t.worker.filesOk = s.worker.filesOk)
      (hafter : r.1.view = (t.check pc false).2.1.view)
      (hout : r.2.filter Outgoing.isList = (t.check pc false).2.2.filter Outgoing.isList)
  | put {t : Desk C D T H} (content : C) (hsound : t.Sound pc) (hopen : t.worker.opened = true)
      (hbeside : Beside s t) (hafter : r.1.view = ((t.put content).absorb pc).view)
      (hout : r.2.filter Outgoing.isList = [])

theorem Happened.after {r' : Reply C D T H} (h : Happened pc t r) (hview : t.view = s.view)
    (hfiles : t.worker.filesOk = s.worker.filesOk) (hr : r'.1 = r.1)
    (hout : r'.2.filter Outgoing.isList = r.2.filter Outgoing.isList) : Happened pc s r' := by
  cases h with
  | quiet hv ho => exact .quiet (by rw [hr, hv, hview]) (hout.trans ho)
  | checked hv hf ha ho => exact .checked (hv.trans hview) (hf.trans hfiles) (by rw [hr, ha]) (hout.trans ho)
  | put c hs hopen hb ha ho => exact .put c hs hopen (hb.of_view hview rfl) (by rw [hr, ha]) (hout.trans ho)

omit [DecidableEq T] [DecidableEq H] in
theorem progress_quiet (s : Desk C D T H) (now done total : ℕ) : (s.progress now done total).1.view = s.view ∧
    (s.progress now done total).2.filter Outgoing.isList = [] := by
  unfold progress
  split <;> exact ⟨rfl, rfl⟩

theorem happened_downloadFinished (h : s.Sound pc) (base : Path) (top : List Path) :
    Happened pc s (s.downloadFinished pc base top) := by
  obtain ⟨-, hsound, hbeside⟩ := sound_check h false
  unfold downloadFinished
  generalize hcheck : s.check pc false = r at hsound hbeside
  obtain ⟨found, s', out⟩ := r
  have hafter : s' = (s.check pc false).2.1 := by rw [hcheck]
  have hout : out = (s.check pc false).2.2 := by rw [hcheck]
  dsimp only
  split
  · refine .checked rfl rfl ?_ (by rw [hout])
    rw [← hafter]
    rfl
  · rename_i hnew
    have hfound : found = false := by
      by_contra hne
      exact hnew (.inl (eq_true_of_ne_false hne))
    have hsilent : out = [] := by
      rw [hout]
      exact check_false (by rw [hcheck]; exact hfound)
    have hopened : ∀ {content : C}, (if s'.worker.opened = true then pc.setFiles top s'.content
        else .error "no local clipboard".toList) = .ok content → s'.worker.opened = true := by
      intro content hset
      by_contra hne
      rw [if_neg hne] at hset
      cases hset
    split
    · rename_i content hset
      exact .put content hsound (hopened hset) hbeside rfl (by rw [hsilent]; rfl)
    · refine .checked rfl rfl ?_ ?_
      · rw [← hafter]
        rfl
      · rw [← hout, hsilent]
        rfl

theorem happened_downloadEnded (h : s.Sound pc) (now : ℕ) (progress : Progress) :
    Happened pc s (s.downloadEnded pc now progress) := by
  cases progress with
  | running done total =>
    obtain ⟨hview, hout⟩ := progress_quiet s now done total
    exact .quiet hview hout
  | failed message => exact .quiet rfl rfl
  | finished top =>
    unfold downloadEnded
    cases hdownload : s.worker.download with
    | none => exact .quiet rfl rfl
    | some download =>
      have hview : (s.endDownload pc).view = s.view := rfl
      exact (happened_downloadFinished (h.of_view hview) download.base top).after hview rfl rfl rfl

theorem requests_no_list (requests : List FileContentsRequest) (out : List Outgoing) :
    (requests.map Outgoing.fileContentsRequest ++ out).filter Outgoing.isList = out.filter Outgoing.isList := by
  induction requests with
  | nil => rfl
  | cons request requests ih => exact ih

theorem happened_startDownload (h : s.Sound pc) (now : ℕ) (entries : List RemoteEntry)
    (clipDataId : Option UInt32) : Happened pc s (s.startDownload pc now entries clipDataId) := by
  unfold startDownload
  extract_lets base started worker s'
  have hview : s'.view = s.view := rfl
  have hfiles : s'.worker.filesOk = s.worker.filesOk := rfl
  split
  · rename_i requests hok
    obtain ⟨hquiet, hout⟩ := progress_quiet s' now 0 0
    exact .quiet (hquiet.trans hview) ((requests_no_list requests _).trans hout)
  · rename_i result herror
    exact (happened_downloadEnded (h.of_view hview) now result).after hview hfiles rfl rfl

theorem happened_fileResponse (h : s.Sound pc) (now : ℕ) (streamId : UInt32) (data : Option (List UInt8)) :
    Happened pc s (s.fileResponse pc now streamId data) := by
  unfold fileResponse
  split
  · exact .quiet rfl rfl
  · rename_i download hdownload
    generalize (Run.mk download s.disk s.worker.nextStream).onResponse pc.fs streamId data = r
    obtain ⟨run, requests, progress⟩ := r
    let s' : Desk C D T H := { s with
      disk := run.disk
      worker := { s.worker with download := some run.download, nextStream := run.nextStream } }
    have hview : s'.view = s.view := rfl
    exact (happened_downloadEnded (h.of_view hview) now progress).after hview rfl rfl (requests_no_list requests _)

theorem happened_remoteFiles (h : s.Sound pc) (now : ℕ) (files : List FileDescriptor)
    (clipDataId : Option UInt32) : Happened pc s (s.remoteFiles pc now files clipDataId) := by
  unfold remoteFiles
  split
  · exact .quiet rfl rfl
  · exact happened_startDownload h now _ clipDataId
  · exact .quiet rfl rfl

theorem happened_store (h : s.Sound pc) (content : RemoteContent) : Happened pc s (s.store pc content, []) := by
  unfold store
  dsimp only
  split
  · exact .quiet rfl rfl
  · rename_i hopen
    split
    · rename_i stored hset
      exact .put stored h (eq_true_of_ne_false hopen) ⟨rfl, rfl, rfl, rfl⟩ rfl rfl
    · exact .quiet rfl rfl

theorem happened_handle (h : s.Sound pc) (now : ℕ) (hcalm : e.calm = true) (hcheck : ∀ deep, e ≠ .check deep)
    (hpoll : e ≠ .poll) (hoffer : ∀ paths, e ≠ .offerFiles paths) : Happened pc s (s.handle pc now e) := by
  cases e with
  | initial | ready | write content => exact Bool.noConfusion hcalm
  | check deep => exact absurd rfl (hcheck deep)
  | poll => exact absurd rfl hpoll
  | offerFiles paths => exact absurd rfl (hoffer paths)
  | capabilities streamFileclip | serve format => exact .quiet rfl rfl
  | copied msg =>
    cases msg with
    | remoteCopy => exact .quiet rfl rfl
    | store content => exact happened_store h content
    | remoteFiles files clipDataId => exact happened_remoteFiles h now files clipDataId
  | download =>
    unfold handle
    cases hoffered : s.worker.offered with
    | none => exact .quiet rfl rfl
    | some offered =>
      let s' : Desk C D T H := { s with worker := { s.worker with offered := none } }
      have hview : s'.view = s.view := rfl
      exact (happened_startDownload (h.of_view hview) now offered.1 offered.2).after hview rfl rfl rfl
  | fileRequest request => exact .quiet rfl rfl
  | fileResponse streamId data => exact happened_fileResponse h now streamId data
  | lock id | unlock id | disk disk => exact .quiet rfl rfl

/-! ## A step -/

/-- What a step does to what is seen and announced, other programs aside. -/
inductive Stepped (pc : Computer C D T H) (s : Desk C D T H) (e : DeskEvent C D) (r : Reply C D T H) : Prop where
  | put (hseen : r.1.seen = pc.fingerprint r.1.content) (hwrites : s.writes < r.1.writes)
      (hout : announced e r.2 = [])
  | nothing (hcontent : r.1.content = s.content) (hwrites : r.1.writes = s.writes) (hseen : r.1.seen = s.seen)
      (hout : announced e r.2 = [])
      (hdeep : s.worker.opened = true → s.worker.ready = true → e = .check true →
        s.seen = pc.fingerprint s.content)
  | announced (hcontent : r.1.content = s.content) (hwrites : r.1.writes = s.writes)
      (hnew : s.seen ≠ pc.fingerprint s.content) (hseen : r.1.seen = pc.fingerprint s.content) {disk : D}
      (hdisk : e = .poll ∨ (∃ deep, e = .check deep) → disk = s.disk)
      (hout : announced e r.2 = pc.formatsOf s.content s.worker.filesOk disk)

/-- A step keeps the worker sound, and whether it may speak. -/
structure Steady (pc : Computer C D T H) (s s' : Desk C D T H) : Prop where
  sound : s'.Sound pc
  opened : s'.worker.opened = s.worker.opened
  ready : s'.worker.ready = s.worker.ready

theorem stepped_check (h : s.Sound pc) {now : ℕ} {e : DeskEvent C D} {deep : Bool}
    (he : s.handle pc now e = (s.check pc deep).2) (hlists : ∀ out, announced e out = out.filter Outgoing.isList)
    (hdeep : e = .check true → deep = true) :
    Stepped pc s e (s.handle pc now e) ∧ Steady pc s (s.handle pc now e).1 := by
  obtain ⟨hchecked, hsound, hbeside⟩ := sound_check h deep
  rw [he]
  refine ⟨?_, hsound, hbeside.opened, hbeside.ready⟩
  cases hchecked with
  | nothing hseen hout hknown =>
    exact .nothing hbeside.content hbeside.writes hseen ((hlists _).trans hout)
      fun hopen hready hcheck => hknown hopen hready (hdeep hcheck)
  | announced hnew hseen hout =>
    exact .announced hbeside.content hbeside.writes hnew hseen (fun _ => rfl) ((hlists _).trans hout)

theorem stepped_happened (h : s.Sound pc) (hr : Happened pc s r)
    (hlists : ∀ out, announced e out = out.filter Outgoing.isList) (hcheck : ∀ deep, e ≠ .check deep)
    (hpoll : e ≠ .poll) : Stepped pc s e r ∧ Steady pc s r.1 := by
  cases hr with
  | quiet hview hout =>
    obtain ⟨hopened, hready, -, hseen, hcontent, hwrites⟩ := view_eq hview
    exact ⟨.nothing hcontent hwrites hseen ((hlists _).trans hout) fun _ _ he => absurd he (hcheck true),
      h.of_view hview, hopened, hready⟩
  | @checked t hview hfiles hafter hout =>
    obtain ⟨hchecked, hsound, hbeside⟩ := sound_check (h.of_view hview) false
    obtain ⟨-, -, -, hseen₀, hcontent₀, -⟩ := view_eq hview
    obtain ⟨-, -, -, hseen₁, -, -⟩ := view_eq hafter
    have hb : Beside s r.1 := hbeside.of_view hview hafter
    refine ⟨?_, hsound.of_view hafter, hb.opened, hb.ready⟩
    cases hchecked with
    | nothing hseen hnone hknown =>
      exact .nothing hb.content hb.writes (hseen₁.trans (hseen.trans hseen₀))
        ((hlists _).trans (hout.trans hnone)) fun _ _ he => absurd he (hcheck true)
    | announced hnew hseen hsent =>
      rw [hseen₀, hcontent₀] at hnew
      rw [hcontent₀] at hseen
      rw [hcontent₀, hfiles] at hsent
      refine .announced hb.content hb.writes hnew (hseen₁.trans hseen) ?_ ((hlists _).trans (hout.trans hsent))
      rintro (he | ⟨deep, he⟩)
      · exact absurd he hpoll
      · exact absurd he (hcheck deep)
  | @put t content hsound hopen hbeside hafter hout =>
    obtain ⟨hknown, habsorbed, hb⟩ := sound_absorb (hsound.put content) hopen
    obtain ⟨hopened₁, hready₁, -, hseen₁, hcontent₁, hwrites₁⟩ := view_eq hafter
    refine ⟨.put ?_ ?_ ((hlists _).trans hout), habsorbed.of_view hafter, ?_, ?_⟩
    · rw [hseen₁, hknown, hcontent₁, hb.content]
    · rw [hwrites₁, hb.writes, ← hbeside.writes]
      exact Nat.lt_succ_self _
    · exact hopened₁.trans (hb.opened.trans hbeside.opened)
    · exact hready₁.trans (hb.ready.trans hbeside.ready)

theorem stepped (h : s.Sound pc) (e : ℕ × DeskEvent C D) (hcalm : e.2.calm = true) :
    Stepped pc s e.2 (s.handle pc e.1 e.2) ∧ Steady pc s (s.step pc e) := by
  obtain ⟨now, e⟩ := e
  by_cases hcheck : ∃ deep, e = .check deep
  · obtain ⟨deep, rfl⟩ := hcheck
    exact @stepped_check _ _ _ _ _ _ _ _ h _ _ deep rfl (fun _ => rfl) fun he => DeskEvent.check.inj he
  by_cases hpoll : e = .poll
  · subst hpoll
    exact @stepped_check _ _ _ _ _ _ _ _ h _ _ false rfl (fun _ => rfl) (by intro he; cases he)
  by_cases hoffer : ∃ paths, e = .offerFiles paths
  · obtain ⟨paths, rfl⟩ := hoffer
    have hview := view_offerFiles pc s paths true
    obtain ⟨hopened, hready, -, hseen, hcontent, hwrites⟩ := view_eq hview
    exact ⟨.nothing hcontent hwrites hseen rfl (by intro _ _ he; cases he), h.of_view hview, hopened, hready⟩
  have hch : ∀ deep, e ≠ .check deep := fun deep he => hcheck ⟨deep, he⟩
  have hof : ∀ paths, e ≠ .offerFiles paths := fun paths he => hoffer ⟨paths, he⟩
  refine stepped_happened h (happened_handle h now hcalm hch hpoll hof) ?_ hch hpoll
  intro out
  cases e with
  | offerFiles paths => exact absurd rfl (hof paths)
  | _ => rfl

/-! ## Runs -/

/-- No other program writes, and nothing looks whether or not anything changed. -/
def Calm (events : List (ℕ × DeskEvent C D)) : Prop := ∀ e ∈ events, e.2.calm = true

theorem sound_announceCurrent (pc : Computer C D T H) (s : Desk C D T H) :
    (s.announceCurrent pc).2.1.Sound pc ∧ (s.announceCurrent pc).2.1.writes = s.writes := by
  let s' : Desk C D T H :=
    { s with worker := { s.worker with lastToken := none, lastShallow := none, lastImage := none } }
  have hs' : s'.Sound pc := by
    constructor
    · intro t ht
      cases ht
    · intro himage
      exact absurd rfl himage
  obtain ⟨-, hsound, hbeside⟩ := sound_check hs' true
  exact ⟨hsound, hbeside.writes⟩

theorem sound_step (h : s.Sound pc) (e : ℕ × DeskEvent C D) :
    (s.step pc e).Sound pc ∧ (e.2.calm = false → (∀ c, e.2 ≠ .write c) → (s.step pc e).writes = s.writes) := by
  by_cases hcalm : e.2.calm = true
  · exact ⟨(stepped h e hcalm).2.sound, fun hno => absurd hcalm (by rw [hno]; exact Bool.noConfusion)⟩
  obtain ⟨now, e⟩ := e
  cases e with
  | initial =>
    by_cases hready : s.worker.ready = true
    · have hstep : s.step pc (now, .initial) = (s.announceCurrent pc).2.1 := by
        simp only [step, handle, if_pos hready]
      rw [hstep]
      obtain ⟨hsound, hwrites⟩ := sound_announceCurrent pc s
      exact ⟨hsound, fun _ _ => hwrites⟩
    · have hstep : s.step pc (now, .initial) = s := by simp only [step, handle, if_neg hready]
      rw [hstep]
      exact ⟨h, fun _ _ => rfl⟩
  | ready =>
    obtain ⟨hsound, hwrites⟩ := sound_announceCurrent pc
      ({ s with worker := { s.worker with ready := true } } : Desk C D T H)
    exact ⟨hsound, fun _ _ => hwrites⟩
  | write content => exact ⟨h.put content, fun _ hno => absurd rfl (hno content)⟩
  | _ => exact absurd rfl hcalm

omit [DecidableEq T] [DecidableEq H] in
theorem sound_new (pc : Computer C D T H) (opened : Bool) (folder : Path) (content : C) (disk : D) :
    (Desk.new opened folder content disk : Desk C D T H).Sound pc where
  token := by
    intro t ht
    cases ht
  image := by
    intro himage
    exact absurd rfl himage

theorem sound_run (h : s.Sound pc) (events : List (ℕ × DeskEvent C D)) : (Steps.run (step pc) s events).Sound pc := by
  induction events generalizing s with
  | nil => exact h
  | cons e events ih => exact ih (sound_step h e).1

variable {events : List (ℕ × DeskEvent C D)}

theorem announcements_of_seen (h : s.Sound pc) (hseen : s.seen = pc.fingerprint s.content) (hcalm : Calm events) : announcements pc s events = [] := by
  induction events generalizing s with
  | nil => rfl
  | cons e events ih =>
    obtain ⟨hstep, hsteady⟩ := stepped h e (hcalm e List.mem_cons_self)
    have hrest : ∀ {s' : Desk C D T H}, s'.Sound pc → s'.seen = pc.fingerprint s'.content →
        announcements pc s' events = [] :=
      fun hs hk => ih hs hk fun e he => hcalm e (List.mem_cons_of_mem _ he)
    show announced e.2 (s.handle pc e.1 e.2).2 ++ announcements pc (s.step pc e) events = []
    cases hstep with
    | put hknown hwrites hout => rw [hout, hrest hsteady.sound hknown, List.append_nil]
    | nothing hcontent hwrites hsame hout hdeep =>
      have hcontent' : (s.step pc e).content = s.content := hcontent
      rw [hout, hrest hsteady.sound (by rw [hcontent']; exact hsame.trans hseen), List.append_nil]
    | announced hcontent hwrites hnew => exact absurd hseen hnew

theorem writes_le (h : s.Sound pc) (hcalm : Calm events) : s.writes ≤ (Steps.run (step pc) s events).writes := by
  induction events generalizing s with
  | nil => exact le_rfl
  | cons e events ih =>
    obtain ⟨hstep, hsteady⟩ := stepped h e (hcalm e List.mem_cons_self)
    refine le_trans ?_ (ih hsteady.sound fun e he => hcalm e (List.mem_cons_of_mem _ he))
    cases hstep with
    | put hknown hwrites hout => exact Nat.le_of_lt hwrites
    | nothing hcontent hwrites hsame hout hdeep => exact Nat.le_of_eq hwrites.symm
    | announced hcontent hwrites hnew => exact Nat.le_of_eq hwrites.symm

/-- The announcement of a content: what is said in one step of the run, and nothing before or after. -/
def AnnouncedIn (pc : Computer C D T H) (s : Desk C D T H) (events : List (ℕ × DeskEvent C D)) (content : C) :
    Prop :=
  ∃ before e after disk, events = before ++ e :: after ∧
    (e.2 = .poll ∨ (∃ deep, e.2 = .check deep) → disk = (Steps.run (step pc) s before).disk) ∧
    announcements pc s events =
      pc.formatsOf content (Steps.run (step pc) s before).worker.filesOk disk

theorem announced_once (h : s.Sound pc) (hnew : s.seen ≠ pc.fingerprint s.content)
    (hopen : s.worker.opened = true) (hready : s.worker.ready = true)
    (hcalm : Calm events) (hwrites : (Steps.run (step pc) s events).writes = s.writes)
    (hdeep : ∃ now, (now, .check true) ∈ events) : AnnouncedIn pc s events s.content := by
  induction events generalizing s with
  | nil =>
    obtain ⟨now, hmem⟩ := hdeep
    cases hmem
  | cons e events ih =>
    obtain ⟨hstep, hsteady⟩ := stepped h e (hcalm e List.mem_cons_self)
    have hrest : Calm events := fun e he => hcalm e (List.mem_cons_of_mem _ he)
    have hle : (s.step pc e).writes ≤ s.writes := le_trans (writes_le hsteady.sound hrest) (Nat.le_of_eq hwrites)
    cases hstep with
    | put hknown hmore hout => exact absurd hle (Nat.not_le_of_lt hmore)
    | nothing hcontent hsame hseen hout hdeep' =>
      have hcontent' : (s.step pc e).content = s.content := hcontent
      have hseen' : (s.step pc e).seen = s.seen := hseen
      have hsame' : (s.step pc e).writes = s.writes := hsame
      have hlater : ∃ now, (now, .check true) ∈ events := by
        obtain ⟨now, hmem⟩ := hdeep
        rcases List.mem_cons.mp hmem with heq | hmem
        · exact absurd (hdeep' hopen hready (by rw [← heq])) hnew
        · exact ⟨now, hmem⟩
      obtain ⟨before, e', after, disk, hevents, hdisk, hannounced⟩ :=
        ih hsteady.sound (by rw [hseen', hcontent']; exact hnew) (hsteady.opened.trans hopen)
          (hsteady.ready.trans hready) hrest (hwrites.trans hsame'.symm) hlater
      refine ⟨e :: before, e', after, disk, by rw [hevents, List.cons_append], hdisk, ?_⟩
      show announced e.2 (s.handle pc e.1 e.2).2 ++ announcements pc (s.step pc e) events = _
      rw [hout, List.nil_append, hannounced, hcontent']
      rfl
    | @announced hcontent hsame _ hseen disk hdisk hout =>
      have hcontent' : (s.step pc e).content = s.content := hcontent
      refine ⟨[], e, events, disk, rfl, hdisk, ?_⟩
      show announced e.2 (s.handle pc e.1 e.2).2 ++ announcements pc (s.step pc e) events = _
      rw [hout, announcements_of_seen hsteady.sound (by rw [hcontent']; exact hseen) hrest, List.append_nil]
      rfl

/-- After a write of its own the worker announces nothing until another program writes. What another
program writes, a run of checks, one of them deep, announces once before the next write, unless it reads as
what was seen last. -/
theorem never_echoes (pc : Computer C D T H) (opened : Bool) (folder : Path) (content : C) (disk : D)
    (events : List (ℕ × DeskEvent C D)) :
    let s : Desk C D T H := Steps.run (step pc) (.new opened folder content disk) events
    (∀ e later, (∀ c, e.2 ≠ .write c) → (s.step pc e).writes ≠ s.writes → Calm later →
      announcements pc (s.step pc e) later = []) ∧
    ∀ c later, Calm later → (Steps.run (step pc) (s.put c) later).writes = (s.put c).writes →
      s.worker.opened = true → s.worker.ready = true → (∃ now, (now, .check true) ∈ later) →
      (s.seen = pc.fingerprint c → announcements pc (s.put c) later = []) ∧
      (s.seen ≠ pc.fingerprint c → AnnouncedIn pc (s.put c) later c) := by
  intro s
  have hsound : s.Sound pc := sound_run (sound_new pc opened folder content disk) events
  refine ⟨?_, ?_⟩
  · intro e later hno hwrote hlater
    by_cases hcalm : e.2.calm = true
    · obtain ⟨hstep, hsteady⟩ := stepped hsound e hcalm
      cases hstep with
      | put hknown hwrites hout => exact announcements_of_seen hsteady.sound hknown hlater
      | nothing hcontent hwrites hsame hout hdeep => exact absurd hwrites hwrote
      | announced hcontent hwrites hnew => exact absurd hwrites hwrote
    · exact absurd ((sound_step hsound e).2 (Bool.eq_false_iff.mpr hcalm) hno) hwrote
  · intro c later hlater hwrites hopen hready hdeep
    exact ⟨fun hseen => announcements_of_seen (hsound.put c) hseen hlater,
      fun hnew => announced_once (hsound.put c) hnew hopen hready hlater hwrites hdeep⟩

/-! ## The same again -/

def notepad : Computer Text Unit ℕ (Shallow ⊕ Formats.Rgba) where
  windows := false
  files _ := none
  text content := if content = [] then none else some content
  html _ := none
  image _ := none
  setText text _ _ := .ok text
  setImage _ _ := .error []
  setFiles _ _ := .error []
  counter := some (.refl ℕ)
  hashShallow := .inl
  hashImage := .inr
  collect _ _ := ⟨[], []⟩
  contents _ _ _ := none
  fs _ _ := (none, ())
  removeDirAll _ _ := ()

/-- The server's copy is on the clipboard of a session that is up. -/
def copiedOver : Desk Text Unit ℕ (Shallow ⊕ Formats.Rgba) :=
  Steps.run (step notepad) (.new true [] [] ()) [(0, .ready), (1, .copied (.store ⟨some ['a'], none, none⟩))]

/-- The server's text is not announced back, and what is copied over it is, by the first check. -/
theorem never_echoes_notepad : announcements notepad copiedOver [(2, .check true), (3, .poll)] = [] ∧
    AnnouncedIn notepad (copiedOver.put ['b']) [(2, .poll), (3, .check true)] ['b'] := by
  have hcalm : Calm ([(2, .check true), (3, .poll)] : List (ℕ × DeskEvent Text Unit)) := by
    rintro e (_ | ⟨_, _ | ⟨_, ⟨⟩⟩⟩) <;> rfl
  have hcalm' : Calm ([(2, .poll), (3, .check true)] : List (ℕ × DeskEvent Text Unit)) := by
    rintro e (_ | ⟨_, _ | ⟨_, ⟨⟩⟩⟩) <;> rfl
  refine ⟨?_, ?_⟩
  · exact (never_echoes notepad true [] [] () [(0, .ready)]).1 (1, .copied (.store ⟨some ['a'], none, none⟩)) _
      (by intro c he; cases he) (by decide +kernel) hcalm
  · exact ((never_echoes notepad true [] [] ()
      [(0, .ready), (1, .copied (.store ⟨some ['a'], none, none⟩))]).2 ['b'] _ hcalm' (by decide +kernel)
      (by decide +kernel) (by decide +kernel) ⟨3, List.mem_cons_of_mem _ List.mem_cons_self⟩).2
      (by decide +kernel)

/-- Another program copies the text that the server copied before: a deep check takes it for the old copy,
counter or not, and the server is not told. -/
theorem same_text_unannounced :
    ¬∀ (c : Text) (later : List (ℕ × DeskEvent Text Unit)), notepad.readShallow c ≠ .empty → Calm later →
      (Steps.run (step notepad) (copiedOver.put c) later).writes = (copiedOver.put c).writes →
      (∃ now, (now, .check true) ∈ later) → (announcements notepad (copiedOver.put c) later).length = 1 := by
  intro h
  have hone := h ['a'] [(2, .check true)] (by decide) (by intro e he; rw [List.mem_singleton.mp he]; rfl)
    (by decide +kernel) ⟨2, List.mem_singleton.mpr rfl⟩
  have hnone : announcements notepad (copiedOver.put ['a']) [(2, .check true)] = [] := by decide +kernel
  rw [hnone] at hone
  exact absurd hone (by decide)

end Desk

end Clipboard

end UwuRdp
