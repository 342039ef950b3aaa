import UwuRdp.Core.Handles
import UwuRdp.Store.Preference

/-!
# Shared folders are apart

A request that names one device leaves the handles of the others alone, and the files that only these
reach, except that closing does not ask for the device.
-/

namespace UwuRdp

open Lib Lib.FileTree

namespace Drive

open Act (Ends)

variable {s s' : FsBackend} {r : Request}

/-! ## Handles of other devices -/

/-- A request names a handle that was opened on another device. -/
def Foreign (s : FsBackend) (r : Request) : Prop :=
  ∃ req o, r.handle? = some req ∧ s.opened.get? req.fileId = some o ∧ o.deviceId ≠ req.deviceId

/-- A file a device reaches itself: by an own handle, or at or below what a path in its share names or
leads to. -/
def ReachedBy (s : FsBackend) (dev : UInt32) (id : ℕ) : Prop :=
  (∃ handle o file, s.opened.get? handle = some o ∧ o.deviceId = dev ∧ o.file = some file ∧ file.id = id) ∨
    ∃ path top place e, Rooted s dev path ∧
      (s.disk.locate path = .ok top ∨ s.disk.canonicalize path = .ok top) ∧ Under top place ∧
      s.disk.entry place = some e ∧ e.id = id

def SameFile (t t' : Disk) (id : ℕ) : Prop :=
  t'.data id = t.data id ∧ ∀ place e, e.id = id → (t'.entry place = some e ↔ t.entry place = some e)

theorem SameFile.refl (t : Disk) (id : ℕ) : SameFile t t id := ⟨rfl, fun _ _ _ => Iff.rfl⟩

/-- A request leaves the other devices alone: it is refused where it names one of their handles, and
changes none of these and no file that only they reach. -/
structure Isolated [Platform] (s : FsBackend) (r : Request) : Prop where
  refused : Foreign s r → (∃ e, (r.handle { s with touched := [] }).1 = .error e) ∧
    (step s r).opened = s.opened ∧ (step s r).disk = s.disk
  handles : ∀ id o, s.opened.get? id = some o → o.deviceId ≠ r.deviceId →
    (step s r).opened.get? id = some o
  files : ∀ id < s.disk.next, ¬ReachedBy s r.deviceId id → SameFile s.disk (step s r).disk id

/-- A handle that is closed is one of the device the request names. -/
def ClosesOwn (s : FsBackend) : Request → Prop
  | .close req => ∀ o, s.opened.get? req.fileId = some o → o.deviceId = req.deviceId
  | _ => True

theorem deviceId_of_handle {req : IoRequest} (h : r.handle? = some req) : r.deviceId = req.deviceId := by
  cases r with
  | create req' => cases h
  | close | read | write | queryInformation | queryVolume | setInformation | queryDirectory =>
    cases h
    rfl

theorem Outcome.handles (h : Outcome s r s') (hs : Handled s) (hclose : ClosesOwn s r) {id : UInt32} {o : Open}
    (ho : s.opened.get? id = some o) (hdev : o.deviceId ≠ r.deviceId) : s'.opened.get? id = some o := by
  cases h with
  | looked => exact ho
  | opened =>
    obtain ⟨k, -, hid, hnone⟩ := hs.free
    rw [hid]
    refine (Table.get?_set_ne fun heq => ?_).trans ho
    rw [heq, hnone] at ho
    cases ho
  | @closed req o' _ there =>
    refine (Table.get?_erase _ _ _).trans ?_
    rw [if_neg, ho]
    rintro rfl
    rw [ho] at there
    exact hdev (hclose o ho)
  | written => exact ho
  | @updated _ req o' _ _ _ names there dev =>
    refine (Table.get?_set_ne fun heq => ?_).trans ho
    rw [heq, there] at ho
    cases ho
    exact hdev (dev.trans (deviceId_of_handle names).symm)

variable {id : ℕ}

theorem sameFile_onData {t : Disk} {id' : ℕ} {f : FileData → FileData} (h : id ≠ id') :
    SameFile t (onData t id' f) id := ⟨Function.update_of_ne h _ _, fun _ _ _ => Iff.rfl⟩

variable {disk : Disk} {path : PathBuf} {dev : UInt32}

theorem Opening.sameFile {disposition : UInt32}
    (h : Opening s.disk path disposition disk) (hrooted : Rooted s dev path) (hid : id < s.disk.next)
    (hreached : ¬ReachedBy s dev id) : SameFile s.disk disk id := by
  cases h with
  | found => exact .refl _ _
  | @truncated place e truncates leads =>
    obtain ⟨hleads, hentry⟩ := metadata_eq_ok leads
    refine sameFile_onData fun heq => hreached ?_
    exact .inr ⟨path, place, place, e, hrooted, .inr hleads, .refl place, hentry, heq.symm⟩
  | @made place make creates names free numbered =>
    have hne : place ≠ [] := by
      rintro rfl
      rw [entry_nil] at free
      cases free
    refine ⟨Function.update_of_ne (Nat.ne_of_lt hid) _ _, fun p e he => ?_⟩
    rw [entry_add hne]
    split
    · next hp =>
      rw [hp, free]
      refine ⟨fun h => ?_, fun h => by cases h⟩
      have hfresh := congrArg Entry.id (Option.some.inj h)
      rw [numbered, he] at hfresh
      omega
    · exact Iff.rfl

theorem Closing.sameFile (h : Closing s.disk path disk) (hrooted : Rooted s dev path)
    (hreached : ¬ReachedBy s dev id) : SameFile s.disk disk id := by
  cases h with
  | left => exact .refl _ _
  | @removed place names ne =>
    refine ⟨rfl, fun p e he => ?_⟩
    rw [entry_remove ne]
    split
    · next hp =>
      refine ⟨fun h => ?_, fun h => absurd ?_ hreached⟩
      · cases h
      exact .inr ⟨path, place, p, e, hrooted, .inl names, hp ▸ .refl p, h, he⟩
    · exact Iff.rfl

theorem Moving.sameFile {target path' : PathBuf}
    (h : Moving s.disk path target disk path') (hpath : Rooted s dev path) (htarget : Rooted s dev target)
    (hreached : ¬ReachedBy s dev id) : SameFile s.disk disk id := by
  cases h with
  | left => exact .refl _ _
  | @moved old new t renamed =>
    obtain ⟨-, hold, hnew, -, ⟨-, rfl⟩ | ⟨holdne, hnewne, -, -, rfl⟩⟩ := rename_eq_ok renamed
    · exact .refl _ _
    · refine ⟨rfl, fun p e he => ?_⟩
      rw [entry_move holdne hnewne]
      constructor
      · rintro (⟨rest, rfl, hentry⟩ | ⟨-, -, hentry⟩)
        · exact absurd (.inr ⟨path, old, old ++ rest, e, hpath, .inl hold, .append old rest, hentry, he⟩) hreached
        · exact hentry
      · refine fun hentry => .inr ⟨fun hunder => hreached ?_, fun hunder => hreached ?_, hentry⟩
        · exact .inr ⟨path, old, p, e, hpath, .inl hold, hunder, hentry, he⟩
        · exact .inr ⟨target, new, p, e, htarget, .inl hnew, hunder, hentry, he⟩

theorem Outcome.files (h : Outcome s r s') (hs : Handled s) (hclose : ClosesOwn s r)
    (hid : id < s.disk.next) (hreached : ¬ReachedBy s r.deviceId id) : SameFile s.disk s'.disk id := by
  cases h with
  | looked => exact .refl _ _
  | opened room rooted opening => exact opening.sameFile rooted hid hreached
  | @closed req o _ there closing =>
    have hrooted := hs.rooted _ o there
    rw [hclose o there] at hrooted
    exact closing.sameFile hrooted hreached
  | @written _ req o file f names there dev isOpen =>
    refine sameFile_onData fun heq => hreached (.inl ⟨req.fileId, o, file, there, ?_, isOpen, heq.symm⟩)
    rw [dev, deviceId_of_handle names]
  | @updated _ req o o' target disk names there dev rooted moving =>
    have hrooted := hs.rooted _ o there
    rw [dev] at hrooted
    rw [deviceId_of_handle names] at hreached
    exact moving.sameFile hrooted rooted hreached

theorem handle_foreign [Platform] (h : Foreign s r) (hclose : ∀ req, r ≠ .close req) :
    ∃ e, r.handle s = (.error e, s) := by
  obtain ⟨req, o, hnames, ho, hdev⟩ := h
  have hopened : openedFile req s = (.error .invalidParameter, s) := by
    unfold openedFile
    rw [Act.get_bind, ho]
    dsimp only
    rw [if_neg hdev]
    rfl
  have hroot : ∀ {β : Type} {f : PathBuf → Io β}, (∀ root, f root s = (.error .invalidParameter, s)) →
      ∃ e, (shareRoot req.deviceId >>= f) s = (.error e, s) := by
    intro β f hf
    have hshare : (∃ root, shareRoot req.deviceId s = (.ok root, s)) ∨
        shareRoot req.deviceId s = (.error .invalidDeviceRequest, s) := by
      unfold shareRoot
      rw [Act.get_bind]
      cases s.shares.get? req.deviceId with
      | none => exact .inr rfl
      | some share => exact .inl ⟨share.root, rfl⟩
    rcases hshare with ⟨root, hok⟩ | herror
    · exact ⟨_, (Act.bind_of_ok hok).trans (hf root)⟩
    · exact ⟨_, Act.bind_of_error herror⟩
  cases r with
  | create req' => cases hnames
  | close req' => exact absurd rfl (hclose req')
  | read req' length offset | write req' offset data | queryInformation req' level | queryVolume req' level space =>
    cases hnames
    exact ⟨_, Act.bind_of_error (Act.bind_of_error hopened)⟩
  | setInformation req' buffer | queryDirectory req' level initial pattern =>
    cases hnames
    obtain ⟨e, he⟩ := hroot fun root => Act.bind_of_error hopened
    exact ⟨e, Act.bind_of_error he⟩

theorem close_erases (req : IoRequest) {o : Open} (ho : s.opened.get? req.fileId = some o) :
    (close req s).2.opened = s.opened.erase req.fileId := by
  have hends : Ends (· = s) (close req) (fun _ s' => s'.opened = s.opened.erase req.fileId)
      fun _ s' => s'.opened = s.opened.erase req.fileId := by
    refine .get_bind fun s' hs' => ?_
    subst hs'
    rw [ho]
    refine .bind (R := fun _ => Quiet { s' with opened := s'.opened.erase req.fileId }) ?_ fun _ => ?_
    · exact Ends.modify fun _ hs => hs ▸ ⟨_, rfl⟩
    · split
      · refine Ends.bind (Ends.conseq (Peeks.isDir o.path) (fun _ hs => hs) (fun _ _ hs => hs.1)
          fun _ _ hs => hs.opened) fun dir => ?_
        refine .bind (R := fun _ s₁ => s₁.opened = s'.opened.erase req.fileId) ?_
          fun _ => .pure fun _ hs => hs
        refine .get_bind fun s₁ hs₁ => ?_
        split
        · exact .pure fun _ hs => hs ▸ hs₁.opened
        · rintro _ rfl
          exact hs₁.opened
      · exact .pure fun _ hs => hs.opened
  exact hends.always rfl

theorem isolated_iff [Platform] (hs : Handled s) (r : Request) : Isolated s r ↔ ClosesOwn s r := by
  constructor
  · intro h
    cases r with
    | close req =>
      intro o ho
      by_contra hdev
      have hkept := h.handles req.fileId o ho hdev
      have herased : (step s (.close req)).opened = s.opened.erase req.fileId := by
        refine Eq.trans ?_ (@close_erases { s with touched := [] } req o ho)
        show ((close req >>= fun _ => pure Answer.closed) { s with touched := [] }).2.opened = _
        generalize hrun : close req { s with touched := [] } = result
        obtain ⟨answer, s'⟩ := result
        cases answer with
        | ok u => rw [Act.bind_of_ok hrun]; rfl
        | error e => rw [Act.bind_of_error hrun]
      rw [herased, Table.get?_erase, if_pos rfl] at hkept
      cases hkept
    | create | read | write | queryInformation | queryVolume | setInformation | queryDirectory =>
      exact trivial
  · intro hclose
    obtain ⟨s₁, hout, hq⟩ := step_outcome hs.rooted r
    refine ⟨fun hforeign => ?_, fun id o ho hdev => ?_, fun id hid hreached => ?_⟩
    · obtain ⟨e, he⟩ := @handle_foreign { s with touched := [] } r _ hforeign fun req heq => by
        obtain ⟨req', o, hnames, ho, hdev⟩ := hforeign
        rw [heq] at hnames hclose
        cases hnames
        exact hdev (hclose o ho)
      unfold step
      rw [he]
      exact ⟨⟨e, rfl⟩, rfl, rfl⟩
    · rw [hq.opened]
      exact hout.handles hs hclose ho hdev
    · rw [hq.disk]
      exact hout.files hs hclose hid hreached

theorem along_isolated_iff [Platform] {requests : List Request} (hs : Handled s) :
    Steps.Along step Isolated s requests ↔ Steps.Along step ClosesOwn s requests := by
  induction requests generalizing s with
  | nil => exact Iff.rfl
  | cons r requests ih => exact and_congr (isolated_iff hs r) (ih (step_handled hs r))

/-- The shared folders are isolated from each other in a run exactly when each request closes only handles
of the device it names. -/
theorem shares_isolated [Platform] (disk : Disk) (shares : Table UInt32 Share) (requests : List Request) : Steps.Along
    step Isolated (FsBackend.new disk shares) requests ↔ Steps.Along step ClosesOwn (FsBackend.new disk shares)
    requests :=
  along_isolated_iff (handled_new disk shares)

def twoFolders : Disk :=
  ((FileTree.empty freshData).add [['a']] .dir freshData).add [['b']] .dir freshData

def twoShares : Table UInt32 Share := (Table.empty.set 1 ⟨['a'], [['a']]⟩).set 2 ⟨['b'], [['b']]⟩

/-- A file open on one device is closed by a request to the other. -/
theorem closed_by_other :
    letI := asciiPlatform
    ¬∀ (disk : Disk) (shares : Table UInt32 Share) (requests : List Request),
      Steps.Along step Isolated (FsBackend.new disk shares) requests := by
  let _ := asciiPlatform
  intro h
  have hrun := (along_isolated_iff (handled_new twoFolders twoShares)).mp
    (h twoFolders twoShares [.create ⟨1, ['n'], 0x52000006, 2, 0⟩, .close ⟨2, 1⟩])
  have hclose := hrun.2.1
  have hopen : ((step (FsBackend.new twoFolders twoShares)
      (.create ⟨1, ['n'], 0x52000006, 2, 0⟩)).opened.get? 1).map Open.deviceId = some 1 := by
    decide +kernel
  obtain ⟨o, ho, hdev⟩ := Option.map_eq_some_iff.mp hopen
  have hother := hclose o ho
  rw [hdev] at hother
  exact absurd hother (by decide)

end Drive

end UwuRdp
