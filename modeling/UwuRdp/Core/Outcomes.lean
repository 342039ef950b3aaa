import UwuRdp.Core.Drive

/-!
# What a drive request can do

One request either only looks, or does one thing to the disk and to the handle it names: it opens, closes,
changes the data of the open file, or moves the entry of its path. `Outcome` lists these with everything
they depend on; the laws about handles and shares are read off it.
-/

namespace UwuRdp

open Lib Lib.FileTree

namespace Drive

open Act (Ends)

variable {s s' s₁ : FsBackend} {α β : Type}

/-! ## Looking -/

def Quiet (s s' : FsBackend) : Prop := ∃ places, s' = { s with touched := places }

theorem Quiet.refl (s : FsBackend) : Quiet s s := ⟨s.touched, rfl⟩

theorem Quiet.disk (h : Quiet s s') : s'.disk = s.disk := by
  obtain ⟨places, rfl⟩ := h
  rfl

theorem Quiet.opened (h : Quiet s s') : s'.opened = s.opened := by
  obtain ⟨places, rfl⟩ := h
  rfl

theorem Quiet.shares (h : Quiet s s') : s'.shares = s.shares := by
  obtain ⟨places, rfl⟩ := h
  rfl

theorem Quiet.maxOpen (h : Quiet s s') : s'.maxOpen = s.maxOpen := by
  obtain ⟨places, rfl⟩ := h
  rfl

theorem Quiet.touch (h : Quiet s s') (places : List PathBuf) : Quiet s { s' with touched := places } := by
  obtain ⟨_, rfl⟩ := h
  exact ⟨places, rfl⟩

def Peeks (s : FsBackend) (m : Io α) (Q : α → Prop) : Prop :=
  Ends (Quiet s) m (fun a s' => Quiet s s' ∧ Q a) fun _ => Quiet s

variable {Q : α → Prop} {a : α} {e : NtStatus} {path : PathBuf} {o : Open} {listing : Option (List Text)}

theorem Peeks.pure (h : Q a) : Peeks s (pure a) Q :=
  Ends.pure fun _ hs => ⟨hs, h⟩

theorem Peeks.fail : Peeks s (Act.fail e) Q := Ends.fail fun _ hs => hs

theorem Peeks.bind {R : β → Prop} {m : Io α} {f : α → Io β} (hm : Peeks s m Q)
    (hf : ∀ a, Q a → Peeks s (f a) R) : Peeks s (m >>= f) R :=
  Ends.bind hm fun a s' hs => hf a hs.2 s' hs.1

theorem Peeks.get_bind {Q : β → Prop} {f : FsBackend → Io β} (h : ∀ s', Quiet s s' → Peeks s (f s') Q) :
    Peeks s (Act.get >>= f) Q :=
  fun s' hs' => h s' hs' s' hs'

theorem Peeks.touch {places : List PathBuf} : Peeks s (touch places) fun _ => True :=
  Ends.modify fun _ hs => ⟨hs.touch _, trivial⟩

theorem Peeks.orStatus {r : Except FileError α} (h : ∀ a, r = .ok a → Q a) : Peeks s (orStatus r) Q := by
  cases r with
  | ok a => exact .pure (h a rfl)
  | error e => exact .fail

theorem Peeks.ofExcept {r : Except NtStatus α} (h : ∀ a, r = .ok a → Q a) : Peeks s (Act.ofExcept r) Q := by
  cases r with
  | ok a => exact .pure (h a rfl)
  | error e => exact .fail

theorem Peeks.metadata (path : PathBuf) : Peeks s (metadata path) fun _ => True := by
  apply Peeks.get_bind
  intro s' _
  split
  · exact Peeks.pure trivial
  · exact .bind .touch fun _ _ => .pure trivial

theorem Peeks.isDir (path : PathBuf) : Peeks s (isDir path) fun _ => True :=
  .bind (.metadata path) fun _ _ => .pure trivial

theorem Peeks.entryExists (path : PathBuf) : Peeks s (entryExists path) fun _ => True := by
  apply Peeks.get_bind
  intro s' _
  split
  · exact Peeks.pure trivial
  · exact .bind .touch fun _ _ => .pure trivial

theorem Peeks.readDir (path : PathBuf) : Peeks s (readDir path) fun _ => True := by
  apply Peeks.get_bind
  intro s' _
  refine Peeks.bind (Peeks.orStatus fun _ _ => trivial) fun r _ => ?_
  exact .bind .touch fun _ _ => .pure trivial

theorem Peeks.touchFile (file : File) : Peeks s (touchFile file) fun _ => True :=
  .get_bind fun _ _ => .touch

theorem Peeks.shareRoot (device : UInt32) :
    Peeks s (shareRoot device) fun root => ∃ share, s.shares.get? device = some share ∧ root = share.root := by
  apply Peeks.get_bind
  intro s' hs'
  rw [hs'.shares]
  split
  · next share hshare => exact Peeks.pure ⟨share, hshare, rfl⟩
  · exact .fail

theorem Peeks.openedFile (req : IoRequest) :
    Peeks s (openedFile req) fun o => s.opened.get? req.fileId = some o ∧ o.deviceId = req.deviceId := by
  apply Peeks.get_bind
  intro s' hs'
  rw [hs'.opened]
  split
  · next o ho =>
    split
    · next hdev => exact Peeks.pure ⟨ho, hdev⟩
    · exact .fail
  · exact .fail

theorem Peeks.missingStatus (path : PathBuf) : Peeks s (missingStatus path) fun _ => True :=
  .bind (.isDir _) fun _ _ => .pure trivial

/-! ## What is done -/

/-- The dispositions that empty a file that is there. -/
def Truncates (disposition : UInt32) : Prop :=
  disposition = fileOverwrite ∨ disposition = fileOverwriteIf ∨ disposition = fileSupersede

instance (disposition : UInt32) : Decidable (Truncates disposition) := inferInstanceAs (Decidable (_ ∨ _))

/-- The dispositions that make a file that is not there. -/
def Creates (disposition : UInt32) : Prop := ¬(disposition = fileOpen ∨ disposition = fileOverwrite)

def emptied (d : FileData) : FileData := { d with bytes := [] }

/-- What opening a path does to the disk: nothing, or it empties the file it leads to, or makes one. -/
inductive Opening (disk : Disk) (path : PathBuf) (disposition : UInt32) : Disk → Prop
  | found : Opening disk path disposition disk
  | truncated {place : PathBuf} {e : Entry Text} (truncates : Truncates disposition)
      (leads : disk.metadata path = .ok (place, e)) :
      Opening disk path disposition (onData disk e.id emptied)
  | made {place : PathBuf} {make : ℕ → Entry Text} (creates : Creates disposition)
      (names : disk.locate path = .ok place) (free : disk.entry place = none)
      (numbered : ∀ id, (make id).id = id) :
      Opening disk path disposition (disk.add place make freshData)

/-- What closing does to the disk: nothing, or it deletes the entry of the path. -/
inductive Closing (disk : Disk) (path : PathBuf) : Disk → Prop
  | left : Closing disk path disk
  | removed {place : PathBuf} (names : disk.locate path = .ok place) (ne : place ≠ []) :
      Closing disk path (disk.remove place)

/-- What renaming does to the disk and to the path: nothing, or both move. -/
inductive Moving (disk : Disk) (path target : PathBuf) : Disk → PathBuf → Prop
  | left : Moving disk path target disk path
  | moved {old new : PathBuf} {t : Disk} (renamed : disk.rename path target = .ok (old, new, t)) :
      Moving disk path target t target

def Request.Writes : Request → Prop
  | .write .. => True
  | .setInformation _ (.endOfFile _) => True
  | _ => False

def Request.handle? : Request → Option IoRequest
  | create _ => none
  | close req | read req _ _ | write req _ _ | queryInformation req _ | queryVolume req _ _
  | setInformation req _ | queryDirectory req _ _ _ => some req

def Rooted (s : FsBackend) (dev : UInt32) (path : PathBuf) : Prop :=
  ∃ share, s.shares.get? dev = some share ∧ Under share.root path

/-- What one request leaves. -/
inductive Outcome (s : FsBackend) : Request → FsBackend → Prop
  | looked {r : Request} : Outcome s r s
  | opened {req : CreateRequest} {path : PathBuf} {disk : Disk} {o : Open}
      (room : s.opened.entries.length < s.maxOpen) (rooted : Rooted s req.deviceId path)
      (opening : Opening s.disk path req.createDisposition disk) (dev : o.deviceId = req.deviceId)
      (at' : o.path = path) (asked : o.writable = true → wantsWrite req.desiredAccess = true) :
      Outcome s (.create req)
        { s with
          disk := disk
          opened := s.opened.set (nextFreeId s.opened s.opened.entries.length s.nextId).1 o
          nextId := (nextFreeId s.opened s.opened.entries.length s.nextId).2 }
  | closed {req : IoRequest} {o : Open} {disk : Disk} (there : s.opened.get? req.fileId = some o)
      (closing : Closing s.disk o.path disk) :
      Outcome s (.close req) { s with disk := disk, opened := s.opened.erase req.fileId }
  | written {r : Request} {req : IoRequest} {o : Open} {file : File} {f : FileData → FileData}
      (names : r.handle? = some req) (there : s.opened.get? req.fileId = some o)
      (dev : o.deviceId = req.deviceId) (isOpen : o.file = some file)
      (allowed : r.Writes ∧ o.writable = true ∨ ∀ d, (f d).bytes = d.bytes) :
      Outcome s r { s with disk := onData s.disk file.id f }
  | updated {r : Request} {req : IoRequest} {o o' : Open} {target : PathBuf} {disk : Disk}
      (names : r.handle? = some req) (there : s.opened.get? req.fileId = some o)
      (dev : o.deviceId = req.deviceId) (rooted : Rooted s req.deviceId target)
      (moving : Moving s.disk o.path target disk o'.path) (dev' : o'.deviceId = o.deviceId)
      (same : o'.writable = o.writable) :
      Outcome s r { s with disk := disk, opened := s.opened.set req.fileId o' }

/-- What an action may leave on behalf of a request, whether it goes through or not. -/
def Results (s : FsBackend) (r : Request) (m : Io α) : Prop :=
  Ends (Quiet s) m (fun _ s' => ∃ s₁, Outcome s r s₁ ∧ Quiet s₁ s') fun _ s' =>
    ∃ s₁, Outcome s r s₁ ∧ Quiet s₁ s'

variable {r : Request} {m : Io α} {f : α → Io β}

theorem Peeks.results (h : Peeks s m Q) : Results s r m :=
  .conseq h (fun _ hs => hs) (fun _ _ hs => ⟨s, .looked, hs.1⟩) fun _ _ hs => ⟨s, .looked, hs⟩

theorem Results.bind_peeks (hm : Peeks s m Q) (hf : ∀ a, Q a → Results s r (f a)) : Results s r (m >>= f) := by
  refine .bind (R := fun a s' => Quiet s s' ∧ Q a) ?_ fun a s' hs => hf a hs.2 s' hs.1
  exact .conseq hm (fun _ hs => hs) (fun _ _ hs => hs) fun _ _ hs => ⟨s, .looked, hs⟩

theorem Results.fail : Results s r (Act.fail e : Io α) := Peeks.fail (Q := fun _ => True) |>.results

theorem Results.pure : Results s r (pure a : Io α) := Peeks.pure (Q := fun _ => True) trivial |>.results

theorem Results.get_bind {f : FsBackend → Io β} (h : ∀ s', Quiet s s' → Results s r (f s')) :
    Results s r (Act.get >>= f) :=
  fun s' hs' => h s' hs' s' hs'

theorem Results.then_peeks {m : Io α} {f : α → Io β} (hm : Results s r m)
    (hf : ∀ a s₁, Peeks s₁ (f a) fun _ => True) : Results s r (m >>= f) := by
  refine .bind hm fun a s' hs => ?_
  obtain ⟨s₁, hout, hquiet⟩ := hs
  have hleaves := hf a s₁ s' hquiet
  split at hleaves
  · exact ⟨s₁, hout, hleaves.1⟩
  · exact ⟨s₁, hout, hleaves⟩

/-! ## Create and close -/

theorem openFile_opens (path : PathBuf) (write truncate : Bool) :
    Ends (Quiet s) (openFile path write truncate)
      (fun r s' => Quiet s s' ∧ (truncate = true → ∃ e, r = .error e) ∨
        truncate = true ∧ ∃ place e, s.disk.metadata path = .ok (place, e) ∧
          (∃ file, r = .ok file) ∧ Quiet { s with disk := onData s.disk e.id emptied } s')
      fun _ => Quiet s := by
  refine .get_bind fun s' hs' => ?_
  rw [hs'.disk]
  split
  · next e he => exact .pure fun _ hs => .inl ⟨hs ▸ hs', fun _ => ⟨e, rfl⟩⟩
  · next place e he =>
    split
    · exact .pure fun _ hs => .inl ⟨hs ▸ hs', fun _ => ⟨_, rfl⟩⟩
    · split
      · exact .pure fun _ hs => .inl ⟨hs ▸ hs', fun _ => ⟨_, rfl⟩⟩
      · obtain ⟨places, rfl⟩ := hs'
        rintro _ rfl
        cases truncate with
        | false => exact .inl ⟨⟨_, rfl⟩, fun h => by cases h⟩
        | true => exact .inr ⟨rfl, place, e, he, ⟨_, rfl⟩, ⟨_, rfl⟩⟩

/-- What is opened or made at a path, and whether it may be written. -/
def Opened (s : FsBackend) (req : CreateRequest) (path : PathBuf) (r : Option File × Bool × UInt8)
    (s' : FsBackend) : Prop :=
  ∃ disk, Opening s.disk path req.createDisposition disk ∧ Quiet { s with disk := disk } s' ∧
    (r.2.1 = true → wantsWrite req.desiredAccess = true)

theorem openExisting_ends (req : CreateRequest) (path : PathBuf) (found : Meta) :
    Ends (Quiet s) (openExisting req path found) (Opened s req path) fun _ => Quiet s := by
  unfold openExisting
  split
  · exact .fail fun _ hs => hs
  · split
    · split
      · exact .fail fun _ hs => hs
      · exact .pure fun _ hs => ⟨s.disk, .found, hs, id⟩
    · split
      · exact .fail fun _ hs => hs
      · refine .bind (openFile_opens path _ _) fun first => ?_
        split
        · next hdenied =>
          -- The file was not opened for writing, so it was not emptied either.
          refine .bind (R := fun _ => Quiet s) ?_ fun file => ?_
          · refine .conseq (openFile_opens path false false) (fun s' hs => ?_) (fun r s' hs => ?_)
              fun _ _ hs => hs
            · rcases hs with ⟨hs, -⟩ | ⟨htruncate, -⟩
              · exact hs
              · exact absurd (of_decide_eq_true htruncate) hdenied.2.2
            · rcases hs with ⟨hs, -⟩ | ⟨hfalse, -⟩
              · exact hs
              · cases hfalse
          · refine Ends.bind (R := fun _ => Quiet s) ?_ fun file => ?_
            · exact Ends.conseq (Peeks.orStatus (Q := fun _ => True) fun _ _ => trivial) (fun _ hs => hs)
                (fun _ _ hs => hs.1) fun _ _ hs => hs
            · exact .pure fun _ hs => ⟨s.disk, .found, hs, fun h => by cases h⟩
        · cases first with
          | error e =>
            refine .conseq (P := fun s' => Quiet s s') (.fail fun _ hs => hs) (fun s' hs => ?_)
              (fun _ _ hs => hs) fun _ _ hs => hs
            rcases hs with ⟨hs, -⟩ | ⟨-, place, e, -, ⟨file, hfile⟩, -⟩
            · exact hs
            · cases hfile
          | ok file =>
            refine .pure fun s' hs => ?_
            rcases hs with ⟨hs, -⟩ | ⟨htruncate, place, e, hleads, -, hs⟩
            · exact ⟨s.disk, .found, hs, id⟩
            · exact ⟨_, .truncated (of_decide_eq_true htruncate) hleads, hs, id⟩

theorem createNew_opens (path : PathBuf) {make : ℕ → Entry Text} (hmake : ∀ id, (make id).id = id)
    {disposition : UInt32} (h : Creates disposition) :
    Ends (Quiet s) (createNew path make)
      (fun r s' => (∃ e, r = .error e) ∧ Quiet s s' ∨
        (∃ id, r = .ok id) ∧ ∃ disk, Opening s.disk path disposition disk ∧
          Quiet { s with disk := disk } s')
      fun _ => Quiet s := by
  refine .get_bind fun s' hs' => ?_
  rw [hs'.disk]
  split
  · next e he => exact .pure fun _ hs => .inl ⟨⟨e, rfl⟩, hs ▸ hs'⟩
  · next place t ht =>
    obtain ⟨hlocate, hnone, rfl⟩ := create_eq_ok ht
    obtain ⟨places, rfl⟩ := hs'
    rintro _ rfl
    exact .inr ⟨⟨_, rfl⟩, _, .made h hlocate hnone hmake, ⟨_, rfl⟩⟩

theorem makeNew_ends (req : CreateRequest) (path : PathBuf) :
    Ends (Quiet s) (makeNew req path) (Opened s req path) fun _ => Quiet s := by
  -- What was made is there, and what could not be made left nothing.
  have hmade : ∀ (result : ℕ → Option File × Bool × UInt8) {make : ℕ → Entry Text},
      (∀ id, (make id).id = id) → Creates req.createDisposition →
      (∀ id, (result id).2.1 = wantsWrite req.desiredAccess) →
        Ends (Quiet s) (createNew path make >>= fun made => orStatus made >>= fun id => pure (result id))
          (Opened s req path) fun _ => Quiet s := by
    intro result make hmake hcreates hresult
    refine .bind (createNew_opens path hmake hcreates) fun made => ?_
    cases made with
    | error e =>
      intro s' hs
      rcases hs with ⟨-, hs⟩ | ⟨⟨id, hid⟩, -⟩
      · exact hs
      · cases hid
    | ok id =>
      intro s' hs
      rcases hs with ⟨⟨e, he⟩, -⟩ | ⟨-, disk, hopening, hs⟩
      · cases he
      · exact ⟨disk, hopening, hs, fun h => (hresult id).symm.trans h⟩
  unfold makeNew
  split
  · refine .bind (R := fun _ => Quiet s) ?_ fun status => .fail fun _ hs => hs
    exact Ends.conseq (Peeks.missingStatus path) (fun _ hs => hs) (fun _ _ hs => hs.1) fun _ _ hs => hs
  · next hcreates =>
    split
    · exact hmade _ (fun _ => rfl) hcreates fun _ => rfl
    · exact hmade _ (fun _ => rfl) hcreates fun _ => rfl

variable {root : PathBuf} {req : IoRequest}

theorem under_of_resolve {t : Disk} {name : Text} (h : resolve t root name = .ok path) : Under root path := by
  unfold resolve at h
  split at h
  · cases h
  · cases hnames : components name with
    | error e =>
      rw [hnames] at h
      cases h
    | ok names =>
      rw [hnames] at h
      cases hin : inside t root (root ++ names) with
      | error e =>
        have h' : (inside t root (root ++ names) >>= fun _ => Except.ok (root ++ names)) = .ok path := h
        rw [hin] at h'
        cases h'
      | ok _ =>
        have h' : (inside t root (root ++ names) >>= fun _ => Except.ok (root ++ names)) = .ok path := h
        rw [hin] at h'
        rw [← Except.ok.inj h']
        exact Under.append root names

theorem create_ends (req : CreateRequest) :
    Ends (Quiet s) (create req)
      (fun a s' => a.1 = (nextFreeId s.opened s.opened.entries.length s.nextId).1 ∧
        ∃ path disk o, s.opened.entries.length < s.maxOpen ∧ Rooted s req.deviceId path ∧
          Opening s.disk path req.createDisposition disk ∧ o.deviceId = req.deviceId ∧ o.path = path ∧
          (o.writable = true → wantsWrite req.desiredAccess = true) ∧
          Quiet { s with
            disk := disk
            opened := s.opened.set (nextFreeId s.opened s.opened.entries.length s.nextId).1 o
            nextId := (nextFreeId s.opened s.opened.entries.length s.nextId).2 } s')
      fun _ => Quiet s := by
  have hlook : ∀ {α β : Type} {m : Io α} {f : α → Io β} {Q : α → Prop} {R : β → FsBackend → Prop},
      Peeks s m Q → (∀ a, Q a → Ends (Quiet s) (f a) R fun _ => Quiet s) →
        Ends (Quiet s) (m >>= f) R fun _ => Quiet s := fun {α β m f Q R} hm hf =>
    .bind (R := fun a s' => Quiet s s' ∧ Q a) hm fun a s' hs => hf a hs.2 s' hs.1
  refine .get_bind fun s' hs' => ?_
  rw [hs'.opened, hs'.maxOpen, hs'.disk]
  refine .conseq (P := Quiet s) ?_ (fun _ hs => hs ▸ hs') (fun _ _ hs => hs) fun _ _ hs => hs
  split
  · exact .fail fun _ hs => hs
  · next hroom =>
    refine hlook (.shareRoot _) fun root hroot => ?_
    obtain ⟨share, hshare, rfl⟩ := hroot
    refine hlook (.ofExcept fun _ h => h) fun path hpath => ?_
    refine hlook (.metadata path) fun found _ => ?_
    refine .bind (R := Opened s req path) ?_ fun r => ?_
    · split
      · exact openExisting_ends req path _
      · exact makeNew_ends req path
      · exact .fail fun _ hs => hs
    · obtain ⟨file, writable, information⟩ := r
      rintro s'' ⟨disk, hopening, ⟨places, rfl⟩, hwrites⟩
      refine ⟨rfl, path, disk, _, Nat.lt_of_not_le hroom, ⟨share, hshare, under_of_resolve hpath⟩,
        hopening, rfl, rfl, fun hwritable => ?_, ⟨_, rfl⟩⟩
      exact hwrites (Bool.and_eq_true_iff.mp hwritable).2

theorem create_results (req : CreateRequest) : Results s (.create req) (create req) := by
  refine .conseq (create_ends req) (fun _ hs => hs) (fun a s' hs => ?_) fun _ _ hs => ⟨s, .looked, hs⟩
  obtain ⟨-, path, disk, o, hroom, hrooted, hopening, hdev, hpath, hasked, hq⟩ := hs
  exact ⟨_, .opened hroom hrooted hopening hdev hpath hasked, hq⟩

theorem close_results (req : IoRequest) : Results s (.close req) (close req) := by
  refine .get_bind fun s' hs' => ?_
  rw [hs'.opened]
  split
  · exact .fail
  · next o ho =>
    refine .bind (R := fun _ s' => Quiet { s with opened := s.opened.erase req.fileId } s') ?_ fun _ => ?_
    · refine .modify fun s' hs' => ?_
      obtain ⟨places, rfl⟩ := hs'
      exact ⟨places, rfl⟩
    · have hleft : Outcome s (.close req) { s with opened := s.opened.erase req.fileId } := .closed ho .left
      split
      · -- The removal may fail; that is no matter here.
        refine Ends.bind (Ends.conseq (Peeks.isDir o.path) (fun _ hs => hs) (fun _ _ hs => hs.1)
          fun _ _ hs => ⟨_, hleft, hs⟩) fun dir => ?_
        refine .bind (R := fun _ s' => ∃ s₁, Outcome s (.close req) s₁ ∧ Quiet s₁ s') ?_
          fun _ => .pure fun _ hs => hs
        refine .get_bind fun s' hs' => ?_
        obtain ⟨places, rfl⟩ := hs'
        split
        · exact .pure fun _ hs => ⟨_, hleft, ⟨places, hs⟩⟩
        · next place t ht =>
          have hremoved : s.disk.locate o.path = .ok place ∧ place ≠ [] ∧ t = s.disk.remove place := by
            cases dir with
            | true =>
              obtain ⟨hlocate, hne, -, -, rfl⟩ := removeDir_eq_ok ht
              exact ⟨hlocate, hne, rfl⟩
            | false =>
              obtain ⟨e, hlocate, hentry, hfile, rfl⟩ := removeFile_eq_ok ht
              refine ⟨hlocate, ?_, rfl⟩
              rintro rfl
              rw [entry_nil] at hentry
              rw [← Option.some.inj hentry] at hfile
              cases hfile
          obtain ⟨hlocate, hne, rfl⟩ := hremoved
          rintro _ rfl
          exact ⟨_, .closed ho (.removed hlocate hne), ⟨_, rfl⟩⟩
      · exact .pure fun _ hs => ⟨_, hleft, hs⟩

/-! ## Requests about what is open -/

theorem onFile_results {file : File} {g : FileData → FileData} (hnames : r.handle? = some req)
    (ho : s.opened.get? req.fileId = some o) (hdev : o.deviceId = req.deviceId) (hfile : o.file = some file)
    (hallowed : r.Writes ∧ o.writable = true ∨ ∀ d, (g d).bytes = d.bytes) : Results s r (onFile file g) := by
  refine .bind_peeks (.touchFile file) fun _ _ => ?_
  rintro _ ⟨places, rfl⟩
  exact ⟨_, .written hnames ho hdev hfile hallowed, ⟨_, rfl⟩⟩

theorem setOpened_results {o' : Open} (hnames : r.handle? = some req)
    (ho : s.opened.get? req.fileId = some o) (hdev : o.deviceId = req.deviceId)
    (hrooted : Rooted s req.deviceId o.path) (hpath : o'.path = o.path) (hdev' : o'.deviceId = o.deviceId)
    (hsame : o'.writable = o.writable) : Results s r (setOpened req.fileId o') := by
  rintro _ ⟨places, rfl⟩
  refine ⟨_, .updated hnames ho hdev hrooted ?_ hdev' hsame, ⟨_, rfl⟩⟩
  rw [hpath]
  exact .left

theorem read_results (req : IoRequest) (length offset : ℕ) :
    Results s (.read req length offset) (read req length offset) := by
  refine .bind_peeks (.openedFile req) fun o ho => ?_
  split
  · exact .fail
  · next file hfile =>
    split
    · exact .fail
    · split
      · exact .fail
      · refine .bind_peeks (.touchFile file) fun _ _ => ?_
        exact .get_bind fun _ _ => .pure

theorem write_results (req : IoRequest) (offset : ℕ) (data : List UInt8) :
    Results s (.write req offset data) (write req offset data) := by
  refine .bind_peeks (.openedFile req) fun o ho => ?_
  split
  · exact .fail
  · next hwritable =>
    split
    · exact .fail
    · next file hfile =>
      split
      · exact .fail
      · split
        · exact .fail
        · split
          · exact .fail
          · refine .then_peeks ?_ fun _ _ => .pure trivial
            exact onFile_results rfl ho.1 ho.2 hfile (.inl ⟨trivial, by simpa using hwritable⟩)

theorem queryInformation_results (req : IoRequest) (level : InformationLevel) :
    Results s (.queryInformation req level) (queryInformation req level) := by
  refine .bind_peeks (.openedFile req) fun o _ => ?_
  refine .bind_peeks (.metadata o.path) fun found _ => ?_
  refine .bind_peeks (.orStatus fun _ _ => trivial) fun m _ => ?_
  cases level with
  | basic | standard | attributeTag => exact .pure
  | other => exact .fail

theorem queryVolume_results (req : IoRequest) (level : VolumeLevel) (space : Option (ℕ × ℕ)) :
    Results s (.queryVolume req level space) (queryVolume req level space) := by
  refine .bind_peeks (.openedFile req) fun o _ => ?_
  refine .get_bind fun s' _ => ?_
  split
  · exact .fail
  · next share _ =>
    refine .bind_peeks (.metadata share.root) fun found _ => ?_
    dsimp only
    split <;> first | exact .pure | exact .fail

def HandlesRooted (s : FsBackend) : Prop :=
  ∀ id o, s.opened.get? id = some o → Rooted s o.deviceId o.path

theorem setDisposition_results {delete : Bool} (hnames : r.handle? = some req)
    (ho : s.opened.get? req.fileId = some o) (hdev : o.deviceId = req.deviceId)
    (hrooted : Rooted s req.deviceId o.path) : Results s r (setDisposition req root o delete) := by
  have hset : Results s r (setOpened req.fileId { o with deleteOnClose := delete }) :=
    setOpened_results hnames ho hdev hrooted rfl rfl rfl
  unfold setDisposition
  split
  · exact .fail
  · refine .bind_peeks (Q := fun _ => True) ?_ fun dir _ => ?_
    · split
      · exact .isDir o.path
      · exact .pure trivial
    · refine .bind_peeks (Q := fun _ => True) ?_ fun names _ => ?_
      · split
        · exact .readDir o.path
        · exact .pure trivial
      · split
        · exact .fail
        · exact hset

/-- A handle with another file and path, and the same leave to write. -/
def Reopened (s : FsBackend) (id : UInt32) (o : Open) (path : PathBuf) (s' : FsBackend) : Prop :=
  ∃ o', o'.path = path ∧ o'.deviceId = o.deviceId ∧ o'.writable = o.writable ∧
    Quiet { s with opened := s.opened.set id o' } s'

theorem reopen_ends {id : UInt32} {renamed : Except FileError Unit} :
    Ends (Quiet s) (do
        setOpened id { o with file := none, path := path }
        if o.file.isSome then do
          let reopened ← openFile path o.writable false
          let file ← orStatus reopened
          setOpened id { o with file := some file, path := path }
          orStatus renamed
        else orStatus renamed)
      (fun _ => Reopened s id o path) fun _ => Reopened s id o path := by
  have hclosed : ∀ {s' : FsBackend}, Quiet { s with opened := s.opened.set id { o with file := none, path := path } } s' →
      Reopened s id o path s' := fun h => ⟨{ o with file := none, path := path }, rfl, rfl, rfl, h⟩
  have hstatus : ∀ {s₁ : FsBackend} {P : FsBackend → Prop}, (∀ s', Quiet s₁ s' → P s') →
      Ends (Quiet s₁) (orStatus renamed) (fun _ => P) fun _ => P := fun h =>
    Ends.conseq (Peeks.orStatus (Q := fun _ => True) fun _ _ => trivial) (fun _ hs => hs)
      (fun _ _ hs => h _ hs.1) fun _ _ hs => h _ hs
  refine Ends.bind (R := fun _ => Quiet { s with opened := s.opened.set id { o with file := none, path := path } })
    ?_ fun _ => ?_
  · refine Ends.modify fun s' hs' => ?_
    obtain ⟨places, rfl⟩ := hs'
    exact ⟨places, rfl⟩
  · split
    · refine .bind (R := fun _ =>
        Quiet { s with opened := s.opened.set id { o with file := none, path := path } }) ?_ fun reopened => ?_
      · refine .conseq (openFile_opens path o.writable false) (fun _ hs => hs) (fun r s' hs => ?_)
          fun _ _ hs => hclosed hs
        rcases hs with ⟨hs, -⟩ | ⟨hfalse, -⟩
        · exact hs
        · cases hfalse
      · refine Ends.bind (Ends.conseq (Peeks.orStatus (Q := fun _ => True) fun _ _ => trivial)
          (fun _ hs => hs) (fun _ _ hs => hs.1) fun _ _ hs => hclosed hs) fun file => ?_
        refine Ends.bind (R := fun _ =>
          Quiet { s with opened := s.opened.set id { o with file := some file, path := path } }) ?_ fun _ => ?_
        · refine .modify fun s' hs' => ?_
          obtain ⟨places, rfl⟩ := hs'
          refine ⟨places, ?_⟩
          rw [Table.set_set]
        · exact hstatus fun _ hs => ⟨{ o with file := some file, path := path }, rfl, rfl, rfl, hs⟩
    · exact hstatus fun _ hs => hclosed hs

theorem renameOpen_results {target : PathBuf} (hnames : r.handle? = some req)
    (ho : s.opened.get? req.fileId = some o) (hdev : o.deviceId = req.deviceId)
    (hrooted : Rooted s req.deviceId target) : Results s r (renameOpen req o target) := by
  have hreopened : ∀ disk place s'', Moving s.disk o.path target disk place →
      Reopened { s with disk := disk } req.fileId o place s'' → ∃ s₁, Outcome s r s₁ ∧ Quiet s₁ s'' := by
    rintro disk place s'' hmoving ⟨o', hpath, hdev', hsame, hq⟩
    refine ⟨_, .updated hnames ho hdev hrooted ?_ hdev' hsame, hq⟩
    rw [hpath]
    exact hmoving
  -- What the rename left, whether it went or not.
  refine .bind (R := fun renamed s' => ∃ disk, Quiet { s with disk := disk } s' ∧
      (∀ r, renamed = .ok r → Moving s.disk o.path target disk target) ∧
      ∀ e, renamed = .error e → Moving s.disk o.path target disk o.path) ?_ fun renamed => ?_
  · refine .get_bind fun s' hs' => ?_
    obtain ⟨places, rfl⟩ := hs'
    split
    · rintro _ rfl
      exact ⟨s.disk, ⟨_, rfl⟩, fun r hr => (by cases hr), fun _ _ => .left⟩
    · next old new t ht =>
      rintro _ rfl
      exact ⟨t, ⟨_, rfl⟩, fun _ _ => .moved ht, fun e he => (by cases he)⟩
  · rintro s' ⟨disk, hquiet, hok, herror⟩
    refine Ends.conseq reopen_ends (fun _ hs => hs) (fun _ s'' hs => hreopened disk _ s'' ?_ hs)
      (fun _ s'' hs => hreopened disk _ s'' ?_ hs) s' hquiet
    all_goals
      split
      · exact hok _ rfl
      · exact herror _ rfl

theorem setRename_results {share : Share} {fileName : Text}
    {replaceIfExists : Bool} (hnames : r.handle? = some req) (ho : s.opened.get? req.fileId = some o)
    (hdev : o.deviceId = req.deviceId) (hshare : s.shares.get? req.deviceId = some share) :
    Results s r (setRename req share.root o fileName replaceIfExists) := by
  unfold setRename
  split
  · exact .fail
  · refine .get_bind fun s' hs' => ?_
    refine .bind_peeks (.ofExcept fun _ h => h) fun target htarget => ?_
    split
    · exact .fail
    · refine .bind_peeks (.entryExists target) fun there _ => ?_
      split
      · exact .fail
      · exact renameOpen_results hnames ho hdev ⟨share, hshare, under_of_resolve htarget⟩

theorem setInformation_results (hs : HandlesRooted s) (req : IoRequest) (buffer : SetBuffer) :
    Results s (.setInformation req buffer) (setInformation req buffer) := by
  refine .bind_peeks (.shareRoot _) fun root hroot => ?_
  obtain ⟨share, hshare, rfl⟩ := hroot
  refine .bind_peeks (.openedFile req) fun o hopened => ?_
  obtain ⟨ho, hdev⟩ := hopened
  have hrooted : Rooted s req.deviceId o.path := hdev ▸ hs _ o ho
  cases buffer with
  | endOfFile length =>
    dsimp only
    split
    · exact .fail
    · next file hfile =>
      split
      · exact .fail
      · next hwritable =>
        split
        · exact .fail
        · exact onFile_results rfl ho hdev hfile (.inl ⟨trivial, by simpa using hwritable⟩)
  | allocation => exact .pure
  | basic lastWriteTime =>
    dsimp only
    split
    · next file time hfile _ _ => exact onFile_results rfl ho hdev hfile (.inr fun _ => rfl)
    · exact .pure
  | disposition delete => exact setDisposition_results rfl ho hdev hrooted
  | rename fileName replaceIfExists => exact setRename_results rfl ho hdev hshare
  | other => exact .fail

/-! ## Listings, and any request -/

/-- A listing may be put down more than once; the last counts. -/
def Listed (s : FsBackend) (req : IoRequest) (o : Open) (s' : FsBackend) : Prop :=
  Quiet s s' ∨ ∃ listing, Quiet { s with opened := s.opened.set req.fileId { o with listing := listing } } s'

theorem Listed.again
    (h : Listed { s with opened := s.opened.set req.fileId { o with listing := listing } } req o s') :
    Listed s req o s' := by
  rcases h with h | ⟨listing', places, rfl⟩
  · exact .inr ⟨listing, h⟩
  · refine .inr ⟨listing', places, ?_⟩
    rw [Table.set_set]

theorem listed_bind {f : Unit → Io β}
    (hf : ∀ s₁, Ends (Quiet s₁) (f ()) (fun _ => Listed s₁ req o) fun _ => Listed s₁ req o) :
    Ends (Quiet s) (setOpened req.fileId { o with listing := listing } >>= f) (fun _ => Listed s req o)
      fun _ => Listed s req o := by
  refine .bind (R := fun _ =>
    Quiet { s with opened := s.opened.set req.fileId { o with listing := listing } }) ?_ fun _ => ?_
  · refine .modify fun s' hs' => ?_
    obtain ⟨places, rfl⟩ := hs'
    exact ⟨places, rfl⟩
  · exact .conseq (hf _) (fun _ hs => hs) (fun _ _ hs => hs.again) fun _ _ hs => hs.again

theorem Peeks.listed (h : Peeks s m Q) : Ends (Quiet s) m (fun _ => Listed s req o) fun _ => Listed s req o :=
  .conseq h (fun _ hs => hs) (fun _ _ hs => .inl hs.1) fun _ _ hs => .inl hs

theorem Peeks.bind_listed (hm : Peeks s m Q)
    (hf : ∀ a, Q a → Ends (Quiet s) (f a) (fun _ => Listed s req o) fun _ => Listed s req o) :
    Ends (Quiet s) (m >>= f) (fun _ => Listed s req o) fun _ => Listed s req o := by
  refine .bind (R := fun a s' => Quiet s s' ∧ Q a) ?_ fun a s' hs => hf a hs.2 s' hs.1
  exact .conseq hm (fun _ hs => hs) (fun _ _ hs => hs) fun _ _ hs => .inl hs

theorem peeks_list [Platform] (root dir : PathBuf) (pattern : Text) :
    Peeks s (list root dir pattern) fun _ => True := by
  unfold list
  dsimp only
  split
  · exact .fail
  · split
    · refine .get_bind fun s' _ => ?_
      refine .bind (.ofExcept fun _ _ => trivial) fun path _ => ?_
      split
      · exact .bind (.metadata path) fun _ _ => .pure trivial
      · exact .pure trivial
    · exact .bind (.readDir dir) fun _ _ => .pure trivial

theorem nextEntry_ends {level : DirectoryLevel} (names : List Text) : Ends (Quiet s)
    (nextEntry req root o level names) (fun _ => Listed s req o) fun _ => Listed s req o := by
  induction names with
  | nil => exact listed_bind fun s₁ => (Peeks.fail (Q := fun _ => True)).listed
  | cons name names ih =>
    refine .get_bind fun s' hs' => ?_
    split
    · exact .conseq ih (fun _ hs => hs ▸ hs') (fun _ _ hs => hs) fun _ _ hs => hs
    · refine Ends.conseq (P := Quiet s) ?_ (fun _ hs => hs ▸ hs') (fun _ _ hs => hs) fun _ _ hs => hs
      refine Peeks.bind_listed (Peeks.metadata _) fun found _ => ?_
      split
      · exact ih
      · refine listed_bind fun s₁ => ?_
        unfold directoryEntry
        split
        · exact (Peeks.pure (Q := fun _ => True) trivial).listed
        · exact (Peeks.fail (Q := fun _ => True)).listed
        · exact (Peeks.pure (Q := fun _ => True) trivial).listed

theorem queryDirectory_results [Platform] (hs : HandlesRooted s) (req : IoRequest) (level : DirectoryLevel)
    (initial : Bool) (pattern : Text) :
    Results s (.queryDirectory req level initial pattern) (queryDirectory req level initial pattern) := by
  refine .bind_peeks (.shareRoot _) fun root hroot => ?_
  refine .bind_peeks (.openedFile req) fun o hopened => ?_
  obtain ⟨ho, hdev⟩ := hopened
  have hlisted : ∀ s', Listed s req o s' →
      ∃ s₁, Outcome s (.queryDirectory req level initial pattern) s₁ ∧ Quiet s₁ s' := by
    rintro s' (h | ⟨listing, h⟩)
    · exact ⟨s, .looked, h⟩
    · exact ⟨{ s with opened := s.opened.set req.fileId { o with listing := listing } },
        .updated rfl ho hdev (hdev ▸ hs _ o ho) .left rfl rfl, h⟩
  have hended : ∀ s₁ : FsBackend, Ends (Quiet s₁) (Act.fail .noMoreFiles : Io DirectoryEntry)
      (fun _ => Listed s₁ req o) fun _ => Listed s₁ req o :=
    fun s₁ => (Peeks.fail (Q := fun _ => True)).listed
  refine .conseq (Q := fun _ => Listed s req o) (E := fun _ => Listed s req o) ?_ (fun _ hs => hs)
    (fun _ s' hs => hlisted s' hs) fun _ s' hs => hlisted s' hs
  cases initial with
  | false =>
    generalize o.listing = listing
    cases listing with
    | none => exact hended s
    | some listing => exact nextEntry_ends listing
  | true =>
    refine .bind (R := fun _ => Quiet { s with opened := s.opened.set req.fileId { o with listing := none } })
      ?_ fun listing => ?_
    · refine .bind (R := fun _ =>
        Quiet { s with opened := s.opened.set req.fileId { o with listing := none } }) ?_ fun _ => ?_
      · refine .modify fun s' hs' => ?_
        obtain ⟨places, rfl⟩ := hs'
        exact ⟨places, rfl⟩
      · have hpeeks : ∀ s₁, Peeks s₁ (do
            let listing ← list root o.path pattern
            if listing = [] then Act.fail .noSuchFile else pure (some listing)) fun _ => True := by
          refine fun s₁ => .bind (peeks_list root o.path pattern) fun listing _ => ?_
          split
          · exact .fail
          · exact .pure trivial
        exact .conseq (hpeeks _) (fun _ hs => hs) (fun _ _ hs => hs.1) fun _ _ hs => .inr ⟨none, hs⟩
    · cases listing with
      | none => exact .conseq (hended _) (fun _ hs => hs) (fun _ _ hs => hs.again) fun _ _ hs => hs.again
      | some listing =>
        exact .conseq (nextEntry_ends listing) (fun _ hs => hs) (fun _ _ hs => hs.again) fun _ _ hs => hs.again

theorem step_outcome [Platform] (hs : HandlesRooted s) (r : Request) :
    ∃ s₁, Outcome s r s₁ ∧ Quiet s₁ (step s r) := by
  have hanswer : ∀ {α : Type} {m : Io α} (answer : α → Answer), Results s r m →
      ∃ s₁, Outcome s r s₁ ∧ Quiet s₁ ((m >>= fun a => pure (answer a)) { s with touched := [] }).2 :=
    fun answer hm => Ends.always (hm.then_peeks fun _ _ => Peeks.pure trivial) ⟨[], rfl⟩
  cases r with
  | create req => exact hanswer _ (create_results req)
  | close req => exact hanswer _ (close_results req)
  | read req length offset => exact hanswer _ (read_results req length offset)
  | write req offset data => exact hanswer _ (write_results req offset data)
  | queryInformation req level => exact hanswer _ (queryInformation_results req level)
  | queryVolume req level space => exact hanswer _ (queryVolume_results req level space)
  | setInformation req buffer => exact hanswer _ (setInformation_results hs req buffer)
  | queryDirectory req level initial pattern =>
    exact hanswer _ (queryDirectory_results hs req level initial pattern)

end Drive

end UwuRdp
