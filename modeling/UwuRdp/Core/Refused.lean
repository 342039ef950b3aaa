import UwuRdp.Core.Outcomes
import UwuRdp.Store.Preference

/-!
# Changes that are refused

A change to a shared file that is refused leaves the disk and the handle as they were, but for one kind:
a rename closes what is open and opens it again where it is then. Where that opening fails, or finds
another file, the handle has lost the one it had, and the rename may have been done all the same.
-/

namespace UwuRdp

open Lib Lib.FileTree

namespace Drive

open Act (Ends)

variable {s s' : FsBackend} {α β : Type} {req : IoRequest} {o : Open} {target : PathBuf}

/-! ## Opening again -/

def opens (t : Disk) (path : PathBuf) (write : Bool) : Except FileError File :=
  match t.metadata path with
  | .error e => .error e
  | .ok (_, e) =>
    if e.isDir && write then .error .isADirectory
    else if (t.data e.id).readOnly && write then .error .permissionDenied
    else .ok ⟨e.id, e.isDir⟩

theorem openFile_eq (path : PathBuf) (write : Bool) (s : FsBackend) :
    ∃ s', openFile path write false s = (.ok (opens s.disk path write), s') ∧ Quiet s s' := by
  unfold opens openFile
  rw [Act.get_bind]
  cases hm : s.disk.metadata path with
  | error e => exact ⟨s, rfl, .refl s⟩
  | ok found =>
    obtain ⟨place, e⟩ := found
    dsimp only
    split
    · exact ⟨s, rfl, .refl s⟩
    · split
      · exact ⟨s, rfl, .refl s⟩
      · exact ⟨_, rfl, _, rfl⟩

/-- Opening a handle again at a path: what a rename that went like `answer` answers then, and the
handle it leaves. -/
def reopened (o : Open) (t : Disk) (path : PathBuf) (answer : Except FileError Unit) :
    Except NtStatus Unit × Open :=
  match o.file with
  | none => (answer.mapError ioStatus, { o with file := none, path })
  | some _ =>
    match opens t path o.writable with
    | .error e => (.error (ioStatus e), { o with file := none, path })
    | .ok file => (answer.mapError ioStatus, { o with file := some file, path })

theorem orStatus_eq (a : Except FileError α) (s : FsBackend) : orStatus a s = (a.mapError ioStatus, s) := by
  cases a <;> rfl

theorem reopen_eq (id : UInt32) (o : Open) (path : PathBuf) (answer : Except FileError Unit)
    (s : FsBackend) : ∃ s', (do
        setOpened id { o with file := none, path := path }
        if o.file.isSome then do
          let reopened ← openFile path o.writable false
          let file ← orStatus reopened
          setOpened id { o with file := some file, path := path }
          orStatus answer
        else orStatus answer : Io Unit) s = ((reopened o s.disk path answer).1, s') ∧
      Quiet { s with opened := s.opened.set id (reopened o s.disk path answer).2 } s' := by
  unfold reopened setOpened
  rw [Act.modify_bind]
  cases hfile : o.file with
  | none =>
    simp only [Option.isSome_none, Bool.false_eq_true, if_false]
    exact ⟨_, orStatus_eq answer _, .refl _⟩
  | some file =>
    obtain ⟨s₁, h₁, places, rfl⟩ := openFile_eq path o.writable
      { s with opened := s.opened.set id { o with file := none, path := path } }
    simp only [Option.isSome_some, if_true]
    rw [Act.bind_of_ok h₁]
    cases hopen : opens s.disk path o.writable with
    | error e =>
      rw [Act.bind_of_error (orStatus_eq _ _)]
      exact ⟨_, rfl, _, rfl⟩
    | ok file' =>
      rw [Act.bind_of_ok (orStatus_eq _ _), Act.modify_bind]
      refine ⟨_, orStatus_eq answer _, places, ?_⟩
      rw [Table.set_set]

theorem renameEntry_eq (old new : PathBuf) (s : FsBackend) :
    ∃ s', renameEntry old new s = (.ok (match s.disk.rename old new with
        | .error e => .error e
        | .ok _ => .ok ()), s') ∧
      Quiet { s with disk := match s.disk.rename old new with
        | .error _ => s.disk
        | .ok (_, _, t) => t } s' := by
  unfold renameEntry
  rw [Act.get_bind]
  cases hr : s.disk.rename old new with
  | error e => exact ⟨s, rfl, .refl s⟩
  | ok moved =>
    obtain ⟨oldPlace, newPlace, t⟩ := moved
    exact ⟨_, rfl, _, rfl⟩

/-- What a rename answers, with the disk and the handle it leaves. -/
def renamed (disk : Disk) (o : Open) (target : PathBuf) : Except NtStatus Unit × Disk × Open :=
  match disk.rename o.path target with
  | .error e =>
    let r := reopened o disk o.path (.error e)
    (r.1, disk, r.2)
  | .ok (_, _, t) =>
    let r := reopened o t target (.ok ())
    (r.1, t, r.2)

theorem renameOpen_eq (req : IoRequest) (o : Open) (target : PathBuf) (s : FsBackend) :
    ∃ s', renameOpen req o target s = ((renamed s.disk o target).1, s') ∧
      Quiet { s with
        disk := (renamed s.disk o target).2.1
        opened := s.opened.set req.fileId (renamed s.disk o target).2.2 } s' := by
  obtain ⟨s₁, h₁, hq₁⟩ := renameEntry_eq o.path target s
  unfold renameOpen renamed
  rw [Act.bind_of_ok h₁]
  cases hr : s.disk.rename o.path target with
  | error e =>
    rw [hr] at hq₁
    obtain ⟨places, rfl⟩ := hq₁
    obtain ⟨s', h, places', rfl⟩ := reopen_eq req.fileId o o.path (.error e) { s with touched := places }
    exact ⟨_, h, places', rfl⟩
  | ok moved =>
    obtain ⟨old, new, t⟩ := moved
    rw [hr] at hq₁
    obtain ⟨places, rfl⟩ := hq₁
    obtain ⟨s', h, places', rfl⟩ := reopen_eq req.fileId o target (.ok ()) { s with disk := t, touched := places }
    exact ⟨_, h, places', rfl⟩

/-! ## Who reaches it -/

/-- A rename that none of the checks before it refuses. -/
structure Renaming (s : FsBackend) (req : IoRequest) (fileName : Text) (replaceIfExists : Bool) (o : Open)
    (target : PathBuf) : Prop where
  opened : s.opened.get? req.fileId = some o
  device : o.deviceId = req.deviceId
  share : ∃ share, s.shares.get? req.deviceId = some share ∧ o.path ≠ share.root ∧
    resolve s.disk share.root fileName = .ok target ∧ target ≠ share.root
  free : ∀ found, s.disk.symlinkMetadata target = .ok found →
    sameFile s.disk o.path target = true ∨ replaceIfExists = true

/-- Where an action fails, nothing but the places reached differs. -/
def Refuses (s : FsBackend) (m : Io α) : Prop := Ends (Quiet s) m (fun _ _ => True) fun _ => Quiet s

variable {m : Io α} {e : NtStatus} {fileName : Text} {replaceIfExists : Bool} {disk : Disk}

theorem Refuses.bind_peeks {Q : α → Prop} {f : α → Io β} (hm : Peeks s m Q)
    (hf : ∀ a, Q a → Refuses s (f a)) : Refuses s (m >>= f) :=
  .bind hm fun a s' hs => hf a hs.2 s' hs.1

theorem Refuses.of_ok (h : ∀ s', Quiet s s' → ∃ a s'', m s' = (.ok a, s'')) : Refuses s m := by
  intro s' hs'
  obtain ⟨a, s'', hm⟩ := h s' hs'
  rw [hm]
  exact trivial

theorem Refuses.fail : Refuses s (Act.fail e : Io α) :=
  Ends.fail fun _ hs => hs

theorem Refuses.pure {a : α} : Refuses s (pure a : Io α) := Ends.pure fun _ _ => trivial

theorem Refuses.onFile (file : File) (f : FileData → FileData) : Refuses s (onFile file f) :=
  Refuses.bind_peeks (.touchFile file) fun _ _ => Refuses.of_ok fun _ _ => ⟨_, _, rfl⟩

theorem Refuses.setOpened (id : UInt32) (o : Open) : Refuses s (setOpened id o) :=
  Refuses.of_ok fun _ _ => ⟨_, _, rfl⟩

theorem peeks_entryExists (path : PathBuf) : Peeks s (entryExists path) fun there =>
    there = true ↔ ∃ found, s.disk.symlinkMetadata path = .ok found := by
  apply Peeks.get_bind
  intro s' hs'
  rw [hs'.disk]
  split
  · next e he =>
    apply Peeks.pure
    constructor
    · intro h
      cases h
    · rintro ⟨found, hfound⟩
      rw [he] at hfound
      cases hfound
  · next place e he =>
    exact .bind .touch fun _ _ => .pure ⟨fun _ => ⟨_, he⟩, fun _ => rfl⟩

theorem setDisposition_refuses {root : PathBuf} {delete : Bool} : Refuses s (setDisposition req root o delete) := by
  unfold setDisposition
  split
  · exact .fail
  · refine .bind_peeks (Q := fun _ => True) ?_ fun dir _ => ?_
    · split
      · exact .isDir o.path
      · exact .pure trivial
    · refine .bind_peeks (Q := fun _ => True) ?_ fun names _ => ?_
      · split
        · exact .readDir o.path
        · exact .pure trivial
      · split
        · exact .fail
        · exact .setOpened _ _

theorem setRename_refuses {share : Share} (ho : s.opened.get? req.fileId = some o) (hdev : o.deviceId = req.deviceId)
    (hshare : s.shares.get? req.deviceId = some share)
    (h : ∀ target, Renaming s req fileName replaceIfExists o target → Refuses s (renameOpen req o target)) : Refuses s
    (setRename req share.root o fileName replaceIfExists) := by
  unfold setRename
  split
  · exact .fail
  · next hpath =>
    refine fun s' hs' => ?_
    rw [Act.get_bind]
    refine Refuses.bind_peeks (.ofExcept fun _ h => h) (fun target htarget => ?_) s' hs'
    split
    · exact .fail
    · next hroot =>
      refine .bind_peeks (peeks_entryExists target) fun there hthere => ?_
      split
      · exact .fail
      · next hfree =>
        rw [hs'.disk] at htarget hfree
        refine h target ⟨ho, hdev, ⟨share, hshare, hpath, htarget, hroot⟩, fun found hfound => ?_⟩
        by_contra hor
        rw [not_or] at hor
        exact hfree ⟨hthere.mpr ⟨found, hfound⟩, hor.1, Bool.eq_false_iff.mpr hor.2⟩

theorem setInformation_refuses {buffer : SetBuffer}
    (h : ∀ fileName replaceIfExists o target, buffer = .rename fileName replaceIfExists →
      Renaming s req fileName replaceIfExists o target → Refuses s (renameOpen req o target)) :
    Refuses s (setInformation req buffer) := by
  refine .bind_peeks (.shareRoot _) fun root hroot => ?_
  obtain ⟨share, hshare, rfl⟩ := hroot
  refine .bind_peeks (.openedFile req) fun o hopened => ?_
  obtain ⟨ho, hdev⟩ := hopened
  cases buffer with
  | endOfFile length =>
    dsimp only
    split
    · exact .fail
    · split
      · exact .fail
      · split
        · exact .fail
        · exact .onFile _ _
  | allocation => exact .pure
  | basic lastWriteTime =>
    dsimp only
    split
    · exact .onFile _ _
    · exact .pure
  | disposition delete => exact setDisposition_refuses
  | rename fileName replaceIfExists =>
    exact setRename_refuses ho hdev hshare fun target ht => h fileName replaceIfExists o target rfl ht
  | other => exact .fail

theorem entryExists_eq (path : PathBuf) (s : FsBackend) : ∃ there s', entryExists path s = (.ok there, s') ∧
    Quiet s s' ∧ (there = true → ∃ found, s.disk.symlinkMetadata path = .ok found) := by
  unfold entryExists
  rw [Act.get_bind]
  cases hm : s.disk.symlinkMetadata path with
  | error e => exact ⟨false, s, rfl, .refl s, fun h => absurd h Bool.false_ne_true⟩
  | ok found => exact ⟨true, _, rfl, ⟨_, rfl⟩, fun _ => ⟨found, rfl⟩⟩

theorem setInformation_eq (h : Renaming s req fileName replaceIfExists o target) : ∃ s₁, Quiet s s₁ ∧ setInformation
    req (.rename fileName replaceIfExists) s = renameOpen req o target s₁ := by
  obtain ⟨share, hshare, hpath, hresolve, hroot⟩ := h.share
  have h₁ : shareRoot req.deviceId s = (.ok share.root, s) := by
    unfold shareRoot
    rw [Act.get_bind, hshare]
    rfl
  have h₂ : openedFile req s = (.ok o, s) := by
    unfold openedFile
    rw [Act.get_bind, h.opened]
    dsimp only
    rw [if_pos h.device]
    rfl
  have h₃ : (Act.ofExcept (resolve s.disk share.root fileName) : Io PathBuf) s = (.ok target, s) := by
    rw [hresolve]
    rfl
  obtain ⟨there, s₁, h₄, hq, hthere⟩ := entryExists_eq target s
  unfold setInformation
  rw [Act.bind_of_ok h₁, Act.bind_of_ok h₂]
  dsimp only
  unfold setRename
  rw [if_neg hpath, Act.get_bind, Act.bind_of_ok h₃, if_neg hroot, Act.bind_of_ok h₄, if_neg]
  · exact ⟨s₁, hq, rfl⟩
  · rintro ⟨ht, hsame, hreplace⟩
    obtain ⟨found, hfound⟩ := hthere ht
    rcases h.free found hfound with hor | hor
    · exact hsame hor
    · rw [hreplace] at hor
      cases hor

/-! ## What a refusal leaves -/

/-- A refused change leaves the disk and every handle as they were, and the next read or write goes as it
would have gone without it. -/
def RefusalHarmless (s : FsBackend) (req : IoRequest) (buffer : SetBuffer) : Prop :=
  ∀ e s', setInformation req buffer s = (.error e, s') →
    s'.disk = s.disk ∧ s'.opened = s.opened ∧
      (∀ length offset, (read req length offset s').1 = (read req length offset s).1) ∧
      ∀ offset data, (write req offset data s').1 = (write req offset data s).1 ∧
        (write req offset data s').2.disk = (write req offset data s).2.disk

/-- An open file can be opened again: where it is to be, if it can go there, and else where it is, and
there it is found itself. -/
def OpensAgain (disk : Disk) (o : Open) (file : File) (target : PathBuf) : Prop :=
  match disk.rename o.path target with
  | .ok (_, _, t) => ∃ file', opens t target o.writable = .ok file'
  | .error _ => opens disk o.path o.writable = .ok file

/-- The handle a request names, if it is one of the device. -/
def handleOf (opened : Table UInt32 Open) (req : IoRequest) : Except NtStatus Open :=
  match opened.get? req.fileId with
  | some o => if o.deviceId = req.deviceId then .ok o else .error .invalidParameter
  | none => .error .invalidParameter

theorem openedFile_eq (req : IoRequest) (s : FsBackend) : openedFile req s = (handleOf s.opened req, s) := by
  unfold openedFile handleOf
  rw [Act.get_bind]
  cases s.opened.get? req.fileId with
  | none => rfl
  | some o =>
    show (if o.deviceId = req.deviceId then pure o else Act.fail .invalidParameter : Io Open) s = _
    by_cases hdev : o.deviceId = req.deviceId
    · rw [if_pos hdev]
      simp only [if_pos hdev]
      rfl
    · rw [if_neg hdev]
      simp only [if_neg hdev]
      rfl

theorem read_quiet (h : Quiet s s') (length offset : ℕ) :
    (read req length offset s').1 = (read req length offset s).1 := by
  obtain ⟨places, rfl⟩ := h
  have hs := openedFile_eq req s
  have hs' := openedFile_eq req { s with touched := places }
  unfold read
  cases ho : handleOf s.opened req with
  | error e =>
    rw [ho] at hs hs'
    rw [Act.bind_of_error hs, Act.bind_of_error hs']
  | ok o =>
    rw [ho] at hs hs'
    rw [Act.bind_of_ok hs, Act.bind_of_ok hs']
    cases o.file with
    | none => rfl
    | some file =>
      dsimp only
      split
      · rfl
      · split <;> rfl

theorem write_quiet (h : Quiet s s') (offset : ℕ) (data : List UInt8) : (write req offset data s').1 =
    (write req offset data s).1 ∧ (write req offset data s').2.disk = (write req offset data s).2.disk := by
  obtain ⟨places, rfl⟩ := h
  have hs := openedFile_eq req s
  have hs' := openedFile_eq req { s with touched := places }
  unfold write
  cases ho : handleOf s.opened req with
  | error e =>
    rw [ho] at hs hs'
    rw [Act.bind_of_error hs, Act.bind_of_error hs']
    exact ⟨rfl, rfl⟩
  | ok o =>
    rw [ho] at hs hs'
    rw [Act.bind_of_ok hs, Act.bind_of_ok hs']
    split
    · exact ⟨rfl, rfl⟩
    · cases o.file with
      | none => exact ⟨rfl, rfl⟩
      | some file =>
        dsimp only
        split
        · exact ⟨rfl, rfl⟩
        · split
          · exact ⟨rfl, rfl⟩
          · split <;> exact ⟨rfl, rfl⟩

theorem renamed_kept (h : ∀ file, o.file = some file → OpensAgain disk o file target)
    (he : (renamed disk o target).1 = .error e) : (renamed disk o target).2 = (disk, o) := by
  unfold renamed reopened at he ⊢
  unfold OpensAgain at h
  cases hr : disk.rename o.path target with
  | error er =>
    rw [hr] at he h
    cases hfile : o.file with
    | none =>
      dsimp only
      rw [← hfile]
    | some file =>
      rw [h file hfile]
      dsimp only
      rw [← hfile]
  | ok moved =>
    obtain ⟨old, new, t⟩ := moved
    rw [hr] at he h
    cases hfile : o.file with
    | none =>
      rw [hfile] at he
      cases he
    | some file =>
      obtain ⟨file', hopen⟩ := h file hfile
      rw [hfile] at he
      dsimp only at he
      rw [hopen] at he
      cases he

theorem renamed_lost {file : File} (hfile : o.file = some file) (h : ¬OpensAgain disk o file target) :
    (∃ e, (renamed disk o target).1 = .error e) ∧ (renamed disk o target).2.2.file ≠ some file := by
  unfold OpensAgain at h
  unfold renamed reopened
  cases hr : disk.rename o.path target with
  | error er =>
    rw [hr] at h
    rw [hfile]
    cases hopen : opens disk o.path o.writable with
    | error e => exact ⟨⟨_, rfl⟩, fun hc => by cases hc⟩
    | ok file' =>
      refine ⟨⟨_, rfl⟩, fun hc => h ?_⟩
      rw [hopen, Option.some.inj hc]
  | ok moved =>
    obtain ⟨old, new, t⟩ := moved
    rw [hr] at h
    rw [hfile]
    dsimp only
    cases hopen : opens t target o.writable with
    | error e => exact ⟨⟨_, rfl⟩, fun hc => by cases hc⟩
    | ok file' => exact absurd ⟨file', hopen⟩ h

theorem renameOpen_refuses (ho : s.opened.get? req.fileId = some o)
    (h : ∀ file, o.file = some file → OpensAgain s.disk o file target) : Refuses s (renameOpen req o target) := by
  rintro s₁ ⟨places, rfl⟩
  obtain ⟨s', hs', places', rfl⟩ := renameOpen_eq req o target { s with touched := places }
  rw [hs']
  cases he : (renamed s.disk o target).1 with
  | ok _ => trivial
  | error e =>
    have hkept := renamed_kept h he
    refine ⟨places', ?_⟩
    show ({ s with disk := _, opened := s.opened.set req.fileId (renamed s.disk o target).2.2, touched := places' } : FsBackend) = _
    rw [hkept]
    rw [Table.set_same ho]

/-- **Exactly when a refused change changes nothing**: always, but for the rename of an open file that no
check refuses and that cannot be opened again. -/
theorem refusal_harmless_iff (s : FsBackend) (req : IoRequest) (buffer : SetBuffer) : RefusalHarmless s req buffer ↔ ∀
    fileName replaceIfExists o target file, buffer = .rename fileName replaceIfExists → Renaming s req fileName
    replaceIfExists o target → o.file = some file → OpensAgain s.disk o file target := by
  constructor
  · rintro h fileName replaceIfExists o target file rfl hrenaming hfile
    by_contra hlost
    obtain ⟨s₁, ⟨places, rfl⟩, hs₁⟩ := setInformation_eq hrenaming
    obtain ⟨s', hs', places', rfl⟩ := renameOpen_eq req o target { s with touched := places }
    obtain ⟨⟨e, he⟩, hne⟩ := renamed_lost hfile hlost
    have hopened := (h e _ (by rw [hs₁, hs']; exact congrArg (·, _) he)).2.1
    have hget := congrArg (fun t => t.get? req.fileId) hopened
    dsimp only at hget
    rw [Table.get?_set_self, hrenaming.opened] at hget
    exact hne (by rw [Option.some.inj hget, hfile])
  · intro h e s' hrun
    have hrefuses : Refuses s (setInformation req buffer) :=
      setInformation_refuses fun fileName replaceIfExists o target hb hr =>
        renameOpen_refuses hr.opened fun file hfile => h fileName replaceIfExists o target file hb hr hfile
    have hq := hrefuses.of_error (.refl s) hrun
    exact ⟨hq.disk, hq.opened, fun length offset => read_quiet hq length offset,
      fun offset data => write_quiet hq offset data⟩

/-- A shared folder `/s` with a file `a`. -/
def filedDisk : Disk :=
  ((FileTree.empty freshData).add [['s']] .dir freshData).add [['s'], ['a']] .file freshData

/-- The file is opened twice, and renamed by the first handle. -/
def renamedOnce [Platform] : FsBackend :=
  [.create ⟨1, ['a'], 0x52000006, 1, 0⟩, .create ⟨1, ['a'], 0x52000006, 1, 0⟩,
    .setInformation ⟨1, 1⟩ (.rename ['b'] false)].foldl step
      (FsBackend.new filedDisk (Table.empty.set 1 ⟨['s'], [['s']]⟩))

/-- The rename by the second handle is refused, and reading through it is an error from then on. -/
theorem refused_rename_loses_file :
    letI := asciiPlatform
    ∃ s', setInformation ⟨1, 2⟩ (.rename ['c'] false) renamedOnce = (.error .objectNameNotFound, s') ∧
      (read ⟨1, 2⟩ 16 0 renamedOnce).1 = .ok [] ∧
      (read ⟨1, 2⟩ 16 0 s').1 = .error .invalidDeviceRequest ∧
      ¬RefusalHarmless renamedOnce ⟨1, 2⟩ (.rename ['c'] false) := by
  let _ := asciiPlatform
  have hanswer : (setInformation ⟨1, 2⟩ (.rename ['c'] false) renamedOnce).1 =
    .error .objectNameNotFound := by decide +kernel
  have hread : (read ⟨1, 2⟩ 16 0 renamedOnce).1 = .ok [] := by decide +kernel
  have hlost : (read ⟨1, 2⟩ 16 0 (setInformation ⟨1, 2⟩ (.rename ['c'] false) renamedOnce).2).1 =
    .error .invalidDeviceRequest := by decide +kernel
  rcases hrun : setInformation ⟨1, 2⟩ (.rename ['c'] false) renamedOnce with ⟨answer, s'⟩
  rw [hrun] at hanswer hlost
  obtain rfl : answer = .error .objectNameNotFound := hanswer
  refine ⟨s', rfl, hread, hlost, fun h => ?_⟩
  obtain ⟨-, -, hsame, -⟩ := h _ _ hrun
  have hnone := hlost.symm.trans ((hsame 16 0).trans hread)
  exact nomatch hnone

end Drive

end UwuRdp
