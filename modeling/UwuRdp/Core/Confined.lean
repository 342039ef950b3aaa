import UwuRdp.Core.Drive

/-!
# Which requests stay in the shared folder

The check against links is made when a path is resolved. A file that is open stays in its share as
long as nothing moves it out, and what a request resolves itself leads inside; but the path kept with
what is open may lead elsewhere by the time it is used again, the entry a path names may stand
outside though the path leads inside, and closing does not ask for the device. `Straight` says when a
request meets none of this.
-/

namespace UwuRdp

open Lib Lib.FileTree

namespace Drive

variable {s s' s₀ : FsBackend} {dev : UInt32} {path root : PathBuf}

/-! ## Where a path leads -/

def Reaches (s : FsBackend) (dev : UInt32) (place : PathBuf) : Prop :=
  ∃ share, s.shares.get? dev = some share ∧ Under share.root place

def LeadsInside (s : FsBackend) (dev : UInt32) (path : PathBuf) : Prop :=
  ∀ place, s.disk.canonicalize path = .ok place → Reaches s dev place

/-- The entry a path names is in the share, if there is a folder for it. -/
def NamesInside (s : FsBackend) (dev : UInt32) (path : PathBuf) : Prop :=
  ∀ place, s.disk.locate path = .ok place → Reaches s dev place

/-- The root of a share is that of the share of a device. -/
def OwnRoot (s : FsBackend) (dev : UInt32) (root : PathBuf) : Prop :=
  ∃ share, s.shares.get? dev = some share ∧ root = share.root

/-- The disk and the path a file is opened again at, after a rename that went well or not. -/
def afterRename (s : FsBackend) (path target : PathBuf) : FsBackend × PathBuf :=
  match s.disk.rename path target with
  | .ok (_, _, t) => ({ s with disk := t }, target)
  | .error _ => (s, path)

/-- What a rename moves is in the share and goes to a place in it, it is neither the root of another
share nor above one nor takes the place of one, no file that is open on another share leaves that, and
what is opened again leads inside. -/
structure RenamesInside (s : FsBackend) (req : IoRequest) (open' : Open) (target : PathBuf) : Prop where
  moved : NamesInside s req.deviceId open'.path
  roots : ∀ old, s.disk.locate open'.path = .ok old → ∀ d share, s.shares.get? d = some share →
    Under old share.root → OwnRoot s req.deviceId share.root
  replaced : ∀ d share, s.shares.get? d = some share → s.disk.locate target = .ok share.root →
    OwnRoot s req.deviceId share.root
  others : ∀ old new, s.disk.locate open'.path = .ok old → s.disk.locate target = .ok new →
    ∀ id o file, s.opened.get? id = some o → o.deviceId ≠ req.deviceId → o.file = some file →
      ∀ rest e, s.disk.entry (old ++ rest) = some e → e.id = file.id →
        Reaches s o.deviceId (new ++ rest)
  again : open'.file.isSome = true → LeadsInside (afterRename s open'.path target).1 req.deviceId
    (afterRename s open'.path target).2

/-- The paths a request takes from what is open are still good. -/
def Straight (s : FsBackend) : Request → Prop
  | .queryInformation req _ => ∀ o, s.opened.get? req.fileId = some o → o.deviceId = req.deviceId →
      LeadsInside s req.deviceId o.path
  | .queryDirectory req _ true pattern => ∀ o, s.opened.get? req.fileId = some o →
      o.deviceId = req.deviceId → maskOf pattern ≠ [] → plainMask (maskOf pattern) = false →
        LeadsInside s req.deviceId o.path
  | .setInformation req (.disposition true) => ∀ o, s.opened.get? req.fileId = some o →
      o.deviceId = req.deviceId → LeadsInside s req.deviceId o.path
  | .setInformation req (.rename fileName replaceIfExists) => ∀ o share target,
      s.opened.get? req.fileId = some o → o.deviceId = req.deviceId →
      s.shares.get? req.deviceId = some share → o.path ≠ share.root →
      resolve s.disk share.root fileName = .ok target → target ≠ share.root →
        NamesInside s req.deviceId target ∧
          ((∃ r, s.disk.symlinkMetadata target = .ok r) ∧ sameFile s.disk o.path target = false ∧
              replaceIfExists = false ∨ RenamesInside s req o target)
  | .close req => ∀ o, s.opened.get? req.fileId = some o → o.deleteOnClose = true →
      LeadsInside s req.deviceId o.path ∧ NamesInside s req.deviceId o.path ∧
        ∀ d share, s.shares.get? d = some share → s.disk.locate o.path = .ok share.root →
          OwnRoot s o.deviceId share.root
  | _ => True

/-! ## What holds all the time -/

/-- Something open: its path is one of its share, and its file, wherever it is, is in it. -/
structure Open.Sound (s : FsBackend) (open' : Open) : Prop where
  path : Reaches s open'.deviceId open'.path
  deletes : open'.deleteOnClose = true → ¬OwnRoot s open'.deviceId open'.path
  file : ∀ file, open'.file = some file → file.id < s.disk.next ∧
    ∀ place e, s.disk.entry place = some e → e.id = file.id → Reaches s open'.deviceId place

/-- The shared folders are folders, reached without links. -/
structure Sound (s : FsBackend) : Prop where
  roots : ∀ d share, s.shares.get? d = some share → Folder s.disk share.root
  opened : ∀ id o, s.opened.get? id = some o → o.Sound s
  numbered : Numbered s.disk

/-- What a request may leave: everything it reached is in the share it names, and the shared folders
are the ones they were. -/
structure Kept (s₀ : FsBackend) (dev : UInt32) (s : FsBackend) : Prop where
  sound : Sound s
  shares : s.shares = s₀.shares
  roots : ∀ d share, s₀.shares.get? d = some share →
    s.disk.entry share.root = s₀.disk.entry share.root
  touched : ∀ place ∈ s.touched, Reaches s₀ dev place

/-- So far a request has only looked, inside the share. -/
def Looked (s : FsBackend) (dev : UInt32) (s' : FsBackend) : Prop :=
  ∃ places : List PathBuf, s' = { s with touched := s.touched ++ places } ∧
    ∀ place ∈ places, Reaches s dev place

theorem Looked.refl (s : FsBackend) (dev : UInt32) : Looked s dev s :=
  ⟨[], by rw [List.append_nil], fun _ h => absurd h List.not_mem_nil⟩

theorem Looked.disk (h : Looked s dev s') : s'.disk = s.disk := by
  obtain ⟨places, rfl, -⟩ := h
  rfl

theorem Looked.opened (h : Looked s dev s') : s'.opened = s.opened := by
  obtain ⟨places, rfl, -⟩ := h
  rfl

theorem Looked.shares (h : Looked s dev s') : s'.shares = s.shares := by
  obtain ⟨places, rfl, -⟩ := h
  rfl

theorem Looked.touch (h : Looked s dev s') {more : List PathBuf}
    (hmore : ∀ place ∈ more, Reaches s dev place) :
    Looked s dev { s' with touched := s'.touched ++ more } := by
  obtain ⟨places, rfl, hplaces⟩ := h
  refine ⟨places ++ more, by rw [List.append_assoc], fun place hp => ?_⟩
  rcases List.mem_append.mp hp with hp | hp
  · exact hplaces place hp
  · exact hmore place hp

theorem reaches_congr (h : s'.shares = s.shares) {place : PathBuf} : Reaches s' dev place ↔ Reaches s dev place := by
  unfold Reaches
  rw [h]

theorem ownRoot_congr (h : s'.shares = s.shares) {place : PathBuf} : OwnRoot s' dev place ↔ OwnRoot s dev place := by
  unfold OwnRoot
  rw [h]

variable {o : Open}

theorem Open.Sound.of_eq (h : o.Sound s) (hshares : s'.shares = s.shares)
    (hentry : ∀ place, entry s'.disk place = entry s.disk place)
    (hnext : s'.disk.next = s.disk.next) : o.Sound s' where
  path := (reaches_congr hshares).mpr h.path
  deletes hd := (ownRoot_congr hshares).not.mpr (h.deletes hd)
  file file hf := by
    obtain ⟨hlt, hplace⟩ := h.file file hf
    refine ⟨hnext ▸ hlt, fun place e he hid => (reaches_congr hshares).mpr (hplace place e ?_ hid)⟩
    rw [← hentry]
    exact he

theorem Sound.of_eq (h : Sound s) (hdisk : s'.disk = s.disk) (hopened : s'.opened = s.opened)
    (hshares : s'.shares = s.shares) : Sound s' where
  roots := by
    rw [hshares, hdisk]
    exact h.roots
  opened id o ho := (h.opened id o (hopened ▸ ho)).of_eq hshares (fun _ => by rw [hdisk]) (by rw [hdisk])
  numbered := by
    rw [hdisk]
    exact h.numbered

theorem Kept.looked (h : Kept s₀ dev s) (hl : Looked s dev s') : Kept s₀ dev s' where
  sound := h.sound.of_eq hl.disk hl.opened hl.shares
  shares := hl.shares.trans h.shares
  roots := by
    rw [hl.disk]
    exact h.roots
  touched := by
    obtain ⟨places, rfl, hplaces⟩ := hl
    intro place hp
    rcases List.mem_append.mp hp with hp | hp
    · exact h.touched place hp
    · exact (reaches_congr h.shares).mp (hplaces place hp)

/-! ## Looking -/

open Act (Ends)

variable {ε α β : Type}

def Looks (s : FsBackend) (dev : UInt32) (m : Io α) (Q : α → Prop) : Prop :=
  Ends (Looked s dev) m (fun a s' => Looked s dev s' ∧ Q a) fun _ => Looked s dev

variable {Q : α → Prop}

theorem Looks.pure {a : α} (h : Q a) : Looks s dev (pure a) Q :=
  Ends.pure fun _ hs => ⟨hs, h⟩

theorem Looks.fail {e : NtStatus} : Looks s dev (Act.fail e) Q :=
  Ends.fail fun _ hs => hs

variable {m : Io α}

variable {f : α → Io β}

theorem Looks.bind {R : β → Prop} (hm : Looks s dev m Q)
    (hf : ∀ a, Q a → Looks s dev (f a) R) : Looks s dev (m >>= f) R :=
  Ends.bind hm fun a s' hs => hf a hs.2 s' hs.1

theorem Looks.conseq {R : α → Prop} (hm : Looks s dev m Q) (h : ∀ a, Q a → R a) : Looks s dev m R :=
  Ends.conseq hm (fun _ hs => hs) (fun a _ hs => ⟨hs.1, h a hs.2⟩) fun _ _ hs => hs

theorem Looks.get_bind {Q : β → Prop} {f : FsBackend → Io β}
    (h : ∀ s', s'.disk = s.disk → s'.opened = s.opened → s'.shares = s.shares → Looks s dev (f s') Q) :
    Looks s dev (Act.get >>= f) Q :=
  fun s' hs' => h s' hs'.disk hs'.opened hs'.shares s' hs'

theorem Looks.touch {places : List PathBuf} (h : ∀ place ∈ places, Reaches s dev place) :
    Looks s dev (touch places) fun _ => True :=
  .modify fun _ hs => ⟨hs.touch h, trivial⟩

theorem Looks.orStatus {r : Except FileError α} (h : ∀ a, r = .ok a → Q a) : Looks s dev (orStatus r) Q := by
  cases r with
  | ok a => exact .pure (h a rfl)
  | error e => exact .fail

theorem Looks.ofExcept {r : Except NtStatus α} (h : ∀ a, r = .ok a → Q a) : Looks s dev (Act.ofExcept r) Q := by
  cases r with
  | ok a => exact .pure (h a rfl)
  | error e => exact .fail

theorem Looks.metadata (h : LeadsInside s dev path) : Looks s dev (metadata path) fun r =>
    (∃ e, r = .error e ∧ s.disk.metadata path = .error e) ∨ ∃ place e, r = .ok ⟨e.isDir, s.disk.data e.id⟩ ∧
    s.disk.metadata path = .ok (place, e) := by
  apply Looks.get_bind
  intro s' hdisk _ _
  rw [hdisk]
  split
  · next e he => exact Looks.pure (.inl ⟨e, rfl, he⟩)
  · next place e he =>
    refine .bind (Q := fun _ => True) (.touch fun p hp => ?_) fun _ _ =>
      .pure (.inr ⟨place, e, rfl, he⟩)
    obtain rfl := List.mem_singleton.mp hp
    exact h _ (metadata_eq_ok he).1

theorem Looks.isDir (h : LeadsInside s dev path) : Looks s dev (isDir path) fun _ => True :=
  .bind (.metadata h) fun _ _ => .pure trivial

theorem Looks.entryExists (h : NamesInside s dev path) :
    Looks s dev (entryExists path) fun b => b = true ↔ ∃ r, s.disk.symlinkMetadata path = .ok r := by
  apply Looks.get_bind
  intro s' hdisk _ _
  rw [hdisk]
  split
  · next e he =>
    refine Looks.pure ⟨fun h => Bool.noConfusion h, ?_⟩
    rintro ⟨r, hr⟩
    cases he.symm.trans hr
  · next place e he =>
    refine .bind (Q := fun _ => True) (.touch fun p hp => ?_) fun _ _ =>
      .pure ⟨fun _ => ⟨_, he⟩, fun _ => rfl⟩
    obtain rfl := List.mem_singleton.mp hp
    exact h _ (symlinkMetadata_eq_ok he).1

theorem Looks.readDir (h : LeadsInside s dev path) : Looks s dev (readDir path) fun _ => True := by
  apply Looks.get_bind
  intro s' hdisk _ _
  rw [hdisk]
  refine Looks.bind (Q := fun r => s.disk.readDir path = .ok r) (Looks.orStatus fun _ hr => hr) ?_
  rintro ⟨place, names⟩ hr
  refine .bind (Q := fun _ => True) (.touch fun p hp => ?_) fun _ _ => .pure trivial
  obtain rfl := List.mem_singleton.mp hp
  unfold FileTree.readDir at hr
  split at hr
  · cases hr
  · next hm =>
    cases hr
    exact h _ (metadata_eq_ok hm).1
  · cases hr

theorem Looks.shareRoot (device : UInt32) : Looks s dev (shareRoot device) fun root =>
    ∃ share, s.shares.get? device = some share ∧ share.root = root := by
  apply Looks.get_bind
  intro s' _ _ hshares
  rw [hshares]
  split
  · next share hshare => exact Looks.pure ⟨share, hshare, rfl⟩
  · exact .fail

theorem Looks.openedFile (req : IoRequest) : Looks s dev (openedFile req) fun o =>
    s.opened.get? req.fileId = some o ∧ o.deviceId = req.deviceId := by
  apply Looks.get_bind
  intro s' _ hopened _
  rw [hopened]
  split
  · next o ho =>
    split
    · next hdev => exact Looks.pure ⟨ho, hdev⟩
    · exact .fail
  · exact .fail

theorem Looks.touchFile {file : File} (h : o.Sound s) (hfile : o.file = some file)
    (hdev : o.deviceId = dev) : Looks s dev (touchFile file) fun _ => True := by
  apply Looks.get_bind
  intro s' hdisk _ _
  rw [hdisk]
  refine Looks.touch fun place hp => ?_
  obtain ⟨e, he, hid⟩ := mem_placesOf.mp hp
  exact hdev ▸ (h.file file hfile).2 place e he hid

/-! ## Resolving -/

variable {t : Disk}

theorem canonical_of_insideWith {fuel : ℕ} {probe place : PathBuf}
    (h : insideWith t root fuel probe = .ok ()) (hplace : t.canonicalize probe = .ok place) : Under root place := by
  unfold insideWith at h
  rw [hplace] at h
  dsimp only at h
  split at h
  · next hunder => exact hunder
  · cases h

theorem parent_of_insideWith {fuel : ℕ} {probe folder : PathBuf} {e : FileError}
    (h : insideWith t root fuel probe = .ok ()) (hprobe : t.canonicalize probe = .error e)
    (hfolder : t.canonicalize probe.dropLast = .ok folder) :
    Under root folder ∧ ∃ e, t.symlinkMetadata probe = .error e := by
  unfold insideWith at h
  rw [hprobe] at h
  dsimp only at h
  split at h
  · cases h
  · next e he =>
    cases fuel with
    | zero => cases h
    | succ fuel =>
      dsimp only at h
      split at h
      · exact ⟨canonical_of_insideWith h hfolder, e, he⟩
      · cases h

variable {share : Share} {serverPath : Text}

theorem resolve_eq_ok (h : resolve t root serverPath = .ok path) : inside t root path = .ok () ∧ Under root path := by
  unfold resolve at h
  split at h
  · cases h
  · cases hnames : components serverPath with
    | error e =>
      rw [hnames] at h
      cases h
    | ok names =>
      rw [hnames] at h
      cases hinside : inside t root (root ++ names) with
      | error e =>
        rw [show (Except.ok names >>= fun names => do inside t root (root ++ names); .ok (root ++ names)) =
          (do inside t root (root ++ names); .ok (root ++ names)) from rfl, hinside] at h
        cases h
      | ok u =>
        rw [show (Except.ok names >>= fun names => do inside t root (root ++ names); .ok (root ++ names)) =
          (do inside t root (root ++ names); .ok (root ++ names)) from rfl, hinside] at h
        cases h
        exact ⟨hinside, Under.append root names⟩

theorem leadsInside_of_inside (hshare : s.shares.get? dev = some share)
    (h : inside s.disk share.root path = .ok ()) : LeadsInside s dev path :=
  fun _ hplace => ⟨share, hshare, canonical_of_insideWith h hplace⟩

theorem namesInside_of_inside {e : FileError} (hshare : s.shares.get? dev = some share)
    (h : inside s.disk share.root path = .ok ()) (he : s.disk.canonicalize path = .error e) :
    NamesInside s dev path := by
  intro place hplace
  rcases locate_eq_ok hplace with ⟨rfl, rfl⟩ | ⟨folder, n, -, rfl, hfolder, -⟩
  · rw [folder_nil.canonicalize] at he
    cases he
  · exact ⟨share, hshare, (parent_of_insideWith h he hfolder).1.trans (.append folder [n])⟩

/-! ## Changing -/

/-- What an action leaves is what a request may leave. -/
def Keeps (s₀ : FsBackend) (dev : UInt32) (s : FsBackend) (m : Io α) : Prop :=
  Ends (Looked s dev) m (fun _ => Kept s₀ dev) fun _ => Kept s₀ dev

theorem Keeps.of_looks (hk : Kept s₀ dev s) (h : Looks s dev m Q) : Keeps s₀ dev s m :=
  Ends.conseq h (fun _ hs => hs) (fun _ _ hs => hk.looked hs.1) fun _ _ hs => hk.looked hs

theorem Keeps.pure {a : α} (hk : Kept s₀ dev s) : Keeps s₀ dev s (pure a) :=
  Ends.pure fun _ hs => hk.looked hs

theorem Keeps.fail {e : NtStatus} (hk : Kept s₀ dev s) : Keeps (α := α) s₀ dev s (Act.fail e) :=
  Ends.fail fun _ hs => hk.looked hs

theorem Keeps.bind_looks (hk : Kept s₀ dev s)
    (hm : Looks s dev m Q) (hf : ∀ a, Q a → Keeps s₀ dev s (f a)) : Keeps s₀ dev s (m >>= f) :=
  Ends.bind (Ends.conseq hm (fun _ hs => hs) (fun _ _ hs => hs) fun _ _ hs => hk.looked hs)
    fun a s' hs => hf a hs.2 s' hs.1

theorem Keeps.get_bind {f : FsBackend → Io β}
    (h : ∀ s', s'.disk = s.disk → s'.opened = s.opened → s'.shares = s.shares → Keeps s₀ dev s (f s')) : Keeps s₀ dev
    s (Act.get >>= f) :=
  fun s' hs' => h s' hs'.disk hs'.opened hs'.shares s' hs'

theorem Keeps.bind {R : α → FsBackend → Prop}
    (hm : Ends (Looked s dev) m (fun a s' => ∃ s₁, R a s₁ ∧ Looked s₁ dev s') fun _ => Kept s₀ dev)
    (hf : ∀ a s₁, R a s₁ → Keeps s₀ dev s₁ (f a)) : Keeps s₀ dev s (m >>= f) := by
  refine Ends.bind hm fun a s' hs => ?_
  obtain ⟨s₁, hr, hl⟩ := hs
  exact hf a s₁ hr s' hl

/-! ### What is open -/

theorem Kept.opens {o : Open} {id next : UInt32} (h : Kept s₀ dev s) (ho : o.Sound s) :
    Kept s₀ dev { s with opened := s.opened.set id o, nextId := next } where
  sound := {
    roots := h.sound.roots
    opened := fun id' o' ho' => by
      have ho' : (s.opened.set id o).get? id' = some o' := ho'
      rw [Table.get?_set] at ho'
      split at ho'
      · cases ho'
        exact ⟨ho.path, ho.deletes, ho.file⟩
      · obtain ⟨hpath, hdel, hfile⟩ := h.sound.opened id' o' ho'
        exact ⟨hpath, hdel, hfile⟩
    numbered := h.sound.numbered }
  shares := h.shares
  roots := h.roots
  touched := h.touched

theorem Kept.closes (h : Kept s₀ dev s) (id : UInt32) :
    Kept s₀ dev { s with opened := s.opened.erase id } where
  sound := {
    roots := h.sound.roots
    opened := fun id' o' ho' => by
      have ho' : (s.opened.erase id).get? id' = some o' := ho'
      rw [Table.get?_erase] at ho'
      split at ho'
      · cases ho'
      · obtain ⟨hpath, hdel, hfile⟩ := h.sound.opened id' o' ho'
        exact ⟨hpath, hdel, hfile⟩
    numbered := h.sound.numbered }
  shares := h.shares
  roots := h.roots
  touched := h.touched

theorem setOpened_looked (id : UInt32) (o : Open) (E : NtStatus → FsBackend → Prop) :
    Ends (Looked s dev) (setOpened id o)
      (fun _ => Looked { s with opened := s.opened.set id o } dev) E := by
  refine .modify fun s' hs => ?_
  obtain ⟨places, rfl, hplaces⟩ := hs
  exact ⟨places, rfl, hplaces⟩

theorem Keeps.setOpened {id : UInt32} (hk : Kept s₀ dev s) (ho : o.Sound s) : Keeps s₀ dev s (setOpened id o) :=
  .conseq (setOpened_looked id o fun _ _ => False) (fun _ hs => hs)
    (fun _ _ hs => (@Drive.Kept.opens _ _ _ _ _ s.nextId hk ho).looked hs) fun _ _ hs => hs.elim

theorem Keeps.setOpened_bind {id : UInt32} {f : Unit → Io β}
    (hf : Keeps s₀ dev { s with opened := s.opened.set id o } (f ())) :
    Keeps s₀ dev s (Drive.setOpened id o >>= f) :=
  Ends.bind (setOpened_looked id o _) fun _ => hf

/-! ### The data of a file -/

theorem Kept.data (h : Kept s₀ dev s) (d : ℕ → FileData) :
    Kept s₀ dev { s with disk := { s.disk with data := d } } where
  sound := {
    roots := h.sound.roots
    opened := fun id o ho => by
      obtain ⟨hpath, hdel, hfile⟩ := h.sound.opened id o ho
      exact ⟨hpath, hdel, hfile⟩
    numbered := ⟨h.sound.numbered.inj, h.sound.numbered.fresh⟩ }
  shares := h.shares
  roots := h.roots
  touched := h.touched

theorem Keeps.onFile {file : File} {f : FileData → FileData} (hk : Kept s₀ dev s) (ho : o.Sound s)
    (hfile : o.file = some file) (hdev : o.deviceId = dev) : Keeps s₀ dev s (onFile file f) := by
  refine .bind_looks hk (.touchFile ho hfile hdev) fun _ _ => ?_
  refine .modify fun s' hs => ?_
  exact (hk.looked hs).data _

/-- What is open now, wherever it is, is in the share. -/
def FileIn (s : FsBackend) (dev : UInt32) (file : File) : Prop :=
  file.id < s.disk.next ∧
    ∀ place e, s.disk.entry place = some e → e.id = file.id → Reaches s dev place

def SameTree (s s₁ : FsBackend) : Prop := ∃ d, s₁ = { s with disk := { s.disk with data := d } }

theorem SameTree.refl (s : FsBackend) : SameTree s s := ⟨s.disk.data, rfl⟩

theorem openFile_ends (hk : Kept s₀ dev s) (h : LeadsInside s dev path) (write truncate : Bool) : Ends (Looked s dev)
    (openFile path write truncate)
    (fun r s' => ∃ s₁, (SameTree s s₁ ∧ ∀ file, r = .ok file → FileIn s dev file) ∧ Looked s₁ dev s') fun _ => Kept s₀
    dev := by
  refine .get_bind fun s' hs' => ?_
  have herror : ∀ e : FileError, Ends (· = s') (Pure.pure (.error e) : Io (Except FileError File))
      (fun r s' => ∃ s₁, (SameTree s s₁ ∧ ∀ file, r = .ok file → FileIn s dev file) ∧ Looked s₁ dev s')
      fun _ => Kept s₀ dev := fun e => .pure fun s'' hs'' =>
    ⟨s, ⟨SameTree.refl s, fun file hr => by cases hr⟩, hs'' ▸ hs'⟩
  rw [hs'.disk]
  split
  · next e he => exact herror e
  · next place e he =>
    obtain ⟨hplace, hentry⟩ := metadata_eq_ok he
    have hin : FileIn s dev ⟨e.id, e.isDir⟩ := by
      refine ⟨hk.sound.numbered.fresh place e hentry, fun p e' hp hid => ?_⟩
      rw [hk.sound.numbered.inj p place e' e hp hentry hid]
      exact h place hplace
    split
    · exact herror _
    · split
      · exact herror _
      · refine .bind (R := fun _ => Looked s dev) (.modify fun s'' hs'' => ?_) fun _ => ?_
        · subst hs''
          refine hs'.touch fun p hp => ?_
          obtain rfl := List.mem_singleton.mp hp
          exact h _ hplace
        · refine .bind (R := fun _ s'' => ∃ s₁, SameTree s s₁ ∧ Looked s₁ dev s'')
            (.modify fun s'' hs'' => ?_) fun _ => .pure fun s'' hs'' => ?_
          · split
            · obtain ⟨places, rfl, hplaces⟩ := hs''
              exact ⟨_, ⟨_, rfl⟩, places, rfl, hplaces⟩
            · exact ⟨s, SameTree.refl s, hs''⟩
          · obtain ⟨s₁, hsame, hl⟩ := hs''
            refine ⟨s₁, ⟨hsame, fun file hr => ?_⟩, hl⟩
            cases hr
            exact hin

/-! ### The tree -/

theorem Kept.disk (h : Kept s₀ dev s)
    (hroots : ∀ d share, s.shares.get? d = some share →
      Folder t share.root ∧ t.entry share.root = s.disk.entry share.root)
    (hnumbered : Numbered t) (hnext : s.disk.next ≤ t.next)
    (hopened : ∀ id o file, s.opened.get? id = some o → o.file = some file →
      ∀ place e, t.entry place = some e → e.id = file.id → Reaches s o.deviceId place) :
    Kept s₀ dev { s with disk := t } where
  sound := {
    roots := fun d share hd => (hroots d share hd).1
    opened := fun id o ho => {
      path := (h.sound.opened id o ho).path
      deletes := (h.sound.opened id o ho).deletes
      file := fun file hf =>
        ⟨((h.sound.opened id o ho).file file hf).1.trans_le hnext, hopened id o file ho hf⟩ }
    numbered := hnumbered }
  shares := h.shares
  roots d share hd := (hroots d share (h.shares ▸ hd)).2.trans (h.roots d share hd)
  touched := h.touched

theorem ne_nil_of_entry {place : PathBuf} (h : t.entry place = none) : place ≠ [] := by
  rintro rfl
  cases h

theorem Kept.adds {place : PathBuf} {make : ℕ → Entry Text} (h : Kept s₀ dev s)
    (hnone : s.disk.entry place = none) (hmake : ∀ id, (make id).id = id) :
    Kept s₀ dev { s with disk := s.disk.add place make freshData } := by
  have hplace := ne_nil_of_entry hnone
  refine h.disk (fun d share hd => (h.sound.roots d share hd).add hplace hnone)
    (h.sound.numbered.add hmake hplace) (Nat.le_succ _) fun id o file ho hf p e he hid => ?_
  obtain ⟨hlt, hplaces⟩ := (h.sound.opened id o ho).file file hf
  rw [entry_add hplace] at he
  split at he
  · rw [← hid, ← Option.some.inj he, hmake] at hlt
    exact absurd hlt (Nat.lt_irrefl _)
  · exact hplaces p e he hid

theorem Kept.removes {place : PathBuf} (h : Kept s₀ dev s) (hplace : place ≠ [])
    (hempty : (∃ e, s.disk.entry place = some e ∧ e.isDir = false) ∨ s.disk.children place = [])
    (hroots : ∀ d share, s.shares.get? d = some share → share.root ≠ place) :
    Kept s₀ dev { s with disk := s.disk.remove place } := by
  refine h.disk (fun d share hd => (h.sound.roots d share hd).remove hplace hempty (hroots d share hd))
    (h.sound.numbered.remove hplace) le_rfl fun id o file ho hf p e he hid => ?_
  rw [entry_remove hplace] at he
  split at he
  · cases he
  · exact ((h.sound.opened id o ho).file file hf).2 p e he hid

theorem Kept.moves {old new : PathBuf} {e : Entry Text} (h : Kept s₀ dev s) (hold : old ≠ [])
    (hnew : new ≠ []) (hreplaces : s.disk.replaces e new = .ok ())
    (hroots : ∀ d share, s.shares.get? d = some share → ¬Under old share.root ∧ new ≠ share.root)
    (hopened : ∀ id o file, s.opened.get? id = some o → o.file = some file →
      ∀ rest e, s.disk.entry (old ++ rest) = some e → e.id = file.id →
        Reaches s o.deviceId (new ++ rest)) :
    Kept s₀ dev { s with disk := s.disk.move old new } := by
  refine h.disk (fun d share hd => ?_) (h.sound.numbered.move hold hnew) le_rfl fun id o file ho hf p e' he hid => ?_
  · exact (h.sound.roots d share hd).move hold hnew hreplaces (hroots d share hd).1 (hroots d share hd).2
  · rcases (entry_move hold hnew).mp he with ⟨rest, rfl, hmoved⟩ | ⟨-, -, hstays⟩
    · exact hopened id o file ho hf rest e' hmoved hid
    · exact ((h.sound.opened id o ho).file file hf).2 p e' hstays hid

theorem createNew_ends {make : ℕ → Entry Text} (hk : Kept s₀ dev s) (h : NamesInside s dev path)
    (hmake : ∀ id, (make id).id = id) :
    Ends (Looked s dev) (createNew path make)
      (fun r s' => ∃ s₁, (Kept s₀ dev s₁ ∧ s₁.shares = s.shares ∧
        ∀ id, r = .ok id → ∀ dir, FileIn s₁ dev ⟨id, dir⟩) ∧ Looked s₁ dev s')
      fun _ => Kept s₀ dev := by
  refine .get_bind fun s' hs' => ?_
  rw [hs'.disk]
  split
  · next e he =>
    exact .pure fun s'' hs'' => ⟨s, ⟨hk, rfl, fun id hr => by cases hr⟩, hs'' ▸ hs'⟩
  · next place t ht =>
    obtain ⟨hlocate, hnone, rfl⟩ := create_eq_ok ht
    have hplace := ne_nil_of_entry hnone
    have hkept := hk.adds hnone hmake
    refine .bind (R := fun _ => Looked s dev) (.modify fun s'' hs'' => ?_) fun _ => ?_
    · subst hs''
      refine hs'.touch fun p hp => ?_
      obtain rfl := List.mem_singleton.mp hp
      exact h _ hlocate
    · refine .bind (R := fun _ => Looked { s with disk := s.disk.add place make freshData } dev)
        (.modify fun s'' hs'' => ?_) fun _ => .pure fun s'' hs'' => ?_
      · obtain ⟨places, rfl, hplaces⟩ := hs''
        exact ⟨places, rfl, hplaces⟩
      · refine ⟨_, ⟨hkept, rfl, fun id hr dir => ?_⟩, hs''⟩
        cases hr
        refine ⟨Nat.lt_succ_self _, fun p e he hid => ?_⟩
        have he : (s.disk.add place make freshData).entry p = some e := he
        have hpp : p = place := by
          by_contra hne
          rw [entry_add hplace, if_neg hne] at he
          exact absurd hid (Nat.ne_of_lt (hk.sound.numbered.fresh p e he))
        exact hpp ▸ h place hlocate

theorem removeEntry_keeps (hk : Kept s₀ dev s) (h : NamesInside s dev path) (dir : Bool)
    (hroots : ∀ d share, s.shares.get? d = some share → s.disk.locate path = .ok share.root →
      s.disk.children share.root ≠ []) : Keeps s₀ dev s (removeEntry path dir) := by
  have hremoved : ∀ place t, (if dir then s.disk.removeDir path else s.disk.removeFile path) =
      .ok (place, t) → s.disk.locate path = .ok place ∧ t = s.disk.remove place ∧
        Kept s₀ dev { s with disk := s.disk.remove place } := fun place t ht => by
    split at ht
    · obtain ⟨hlocate, hplace, hempty, -, hres⟩ := removeDir_eq_ok ht
      refine ⟨hlocate, hres, hk.removes hplace (.inr hempty) fun d share hd hroot => ?_⟩
      exact hroots d share hd (hroot ▸ hlocate) (hroot ▸ hempty)
    · obtain ⟨e, hlocate, he, hdir, hres⟩ := removeFile_eq_ok ht
      refine ⟨hlocate, hres, hk.removes ?_ (.inl ⟨e, he, hdir⟩) fun d share hd hroot => ?_⟩
      · rintro rfl
        cases entry_nil.symm.trans he
        cases hdir
      · obtain ⟨id, hid⟩ := (hk.sound.roots d share hd).2
        rw [hroot, he] at hid
        cases hid
        cases hdir
  refine Ends.get_bind fun s' hs' => ?_
  rw [hs'.disk]
  split
  · exact .pure fun s'' hs'' => hs'' ▸ hk.looked hs'
  · next place t ht =>
    obtain ⟨hlocate, rfl, hkept⟩ := hremoved place t ht
    refine .bind (R := fun _ => Looked s dev) (.modify fun s'' hs'' => ?_) fun _ => ?_
    · subst hs''
      refine hs'.touch fun p hp => ?_
      obtain rfl := List.mem_singleton.mp hp
      exact h _ hlocate
    · refine .bind (R := fun _ => Kept s₀ dev) (.modify fun s'' hs'' => ?_) fun _ =>
        .pure fun _ hs => hs
      obtain ⟨places, rfl, hplaces⟩ := hs''
      exact hkept.looked ⟨places, rfl, hplaces⟩

end Drive

end UwuRdp
