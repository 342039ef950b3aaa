import UwuRdp.Core.Confined
import UwuRdp.Lib.Steps
import UwuRdp.Store.Preference

/-!
# Whole runs of drive requests

What each request leaves, and from it, by induction, what a run of them leaves.
-/

namespace UwuRdp

open Lib Lib.FileTree

namespace Drive

open Act (Ends)

variable {s s₀ s₁ : FsBackend} {dev : UInt32} {path target root : PathBuf} {α β : Type}

/-! ## Renaming -/

variable {e : FileError} {req : IoRequest} {id : UInt32} {R : α → FsBackend → Prop} {m : Io α} {pattern : Text}
  {level : DirectoryLevel} {r : Request}

theorem afterRename_error (h : s.disk.rename path target = .error e) : afterRename s path target = (s, path) := by
  unfold afterRename
  rw [h]

theorem afterRename_ok {old new : PathBuf} {t : Disk} (h : s.disk.rename path target = .ok (old, new, t)) :
    afterRename s path target = ({ s with disk := t }, target) := by
  unfold afterRename
  rw [h]

variable {share : Share} {o : Open}

theorem renameEntry_ends (hk : Kept s₀ req.deviceId s)
    (hshare : s.shares.get? req.deviceId = some share)
    (htarget : Under share.root target) (htne : target ≠ share.root)
    (hnew : NamesInside s req.deviceId target) (h : RenamesInside s req o target) :
    Ends (Looked s req.deviceId) (renameEntry o.path target)
      (fun r s' => Kept s₀ req.deviceId (afterRename s o.path target).1 ∧
        (match r with | .ok _ => target | .error _ => o.path) = (afterRename s o.path target).2 ∧
        Looked (afterRename s o.path target).1 req.deviceId s') fun _ => Kept s₀ req.deviceId := by
  have hroot := hk.sound.roots _ _ hshare
  have hown : ∀ r, OwnRoot s req.deviceId r → r = share.root := fun r ⟨share', hshare', hr⟩ => by
    rw [hr, Option.some.inj (hshare'.symm.trans hshare)]
  have hin : ∀ p, Reaches s req.deviceId p → Under share.root p := fun p ⟨share', hshare', hp⟩ => by
    rw [← Option.some.inj (hshare'.symm.trans hshare)]
    exact hp
  refine .get_bind fun s' hs' => ?_
  rw [hs'.disk]
  split
  · next e he =>
    rw [afterRename_error he]
    exact .pure fun s'' hs'' => ⟨hk, rfl, hs'' ▸ hs'⟩
  · next old new t ht =>
    rw [afterRename_ok ht]
    obtain ⟨e, hold, hlocate, hentry, hcases⟩ := rename_eq_ok ht
    have hkept : Kept s₀ req.deviceId { s with disk := t } := by
      rcases hcases with ⟨-, rfl⟩ | ⟨holdne, hnewne, hnot, hreplaces, rfl⟩
      · exact hk
      · refine hk.moves holdne hnewne hreplaces (fun d other hd => ⟨fun hunder => ?_, fun heq => ?_⟩)
          fun id o' file ho' hfile rest e' he' hid => ?_
        · -- What is above the shared folder and in it is the shared folder, which goes nowhere.
          have hroot' := hown _ (h.roots old hold d other hd hunder)
          have hold' : old = share.root := (hroot' ▸ hunder).antisymm (hin _ (h.moved _ hold))
          exact hnot (hold' ▸ hin _ (hnew _ hlocate))
        · -- The shared folder has the folder in it that its own name was found in.
          have hroot' := hown _ (h.replaced d other hd (heq ▸ hlocate))
          obtain ⟨b, rfl⟩ := htarget
          refine hroot.children_of_locate (b := b) (fun hb => htne (by rw [hb, List.append_nil])) ?_ ?_
          · rw [hlocate, heq, hroot']
          · obtain ⟨id, hid⟩ := hroot.2
            exact children_of_replaces (heq.trans hroot' ▸ hreplaces) hid
        · by_cases hsame : o'.deviceId = req.deviceId
          · rw [hsame]
            exact ⟨share, hshare, (hin _ (hnew _ hlocate)).trans (.append new rest)⟩
          · exact h.others old new hold hlocate id o' file ho' hsame hfile rest e' he' hid
    refine .bind (R := fun _ => Looked s req.deviceId) (.modify fun s'' hs'' => ?_) fun _ => ?_
    · subst hs''
      refine hs'.touch fun p hp => ?_
      rcases List.mem_cons.mp hp with rfl | hp
      · exact h.moved _ hold
      · obtain rfl := List.mem_singleton.mp hp
        exact hnew _ hlocate
    · refine .bind (R := fun _ => Looked { s with disk := t } req.deviceId)
        (.modify fun s'' hs'' => ?_) fun _ => .pure fun s'' hs'' => ⟨hkept, rfl, hs''⟩
      obtain ⟨places, rfl, hplaces⟩ := hs''
      exact ⟨places, rfl, hplaces⟩

theorem Kept.sameTree (h : Kept s₀ dev s) (hsame : SameTree s s₁) : Kept s₀ dev s₁ := by
  obtain ⟨d, rfl⟩ := hsame
  exact h.data d

theorem SameTree.shares (h : SameTree s s₁) : s₁.shares = s.shares := by
  obtain ⟨d, rfl⟩ := h
  rfl

theorem afterRename_shares (s : FsBackend) (path target : PathBuf) :
    (afterRename s path target).1.shares = s.shares := by
  unfold afterRename
  split <;> rfl

theorem afterRename_path (s : FsBackend) (path target : PathBuf) :
    (afterRename s path target).2 = target ∨ (afterRename s path target).2 = path := by
  unfold afterRename
  split
  · exact .inl rfl
  · exact .inr rfl

theorem reopen_keeps (hk : Kept s₀ o.deviceId s)
    (hshare : s.shares.get? o.deviceId = some share) (hunder : Under share.root path)
    (hne : path ≠ share.root) (h : o.file.isSome = true → LeadsInside s o.deviceId path)
    (renamed : Except FileError Unit) :
    Keeps s₀ o.deviceId s (do
      setOpened id { o with file := none, path := path }
      if o.file.isSome then do
        let reopened ← openFile path o.writable false
        let file ← orStatus reopened
        setOpened id { o with file := some file, path := path }
        orStatus renamed
      else orStatus renamed) := by
  have hsound : ∀ file s₂, s₂.shares = s.shares → (∀ f, file = some f → FileIn s₂ o.deviceId f) →
        Open.Sound s₂ { o with file := file, path := path } := fun file s₂ hshares hf => by
    refine ⟨⟨share, by rw [hshares]; exact hshare, hunder⟩, fun _ hown => ?_, hf⟩
    obtain ⟨other, hother, heq⟩ := hown
    rw [hshares] at hother
    rw [Option.some.inj (hother.symm.trans hshare)] at heq
    exact hne heq
  have hclosed := @Drive.Kept.opens _ _ _ _ id s.nextId hk (hsound none s rfl fun f hf => by cases hf)
  refine .setOpened_bind ?_
  split
  · next hsome =>
    refine .bind (openFile_ends hclosed (h hsome) o.writable false) fun reopened s₂ hr => ?_
    obtain ⟨hsame, hfile⟩ := hr
    have hkept := hclosed.sameTree hsame
    refine .bind_looks hkept (.orStatus (Q := fun file => reopened = .ok file) fun _ hr => hr)
      fun file hr => ?_
    refine .setOpened_bind (.of_looks (hkept.opens ?_)
      (.orStatus (Q := fun _ => True) fun _ _ => trivial))
    obtain ⟨d, rfl⟩ := hsame
    refine hsound (some file) _ rfl fun f hf => ?_
    cases hf
    exact hfile file hr
  · exact .of_looks hclosed (.orStatus (Q := fun _ => True) fun _ _ => trivial)

theorem renameOpen_keeps (hk : Kept s₀ req.deviceId s) (hshare : s.shares.get? req.deviceId = some share)
    (ho : o.Sound s) (hne : o.path ≠ share.root) (hdev : o.deviceId = req.deviceId)
    (htarget : Under share.root target) (htne : target ≠ share.root) (hnew : NamesInside s req.deviceId target)
    (h : RenamesInside s req o target) : Keeps s₀ req.deviceId s (renameOpen req o target) := by
  have hpath : Under share.root o.path := by
    obtain ⟨share', hshare', hp⟩ := ho.path
    rw [hdev] at hshare'
    rw [← Option.some.inj (hshare'.symm.trans hshare)]
    exact hp
  refine Ends.bind (renameEntry_ends hk hshare htarget htne hnew h) fun r s' hs' => ?_
  obtain ⟨hkept, hthere, hl⟩ := hs'
  have hshares := afterRename_shares s o.path target
  have hagain := h.again
  have hbelow : Under share.root (afterRename s o.path target).2 ∧ (afterRename s o.path target).2 ≠ share.root := by
    rcases afterRename_path s o.path target with heq | heq
    · rw [heq]
      exact ⟨htarget, htne⟩
    · rw [heq]
      exact ⟨hpath, hne⟩
  rw [← hthere] at hagain hbelow
  rw [← hdev] at hkept hl hshare hagain ⊢
  exact reopen_keeps hkept (hshares ▸ hshare) hbelow.1 hbelow.2 hagain r s' hl

/-! ## What is open -/

theorem setDisposition_keeps {delete : Bool} (hk : Kept s₀ dev s) (ho : o.Sound s)
    (hroot : delete = true → o.path ≠ root → ¬OwnRoot s o.deviceId o.path)
    (h : delete = true → LeadsInside s dev o.path) : Keeps s₀ dev s (setDisposition req root o delete) := by
  unfold setDisposition
  split
  · exact .fail hk
  · next hnot =>
    have hdir : Looks s dev (if delete then isDir o.path else pure false) fun dir =>
        dir = true → delete = true := by
      split
      · next hdelete => exact (Looks.isDir (h hdelete)).conseq fun _ _ _ => hdelete
      · exact .pure fun hdir => Bool.noConfusion hdir
    refine .bind_looks hk hdir fun dir hdelete => ?_
    have hnames : Looks s dev (if dir then readDir o.path else pure []) fun _ => True := by
      split
      · next hd => exact .readDir (h (hdelete hd))
      · exact .pure trivial
    refine .bind_looks hk hnames fun names _ => ?_
    split
    · exact .fail hk
    · exact .setOpened hk ⟨ho.path, fun hd => hroot hd fun heq => hnot ⟨hd, heq⟩, ho.file⟩

theorem setRename_keeps {fileName : Text} {replaceIfExists : Bool} (hk : Kept s₀ req.deviceId s)
    (hshare : s.shares.get? req.deviceId = some share) (ho : s.opened.get? req.fileId = some o)
    (hdev : o.deviceId = req.deviceId) (h : Straight s (.setInformation req (.rename fileName replaceIfExists))) :
    Keeps s₀ req.deviceId s (setRename req share.root o fileName replaceIfExists) := by
  unfold setRename
  split
  · exact .fail hk
  · next hne =>
    refine .get_bind fun s' hdisk _ _ => ?_
    rw [hdisk]
    refine .bind_looks hk (.ofExcept (Q := fun target =>
      resolve s.disk share.root fileName = .ok target) fun _ hr => hr) fun target hresolve => ?_
    split
    · exact .fail hk
    · next htne =>
      obtain ⟨hnew, hcases⟩ := h o share target ho hdev hshare hne hresolve htne
      refine .bind_looks hk (.entryExists hnew) fun there hthere => ?_
      split
      · exact .fail hk
      · next hgo =>
        rcases hcases with ⟨hexists, hsame, hreplace⟩ | hinside
        · exact absurd ⟨hthere.mpr hexists, by rw [hsame]; exact Bool.false_ne_true, hreplace⟩ hgo
        · exact renameOpen_keeps hk hshare (hk.sound.opened _ _ ho) hne hdev (resolve_eq_ok hresolve).2
            htne hnew hinside

theorem setInformation_keeps {buffer : SetBuffer} (hk : Kept s₀ req.deviceId s)
    (h : Straight s (.setInformation req buffer)) : Keeps s₀ req.deviceId s (setInformation req buffer) := by
  refine .bind_looks hk (.shareRoot _) fun root hroot => ?_
  obtain ⟨share, hshare, rfl⟩ := hroot
  refine .bind_looks hk (.openedFile req) fun o ho => ?_
  obtain ⟨ho, hdev⟩ := ho
  have hsound := hk.sound.opened _ _ ho
  cases buffer with
  | endOfFile length =>
    dsimp only
    split
    · exact .fail hk
    · next file hfile =>
      split
      · exact .fail hk
      · split
        · exact .fail hk
        · exact .onFile hk hsound hfile hdev
  | allocation => exact .pure hk
  | basic time =>
    dsimp only
    split
    · next file time hfile _ _ => exact .onFile hk hsound hfile hdev
    · exact .pure hk
  | disposition delete =>
    refine setDisposition_keeps hk hsound (fun _ hne hown => ?_) fun hdelete => ?_
    · obtain ⟨other, hother, heq⟩ := hown
      rw [hdev] at hother
      rw [Option.some.inj (hother.symm.trans hshare)] at heq
      exact hne heq
    · subst hdelete
      exact h o ho hdev
  | rename fileName replaceIfExists => exact setRename_keeps hk hshare ho hdev h
  | other => exact .fail hk

theorem read_keeps (hk : Kept s₀ req.deviceId s) (length offset : ℕ) :
    Keeps s₀ req.deviceId s (read req length offset) := by
  refine .bind_looks hk (.openedFile req) fun o ho => ?_
  obtain ⟨ho, hdev⟩ := ho
  split
  · exact .fail hk
  · next file hfile =>
    split
    · exact .fail hk
    · split
      · exact .fail hk
      · refine .bind_looks hk (.touchFile (hk.sound.opened _ _ ho) hfile hdev) fun _ _ => ?_
        exact .get_bind fun _ _ _ _ => .pure hk

theorem write_keeps (hk : Kept s₀ req.deviceId s) (offset : ℕ) (data : List UInt8) :
    Keeps s₀ req.deviceId s (write req offset data) := by
  refine .bind_looks hk (.openedFile req) fun o ho => ?_
  obtain ⟨ho, hdev⟩ := ho
  split
  · exact .fail hk
  · split
    · exact .fail hk
    · next file hfile =>
      split
      · exact .fail hk
      · split
        · exact .fail hk
        · split
          · exact .fail hk
          · -- What was written is all that changes, whatever the answer.
            refine Ends.bind (R := fun _ => Kept s₀ req.deviceId)
              (Keeps.onFile hk (hk.sound.opened _ _ ho) hfile hdev) fun _ => ?_
            exact Ends.pure fun _ hs => hs

theorem queryInformation_keeps {level : InformationLevel} (hk : Kept s₀ req.deviceId s)
    (h : Straight s (.queryInformation req level)) : Keeps s₀ req.deviceId s (queryInformation req level) := by
  refine Keeps.bind_looks hk (Looks.openedFile req) fun o ho => ?_
  obtain ⟨ho, hdev⟩ := ho
  refine .bind_looks hk (.metadata (h o ho hdev)) fun found _ => ?_
  refine .bind_looks hk (.orStatus (Q := fun _ => True) fun _ _ => trivial) fun m _ => ?_
  cases level with
  | other => exact .fail hk
  | basic | standard | attributeTag => exact .pure hk

theorem queryVolume_keeps {level : VolumeLevel} {space : Option (ℕ × ℕ)}
    (hk : Kept s₀ req.deviceId s) : Keeps s₀ req.deviceId s (queryVolume req level space) := by
  refine .bind_looks hk (.openedFile req) fun o _ => ?_
  refine .get_bind fun s' _ _ hshares => ?_
  rw [hshares]
  split
  · exact .fail hk
  · next share hshare =>
    have hroot : LeadsInside s req.deviceId share.root := fun place hplace => by
      rw [(hk.sound.roots _ _ hshare).canonicalize] at hplace
      exact ⟨share, hshare, Except.ok.inj hplace ▸ .refl share.root⟩
    refine .bind_looks hk (.metadata hroot) fun found _ => ?_
    cases level
    case other => exact .fail hk
    all_goals exact .pure hk

theorem close_keeps (hk : Kept s₀ req.deviceId s) (h : Straight s (.close req)) :
    Keeps s₀ req.deviceId s (close req) := by
  refine .get_bind fun s' _ hopened _ => ?_
  rw [hopened]
  split
  · exact .fail hk
  · next o ho =>
    refine Ends.bind (R := fun _ => Looked { s with opened := s.opened.erase req.fileId } req.deviceId)
      (Ends.modify fun s'' hs'' => ?_) fun _ => ?_
    · obtain ⟨places, rfl, hplaces⟩ := hs''
      exact ⟨places, rfl, hplaces⟩
    have hclosed := hk.closes req.fileId
    show Keeps s₀ req.deviceId { s with opened := s.opened.erase req.fileId } _
    split
    · next hdelete =>
      obtain ⟨hleads, hnames, hroots⟩ := h o ho hdelete
      refine Keeps.bind_looks hclosed (Looks.isDir hleads) fun dir _ => ?_
      refine Ends.bind (R := fun _ => Kept s₀ req.deviceId)
        (removeEntry_keeps hclosed hnames dir fun d share hd hlocate => ?_) fun _ =>
          .pure fun _ hs => hs
      -- The folder of its own share has something in it: what the path of the file begins with.
      have hsound := hk.sound.opened _ _ ho
      obtain ⟨own, hown, heq⟩ := hroots d share hd hlocate
      obtain ⟨own', hown', hunder⟩ := hsound.path
      rw [Option.some.inj (hown'.symm.trans hown)] at hunder
      obtain ⟨b, hb⟩ := hunder
      rw [heq] at hlocate ⊢
      rw [← hb] at hlocate
      refine (hk.sound.roots _ _ hown).children_of_locate (fun hnil => ?_) hlocate
      refine hsound.deletes hdelete ⟨own, hown, ?_⟩
      rw [← hb, hnil, List.append_nil]
    · exact .pure hclosed

/-! ## Opening -/

/-- What an action answers, with the state it leaves but for what it looked at. -/
def Leaves (s₀ : FsBackend) (dev : UInt32) (s : FsBackend) (m : Io α) (R : α → FsBackend → Prop) :
    Prop :=
  Ends (Looked s dev) m (fun a s' => ∃ s₁, R a s₁ ∧ Looked s₁ dev s') fun _ => Kept s₀ dev

theorem Leaves.of_looks {Q : α → Prop} (hk : Kept s₀ dev s)
    (hm : Looks s dev m Q) (h : ∀ a, Q a → R a s) : Leaves s₀ dev s m R :=
  Ends.conseq hm (fun _ hs => hs) (fun a _ hs => ⟨s, h a hs.2, hs.1⟩) fun _ _ hs => hk.looked hs

theorem Leaves.fail {e : NtStatus} (hk : Kept s₀ dev s) :
    Leaves s₀ dev s (Act.fail e) R := Ends.fail fun _ hs => hk.looked hs

theorem Leaves.bind {S : β → FsBackend → Prop} {f : α → Io β}
    (hm : Leaves s₀ dev s m R) (hf : ∀ a s₁, R a s₁ → Leaves s₀ dev s₁ (f a) S) : Leaves s₀ dev s (m >>= f) S := by
  refine Ends.bind hm fun a s' hs => ?_
  obtain ⟨s₁, hr, hl⟩ := hs
  exact hf a s₁ hr s' hl

theorem LeadsInside.data (h : LeadsInside s dev path) (d : ℕ → FileData) :
    LeadsInside { s with disk := { s.disk with data := d } } dev path := fun place hplace =>
  h place ((canonicalize_data d path).symm.trans hplace)

/-- What opening a path leaves: the state it may leave, and a file in the share. -/
def Opens (s₀ : FsBackend) (dev : UInt32) (s : FsBackend) (r : Option File × Bool × UInt8)
    (s₁ : FsBackend) : Prop :=
  Kept s₀ dev s₁ ∧ s₁.shares = s.shares ∧ ∀ file, r.1 = some file → FileIn s₁ dev file

theorem openExisting_leaves {req : CreateRequest} {found : Meta} (hk : Kept s₀ dev s)
    (h : LeadsInside s dev path) : Leaves s₀ dev s (openExisting req path found) (Opens s₀ dev s) := by
  have hfile : ∀ {s₁ : FsBackend} {r : Except FileError File} (writable : Bool) (information : UInt8),
      SameTree s s₁ → (∀ file, r = .ok file → FileIn s₁ dev file) →
        Leaves s₀ dev s₁ (orStatus r >>= fun file => pure (some file, writable, information))
          (Opens s₀ dev s) := fun {s₁ r} writable information hsame hr => by
    have hk₁ := hk.sameTree hsame
    refine .bind (R := fun file s₂ => s₂ = s₁ ∧ r = .ok file)
      (.of_looks hk₁ (.orStatus fun file hf => hf) fun file hf => ⟨rfl, hf⟩) ?_
    rintro file s₂ ⟨rfl, hf⟩
    refine .of_looks hk₁ (.pure rfl) fun a ha => ⟨hk₁, hsame.shares, fun f hsome => ?_⟩
    rw [← ha] at hsome
    exact Option.some.inj hsome ▸ hr file hf
  unfold openExisting
  split
  · exact .fail hk
  · split
    · split
      · exact .fail hk
      · exact .of_looks hk (.pure rfl) fun a ha => ⟨hk, rfl, fun file hf => by cases ha ▸ hf⟩
    · split
      · exact .fail hk
      · refine .bind (openFile_ends hk h _ _) fun first s₁ hfirst => ?_
        obtain ⟨⟨d, rfl⟩, hin⟩ := hfirst
        split
        · -- A file that may not be written is opened for reading, where it leads.
          refine .bind (openFile_ends (hk.data d) (h.data d) false false) fun second s₂ hsecond => ?_
          obtain ⟨⟨d', rfl⟩, hin'⟩ := hsecond
          exact hfile _ _ ⟨d', rfl⟩ hin'
        · exact hfile _ _ ⟨d, rfl⟩ hin

theorem missingStatus_looks (hshare : s.shares.get? dev = some share) (h : inside s.disk share.root path = .ok ())
    (he : s.disk.canonicalize path = .error e) : Looks s dev (missingStatus path) fun _ => True := by
  refine .bind (.isDir fun place hplace => ?_) fun _ _ => .pure trivial
  exact ⟨share, hshare, (parent_of_insideWith h he hplace).1⟩

theorem makeNew_leaves {req : CreateRequest} (hk : Kept s₀ dev s)
    (hshare : s.shares.get? dev = some share) (h : inside s.disk share.root path = .ok ())
    (he : s.disk.canonicalize path = .error e) : Leaves s₀ dev s (makeNew req path) (Opens s₀ dev s) := by
  have hnames := namesInside_of_inside hshare h he
  unfold makeNew
  split
  · refine .bind (R := fun _ s₁ => s₁ = s)
      (.of_looks hk (missingStatus_looks hshare h he) fun _ _ => rfl) ?_
    rintro _ _ rfl
    exact .fail hk
  · split
    · refine .bind (createNew_ends hk hnames fun _ => rfl) fun made s₁ hmade => ?_
      obtain ⟨hk₁, hshares, -⟩ := hmade
      refine .bind (R := fun _ s₂ => s₂ = s₁)
        (.of_looks hk₁ (.orStatus (Q := fun _ => True) fun _ _ => trivial) fun _ _ => rfl) ?_
      rintro _ _ rfl
      exact .of_looks hk₁ (.pure rfl) fun a ha =>
        ⟨hk₁, hshares, fun file hf => by cases ha ▸ hf⟩
    · refine .bind (createNew_ends hk hnames fun _ => rfl) fun made s₁ hmade => ?_
      obtain ⟨hk₁, hshares, hin⟩ := hmade
      refine .bind (R := fun id s₂ => s₂ = s₁ ∧ made = .ok id)
        (.of_looks hk₁ (.orStatus fun _ hr => hr) fun _ hr => ⟨rfl, hr⟩) ?_
      rintro id _ ⟨rfl, hid⟩
      refine .of_looks hk₁ (.pure rfl) fun a ha => ⟨hk₁, hshares, fun file hf => ?_⟩
      rw [← ha] at hf
      exact Option.some.inj hf ▸ hin id hid false

theorem keepOpen_keeps (hk : Kept s₀ dev s) (ho : o.Sound s) : Keeps s₀ dev s (keepOpen o) := by
  rintro _ ⟨places, rfl, hplaces⟩
  exact (hk.opens ho).looked ⟨places, rfl, hplaces⟩

theorem create_keeps {req : CreateRequest} (hk : Kept s₀ req.deviceId s) : Keeps s₀ req.deviceId s (create req) := by
  refine .get_bind fun s' hdisk _ _ => ?_
  rw [hdisk]
  split
  · exact .fail hk
  refine .bind_looks hk (.shareRoot _) fun root hroot => ?_
  obtain ⟨share, hshare, rfl⟩ := hroot
  refine .bind_looks hk (.ofExcept (Q := fun path =>
    resolve s.disk share.root req.path = .ok path) fun _ hr => hr) fun path hresolve => ?_
  obtain ⟨hinside, hunder⟩ := resolve_eq_ok hresolve
  have hleads := leadsInside_of_inside hshare hinside
  refine .bind_looks hk (.metadata hleads) fun found hfound => ?_
  refine .bind (show Leaves s₀ req.deviceId s _ (Opens s₀ req.deviceId s) from ?_) fun r s₁ hr => ?_
  · split
    · exact openExisting_leaves hk hleads
    · rcases hfound with ⟨e, he, hmeta⟩ | ⟨_, _, he, -⟩
      · exact makeNew_leaves hk hshare hinside (metadata_error hmeta)
      · cases he
    · exact .fail hk
  obtain ⟨hk₁, hshares, hin⟩ := hr
  have hopen : Open.Sound s₁ ⟨req.deviceId, path, r.1, r.1.isSome && r.2.1,
      decide (req.createOptions &&& fileDeleteOnClose ≠ 0 ∧ path ≠ share.root), none⟩ := by
    refine ⟨⟨share, by rw [hshares]; exact hshare, hunder⟩, fun hdelete hown => ?_, hin⟩
    obtain ⟨other, hother, heq⟩ := hown
    rw [hshares] at hother
    rw [Option.some.inj (hother.symm.trans hshare)] at heq
    exact (of_decide_eq_true hdelete).2 heq
  exact Ends.bind (R := fun _ => Kept s₀ req.deviceId) (keepOpen_keeps hk₁ hopen) fun _ =>
    Ends.pure fun _ hs => hs

/-! ## Listing -/

theorem Keeps.listing {f : Unit → Io β} {listing : Option (List Text)}
    (hk : Kept s₀ dev s) (ho : o.Sound s)
    (hf : ∀ s₁, Kept s₀ dev s₁ → Keeps s₀ dev s₁ (f ())) :
    Keeps s₀ dev s (Drive.setOpened id { o with listing := listing } >>= f) :=
  .setOpened_bind (hf _ (hk.opens ⟨ho.path, ho.deletes, ho.file⟩))

theorem list_looks [Platform] (hshare : s.shares.get? dev = some share)
    (h : maskOf pattern ≠ [] → plainMask (maskOf pattern) = false → LeadsInside s dev path) :
    Looks s dev (list share.root path pattern) fun _ => True := by
  unfold list
  dsimp only
  split
  · exact .fail
  · next hmask =>
    split
    · refine .get_bind fun s' hdisk _ _ => ?_
      rw [hdisk]
      refine .bind (.ofExcept (Q := fun p => resolve s.disk share.root pattern = .ok p)
        fun _ hr => hr) fun p hresolve => ?_
      split
      · refine .bind (.metadata (leadsInside_of_inside hshare (resolve_eq_ok hresolve).1))
          fun _ _ => .pure trivial
      · exact .pure trivial
    · next hplain =>
      refine Looks.bind (Looks.readDir (h hmask (Bool.eq_false_iff.mpr hplain))) fun _ _ => ?_
      exact .pure trivial

theorem nextEntry_keeps (hk : Kept s₀ req.deviceId s) (hshare : s.shares.get? req.deviceId = some share)
    (ho : o.Sound s) (names : List Text) : Keeps s₀ req.deviceId s (nextEntry req share.root o level names) := by
  induction names with
  | nil => exact .listing hk ho fun _ hk => .fail hk
  | cons name names ih =>
    refine .get_bind fun s' hdisk _ _ => ?_
    rw [hdisk]
    split
    · exact ih
    · next hinside =>
      refine .bind_looks hk (.metadata (leadsInside_of_inside hshare hinside)) fun found _ => ?_
      split
      · exact ih
      · refine .listing hk ho fun s₁ hk₁ => ?_
        unfold directoryEntry
        split
        · exact .pure hk₁
        · exact .fail hk₁
        · exact .pure hk₁

theorem queryDirectory_keeps [Platform] {initial : Bool}
    (hk : Kept s₀ req.deviceId s) (h : Straight s (.queryDirectory req level initial pattern)) : Keeps s₀ req.deviceId
    s (queryDirectory req level initial pattern) := by
  refine .bind_looks hk (.shareRoot _) fun root hroot => ?_
  obtain ⟨share, hshare, rfl⟩ := hroot
  refine .bind_looks hk (.openedFile req) fun o ho => ?_
  obtain ⟨ho, hdev⟩ := ho
  have hsound := hk.sound.opened _ _ ho
  have hlisting : Leaves s₀ req.deviceId s (if initial then do
      setOpened req.fileId { o with listing := none }
      let listing ← list share.root o.path pattern
      if listing = [] then Act.fail .noSuchFile else pure (some listing)
      else pure o.listing) fun _ s₁ => Kept s₀ req.deviceId s₁ ∧ s₁.shares = s.shares ∧
        o.Sound s₁ := by
    split
    · next hinitial =>
      subst hinitial
      have hset := @Drive.Kept.opens _ _ _ { o with listing := none } req.fileId s.nextId hk
        ⟨hsound.path, hsound.deletes, hsound.file⟩
      have hsame : Open.Sound { s with opened := s.opened.set req.fileId { o with listing := none } } o :=
        ⟨hsound.path, hsound.deletes, hsound.file⟩
      refine Ends.bind (setOpened_looked req.fileId _ _) fun _ => ?_
      refine Leaves.bind (R := fun _ s₁ => Kept s₀ req.deviceId s₁ ∧ s₁.shares = s.shares ∧ o.Sound s₁)
        (Leaves.of_looks hset (list_looks hshare (h o ho hdev)) fun _ _ => ⟨hset, rfl, hsame⟩)
        fun listing s₁ hs₁ => ?_
      split
      · exact Leaves.fail hs₁.1
      · exact Leaves.of_looks hs₁.1 (Looks.pure (Q := fun _ => True) trivial) fun _ _ => hs₁
    · exact Leaves.of_looks hk (Looks.pure (Q := fun _ => True) trivial) fun _ _ => ⟨hk, rfl, hsound⟩
  refine Keeps.bind hlisting fun listing s₁ hs₁ => ?_
  obtain ⟨hk₁, hshares, hsound₁⟩ := hs₁
  split
  · exact .fail hk₁
  · exact nextEntry_keeps hk₁ (hshares ▸ hshare) hsound₁ _

/-! ## Runs -/

theorem afterRename_touched (s : FsBackend) (path target : PathBuf) (places : List PathBuf) :
    afterRename { s with touched := places } path target =
      ({ (afterRename s path target).1 with touched := places }, (afterRename s path target).2) := by
  unfold afterRename
  dsimp only
  split <;> rfl

theorem Straight.touched (h : Straight s r) (places : List PathBuf) :
    Straight { s with touched := places } r := by
  cases r with
  | setInformation req buffer =>
    cases buffer with
    | rename fileName replaceIfExists =>
      intro o share target ho hdev hshare hne hresolve htne
      obtain ⟨hnew, hcases⟩ := h o share target ho hdev hshare hne hresolve htne
      refine ⟨hnew, hcases.imp_right fun hinside =>
        ⟨hinside.moved, hinside.roots, hinside.replaced, hinside.others, fun hsome => ?_⟩⟩
      rw [afterRename_touched]
      exact hinside.again hsome
    | disposition delete =>
      cases delete
      · trivial
      · exact h
    | endOfFile | allocation | basic | other => trivial
  | queryDirectory req level initial pattern =>
    cases initial
    · trivial
    · exact h
  | create | read | write | queryVolume => trivial
  | close | queryInformation => exact h

theorem step_kept [Platform] (hs : Sound s) (h : Straight s r) : Kept s r.deviceId (step s r) := by
  have hk : Kept s r.deviceId { s with touched := [] } :=
    ⟨hs.of_eq rfl rfl rfl, rfl, fun _ _ _ => rfl, fun _ hp => absurd hp List.not_mem_nil⟩
  have hrun : ∀ {α : Type} {m : Io α} (f : α → Answer), Keeps s r.deviceId { s with touched := [] } m →
      Kept s r.deviceId ((m >>= fun a => pure (f a)) { s with touched := [] }).2 := fun {α m} f hm =>
    Ends.always (Ends.bind hm fun _ => Ends.pure fun _ hs => hs) (Looked.refl _ _)
  cases r with
  | create req => exact hrun _ (create_keeps hk)
  | close req => exact hrun _ (close_keeps hk h)
  | read req length offset => exact hrun _ (read_keeps hk length offset)
  | write req offset data => exact hrun _ (write_keeps hk offset data)
  | queryInformation req level => exact hrun _ (queryInformation_keeps hk h)
  | queryVolume req level space => exact hrun _ (queryVolume_keeps hk)
  | setInformation req buffer => exact hrun _ (setInformation_keeps hk (h.touched []))
  | queryDirectory req level initial pattern => exact hrun _ (queryDirectory_keeps hk (h.touched []))

theorem run_kept [Platform] {requests : List Request} (hs : Sound s) (h : Steps.Along step Straight s requests) :
    Sound (Steps.run step s requests) ∧ (Steps.run step s requests).shares = s.shares ∧ ∀ d share, s.shares.get? d =
    some share → (Steps.run step s requests).disk.entry share.root = s.disk.entry share.root := by
  refine h.invariant (I := fun s' => Sound s' ∧ s'.shares = s.shares ∧ ∀ d share,
    s.shares.get? d = some share → s'.disk.entry share.root = s.disk.entry share.root)
    ⟨hs, rfl, fun _ _ _ => rfl⟩ fun s' r hs' hr => ?_
  obtain ⟨hsound, hshares, hroots⟩ := hs'
  have hk := step_kept hsound hr
  refine ⟨hk.sound, hk.shares.trans hshares, fun d share hd => ?_⟩
  rw [hk.roots d share (hshares ▸ hd)]
  exact hroots d share hd

theorem sound_new {disk : Disk} {shares : Table UInt32 Share} (hnumbered : Numbered disk)
    (hroots : ∀ d share, shares.get? d = some share →
      disk.canonicalize share.root = .ok share.root ∧ ∃ id, disk.entry share.root = some (.dir id)) :
    Sound (FsBackend.new disk shares) where
  roots d share hd := ⟨(canonicalize_real (hroots d share hd).1).1, (hroots d share hd).2⟩
  opened id o ho := by cases ho
  numbered := hnumbered

/-- As long as the requests are straight, each reaches only what is in the share it names, and the
shared folders stay where they are. -/
theorem stays_in_share [Platform] (disk : Disk) (shares : Table UInt32 Share) (hnumbered : Numbered disk)
    (hroots : ∀ d share, shares.get? d = some share →
      disk.canonicalize share.root = .ok share.root ∧ ∃ id, disk.entry share.root = some (.dir id))
    (requests : List Request) (h : Steps.Along step Straight (FsBackend.new disk shares) requests)
    (first later : List Request) (r : Request) (hrun : requests = first ++ r :: later) :
    let s := Steps.run step (FsBackend.new disk shares) first
    (∀ place ∈ (step s r).touched, Reaches (FsBackend.new disk shares) r.deviceId place) ∧
      ∀ d share, shares.get? d = some share →
        (step s r).disk.entry share.root = disk.entry share.root := by
  subst hrun
  obtain ⟨hsound, hshares, hentries⟩ := run_kept (sound_new hnumbered hroots) h.before
  have hk := step_kept hsound h.at
  refine ⟨fun place hp => (reaches_congr hshares).mp (hk.touched place hp), fun d share hd => ?_⟩
  rw [hk.roots d share (hshares ▸ hd)]
  exact hentries d share hd

/-- A shared folder `/h/s` with a file `f`, and in a folder `x` the link `l` to it; beside the shared
folder there is another file `f`. -/
def linkedDisk : Disk :=
  ((((((FileTree.empty freshData).add [['h']] .dir freshData).add [['h'], ['s']] .dir freshData).add
    [['h'], ['s'], ['x']] .dir freshData).add [['h'], ['s'], ['f']] .file freshData).add
      [['h'], ['s'], ['x'], ['l']] (fun id => .link id false [.up, .into ['f']]) freshData).add
        [['h'], ['f']] .file freshData

def oneShare : Table UInt32 Share := Table.empty.set 1 ⟨['s'], [['h'], ['s']]⟩

theorem linkedDisk_numbered : Numbered linkedDisk :=
  ((((((numbered_empty freshData).add (fun _ => rfl) (by decide)).add (fun _ => rfl) (by decide)).add
    (fun _ => rfl) (by decide)).add (fun _ => rfl) (by decide)).add (fun _ => rfl) (by decide)).add
      (fun _ => rfl) (by decide)

theorem oneShare_roots (d : UInt32) (share : Share) (h : oneShare.get? d = some share) : linkedDisk.canonicalize
    share.root = .ok share.root ∧ ∃ id, linkedDisk.entry share.root = some (.dir id) := by
  rw [oneShare, Table.get?_set] at h
  split at h
  · cases h
    exact ⟨by decide +kernel, 2, by decide +kernel⟩
  · cases h

/-- A file is made in the shared folder and read. -/
theorem stays_in_share_made :
    letI := asciiPlatform
    let s := Steps.run step (FsBackend.new linkedDisk oneShare) [.create ⟨1, ['n'], 0x52000006, 2, 0⟩]
    (∀ place ∈ (step s (.read ⟨1, 1⟩ 16 0)).touched,
      Reaches (FsBackend.new linkedDisk oneShare) 1 place) ∧
      ∀ d share, oneShare.get? d = some share →
        (step s (.read ⟨1, 1⟩ 16 0)).disk.entry share.root = linkedDisk.entry share.root := by
  let _ := asciiPlatform
  exact stays_in_share linkedDisk oneShare linkedDisk_numbered oneShare_roots
    [.create ⟨1, ['n'], 0x52000006, 2, 0⟩, .read ⟨1, 1⟩ 16 0] ⟨trivial, trivial, trivial⟩
    [.create ⟨1, ['n'], 0x52000006, 2, 0⟩] [] (.read ⟨1, 1⟩ 16 0) rfl

/-- The link is opened, moved one folder up and followed again: out of the shared folder. -/
theorem link_moved_out :
    letI := asciiPlatform
    ¬∀ (disk : Disk) (shares : Table UInt32 Share), Numbered disk →
      (∀ d share, shares.get? d = some share →
        disk.canonicalize share.root = .ok share.root ∧ ∃ id, disk.entry share.root = some (.dir id)) →
      ∀ (first : List Request) (r : Request),
        ∀ place ∈ (step (Steps.run step (FsBackend.new disk shares) first) r).touched,
          Reaches (FsBackend.new disk shares) r.deviceId place := by
  let _ := asciiPlatform
  intro hall
  obtain ⟨share, hshare, hunder⟩ := hall linkedDisk oneShare linkedDisk_numbered oneShare_roots
    [.create ⟨1, ['x', '\\', 'l'], 0x52000006, 1, 0⟩, .setInformation ⟨1, 1⟩ (.rename ['l'] false)]
    (.read ⟨1, 1⟩ 16 0) [['h'], ['f']] (by decide +kernel)
  obtain rfl := Option.some.inj ((show oneShare.get? 1 = some ⟨['s'], [['h'], ['s']]⟩ from rfl).symm.trans hshare)
  exact absurd hunder (by decide)

end Drive

end UwuRdp
