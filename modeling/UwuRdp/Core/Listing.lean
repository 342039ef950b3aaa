import UwuRdp.Core.Outcomes
import UwuRdp.Store.Preference

/-!
# Listing a folder

The queries that list a folder answer the names in it that match the mask and lead somewhere inside the
share, each once and in order. What they answer is not held against what a server path may name: a name
the system allows and a server path does not, as one with a `:`, is listed and cannot be opened, and one
with a `\` is read as a path of its own.
-/

namespace UwuRdp

open Lib Lib.FileTree

namespace Drive

variable {s s' : FsBackend} {t : Disk} {root path : PathBuf} {serverPath name : Text}

/-! ## A name below a server path -/

/-- `components`, on the names so far and one more part. -/
def takePart (names : List Text) (part : Text) : Except NtStatus (List Text) :=
  if part = [] ∨ part = ['.'] then .ok names
  else if part = ['.', '.'] then .error .accessDenied
  else if plainComponent part then .ok (names ++ [part])
  else .error .objectNameInvalid

theorem components_eq (serverPath : Text) :
    components serverPath = (serverPath.splitOn '\\').foldlM takePart [] := rfl

theorem takePart_plain (h : plainComponent name) (names : List Text) :
    takePart names name = .ok (names ++ [name]) := by
  have hplain := h
  unfold plainComponent at h
  simp only [Bool.and_eq_true, decide_eq_true_eq] at h
  obtain ⟨⟨⟨-, hnil⟩, hdot⟩, hup⟩ := h
  unfold takePart
  rw [if_neg (by rintro (he | he); exacts [hnil he, hdot he]), if_neg hup, if_pos hplain]

theorem takeParts_plain {parts names out : List Text} (h : parts.foldlM takePart names = .ok out) :
    ∃ more, out = names ++ more ∧ ∀ n ∈ more, plainComponent n := by
  induction parts generalizing names with
  | nil =>
    cases h
    exact ⟨[], (List.append_nil _).symm, fun n hn => nomatch hn⟩
  | cons part parts ih =>
    rw [List.foldlM_cons] at h
    rcases hpart : takePart names part with e | names'
    · rw [hpart] at h
      cases h
    · rw [hpart] at h
      obtain ⟨more, rfl, hmore⟩ := ih h
      unfold takePart at hpart
      split at hpart
      · cases hpart
        exact ⟨more, rfl, hmore⟩
      · split at hpart
        · cases hpart
        · split at hpart
          · next hplain =>
            cases hpart
            refine ⟨part :: more, by simp, fun n hn => ?_⟩
            rcases List.mem_cons.mp hn with rfl | hn
            · exact hplain
            · exact hmore n hn
          · cases hpart

theorem splitOn_plain (h : plainComponent name) : name.splitOn '\\' = [name] := by
  refine List.splitOn_eq_singleton fun hm => ?_
  unfold plainComponent at h
  simp only [Bool.and_eq_true, Bool.not_eq_true', decide_eq_true_eq] at h
  obtain ⟨⟨⟨⟨-, hany⟩, -⟩, -⟩, -⟩ := h
  have := List.any_eq_false.mp hany '\\' hm
  exact this (by decide)

theorem components_append (serverPath name : Text) : components (serverPath ++ '\\' :: name) =
    components serverPath >>= fun names => (name.splitOn '\\').foldlM takePart names := by
  rw [components_eq, components_eq, List.splitOn_append_cons_self, List.foldlM_append]

theorem utf8Len_append (a b : Text) : (a ++ b).utf8Len = a.utf8Len + b.utf8Len := by
  rw [Text.utf8Len, List.map_append, List.sum_append]
  rfl

theorem resolve_eq_ok_iff : resolve t root serverPath = .ok path ↔ serverPath.utf8Len ≤ 32 * 1024 ∧ ∃ names,
    components serverPath = .ok names ∧ path = root ++ names ∧ inside t root path = .ok () := by
  unfold resolve
  by_cases hlen : 32 * 1024 < serverPath.utf8Len
  · rw [if_pos hlen]
    exact ⟨fun h => (nomatch h), fun h => absurd h.1 (Nat.not_le.mpr hlen)⟩
  rw [if_neg hlen]
  rcases hnames : components serverPath with e | names
  · exact ⟨fun h => (nomatch (show Except.error e = Except.ok path from h)), fun ⟨_, _, h, _⟩ => nomatch h⟩
  show (do inside t root (root ++ names); .ok (root ++ names)) = Except.ok path ↔ _
  rcases hin : inside t root (root ++ names) with e | u
  · constructor
    · intro h
      exact (nomatch (show Except.error e = Except.ok path from h))
    · rintro ⟨-, names', hn, rfl, hok⟩
      rw [← Except.ok.inj hn, hin] at hok
      cases hok
  · constructor
    · intro h
      cases show Except.ok (root ++ names) = Except.ok path from h
      exact ⟨Nat.le_of_not_lt hlen, names, rfl, rfl, hin⟩
    · rintro ⟨-, names', hn, rfl, -⟩
      rw [← Except.ok.inj hn]
      rfl

theorem resolve_below (hpath : resolve t root serverPath = .ok path) (hin : inside t root (path ++ [name]) = .ok ()) :
    resolve t root (serverPath ++ '\\' :: name) = .ok (path ++ [name]) ↔ plainComponent name ∧ serverPath.utf8Len + 1
    + name.utf8Len ≤ 32 * 1024 := by
  obtain ⟨-, names, hnames, rfl, -⟩ := resolve_eq_ok_iff.mp hpath
  have hlen : (serverPath ++ '\\' :: name).utf8Len = serverPath.utf8Len + 1 + name.utf8Len := by
    rw [utf8Len_append, Nat.add_assoc]
    rfl
  have hbelow : components (serverPath ++ '\\' :: name) = (name.splitOn '\\').foldlM takePart names := by
    rw [components_append, hnames]
    rfl
  rw [resolve_eq_ok_iff, hlen, hbelow]
  constructor
  · rintro ⟨hshort, names', hn, he, -⟩
    obtain ⟨more, rfl, hmore⟩ := takeParts_plain hn
    rw [List.append_assoc] at he
    have hname : [name] = more := List.append_cancel_left (List.append_cancel_left he)
    exact ⟨hmore name (by rw [← hname]; exact List.mem_singleton_self name), hshort⟩
  · rintro ⟨hplain, hshort⟩
    refine ⟨hshort, names ++ [name], ?_, List.append_assoc _ _ _, hin⟩
    rw [splitOn_plain hplain]
    show (takePart names name >>= fun names => Except.ok names) = _
    rw [takePart_plain hplain]
    rfl

/-! ## What is listed -/

/-- A path leads somewhere inside the share, once links are followed. -/
def LiesInside (t : Disk) (root path : PathBuf) : Prop :=
  match t.canonicalize path with
  | .ok real => Under root real
  | .error _ => False

instance (t : Disk) (root path : PathBuf) : Decidable (LiesInside t root path) := by
  unfold LiesInside
  cases t.canonicalize path with
  | ok real => exact inferInstanceAs (Decidable (Under root real))
  | error e => exact instDecidableFalse

theorem inside_entry {e : PathBuf × Entry Text} (h : t.symlinkMetadata path = .ok e) :
    inside t root path = .ok () ↔ LiesInside t root path := by
  unfold inside insideWith LiesInside
  cases t.canonicalize path with
  | ok real =>
    dsimp only
    split
    · next hu => exact ⟨fun _ => hu, fun _ => rfl⟩
    · next hu => exact ⟨fun he => (nomatch he), fun hr => absurd hr hu⟩
  | error er =>
    rw [h]
    exact ⟨fun he => (nomatch he), False.elim⟩

theorem LiesInside.metadata (h : LiesInside t root path) : ∃ found, t.metadata path = .ok found := by
  unfold LiesInside at h
  rcases hm : t.metadata path with er | found
  · rw [metadata_error hm] at h
    exact h.elim
  · exact ⟨found, rfl⟩

theorem symlinkMetadata_below {folder : PathBuf} {id : ℕ} {e : Entry Text}
    (hfolder : t.metadata path = .ok (folder, .dir id)) (he : t.entry (folder ++ [name]) = some e) :
    t.symlinkMetadata (path ++ [name]) = .ok (folder ++ [name], e) := by
  obtain ⟨hcanonical, hdir⟩ := metadata_eq_ok hfolder
  have hlocate : t.locate (path ++ [name]) = .ok (folder ++ [name]) := by
    unfold locate
    rw [List.getLast?_concat, List.dropLast_concat]
    rw [hcanonical]
    dsimp only
    rw [hdir]
  unfold symlinkMetadata
  rw [hlocate]
  dsimp only
  rw [he]

section Listed

variable [Platform]

def lowerLe (a b : Text) : Bool := Text.le (Platform.toLowercase a) (Platform.toLowercase b)

/-- The names of a folder that one listing takes, as the system gives them. -/
def offered (t : Disk) (folder : PathBuf) (mask : Text) : List Text :=
  ((t.children folder).filter (matchesMask mask)).take maxListing

theorem offered_there {folder : PathBuf} {mask : Text} (h : name ∈ offered t folder mask) :
    (∃ e, t.entry (folder ++ [name]) = some e) ∧ matchesMask mask name = true := by
  have hm := List.mem_filter.mp (List.mem_of_mem_take h)
  exact ⟨mem_children_iff.mp hm.1, hm.2⟩

theorem mem_offered {folder : PathBuf} {mask : Text} {e : Entry Text}
    (hsmall : (t.children folder).length ≤ maxListing) (he : t.entry (folder ++ [name]) = some e)
    (hmask : matchesMask mask name = true) : name ∈ offered t folder mask := by
  have hall := (List.length_filter_le (matchesMask mask) (t.children folder)).trans hsmall
  rw [offered, List.take_of_length_le hall]
  exact List.mem_filter.mpr ⟨mem_children_iff.mpr ⟨e, he⟩, hmask⟩

def listed (t : Disk) (folder : PathBuf) (mask : Text) : List Text := (offered t folder mask).mergeSort lowerLe

theorem listed_perm (t : Disk) (folder : PathBuf) (mask : Text) :
    (listed t folder mask).Perm (offered t folder mask) :=
  List.mergeSort_perm _ _

theorem listed_sorted (t : Disk) (folder : PathBuf) (mask : Text) :
    (listed t folder mask).Pairwise fun a b => lowerLe a b = true := by
  have htrans : ∀ a b c : Text, lowerLe a b = true → lowerLe b c = true → lowerLe a c = true :=
    fun _ _ _ hab hbc => Text.le_trans hab hbc
  have htotal : ∀ a b : Text, (lowerLe a b || lowerLe b a) = true := by
    intro a b
    rw [Bool.or_eq_true]
    exact Text.le_total _ _
  exact List.pairwise_mergeSort htrans htotal _

def shown (t : Disk) (root path folder : PathBuf) (mask : Text) : List Text :=
  (listed t folder mask).filter fun n => LiesInside t root (path ++ [n])

theorem mem_shown {folder : PathBuf} {mask : Text} : name ∈ shown t root path folder mask ↔
    name ∈ offered t folder mask ∧ LiesInside t root (path ++ [name]) := by
  rw [shown, List.mem_filter, (listed_perm t folder mask).mem_iff, decide_eq_true_eq]

theorem shown_nodup (t : Disk) (root path folder : PathBuf) (mask : Text) :
    (shown t root path folder mask).Nodup := by
  have hoffered : (offered t folder mask).Nodup :=
    ((nodup_children t folder).filter _).sublist (List.take_sublist _ _)
  exact (((listed_perm t folder mask).nodup_iff).mpr hoffered).filter _

theorem length_shown (t : Disk) (root path folder : PathBuf) (mask : Text) : (shown t root path folder mask).length =
    ((offered t folder mask).filter fun n => LiesInside t root (path ++ [n])).length :=
  ((listed_perm t folder mask).filter _).length_eq

end Listed

/-! ## The queries, one after another -/

def DirectoryEntry.fileName : DirectoryEntry → Text
  | .full _ _ _ _ _ _ text => text
  | .name text => text

def Answers (level : DirectoryLevel) (name : Text) (answer : Except NtStatus DirectoryEntry) : Prop :=
  if level = .other then answer = .error .notSupported
  else ∃ e, answer = .ok e ∧ e.fileName = name

theorem Answers.of_error {level : DirectoryLevel} {e : NtStatus} (h : Answers level name (.error e)) :
    e = .notSupported := by
  unfold Answers at h
  split at h
  · exact Except.error.inj h
  · obtain ⟨_, hok, -⟩ := h
    cases hok

theorem Answers.of_ok {level : DirectoryLevel} {e : DirectoryEntry} (h : Answers level name (.ok e)) :
    level ≠ .other ∧ e.fileName = name := by
  unfold Answers at h
  split at h
  · cases h
  · next hlevel =>
    obtain ⟨e', he, hname⟩ := h
    rw [Except.ok.inj he]
    exact ⟨hlevel, hname⟩

theorem directoryEntry_eq (level : DirectoryLevel) (name : Text) (path : PathBuf) (m : Meta) (s : FsBackend) : ∃
    answer, directoryEntry level name path m s = (answer, s) ∧ Answers level name answer := by
  cases level with
  | other => exact ⟨_, rfl, rfl⟩
  | names | bothDirectory | fullDirectory | directory => exact ⟨_, rfl, ⟨_, rfl, rfl⟩⟩

theorem metadata_eq (path : PathBuf) (s : FsBackend) : ∃ s', Quiet s s' ∧ metadata path s =
    (.ok ((s.disk.metadata path).map fun p => (⟨p.2.isDir, s.disk.data p.2.id⟩ : Meta)), s') := by
  unfold metadata
  rw [Act.get_bind]
  cases s.disk.metadata path with
  | error e => exact ⟨s, .refl s, rfl⟩
  | ok found => exact ⟨_, ⟨_, rfl⟩, rfl⟩

/-- What is left of the handle when so much of its listing is left. -/
def leaves (s : FsBackend) (req : IoRequest) (o : Open) (rest : List Text) : FsBackend :=
  { s with opened := s.opened.set req.fileId { o with listing := some rest } }

variable {req : IoRequest} {o : Open} {level : DirectoryLevel}

/-- What is answered when these names are left to answer, and which are left then. -/
def Advances (level : DirectoryLevel) :
    List Text → Except NtStatus DirectoryEntry → List Text → Prop
  | [], answer, left => answer = .error .noMoreFiles ∧ left = []
  | n :: more, answer, left => Answers level n answer ∧ left = more

theorem nextEntry_eq (names : List Text) (hthere : ∀ n ∈ names, ∃ e, s.disk.symlinkMetadata (o.path ++ [n]) = .ok e) :
    ∃ answer s' rest, nextEntry req root o level names s = (answer, s') ∧ Quiet (leaves s req o rest) s' ∧ rest <:+
    names ∧ Advances level (names.filter fun n => LiesInside s.disk root (o.path ++ [n])) answer
    (rest.filter fun n => LiesInside s.disk root (o.path ++ [n])) := by
  induction names generalizing s with
  | nil => exact ⟨_, _, [], rfl, ⟨_, rfl⟩, List.suffix_rfl, rfl, rfl⟩
  | cons n names ih =>
    have hrest : ∀ m ∈ names, ∃ e, s.disk.symlinkMetadata (o.path ++ [m]) = .ok e :=
      fun m hm => hthere m (List.mem_cons_of_mem n hm)
    obtain ⟨e, he⟩ := hthere n List.mem_cons_self
    unfold nextEntry
    rw [Act.get_bind]
    by_cases hin : LiesInside s.disk root (o.path ++ [n])
    · obtain ⟨found, hfound⟩ := hin.metadata
      obtain ⟨s₁, ⟨places, rfl⟩, hmeta⟩ := metadata_eq (o.path ++ [n]) s
      rw [hfound] at hmeta
      obtain ⟨answer, hanswer, hanswers⟩ := directoryEntry_eq level n (o.path ++ [n])
        ⟨found.2.isDir, s.disk.data found.2.id⟩ (leaves { s with touched := places } req o names)
      rw [(inside_entry he).mpr hin, List.filter_cons_of_pos (by simpa using hin)]
      refine ⟨answer, _, names, ?_, ⟨places, rfl⟩, List.suffix_cons n names, hanswers, rfl⟩
      dsimp only
      rw [Act.bind_of_ok hmeta]
      exact hanswer
    · obtain ⟨answer, s', rest, hrun, hquiet, hsuffix, hleft⟩ := ih hrest
      rw [List.filter_cons_of_neg (by simpa using hin)]
      refine ⟨answer, s', rest, ?_, hquiet, hsuffix.trans (List.suffix_cons n names), hleft⟩
      rcases hinside : inside s.disk root (o.path ++ [n]) with er | u
      · exact hrun
      · exact absurd ((inside_entry he).mp hinside) hin

/-- A handle with so much of its listing left, on a disk as it was. -/
structure Left (s : FsBackend) (req : IoRequest) (o : Open) (rest : Option (List Text)) (s' : FsBackend) :
    Prop where
  disk : s'.disk = s.disk
  shares : s'.shares = s.shares
  opened : s'.opened.get? req.fileId = some { o with listing := rest }
  there : ∀ n ∈ rest.getD [], ∃ e, s.disk.symlinkMetadata (o.path ++ [n]) = .ok e

def remaining (s : FsBackend) (root : PathBuf) (o : Open) (rest : Option (List Text)) : List Text :=
  (rest.getD []).filter fun n => LiesInside s.disk root (o.path ++ [n])

theorem Left.of_quiet {rest : List Text} (hdisk : s'.disk = s.disk) (hshares : s'.shares = s.shares)
    (hthere : ∀ n ∈ rest, ∃ e, s.disk.symlinkMetadata (o.path ++ [n]) = .ok e) {s₁ : FsBackend}
    (h : Quiet (leaves s' req o rest) s₁) : Left s req o (some rest) s₁ where
  disk := h.disk.trans hdisk
  shares := h.shares.trans hshares
  opened := by
    rw [h.opened]
    exact Table.get?_set_self _ _ _
  there := hthere

variable {share : Share} {rest : Option (List Text)} {pattern : Text}

theorem shareRoot_eq {dev : UInt32} (h : s.shares.get? dev = some share) : shareRoot dev s = (.ok share.root, s) := by
  unfold shareRoot
  rw [Act.get_bind, h]
  rfl

theorem openedFile_ok (h : s.opened.get? req.fileId = some o) (hdev : o.deviceId = req.deviceId) :
    openedFile req s = (.ok o, s) := by
  unfold openedFile
  rw [Act.get_bind, h]
  dsimp only
  rw [if_pos hdev]
  rfl

section Queries

variable [Platform]

theorem furtherQuery (hshare : s.shares.get? req.deviceId = some share)
    (hdev : o.deviceId = req.deviceId) (hleft : Left s req o rest s') :
    ∃ answer s₁ rest', queryDirectory req level false pattern s' = (answer, s₁) ∧
      Left s req o rest' s₁ ∧
      Advances level (remaining s share.root o rest) answer (remaining s share.root o rest') := by
  have hroot : shareRoot req.deviceId s' = (.ok share.root, s') := shareRoot_eq (by rw [hleft.shares, hshare])
  have hopened : openedFile req s' = (.ok { o with listing := rest }, s') := openedFile_ok hleft.opened hdev
  unfold queryDirectory
  rw [Act.bind_of_ok hroot, Act.bind_of_ok hopened]
  cases rest with
  | none => exact ⟨_, s', none, rfl, hleft, rfl, rfl⟩
  | some names =>
    have hthere : ∀ n ∈ names, ∃ e, s'.disk.symlinkMetadata (o.path ++ [n]) = .ok e := by
      rw [hleft.disk]
      exact hleft.there
    obtain ⟨answer, s₁, rest', hrun, hquiet, hsuffix, hadvances⟩ :=
      @nextEntry_eq _ share.root req { o with listing := some names } level names hthere
    refine ⟨answer, s₁, some rest', hrun, ?_, ?_⟩
    · exact Left.of_quiet hleft.disk hleft.shares (fun n hn => hleft.there n (hsuffix.subset hn)) hquiet
    · rw [hleft.disk] at hadvances
      exact hadvances

variable {folder : PathBuf} {id : ℕ}

theorem list_eq (hfolder : s.disk.metadata path = .ok (folder, .dir id))
    (hmask : plainMask (maskOf pattern) = false) :
    ∃ s', Quiet s s' ∧ list root path pattern s = (.ok (listed s.disk folder (maskOf pattern)), s') := by
  have hne : maskOf pattern ≠ [] := by
    intro h
    rw [h] at hmask
    cases hmask
  have hread : readDir path s = (.ok (s.disk.children folder), { s with touched := s.touched ++ [folder] }) := by
    unfold readDir FileTree.readDir
    rw [Act.get_bind, hfolder]
    rfl
  refine ⟨{ s with touched := s.touched ++ [folder] }, ⟨_, rfl⟩, ?_⟩
  unfold list
  rw [if_neg hne, if_neg (by rw [hmask]; exact Bool.false_ne_true), Act.bind_of_ok hread]
  rfl

theorem firstQuery (hshare : s.shares.get? req.deviceId = some share)
    (hopened : s.opened.get? req.fileId = some o) (hdev : o.deviceId = req.deviceId)
    (hfolder : s.disk.metadata o.path = .ok (folder, .dir id))
    (hmask : plainMask (maskOf pattern) = false) :
    ∃ answer s₁ rest', queryDirectory req level true pattern s = (answer, s₁) ∧ Left s req o rest' s₁ ∧
      (Advances level (shown s.disk share.root o.path folder (maskOf pattern)) answer
          (remaining s share.root o rest') ∨
        shown s.disk share.root o.path folder (maskOf pattern) = [] ∧ answer = .error .noSuchFile ∧
          remaining s share.root o rest' = []) := by
  have hclosed : Left s req o none { s with opened := s.opened.set req.fileId { o with listing := none } } :=
    ⟨rfl, rfl, Table.get?_set_self _ _ _, fun n hn => nomatch hn⟩
  obtain ⟨s₂, hquiet, hlist⟩ := @list_eq
    { s with opened := s.opened.set req.fileId { o with listing := none } } share.root _ _ _ _ _ hfolder hmask
  have hquery : queryDirectory req level true pattern s =
      (if listed s.disk folder (maskOf pattern) = [] then (Act.fail .noSuchFile : Io DirectoryEntry)
        else nextEntry req share.root o level (listed s.disk folder (maskOf pattern))) s₂ := by
    unfold queryDirectory
    rw [Act.bind_of_ok (shareRoot_eq hshare), Act.bind_of_ok (openedFile_ok hopened hdev), if_pos rfl]
    have hset : setOpened req.fileId { o with listing := none } s =
        (.ok (), { s with opened := s.opened.set req.fileId { o with listing := none } }) := rfl
    by_cases hempty : listed s.disk folder (maskOf pattern) = []
    · rw [if_pos hempty]
      refine Act.bind_of_error ?_
      rw [Act.bind_of_ok hset, Act.bind_of_ok hlist, if_pos hempty]
      rfl
    · rw [if_neg hempty]
      refine Eq.trans (Act.bind_of_ok (a := some (listed s.disk folder (maskOf pattern))) ?_) rfl
      rw [Act.bind_of_ok hset, Act.bind_of_ok hlist, if_neg hempty]
      rfl
  have hdisk : s₂.disk = s.disk := hquiet.disk
  have hthere : ∀ n ∈ listed s.disk folder (maskOf pattern), ∃ e, s.disk.symlinkMetadata (o.path ++ [n]) = .ok e := by
    intro n hn
    obtain ⟨⟨e, he⟩, -⟩ := offered_there ((listed_perm s.disk folder (maskOf pattern)).mem_iff.mp hn)
    exact ⟨_, symlinkMetadata_below hfolder he⟩
  rw [hquery]
  by_cases hempty : listed s.disk folder (maskOf pattern) = []
  · rw [if_pos hempty]
    refine ⟨_, s₂, none, rfl, ?_, .inr ⟨?_, rfl, rfl⟩⟩
    · exact ⟨hdisk, hquiet.shares, by rw [hquiet.opened]; exact hclosed.opened, hclosed.there⟩
    · rw [shown, hempty]
      rfl
  · rw [if_neg hempty]
    obtain ⟨answer, s₁, rest', hrun, hleaves, hsuffix, hadvances⟩ :=
      @nextEntry_eq s₂ share.root req o level (listed s.disk folder (maskOf pattern))
        (by rw [hdisk]; exact hthere)
    rw [hdisk] at hadvances
    exact ⟨answer, s₁, some rest', hrun, Left.of_quiet hdisk hquiet.shares
      (fun n hn => hthere n (hsuffix.subset hn)) hleaves, .inl hadvances⟩

/-! ## A whole listing -/

/-- The state before the `k`-th of the queries that list a folder. -/
def afterQueries (s : FsBackend) (req : IoRequest) (ask : ℕ → DirectoryLevel × Text) : ℕ → FsBackend
  | 0 => s
  | k + 1 => (queryDirectory req (ask k).1 (k == 0) (ask k).2 (afterQueries s req ask k)).2

/-- What the `k`-th query is answered; the first one starts the listing. -/
def answerTo (s : FsBackend) (req : IoRequest) (ask : ℕ → DirectoryLevel × Text) (k : ℕ) :
    Except NtStatus DirectoryEntry :=
  (queryDirectory req (ask k).1 (k == 0) (ask k).2 (afterQueries s req ask k)).1

variable {ask : ℕ → DirectoryLevel × Text}

/-- The answer to the `k`-th query, where these are the names to answer. -/
def AnswersAt (names : List Text) (level : DirectoryLevel) (k : ℕ) (answer : Except NtStatus DirectoryEntry) :
    Prop :=
  match names[k]? with
  | some n => Answers level n answer
  | none => answer = .error .noMoreFiles ∨ k = 0 ∧ answer = .error .noSuchFile

omit [Platform] in
theorem Advances.at {names left : List Text} {k : ℕ} {answer : Except NtStatus DirectoryEntry}
    (h : Advances level (names.drop k) answer left) : AnswersAt names level k answer ∧ left = names.drop (k + 1) := by
  unfold AnswersAt
  rcases hd : names.drop k with _ | ⟨n, more⟩
  · rw [hd] at h
    obtain ⟨hanswer, rfl⟩ := h
    have hlen := List.drop_eq_nil_iff.mp hd
    rw [List.getElem?_eq_none hlen, List.drop_eq_nil_of_le (Nat.le_succ_of_le hlen)]
    exact ⟨.inl hanswer, rfl⟩
  · rw [hd] at h
    obtain ⟨hanswer, rfl⟩ := h
    have hget : names[k]? = some n := by
      rw [← List.head?_drop, hd]
      rfl
    have hrest : names.drop (k + 1) = left := by
      rw [← List.tail_drop, hd]
      rfl
    rw [hget, hrest]
    exact ⟨hanswer, rfl⟩

/-- **The answers of a whole listing**, one query after another: the names that lead inside, in order, and
then that there are no more. -/
theorem answers_listing (hshare : s.shares.get? req.deviceId = some share)
    (hopened : s.opened.get? req.fileId = some o) (hdev : o.deviceId = req.deviceId)
    (hfolder : s.disk.metadata o.path = .ok (folder, .dir id))
    (hmask : plainMask (maskOf (ask 0).2) = false) (k : ℕ) :
    AnswersAt (shown s.disk share.root o.path folder (maskOf (ask 0).2)) (ask k).1 k (answerTo s req ask k) ∧
      ∃ rest, Left s req o rest (afterQueries s req ask (k + 1)) ∧ remaining s share.root o rest =
        (shown s.disk share.root o.path folder (maskOf (ask 0).2)).drop (k + 1) := by
  induction k with
  | zero =>
    obtain ⟨answer, s₁, rest, hrun, hleft, hadvances⟩ :=
      @firstQuery _ _ _ (ask 0).1 _ _ _ _ _ hshare hopened hdev hfolder hmask
    have hanswer : answerTo s req ask 0 = answer := congrArg Prod.fst hrun
    have hafter : afterQueries s req ask 1 = s₁ := congrArg Prod.snd hrun
    rw [hanswer, hafter]
    rcases hadvances with hadvances | ⟨hnone, rfl, hrest⟩
    · obtain ⟨hat, hdrop⟩ := hadvances.at (k := 0)
      exact ⟨hat, rest, hleft, hdrop⟩
    · rw [hnone]
      exact ⟨.inr ⟨rfl, rfl⟩, rest, hleft, hrest⟩
  | succ k ih =>
    obtain ⟨-, rest, hleft, hremaining⟩ := ih
    obtain ⟨answer, s₁, rest', hrun, hleft', hadvances⟩ :=
      @furtherQuery _ _ _ _ (ask (k + 1)).1 _ _ (ask (k + 1)).2 _ hshare hdev hleft
    have hanswer : answerTo s req ask (k + 1) = answer := congrArg Prod.fst hrun
    have hafter : afterQueries s req ask (k + 2) = s₁ := congrArg Prod.snd hrun
    rw [hremaining] at hadvances
    obtain ⟨hat, hdrop⟩ := hadvances.at
    rw [hanswer, hafter]
    exact ⟨hat, rest', hleft', hdrop⟩

/-- A listing is faithful: these names are answered, each once and in order, and then no more; they are
the names in the folder that match the mask and lead inside the share, all of them if the folder is not too
large; and each of them, behind the server path of the folder, is resolved to the entry it is the name of. -/
structure Faithful (s : FsBackend) (req : IoRequest) (ask : ℕ → DirectoryLevel × Text) (root : PathBuf)
    (o : Open) (folder : PathBuf) (serverPath : Text) (names : List Text) : Prop where
  once : names.Nodup
  sound : ∀ n ∈ names, (∃ e, s.disk.entry (folder ++ [n]) = some e) ∧
    matchesMask (maskOf (ask 0).2) n = true ∧ LiesInside s.disk root (o.path ++ [n])
  complete : (s.disk.children folder).length ≤ maxListing → ∀ n e, s.disk.entry (folder ++ [n]) = some e →
    matchesMask (maskOf (ask 0).2) n = true → LiesInside s.disk root (o.path ++ [n]) → n ∈ names
  ordered : names.Pairwise fun a b => Text.le (Platform.toLowercase a) (Platform.toLowercase b) = true
  answered : ∀ k n, names[k]? = some n → ∃ e, answerTo s req ask k = .ok e ∧ e.fileName = n
  ended : ∀ k, names[k]? = none →
    answerTo s req ask k = .error .noMoreFiles ∨ k = 0 ∧ answerTo s req ask k = .error .noSuchFile
  reopens : ∀ n ∈ names, resolve s.disk root (serverPath ++ '\\' :: n) = .ok (o.path ++ [n]) ∧
    ∃ e, s.disk.symlinkMetadata (o.path ++ [n]) = .ok (folder ++ [n], e)

/-- What is listed can be asked for: the queries are for kinds of answers there are, and the names that are
answered can be named behind the server path of the folder. -/
def Askable (t : Disk) (root path folder : PathBuf) (serverPath : Text) (ask : ℕ → DirectoryLevel × Text) :
    Prop :=
  (∀ k < ((offered t folder (maskOf (ask 0).2)).filter fun n => LiesInside t root (path ++ [n])).length,
    (ask k).1 ≠ .other) ∧
  ∀ n ∈ offered t folder (maskOf (ask 0).2), LiesInside t root (path ++ [n]) →
    plainComponent n ∧ serverPath.utf8Len + 1 + n.utf8Len ≤ 32 * 1024

theorem Faithful.eq_shown {names : List Text} (h : Faithful s req ask root o folder serverPath names)
    (hanswers : ∀ k, AnswersAt (shown s.disk root o.path folder (maskOf (ask 0).2)) (ask k).1 k
      (answerTo s req ask k)) :
    names = shown s.disk root o.path folder (maskOf (ask 0).2) ∧ ∀ k < names.length, (ask k).1 ≠ .other := by
  have hknown : ∀ k n, names[k]? = some n → (ask k).1 ≠ .other ∧
      (shown s.disk root o.path folder (maskOf (ask 0).2))[k]? = some n := by
    intro k n hn
    obtain ⟨e, he, hname⟩ := h.answered k n hn
    have hat := hanswers k
    unfold AnswersAt at hat
    rcases hget : (shown s.disk root o.path folder (maskOf (ask 0).2))[k]? with _ | n'
    · rw [hget, he] at hat
      rcases hat with hat | ⟨-, hat⟩ <;> cases hat
    · rw [hget, he] at hat
      obtain ⟨hlevel, hname'⟩ := Answers.of_ok hat
      exact ⟨hlevel, by rw [← hname', hname]⟩
  refine ⟨List.ext_getElem? fun k => ?_, fun k hk => ?_⟩
  · rcases hn : names[k]? with _ | n
    · have hat := hanswers k
      unfold AnswersAt at hat
      rcases hget : (shown s.disk root o.path folder (maskOf (ask 0).2))[k]? with _ | n'
      · rfl
      · rw [hget] at hat
        rcases h.ended k hn with hend | ⟨-, hend⟩
        · rw [hend] at hat
          cases Answers.of_error hat
        · rw [hend] at hat
          cases Answers.of_error hat
    · exact (hknown k n hn).2.symm
  · exact (hknown k names[k] (List.getElem?_eq_getElem hk)).1

/-- **Exactly when a listing is faithful**: when what it answers can be asked for. -/
theorem listing_faithful_iff (hshare : s.shares.get? req.deviceId = some share)
    (hopened : s.opened.get? req.fileId = some o) (hdev : o.deviceId = req.deviceId)
    (hfolder : s.disk.metadata o.path = .ok (folder, .dir id))
    (hpath : resolve s.disk share.root serverPath = .ok o.path) (hmask : plainMask (maskOf (ask 0).2) = false) :
    (∃ names, Faithful s req ask share.root o folder serverPath names) ↔ Askable s.disk share.root o.path folder
    serverPath ask := by
  have hanswers := fun k => (@answers_listing _ _ _ _ _ _ _ ask hshare hopened hdev hfolder hmask k).1
  have hbelow : ∀ n ∈ offered s.disk folder (maskOf (ask 0).2), LiesInside s.disk share.root (o.path ++ [n]) →
        (∃ e, s.disk.symlinkMetadata (o.path ++ [n]) = .ok (folder ++ [n], e)) ∧
          (resolve s.disk share.root (serverPath ++ '\\' :: n) = .ok (o.path ++ [n]) ↔
            plainComponent n ∧ serverPath.utf8Len + 1 + n.utf8Len ≤ 32 * 1024) := by
    intro n hn hin
    obtain ⟨⟨e, he⟩, -⟩ := offered_there hn
    have hthere := symlinkMetadata_below hfolder he
    exact ⟨⟨e, hthere⟩, resolve_below hpath ((inside_entry hthere).mpr hin)⟩
  constructor
  · rintro ⟨names, h⟩
    obtain ⟨rfl, hlevels⟩ := h.eq_shown hanswers
    rw [length_shown] at hlevels
    refine ⟨hlevels, fun n hn hin => ?_⟩
    exact (hbelow n hn hin).2.mp (h.reopens n (mem_shown.mpr ⟨hn, hin⟩)).1
  · rintro ⟨hlevels, hplain⟩
    rw [← length_shown] at hlevels
    refine ⟨shown s.disk share.root o.path folder (maskOf (ask 0).2), ?_⟩
    refine ⟨shown_nodup _ _ _ _ _, fun n hn => ?_, fun hsmall n e he hmatch hin => ?_, ?_, fun k n hn => ?_,
      fun k hk => ?_, fun n hn => ?_⟩
    · obtain ⟨hoffered, hin⟩ := mem_shown.mp hn
      obtain ⟨hthere, hmatch⟩ := offered_there hoffered
      exact ⟨hthere, hmatch, hin⟩
    · exact mem_shown.mpr ⟨mem_offered hsmall he hmatch, hin⟩
    · exact (listed_sorted _ _ _).filter _
    · have hat := hanswers k
      obtain ⟨hk, -⟩ := List.getElem?_eq_some_iff.mp hn
      unfold AnswersAt at hat
      rw [hn] at hat
      dsimp only at hat
      unfold Answers at hat
      rw [if_neg (hlevels k hk)] at hat
      exact hat
    · have hat := hanswers k
      unfold AnswersAt at hat
      rw [hk] at hat
      exact hat
    · obtain ⟨hoffered, hin⟩ := mem_shown.mp hn
      obtain ⟨hthere, hiff⟩ := hbelow n hoffered hin
      exact ⟨hiff.mpr (hplain n hoffered hin), hthere⟩

end Queries

/-- A shared folder `/s` with one file. -/
def oneFileDisk (name : Text) : Disk :=
  ((FileTree.empty freshData).add [['s']] .dir freshData).add [['s'], name] .file freshData

def openedFolder [Platform] (name : Text) : FsBackend :=
  step (FsBackend.new (oneFileDisk name) (Table.empty.set 1 ⟨['s'], [['s']]⟩)) (.create ⟨1, [], 0, 1, 1⟩)

def folderHandle : Open := ⟨1, [['s']], none, false, false, none⟩

def askNames (_ : ℕ) : DirectoryLevel × Text := (.names, ['\\', '*'])

/-- A folder with a file of a plain name is listed as it is. -/
theorem plain_listing_faithful :
    letI := asciiPlatform
    ∃ names, Faithful (openedFolder ['a']) ⟨1, 1⟩ askNames [['s']] folderHandle [['s']] [] names := by
  let _ := asciiPlatform
  have hshare : (openedFolder ['a']).shares.get? 1 = some ⟨['s'], [['s']]⟩ := by decide +kernel
  have hopened : (openedFolder ['a']).opened.get? 1 = some folderHandle := by decide +kernel
  have hfolder : (openedFolder ['a']).disk.metadata [['s']] = .ok ([['s']], .dir 1) := by decide +kernel
  have hpath : resolve (openedFolder ['a']).disk [['s']] [] = .ok [['s']] := by decide +kernel
  refine (@listing_faithful_iff _ _ ⟨1, 1⟩ _ _ _ _ _ _ hshare hopened rfl hfolder hpath rfl).mpr ⟨?_, ?_⟩
  · decide +kernel
  · decide +kernel

/-- A file of the name `a:b` is listed and cannot be named. -/
theorem colon_listed :
    letI := asciiPlatform
    answerTo (openedFolder ['a', ':', 'b']) ⟨1, 1⟩ askNames 0 = .ok (.name ['a', ':', 'b']) ∧
      resolve (openedFolder ['a', ':', 'b']).disk [['s']] ['\\', 'a', ':', 'b'] = .error .objectNameInvalid ∧
      ¬∃ names, Faithful (openedFolder ['a', ':', 'b']) ⟨1, 1⟩ askNames [['s']] folderHandle [['s']] []
        names := by
  let _ := asciiPlatform
  have hrefused : resolve (openedFolder ['a', ':', 'b']).disk [['s']] ['\\', 'a', ':', 'b'] =
    .error .objectNameInvalid := by decide +kernel
  refine ⟨by decide +kernel, hrefused, ?_⟩
  rintro ⟨names, h⟩
  have hthere : (openedFolder ['a', ':', 'b']).disk.entry [['s'], ['a', ':', 'b']] = some (.file 2) := by
    decide +kernel
  have hlisted : ['a', ':', 'b'] ∈ names :=
    h.complete (by decide +kernel) _ _ hthere (by decide +kernel) (by decide +kernel)
  have hresolved := (h.reopens _ hlisted).1
  rw [List.nil_append, hrefused] at hresolved
  cases hresolved

end Drive

end UwuRdp
