import UwuRdp.Core.Worker
import UwuRdp.Lib.Steps

/-!
# Files on offer

The files and folders of the local clipboard become one list, folders walked to their ends, and the server asks for
them by their places in it. What it asks may be about a list that is not on offer any more: those it locked are kept.
The file that was read last stays open until something else is offered.
-/

namespace UwuRdp

open Lib

namespace Clipboard

/-! ## Collecting -/

/-- The longest name a descriptor holds, in UTF-16 units. -/
def maxWireName : ℕ := 259

def maxRange : ℕ := 8 * 1024 * 1024

def toFiletime (time : Moment) : Option UInt64 :=
  let ticks := (time.1 + filetimeUnixOffset) * 10000000
  if ticks < 2 ^ 64 ∧ ticks + time.2 / 100 < 2 ^ 64 then some (UInt64.ofNat (ticks + time.2 / 100)) else none

/-- What `metadata` says of a path, links followed. -/
structure Meta where
  dir : Bool
  readonly : Bool
  len : UInt64
  /-- None before 1970. -/
  modified : Option Moment
deriving DecidableEq

/-- The local files, any of which may not be there. -/
structure LocalFs where
  metadata : Path → Option Meta
  isLink : Path → Bool
  /-- The names in a folder, `none` for one that is no text. -/
  readDir : Path → Option (List (Option Text))

/-- A descriptor with the attribute of a file that is only read. -/
structure OfferedFile extends FileDescriptor where
  readonly : Bool
deriving DecidableEq

/-- What is offered: the descriptors, and at the same index where each entry lives here. -/
structure Collected where
  descriptors : List OfferedFile
  entries : List LocalEntry
deriving DecidableEq

/-- `Path::file_name` -/
def fileName (path : Path) : Option Text := path.getLast?.filter fun name => name ≠ ['.', '.']

def utf16Len (t : Text) : ℕ := (t.flatMap Formats.encodeUtf16).length

def wireName (parent : Option Text) (name : Text) : Text :=
  match parent with
  | some parent => parent ++ '\\' :: name
  | none => name

def describe (found : Meta) (name : Text) (parent : Option Text) : OfferedFile where
  name := name
  relativePath := parent
  directory := some found.dir
  fileSize := some (if found.dir then 0 else found.len)
  lastWriteTime := found.modified.bind toFiletime
  readonly := found.readonly

/-- The names in a folder that are text, in their order. -/
def sortedNames (children : List (Option Text)) : List Text := (children.filterMap id).mergeSort Text.le

/-- `LocalList::add`; `fuel` counts the folders it goes into. -/
def add (fs : LocalFs) : ℕ → Path → Text → Option Text → Collected → Collected
  | 0, _, _, _, list => list
  | fuel + 1, path, name, parent, list =>
    if maxEntries ≤ list.entries.length then list
    else
      match fs.metadata path with
      | none => list
      | some found =>
        let wire := wireName parent name
        if name = [] ∨ maxWireName < utf16Len wire then list
        else
          let list : Collected := ⟨list.descriptors ++ [describe found name parent], list.entries ++ [⟨path, found.dir⟩]⟩
          if found.dir = false ∨ fs.isLink path then list
          else
            match fs.readDir path with
            | none => list
            | some children => (sortedNames children).foldl
                (fun list child => add fs fuel (path ++ [child]) child (some wire) list) list

/-- `LocalList::collect` -/
def collect (fs : LocalFs) (paths : List Path) : Collected :=
  paths.foldl (fun list path =>
    match fileName path with
    | some name => add fs maxEntries path name none list
    | none => list) ⟨[], []⟩

/-! ## What is collected -/

/-- One list goes on as another. -/
structure Collected.Extends (c c' : Collected) : Prop where
  descriptors : c.descriptors <+: c'.descriptors
  entries : c.entries <+: c'.entries

theorem Collected.Extends.refl (c : Collected) : c.Extends c := ⟨List.prefix_rfl, List.prefix_rfl⟩

variable {c : Collected}

theorem Collected.Extends.trans {a b : Collected} (h : a.Extends b) (h' : b.Extends c) : a.Extends c :=
  ⟨h.descriptors.trans h'.descriptors, h.entries.trans h'.entries⟩

theorem foldl_extends {α : Type} {f : Collected → α → Collected} {P : Collected → Prop} (l : List α)
    (h : P c) (hstep : ∀ a ∈ l, ∀ c', c.Extends c' → P c' → c'.Extends (f c' a) ∧ P (f c' a)) :
    c.Extends (l.foldl f c) ∧ P (l.foldl f c) := by
  induction l generalizing c with
  | nil => exact ⟨.refl c, h⟩
  | cons a l ih =>
    obtain ⟨hext, hP⟩ := hstep a List.mem_cons_self c (.refl c) h
    obtain ⟨hrest, hlast⟩ := ih hP fun b hb c' hc' => hstep b (List.mem_cons_of_mem _ hb) c' (hext.trans hc')
    exact ⟨hext.trans hrest, hlast⟩

/-- The names on the way to an entry, as a descriptor has them. -/
def relative (front : List Text) : Option Text :=
  if front = [] then none else some (['\\'].intercalate front)

theorem intercalate_concat (front : List Text) (name : Text) :
    ['\\'].intercalate (front ++ [name]) = wireName (relative front) name := by
  induction front with
  | nil => simp [relative, wireName, List.intercalate]
  | cons first front ih =>
    rcases front with _ | ⟨second, front⟩
    · simp [relative, wireName, List.intercalate]
    · rw [List.cons_append, List.cons_append, List.intercalate_cons_cons, ← List.cons_append, ih]
      simp [relative, wireName, List.intercalate_cons_cons]

theorem relative_concat (front : List Text) (name : Text) :
    relative (front ++ [name]) = some (wireName (relative front) name) := by
  rw [relative, if_neg (by simp), intercalate_concat]

def OfferedFile.wire (d : OfferedFile) : Text := wireName d.relativePath d.name

/-- A path is a selected one, or below it: the names are the ones from the selected one's own on. -/
def Below (paths : List Path) (names : List Text) (path : Path) : Prop :=
  ∃ selected ∈ paths, fileName selected = names.head? ∧ path = selected.dropLast ++ names

/-- A folder is in the list under its name, and what comes after it there is in it. -/
def Collected.Inside (c : Collected) (front : List Text) (folder : Path) : Prop :=
  ∃ j d, c.descriptors[j]? = some d ∧ c.entries[j]? = some ⟨folder, true⟩ ∧ d.wire = ['\\'].intercalate front ∧
    ∀ (k : ℕ) (e : LocalEntry), j < k → c.entries[k]? = some e → folder <+: e.path

/-- A descriptor and an entry at one place are about one file: the descriptor says the way to it, its name is
no longer than the wire takes, and the folder it is in comes before it, with nothing but what is in the
folder between. -/
structure Placed (paths : List Path) (c : Collected) (i : ℕ) (d : OfferedFile) (e : LocalEntry)
    (front : List Text) : Prop where
  below : Below paths (front ++ [d.name]) e.path
  relativePath : d.relativePath = relative front
  directory : d.directory = some e.dir
  short : utf16Len d.wire ≤ maxWireName
  folder : front ≠ [] → ∃ j < i, ∃ d', c.descriptors[j]? = some d' ∧ c.entries[j]? = some ⟨e.path.dropLast, true⟩ ∧
    d'.wire = ['\\'].intercalate front ∧
    ∀ (k : ℕ) (e' : LocalEntry), j < k → k ≤ i → c.entries[k]? = some e' → e.path.dropLast <+: e'.path

/-- As many descriptors as entries, and at each index the two are about one file. -/
structure Collected.Faithful (paths : List Path) (c : Collected) : Prop where
  length : c.descriptors.length = c.entries.length
  atMost : c.entries.length ≤ maxEntries
  placed : ∀ (i : ℕ) (d : OfferedFile) (e : LocalEntry), c.descriptors[i]? = some d → c.entries[i]? = some e →
    ∃ front, Placed paths c i d e front

variable {paths : List Path}

variable {path : Path}

theorem Below.child {names : List Text} (h : Below paths names path) (child : Text)
    (hn : names ≠ []) : Below paths (names ++ [child]) (path ++ [child]) := by
  obtain ⟨selected, hmem, hname, rfl⟩ := h
  refine ⟨selected, hmem, ?_, List.append_assoc _ _ _⟩
  rw [hname, List.head?_append_of_ne_nil _ hn]

theorem getElem?_of_isPrefix {α : Type} {l l' : List α} (h : l <+: l') {i : ℕ} (hi : i < l.length) : l'[i]? = l[i]? := by
  obtain ⟨t, rfl⟩ := h
  exact List.getElem?_append_left hi

variable {front : List Text}

theorem Collected.Extends.placed {c' : Collected} (h : c.Extends c') {i : ℕ} {d : OfferedFile}
    {e : LocalEntry} (hi : i < c.entries.length) (hlength : c.descriptors.length = c.entries.length)
    (hp : Placed paths c i d e front) : Placed paths c' i d e front where
  below := hp.below
  relativePath := hp.relativePath
  directory := hp.directory
  short := hp.short
  folder hfront := by
    obtain ⟨j, hj, d', hd, he, hwire, hinside⟩ := hp.folder hfront
    refine ⟨j, hj, d', ?_, ?_, hwire, fun k e' hk hki hek => hinside k e' hk hki ?_⟩
    · rw [getElem?_of_isPrefix h.descriptors (by omega), hd]
    · rw [getElem?_of_isPrefix h.entries (by omega), he]
    · rw [← hek, getElem?_of_isPrefix h.entries (by omega)]

theorem Collected.Faithful.push {name : Text}
    (h : c.Faithful paths) (found : Meta) (hroom : c.entries.length < maxEntries)
    (hbelow : Below paths (front ++ [name]) path) (hshort : utf16Len (wireName (relative front) name) ≤ maxWireName)
    (hinside : front ≠ [] → c.Inside front path.dropLast) :
    Collected.Faithful paths
      ⟨c.descriptors ++ [describe found name (relative front)], c.entries ++ [⟨path, found.dir⟩]⟩ where
  length := by simp [h.length]
  atMost := by
    simp only [List.length_append, List.length_singleton]
    omega
  placed := by
    intro i d e hd he
    have hpush : c.Extends ⟨c.descriptors ++ [describe found name (relative front)], c.entries ++ [⟨path, found.dir⟩]⟩ :=
      ⟨List.prefix_append _ _, List.prefix_append _ _⟩
    rcases lt_or_ge i c.entries.length with hi | hi
    · rw [List.getElem?_append_left (by rw [h.length]; exact hi)] at hd
      rw [List.getElem?_append_left hi] at he
      obtain ⟨front, hp⟩ := h.placed i d e hd he
      exact ⟨front, hpush.placed hi h.length hp⟩
    · rw [List.getElem?_append_right (by rw [h.length]; exact hi), List.getElem?_singleton] at hd
      rw [List.getElem?_append_right hi, List.getElem?_singleton] at he
      have hlast : i = c.entries.length := by
        have := h.length
        split at he
        · omega
        · cases he
      subst hlast
      rw [h.length, Nat.sub_self, if_pos rfl, Option.some.injEq] at hd
      rw [Nat.sub_self, if_pos rfl, Option.some.injEq] at he
      subst hd he
      refine ⟨front, hbelow, rfl, rfl, hshort, fun hfront => ?_⟩
      obtain ⟨j, d', hd', he', hwire, hrest⟩ := hinside hfront
      have hj : j < c.entries.length := (List.getElem?_eq_some_iff.mp he').1
      refine ⟨j, hj, d', ?_, ?_, hwire, fun k e' hjk hki hk => ?_⟩
      · rw [← hd']
        exact List.getElem?_append_left (by rw [h.length]; exact hj)
      · rw [← he']
        exact List.getElem?_append_left hj
      · rcases hki.lt_or_eq with hlt | rfl
        · exact hrest k e' hjk (by rw [← hk]; exact (List.getElem?_append_left hlt).symm)
        · rw [List.getElem?_append_right le_rfl, Nat.sub_self, List.getElem?_singleton, if_pos rfl,
            Option.some.injEq] at hk
          rw [← hk]
          exact List.dropLast_prefix path

/-- What a walk from a path adds: it goes on as before, and all of it is at the path or below. -/
structure Walked (paths : List Path) (path : Path) (c c' : Collected) : Prop where
  further : c.Extends c'
  faithful : c'.Faithful paths
  under : ∀ (k : ℕ) (e : LocalEntry), c.entries.length ≤ k → c'.entries[k]? = some e → path <+: e.path

theorem Walked.nothing (path : Path) (h : c.Faithful paths) : Walked paths path c c := by
  refine ⟨.refl c, h, fun k e hk he => ?_⟩
  rw [List.getElem?_eq_none hk] at he
  cases he

theorem Walked.trans {below : Path} {a b : Collected} (h : Walked paths path a b)
    (hbelow : path <+: below) (h' : Walked paths below b c) : Walked paths path a c := by
  refine ⟨h.further.trans h'.further, h'.faithful, fun k e hk he => ?_⟩
  rcases lt_or_ge k b.entries.length with hlt | hge
  · rw [getElem?_of_isPrefix h'.further.entries hlt] at he
    exact h.under k e hk he
  · exact hbelow.trans (h'.under k e hge he)

theorem add_walked (fs : LocalFs) (fuel : ℕ) {name : Text} {list : Collected} (h : list.Faithful paths)
    (hbelow : Below paths (front ++ [name]) path) (hinside : front ≠ [] → list.Inside front path.dropLast) : Walked
    paths path list (add fs fuel path name (relative front) list) := by
  induction fuel generalizing path name front list with
  | zero => exact .nothing path h
  | succ fuel ih =>
    have hnothing := Walked.nothing path h
    unfold add
    split
    · exact hnothing
    next hroom =>
    split
    · exact hnothing
    next found hfound =>
    dsimp only
    split
    · exact hnothing
    next hname =>
    obtain ⟨hname, hshort⟩ := not_or.mp hname
    have hpushed := h.push found (by omega) hbelow (by omega) hinside
    set pushed : Collected :=
      ⟨list.descriptors ++ [describe found name (relative front)], list.entries ++ [⟨path, found.dir⟩]⟩ with hp
    have hself : Walked paths path list pushed := by
      refine ⟨⟨List.prefix_append _ _, List.prefix_append _ _⟩, hpushed, fun k e hk he => ?_⟩
      rw [hp, List.getElem?_append_right hk, List.getElem?_singleton] at he
      split at he
      · rw [Option.some.injEq] at he
        rw [← he]
      · cases he
    split
    · exact hself
    next hdir =>
    split
    · exact hself
    next children hchildren =>
    have hin : found.dir = true := by
      rcases hd : found.dir with _ | _
      · exact absurd (.inl hd) hdir
      · rfl
    -- Every name adds what is in the folder, so the folder stays the one the next name is in.
    refine (foldl_extends (P := Walked paths path list) (sortedNames children) hself fun child _ c hext hc => ?_).2
    have hchild : Walked paths (path ++ [child]) c
        (add fs fuel (path ++ [child]) child (relative (front ++ [name])) c) := by
      refine ih hc.faithful (hbelow.child child (by simp)) fun _ => ?_
      rw [List.dropLast_concat]
      refine ⟨list.entries.length, describe found name (relative front), ?_, ?_, (intercalate_concat front name).symm,
        fun k e hk he => hc.under k e (by omega) he⟩
      · rw [getElem?_of_isPrefix hext.descriptors (by simp [hp, h.length]), hp, ← h.length]
        exact List.getElem?_concat_length
      · rw [getElem?_of_isPrefix hext.entries (by simp [hp]), hp, ← hin]
        exact List.getElem?_concat_length
    rw [relative_concat] at hchild
    exact ⟨hchild.further, hc.trans (List.prefix_append path [child]) hchild⟩

theorem Below.selected {name : Text} (hmem : path ∈ paths)
    (hname : fileName path = some name) : Below paths ([] ++ [name]) path := by
  refine ⟨path, hmem, hname, ?_⟩
  have hlast : path.getLast? = some name := (Option.filter_eq_some_iff.mp hname).1
  exact (List.dropLast_append_getLast? name hlast).symm

theorem collect_faithful (fs : LocalFs) (paths : List Path) : (collect fs paths).Faithful paths := by
  have hempty : Collected.Faithful paths ⟨[], []⟩ := ⟨rfl, Nat.zero_le _, fun i d e hd => by simp at hd⟩
  refine (foldl_extends paths hempty fun path hmem c _ hc => ?_).2
  split
  · next name hname =>
    have hwalk := add_walked fs maxEntries hc (Below.selected hmem hname) fun h => absurd rfl h
    exact ⟨hwalk.further, hwalk.faithful⟩
  · exact ⟨.refl c, hc⟩

/-! ## Serving -/

/-- A request as the server sends it. -/
structure ServerRequest where
  streamId : UInt32
  index : ℤ
  /-- Whether it asks for the size. -/
  size : Bool
  position : UInt64
  requestedSize : UInt32
  dataId : Option UInt32
deriving DecidableEq

/-- The computer at one moment: the files at its paths, and those that are open. -/
structure Os (F : Type) where
  len : Path → Except Text UInt64
  openFile : Path → Except Text F
  seek : F → UInt64 → Except Text Unit
  content : F → Except Text (List UInt8)

/-- What may be asked for, and the file the last range came from, kept open for the next one. -/
structure Serving (F : Type) where
  served : Served
  opened : Option (Path × F)

variable {F : Type}

/-- `read_range` -/
def readRange (os : Os F) (file : F) (position : UInt64) (len : ℕ) : Except Text (List UInt8) := do
  os.seek file position
  let bytes ← os.content file
  return (bytes.drop position.toNat).take len

namespace Serving

def new : Serving F := ⟨.new, none⟩

def offer (s : Serving F) (entries : List LocalEntry) : Serving F := ⟨s.served.offer entries, none⟩

def withdraw (s : Serving F) : Serving F := ⟨s.served.withdraw, none⟩

def lock (s : Serving F) (id : UInt32) : Serving F := { s with served := s.served.lock id }

def unlock (s : Serving F) (id : UInt32) : Serving F := { s with served := s.served.unlock id }

/-- The file at a path: the one that is open, or it is opened. -/
def file (os : Os F) (s : Serving F) (path : Path) : Except Text F :=
  match s.opened with
  | some (p, f) => if p = path then .ok f else os.openFile path
  | none => os.openFile path

/-- `Served::try_serve` -/
def tryServe (os : Os F) (s : Serving F) (request : ServerRequest) : Serving F × Except Text (List UInt8) :=
  match (request.dataId.bind s.served.locked.get?).or s.served.current with
  | none => (s, .error "no files on offer".toList)
  | some list =>
    match (if 0 ≤ request.index then list[request.index.toNat]? else none) with
    | none => (s, .error "no such file".toList)
    | some entry =>
      if request.size then
        (s, if entry.dir then .ok (leBytes 8 0) else (os.len entry.path).map fun n => leBytes 8 n.toNat)
      else if entry.dir then (s, .error "a folder has no contents".toList)
      else
        match s.file os entry.path with
        | .error e => (s, .error e)
        | .ok file =>
          ({ s with opened := some (entry.path, file) },
            readRange os file request.position (min request.requestedSize.toNat maxRange))

/-- `Served::serve` -/
def serve (os : Os F) (s : Serving F) (request : ServerRequest) : Serving F × FileContentsResponse :=
  let (s, data) := s.tryServe os request
  (s, ⟨request.streamId, data.toOption⟩)

end Serving

/-! ## Runs -/

/-- What happens to the files on offer. -/
inductive ServedStep where
  | offer (entries : List LocalEntry)
  | withdraw
  | lock (id : UInt32)
  | unlock (id : UInt32)
  | serve (request : ServerRequest)
deriving DecidableEq

def Serving.step (s : Serving F) : Os F × ServedStep → Serving F
  | (_, .offer entries) => s.offer entries
  | (_, .withdraw) => s.withdraw
  | (_, .lock id) => s.lock id
  | (_, .unlock id) => s.unlock id
  | (os, .serve request) => (s.serve os request).1

def ServedStep.keeps : ServedStep → Bool
  | .offer _ => false
  | .withdraw => false
  | _ => true

/-- A list is on offer: nothing else was since, and it was not withdrawn. -/
def OnOffer (list : List LocalEntry) : List (Os F × ServedStep) → Prop :=
  Steps.Since (fun _ m => m.2 = .offer list) fun _ m => m.2.keeps

/-- A list is locked under an id: it was on offer when the id was locked, it was not unlocked since, and
no other list was locked under it. -/
def Locked (id : UInt32) (list : List LocalEntry) : List (Os F × ServedStep) → Prop :=
  Steps.Since (fun before m => m.2 = .lock id ∧ OnOffer list before)
    fun before m => m.2 ≠ .unlock id ∧ ¬(m.2 = .lock id ∧ ∃ other, OnOffer other before)

/-- The list a request is about: the one locked under the id it names, else what is on offer. -/
def Named (dataId : Option UInt32) (list : List LocalEntry) (history : List (Os F × ServedStep)) : Prop :=
  (∃ id, dataId = some id ∧ Locked id list history) ∨
    (∀ id other, dataId = some id → ¬Locked id other history) ∧ OnOffer list history

/-- A file is kept open: it was opened at its path for a request, and what is on offer stayed since. -/
def KeptOpen (path : Path) (file : F) : List (Os F × ServedStep) → Prop :=
  Steps.Since (fun _ m => m.1.openFile path = .ok file ∧ ∃ request, m.2 = .serve request) fun _ m => m.2.keeps

/-- The state says just what the history does. -/
structure Serving.Sound (s : Serving F) (history : List (Os F × ServedStep)) : Prop where
  current : ∀ list, s.served.current = some list ↔ OnOffer list history
  locked : ∀ id list, s.served.locked.get? id = some list ↔ Locked id list history
  opened : ∀ path file, s.opened = some (path, file) → KeptOpen path file history

theorem Serving.sound_new : (new : Serving F).Sound [] where
  current list := by simp [new, Served.new, OnOffer, Steps.not_since_nil]
  locked id list := by simp [new, Served.new, Locked, Steps.not_since_nil]
  opened path file h := by simp [new] at h

@[simp] theorem Served.current_lock (served : Served) (id : UInt32) : (served.lock id).current = served.current := by
  unfold lock
  split <;> rfl

theorem Served.get?_lock (served : Served) (locked id : UInt32) :
    (served.lock locked).locked.get? id =
      if id = locked then served.current.or (served.locked.get? id) else served.locked.get? id := by
  unfold lock
  split
  · next current hcurrent => simp [Table.get?_set, hcurrent]
  · next hcurrent => simp [hcurrent]

theorem Serving.served_serve (os : Os F) (s : Serving F) (request : ServerRequest) :
    (s.serve os request).1.served = s.served := by
  simp only [serve, tryServe]
  split
  · rfl
  split
  · rfl
  split
  · rfl
  split
  · rfl
  split <;> rfl

variable {s : Serving F}

theorem Serving.opened_serve {os : Os F} {request : ServerRequest} {file : F}
    (h : (s.serve os request).1.opened = some (path, file)) :
    s.opened = some (path, file) ∨ os.openFile path = .ok file := by
  simp only [serve, tryServe] at h
  split at h
  · exact .inl h
  split at h
  · exact .inl h
  next entry _ =>
  split at h
  · exact .inl h
  split at h
  · exact .inl h
  split at h
  · exact .inl h
  · next f hf =>
    obtain ⟨rfl, rfl⟩ : entry.path = path ∧ f = file := by simpa using h
    unfold Serving.file at hf
    split at hf
    · next p f' hp =>
      split at hf
      · next heq =>
        rw [Except.ok.injEq] at hf
        rw [heq, hf] at hp
        exact .inl hp
      · exact .inr hf
    · exact .inr hf

variable {history : List (Os F × ServedStep)}

theorem Serving.Sound.step (h : s.Sound history) (m : Os F × ServedStep) : (s.step m).Sound (history ++ [m]) := by
  obtain ⟨os, op⟩ := m
  refine ⟨fun list => ?_, fun id list => ?_, fun path file hopen => ?_⟩
  · rw [OnOffer, Steps.since_concat, ← OnOffer, ← h.current]
    cases op with
    | offer entries => simp [Serving.step, offer, Served.offer, ServedStep.keeps]
    | withdraw => simp [Serving.step, withdraw, Served.withdraw, ServedStep.keeps]
    | lock id =>
      simp only [Serving.step, lock, ServedStep.keeps, Served.current_lock]
      simp
    | unlock id => simp [Serving.step, unlock, Served.unlock, ServedStep.keeps]
    | serve request => simp [Serving.step, served_serve, ServedStep.keeps]
  · rw [Locked, Steps.since_concat, ← Locked, ← h.locked]
    simp only [← h.current]
    cases op with
    | offer entries => simp [Serving.step, offer, Served.offer]
    | withdraw => simp [Serving.step, withdraw, Served.withdraw]
    | lock locked =>
      simp only [Serving.step, lock, Served.get?_lock]
      by_cases hid : id = locked
      · subst hid
        rcases s.served.current with _ | current <;> simp
      · have hother : locked ≠ id := Ne.symm hid
        simp [hid, hother]
    | unlock unlocked =>
      simp only [Serving.step, unlock, Served.unlock, Table.get?_erase]
      by_cases hid : id = unlocked
      · simp [hid]
      · have hother : unlocked ≠ id := Ne.symm hid
        simp [hid, hother]
    | serve request => simp [Serving.step, served_serve]
  · rw [KeptOpen, Steps.since_concat, ← KeptOpen]
    cases op with
    | offer entries | withdraw => cases hopen
    | lock id | unlock id => exact .inr ⟨rfl, h.opened _ _ hopen⟩
    | serve request =>
      rcases opened_serve hopen with hopen | hopen
      · exact .inr ⟨rfl, h.opened _ _ hopen⟩
      · exact .inl ⟨hopen, request, rfl⟩

theorem Serving.sound_run (history : List (Os F × ServedStep)) :
    (Steps.run Serving.step (new : Serving F) history).Sound history := by
  induction history using List.reverseRecOn with
  | nil => exact sound_new
  | append_singleton history m ih =>
    rw [Steps.run_append]
    exact ih.step m

theorem Serving.Sound.named (h : s.Sound history) (dataId : Option UInt32) (list : List LocalEntry) :
    (dataId.bind s.served.locked.get?).or s.served.current = some list ↔ Named dataId list history := by
  simp only [Named, ← h.current, ← h.locked]
  rcases dataId with _ | id
  · simp
  · rcases hid : s.served.locked.get? id with _ | locked
    · have hnone : ∀ (id' : UInt32) (other : List LocalEntry), id = id' → ¬s.served.locked.get? id' = some other := by
        rintro _ other rfl
        simp [hid]
      simpa [hid] using fun _ => hnone
    · simp [hid]

/-- Where an entry is read from: it is opened now, or it was for an earlier request and is kept open. -/
def ReadFrom (os : Os F) (history : List (Os F × ServedStep)) (path : Path) (file : Except Text F) : Prop :=
  file = os.openFile path ∨ ∃ f, file = .ok f ∧ KeptOpen path f history

/-- What a request gets of an entry that is read from `file`: its size, or a range of its bytes. -/
def answer (os : Os F) (entry : LocalEntry) (file : Except Text F) (request : ServerRequest) :
    Except Text (List UInt8) :=
  if request.size then
    if entry.dir then .ok (leBytes 8 0) else (os.len entry.path).map fun n => leBytes 8 n.toNat
  else if entry.dir then .error "a folder has no contents".toList
  else file >>= fun f => readRange os f request.position (min request.requestedSize.toNat maxRange)

theorem Serving.Sound.file (h : s.Sound history) (os : Os F)
    (path : Path) : ReadFrom os history path (s.file os path) := by
  unfold Serving.file
  split
  · next p f hopen =>
    split
    · next hp =>
      subst hp
      exact .inr ⟨f, rfl, h.opened p f hopen⟩
    · exact .inl rfl
  · exact .inl rfl

theorem Serving.Sound.serve (h : s.Sound history) (os : Os F)
    (request : ServerRequest) :
    (∃ list entry file, Named request.dataId list history ∧ 0 ≤ request.index ∧
      list[request.index.toNat]? = some entry ∧ ReadFrom os history entry.path file ∧
      (s.serve os request).2 = ⟨request.streamId, (answer os entry file request).toOption⟩) ∨
    (∀ list entry, Named request.dataId list history → 0 ≤ request.index →
      list[request.index.toNat]? ≠ some entry) ∧ (s.serve os request).2 = ⟨request.streamId, none⟩ := by
  simp only [← h.named, Serving.serve, tryServe]
  rcases hlist : (request.dataId.bind s.served.locked.get?).or s.served.current with _ | list
  · exact .inr ⟨by simp, rfl⟩
  by_cases hindex : 0 ≤ request.index
  swap
  · exact .inr ⟨fun _ _ _ h => absurd h hindex, by simp [hindex, Except.toOption]⟩
  rcases hentry : list[request.index.toNat]? with _ | entry
  · refine .inr ⟨?_, by simp [hindex, hentry, Except.toOption]⟩
    rintro _ entry ⟨⟩ -
    simp [hentry]
  refine .inl ⟨list, entry, s.file os entry.path, rfl, hindex, hentry, h.file os entry.path, ?_⟩
  simp only [hindex, if_true, hentry, answer]
  split
  · rfl
  split
  · rfl
  rcases s.file os entry.path with e | file <;> rfl

/-- What is offered is at each index what its descriptor says, folders before what is in them; and whatever is
offered, withdrawn, locked and unlocked, a request is answered from the entry at its index in the list it names, from
the file that is or was at that entry's path, and with nothing where there is no such entry. -/
theorem file_index :
    (∀ (fs : LocalFs) (paths : List Path), (collect fs paths).Faithful paths) ∧
    ∀ (F : Type) (history : List (Os F × ServedStep)) (os : Os F) (request : ServerRequest),
      (∃ list entry file, Named request.dataId list history ∧ 0 ≤ request.index ∧
        list[request.index.toNat]? = some entry ∧ ReadFrom os history entry.path file ∧
        ((Steps.run Serving.step .new history).serve os request).2 =
          ⟨request.streamId, (answer os entry file request).toOption⟩) ∨
      (∀ list entry, Named request.dataId list history → 0 ≤ request.index →
        list[request.index.toNat]? ≠ some entry) ∧
        ((Steps.run Serving.step .new history).serve os request).2 = ⟨request.streamId, none⟩ :=
  ⟨collect_faithful, fun _ history os request => (Serving.sound_run history).serve os request⟩

/-- A locked list outlives a new offer. -/
example :
    let os : Os (List UInt8) :=
      ⟨fun _ => .ok 1, fun path => .ok (if path = [['a']] then [1] else [2, 2]), fun _ _ => .ok (), .ok⟩
    let history := [.offer [⟨[['a']], false⟩], .lock 3, .offer [⟨[['b']], false⟩]].map (Prod.mk os)
    ((Steps.run Serving.step .new history).serve os ⟨0, 0, false, 0, 10, some 3⟩).2.data = some [1] ∧
      ((Steps.run Serving.step .new history).serve os ⟨0, 0, false, 0, 10, none⟩).2.data = some [2, 2] := by
  decide +kernel

end Clipboard

end UwuRdp
