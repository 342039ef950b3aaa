import UwuRdp.Lib.Steps
import UwuRdp.Proto.Text

/-!
# Updates

A setup or package is downloaded, checked and left in a folder with a note of it, and is run when the user restarts
or the next time UwURDP starts. Any program of the user can write to that folder. So the note and the file are
checked again before the file is run, and the file is held from the check until it runs.
-/

namespace UwuRdp

open Lib

namespace Updates

abbrev Path := List Text

abbrev Bytes := List UInt8

/-! ## Names -/

/-- How this copy of UwURDP was installed, as far as updating it goes. -/
inductive Install where
  | setup
  | deb
  | rpm
deriving DecidableEq

/-- `std::env::consts` -/
structure Build where
  os : Text
  arch : Text

def packageName (b : Build) (version ext : Text) : Text :=
  "UwURDP-".toList ++ version ++ "-linux-".toList ++ b.arch ++ '.' :: ext

/-- The name the signature of this platform's update has to carry. -/
def setupName (b : Build) (version : Text) : Install → Text
  | .deb => packageName b version "deb".toList
  | .rpm => packageName b version "rpm".toList
  | .setup =>
    "UwURDP-Setup-".toList ++ version ++
      if b.os = "macos".toList then
        if b.arch = "aarch64".toList then "-macos-arm64-update".toList else "-macos-x64-update".toList
      else if b.os = "linux".toList then
        if b.arch = "aarch64".toList then "-linux-arm64.AppImage".toList else "-linux-x64.AppImage".toList
      else if b.arch = "aarch64".toList then "-windows-arm64.exe".toList
      else ".exe".toList

def stripFile (part : Text) : Option Text :=
  if "file:".toList <+: part then some (part.drop 5) else none

/-- Tauri's signer writes `timestamp:<secs>\tfile:<name>` as the trusted comment. -/
def signsFile (trustedComment fileName : Text) : Bool :=
  ((trustedComment.splitOn '\t').filterMap fun part => stripFile (Text.trim part)).any fun name => name = fileName

/-! ## What is not part of the program -/

/-- A downloaded update waiting to be installed, as `pending.json` keeps it. -/
structure ReadyUpdate where
  version : Text
  notes : Option Text
  file : Path
  signature : Text
deriving DecidableEq

/-- Versions, keys, signatures and JSON, as the crates have them. -/
structure Crates (Version Key Sig : Type) where
  /-- `semver::Version::parse` -/
  parse : Text → Option Version
  /-- `>` of versions -/
  newer : Version → Version → Bool
  /-- Base64 of text. -/
  decode : Text → Option Text
  publicKey : Text → Option Key
  signature : Text → Option Sig
  verify : Key → Bytes → Sig → Bool
  trustedComment : Sig → Text
  readUpdate : Bytes → Option ReadyUpdate
  writeUpdate : ReadyUpdate → Bytes

/-- What a running UwURDP knows of itself. -/
structure Program (Version : Type) where
  build : Build
  running : Version
  install : Option Install
  updatesDir : Option Path
  pubkey : Option Text
  debug : Bool

variable {Version Key Sig : Type}

/-- Both the key and the signature come wrapped in base64. -/
def verifyWith (c : Crates Version Key Sig) (pubkey : Text) (bytes : Bytes) (signature fileName : Text) : Bool :=
  match c.decode (Text.trim pubkey), c.decode (Text.trim signature) with
  | some pubkey, some signature =>
    match c.publicKey pubkey, c.signature signature with
    | some key, some signature =>
      c.verify key bytes signature && signsFile (c.trustedComment signature) fileName
    | _, _ => false
  | _, _ => false

def pendingFile : Text := "pending.json".toList

/-! ## The machine -/

/-- Who opens the waiting update: `start`, `apply_pending_on_start` or `install_now`. -/
inductive Caller where
  | start
  | atStart
  | installNow
deriving DecidableEq

/-- How far a call is, between two of its steps. -/
inductive Phase where
  /-- `open_pending`, before the note is read -/
  | reading (caller : Caller) (kind : Install)
  /-- before the file is opened -/
  | opening (caller : Caller) (kind : Install) (update : ReadyUpdate)
  /-- The file is open and held. -/
  | held (caller : Caller) (kind : Install) (update : ReadyUpdate)
  /-- `hand_over` -/
  | handing (update : ReadyUpdate)
  | spawning (update : ReadyUpdate)
  /-- `install_package`, with the bytes that were checked -/
  | packaging (kind : Install) (update : ReadyUpdate) (bytes : Bytes)
  | installing (kind : Install) (update : ReadyUpdate) (bytes : Bytes)
  /-- The package manager is done, and UwURDP is started again. -/
  | restarting
  /-- `check`, before the feed answers -/
  | feeding (kind : Install)
  | saving (update : ReadyUpdate) (bytes : Bytes)
  | noting (dir : Path) (update : ReadyUpdate)
  | done
deriving DecidableEq

def Phase.holds : Phase → Option Path
  | held _ _ u | handing u | spawning u | packaging _ u _ => some u.file
  | _ => none

def Phase.checks : Phase → Bool
  | feeding _ | saving _ _ | noting _ _ => true
  | _ => false

/-- What was given to the setup or the package manager to run. -/
structure Handed where
  kind : Install
  version : Text
  bytes : Bytes
deriving DecidableEq

structure State where
  files : Path → Option Bytes
  ready : Option ReadyUpdate
  calls : List Phase
  handed : List Handed
  quit : Bool

/-- What the feed names, with the download. -/
structure Found where
  version : Text
  notes : Option Text
  signature : Text
  bytes : Bytes
deriving DecidableEq

inductive Move where
  /-- Any program writes or deletes a file. -/
  | tamper (path : Path) (content : Option Bytes)
  | start
  | applyPendingOnStart
  /-- `others`: another window runs from the same program. -/
  | installNow (others : Bool)
  | check
  /-- A call goes on; whether the system does what it asks for, and whether another window runs. -/
  | go (call : ℕ) (ok others : Bool)
  /-- The feed answers a check. -/
  | fed (call : ℕ) (found : Option Found)
deriving DecidableEq

namespace State

variable (s : State)

def locked (path : Path) : Bool := s.calls.any fun call => call.holds = some path

/-- What becomes of a file that somebody wants to change; a held file does not. -/
def write (path : Path) (content : Option Bytes) : State :=
  if s.locked path then s else { s with files := Function.update s.files path content }

/-- `remove_dir_all`, of all that nobody holds. -/
def clear (dir : Path) : State :=
  { s with files := fun path => if dir <+: path ∧ s.locked path = false then none else s.files path }

def put (call : ℕ) (phase : Phase) : State := { s with calls := s.calls.set call phase }

def begin (phase : Phase) : State := { s with calls := s.calls ++ [phase] }

end State

section Step

variable (c : Crates Version Key Sig) (p : Program Version)

def verify (bytes : Bytes) (signature fileName : Text) : Bool :=
  p.pubkey.any fun key => verifyWith c key bytes signature fileName

def isNewer (version : Text) : Bool := (c.parse version).any fun v => c.newer v p.running

/-- `open_pending` found nothing to install. -/
def refused (s : State) (call : ℕ) : Caller → State
  | .atStart => (p.updatesDir.elim s s.clear).put call .done
  | _ => s.put call .done

/-- `pending.json`, if it names the file where UwURDP puts it. -/
def readNote (files : Path → Option Bytes) (kind : Install) : Option ReadyUpdate := do
  let dir ← p.updatesDir
  let raw ← files (dir ++ [pendingFile])
  let update ← c.readUpdate raw
  let _ ← c.parse update.version
  if update.file = dir ++ [setupName p.build update.version kind] then some update else none

/-- The file is read and its signature checked while it is held; then the caller decides. -/
def decide (s : State) (call : ℕ) (others : Bool) (caller : Caller) (kind : Install) (u : ReadyUpdate) : State :=
  match s.files u.file with
  | none => refused p s call caller
  | some bytes =>
    if !verify c p bytes u.signature (setupName p.build u.version kind) then refused p s call caller
    else
      match caller with
      | .start =>
        if isNewer c p u.version then ({ s with ready := some u } : State).put call .done else s.put call .done
      | .atStart =>
        if isNewer c p u.version then
          if kind = .setup ∧ others = false then s.put call (.handing u) else s.put call .done
        else refused p s call .atStart
      -- Whether it is newer is not asked again here.
      | .installNow =>
        if kind = .setup then s.put call (.handing u) else s.put call (.packaging kind u bytes)

def forget (s : State) (u : ReadyUpdate) : State := s.write (u.file.dropLast ++ [pendingFile]) none

def proceed (s : State) (call : ℕ) (ok others : Bool) : Phase → State
  | .reading caller kind =>
    match readNote c p s.files kind with
    | some u => s.put call (.opening caller kind u)
    | none => refused p s call caller
  | .opening caller kind u =>
    if ok ∧ (s.files u.file).isSome then s.put call (.held caller kind u) else refused p s call caller
  | .held caller kind u => decide c p s call others caller kind u
  | .handing u => (forget s u).put call (if ok then .spawning u else .done)
  | .spawning u =>
    match s.files u.file with
    | some bytes =>
      if ok then ({ s with handed := s.handed ++ [⟨.setup, u.version, bytes⟩], quit := true } : State).put call .done
      else s.put call .done
    | none => s.put call .done
  | .packaging kind u bytes =>
    if p.build.os = "linux".toList ∧ ok then (forget s u).put call (.installing kind u bytes)
    else ({ s with ready := none } : State).put call .done
  | .installing kind u bytes =>
    if ok then ({ s with handed := s.handed ++ [⟨kind, u.version, bytes⟩] } : State).put call .restarting
    else ({ s with ready := none } : State).put call .done
  | .restarting => ({ s with ready := none, quit := ok } : State).put call .done
  | .saving u bytes =>
    if ok ∧ s.locked u.file = false then
      (s.write u.file (some bytes)).put call (.noting u.file.dropLast u)
    else s.put call .done
  | .noting dir u =>
    if ok ∧ s.locked (dir ++ [pendingFile]) = false then
      ({ s.write (dir ++ [pendingFile]) (some (c.writeUpdate u)) with ready := some u } : State).put call .done
    else s.put call .done
  | .feeding _ | .done => s

/-- The feed's answer is saved only if its signature belongs to the version it claims. -/
def receive (s : State) (call : ℕ) (kind : Install) : Option Found → State
  | none => s.put call .done
  | some found =>
    match c.parse found.version, p.updatesDir with
    | some _, some dir =>
      let name := setupName p.build found.version kind
      if verify c p found.bytes found.signature name then
        s.put call (.saving ⟨found.version, found.notes, dir ++ [name], found.signature⟩ found.bytes)
      else s.put call .done
    | _, _ => s.put call .done

def step (s : State) (m : Move) : State :=
  if s.quit then s
  else
    match m with
    | .tamper path content => s.write path content
    | .start => p.install.elim s fun kind => s.begin (.reading .start kind)
    | .applyPendingOnStart =>
      if p.debug then s else p.install.elim s fun kind => s.begin (.reading .atStart kind)
    | .installNow others =>
      if p.debug ∨ s.ready = none ∨ others = true then s
      else p.install.elim s fun kind => s.begin (.reading .installNow kind)
    | .check =>
      if s.ready ≠ none ∨ s.calls.any Phase.checks then s
      else p.install.elim s fun kind => s.begin (.feeding kind)
    | .go call ok others => (s.calls[call]?).elim s (proceed c p s call ok others)
    | .fed call found =>
      match s.calls[call]? with
      | some (.feeding kind) => receive c p s call kind found
      | _ => s

def launched (files : Path → Option Bytes) : State := ⟨files, none, [], [], false⟩

end Step

/-! ## Signatures -/

section Signatures

theorem trimEndMatches_isPrefix (q : Char → Bool) (t : Text) : Text.trimEndMatches q t <+: t := by
  have hsuffix := List.dropWhile_suffix (l := t.reverse) q
  unfold Text.trimEndMatches
  rwa [← List.reverse_suffix, List.reverse_reverse]

theorem stripFile_timestamp (secs : Text) : stripFile (Text.trim ("timestamp:".toList ++ secs)) = none := by
  have hstart : ("timestamp:".toList ++ secs).dropWhile Text.isWhitespace = "timestamp:".toList ++ secs :=
    List.dropWhile_cons_of_neg (by decide)
  unfold stripFile Text.trim
  rw [hstart]
  refine if_neg fun hfile => ?_
  obtain ⟨rest, hrest⟩ := hfile.trans (trimEndMatches_isPrefix _ _)
  have hhead : some 'f' = some 't' := congrArg List.head? hrest
  cases hhead

theorem signsFile_iff {secs name fileName : Text} (hsecs : '\t' ∉ secs)
    (hname : ∀ ch ∈ name, Text.isWhitespace ch = false) :
    signsFile ("timestamp:".toList ++ secs ++ '\t' :: ("file:".toList ++ name)) fileName = true ↔ name = fileName := by
  have hfirst : '\t' ∉ "timestamp:".toList ++ secs := by
    rw [List.mem_append, not_or]
    exact ⟨by decide, hsecs⟩
  have hunspaced : ∀ ch ∈ "file:".toList ++ name, Text.isWhitespace ch = false := by
    intro ch hch
    rcases List.mem_append.mp hch with hch | hch
    · exact (by decide : ∀ ch ∈ "file:".toList, Text.isWhitespace ch = false) ch hch
    · exact hname ch hch
  have hsecond : '\t' ∉ "file:".toList ++ name := fun hch => absurd (hunspaced _ hch) (by decide)
  have hstrip : stripFile ("file:".toList ++ name) = some name := by
    unfold stripFile
    rw [if_pos (List.prefix_append _ _)]
    rfl
  have hparts : ["timestamp:".toList ++ secs, "file:".toList ++ name].filterMap
      (fun part => stripFile (Text.trim part)) = [name] := by
    rw [List.filterMap_cons, stripFile_timestamp, List.filterMap_cons, Text.trim_of_unspaced hunspaced, hstrip]
    rfl
  unfold signsFile
  rw [List.splitOn_append_cons_self, List.splitOn_eq_singleton hfirst, List.splitOn_eq_singleton hsecond,
    List.singleton_append, hparts, List.any_cons, List.any_nil, Bool.or_false, decide_eq_true_eq]

end Signatures

/-! ## What goes on was checked -/

section Checked

variable {c : Crates Version Key Sig} {p : Program Version} {s : State} {G : Handed → Prop}

/-- A call that goes on to run an update has one in hand that was checked. -/
def Phase.Holds (G : Handed → Prop) (files : Path → Option Bytes) : Phase → Prop
  | .handing u | .spawning u => ∃ bytes, files u.file = some bytes ∧ G ⟨.setup, u.version, bytes⟩
  | .packaging kind u bytes | .installing kind u bytes => G ⟨kind, u.version, bytes⟩
  | _ => True

structure Sound (G : Handed → Prop) (s : State) : Prop where
  calls : ∀ call ∈ s.calls, call.Holds G s.files
  handed : ∀ h ∈ s.handed, G h

/-- What is accepted of a file that is held, at this move, was checked. -/
def Gate (c : Crates Version Key Sig) (p : Program Version) (G : Handed → Prop) (s : State) : Move → Prop
  | .go call _ _ => ∀ caller kind u bytes, s.calls[call]? = some (.held caller kind u) →
      s.files u.file = some bytes → verify c p bytes u.signature (setupName p.build u.version kind) = true →
      (caller = .installNow ∨ isNewer c p u.version = true) → G ⟨kind, u.version, bytes⟩
  | _ => True

theorem Phase.Holds.files {files files' : Path → Option Bytes} {call : Phase} (h : call.Holds G files)
    (hsame : ∀ path, call.holds = some path → files' path = files path) : call.Holds G files' := by
  cases call with
  | handing u | spawning u =>
    obtain ⟨bytes, hbytes, hg⟩ := h
    exact ⟨bytes, (hsame u.file rfl).trans hbytes, hg⟩
  | _ => exact h

theorem Sound.put (h : Sound G s) {call : ℕ} {phase : Phase} (hp : phase.Holds G s.files) :
    Sound G (s.put call phase) where
  calls := by
    intro call' hmem
    rcases List.mem_or_eq_of_mem_set hmem with hmem | rfl
    · exact h.calls call' hmem
    · exact hp
  handed := h.handed

theorem Sound.begin (h : Sound G s) {phase : Phase} (hp : phase.Holds G s.files) : Sound G (s.begin phase) where
  calls := by
    intro call hmem
    rcases List.mem_append.mp hmem with hmem | hmem
    · exact h.calls call hmem
    · obtain rfl := List.mem_singleton.mp hmem
      exact hp
  handed := h.handed

theorem locked_of_holds {call : Phase} {path : Path} (hmem : call ∈ s.calls) (hholds : call.holds = some path) :
    s.locked path = true :=
  List.any_eq_true.mpr ⟨call, hmem, by simp [hholds]⟩

theorem Sound.write (h : Sound G s) (path : Path) (content : Option Bytes) : Sound G (s.write path content) := by
  unfold State.write
  split
  · exact h
  · next hfree =>
    refine ⟨fun call hmem => (h.calls call hmem).files fun path' hholds => ?_, h.handed⟩
    refine Function.update_of_ne ?_ _ _
    rintro rfl
    exact hfree (locked_of_holds hmem hholds)

theorem Sound.clear (h : Sound G s) (dir : Path) : Sound G (s.clear dir) := by
  refine ⟨fun call hmem => (h.calls call hmem).files fun path hholds => ?_, h.handed⟩
  refine if_neg fun hfree => ?_
  have hlocked : s.locked path = true := locked_of_holds hmem hholds
  rw [hlocked] at hfree
  cases hfree.2

theorem Sound.hand (h : Sound G s) {x : Handed} (hx : G x) {ready : Option ReadyUpdate} {quit : Bool} :
    Sound G { s with ready, handed := s.handed ++ [x], quit } := by
  refine ⟨h.calls, fun y hy => ?_⟩
  rcases List.mem_append.mp hy with hy | hy
  · exact h.handed y hy
  · obtain rfl := List.mem_singleton.mp hy
    exact hx

theorem Sound.settle (h : Sound G s) (ready : Option ReadyUpdate) (quit : Bool) :
    Sound G { s with ready, quit } := ⟨h.calls, h.handed⟩

theorem Sound.refused (h : Sound G s) (call : ℕ) (caller : Caller) : Sound G (refused p s call caller) := by
  unfold Updates.refused
  split
  · cases p.updatesDir with
    | none => exact h.put trivial
    | some dir => exact (h.clear dir).put trivial
  · exact h.put trivial

theorem Sound.decide (h : Sound G s) {call : ℕ} {ok others : Bool} {caller : Caller} {kind : Install}
    {u : ReadyUpdate} (hcall : s.calls[call]? = some (.held caller kind u)) (hg : Gate c p G s (.go call ok others)) :
    Sound G (decide c p s call others caller kind u) := by
  unfold Updates.decide
  cases hfile : s.files u.file with
  | none => exact h.refused call caller
  | some bytes =>
    dsimp only
    split
    · exact h.refused call caller
    next hverified =>
    have hchecked := hg caller kind u bytes hcall hfile (by simpa using hverified)
    cases caller with
    | start =>
      dsimp only
      split
      · exact (h.settle (some u) (s.quit)).put trivial
      · exact h.put trivial
    | atStart =>
      dsimp only
      split
      · next hnewer =>
        split
        · next hrun =>
          refine h.put ⟨bytes, hfile, ?_⟩
          rw [← hrun.1]
          exact hchecked (.inr hnewer)
        · exact h.put trivial
      · exact h.refused call .atStart
    | installNow =>
      dsimp only
      split
      · next hsetup =>
        refine h.put ⟨bytes, hfile, ?_⟩
        rw [← hsetup]
        exact hchecked (.inl rfl)
      · exact h.put (hchecked (.inl rfl))

theorem write_held {call : Phase} {path path' : Path} {content : Option Bytes} (hmem : call ∈ s.calls)
    (hholds : call.holds = some path) : (s.write path' content).files path = s.files path := by
  unfold State.write
  split
  · rfl
  · next hfree =>
    refine Function.update_of_ne ?_ _ _
    rintro rfl
    exact hfree (locked_of_holds hmem hholds)

theorem Sound.proceed (h : Sound G s) {call : ℕ} {ok others : Bool} {phase : Phase}
    (hcall : s.calls[call]? = some phase) (hg : Gate c p G s (.go call ok others)) :
    Sound G (proceed c p s call ok others phase) := by
  have hmem := List.mem_of_getElem? hcall
  cases phase with
  | reading caller kind | opening caller kind u =>
    unfold Updates.proceed
    dsimp only
    split
    · exact h.put trivial
    · exact h.refused call caller
  | held caller kind u => exact h.decide hcall hg
  | handing u =>
    have hwritten := h.write (u.file.dropLast ++ [pendingFile]) none
    unfold Updates.proceed
    dsimp only
    split
    · obtain ⟨bytes, hfile, hchecked⟩ := h.calls _ hmem
      exact hwritten.put ⟨bytes, (write_held hmem rfl).trans hfile, hchecked⟩
    · exact hwritten.put trivial
  | spawning u =>
    obtain ⟨bytes, hfile, hchecked⟩ := h.calls _ hmem
    unfold Updates.proceed
    dsimp only
    rw [hfile]
    dsimp only
    split
    · exact (h.hand hchecked).put trivial
    · exact h.put trivial
  | packaging kind u bytes =>
    unfold Updates.proceed
    dsimp only
    split
    · exact (h.write _ none).put (h.calls _ hmem)
    · exact (h.settle none s.quit).put trivial
  | installing kind u bytes =>
    unfold Updates.proceed
    dsimp only
    split
    · exact (h.hand (h.calls _ hmem)).put trivial
    · exact (h.settle none s.quit).put trivial
  | restarting => exact (h.settle none ok).put trivial
  | saving u bytes =>
    unfold Updates.proceed
    dsimp only
    split
    · exact (h.write u.file (some bytes)).put trivial
    · exact h.put trivial
  | noting dir u =>
    unfold Updates.proceed
    dsimp only
    split
    · exact ((h.write (dir ++ [pendingFile]) (some (c.writeUpdate u))).settle (some u) _).put trivial
    · exact h.put trivial
  | feeding kind | done => exact h

theorem Sound.receive (h : Sound G s) {call : ℕ} {kind : Install} {found : Option Found} :
    Sound G (receive c p s call kind found) := by
  cases found with
  | none => exact h.put trivial
  | some found =>
    unfold Updates.receive
    dsimp only
    split
    · split
      · exact h.put trivial
      · exact h.put trivial
    · exact h.put trivial

theorem Sound.start (h : Sound G s) {phase : Install → Phase} (hp : ∀ kind, (phase kind).Holds G s.files) :
    Sound G (p.install.elim s fun kind => s.begin (phase kind)) := by
  cases p.install with
  | none => exact h
  | some kind => exact h.begin (hp kind)

theorem Sound.step {m : Move} (h : Sound G s) (hg : Gate c p G s m) : Sound G (step c p s m) := by
  unfold Updates.step
  split
  · exact h
  cases m with
  | tamper path content => exact h.write path content
  | start => exact h.start fun _ => trivial
  | applyPendingOnStart | installNow others | check =>
    dsimp only
    split
    · exact h
    · exact h.start fun _ => trivial
  | go call ok others =>
    dsimp only
    cases hcall : s.calls[call]? with
    | none => exact h
    | some phase => exact h.proceed hcall hg
  | fed call found =>
    dsimp only
    split
    · exact h.receive
    · exact h

theorem sound_run {files : Path → Option Bytes} {moves : List Move}
    (hg : Steps.Along (step c p) (Gate c p G) (launched files) moves) :
    Sound G (Steps.run (step c p) (launched files) moves) :=
  hg.invariant ⟨fun call hmem => (by cases hmem), fun h hmem => (by cases hmem)⟩ fun _ _ hs hm => hs.step hm

end Checked

/-! ## Only what was signed, and only what is newer -/

section Main

/-- The release key signed these bytes under these names, and nothing else. -/
structure Ideal (c : Crates Version Key Sig) (p : Program Version) (signed : Set (Bytes × Text)) : Prop where
  /-- Whatever the key verifies is one of them, and the comment says which. -/
  sound : ∀ pubkey wrapped key bytes sig, p.pubkey = some pubkey → c.decode (Text.trim pubkey) = some wrapped →
    c.publicKey wrapped = some key → c.verify key bytes sig = true →
    ∃ secs name, '\t' ∉ secs ∧ (bytes, name) ∈ signed ∧
      c.trustedComment sig = "timestamp:".toList ++ secs ++ '\t' :: ("file:".toList ++ name)
  /-- A file name has no blanks. -/
  names : ∀ x ∈ signed, ∀ ch ∈ x.2, Text.isWhitespace ch = false

/-- Signed by the release key under the name for its kind and version. -/
def Handed.Signed (p : Program Version) (signed : Set (Bytes × Text)) (h : Handed) : Prop :=
  (h.bytes, setupName p.build h.version h.kind) ∈ signed

def Handed.Newer (c : Crates Version Key Sig) (p : Program Version) (h : Handed) : Prop :=
  isNewer c p h.version = true

variable {c : Crates Version Key Sig} {p : Program Version} {signed : Set (Bytes × Text)}

theorem Ideal.mem (h : Ideal c p signed) {bytes : Bytes} {signature fileName : Text}
    (hv : verify c p bytes signature fileName = true) : (bytes, fileName) ∈ signed := by
  unfold verify at hv
  cases hpubkey : p.pubkey with
  | none =>
    rw [hpubkey] at hv
    cases hv
  | some pubkey =>
    rw [hpubkey, Option.any_some] at hv
    unfold verifyWith at hv
    split at hv
    · next wrapped text hwrapped htext =>
      split at hv
      · next key sig hkey hsig =>
        rw [Bool.and_eq_true] at hv
        obtain ⟨secs, name, hsecs, hmem, hcomment⟩ := h.sound pubkey wrapped key bytes sig hpubkey hwrapped hkey hv.1
        have hfile := hv.2
        rw [hcomment, signsFile_iff hsecs (h.names _ hmem)] at hfile
        exact hfile ▸ hmem
      · cases hv
    · cases hv

/-- `install_now` finds nothing in the folder that was signed for this copy and is not newer. -/
def meets (c : Crates Version Key Sig) (p : Program Version) (s : State) : Move → Bool
  | .go call _ _ =>
    match s.calls[call]? with
    | some (.held .installNow kind u) => (s.files u.file).all fun bytes =>
        !verify c p bytes u.signature (setupName p.build u.version kind) || isNewer c p u.version
    | _ => true
  | _ => true

/-- **What an update runs** is always what the release key signed under the name for its kind and version, and it is
newer than the running version where `install_now` found nothing else. -/
theorem handed_signed_newer (c : Crates Version Key Sig) (p : Program Version) (signed : Set (Bytes × Text))
    (hideal : Ideal c p signed) (files : Path → Option Bytes) (moves : List Move) :
    (∀ h ∈ (Steps.run (step c p) (launched files) moves).handed, h.Signed p signed) ∧
      (Steps.Along (step c p) (fun s m => meets c p s m = true) (launched files) moves →
        ∀ h ∈ (Steps.run (step c p) (launched files) moves).handed, h.Newer c p) := by
  constructor
  · refine (sound_run (Steps.along_of_forall (fun s m => ?_) _ moves)).handed
    cases m with
    | go call ok others => exact fun caller kind u bytes _ _ hv _ => hideal.mem hv
    | _ => trivial
  · refine fun hmeets => (sound_run (hmeets.imp fun s m hm => ?_)).handed
    cases m with
    | go call ok others =>
      rintro caller kind u bytes hcall hfile hv (rfl | hnewer)
      · rw [meets, hcall] at hm
        dsimp only at hm
        rw [hfile, Option.all_some, hv, Bool.not_true, Bool.false_or] at hm
        exact hm
      · exact hnewer
    | _ => trivial

/-! ### A release on trial -/

def copy : Program ℕ :=
  ⟨⟨"linux".toList, "x86_64".toList⟩, 2, some .deb, some ["updates".toList], some "a2V5".toList, false⟩

def debName (version : String) : Text := setupName copy.build version.toList .deb

def noteOf (version signature : String) : ReadyUpdate :=
  ⟨version.toList, none, ["updates".toList, debName version], signature.toList⟩

def released : List (Bytes × Text) := [([1], debName "1.0.0"), ([3], debName "3.0.0")]

def noteBytes (version signature : String) : Bytes :=
  ("\x7b\"version\":\"" ++ version ++ "\",\"notes\":null,\"file\":\"updates/UwURDP-" ++ version ++
    "-linux-x86_64.deb\",\"signature\":\"" ++ signature ++ "\"\x7d").toList.map fun ch => UInt8.ofNat ch.toNat

def crates : Crates ℕ Unit Text where
  parse t := if t = "1.0.0".toList then some 1 else if t = "3.0.0".toList then some 3 else none
  newer v w := w < v
  decode t := if t = "a2V5".toList then some "key".toList else if t = "b2xk".toList then some (debName "1.0.0")
    else if t = "bmV3".toList then some (debName "3.0.0") else none
  publicKey t := if t = "key".toList then some () else none
  signature t := some t
  verify _ bytes sig := released.contains (bytes, sig)
  trustedComment sig := "timestamp:".toList ++ "9".toList ++ '\t' :: ("file:".toList ++ sig)
  readUpdate raw := if raw = noteBytes "1.0.0" "b2xk" then some (noteOf "1.0.0" "b2xk")
    else if raw = noteBytes "3.0.0" "bmV3" then some (noteOf "3.0.0" "bmV3") else none
  writeUpdate u := noteBytes (String.ofList u.version) (String.ofList u.signature)

theorem crates_ideal : Ideal crates copy {x | x ∈ released} where
  sound pubkey wrapped key bytes sig _ _ _ hv :=
    ⟨"9".toList, sig, by decide, List.contains_iff_mem.mp hv, rfl⟩
  names x hx := by
    have hall : ∀ x ∈ released, ∀ ch ∈ x.2, Text.isWhitespace ch = false := by decide +kernel
    exact hall x hx

def update : List Move :=
  [.start, .go 0 true false, .check, .fed 1 (some ⟨"3.0.0".toList, none, "bmV3".toList, [3]⟩), .go 1 true false,
    .go 1 true false, .installNow false, .go 2 true false, .go 2 true false, .go 2 true false, .go 2 true false,
    .go 2 true false, .go 2 true false]

/-- The same, but somebody puts version 1 into the folder before "Restart now". -/
def downgrade : List Move :=
  update.take 6 ++ [.tamper ["updates".toList, debName "1.0.0"] (some [1]),
    .tamper ["updates".toList, pendingFile] (some (noteBytes "1.0.0" "b2xk"))] ++ update.drop 6

/-- What the update hands over is signed and newer. -/
theorem update_signed_newer :
    (Steps.run (step crates copy) (launched fun _ => none) update).handed = [⟨.deb, "3.0.0".toList, [3]⟩] ∧
      (∀ h ∈ (Steps.run (step crates copy) (launched fun _ => none) update).handed,
        h.Signed copy {x | x ∈ released}) ∧
      ∀ h ∈ (Steps.run (step crates copy) (launched fun _ => none) update).handed, h.Newer crates copy := by
  have hboth := handed_signed_newer crates copy {x | x ∈ released} crates_ideal (fun _ => none) update
  exact ⟨by decide +kernel, hboth.1, hboth.2 (by decide +kernel)⟩

/-- Signed as it is, the old version is installed over the new one. -/
theorem downgrade_installed :
    Ideal crates copy {x | x ∈ released} ∧
      ¬∀ (files : Path → Option Bytes) (moves : List Move),
        ∀ h ∈ (Steps.run (step crates copy) (launched files) moves).handed,
          h.Signed copy {x | x ∈ released} ∧ h.Newer crates copy := by
  refine ⟨crates_ideal, fun hall => ?_⟩
  have hmem : ⟨.deb, "1.0.0".toList, [1]⟩ ∈
      (Steps.run (step crates copy) (launched fun _ => none) downgrade).handed := by decide +kernel
  have hnewer : isNewer crates copy "1.0.0".toList = true := (hall (fun _ => none) downgrade _ hmem).2
  exact absurd hnewer (by decide +kernel)

end Main

end Updates

end UwuRdp
