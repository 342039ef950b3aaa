import UwuRdp.App.Install

/-!
# Installs that fail

An install that fails has changed nothing, or left no app where one was, or left the new app with the record of the
old one. Which of these it is follows from the operations that failed; where it does no harm, there is a working app
and the record is true of it, so that no older setup replaces it.
-/

namespace UwuRdp

open Lib

namespace Setup

/-! ## What an install comes to -/

section Outcome

variable {α : Type} {faults : Faults α} {disk : Disk α}

variable {op : Op} {disk' : Disk α} {a : α} {set : Option Text → Disk α → Disk α}

theorem must_ok (h : faults.fails op = false) (message : Text → Text) (f : Disk α → Disk α) :
    must faults op message f disk = (.ok (), f disk) := by
  rw [must, h]
  rfl

theorem must_error (h : faults.fails op = true) (message : Text → Text) (f : Disk α → Disk α) :
    must faults op message f disk = (.error (message (faults.text op)), disk) := by
  rw [must, h]
  rfl

/-- The setup saw that there was something in the app's place. -/
def HadOld (faults : Faults α) (disk : Disk α) : Prop :=
  disk.target.isSome = true ∧ faults.fails .lookTarget = false

def MovesAside (faults : Faults α) (disk : Disk α) : Prop :=
  HadOld faults disk ∧ faults.fails .moveAside = false ∧ renames disk.target disk.aside = true

/-- The old app is aside, the new one does not come in its place, and the old one not back. -/
def Strands (faults : Faults α) (disk : Disk α) : Prop :=
  MovesAside faults disk ∧ faults.fails .moveIn = true ∧ faults.fails .moveBack = true

def Swaps (faults : Faults α) (disk : Disk α) (a : α) : Prop :=
  faults.fails .moveIn = false ∧
    (MovesAside faults disk ∨ ¬HadOld faults disk ∧ renames (some (.app a)) disk.target = true)

theorem moveAside_ok (app : Text) (h : faults.fails .moveAside = false ∧ renames disk.target disk.aside = true) :
    moveAside faults app disk = (.ok (), { disk with target := none, aside := disk.target }) := by
  rw [moveAside, Act.get_bind, h.1, h.2]
  rfl

theorem moveAside_error (app : Text) (h : ¬(faults.fails .moveAside = false ∧ renames disk.target disk.aside = true)) :
    ∃ e, moveAside faults app disk = (.error e, disk) := by
  have hfails : (faults.fails .moveAside || !renames disk.target disk.aside) = true := by
    rcases hmove : faults.fails .moveAside with _ | _
    · simpa [hmove] using h
    · rfl
  rw [moveAside, Act.get_bind, if_pos hfails]
  exact ⟨_, rfl⟩

theorem moveIn_ok (app : Text) (hadOld : Bool) (hin : faults.fails .moveIn = false)
    (hfree : renames disk.incoming disk.target = true) : ∃ disk', moveIn faults app hadOld disk = (.ok (), disk') ∧
    disk'.target = disk.incoming ∧ disk'.state = disk.state := by
  rw [moveIn, Act.get_bind, hin, hfree]
  cases hadOld <;> exact ⟨_, rfl, rfl, rfl⟩

theorem moveIn_error (app : Text) (hadOld : Bool)
    (h : ¬(faults.fails .moveIn = false ∧ renames disk.incoming disk.target = true)) :
    ∃ e disk', moveIn faults app hadOld disk = (.error e, disk') ∧ disk'.state = disk.state ∧
      disk'.target = if hadOld = true ∧ faults.fails .moveBack = false then disk.aside else disk.target := by
  have hfails : (faults.fails .moveIn || !renames disk.incoming disk.target) = true := by
    rcases hmove : faults.fails .moveIn with _ | _
    · simpa [hmove] using h
    · rfl
  rw [moveIn, Act.get_bind, if_pos hfails]
  cases hadOld with
  | false => exact ⟨_, _, rfl, rfl, rfl⟩
  | true =>
    rw [attempt]
    rcases faults.fails .moveBack with _ | _
    · exact ⟨_, _, rfl, rfl, rfl⟩
    · exact ⟨_, _, rfl, rfl, rfl⟩

theorem swapIn_cases (app : Text) {a : α} (hincoming : disk.incoming = some (.app a)) :
    (∃ disk', swapIn faults app disk = (.ok (), disk') ∧ disk'.target = some (.app a) ∧ disk'.state = disk.state ∧
      Swaps faults disk a) ∨
    ∃ e disk', swapIn faults app disk = (.error e, disk') ∧ disk'.state = disk.state ∧ ¬Swaps faults disk a ∧
      (Strands faults disk ∧ disk'.target = none ∨ ¬Strands faults disk ∧ disk'.target = disk.target) := by
  unfold swapIn
  rw [Act.get_bind]
  by_cases hold : HadOld faults disk
  · have hlook : (disk.target.isSome && !faults.fails .lookTarget) = true := by simp [hold.1, hold.2]
    rw [hlook, if_pos rfl]
    by_cases haside : faults.fails .moveAside = false ∧ renames disk.target disk.aside = true
    · rw [Act.bind_of_ok (moveAside_ok app haside)]
      have hfree : renames disk.incoming none = true := by rw [hincoming]; rfl
      rcases hin : faults.fails .moveIn with _ | _
      · obtain ⟨disk', hmoved, htarget, hstate⟩ := @moveIn_ok _ faults
          { disk with target := none, aside := disk.target } app true hin hfree
        exact .inl ⟨disk', hmoved, htarget.trans hincoming, hstate, hin, .inl ⟨hold, haside⟩⟩
      · obtain ⟨e, disk', hmoved, hstate, htarget⟩ := @moveIn_error _ faults
          { disk with target := none, aside := disk.target } app true (fun h => by rw [hin] at h; cases h.1)
        refine .inr ⟨e, disk', hmoved, hstate, fun h => (by rw [h.1] at hin; cases hin), ?_⟩
        rcases hback : faults.fails .moveBack with _ | _
        · exact .inr ⟨fun h => (by rw [h.2.2] at hback; cases hback), by rw [htarget, if_pos ⟨rfl, hback⟩]⟩
        · exact .inl ⟨⟨⟨hold, haside⟩, hin, hback⟩, by rw [htarget, if_neg fun h => (by rw [hback] at h; cases h.2)]⟩
    · obtain ⟨e, herror⟩ := moveAside_error app haside
      rw [Act.bind_of_error herror]
      refine .inr ⟨e, disk, rfl, rfl, fun h => ?_, .inr ⟨fun h => haside h.1.2, rfl⟩⟩
      rcases h.2 with hmoves | ⟨hnot, -⟩
      · exact haside hmoves.2
      · exact hnot hold
  · have hlook : (disk.target.isSome && !faults.fails .lookTarget) = false := by
      rcases hsome : disk.target.isSome with _ | _
      · rfl
      · simpa [HadOld, hsome] using hold
    rw [hlook, if_neg Bool.false_ne_true]
    by_cases hin : faults.fails .moveIn = false ∧ renames disk.incoming disk.target = true
    · obtain ⟨disk', hmoved, htarget, hstate⟩ := moveIn_ok app false hin.1 hin.2
      exact .inl ⟨disk', hmoved, htarget.trans hincoming, hstate, hin.1, .inr ⟨hold, hincoming ▸ hin.2⟩⟩
    · obtain ⟨e, disk', hmoved, hstate, htarget⟩ := moveIn_error app false hin
      refine .inr ⟨e, disk', hmoved, hstate, fun h => ?_, .inr ⟨fun h => hold h.1.1, ?_⟩⟩
      · rcases h.2 with hmoves | ⟨-, hfree⟩
        · exact hold hmoves.1
        · exact hin ⟨h.1, hincoming.symm ▸ hfree⟩
      · rw [htarget, if_neg fun h => (by cases h.1)]

/-- The app, what was moved aside and the record are as they were. -/
structure Leaves (disk disk' : Disk α) : Prop where
  target : disk'.target = disk.target
  aside : disk'.aside = disk.aside
  state : disk'.state = disk.state

theorem Leaves.refl (disk : Disk α) : Leaves disk disk := ⟨rfl, rfl, rfl⟩

theorem Leaves.trans {disk₁ disk₂ disk₃ : Disk α} (h : Leaves disk₁ disk₂) (h' : Leaves disk₂ disk₃) :
    Leaves disk₁ disk₃ :=
  ⟨h'.target.trans h.target, h'.aside.trans h.aside, h'.state.trans h.state⟩

theorem Leaves.swaps (h : Leaves disk disk') : Swaps faults disk' a ↔ Swaps faults disk a := by
  simp only [Swaps, MovesAside, HadOld, h.target, h.aside]

theorem Leaves.strands (h : Leaves disk disk') : Strands faults disk' ↔ Strands faults disk := by
  simp only [Strands, MovesAside, HadOld, h.target, h.aside]

theorem writeEntry_cases (faults : Faults α) (disk : Disk α) (create write : Op) (dir path app : Text) (hset : ∀ entry disk, Leaves disk (set entry disk)) :
    (faults.fails create = false ∧ faults.fails write = false ∧
      ∃ disk', writeEntry faults create write dir path app set disk = (.ok (), disk') ∧ Leaves disk disk') ∨
    ¬(faults.fails create = false ∧ faults.fails write = false) ∧
      ∃ e disk', writeEntry faults create write dir path app set disk = (.error e, disk') ∧ Leaves disk disk' := by
  unfold writeEntry
  rcases hcreate : faults.fails create with _ | _
  · rw [Act.bind_of_ok (must_ok hcreate _ _)]
    rcases hwrite : faults.fails write with _ | _
    · exact .inl ⟨rfl, rfl, _, rfl, hset _ _⟩
    · refine .inr ⟨fun h => (by cases h.2), ?_⟩
      rcases faults.cut write with _ | _
      · exact ⟨_, _, rfl, .refl disk⟩
      · exact ⟨_, _, rfl, hset _ _⟩
  · rw [Act.bind_of_error (must_error hcreate _ _)]
    exact .inr ⟨fun h => (by cases h.1), _, _, rfl, .refl disk⟩

theorem optional_leaves (faults : Faults α) (disk : Disk α) (create write : Op) (dir path app : Text) (hset : ∀ entry disk, Leaves disk (set entry disk)) :
    Leaves disk (optional (writeEntry faults create write dir path app set) disk).2 := by
  unfold optional
  rcases writeEntry_cases faults disk create write dir path app hset with
    ⟨-, -, disk', hentry, hleaves⟩ | ⟨-, e, disk', hentry, hleaves⟩
  · rw [hentry]
    exact hleaves
  · rw [hentry]
    exact hleaves

theorem attempt_ok (faults : Faults α) (disk : Disk α) (op : Op) {f : Disk α → Disk α} (hf : ∀ disk, Leaves disk (f disk)) :
    ∃ disk', attempt faults op f disk = (.ok (), disk') ∧ Leaves disk disk' := by
  unfold attempt
  rcases faults.fails op with _ | _
  · exact ⟨_, rfl, hf disk⟩
  · exact ⟨_, rfl, .refl disk⟩

/-- The shortcuts are made, as far as they have to be. -/
def MakesShortcuts (faults : Faults α) (layout : Layout) : Prop :=
  layout.os = .macos ∨ faults.fails .lookApp = true ∨ faults.fails .createMenu = false ∧ faults.fails .writeMenu = false

theorem shortcuts_cases (layout : Layout) (options : Options) (app : Text) (hthere : isThere disk.target = true) :
    (MakesShortcuts faults layout ∧
      ∃ disk', shortcuts faults layout options app disk = (.ok (), disk') ∧ Leaves disk disk') ∨
    ¬MakesShortcuts faults layout ∧
      ∃ e disk', shortcuts faults layout options app disk = (.error e, disk') ∧ Leaves disk disk' := by
  unfold shortcuts
  rcases hos : layout.os with _ | _
  · exact .inl ⟨.inl hos, disk, rfl, .refl disk⟩
  dsimp only
  rw [Act.get_bind, hthere]
  have hmenu : ∀ entry (disk : Disk α), Leaves disk (setMenu entry disk) := fun _ _ => ⟨rfl, rfl, rfl⟩
  have hdesktop : ∀ entry (disk : Disk α), Leaves disk (setDesktop entry disk) := fun _ _ => ⟨rfl, rfl, rfl⟩
  rcases hlook : faults.fails .lookApp with _ | _
  · rcases writeEntry_cases faults disk .createMenu .writeMenu layout.applications
      (joinPath layout.applications entryName) app hmenu with
      ⟨hcreate, hwrite, disk₁, hentry, hleaves⟩ | ⟨hnot, e, disk₁, hentry, hleaves⟩
    · refine .inl ⟨.inr (.inr ⟨hcreate, hwrite⟩), ?_⟩
      show ∃ disk', (writeEntry _ _ _ _ _ _ _ >>= _) disk = (.ok (), disk') ∧ _
      rw [Act.bind_of_ok hentry]
      split
      · exact ⟨_, rfl, hleaves.trans (optional_leaves faults disk₁ _ _ _ _ _ hdesktop)⟩
      · obtain ⟨disk₂, hremove, hleaves'⟩ := attempt_ok faults disk₁ .removeDesktop (hdesktop none)
        exact ⟨disk₂, hremove, hleaves.trans hleaves'⟩
    · refine .inr ⟨?_, e, disk₁, ?_, hleaves⟩
      · rintro (hmac | hfails | hmade)
        · rw [hos] at hmac
          cases hmac
        · rw [hlook] at hfails
          cases hfails
        · exact hnot hmade
      · exact Act.bind_of_error hentry
  · obtain ⟨disk₁, hremove, hleaves⟩ := attempt_ok faults disk .removeMenu (hmenu none)
    obtain ⟨disk₂, hremove', hleaves'⟩ := attempt_ok faults disk₁ .removeDesktop (hdesktop none)
    exact .inl ⟨.inr (.inl hlook), disk₂, (Act.bind_of_ok hremove).trans hremove', hleaves.trans hleaves'⟩

def Registers (faults : Faults α) : Prop := faults.fails .createState = false ∧ faults.fails .writeState = false

def CutsRecord (faults : Faults α) : Prop :=
  faults.fails .createState = false ∧ faults.fails .writeState = true ∧ faults.cut .writeState = true

theorem register_cases (faults : Faults α) (disk : Disk α) (layout : Layout) (record : Record) :
    (Registers faults ∧ ∃ disk', register faults layout record disk = (.ok (), disk')) ∨ ¬Registers faults ∧ ∃ e
    disk', register faults layout record disk = (.error e, disk') ∧ disk'.target = disk.target ∧
    (CutsRecord faults ∧ disk'.state = some .unreadable ∨ ¬CutsRecord faults ∧ disk'.state = disk.state) := by
  unfold register
  rcases hcreate : faults.fails .createState with _ | _
  · rw [Act.bind_of_ok (must_ok hcreate _ _)]
    rcases hwrite : faults.fails .writeState with _ | _
    · exact .inl ⟨⟨hcreate, hwrite⟩, _, rfl⟩
    · refine .inr ⟨fun h => (by rw [h.2] at hwrite; cases hwrite), ?_⟩
      rcases hcut : faults.cut .writeState with _ | _
      · exact ⟨_, _, rfl, rfl, .inr ⟨fun h => (by rw [h.2.2] at hcut; cases hcut), rfl⟩⟩
      · exact ⟨_, _, rfl, rfl, .inl ⟨⟨hcreate, hwrite, hcut⟩, rfl⟩⟩
  · rw [Act.bind_of_error (must_error hcreate _ _)]
    exact .inr ⟨fun h => (by rw [h.1] at hcreate; cases hcreate), _, _, rfl, rfl,
      .inr ⟨fun h => (by rw [h.1] at hcreate; cases hcreate), rfl⟩⟩

/-- The folders are made. -/
structure Prepares (faults : Faults α) (layout : Layout) (options : Options) : Prop where
  full : options.folder.head? = some '/'
  createDir : faults.fails .createDir = false
  stopApp : layout.sandbox = true ∨ faults.fails .stopApp = false
  createStaging : faults.fails .createStaging = false

theorem prepare_cases (faults : Faults α) (disk : Disk α) (layout : Layout) (pid : Text) (options : Options) :
    (Prepares faults layout options ∧
      ∃ disk', prepare faults layout pid options disk = (.ok (), disk') ∧ Leaves disk disk') ∨
    ¬Prepares faults layout options ∧
      ∃ e disk', prepare faults layout pid options disk = (.error e, disk') ∧ Leaves disk disk' := by
  unfold prepare
  by_cases hfull : options.folder.head? = some '/'
  swap
  · rw [if_pos hfull]
    exact .inr ⟨fun h => hfull h.full, _, disk, rfl, .refl disk⟩
  rw [if_neg (not_not.mpr hfull)]
  rcases hcreate : faults.fails .createDir with _ | _
  swap
  · rw [Act.bind_of_error (must_error hcreate _ _)]
    exact .inr ⟨fun h => (by rw [h.createDir] at hcreate; cases hcreate), _, disk, rfl, Leaves.refl disk⟩
  rw [Act.bind_of_ok (must_ok hcreate _ _)]
  by_cases hstop : layout.sandbox = true ∨ faults.fails .stopApp = false
  swap
  · obtain ⟨hreal, hfails⟩ := not_or.mp hstop
    rw [if_neg hreal, Act.bind_of_error (must_error (eq_true_of_ne_false hfails) _ _)]
    exact .inr ⟨fun h => hstop h.stopApp, _, disk, rfl, .refl disk⟩
  have hstopped : (if layout.sandbox then pure () else must faults .stopApp id id : Call α Unit) (id disk) =
      (.ok (), disk) := by
    split
    · rfl
    · next hreal => exact must_ok (hstop.resolve_left hreal) _ _
  obtain ⟨disk₁, hclear, hleaves⟩ := attempt_ok faults disk .clearStaging
    (f := fun disk => { disk with incoming := none }) fun _ => ⟨rfl, rfl, rfl⟩
  rw [Act.bind_of_ok hstopped, Act.bind_of_ok hclear]
  rcases hstaging : faults.fails .createStaging with _ | _
  · exact .inl ⟨⟨hfull, hcreate, hstop, hstaging⟩, disk₁, must_ok hstaging _ _, hleaves⟩
  · exact .inr ⟨fun h => (by rw [h.createStaging] at hstaging; cases hstaging), _, disk₁, must_error hstaging _ _,
      hleaves⟩

def Unpacks (faults : Faults α) (payload : Option α) (a : α) : Prop := payload = some a ∧ faults.fails .unpack = false

theorem unpack_ok (h : faults.fails .unpack = false) :
    unpack faults (some a) disk = (.ok (), { disk with incoming := some (.app a) }) := by
  rw [unpack, h]
  rfl

theorem unpack_error (disk : Disk α) {payload : Option α} (h : ∀ a, ¬Unpacks faults payload a) :
    ∃ e disk', unpack faults payload disk = (.error e, disk') ∧ Leaves disk disk' := by
  unfold unpack
  cases payload with
  | none => exact ⟨_, _, rfl, .refl disk⟩
  | some a =>
    rcases hunpack : faults.fails .unpack with _ | _
    · exact absurd ⟨rfl, hunpack⟩ (h a)
    · exact ⟨_, _, rfl, rfl, rfl, rfl⟩

theorem andThen_of {m : Call α Unit} {r : Except Text Unit} (h : m disk = (r, disk'))
    (f : Disk α → Disk α) : andThen m f disk = (r, f disk') := by
  rw [andThen, h]

theorem place_cases (faults : Faults α) (disk : Disk α) (layout : Layout) (payload : Option α) (options : Options) :
    (∃ a disk', Unpacks faults payload a ∧ Swaps faults disk a ∧
      place faults layout payload options disk = (.ok (), disk') ∧ disk'.target = some (.app a) ∧
        disk'.state = disk.state) ∨
    ∃ e disk', place faults layout payload options disk = (.error e, disk') ∧ disk'.state = disk.state ∧
      (∀ a, ¬(Unpacks faults payload a ∧ Swaps faults disk a)) ∧
      ((∃ a, Unpacks faults payload a) ∧ Strands faults disk ∧ disk'.target = none ∨
        ¬((∃ a, Unpacks faults payload a) ∧ Strands faults disk) ∧ disk'.target = disk.target) := by
  unfold place
  by_cases hunpacks : ∃ a, Unpacks faults payload a
  swap
  · obtain ⟨e, disk', hunpack, hleaves⟩ := unpack_error disk (not_exists.mp hunpacks)
    refine .inr ⟨e, _, andThen_of (Act.bind_of_error hunpack) _, hleaves.state, fun a h => hunpacks ⟨a, h.1⟩,
      .inr ⟨fun h => hunpacks h.1, hleaves.target⟩⟩
  obtain ⟨a, rfl, hunpack⟩ := hunpacks
  have hleaves : Leaves disk { disk with incoming := some (.app a) } := ⟨rfl, rfl, rfl⟩
  rcases @swapIn_cases _ faults { disk with incoming := some (.app a) } (appPath layout options) a rfl with
    ⟨disk', hswap, htarget, hstate, hswaps⟩ | ⟨e, disk', hswap, hstate, hnot, htarget⟩
  · exact .inl ⟨a, _, ⟨rfl, hunpack⟩, hleaves.swaps.mp hswaps,
      andThen_of ((Act.bind_of_ok (unpack_ok hunpack)).trans hswap) _, htarget, hstate⟩
  · refine .inr ⟨e, _, andThen_of ((Act.bind_of_ok (unpack_ok hunpack)).trans hswap) _, hstate, ?_, ?_⟩
    · rintro b ⟨hb, hswaps⟩
      cases hb.1
      exact hnot (hleaves.swaps.mpr hswaps)
    · rcases htarget with ⟨hstrands, hnone⟩ | ⟨hnot', hsame⟩
      · exact .inl ⟨⟨a, rfl, hunpack⟩, hleaves.strands.mp hstrands, hnone⟩
      · exact .inr ⟨fun h => hnot' (hleaves.strands.mpr h.2), hsame⟩

/-! ## What is left -/

section Cases

variable (faults disk) (layout : Layout) (pid : Text) (payload : Option α) (options : Options) (version : Text)

/-- The old app is gone from its place, and no new one is there. -/
def Stranded : Prop :=
  Prepares faults layout options ∧ (∃ a, Unpacks faults payload a) ∧ Strands faults disk

def Replaced (a : α) : Prop := Prepares faults layout options ∧ Unpacks faults payload a ∧ Swaps faults disk a

def Finishes : Prop :=
  (∃ a, Replaced faults disk layout payload options a) ∧ MakesShortcuts faults layout ∧ Registers faults

def CutsShort : Prop := MakesShortcuts faults layout ∧ CutsRecord faults

/-- What an install that fails leaves. -/
inductive Left (disk' : Disk α) : Prop where
  | old (target : disk'.target = disk.target) (state : disk'.state = disk.state)
      (hstranded : ¬Stranded faults disk layout payload options)
      (hreplaced : ∀ a, ¬Replaced faults disk layout payload options a)
  | nothing (target : disk'.target = none) (hstranded : Stranded faults disk layout payload options)
      (hreplaced : ∀ a, ¬Replaced faults disk layout payload options a)
  | new (a : α) (target : disk'.target = some (.app a)) (hreplaced : Replaced faults disk layout payload options a)
      (hstranded : ¬Stranded faults disk layout payload options)
      (state : CutsShort faults layout ∧ disk'.state = some .unreadable ∨
        ¬CutsShort faults layout ∧ disk'.state = disk.state)

theorem not_stranded_of_replaced {a : α} (h : Replaced faults disk layout payload options a) :
    ¬Stranded faults disk layout payload options := by
  intro hstranded
  have hin := hstranded.2.2.2.1
  rw [h.2.2.1] at hin
  cases hin

theorem install_cases :
    (Finishes faults disk layout payload options ∧
      ∃ disk', install faults layout pid payload options version disk = (.ok (), disk')) ∨
    ¬Finishes faults disk layout payload options ∧
      ∃ e disk', install faults layout pid payload options version disk = (.error e, disk') ∧
        Left faults disk layout payload options disk' := by
  unfold install
  rcases prepare_cases faults disk layout pid options with ⟨hprepares, disk₁, hprepare, hleaves⟩ |
    ⟨hnot, e, disk₁, hprepare, hleaves⟩
  swap
  · refine .inr ⟨fun h => h.1.elim fun a ha => hnot ha.1, e, disk₁, Act.bind_of_error hprepare, ?_⟩
    exact .old hleaves.target hleaves.state (fun h => hnot h.1) fun a h => hnot h.1
  rw [Act.bind_of_ok hprepare]
  rcases place_cases faults disk₁ layout payload options with ⟨a, disk₂, hunpacks, hswaps, hplace, htarget, hstate⟩ |
    ⟨e, disk₂, hplace, hstate, hnot, htarget⟩
  swap
  · have hreplaced : ∀ a, ¬Replaced faults disk layout payload options a :=
      fun a h => hnot a ⟨h.2.1, hleaves.swaps.mpr h.2.2⟩
    refine .inr ⟨fun h => h.1.elim hreplaced, e, disk₂, Act.bind_of_error hplace, ?_⟩
    rcases htarget with ⟨hunpacks, hstrands, hnone⟩ | ⟨hstay, hsame⟩
    · exact .nothing hnone ⟨hprepares, hunpacks, hleaves.strands.mp hstrands⟩ hreplaced
    · exact .old (hsame.trans hleaves.target) (hstate.trans hleaves.state)
        (fun h => hstay ⟨h.2.1, hleaves.strands.mpr h.2.2⟩) hreplaced
  rw [Act.bind_of_ok hplace]
  have hreplaced : Replaced faults disk layout payload options a := ⟨hprepares, hunpacks, hleaves.swaps.mp hswaps⟩
  have hstranded := not_stranded_of_replaced faults disk layout payload options hreplaced
  have hthere : isThere disk₂.target = true := by rw [htarget]; rfl
  rcases shortcuts_cases layout options (appPath layout options) hthere with ⟨hmakes, disk₃, hshortcuts, hleaves'⟩ |
    ⟨hnot, e, disk₃, hshortcuts, hleaves'⟩
  swap
  · refine .inr ⟨fun h => hnot h.2.1, e, disk₃, Act.bind_of_error hshortcuts, ?_⟩
    exact .new a (hleaves'.target.trans htarget) hreplaced hstranded
      (.inr ⟨fun h => hnot h.1, hleaves'.state.trans (hstate.trans hleaves.state)⟩)
  rw [Act.bind_of_ok hshortcuts]
  rcases register_cases faults disk₃ layout ⟨options.folder, version, options.desktopShortcut⟩ with
    ⟨hregisters, disk₄, hregister⟩ | ⟨hnot, e, disk₄, hregister, htarget', hstate'⟩
  · exact .inl ⟨⟨⟨a, hreplaced⟩, hmakes, hregisters⟩, disk₄, hregister⟩
  · refine .inr ⟨fun h => hnot h.2.2, e, disk₄, hregister, ?_⟩
    refine .new a (htarget'.trans (hleaves'.target.trans htarget)) hreplaced hstranded ?_
    rcases hstate' with ⟨hcut, hunreadable⟩ | ⟨hcut, hsame⟩
    · exact .inl ⟨⟨hmakes, hcut⟩, hunreadable⟩
    · exact .inr ⟨fun h => hcut h.2, hsame.trans (hleaves'.state.trans (hstate.trans hleaves.state))⟩

end Cases

end Outcome

/-! ## A working app and a true record -/

section True

variable [SemVer] {α : Type} (versionOf : α → Text) (layout : Layout) (folders : Folders)

/-- What the record says of the picked folder holds of the app there. -/
def TrueRecord (disk : Disk α) : Prop :=
  ∀ record, disk.record = some record → folders.leadsHere record.dir = true → isThere disk.target = true →
    (appAt disk.target).map versionOf = some record.version

/-- After a failed install there is a working app where one was, a version that is reported is that of the app, and no
older update is let through. -/
structure Sound (payload : Option α) (before after : Disk α) : Prop where
  working : appAt before.target ≠ none →
    after.target = before.target ∨ ∃ a, payload = some a ∧ after.target = some (.app a)
  truthful : ∀ i v, installed layout folders after = some i → folders.leadsHere i.dir = true → i.version = some v →
    (appAt after.target).map versionOf = some v
  notOlder : ∀ faults pid setup options update a v u,
    (∀ i, installed layout folders after = some i → folders.leadsHere i.dir = true) →
    appAt after.target = some a → SemVer.parse (versionOf a).trim = some v →
    SemVer.parse update.trim = some u → SemVer.older u v = true →
    ∃ e, command faults layout folders pid setup options update true after = (.error e, after)

variable {versionOf layout folders}

omit [SemVer] in
theorem truthful_iff {disk : Disk α} :
    (∀ i v, installed layout folders disk = some i → folders.leadsHere i.dir = true → i.version = some v →
      (appAt disk.target).map versionOf = some v) ↔ TrueRecord versionOf folders disk := by
  constructor
  · intro h record hrecord hhere hthere
    refine h ⟨record.dir, some record.version⟩ record.version ?_ hhere rfl
    rw [installed, hrecord]
    exact if_pos (by rw [Disk.hasApp, if_pos hhere, hthere])
  · intro h i v hi hhere hv
    have hbyHand : ∀ {j}, disk.byHand layout folders = some j → j.version = none := by
      intro j hj
      unfold Disk.byHand at hj
      split at hj
      · rw [← Option.some.inj hj]
      · cases hj
    unfold installed at hi
    split at hi
    · next record hrecord =>
      split at hi
      · next happ =>
        cases hi
        cases hv
        rw [Disk.hasApp, if_pos hhere] at happ
        exact h record hrecord hhere happ
      · rw [hbyHand hi] at hv
        cases hv
    · rw [hbyHand hi] at hv
      cases hv

theorem older_of_checkNotOlder {version : Option Text} {update : Text} (h : checkNotOlder version update = .ok ()) : ∃
    text v u, version = some text ∧ SemVer.parse text.trim = some v ∧ SemVer.parse update.trim = some u ∧ SemVer.older
    u v = false := by
  unfold checkNotOlder at h
  split at h
  · next v u hv hu =>
    split at h
    · cases h
    · next holder =>
      obtain ⟨text, htext, hparse⟩ := Option.bind_eq_some_iff.mp hv
      exact ⟨text, v, u, htext, hparse, hu, eq_false_of_ne_true holder⟩
  · cases h

theorem sound_iff {payload : Option α} {before after : Disk α} :
    Sound versionOf layout folders payload before after ↔
      (appAt before.target ≠ none →
        after.target = before.target ∨ ∃ a, payload = some a ∧ after.target = some (.app a)) ∧
      TrueRecord versionOf folders after := by
  constructor
  · exact fun h => ⟨h.working, truthful_iff.mp h.truthful⟩
  · rintro ⟨hworking, htrue⟩
    refine ⟨hworking, truthful_iff.mpr htrue, ?_⟩
    intro faults pid setup options update a v u hhere happ hv hu holder
    rcases hcheck : checkNotOlder ((installed layout folders after).bind Installed.version) update with e | ⟨⟩
    · refine ⟨e, ?_⟩
      rw [command, Act.get_bind, if_pos rfl, hcheck]
      rfl
    · obtain ⟨text, v', u', htext, hv', hu', hnot⟩ := older_of_checkNotOlder hcheck
      obtain ⟨i, hi, hversion⟩ := Option.bind_eq_some_iff.mp htext
      have hsame := truthful_iff.mpr htrue i text hi (hhere i hi) hversion
      rw [happ, Option.map_some, Option.some.injEq] at hsame
      rw [hsame, hv'] at hv
      rw [hu'] at hu
      rw [Option.some.inj hv, Option.some.inj hu, holder] at hnot
      cases hnot

omit [SemVer] in
theorem record_congr {disk disk' : Disk α} (h : disk'.state = disk.state) : disk'.record = disk.record := by
  rw [Disk.record, Disk.record, h]

/-- A failing install does no harm: it strands no app; where the new app came in its place, the record was cut, is about
another folder or says the new version already; and where nothing changed, it was true before. -/
def Harmless (versionOf : α → Text) (faults : Faults α) (layout : Layout) (folders : Folders) (payload : Option α)
    (options : Options) (disk : Disk α) : Prop :=
  (Stranded faults disk layout payload options → appAt disk.target = none) ∧
    (∀ a, Replaced faults disk layout payload options a → CutsShort faults layout ∨
      ∀ record, disk.record = some record → folders.leadsHere record.dir = true → versionOf a = record.version) ∧
    (¬Stranded faults disk layout payload options → (∀ a, ¬Replaced faults disk layout payload options a) →
      TrueRecord versionOf folders disk)

/-- **A failed install leaves a working app and a true record just where it does no harm.** -/
theorem failed_install_sound (versionOf : α → Text) (faults : Faults α) (layout : Layout) (folders : Folders) (pid : Text)
    (payload : Option α) (options : Options) (version : Text) (disk : Disk α) :
    (∀ e disk', install faults layout pid payload options version disk = (.error e, disk') →
        Sound versionOf layout folders payload disk disk') ↔
      Finishes faults disk layout payload options ∨ Harmless versionOf faults layout folders payload options disk := by
  rcases install_cases faults disk layout pid payload options version with ⟨hfinishes, disk', hinstall⟩ |
    ⟨hnot, e, disk', hinstall, hleft⟩
  · refine ⟨fun _ => .inl hfinishes, fun _ e disk₂ herror => ?_⟩
    rw [hinstall] at herror
    cases herror
  have hsound : (∀ e disk', install faults layout pid payload options version disk = (.error e, disk') →
      Sound versionOf layout folders payload disk disk') ↔ Sound versionOf layout folders payload disk disk' := by
    refine ⟨fun h => h e disk' hinstall, fun h e₂ disk₂ herror => ?_⟩
    rw [hinstall] at herror
    rwa [← (Prod.mk.inj herror).2]
  rw [hsound, sound_iff, or_iff_right hnot]
  cases hleft with
  | old htarget hstate hstranded hreplaced =>
    have htrue : TrueRecord versionOf folders disk' ↔ TrueRecord versionOf folders disk := by
      simp only [TrueRecord, record_congr hstate, htarget]
    rw [htrue]
    exact ⟨fun h => ⟨fun h' => absurd h' hstranded, fun a ha => absurd ha (hreplaced a), fun _ _ => h.2⟩,
      fun h => ⟨fun _ => .inl htarget, h.2.2 hstranded hreplaced⟩⟩
  | nothing htarget hstranded hreplaced =>
    constructor
    · rintro ⟨hworking, -⟩
      refine ⟨fun _ => ?_, fun a ha => absurd ha (hreplaced a), fun h => absurd hstranded h⟩
      by_contra happ
      rcases hworking happ with hsame | ⟨a, -, hnew⟩
      · rw [← hsame, htarget] at happ
        exact happ rfl
      · rw [htarget] at hnew
        cases hnew
    · rintro ⟨happ, -⟩
      refine ⟨fun h => absurd (happ hstranded) h, fun record _ _ hthere => ?_⟩
      rw [htarget] at hthere
      cases hthere
  | new a htarget hreplaced hstranded hstate =>
    have hpayload : payload = some a := hreplaced.2.1.1
    have hworking : appAt disk.target ≠ none →
        disk'.target = disk.target ∨ ∃ a, payload = some a ∧ disk'.target = some (.app a) :=
      fun _ => .inr ⟨a, hpayload, htarget⟩
    have honly : ∀ {b}, Replaced faults disk layout payload options b → b = a := by
      intro b hb
      exact Option.some.inj (hb.2.1.1.symm.trans hpayload)
    rcases hstate with ⟨hcut, hstate⟩ | ⟨hcut, hstate⟩
    · refine ⟨fun _ => ⟨fun h => absurd h hstranded, fun _ _ => .inl hcut, fun _ h => absurd hreplaced (h a)⟩,
        fun _ => ⟨hworking, fun record hrecord => ?_⟩⟩
      rw [Disk.record, hstate] at hrecord
      cases hrecord
    · have htrue : TrueRecord versionOf folders disk' ↔
          ∀ record, disk.record = some record → folders.leadsHere record.dir = true → versionOf a = record.version := by
        simp only [TrueRecord, record_congr hstate, htarget, appAt, isThere, Option.map_some, Option.some.injEq,
          forall_const]
      rw [htrue]
      constructor
      · rintro ⟨-, h⟩
        exact ⟨fun h' => absurd h' hstranded, fun b hb => .inr (honly hb ▸ h), fun _ h' => absurd hreplaced (h' a)⟩
      · rintro ⟨-, h, -⟩
        exact ⟨hworking, (h a hreplaced).resolve_left hcut⟩

end True

/-! ## Two installs that do harm -/

/-- Versions of three digits. -/
@[reducible]
def plainVersions : SemVer where
  Version := ℕ × ℕ × ℕ
  parse
    | [a, '.', b, '.', c] =>
      if a.isDigit && b.isDigit && c.isDigit then some (a.toNat - 48, b.toNat - 48, c.toNat - 48) else none
    | _ => none
  older u v := u.1 < v.1 || u.1 = v.1 && (u.2.1 < v.2.1 || u.2.1 = v.2.1 && u.2.2 < v.2.2)
  display v := Text.ofNat v.1 ++ '.' :: Text.ofNat v.2.1 ++ '.' :: Text.ofNat v.2.2

def plainLayout : Layout where
  os := .linux
  defaultDir := "/home/ann/.local/share/uwurdp".toList
  stateDir := "/home/ann/.config/app.uwurdp.setup".toList
  state := "/home/ann/.config/app.uwurdp.setup/install.json".toList
  applications := "/home/ann/.local/share/applications".toList
  desktop := "/home/ann/Desktop".toList
  sandbox := false

def onlyHere : Folders := ⟨fun dir => dir = plainLayout.defaultDir, fun _ => false⟩

def failing (ops : List Op) : Faults Text := ⟨fun op => op ∈ ops, fun _ => [], fun _ => none, fun _ => false⟩

def onDisk : Disk Text where
  target := some (.app "1.0.0".toList)
  aside := none
  incoming := none
  menuEntry := none
  desktopEntry := none
  state := some (.record ⟨plainLayout.defaultDir, "1.0.0".toList, false⟩)

def installs (ops : List Op) : Except Text Unit × Disk Text :=
  install (failing ops) plainLayout "7".toList (some "2.0.0".toList) ⟨plainLayout.defaultDir, false⟩ "2.0.0".toList
    onDisk

/-- The menu entry fails after the new app is in its place, and the record still says the old version: 1.5.0 would
replace 2.0.0. Where moving in and moving back both fail, there is no app at all. -/
theorem failed_install_harms :
    letI := plainVersions
    (installs [.writeMenu]).1.toBool = false ∧ (installs [.writeMenu]).2.target = some (.app "2.0.0".toList) ∧
      installed plainLayout onlyHere (installs [.writeMenu]).2 = some ⟨plainLayout.defaultDir, some "1.0.0".toList⟩ ∧
      checkNotOlder (some "1.0.0".toList) "1.5.0".toList = .ok () ∧
      (installs [.moveIn, .moveBack]).1.toBool = false ∧ (installs [.moveIn, .moveBack]).2.target = none := by
  let _ := plainVersions
  exact ⟨by decide +kernel, by decide +kernel, by decide +kernel, by decide +kernel, by decide +kernel,
    by decide +kernel⟩

end Setup

end UwuRdp
