import UwuRdp.Lib.Table

/-!
# A tree of files

Folders, files and symbolic links, each at one place. Following a path replaces every link on the
way by its target, an absolute one from the root of the tree and a relative one from the folder the
link is in, so what a path leads to depends on where its links are. Opening, reading and listing
follow a path to its end; renaming and removing follow it to its last folder and take the entry there,
be it a link.
-/

namespace Lib

/-- A step of a path on its way. -/
inductive Step (ν : Type) where
  | into (name : ν)
  | up
deriving DecidableEq

/-- What is at a place: every one has a number of its own. -/
inductive Entry (ν : Type) where
  | dir (id : ℕ)
  | file (id : ℕ)
  | link (id : ℕ) (absolute : Bool) (target : List (Step ν))
deriving DecidableEq

def Entry.id {ν : Type} : Entry ν → ℕ
  | dir id | file id | link id _ _ => id

def Entry.isDir {ν : Type} : Entry ν → Bool
  | dir _ => true
  | _ => false

/-- Why an operation on the tree fails. -/
inductive FileError where
  | notFound
  | alreadyExists
  | notADirectory
  | isADirectory
  | directoryNotEmpty
  | invalidInput
  | permissionDenied
  | tooManyLinks
  | busy
deriving DecidableEq

/-- The entries by their places, what else is known of each, and the next number. -/
structure FileTree (ν δ : Type) where
  entries : Table (List ν) (Entry ν)
  data : ℕ → δ
  next : ℕ

def Under {ν : Type} (top place : List ν) : Prop := top <+: place

instance {ν : Type} [DecidableEq ν] (top place : List ν) : Decidable (Under top place) :=
  inferInstanceAs (Decidable (top <+: place))

namespace Under

variable {ν : Type} {a b c : List ν}

theorem refl (a : List ν) : Under a a := List.prefix_rfl

theorem trans (h : Under a b) (h' : Under b c) : Under a c := List.IsPrefix.trans h h'

theorem append (a b : List ν) : Under a (a ++ b) := List.prefix_append a b

theorem antisymm (h : Under a b) (h' : Under b a) : a = b :=
  h.eq_of_length (Nat.le_antisymm h.length_le h'.length_le)

theorem of_concat {n : ν} (h : Under a (b ++ [n])) : a = b ++ [n] ∨ Under a b :=
  List.prefix_concat_iff.mp h

end Under

namespace FileTree

variable {ν δ : Type} [DecidableEq ν] (t : FileTree ν δ)

/-- What is at a place. The root of the tree is a folder. -/
def entry (place : List ν) : Option (Entry ν) :=
  if place = [] then some (.dir 0) else t.entries.get? place

/-! ## Following a path -/

/-- Follow the rest of a path from a folder, with a way to go on at a link. -/
def walkWith (follow : List ν → List (Step ν) → Except FileError (List ν)) :
    List ν → List (Step ν) → Except FileError (List ν)
  | place, [] => .ok place
  | place, .up :: rest => walkWith follow place.dropLast rest
  | place, .into name :: rest =>
    match t.entry (place ++ [name]) with
    | none => .error .notFound
    | some (.dir _) => walkWith follow (place ++ [name]) rest
    | some (.file _) => if rest = [] then .ok (place ++ [name]) else .error .notADirectory
    | some (.link _ absolute target) => follow (if absolute then [] else place) (target ++ rest)

def walk : ℕ → List ν → List (Step ν) → Except FileError (List ν)
  | 0 => t.walkWith fun _ _ => .error .tooManyLinks
  | links + 1 => t.walkWith (walk links)

def maxLinks : ℕ := 40

def canonicalize (path : List ν) : Except FileError (List ν) := t.walk maxLinks [] (path.map .into)

/-- The place of the entry a path names: a link at its end is not followed. -/
def locate (path : List ν) : Except FileError (List ν) :=
  match path.getLast? with
  | none => .ok []
  | some name =>
    match t.canonicalize path.dropLast with
    | .error e => .error e
    | .ok folder =>
      match t.entry folder with
      | some (.dir _) => .ok (folder ++ [name])
      | _ => .error .notADirectory

/-! ## Operations -/

def metadata (path : List ν) : Except FileError (List ν × Entry ν) :=
  match t.canonicalize path with
  | .error e => .error e
  | .ok place =>
    match t.entry place with
    | none => .error .notFound
    | some e => .ok (place, e)

def symlinkMetadata (path : List ν) : Except FileError (List ν × Entry ν) :=
  match t.locate path with
  | .error e => .error e
  | .ok place =>
    match t.entry place with
    | none => .error .notFound
    | some e => .ok (place, e)

def children (folder : List ν) : List ν :=
  (t.entries.select fun place _ => place ≠ [] ∧ place.dropLast = folder).filterMap fun e => e.1.getLast?

/-- The names in the folder a path leads to, and where that is. -/
def readDir (path : List ν) : Except FileError (List ν × List ν) :=
  match t.metadata path with
  | .error e => .error e
  | .ok (place, .dir _) => .ok (place, t.children place)
  | .ok _ => .error .notADirectory

def empty (d : δ) : FileTree ν δ := ⟨.empty, fun _ => d, 1⟩

def add (place : List ν) (make : ℕ → Entry ν) (d : δ) : FileTree ν δ where
  entries := t.entries.set place (make t.next)
  data := Function.update t.data t.next d
  next := t.next + 1

def create (path : List ν) (make : ℕ → Entry ν) (d : δ) : Except FileError (List ν × FileTree ν δ) :=
  match t.locate path with
  | .error e => .error e
  | .ok place =>
    match t.entry place with
    | some _ => .error .alreadyExists
    | none => .ok (place, t.add place make d)

def remove (place : List ν) : FileTree ν δ := { t with entries := t.entries.erase place }

def removeFile (path : List ν) : Except FileError (List ν × FileTree ν δ) :=
  match t.symlinkMetadata path with
  | .error e => .error e
  | .ok (_, .dir _) => .error .isADirectory
  | .ok (place, _) => .ok (place, t.remove place)

def removeDir (path : List ν) : Except FileError (List ν × FileTree ν δ) :=
  match t.symlinkMetadata path with
  | .error e => .error e
  | .ok (place, .dir _) =>
    if place = [] then .error .busy
    else if t.children place = [] then .ok (place, t.remove place) else .error .directoryNotEmpty
  | .ok _ => .error .notADirectory

/-- Where what is at a place goes when everything at `old` moves to `new`. -/
def movedTo (old new place : List ν) : Option (List ν) :=
  if Under old place then some (new ++ place.drop old.length)
  else if Under new place then none
  else some place

def move (old new : List ν) : FileTree ν δ := { t with entries := t.entries.rekey (movedTo old new) }

/-- Whether an entry may take the place of another one. -/
def replaces (e : Entry ν) (new : List ν) : Except FileError Unit :=
  match e, t.entry new with
  | _, none => .ok ()
  | .dir _, some (.dir _) => if t.children new = [] then .ok () else .error .directoryNotEmpty
  | .dir _, some _ => .error .notADirectory
  | _, some (.dir _) => .error .isADirectory
  | _, some _ => .ok ()

def rename (oldPath newPath : List ν) : Except FileError (List ν × List ν × FileTree ν δ) :=
  match t.symlinkMetadata oldPath, t.locate newPath with
  | .error e, _ => .error e
  | _, .error e => .error e
  | .ok (old, e), .ok new =>
    if old = new then .ok (old, new, t)
    else if old = [] ∨ new = [] then .error .busy
    else if Under old new then .error .invalidInput
    else
      match t.replaces e new with
      | .error e => .error e
      | .ok () => .ok (old, new, t.move old new)

def placesOf (id : ℕ) : List (List ν) :=
  (if id = 0 then [[]] else []) ++
    (t.entries.select fun place e => decide (place ≠ [] ∧ e.id = id)).map Prod.fst

/-! ## Where a path leads -/

variable {t} {a b p q r old new path place : List ν} {n : ν} {e : Entry ν} {k : ℕ}

@[simp] theorem entry_nil : t.entry [] = some (.dir 0) := if_pos rfl

theorem entry_of_ne (h : p ≠ []) : t.entry p = t.entries.get? p := if_neg h

theorem entry_concat (p : List ν) (n : ν) : t.entry (p ++ [n]) = t.entries.get? (p ++ [n]) :=
  entry_of_ne (by simp)

variable (t) in
/-- Everything above a place is a folder, so no link is on the way. -/
def Solid (p : List ν) : Prop := ∀ q, Under q p → q ≠ p → ∃ id, t.entry q = some (.dir id)

variable (t) in
def Folder (p : List ν) : Prop := Solid t p ∧ ∃ id, t.entry p = some (.dir id)

variable (t) in
/-- A place a path may lead to: a folder or a file, with folders above. -/
def Real (p : List ν) : Prop := Solid t p ∧ ∃ id, t.entry p = some (.dir id) ∨ t.entry p = some (.file id)

theorem Folder.real (h : Folder t p) : Real t p := ⟨h.1, h.2.imp fun _ => Or.inl⟩

theorem folder_nil : Folder t ([] : List ν) :=
  ⟨fun _ hq hne => absurd (List.prefix_nil.mp hq) hne, 0, entry_nil⟩

theorem solid_concat : Solid t (p ++ [n]) ↔ Folder t p := by
  constructor
  · intro h
    refine ⟨fun q hq hne => h q (hq.trans (.append p [n])) fun heq => ?_, h p (.append p [n]) (by simp)⟩
    subst heq
    have hlen := List.IsPrefix.length_le hq
    rw [List.length_append, List.length_singleton] at hlen
    omega
  · intro h q hq hne
    rcases hq.of_concat with heq | hq
    · exact absurd heq hne
    · by_cases hqp : q = p
      · exact hqp ▸ h.2
      · exact h.1 q hq hqp

theorem Solid.above (h : Solid t p) (hq : Under q p) : Solid t q := fun r hr hne =>
  h r (hr.trans hq) fun hrp => hne (hr.antisymm (hrp ▸ hq))

theorem Folder.above (h : Solid t p) (hq : Under q p) (hne : q ≠ p) : Folder t q :=
  ⟨h.above hq, h q hq hne⟩

theorem Folder.dropLast (h : Folder t p) : Folder t p.dropLast := by
  by_cases hp : p = []
  · rw [hp]
    exact folder_nil
  · refine Folder.above h.1 (List.dropLast_prefix p) fun heq => ?_
    have hlen := congrArg List.length heq
    rw [List.length_dropLast] at hlen
    have := List.length_pos_iff.mpr hp
    omega

variable {follow : List ν → List (Step ν) → Except FileError (List ν)} {steps : List (Step ν)} {make : ℕ → Entry ν}

theorem walkWith_data (d : ℕ → δ)
    (p : List ν) (steps : List (Step ν)) :
    ({ t with data := d } : FileTree ν δ).walkWith follow p steps = t.walkWith follow p steps := by
  induction steps generalizing p with
  | nil => rfl
  | cons step steps ih =>
    cases step with
    | up => exact ih p.dropLast
    | into name =>
      unfold walkWith
      rw [show ({ t with data := d } : FileTree ν δ).entry (p ++ [name]) = t.entry (p ++ [name]) from rfl]
      split
      · rfl
      · exact ih _
      · rfl
      · rfl

theorem walk_data (d : ℕ → δ) (p : List ν) (steps : List (Step ν)) :
    ({ t with data := d } : FileTree ν δ).walk k p steps = t.walk k p steps := by
  induction k generalizing p steps with
  | zero => exact walkWith_data d p steps
  | succ k ih =>
    have hfollow : ({ t with data := d } : FileTree ν δ).walk k = t.walk k := funext₂ ih
    unfold walk
    rw [hfollow]
    exact walkWith_data d p steps

theorem canonicalize_data (d : ℕ → δ) (path : List ν) :
    ({ t with data := d } : FileTree ν δ).canonicalize path = t.canonicalize path := walk_data d [] _

theorem walkWith_real (hfollow : ∀ p steps q, Folder t p → follow p steps = .ok q → Real t q) (hp : Folder t p)
    (h : t.walkWith follow p steps = .ok q) : Real t q := by
  induction steps generalizing p with
  | nil =>
    cases h
    exact hp.real
  | cons s steps ih =>
    cases s with
    | up => exact ih hp.dropLast h
    | into n =>
      unfold walkWith at h
      split at h
      · cases h
      · next id hid => exact ih ⟨solid_concat.mpr hp, id, hid⟩ h
      · next id hid =>
        split at h
        · cases h
          exact ⟨solid_concat.mpr hp, id, .inr hid⟩
        · cases h
      · next id absolute target hid =>
        refine hfollow _ _ q ?_ h
        split
        · exact folder_nil
        · exact hp

theorem walk_real (hp : Folder t p) (h : t.walk k p steps = .ok q) : Real t q := by
  induction k generalizing p steps q with
  | zero => exact walkWith_real (fun _ _ _ _ h => by cases h) hp h
  | succ k ih => exact walkWith_real (fun p steps q hp h => ih hp h) hp h

theorem canonicalize_real (h : t.canonicalize path = .ok p) : Real t p := walk_real folder_nil h

theorem walk_folders {steps : List (Step ν)} (h : Folder t (p ++ q)) :
    t.walk k p (q.map .into ++ steps) = t.walk k (p ++ q) steps := by
  induction q generalizing p with
  | nil => rw [List.append_nil]; rfl
  | cons n q ih =>
    have hn : Folder t (p ++ [n]) := by
      by_cases hq : q = []
      · exact hq ▸ h
      · refine Folder.above h.1 ⟨q, by simp⟩ fun heq => hq ?_
        simpa using heq
    obtain ⟨id, hid⟩ := hn.2
    have h' : Folder t (p ++ [n] ++ q) := by simpa using h
    have hstep : t.walk k p ((n :: q).map .into ++ steps) = t.walk k (p ++ [n]) (q.map .into ++ steps) := by
      cases k with
      | zero | succ k =>
        show t.walkWith _ p (.into n :: (q.map .into ++ steps)) = _
        rw [walkWith, hid]
        rfl
    rw [hstep, ih h', List.append_assoc, List.singleton_append]

theorem Folder.canonicalize (h : Folder t p) : t.canonicalize p = .ok p := by
  have hw := @walk_folders _ _ _ t [] p maxLinks [] h
  rw [List.append_nil, List.nil_append] at hw
  exact hw.trans (by cases maxLinks <;> rfl)

theorem entry_of_canonicalize (h : Folder t p) (hq : t.canonicalize (p ++ n :: b) = .ok q) :
    t.entry (p ++ [n]) ≠ none := by
  intro hnone
  unfold FileTree.canonicalize at hq
  rw [List.map_append, show (p.map Step.into ++ (n :: b).map Step.into) =
    p.map Step.into ++ (.into n :: b.map .into) from rfl, walk_folders (p := []) (q := p) h] at hq
  have herror : t.walk maxLinks ([] ++ p) (.into n :: b.map .into) = .error .notFound := by
    show t.walkWith _ p (.into n :: b.map .into) = _
    rw [walkWith, hnone]
  cases hq.symm.trans herror

theorem locate_eq_ok (h : t.locate path = .ok p) : path = [] ∧ p = [] ∨ ∃ folder n, path = path.dropLast ++ [n] ∧ p =
    folder ++ [n] ∧ t.canonicalize path.dropLast = .ok folder ∧ Folder t folder := by
  unfold locate at h
  split at h
  · next hlast =>
    cases h
    exact .inl ⟨List.getLast?_eq_none_iff.mp hlast, rfl⟩
  · next n hlast =>
    split at h
    · cases h
    · next folder hfolder =>
      split at h
      · next id hid =>
        cases h
        refine .inr ⟨folder, n, ?_, rfl, hfolder, (canonicalize_real hfolder).1, id, hid⟩
        exact (List.dropLast_append_getLast? n hlast).symm
      · cases h

theorem metadata_eq_ok (h : t.metadata path = .ok (p, e)) : t.canonicalize path = .ok p ∧ t.entry p = some e := by
  unfold metadata at h
  split at h
  · cases h
  · next place hplace =>
    split at h
    · cases h
    · next e' he =>
      cases h
      exact ⟨hplace, he⟩

theorem symlinkMetadata_eq_ok (h : t.symlinkMetadata path = .ok (p, e)) :
    t.locate path = .ok p ∧ t.entry p = some e := by
  unfold symlinkMetadata at h
  split at h
  · cases h
  · next place hplace =>
    split at h
    · cases h
    · next e' he =>
      cases h
      exact ⟨hplace, he⟩

theorem metadata_error {error : FileError} (h : t.metadata path = .error error) :
    t.canonicalize path = .error error := by
  unfold metadata at h
  split at h
  · next e he =>
    cases h
    exact he
  · next place hplace =>
    obtain ⟨-, id, hid | hid⟩ := canonicalize_real hplace <;> rw [hid] at h <;> cases h

theorem mem_children (h : t.entry (p ++ [n]) = some e) : n ∈ t.children p := by
  rw [entry_concat] at h
  refine List.mem_filterMap.mpr ⟨(p ++ [n], e), ?_, by simp⟩
  exact Table.mem_select.mpr ⟨h, by simp⟩

theorem mem_children_iff : n ∈ t.children p ↔ ∃ e, t.entry (p ++ [n]) = some e := by
  refine ⟨fun h => ?_, fun ⟨_, he⟩ => mem_children he⟩
  obtain ⟨⟨place, e⟩, hm, hlast⟩ := List.mem_filterMap.mp h
  obtain ⟨he, hin⟩ := Table.mem_select.mp hm
  obtain ⟨-, hp⟩ := of_decide_eq_true hin
  have hplace : place = p ++ [n] := by rw [← hp, List.dropLast_append_getLast? n hlast]
  rw [entry_concat]
  exact ⟨e, hplace ▸ he⟩

theorem nodup_children (t : FileTree ν δ) (p : List ν) : (t.children p).Nodup := by
  have hkeys := t.entries.nodup_select fun place _ => place ≠ [] ∧ place.dropLast = p
  rw [List.Nodup, List.pairwise_map] at hkeys
  unfold children
  rw [List.Nodup, List.pairwise_filterMap]
  refine hkeys.imp_of_mem fun {x y} hx hy hne n hn m hm hnm => hne ?_
  obtain ⟨-, hxin⟩ := Table.mem_select.mp hx
  obtain ⟨-, hyin⟩ := Table.mem_select.mp hy
  have hx' := List.dropLast_append_getLast? n hn
  have hy' := List.dropLast_append_getLast? m hm
  rw [(of_decide_eq_true hxin).2] at hx'
  rw [(of_decide_eq_true hyin).2] at hy'
  rw [← hx', ← hy', hnm]

theorem children_ne_nil (h : Solid t q) (hp : Under p q) (hne : p ≠ q) (hq : t.entry q ≠ none) :
    t.children p ≠ [] := by
  obtain ⟨rest, rfl⟩ := hp
  cases rest with
  | nil => exact absurd (List.append_nil p).symm hne
  | cons n rest =>
    have hn : ∃ e, t.entry (p ++ [n]) = some e := by
      by_cases hrest : rest = []
      · rw [hrest] at hq
        exact Option.ne_none_iff_exists'.mp hq
      · obtain ⟨id, hid⟩ := h (p ++ [n]) ⟨rest, by simp⟩ (by simpa using hrest)
        exact ⟨_, hid⟩
    obtain ⟨e, he⟩ := hn
    exact List.ne_nil_of_mem (mem_children he)

theorem mem_placesOf {id : ℕ} : p ∈ t.placesOf id ↔ ∃ e, t.entry p = some e ∧ e.id = id := by
  unfold placesOf
  rw [List.mem_append, Table.mem_keys_select]
  by_cases hp : p = []
  · subst hp
    rw [entry_nil]
    constructor
    · rintro (h | ⟨e, -, he⟩)
      · split at h
        · next hid => exact ⟨_, rfl, hid.symm⟩
        · cases h
      · exact absurd rfl (of_decide_eq_true he).1
    · rintro ⟨e, he, rfl⟩
      cases he
      exact .inl (List.mem_singleton_self _)
  · rw [entry_of_ne hp]
    constructor
    · rintro (h | ⟨e, he, hid⟩)
      · split at h
        · exact absurd (List.mem_singleton.mp h) hp
        · cases h
      · exact ⟨e, he, (of_decide_eq_true hid).2⟩
    · rintro ⟨e, he, rfl⟩
      exact .inr ⟨e, he, decide_eq_true ⟨hp, rfl⟩⟩

/-! ## What an operation changes -/

variable {d : δ} {t' : FileTree ν δ}

theorem entry_add (hplace : place ≠ []) (p : List ν) :
    (t.add place make d).entry p = if p = place then some (make t.next) else t.entry p := by
  unfold entry add
  dsimp only
  rw [Table.get?_set]
  by_cases hp : p = []
  · rw [if_pos hp, if_neg fun h => hplace (h.symm.trans hp), if_pos hp]
  · rw [if_neg hp, if_neg hp]

theorem entry_remove (hplace : place ≠ []) (p : List ν) :
    (t.remove place).entry p = if p = place then none else t.entry p := by
  unfold entry remove
  dsimp only
  rw [Table.get?_erase]
  by_cases hp : p = []
  · rw [if_pos hp, if_neg fun h => hplace (h.symm.trans hp), if_pos hp]
  · rw [if_neg hp, if_neg hp]

theorem movedTo_eq_some (h : movedTo old new p = some q) :
    (∃ rest, p = old ++ rest ∧ q = new ++ rest) ∨ ¬Under old p ∧ ¬Under new p ∧ q = p := by
  unfold movedTo at h
  split at h
  · next hold =>
    obtain ⟨rest, rfl⟩ := hold
    rw [List.drop_left] at h
    exact .inl ⟨rest, rfl, (Option.some.inj h).symm⟩
  · next hold =>
    split at h
    · cases h
    · next hnew => exact .inr ⟨hold, hnew, (Option.some.inj h).symm⟩

theorem movedTo_inj (hp : movedTo old new p = some r) (hq : movedTo old new q = some r) : p = q := by
  rcases movedTo_eq_some hp with ⟨rest, rfl, rfl⟩ | ⟨-, hpnew, rfl⟩
  · rcases movedTo_eq_some hq with ⟨rest', rfl, hr⟩ | ⟨-, hqnew, rfl⟩
    · rw [List.append_cancel_left hr]
    · exact absurd (Under.append new rest) hqnew
  · rcases movedTo_eq_some hq with ⟨rest', rfl, rfl⟩ | ⟨-, -, rfl⟩
    · exact absurd (Under.append new rest') hpnew
    · rfl

theorem entry_move (hold : old ≠ []) (hnew : new ≠ []) :
    (t.move old new).entry p = some e ↔
      (∃ rest, p = new ++ rest ∧ t.entry (old ++ rest) = some e) ∨
        ¬Under old p ∧ ¬Under new p ∧ t.entry p = some e := by
  by_cases hp : p = []
  · subst hp
    constructor
    · intro h
      refine .inr ⟨fun h => hold (List.prefix_nil.mp h), fun h => hnew (List.prefix_nil.mp h), ?_⟩
      rw [entry_nil] at h ⊢
      exact h
    · rintro (⟨rest, hrest, -⟩ | ⟨-, -, h⟩)
      · exact absurd (List.append_eq_nil_iff.mp hrest.symm).1 hnew
      · rw [entry_nil] at h ⊢
        exact h
  · rw [entry_of_ne hp, show (t.move old new).entries = t.entries.rekey (movedTo old new) from rfl,
      Table.get?_rekey fun i j _ _ hi hj => movedTo_inj hi hj]
    constructor
    · rintro ⟨i, hi, he⟩
      rcases movedTo_eq_some hi with ⟨rest, rfl, rfl⟩ | ⟨hio, hin, rfl⟩
      · refine .inl ⟨rest, rfl, ?_⟩
        rw [entry_of_ne fun h => hold (List.append_eq_nil_iff.mp h).1]
        exact he
      · refine .inr ⟨hio, hin, ?_⟩
        rw [entry_of_ne hp]
        exact he
    · rintro (⟨rest, rfl, he⟩ | ⟨hpo, hpn, he⟩)
      · refine ⟨old ++ rest, ?_, ?_⟩
        · unfold movedTo
          rw [if_pos (Under.append old rest), List.drop_left]
        · rw [entry_of_ne fun h => hold (List.append_eq_nil_iff.mp h).1] at he
          exact he
      · refine ⟨p, ?_, ?_⟩
        · unfold movedTo
          rw [if_neg hpo, if_neg hpn]
        · rw [entry_of_ne hp] at he
          exact he

theorem create_eq_ok (h : t.create path make d = .ok (place, t')) : t.locate path = .ok place ∧
    t.entry place = none ∧ t' = t.add place make d := by
  unfold create at h
  split at h
  · cases h
  · next place' hplace =>
    split at h
    · cases h
    · next hnone =>
      cases h
      exact ⟨hplace, hnone, rfl⟩

theorem removeFile_eq_ok (h : t.removeFile path = .ok (place, t')) :
    ∃ e, t.locate path = .ok place ∧ t.entry place = some e ∧ e.isDir = false ∧ t' = t.remove place := by
  unfold removeFile at h
  split at h
  · cases h
  · cases h
  · next place' e hdir he =>
    cases h
    obtain ⟨hlocate, hentry⟩ := symlinkMetadata_eq_ok he
    refine ⟨e, hlocate, hentry, ?_, rfl⟩
    cases e with
    | dir id => exact absurd rfl (hdir id)
    | file | link => rfl

theorem removeDir_eq_ok (h : t.removeDir path = .ok (place, t')) : t.locate path = .ok place ∧ place ≠ [] ∧ t.children
    place = [] ∧ t.entry place ≠ none ∧ t' = t.remove place := by
  unfold removeDir at h
  split at h
  · cases h
  · next place' id he =>
    obtain ⟨hlocate, hentry⟩ := symlinkMetadata_eq_ok he
    split at h
    · cases h
    · next hne =>
      split at h
      · next hempty =>
        cases h
        exact ⟨hlocate, hne, hempty, by rw [hentry]; exact Option.some_ne_none _, rfl⟩
      · cases h
  · cases h

/-- What a rename does: nothing, or a move to where there is nothing, a file for a file, or an empty
folder for a folder. -/
theorem rename_eq_ok {oldPath newPath : List ν}
    (h : t.rename oldPath newPath = .ok (old, new, t')) :
    ∃ e, t.locate oldPath = .ok old ∧ t.locate newPath = .ok new ∧ t.entry old = some e ∧
      (old = new ∧ t' = t ∨
        old ≠ [] ∧ new ≠ [] ∧ ¬Under old new ∧ t.replaces e new = .ok () ∧ t' = t.move old new) := by
  unfold rename at h
  split at h
  · cases h
  · cases h
  · next old' e new' hold hnew =>
    obtain ⟨hlocate, hentry⟩ := symlinkMetadata_eq_ok hold
    split at h
    · next heq =>
      cases h
      exact ⟨e, hlocate, hnew, hentry, .inl ⟨heq, rfl⟩⟩
    · split at h
      · cases h
      · next hne =>
        split at h
        · cases h
        · next hunder =>
          split at h
          · cases h
          · next hreplaces =>
            cases h
            exact ⟨e, hlocate, hnew, hentry, .inr ⟨fun h => hne (.inl h), fun h => hne (.inr h),
              hunder, hreplaces, rfl⟩⟩

theorem children_of_replaces (h : t.replaces e new = .ok ()) {id : ℕ}
    (hnew : t.entry new = some (.dir id)) : t.children new = [] := by
  unfold replaces at h
  rw [hnew] at h
  cases e with
  | dir =>
    dsimp only at h
    split at h
    · next hempty => exact hempty
    · cases h
  | file | link => cases h

/-! ## What an operation leaves alone -/

theorem Folder.of_entry (h : Folder t p)
    (hsame : ∀ q, Under q p → Folder t q → t'.entry q = t.entry q) : Folder t' p := by
  refine ⟨fun q hq hne => ?_, ?_⟩
  · rw [hsame q hq (Folder.above h.1 hq hne)]
    exact h.1 q hq hne
  · rw [hsame p (.refl p) h]
    exact h.2

theorem Folder.add (h : Folder t p) (hplace : place ≠ []) (hnone : t.entry place = none) : Folder
    (t.add place make d) p ∧ (t.add place make d).entry p = t.entry p := by
  have hsame : ∀ q, Under q p → Folder t q → (t.add place make d).entry q = t.entry q := fun q _ hq => by
    rw [entry_add hplace, if_neg]
    rintro rfl
    obtain ⟨id, hid⟩ := hq.2
    cases hnone.symm.trans hid
  exact ⟨h.of_entry hsame, hsame p (.refl p) h⟩

theorem Folder.children_ne_nil (h : Folder t p) (hq : Under q p) (hne : q ≠ p) : t.children q ≠ [] := by
  refine FileTree.children_ne_nil h.1 hq hne ?_
  obtain ⟨id, hid⟩ := h.2
  rw [hid]
  exact Option.some_ne_none _

theorem Folder.remove (h : Folder t p) (hplace : place ≠ [])
    (hempty : (∃ e, t.entry place = some e ∧ e.isDir = false) ∨ t.children place = [])
    (hne : p ≠ place) : Folder (t.remove place) p ∧ (t.remove place).entry p = t.entry p := by
  have hsame : ∀ q, Under q p → Folder t q → (t.remove place).entry q = t.entry q := fun q hq hfolder => by
    rw [entry_remove hplace, if_neg]
    rintro rfl
    rcases hempty with ⟨e, he, hdir⟩ | hempty
    · obtain ⟨id, hid⟩ := hfolder.2
      rw [Option.some.inj (he.symm.trans hid)] at hdir
      cases hdir
    · exact h.children_ne_nil hq (Ne.symm hne) hempty
  exact ⟨h.of_entry hsame, hsame p (.refl p) h⟩

theorem Folder.move (h : Folder t p) (hold : old ≠ []) (hnew : new ≠ []) (hreplaces : t.replaces e new = .ok ())
    (hmoved : ¬Under old p) (hne : new ≠ p) : Folder (t.move old new) p ∧ (t.move old new).entry p = t.entry p := by
  have hsame : ∀ q, Under q p → Folder t q → (t.move old new).entry q = t.entry q := fun q hq hfolder => by
    obtain ⟨id, hid⟩ := hfolder.2
    rw [hid]
    refine (entry_move hold hnew).mpr (.inr ⟨fun ho => hmoved (ho.trans hq), fun hunder => ?_, hid⟩)
    obtain ⟨id', hid'⟩ := (Folder.above h.1 (hunder.trans hq) hne).2
    exact h.children_ne_nil (hunder.trans hq) hne (children_of_replaces hreplaces hid')
  exact ⟨h.of_entry hsame, hsame p (.refl p) h⟩

theorem Folder.children_of_locate (h : Folder t p) (hb : b ≠ []) (hlocate : t.locate (p ++ b) = .ok p) :
    t.children p ≠ [] := by
  rcases locate_eq_ok hlocate with ⟨hpath, -⟩ | ⟨folder, n, hpath, hp, hfolder, -⟩
  · exact absurd (List.append_eq_nil_iff.mp hpath).2 hb
  · cases b with
    | nil => exact absurd rfl hb
    | cons m b =>
      cases b with
      | nil =>
        -- One name below the folder is not the folder.
        rw [List.dropLast_concat, h.canonicalize] at hfolder
        cases hfolder
        exact absurd hp (by simp)
      | cons m' b =>
        rw [List.dropLast_append_of_ne_nil (by simp)] at hfolder
        obtain ⟨e, he⟩ := Option.ne_none_iff_exists'.mp (entry_of_canonicalize (b := (m' :: b).dropLast) h hfolder)
        exact List.ne_nil_of_mem (mem_children he)

/-! ## Numbers -/

variable (t) in
/-- Every entry has a number of its own, and the next one is free. -/
structure Numbered : Prop where
  inj : ∀ p q e e', t.entry p = some e → t.entry q = some e' → e.id = e'.id → p = q
  fresh : ∀ p e, t.entry p = some e → e.id < t.next

theorem numbered_empty (d : δ) : Numbered (empty d : FileTree ν δ) := by
  have hroot : ∀ {p : List ν} {e : Entry ν}, (empty d : FileTree ν δ).entry p = some e →
      p = [] ∧ e = .dir 0 := fun {p e} h => by
    by_cases hp : p = []
    · rw [hp, entry_nil] at h
      exact ⟨hp, (Option.some.inj h).symm⟩
    · rw [entry_of_ne hp] at h
      cases h
  refine ⟨fun p q e e' hp hq _ => (hroot hp).1.trans (hroot hq).1.symm, fun p e hp => ?_⟩
  rw [(hroot hp).2]
  exact Nat.zero_lt_one

theorem Numbered.add (h : Numbered t) (hmake : ∀ id, (make id).id = id)
    (hplace : place ≠ []) : Numbered (t.add place make d) where
  inj p q e e' hp hq hid := by
    rw [entry_add hplace] at hp hq
    split at hp
    · next hpp =>
      split at hq
      · next hqp => exact hpp.trans hqp.symm
      · have hlt := h.fresh q e' hq
        rw [← hid, ← Option.some.inj hp, hmake] at hlt
        exact absurd hlt (Nat.lt_irrefl _)
    · split at hq
      · have hlt := h.fresh p e hp
        rw [hid, ← Option.some.inj hq, hmake] at hlt
        exact absurd hlt (Nat.lt_irrefl _)
      · exact h.inj p q e e' hp hq hid
  fresh p e hp := by
    rw [entry_add hplace] at hp
    split at hp
    · rw [← Option.some.inj hp, hmake]
      exact Nat.lt_succ_self _
    · exact Nat.lt_succ_of_lt (h.fresh p e hp)

theorem Numbered.remove (h : Numbered t) (hplace : place ≠ []) : Numbered (t.remove place) where
  inj p q e e' hp hq hid := by
    rw [entry_remove hplace] at hp hq
    split at hp
    · cases hp
    · split at hq
      · cases hq
      · exact h.inj p q e e' hp hq hid
  fresh p e hp := by
    rw [entry_remove hplace] at hp
    split at hp
    · cases hp
    · exact h.fresh p e hp

theorem Numbered.move (h : Numbered t) (hold : old ≠ []) (hnew : new ≠ []) :
    Numbered (t.move old new) where
  inj p q e e' hp hq hid := by
    rcases (entry_move hold hnew).mp hp with ⟨rest, hpn, hp'⟩ | ⟨hpo, -, hp'⟩
    · rcases (entry_move hold hnew).mp hq with ⟨rest', hqn, hq'⟩ | ⟨hqo, -, hq'⟩
      · rw [hpn, hqn, List.append_cancel_left (h.inj _ _ e e' hp' hq' hid)]
      · exact absurd (h.inj _ _ e e' hp' hq' hid ▸ Under.append old rest) hqo
    · rcases (entry_move hold hnew).mp hq with ⟨rest', -, hq'⟩ | ⟨-, -, hq'⟩
      · exact absurd (h.inj _ _ e e' hp' hq' hid ▸ Under.append old rest') hpo
      · exact h.inj _ _ e e' hp' hq' hid
  fresh p e hp := by
    rcases (entry_move hold hnew).mp hp with ⟨rest, -, hp⟩ | ⟨-, -, hp⟩ <;> exact h.fresh _ e hp

end FileTree

end Lib
