import UwuRdp.Core.Contained
import Mathlib.Data.List.Infix

/-!
# A disk that works

On this disk nothing fails but what cannot be. Files whose names are not in each other's way can all be
put there, one after the other, and what was put there stays.
-/

namespace UwuRdp

open Lib Lib.Ranges

namespace Clipboard

/-! ## A disk -/

inductive Node where
  | folder
  | file (bytes : List UInt8)
deriving DecidableEq

abbrev Disk := Table Path Node

namespace Disk

def notDirectory : Text := "Not a directory".toList

def isDirectory : Text := "Is a directory".toList

/-- A path and the folders above it, but for the root. -/
def ancestors (path : Path) : List Path := path.inits.filter (· ≠ [])

def isFile : Option Node → Bool
  | some (.file _) => true
  | _ => false

def createDirAll (path : Path) (disk : Disk) : Option Text × Disk :=
  if (ancestors path).any fun p => isFile (disk.get? p) then (some notDirectory, disk)
  else (none, (ancestors path).foldl (fun disk p => disk.set p .folder) disk)

def create (path : Path) (disk : Disk) : Option Text × Disk :=
  if path.dropLast ≠ [] ∧ disk.get? path.dropLast ≠ some .folder then (some notDirectory, disk)
  else if path = [] ∨ disk.get? path = some .folder then (some isDirectory, disk)
  else (none, disk.set path (.file []))

def write (path : Path) (position : ℕ) (data : List UInt8) (disk : Disk) : Option Text × Disk :=
  match disk.get? path with
  | some (.file bytes) => (none, disk.set path (.file (writeAt 0 bytes position data)))
  | _ => (some isDirectory, disk)

/-- A file system on which nothing fails but what cannot be. -/
def fs : FileSystem Disk
  | .privateDir path => createDirAll path
  | .createDirAll path => createDirAll path
  | .create path => create path
  | .write path position data => write path position data
  | .setModified _ _ => fun disk => (none, disk)

variable {disk : Disk} {path p : Path}

theorem mem_ancestors : p ∈ ancestors path ↔ p ≠ [] ∧ p <+: path := by
  unfold ancestors
  rw [List.mem_filter, List.mem_inits, decide_eq_true_iff, and_comm]

theorem get?_foldl_set (l : List Path) (disk : Disk) (p : Path) :
    (l.foldl (fun disk p => disk.set p .folder) disk).get? p =
      if p ∈ l then some .folder else disk.get? p := by
  induction l generalizing disk with
  | nil => rw [if_neg List.not_mem_nil]; rfl
  | cons q l ih =>
    rw [List.foldl_cons, ih, Table.get?_set]
    by_cases hl : p ∈ l
    · rw [if_pos hl, if_pos (List.mem_cons_of_mem q hl)]
    · rw [if_neg hl]
      by_cases hq : p = q
      · rw [if_pos hq, if_pos (hq ▸ List.mem_cons_self)]
      · rw [if_neg hq, if_neg fun h => (List.mem_cons.mp h).elim hq hl]

theorem createDirAll_ok (h : ∀ p, p ≠ [] → p <+: path → ∀ bytes, disk.get? p ≠ some (.file bytes)) :
    ∃ disk', createDirAll path disk = (none, disk') ∧
      ∀ p, disk'.get? p = if p ≠ [] ∧ p <+: path then some .folder else disk.get? p := by
  have hnone : ((ancestors path).any fun p => isFile (disk.get? p)) = false := by
    rw [List.any_eq_false]
    intro p hp
    cases hget : disk.get? p with
    | none => exact Bool.false_ne_true
    | some node =>
      cases node with
      | folder => exact Bool.false_ne_true
      | file bytes => exact absurd hget (h p (mem_ancestors.mp hp).1 (mem_ancestors.mp hp).2 bytes)
  refine ⟨_, if_neg (by rw [hnone]; exact Bool.false_ne_true), fun p => ?_⟩
  rw [get?_foldl_set]
  by_cases hp : p ∈ ancestors path
  · rw [if_pos hp, if_pos (mem_ancestors.mp hp)]
  · rw [if_neg hp, if_neg fun h => hp (mem_ancestors.mpr h)]

theorem create_ok (hpath : path ≠ []) (hparent : path.dropLast ≠ [] → disk.get? path.dropLast = some .folder)
    (h : disk.get? path ≠ some .folder) : create path disk = (none, disk.set path (.file [])) := by
  unfold create
  rw [if_neg fun h => h.2 (hparent h.1), if_neg fun hor => hor.elim hpath h]

theorem write_ok {bytes data : List UInt8} {position : ℕ} (h : disk.get? path = some (.file bytes)) :
    write path position data disk = (none, disk.set path (.file (writeAt 0 bytes position data))) := by
  unfold write
  rw [h]

end Disk

/-! ## What is on the disk -/

/-- No file is where another entry has to go through. -/
def Placeable (entries : List RemoteEntry) : Prop :=
  ∀ (i j : ℕ) (e e' : RemoteEntry), entries[i]? = some e → entries[j]? = some e' → i ≠ j → e.dir = false → ¬e.path <+: e'.path

def FileOp.writtenTo (path : Path) (op : FileOp) : Option Range := if op.path = path then op.written else none

def writesTo (path : Path) (log : List FileOp) : List Range := log.filterMap (FileOp.writtenTo path)

/-- An entry as the server has it: the folder, or the file with each byte written once. -/
def Held (base : Path) (content : ℕ → List UInt8) (e : RemoteEntry) (disk : Disk) (log : List FileOp) : Prop :=
  if e.dir then disk.get? (base ++ e.path) = some .folder
  else disk.get? (base ++ e.path) = some (.file (content e.index)) ∧
    ∀ p, count (hits p) (writesTo (base ++ e.path) log) = hits p (0, (content e.index).length)

/-- The entries before the current one are there, and of those not opened yet nothing is. -/
structure Laid (base : Path) (entries : List RemoteEntry) (content : ℕ → List UInt8) (current opened : ℕ)
    (disk : Disk) (log : List FileOp) : Prop where
  folders : ∀ p, p ≠ [] → p <+: base → disk.get? p = some .folder
  made : ∀ q, q ≠ [] → disk.get? (base ++ q) = some .folder →
    ∃ (j : ℕ) (e : RemoteEntry), entries[j]? = some e ∧ q <+: e.path ∧ (e.dir = true ∨ q ≠ e.path)
  placed : ∀ q bytes, q ≠ [] → disk.get? (base ++ q) = some (.file bytes) →
    ∃ (j : ℕ) (e : RemoteEntry), entries[j]? = some e ∧ e.dir = false ∧ q = e.path ∧ j < opened
  complete : ∀ (j : ℕ) (e : RemoteEntry), j < current → entries[j]? = some e → Held base content e disk log
  untouched : ∀ (j : ℕ) (e : RemoteEntry), opened ≤ j → entries[j]? = some e → e.dir = false →
    writesTo (base ++ e.path) log = []

variable {base path : Path} {entries : List RemoteEntry} {content : ℕ → List UInt8} {current opened : ℕ}
  {disk disk' : Disk} {log ops : List FileOp} {entry : RemoteEntry}

theorem writesTo_append (log ops : List FileOp) : writesTo path (log ++ ops) = writesTo path log ++ writesTo path ops :=
  List.filterMap_append

theorem writesTo_append_none (h : ∀ op ∈ ops, op.written = none) :
    writesTo path (log ++ ops) = writesTo path log := by
  rw [writesTo_append, List.append_right_eq_self]
  refine List.filterMap_eq_nil_iff.mpr fun op hop => ?_
  unfold FileOp.writtenTo
  rw [h op hop, ite_self]

theorem writesTo_write (position : ℕ) (data : List UInt8) :
    writesTo path [.write path position data] = [(position, data.length)] :=
  List.filterMap_cons_some (if_pos rfl)

theorem writesTo_write_ne {other : Path} (h : other ≠ path) (position : ℕ) (data : List UInt8) :
    writesTo path [.write other position data] = [] :=
  List.filterMap_cons_none (if_neg h)

theorem Held.of_same (h : Held base content entry disk log)
    (hget : disk'.get? (base ++ entry.path) = disk.get? (base ++ entry.path)) {log' : List FileOp}
    (hwrites : entry.dir = false → writesTo (base ++ entry.path) log' = writesTo (base ++ entry.path) log) : Held base
    content entry disk' log' := by
  unfold Held at h ⊢
  rw [hget]
  cases hdir : entry.dir with
  | true =>
    rw [hdir] at h
    exact h
  | false =>
    rw [hdir] at h
    rw [hwrites hdir]
    exact h

theorem Laid.logged (h : Laid base entries content current opened disk log)
    (hops : ∀ op ∈ ops, op.written = none) : Laid base entries content current opened disk (log ++ ops) where
  folders := h.folders
  made := h.made
  placed := h.placed
  complete j e hj he := (h.complete j e hj he).of_same rfl fun _ => writesTo_append_none hops
  untouched j e hj he hdir := (writesTo_append_none hops).trans (h.untouched j e hj he hdir)

theorem prefix_append_cases {p q : Path} (h : p <+: base ++ q) :
    p <+: base ∨ ∃ r, r ≠ [] ∧ p = base ++ r ∧ r <+: q := by
  rcases List.prefix_or_prefix_of_prefix h (List.prefix_append base q) with hbase | ⟨r, rfl⟩
  · exact .inl hbase
  · by_cases hr : r = []
    · subst hr
      rw [List.append_nil]
      exact .inl (List.prefix_refl base)
    · exact .inr ⟨r, hr, rfl, (List.prefix_append_right_inj base).mp h⟩

theorem Placeable.not_below (h : Placeable entries) {i j : ℕ} {e e' : RemoteEntry} (he : entries[i]? = some e)
    (he' : entries[j]? = some e') (hne : i ≠ j) (hfile : e.dir = false) {q : Path} (hq : q <+: e'.path) :
    ¬base ++ e.path <+: base ++ q := fun hbelow =>
  h i j e e' he he' hne hfile (((List.prefix_append_right_inj base).mp hbelow).trans hq)

theorem Laid.createDirAll (h : Laid base entries content current current disk log)
    (hplace : Placeable entries) (hentry : entries[current]? = some entry) {q : Path} (hq : q <+: entry.path)
    (hdir : entry.dir = true ∨ q ≠ entry.path) :
    ∃ disk', Disk.createDirAll (base ++ q) disk = (none, disk') ∧
      Laid base entries content current current disk' log ∧
      ∀ p, disk'.get? p = if p ≠ [] ∧ p <+: base ++ q then some .folder else disk.get? p := by
  -- A file below the folder is an earlier entry's, and no part of this one's path.
  have hclear : ∀ p, p ≠ [] → p <+: base ++ q → ∀ bytes, disk.get? p ≠ some (.file bytes) := by
    intro p hne hp bytes hget
    rcases prefix_append_cases hp with hbase | ⟨r, hr, rfl, hrq⟩
    · cases (h.folders p hne hbase).symm.trans hget
    · obtain ⟨j, e, he, hfile, rfl, hj⟩ := h.placed r bytes hr hget
      exact hplace j current e entry he hentry (Nat.ne_of_lt hj) hfile (hrq.trans hq)
  obtain ⟨disk', hmade, hget'⟩ := Disk.createDirAll_ok hclear
  have hmore : ∀ p node, node ≠ .folder → disk'.get? p = some node → disk.get? p = some node := by
    intro p node hnode hget
    rw [hget'] at hget
    split at hget
    · exact absurd (Option.some.inj hget).symm hnode
    · exact hget
  refine ⟨disk', hmade, ⟨fun p hp hbase => ?_, fun r hr hget => ?_, fun r bytes hr hget => ?_,
    fun j e hj he => ?_, h.untouched⟩, hget'⟩
  · rw [hget']
    split
    · rfl
    · exact h.folders p hp hbase
  · rw [hget'] at hget
    split at hget
    · next hin =>
      have hrq := (List.prefix_append_right_inj base).mp hin.2
      refine ⟨current, entry, hentry, hrq.trans hq, hdir.imp_right fun hne heq => hne ?_⟩
      exact List.IsPrefix.eq_of_length_le hq (heq ▸ hrq.length_le)
    · exact h.made r hr hget
  · exact h.placed r bytes hr (hmore _ _ (by simp) hget)
  · have hheld := h.complete j e hj he
    cases hdir' : e.dir with
    | true =>
      unfold Held at hheld ⊢
      rw [hdir'] at hheld ⊢
      rw [if_pos rfl] at hheld ⊢
      rw [hget']
      split
      · rfl
      · exact hheld
    | false =>
      refine hheld.of_same ?_ fun _ => rfl
      rw [hget', if_neg fun hin => hplace.not_below he hentry (Nat.ne_of_lt hj) hdir' hq hin.2]

theorem Laid.setFile (h : Laid base entries content current opened disk log) (hplace : Placeable entries)
    (hentry : entries[current]? = some entry) (hfile : entry.dir = false) (hpath : entry.path ≠ [])
    (hopened : opened ≤ current + 1) (bytes : List UInt8)
    (hops : ∀ other, base ++ entry.path ≠ other → writesTo other ops = []) : Laid base entries content current
    (current + 1) (disk.set (base ++ entry.path) (.file bytes)) (log ++ ops) := by
  have hother : ∀ (j : ℕ) (e : RemoteEntry), j ≠ current → entries[j]? = some e →
      base ++ e.path ≠ base ++ entry.path := by
    intro j e hj he heq
    rw [List.append_cancel_left_eq] at heq
    exact hplace current j entry e hentry he hj.symm hfile (heq ▸ List.prefix_refl _)
  refine ⟨fun p hp hbase => ?_, fun q hq hget => ?_, fun q bytes' hq hget => ?_, fun j e hj he => ?_,
    fun j e hj he hdir => ?_⟩
  · rw [Table.get?_set_ne]
    · exact h.folders p hp hbase
    · rintro rfl
      have hlen := hbase.length_le
      rw [List.length_append] at hlen
      exact hpath (List.eq_nil_of_length_eq_zero (by omega))
  · rw [Table.get?_set] at hget
    split at hget
    · cases hget
    · exact h.made q hq hget
  · rw [Table.get?_set] at hget
    split at hget
    · next heq =>
      rw [List.append_cancel_left_eq] at heq
      exact ⟨current, entry, hentry, hfile, heq, Nat.lt_succ_self current⟩
    · obtain ⟨j, e, he, hdir, heq, hj⟩ := h.placed q bytes' hq hget
      exact ⟨j, e, he, hdir, heq, Nat.lt_of_lt_of_le hj hopened⟩
  · have hne := hother j e (Nat.ne_of_lt hj) he
    refine (h.complete j e hj he).of_same (Table.get?_set_ne hne) fun _ => ?_
    rw [writesTo_append, hops _ hne.symm, List.append_nil]
  · have hne := hother j e (Nat.ne_of_gt hj) he
    rw [writesTo_append, hops _ hne.symm, List.append_nil]
    exact h.untouched j e (Nat.le_trans hopened hj) he hdir

theorem Laid.create (h : Laid base entries content current current disk log) (hplace : Placeable entries)
    (hentry : entries[current]? = some entry) (hfile : entry.dir = false) (hpath : entry.path ≠ [])
    (hparent : (base ++ entry.path).dropLast ≠ [] → disk.get? (base ++ entry.path).dropLast = some .folder) :
    Disk.create (base ++ entry.path) disk = (none, disk.set (base ++ entry.path) (.file [])) ∧ Laid base entries
    content current (current + 1) (disk.set (base ++ entry.path) (.file [])) log := by
  refine ⟨Disk.create_ok (List.append_ne_nil_of_right_ne_nil base hpath) hparent fun hfolder => ?_, ?_⟩
  · obtain ⟨j, e, he, hbelow, hor⟩ := h.made entry.path hpath hfolder
    by_cases hj : current = j
    · subst hj
      cases hentry.symm.trans he
      rcases hor with hdir | hne
      · cases hfile.symm.trans hdir
      · exact hne rfl
    · exact hplace current j entry e hentry he hj hfile hbelow
  · have hset := @Clipboard.Laid.setFile _ _ _ _ _ _ _ [] _ h hplace hentry hfile hpath
      (Nat.le_succ current) [] fun _ _ => rfl
    rwa [List.append_nil] at hset

theorem Laid.next (h : Laid base entries content current opened disk log)
    (hentry : entries[current]? = some entry) (hopened : opened ≤ current + 1)
    (hheld : Held base content entry disk log) :
    Laid base entries content (current + 1) (current + 1) disk log where
  folders := h.folders
  made := h.made
  placed q bytes hq hget := by
    obtain ⟨j, e, he, hdir, heq, hj⟩ := h.placed q bytes hq hget
    exact ⟨j, e, he, hdir, heq, Nat.lt_of_lt_of_le hj hopened⟩
  complete j e hj he := by
    rcases Nat.lt_succ_iff_lt_or_eq.mp hj with hj | rfl
    · exact h.complete j e hj he
    · cases hentry.symm.trans he
      exact hheld
  untouched j e hj := h.untouched j e (Nat.le_trans hopened hj)

end Clipboard

end UwuRdp
