import UwuRdp.Core.Disk
import UwuRdp.Lib.Counter

/-!
# A download fetches the files

From a server that answers truthfully, though in any order and as briefly as it likes, a download ends
with every file as the server has it, each byte written once. In between, what is written of the open
file, what is in flight, the gaps and what was not asked for yet make up the file. This holds as long as
no request is left open until its stream id comes round.
-/

namespace UwuRdp

open Lib Lib.Ranges Lib.Steps

namespace Clipboard

variable {base path : Path} {entries : List RemoteEntry} {content : ℕ → List UInt8} {entry : RemoteEntry}

/-! ## Stream ids -/

namespace Run

variable {D : Type} {s s' : Run D} {requests : List FileContentsRequest} {size room : ℕ}

/-- Of the next ids, as many as there is room for, none is in flight. -/
def Free (room : ℕ) (s : Run D) : Prop :=
  ∀ k < room, s.download.inFlight.get? (nextStreamId^[k + 1] s.nextStream) = none

theorem Free.ask (h : s.Free (room + 1)) (hroom : room ≤ window) (entry : RemoteEntry)
    (range : Option Range) : (s.ask entry range).1.Free room := by
  intro k hk
  show (s.download.inFlight.set (nextStreamId s.nextStream) _).get?
    (nextStreamId^[k + 1] (nextStreamId s.nextStream)) = none
  rw [Table.get?_set_ne]
  · exact h (k + 1) (Nat.succ_lt_succ hk)
  · exact Counter.iterate_ne (Counter.next_pos s.nextStream) (by unfold window at hroom; omega)

theorem Free.mono {room' : ℕ} (h : s.Free room) (hle : room' ≤ room) : s.Free room' :=
  fun k hk => h k (Nat.lt_of_lt_of_le hk hle)

/-- What may be asked for: the window has room for no more than the ids that are free. -/
structure Roomy (s : Run D) : Prop where
  few : s.download.inFlight.entries.length ≤ window
  free : s.Free (window - s.download.inFlight.entries.length)

theorem Roomy.ask (h : s.Roomy) (hroom : s.download.inFlight.entries.length < window) (entry : RemoteEntry)
    (range : Option Range) : (s.ask entry range).1.Roomy ∧ (s.ask entry range).1.download.inFlight.entries.length =
    s.download.inFlight.entries.length + 1 := by
  have hnone : s.download.inFlight.get? (nextStreamId s.nextStream) = none := h.free 0 (by omega)
  have hlen : (s.ask entry range).1.download.inFlight.entries.length =
      s.download.inFlight.entries.length + 1 := Table.length_set_of_none _ hnone
  refine ⟨⟨by omega, ?_⟩, hlen⟩
  rw [hlen]
  refine Free.ask (h.free.mono ?_) (by omega) entry range
  omega

theorem Roomy.of_idle (h : s.download.inFlight.entries = []) : s.Roomy := by
  refine ⟨by rw [h]; exact Nat.zero_le _, fun k _ => Table.get?_of_entries_nil h _⟩

end Run

/-! ## The open file -/

/-- The sizes announced are the server's, and no file is too large for one. -/
def Announced (entries : List RemoteEntry) (content : ℕ → List UInt8) : Prop :=
  ∀ e ∈ entries, e.dir = false → (content e.index).length < 2 ^ 64 ∧
    ∀ n, e.size = some n → n = (content e.index).length

def Download.remaining (content : ℕ → List UInt8) (d : Download) : ℕ :=
  (match d.file, d.size with
    | none, _ => 0
    | some _, none => (d.entries[d.current]?.map fun e => (content e.index).length + 1).getD 0
    | some _, some n => d.outstanding Prod.snd n) +
  ((d.entries.drop (if d.file = none then d.current else d.current + 1)).map fun e =>
    (content e.index).length + 1).sum

namespace Run

/-- What is written of the open file is right, and with what is asked for, left open and not asked for yet
makes it up. -/
structure Filling (content : ℕ → List UInt8) (entry : RemoteEntry) (path : Path) (d : Download) (disk : Disk)
    (log : List FileOp) : Prop where
  isFile : entry.dir = false
  stored : ∃ bytes, disk.get? path = some (.file bytes) ∧ bytes.length ≤ (content entry.index).length ∧
    ∀ p, 0 < count (hits p) (writesTo path log) → bytes[p]? = (content entry.index)[p]?
  sized : ∀ n, d.size = some n → n = (content entry.index).length ∧
    ∀ p, count (hits p) (writesTo path log) + d.outstanding (hits p) n = hits p (0, n)
  unsized : d.size = none → writesTo path log = []
  gaps : ∀ g ∈ d.gaps, 0 < g.2
  asked : ∀ id r range, d.inFlight.get? id = some r → r.range = some range → 0 < range.2

variable {s s' : Run (Disk × List FileOp)} {requests : List FileContentsRequest} {size : ℕ} {disk : Disk}
  {log : List FileOp} {range : Range} {d : Download}

theorem Filling.ask (h : Filling content entry path s.download disk log) (hroomy : s.Roomy)
    (hroom : s.download.inFlight.entries.length < window) (hsize : s.download.size = some size)
    (htake : s.download.takeRange size = some (range, d)) (e : RemoteEntry) :
    Filling content entry path ({ s with download := d }.ask e (some range)).1.download disk log ∧
      ({ s with download := d }.ask e (some range)).1.download.size = some size ∧
      ({ s with download := d }.ask e (some range)).1.Roomy := by
  have hnone : s.download.inFlight.get? (nextStreamId s.nextStream) = none := hroomy.free 0 (by omega)
  have hsum : ∀ w, Ranges.Additive w → ({ s with download := d }.ask e (some range)).1.download.outstanding w size =
      s.download.outstanding w size := by
    intro w hw
    have hask := outstanding_ask hw e htake
    rw [hnone] at hask
    exact hask
  have hrange : 0 < range.2 ∧ d.inFlight = s.download.inFlight ∧ d.size = s.download.size ∧
      ∀ g ∈ d.gaps, 0 < g.2 := by
    rcases takeRange_cases htake with ⟨gaps, hgaps, rfl⟩ | ⟨hgaps, hlt, rfl, rfl⟩
    · exact ⟨h.gaps range (hgaps ▸ List.mem_append_right _ (List.mem_singleton.mpr rfl)), rfl, rfl,
        fun g hg => h.gaps g (hgaps ▸ List.mem_append_left _ hg)⟩
    · refine ⟨?_, rfl, rfl, h.gaps⟩
      unfold chunk
      omega
  obtain ⟨hpos, hflight, hsize', hgaps⟩ := hrange
  have hroomy' : Roomy { s with download := d } := by
    obtain ⟨few, free⟩ := hroomy
    refine ⟨by rw [hflight]; exact few, ?_⟩
    rw [hflight]
    intro k hk
    rw [hflight]
    exact free k hk
  refine ⟨⟨h.isFile, h.stored, fun n hn => ?_, fun hn => ?_, hgaps, fun id r other hr hother => ?_⟩,
    hsize'.trans hsize, (hroomy'.ask (by rw [hflight]; exact hroom) e (some range)).1⟩
  · cases (hsize'.trans hsize).symm.trans hn
    obtain ⟨hlen, hcount⟩ := h.sized size hsize
    refine ⟨hlen, fun p => ?_⟩
    rw [hsum _ (additive_hits p)]
    exact hcount p
  · cases (hsize'.trans hsize).symm.trans hn
  · replace hr : (d.inFlight.set _ _).get? id = some r := hr
    rw [Table.get?_set, hflight] at hr
    split at hr
    · cases hr
      cases hother
      exact hpos
    · exact h.asked id r other hr hother

theorem Filling.fill (h : Filling content entry path s.download disk log) (hroomy : s.Roomy)
    (hsize : s.download.size = some size) (e : RemoteEntry) (fuel : ℕ) : Filling content entry path
    (s.fill e size fuel requests).1.download disk log ∧ (s.fill e size fuel requests).1.download.size = some size ∧
    (s.fill e size fuel requests).1.Roomy :=
  fill_invariant (I := fun s' _ => Filling content entry path s'.download disk log ∧
      s'.download.size = some size ∧ s'.Roomy) fuel ⟨h, hsize, hroomy⟩
    fun _ _ _ _ hs hroom htake => Filling.ask hs.1 hs.2.2 hroom hs.2.1 htake e

theorem Filling.done (h : Filling content entry path d disk log) (hsize : d.size = some size)
    (hidle : d.inFlight.entries = []) (hgaps : d.gaps = []) (hnext : size ≤ d.next) :
    disk.get? path = some (.file (content entry.index)) ∧
      ∀ p, count (hits p) (writesTo path log) = hits p (0, (content entry.index).length) := by
  obtain ⟨bytes, hget, hlen, hright⟩ := h.stored
  obtain ⟨rfl, hcount⟩ := h.sized size hsize
  have hall : ∀ p, count (hits p) (writesTo path log) = hits p (0, (content entry.index).length) := by
    intro p
    have hnothing : d.outstanding (hits p) (content entry.index).length = 0 := by
      unfold Download.outstanding Table.total
      rw [hidle, hgaps, Nat.sub_eq_zero_of_le hnext, (additive_hits p).empty]
      rfl
    have hp := hcount p
    rw [hnothing] at hp
    exact hp
  refine ⟨?_, hall⟩
  have hbytes : bytes = content entry.index := by
    apply List.ext_getElem?
    intro p
    by_cases hp : p < (content entry.index).length
    · refine hright p ?_
      rw [hall, hits_pos ⟨Nat.zero_le p, by omega⟩]
      exact Nat.one_pos
    · rw [List.getElem?_eq_none (by omega), List.getElem?_eq_none (by omega)]
  rw [hget, hbytes]

/-! ## What is left to answer -/

theorem remaining_of_closed (h : d.file = none) : d.remaining content =
    ((d.entries.drop d.current).map fun e => (content e.index).length + 1).sum := by
  unfold Download.remaining
  rw [h, if_pos rfl, Nat.zero_add]

theorem remaining_of_sized (hfile : d.file = some path) (hsize : d.size = some size) :
    d.remaining content = d.outstanding Prod.snd size +
      ((d.entries.drop (d.current + 1)).map fun e => (content e.index).length + 1).sum := by
  unfold Download.remaining
  rw [hfile, hsize, if_neg (Option.some_ne_none path)]

theorem remaining_of_unsized (hfile : d.file = some path) (hsize : d.size = none)
    (hentry : d.entries[d.current]? = some entry) : d.remaining content = (content entry.index).length + 1 +
    ((d.entries.drop (d.current + 1)).map fun e => (content e.index).length + 1).sum := by
  unfold Download.remaining
  rw [hfile, hsize, hentry, if_neg (Option.some_ne_none path)]
  rfl

theorem sum_drop_current {l : List RemoteEntry} {i : ℕ} (h : l[i]? = some entry) (f : RemoteEntry → ℕ) :
    ((l.drop i).map f).sum = f entry + ((l.drop (i + 1)).map f).sum := by
  obtain ⟨hlt, hget⟩ := List.getElem?_eq_some_iff.mp h
  rw [List.drop_eq_getElem_cons hlt, hget, List.map_cons, List.sum_cons]

/-! ## What holds between answers -/

/-- What is on the disk, and what is written of the open file. -/
structure Good (base : Path) (entries : List RemoteEntry) (content : ℕ → List UInt8)
    (s : Run (Disk × List FileOp)) : Prop where
  laid : Laid base entries content s.download.current
    (if s.download.file = none then s.download.current else s.download.current + 1) s.disk.1 s.log
  filling : ∀ e, s.download.file ≠ none → entries[s.download.current]? = some e →
    Filling content e (base ++ e.path) s.download s.disk.1 s.log

variable {answered : List UInt32} {sent : List FileContentsRequest}

theorem Good.closeCurrent (hg : Good base entries content s) (hentry : entries[s.download.current]? = some entry)
    (hheld : Held base content entry s.disk.1 s.log) :
    Good base entries content (s.closeCurrent (logged Disk.fs) entry) := by
  obtain ⟨hd, ops, hlog, hops⟩ := @closeCurrent_cases _ Disk.fs s entry
  have hdisk : (s.closeCurrent (logged Disk.fs) entry).disk.1 = s.disk.1 := by
    unfold Run.closeCurrent
    cases s.download.file with
    | none => rfl
    | some path =>
      cases entry.modified with
      | none | some time => rfl
  have hlaid := (hg.laid.next hentry (by split <;> omega) hheld).logged fun op hop => (hops op hop).1
  refine ⟨?_, fun e hfile => ?_⟩
  · rw [hd, hdisk, hlog, if_pos rfl]
    exact hlaid
  · rw [hd] at hfile
    exact absurd rfl hfile

theorem Good.fetch (hg : Good base entries content s) (hsound : s.Sound base entries answered sent)
    (hroomy : s.Roomy) (hentry : entries[s.download.current]? = some entry) (hopen : s.download.file ≠ none) :
    (s.fetch (logged Disk.fs) entry requests).Outcome
      (fun s' _ => Good base entries content s' ∧ s'.Roomy ∧
        s'.download.remaining content ≤ s.download.remaining content)
      (fun s' _ => Good base entries content s' ∧ s'.Roomy ∧ s'.download.inFlight.entries ≠ [] ∧
        s'.download.remaining content ≤ s.download.remaining content)
      fun _ _ => False := by
  obtain ⟨path, hpath⟩ := Option.ne_none_iff_exists'.mp hopen
  have hfilling := hg.filling entry hopen hentry
  have hlaid := hg.laid
  rw [if_neg hopen] at hlaid
  unfold Run.fetch
  cases hsize : s.download.size with
  | none =>
    dsimp only
    by_cases hidle : s.download.inFlight.entries = []
    · rw [if_pos hidle]
      refine ⟨⟨hg.laid, fun e _ he => ?_⟩, (hroomy.ask (by rw [hidle]; exact Nat.succ_pos 3) entry none).1,
        fun hnone => ?_, Nat.le_of_eq ?_⟩
      · cases hentry.symm.trans he
        refine ⟨hfilling.isFile, hfilling.stored, fun n hn => ?_, hfilling.unsized, hfilling.gaps,
          fun id r range hr hrange => ?_⟩
        · cases hsize.symm.trans hn
        · replace hr : (s.download.inFlight.set _ _).get? id = some r := hr
          rw [Table.get?_set] at hr
          split at hr
          · cases hr
            cases hrange
          · exact hfilling.asked id r range hr hrange
      · have hlen := (hroomy.ask (by rw [hidle]; exact Nat.succ_pos 3) entry none).2
        rw [hnone] at hlen
        cases hlen
      · have hlisted : s.download.entries[s.download.current]? = some entry := hsound.list.symm ▸ hentry
        rw [remaining_of_unsized (d := (s.ask entry none).1.download) hpath hsize hlisted,
          remaining_of_unsized hpath hsize hlisted]
        rfl
    · rw [if_neg hidle]
      exact ⟨hg, hroomy, hidle, Nat.le_refl _⟩
  | some size =>
    obtain ⟨hfilled, hsize', hroomy'⟩ := @Filling.fill _ _ _ _ requests _ _ _ hfilling hroomy hsize entry
      (s.download.gaps.length + (size - s.download.next) + 1)
    have hexit := @fill_exit entry _ s requests size _
      (Nat.lt_succ_self (s.download.gaps.length + (size - s.download.next)))
    have hless := @outstanding_fill _ _ additive_length s entry size
      (s.download.gaps.length + (size - s.download.next) + 1) requests
    obtain ⟨hdisk, hlist, -, hcurrent, hfile, -⟩ := fill_same (s := s) entry size
      (s.download.gaps.length + (size - s.download.next) + 1) requests
    dsimp only
    generalize s.fill entry size (s.download.gaps.length + (size - s.download.next) + 1) requests = filled at *
    obtain ⟨s₁, requests₁⟩ := filled
    have hlog : s₁.log = s.log := congrArg Prod.snd hdisk
    have hg₁ : Good base entries content s₁ := by
      refine ⟨?_, fun e _ he => ?_⟩
      · rw [hfile, hcurrent, hdisk, hlog]
        exact hg.laid
      · rw [hcurrent] at he
        cases hentry.symm.trans he
        rw [hdisk, hlog]
        exact hfilled
    have hleft : s₁.download.remaining content ≤ s.download.remaining content := by
      rw [remaining_of_sized (hfile.trans hpath) hsize', remaining_of_sized hpath hsize, hlist, hcurrent]
      omega
    by_cases hidle : s₁.download.inFlight.entries = []
    · rw [if_pos hidle]
      obtain ⟨hgaps, hnext⟩ := hexit.resolve_left (by rw [hidle]; exact Nat.not_succ_le_zero 3)
      have hdone := hfilled.done hsize' hidle hgaps hnext
      have hheld : Held base content entry s₁.disk.1 s₁.log := by
        unfold Held
        rw [hfilling.isFile, if_neg Bool.false_ne_true, hdisk, hlog]
        exact hdone
      have hclosed := hg₁.closeCurrent (by rw [hcurrent]; exact hentry) hheld
      obtain ⟨hd, -⟩ := @closeCurrent_cases _ Disk.fs s₁ entry
      refine ⟨hclosed, .of_idle (by rw [hd]; exact hidle), Nat.le_trans ?_ hleft⟩
      rw [remaining_of_closed (by rw [hd]), remaining_of_sized (hfile.trans hpath) hsize', hd]
      exact Nat.le_add_left _ _
    · rw [if_neg hidle]
      exact ⟨hg₁, hroomy', hidle, hleft⟩

/-! ## On to the next entry -/

variable {error : Option Text}

theorem perform_disk {op : FileOp} {disk' : Disk} (h : Disk.fs op s.disk.1 = (error, disk')) :
    s.perform (logged Disk.fs) op = (error, { s with disk := (disk', s.log ++ [op]) }) := by
  show ((Disk.fs op s.disk.1).1, ({ s with disk := ((Disk.fs op s.disk.1).2, s.log ++ [op]) } : Run _)) = _
  rw [h]

theorem setModified_disk (path : Path) (time : Option Moment) :
    (s.setModified (logged Disk.fs) path time).disk.1 = s.disk.1 := by
  cases time with
  | none | some time => rfl

theorem openCurrent_disk
    (hlaid : Laid base entries content s.download.current s.download.current s.disk.1 s.log)
    (hbase : s.download.base = base) (hplace : Placeable entries)
    (hentry : entries[s.download.current]? = some entry) (hpath : entry.path ≠ [])
    (h : s.openCurrent (logged Disk.fs) entry = (error, s')) :
    error = none ∧
      (entry.dir = true ∧ Laid base entries content s.download.current s.download.current s'.disk.1 s.log ∧
          s'.disk.1.get? (base ++ entry.path) = some .folder ∨
        entry.dir = false ∧
          Laid base entries content s.download.current (s.download.current + 1) s'.disk.1 s.log ∧
          s'.disk.1.get? (base ++ entry.path) = some (.file [])) := by
  unfold Run.openCurrent at h
  rw [hbase] at h
  have hne : base ++ entry.path ≠ [] := List.append_ne_nil_of_right_ne_nil base hpath
  cases hdir : entry.dir with
  | true =>
    obtain ⟨disk', hmade, hlaid', hget⟩ := hlaid.createDirAll hplace hentry (List.prefix_refl entry.path) (.inl hdir)
    rw [hdir, if_pos rfl, perform_disk (show Disk.fs (.createDirAll _) _ = _ from hmade)] at h
    cases h
    exact ⟨rfl, .inl ⟨rfl, hlaid', (hget _).trans (if_pos ⟨hne, List.prefix_refl _⟩)⟩⟩
  | false =>
    have hlast : (base ++ entry.path).dropLast = base ++ entry.path.dropLast := List.dropLast_append_of_ne_nil hpath
    have hshort : entry.path.dropLast ≠ entry.path := by
      intro heq
      have hlen := congrArg List.length heq
      rw [List.length_dropLast] at hlen
      exact hpath (List.eq_nil_of_length_eq_zero (by omega))
    obtain ⟨disk₁, hmade, hlaid₁, hget⟩ :=
      hlaid.createDirAll hplace hentry (List.dropLast_prefix entry.path) (.inr hshort)
    obtain ⟨hcreate, hlaid₂⟩ := hlaid₁.create hplace hentry hdir hpath fun hparent => by
      rw [hget, hlast, if_pos ⟨hlast ▸ hparent, List.prefix_refl _⟩]
    rw [hdir, if_neg Bool.false_ne_true, hlast, perform_disk (show Disk.fs (.createDirAll _) _ = _ from hmade)] at h
    dsimp only at h
    rw [perform_disk (s := { s with disk := (disk₁, s.log ++ [.createDirAll (base ++ entry.path.dropLast)]) })
      (show Disk.fs (.create _) _ = _ from hcreate)] at h
    dsimp only at h
    split at h
    · cases h
      refine ⟨rfl, .inr ⟨rfl, ?_, ?_⟩⟩
      · rw [setModified_disk]
        exact hlaid₂
      · rw [setModified_disk]
        exact Table.get?_set_self _ _ _
    · cases h
      exact ⟨rfl, .inr ⟨rfl, hlaid₂, Table.get?_set_self _ _ _⟩⟩

theorem Filling.fresh (hdir : entry.dir = false) (hsizes : ∀ n, entry.size = some n → n = (content entry.index).length)
    (hget : disk.get? path = some (.file [])) (hwrites : writesTo path log = [])
    (hidle : d.inFlight.entries = []) :
    Filling content entry path { d with file := some path, size := entry.size, next := 0, gaps := [] } disk
      log where
  isFile := hdir
  stored := by
    refine ⟨[], hget, Nat.zero_le _, fun p hp => ?_⟩
    rw [hwrites] at hp
    exact absurd hp (Nat.lt_irrefl 0)
  sized n hn := by
    refine ⟨hsizes n hn, fun p => ?_⟩
    unfold Download.outstanding Table.total
    rw [hwrites, hidle]
    show 0 + (0 + 0 + hits p (0, n - 0)) = hits p (0, n)
    rw [Nat.sub_zero]
    omega
  unsized _ := hwrites
  gaps g hg := absurd hg List.not_mem_nil
  asked id r range hr := by
    rw [Table.get?_of_entries_nil hidle] at hr
    cases hr

theorem Good.openCurrent (hg : Good base entries content s) (hsound : s.Sound base entries answered sent)
    (hplain : AllPlain entries) (hplace : Placeable entries) (hsizes : Announced entries content)
    (hentry : entries[s.download.current]? = some entry) (hfile : s.download.file = none)
    (h : s.openCurrent (logged Disk.fs) entry = (error, s')) :
    error = none ∧ s'.download.inFlight.entries = [] ∧ s'.download.entries = entries ∧
      s'.download.current = s.download.current ∧
      (s'.download.file = none →
        Laid base entries content (s.download.current + 1) (s.download.current + 1) s'.disk.1 s'.log) ∧
      (s'.download.file ≠ none → Good base entries content s' ∧
        s'.download.remaining content ≤ s.download.remaining content) := by
  have hlaid := hg.laid
  rw [if_pos hfile] at hlaid
  have hmem := List.mem_of_getElem? hentry
  obtain ⟨rfl, hmade⟩ := openCurrent_disk hlaid hsound.folder hplace hentry (hplain entry hmem).1 h
  obtain ⟨⟨ops, hlog, hops⟩, hcases⟩ := openCurrent_cases h
  have hquiet : ∀ op ∈ ops, op.written = none := fun op hop => (hops op hop).written
  have hidle := hsound.idle hfile
  have hfolder : Held base content entry s'.disk.1 s'.log → ∀ opened ≤ s.download.current + 1,
      Laid base entries content s.download.current opened s'.disk.1 s.log →
      Laid base entries content (s.download.current + 1) (s.download.current + 1) s'.disk.1 s'.log := by
    intro hheld opened hopened hlaid'
    rw [hlog] at hheld ⊢
    exact (hlaid'.logged hquiet).next hentry hopened hheld
  -- Of a file that was not opened before nothing is written.
  have hwrites : entry.dir = false → writesTo (base ++ entry.path) s'.log = [] := by
    intro hdir
    rw [hlog, writesTo_append_none hquiet]
    exact hlaid.untouched _ entry (Nat.le_refl _) hentry hdir
  have hthere : entry.size = some 0 ∨ entry.dir = true →
      Laid base entries content (s.download.current + 1) (s.download.current + 1) s'.disk.1 s'.log := by
    intro hnothing
    rcases hmade with ⟨hdir, hlaid', hget⟩ | ⟨hdir, hlaid', hget⟩
    · refine hfolder ?_ _ (Nat.le_succ _) hlaid'
      unfold Held
      rw [hdir, if_pos rfl]
      exact hget
    · obtain hempty := hnothing.resolve_right (by rw [hdir]; exact Bool.false_ne_true)
      have hnil : content entry.index = [] := List.eq_nil_of_length_eq_zero ((hsizes entry hmem hdir).2 0 hempty).symm
      refine hfolder ?_ _ (Nat.le_refl _) hlaid'
      unfold Held
      rw [hdir, if_neg Bool.false_ne_true, hnil, hwrites hdir]
      exact ⟨hget, fun p => ((additive_hits p).empty 0).symm⟩
  rcases hcases with herror | ⟨hdir, hd⟩ | ⟨hempty, hd⟩ | ⟨hdir, hsize, hd⟩
  · exact absurd rfl herror
  · rw [hd]
    exact ⟨rfl, hidle, hsound.list, rfl, fun _ => hthere (.inr hdir), fun hopen => absurd hfile hopen⟩
  · rw [hd]
    exact ⟨rfl, hidle, hsound.list, rfl, fun _ => hthere (.inl hempty), fun hopen => absurd hfile hopen⟩
  · obtain ⟨-, hlaid', hget⟩ := hmade.resolve_left fun h => by rw [hdir] at h; cases h.1
    have hannounced := (hsizes entry hmem hdir).2
    refine ⟨rfl, by rw [hd]; exact hidle, by rw [hd]; exact hsound.list, by rw [hd],
      fun hnone => (by rw [hd] at hnone; cases hnone), fun _ => ⟨⟨?_, fun e _ he => ?_⟩, ?_⟩⟩
    · rw [hd, if_neg (Option.some_ne_none _), hlog]
      exact hlaid'.logged hquiet
    · rw [hd] at he ⊢
      cases hentry.symm.trans he
      rw [hsound.folder]
      exact .fresh hdir hannounced hget (hwrites hdir) hidle
    · have hlisted : s.download.entries[s.download.current]? = some entry := hsound.list.symm ▸ hentry
      have hopened : s'.download.file = some (s.download.base ++ entry.path) := by rw [hd]
      have hlist : s'.download.entries = s.download.entries := by rw [hd]
      have hcurrent : s'.download.current = s.download.current := by rw [hd]
      have hsized : s'.download.size = entry.size := by rw [hd]
      rw [remaining_of_closed hfile, sum_drop_current hlisted]
      cases hsize' : entry.size with
      | none =>
        rw [remaining_of_unsized hopened (hsized.trans hsize') (by rw [hlist, hcurrent]; exact hlisted), hlist,
          hcurrent]
      | some n =>
        obtain rfl := hannounced n hsize'
        have hall : s'.download.outstanding Prod.snd (content entry.index).length = (content entry.index).length := by
          rw [hd]
          unfold Download.outstanding Table.total
          rw [hidle]
          exact Nat.zero_add _
        rw [remaining_of_sized hopened (hsized.trans hsize'), hall, hlist, hcurrent]
        omega

theorem Good.visit (hg : Good base entries content s) (hsound : s.Sound base entries answered (sent ++ requests))
    (hroomy : s.Roomy) (hplain : AllPlain entries) (hplace : Placeable entries)
    (hsizes : Announced entries content) (hentry : entries[s.download.current]? = some entry) :
    (s.visit (logged Disk.fs) entry requests).Outcome
      (fun s' _ => Good base entries content s' ∧ s'.Roomy ∧
        s'.download.remaining content ≤ s.download.remaining content)
      (fun s' _ => Good base entries content s' ∧ s'.Roomy ∧ s'.download.inFlight.entries ≠ [] ∧
        s'.download.remaining content ≤ s.download.remaining content)
      fun _ _ => False := by
  unfold Run.visit
  by_cases hfile : s.download.file = none
  · rw [if_pos hfile]
    cases hopen : s.openCurrent (logged Disk.fs) entry with
    | mk error s₁ =>
      obtain ⟨rfl, hidle, hlist, hcurrent, hskip, hgood⟩ :=
        hg.openCurrent hsound hplain hplace hsizes hentry hfile hopen
      obtain ⟨hsound₁, -⟩ := (hsound.openCurrent hplain hentry hfile hopen).2 rfl
      dsimp only
      by_cases hfile₁ : s₁.download.file = none
      · rw [if_pos hfile₁]
        have hlisted : s.download.entries[s.download.current]? = some entry := hsound.list.symm ▸ hentry
        refine ⟨⟨?_, fun e h => absurd hfile₁ h⟩, .of_idle hidle, ?_⟩
        · rw [if_pos hfile₁, hcurrent]
          exact hskip hfile₁
        · rw [remaining_of_closed (d := { s₁.download with current := s₁.download.current + 1 }) hfile₁,
            remaining_of_closed hfile, sum_drop_current hlisted]
          rw [hlist, hcurrent, hsound.list]
          exact Nat.le_add_left _ _
      · rw [if_neg hfile₁]
        obtain ⟨hg₁, hless⟩ := hgood hfile₁
        have hfetch := @Clipboard.Run.Good.fetch _ _ _ _ _ requests _ _ hg₁ hsound₁ (.of_idle hidle)
          (hcurrent ▸ hentry) hfile₁
        cases hnext : s₁.fetch (logged Disk.fs) entry requests with
        | again s₂ requests₂ =>
          rw [hnext] at hfetch
          exact ⟨hfetch.1, hfetch.2.1, Nat.le_trans hfetch.2.2 hless⟩
        | stop s₂ result =>
          rw [hnext] at hfetch
          cases result with
          | error progress => exact hfetch
          | ok requests₂ => exact ⟨hfetch.1, hfetch.2.1, hfetch.2.2.1, Nat.le_trans hfetch.2.2.2 hless⟩
  · rw [if_neg hfile]
    dsimp only
    rw [if_neg hfile]
    exact hg.fetch hsound hroomy hentry hfile

theorem Good.pumpAll (hg : Good base entries content s) (hsound : s.Sound base entries answered sent)
    (hroomy : s.Roomy) (hplain : AllPlain entries) (hplace : Placeable entries)
    (hsizes : Announced entries content) (hcurrent : s.download.current ≤ entries.length) :
    Outcome (fun s' _ => Good base entries content s' ∧ s'.Roomy ∧ s'.download.inFlight.entries ≠ [] ∧
        s'.download.remaining content ≤ s.download.remaining content)
      (fun s' progress => progress = .finished s'.download.topLevel ∧ s'.download.inFlight.entries = [] ∧
        ∀ e ∈ entries, Held base content e s'.disk.1 s'.log)
      (s.pumpAll (logged Disk.fs)) := by
  refine pump_rule (I := fun s' requests => Sound base entries answered (sent ++ requests) s' ∧
      Good base entries content s' ∧ s'.Roomy ∧
      s'.download.remaining content ≤ s.download.remaining content)
    (fun s' requests entry h hentry => ?_) (fun s' requests h hflight => ⟨h.2.1, h.2.2.1, hflight, h.2.2.2⟩)
    (fun s' requests h hend hidle => ⟨rfl, hidle, fun e he => ?_⟩) (by omega) (hsound.list.symm ▸ hcurrent)
    ⟨(List.append_nil sent).symm ▸ hsound, hg, hroomy, Nat.le_refl _⟩
  · obtain ⟨hsound', hg', hroomy', hless⟩ := h
    rw [hsound'.list] at hentry
    have hsoundly := @Clipboard.Run.Sound.visit _ _ _ Disk.fs _ _ _ _ hsound' hplain _ hentry
    have hturn := hg'.visit hsound' hroomy' hplain hplace hsizes hentry
    cases hnext : s'.visit (logged Disk.fs) entry requests with
    | again s₁ requests₁ =>
      rw [hnext] at hsoundly hturn
      exact ⟨⟨hsoundly.1, hturn.1, hturn.2.1, Nat.le_trans hturn.2.2 hless⟩,
        hsoundly.1.list.trans hsound'.list.symm, hsoundly.2⟩
    | stop s₁ result =>
      rw [hnext] at hturn
      cases result with
      | error progress => exact hturn.elim
      | ok requests₁ => exact ⟨hturn.1, hturn.2.1, hturn.2.2.1, Nat.le_trans hturn.2.2.2 hless⟩
  · obtain ⟨i, hlt, rfl⟩ := List.getElem_of_mem he
    rw [h.1.list, List.getElem?_eq_none_iff] at hend
    exact h.2.1.laid.complete i _ (Nat.lt_of_lt_of_le hlt hend) (List.getElem?_eq_getElem hlt)

/-! ## A truthful answer -/

/-- The state an answer is taken in: its request is no longer in flight. -/
def without (s : Run (Disk × List FileOp)) (id : UInt32) : Run (Disk × List FileOp) :=
  { s with download := { s.download with inFlight := s.download.inFlight.erase id } }

theorem outstanding_taken {w : Range → ℕ} (hw : Ranges.Additive w) {id : UInt32} {request : InFlight} {position len k : ℕ}
    (hrequest : d.inFlight.get? id = some request) (hrange : request.range = some (position, len))
    (hk : k ≤ len) (n : ℕ) :
    w (position, k) + Download.outstanding w { d with
        inFlight := d.inFlight.erase id
        done := n
        gaps := if k < len then d.gaps ++ [(position + k, len - k)] else d.gaps } size =
      d.outstanding w size := by
  have herase := Table.total_erase (fun r : InFlight => (r.range.map w).getD 0) d.inFlight id
  rw [hrequest] at herase
  change _ + (request.range.map w).getD 0 = _ at herase
  rw [hrange] at herase
  change _ + w (position, len) = _ at herase
  have hcut := hw position len k hk
  unfold Download.outstanding
  dsimp only
  split
  · rw [count_append, count_singleton]
    omega
  · next hfull =>
    rw [Nat.sub_eq_zero_of_le (Nat.le_of_not_lt hfull), hw.empty] at hcut
    omega

variable {id : UInt32} {request : InFlight}

variable {position len : ℕ} {data : List UInt8}

theorem Filling.write
    (h : Filling content entry path d disk log) (hrequest : d.inFlight.get? id = some request)
    (hrange : request.range = some (position, len)) (hsize : d.size = some size) (hne : data ≠ [])
    (hdata : data <+: ((content entry.index).drop position).take len) (n : ℕ) :
    ∃ bytes, disk.get? path = some (.file bytes) ∧
      Filling content entry path { d with
        inFlight := d.inFlight.erase id
        done := n
        gaps := if data.length < len then d.gaps ++ [(position + data.length, len - data.length)] else d.gaps }
        (disk.set path (.file (writeAt 0 bytes position data))) (log ++ [.write path position data]) := by
  obtain ⟨bytes, hget, hlen, hright⟩ := h.stored
  obtain ⟨rfl, hcount⟩ := h.sized size hsize
  have hshort := hdata.length_le
  rw [List.length_take, List.length_drop] at hshort
  have hpos := List.length_pos_of_ne_nil hne
  have hwrites : writesTo path (log ++ [.write path position data]) =
      writesTo path log ++ [(position, data.length)] := by
    rw [writesTo_append, writesTo_write]
  have hsum : ∀ p, count (hits p) (writesTo path (log ++ [.write path position data])) =
      count (hits p) (writesTo path log) + hits p (position, data.length) := by
    intro p
    rw [hwrites, count_append, count_singleton]
  refine ⟨bytes, hget, h.isFile, ⟨writeAt 0 bytes position data, Table.get?_set_self _ _ _, ?_, fun p hp => ?_⟩,
    fun n' hn => ?_, fun hn => ?_, fun g hg => ?_, fun other r range hr => ?_⟩
  · rw [length_writeAt]
    omega
  · rw [hsum] at hp
    rw [getElem?_writeAt]
    by_cases hin : position ≤ p ∧ p < position + data.length
    · rw [if_pos hin, List.prefix_iff_eq_take.mp hdata, List.getElem?_take_of_lt (by omega),
        List.getElem?_take_of_lt (by omega), List.getElem?_drop]
      congr 1
      omega
    · have hnot : hits p (position, data.length) = 0 := if_neg hin
      have hbefore := hright p (by omega)
      have hpart := hcount p
      have hhit : 0 < hits p (0, (content entry.index).length) := by omega
      have hlt : p < (content entry.index).length := by
        have hend := (hits_of_pos hhit).2
        omega
      rw [List.getElem?_eq_getElem hlt] at hbefore
      obtain ⟨hstored, -⟩ := List.getElem?_eq_some_iff.mp hbefore
      rw [if_neg hin, if_pos hstored, hbefore, List.getElem?_eq_getElem hlt]
  · cases hsize.symm.trans hn
    refine ⟨rfl, fun p => ?_⟩
    have htaken := @outstanding_taken (content entry.index).length d _ (additive_hits p) _ _ _ _ data.length
      hrequest hrange (by omega) n
    have hpart := hcount p
    rw [hsum]
    omega
  · cases hsize.symm.trans hn
  · dsimp only at hg
    split at hg
    · rcases List.mem_append.mp hg with hg | hg
      · exact h.gaps g hg
      · obtain rfl := List.mem_singleton.mp hg
        omega
    · exact h.gaps g hg
  · replace hr : (d.inFlight.erase id).get? other = some r := hr
    rw [Table.get?_erase] at hr
    split at hr
    · cases hr
    · exact h.asked other r range hr

theorem take_piece {request : InFlight} {position len : ℕ} {data bytes : List UInt8}
    (hrange : request.range = some (position, len)) (hne : data ≠ []) (hshort : data.length ≤ len)
    (hfile : s.download.file = some path) (hget : s.disk.1.get? path = some (.file bytes)) :
    Run.take (logged Disk.fs) s request (some data) = (none, { s with
      disk := (s.disk.1.set path (.file (writeAt 0 bytes position data)),
        s.log ++ [.write path position data])
      download := { s.download with
        done := (s.download.done + data.length) % 2 ^ 64
        gaps :=
          if data.length < len then s.download.gaps ++ [(position + data.length, len - data.length)]
          else s.download.gaps } }) := by
  unfold Run.take
  rw [hrange]
  dsimp only
  rw [if_neg fun h => h.elim hne (Nat.not_lt.mpr hshort), hfile]
  dsimp only
  rw [perform_disk (show Disk.fs (.write _ _ _) _ = _ from Disk.write_ok hget)]
  dsimp only
  rw [hfile]

theorem Good.takeRange (hg : Good base entries content s) (hsound : s.Sound base entries answered sent)
    (hplain : AllPlain entries) (hplace : Placeable entries) (hrequest : s.download.inFlight.get? id = some request)
    (hroomy : (s.without id).Roomy) (hrange : request.range = some (position, len))
    (hentry : entries[s.download.current]? = some entry) (hne : data ≠ [])
    (hdata : data <+: ((content entry.index).drop position).take len) : ∃ s', Run.take (logged Disk.fs) (s.without id)
    request (some data) = (none, s') ∧ Good base entries content s' ∧ s'.Roomy ∧ s'.download.remaining content <
    s.download.remaining content := by
  obtain ⟨e, he, hpath⟩ := hsound.not_idle hrequest
  cases hentry.symm.trans he
  have hopen : s.download.file ≠ none := by
    rw [hpath]
    exact Option.some_ne_none _
  obtain ⟨-, -, hflight⟩ := hsound.flights id request hrequest
  rw [hrange] at hflight
  obtain ⟨size, hsize, -⟩ := hflight
  have hfilling := hg.filling entry hopen hentry
  obtain ⟨bytes, hget, hfilled⟩ := hfilling.write hrequest hrange hsize hne hdata
    ((s.download.done + data.length) % 2 ^ 64)
  have hshort : data.length ≤ len := by
    have hlen := hdata.length_le
    rw [List.length_take] at hlen
    omega
  have hpos := List.length_pos_of_ne_nil hne
  have hlaid := hg.laid
  rw [if_neg hopen] at hlaid
  let d : Download := { s.download with
    inFlight := s.download.inFlight.erase id
    done := (s.download.done + data.length) % 2 ^ 64
    gaps :=
      if data.length < len then s.download.gaps ++ [(position + data.length, len - data.length)]
      else s.download.gaps }
  refine ⟨{ s with
      disk := (s.disk.1.set (base ++ entry.path) (.file (writeAt 0 bytes position data)),
        s.log ++ [.write (base ++ entry.path) position data])
      download := d }, ?_, ⟨?_, fun e _ he => ?_⟩, ⟨hroomy.few, hroomy.free⟩, ?_⟩
  · exact take_piece (s := s.without id) hrange hne hshort hpath hget
  · show Laid base entries content s.download.current (if s.download.file = none then _ else _) _ _
    rw [if_neg hopen]
    exact hlaid.setFile hplace hentry hfilling.isFile (hplain entry (List.mem_of_getElem? hentry)).1 (Nat.le_refl _) _ fun other hother =>
      writesTo_write_ne hother position data
  · cases hentry.symm.trans he
    exact hfilled
  · rw [remaining_of_sized hpath hsize, remaining_of_sized (d := d) hpath hsize]
    have htaken := @outstanding_taken size s.download _ additive_length _ _ _ _ _ hrequest hrange hshort
      ((s.download.done + data.length) % 2 ^ 64)
    dsimp only [d] at htaken ⊢
    omega

theorem Filling.measured (h : Filling content entry path d disk log) (hsize : d.size = none)
    (hgaps : d.gaps = []) (hnext : d.next = 0) {inFlight : Table UInt32 InFlight} (hidle : inFlight.entries = [])
    (total : ℕ) :
    Filling content entry path { d with
        inFlight := inFlight, total := total, size := some (content entry.index).length } disk log ∧
      Download.outstanding Prod.snd { d with
        inFlight := inFlight, total := total, size := some (content entry.index).length }
        (content entry.index).length = (content entry.index).length := by
  have hall : ∀ w : Range → ℕ, Download.outstanding w { d with
      inFlight := inFlight, total := total, size := some (content entry.index).length }
      (content entry.index).length = w (0, (content entry.index).length) := by
    intro w
    unfold Download.outstanding Table.total
    rw [hidle, hgaps, hnext]
    exact Nat.zero_add _
  refine ⟨⟨h.isFile, h.stored, fun n hn => ?_, fun hn => (nomatch hn), h.gaps, fun other r range hr => ?_⟩,
    hall Prod.snd⟩
  · cases hn
    refine ⟨rfl, fun p => ?_⟩
    rw [h.unsized hsize, count_nil, Nat.zero_add]
    exact hall _
  · rw [Table.get?_of_entries_nil hidle] at hr
    cases hr

theorem Good.takeSize (hg : Good base entries content s) (hsound : s.Sound base entries answered sent)
    (hsizes : Announced entries content) (hrequest : s.download.inFlight.get? id = some request)
    (hroomy : (s.without id).Roomy) (hrange : request.range = none)
    (hentry : entries[s.download.current]? = some entry) : ∃ s', Run.take (logged Disk.fs) (s.without id) request
    (some (leBytes 8 (content entry.index).length)) = (none, s') ∧ Good base entries content s' ∧ s'.Roomy ∧
    s'.download.remaining content < s.download.remaining content := by
  obtain ⟨e, he, hpath⟩ := hsound.not_idle hrequest
  cases hentry.symm.trans he
  have hopen : s.download.file ≠ none := by
    rw [hpath]
    exact Option.some_ne_none _
  have hfilling := hg.filling entry hopen hentry
  have hsize := hsound.flights id request hrequest
  rw [hrange] at hsize
  obtain ⟨-, -, hunsized⟩ := hsize
  obtain ⟨hone, hgaps, hnext⟩ := hsound.sizing hunsized hopen
  have hlen := Table.length_erase_of_some hrequest
  have hidle : (s.download.inFlight.erase id).entries = [] := List.eq_nil_of_length_eq_zero (by omega)
  obtain ⟨hfits, -⟩ := hsizes entry (List.mem_of_getElem? hentry) hfilling.isFile
  have hread : leNat (leBytes 8 (content entry.index).length) = (content entry.index).length :=
    leNat_leBytes (by omega)
  have hlaid := hg.laid
  have hlisted : s.download.entries[s.download.current]? = some entry := hsound.list.symm ▸ hentry
  -- The state in which the size is known.
  obtain ⟨s₁, hs₁⟩ : ∃ s₁ : Run (Disk × List FileOp), s₁ = { s with download := { s.download with
      inFlight := s.download.inFlight.erase id
      total := saturatingAdd s.download.total (content entry.index).length
      size := some (content entry.index).length } } := ⟨_, rfl⟩
  obtain ⟨hfilled, hall⟩ : Filling content entry (base ++ entry.path) s₁.download s₁.disk.1 s₁.log ∧
      s₁.download.outstanding Prod.snd (content entry.index).length = (content entry.index).length := by
    rw [hs₁]
    exact hfilling.measured hunsized hgaps hnext hidle _
  have hg₁ : Good base entries content s₁ := by
    refine ⟨by rw [hs₁]; exact hlaid, fun e _ he => ?_⟩
    rw [hs₁] at he
    cases hentry.symm.trans he
    exact hfilled
  have hcurrent : s₁.download.current = s.download.current := by rw [hs₁]
  have hlist : s₁.download.entries = s.download.entries := by rw [hs₁]
  have htake : Run.take (logged Disk.fs) (s.without id) request (some (leBytes 8 (content entry.index).length)) =
        (none, if (content entry.index).length = 0 then s₁.closeCurrent (logged Disk.fs) entry else s₁) := by
    unfold Run.take
    rw [hrange]
    dsimp only
    rw [if_neg (by rw [length_leBytes]; exact fun h => h rfl), hread,
      show (s.without id).download.entries[(s.without id).download.current]? = _ from hlisted, hs₁]
    rfl
  refine ⟨_, htake, ?_⟩
  have hunanswered := @remaining_of_unsized _ content _ _ hpath hunsized hlisted
  by_cases hempty : (content entry.index).length = 0
  · rw [if_pos hempty]
    have hdone := hfilled.done (by rw [hs₁]) (by rw [hs₁]; exact hidle) (by rw [hs₁]; exact hgaps)
      (by rw [hempty]; exact Nat.zero_le _)
    have hheld : Held base content entry s₁.disk.1 s₁.log := by
      unfold Held
      rw [hfilling.isFile, if_neg Bool.false_ne_true]
      exact hdone
    obtain ⟨hd, -⟩ := @closeCurrent_cases _ Disk.fs s₁ entry
    refine ⟨hg₁.closeCurrent (by rw [hcurrent]; exact hentry) hheld, .of_idle (by rw [hd, hs₁]; exact hidle), ?_⟩
    rw [remaining_of_closed (by rw [hd]), hunanswered, hd]
    dsimp only
    rw [hlist, hcurrent]
    omega
  · rw [if_neg hempty]
    refine ⟨hg₁, by rw [hs₁]; exact ⟨hroomy.few, hroomy.free⟩, ?_⟩
    rw [remaining_of_sized (show s₁.download.file = _ by rw [hs₁]; exact hpath) (by rw [hs₁]), hunanswered,
      hall, hlist, hcurrent]
    omega

end Run

/-! ## The whole download -/

namespace Transfer

/-- The folder of the download is new, and can be made. -/
structure Clear (base : Path) (disk : Disk) : Prop where
  above : ∀ p, p <+: base → ∀ bytes, disk.get? p ≠ some (.file bytes)
  below : ∀ q, q ≠ [] → disk.get? (base ++ q) = none

/-- A truthful answer to a request in flight: the size of the file, or some of the range, from its start. -/
def Truthful (content : ℕ → List UInt8) (t : Transfer (Disk × List FileOp))
    (a : UInt32 × Option (List UInt8)) : Prop :=
  t.ended = none ∧ t.run.download.inFlight.get? a.1 ≠ none ∧
    ∃ request data, (t.sent.filter (·.streamId = a.1)).getLast? = some request ∧ a.2 = some data ∧
      if request.size then data = leBytes 8 (content request.index).length
      else data ≠ [] ∧ data <+: ((content request.index).drop request.position).take request.requestedSize

/-- The ids that can be given out once this answer is taken are not those of requests left open. -/
def IdsFree (t : Transfer (Disk × List FileOp)) (a : UInt32 × Option (List UInt8)) : Prop :=
  (t.run.without a.1).Free (window - (t.run.without a.1).download.inFlight.entries.length)

/-- A download on its way to the server's files, or there. -/
structure Reproducing (base : Path) (entries : List RemoteEntry) (content : ℕ → List UInt8)
    (t : Transfer (Disk × List FileOp)) : Prop where
  few : t.run.download.inFlight.entries.length ≤ window
  /-- No byte is written twice. -/
  once : ∀ e ∈ entries, e.dir = false → ∀ p, count (hits p) (writesTo (base ++ e.path) t.run.log) ≤ 1
  /-- What is written, the gaps, what is in flight and the rest are the open file. -/
  parts : t.ended = none → ∀ path size, t.run.download.file = some path → t.run.download.size = some size →
    ∃ e, entries[t.run.download.current]? = some e ∧ path = base ++ e.path ∧
      size = (content e.index).length ∧ ∀ p, count (hits p) (writesTo path t.run.log) +
        t.run.download.outstanding (hits p) size = hits p (0, size)
  /-- The server still has to answer something, and can. -/
  waiting : t.ended = none → t.run.download.inFlight.entries ≠ [] ∧
    ∀ id, t.run.download.inFlight.get? id ≠ none → ∃ data, Truthful content t (id, some data)
  /-- The only end is that everything is there. -/
  finished : ∀ progress, t.ended = some progress → progress = .finished t.run.download.topLevel ∧
    ∀ e ∈ entries, Held base content e t.run.disk.1 t.run.log

/-- What holds of a download between answers, with the most answers there are. -/
structure Kept (base : Path) (entries : List RemoteEntry) (content : ℕ → List UInt8) (total : ℕ)
    (t : Transfer (Disk × List FileOp)) : Prop where
  inv : t.Inv base entries
  few : t.run.download.inFlight.entries.length ≤ window
  going : t.ended = none → t.run.Good base entries content ∧ t.run.download.inFlight.entries ≠ [] ∧
    t.answered.length + t.run.download.remaining content ≤ total
  ending : ∀ progress, t.ended = some progress → t.answered.length ≤ total ∧
    progress = .finished t.run.download.topLevel ∧ ∀ e ∈ entries, Held base content e t.run.disk.1 t.run.log

variable {t : Transfer (Disk × List FileOp)} {a : UInt32 × Option (List UInt8)} {total : ℕ}
  {files : List FileDescriptor} {answered : List UInt32} {sent : List FileContentsRequest} {disk : Disk}

theorem plan_index (h : entry ∈ plan files) : entry.index < maxEntries := by
  obtain ⟨⟨file, index⟩, hmem, hplan⟩ := List.mem_filterMap.mp h
  have hindex : entry.index = index := by
    unfold planEntry at hplan
    dsimp only at hplan
    split at hplan
    · cases hplan
      rfl
    · cases hplan
  have hlt := List.snd_lt_of_mem_zipIdx hmem
  rw [List.length_take] at hlt
  omega

theorem kept_pumpAll {run : Run (Disk × List FileOp)} (hgood : run.Good base entries content)
    (hsound : run.Sound base entries answered sent) (hspends : ∀ total, Known total entries → run.Spends total)
    (hroomy : run.Roomy) (hplain : AllPlain entries) (hplace : Placeable entries)
    (hsizes : Announced entries content) (hcurrent : run.download.current ≤ entries.length)
    (htotal : answered.length + run.download.remaining content ≤ total) :
    Run.Outcome (fun run requests => (Transfer.mk run (sent ++ requests) answered none).Kept base entries content
        total)
      (fun run progress => progress.ended = some progress ∧
        (Transfer.mk run sent answered (some progress)).Kept base entries content total)
      (run.pumpAll (logged Disk.fs)) := by
  have hinv := @inv_pumpAll _ _ Disk.fs _ _ _ _ hplain hsound hspends hcurrent
  have hpump := hgood.pumpAll hsound hroomy hplain hplace hsizes hcurrent
  generalize run.pumpAll (logged Disk.fs) = out at *
  obtain ⟨run', progress | requests⟩ := out
  · obtain ⟨rfl, hidle, hheld⟩ := hpump
    refine ⟨rfl, hinv.2, by dsimp only; rw [hidle]; exact Nat.zero_le _, fun h => (nomatch h), ?_⟩
    rintro progress ⟨⟩
    exact ⟨by dsimp only; omega, rfl, hheld⟩
  · obtain ⟨hgood', hroomy', hflight, hless⟩ := hpump
    exact ⟨hinv, hroomy'.few, fun _ => ⟨hgood', hflight, by dsimp only; omega⟩, fun progress h => (nomatch h)⟩

theorem take_truthful (h : t.Kept base entries content total) (hplain : AllPlain entries) (hplace : Placeable entries)
    (hsizes : Announced entries content) (hindex : ∀ e ∈ entries, e.index < maxEntries) {request : InFlight}
    {data : List UInt8} (hrequest : t.run.download.inFlight.get? a.1 = some request) (hdata : a.2 = some data)
    (htruth : t.Truthful content a) (hfree : t.IdsFree a) : ∃ run, Run.take (logged Disk.fs) (t.run.without a.1)
    request (some data) = (none, run) ∧ run.Good base entries content ∧ run.Roomy ∧ run.download.remaining content <
    t.run.download.remaining content := by
  obtain ⟨hended, -, asked, data', hlast, hdata', hanswer⟩ := htruth
  cases hdata.symm.trans hdata'
  obtain ⟨hgood, -, -⟩ := h.going hended
  have hsound := h.inv.sound hended
  obtain ⟨⟨entry, asked', hentry, hlast', hnumber, hsize, hposition, hrequested⟩, hcurrent, -⟩ :=
    hsound.flights a.1 request hrequest
  cases hlast.symm.trans hlast'
  rw [hcurrent] at hentry
  have hentryIndex : asked.index = entry.index := by
    have hlt := hindex entry (List.mem_of_getElem? hentry)
    unfold maxEntries at hlt
    omega
  have hroomy : (t.run.without a.1).Roomy := by
    refine ⟨?_, hfree⟩
    have hlen := Table.length_erase_of_some hrequest
    have hfew := h.few
    show (t.run.download.inFlight.erase a.1).entries.length ≤ window
    omega
  rw [hsize, hentryIndex, hposition, hrequested] at hanswer
  cases hrange : request.range with
  | none =>
    rw [hrange] at hanswer
    obtain rfl : data = _ := hanswer
    exact hgood.takeSize hsound hsizes hrequest hroomy hrange hentry
  | some range =>
    rw [hrange] at hanswer
    exact hgood.takeRange hsound hplain hplace hrequest hroomy hrange hentry hanswer.1 hanswer.2

theorem kept_answer (h : t.Kept base entries content total) (hplain : AllPlain entries) (hplace : Placeable entries)
    (hsizes : Announced entries content) (hindex : ∀ e ∈ entries, e.index < maxEntries)
    (htruth : t.Truthful content a) (hfree : t.IdsFree a) : (t.answer (logged Disk.fs) a).Kept base entries content
    total ∧ (t.answer (logged Disk.fs) a).answered.length = t.answered.length + 1 := by
  obtain ⟨hended, hflight, -, data, -, hdata, -⟩ := id htruth
  obtain ⟨request, hrequest⟩ := Option.ne_none_iff_exists'.mp hflight
  obtain ⟨-, -, hbudget⟩ := h.going hended
  have hsound := h.inv.sound hended
  obtain ⟨run, htake, hgood, hroomy, hless⟩ := take_truthful h hplain hplace hsizes hindex hrequest hdata htruth hfree
  obtain ⟨-, hgoes⟩ := hsound.take hplain hrequest htake
  obtain ⟨hsound', hcurrent⟩ := hgoes rfl
  have hspends := fun total hknown => ((h.inv.spends hended total hknown).take hsound hrequest htake).2 rfl
  have hpump := @kept_pumpAll _ _ _ total _ _ _ hgood hsound' hspends hroomy hplain hplace hsizes hcurrent
    (by rw [List.length_append, List.length_singleton]; omega)
  unfold Run.without at htake
  unfold answer Run.onResponse
  rw [if_pos ⟨hended, hflight⟩, hrequest, hdata]
  dsimp only
  rw [htake]
  dsimp only
  generalize run.pumpAll (logged Disk.fs) = out at *
  obtain ⟨run', progress | requests⟩ := out
  · dsimp only
    rw [hpump.1, List.append_nil]
    exact ⟨hpump.2, List.length_append⟩
  · exact ⟨hpump, List.length_append⟩

theorem laid_start (hclear : Clear base disk) : ∃ disk', Disk.fs (.privateDir base) disk = (none, disk') ∧ Laid base
    entries content 0 0 disk' [.privateDir base] := by
  obtain ⟨disk', hmade, hget⟩ := Disk.createDirAll_ok fun p _ hp => hclear.above p hp
  have hbelow : ∀ q, q ≠ [] → disk'.get? (base ++ q) = none := by
    intro q hq
    rw [hget, if_neg fun h => ?_, hclear.below q hq]
    have hlen := h.2.length_le
    rw [List.length_append] at hlen
    exact hq (List.eq_nil_of_length_eq_zero (by omega))
  refine ⟨disk', hmade, fun p hp hbase => (hget p).trans (if_pos ⟨hp, hbase⟩), fun q hq hfolder => ?_,
    fun q bytes hq hfile => ?_, fun j e hj => absurd hj (Nat.not_lt_zero j),
    fun j e _ _ _ => List.filterMap_cons_none (ite_self none)⟩
  · cases (hbelow q hq).symm.trans hfolder
  · cases (hbelow q hq).symm.trans hfile

theorem kept_start {clipDataId : Option UInt32} {nextStream : UInt32} (hplain : AllPlain entries)
    (hplace : Placeable entries) (hsizes : Announced entries content) (hclear : Clear base disk) :
    (start (logged Disk.fs) base entries clipDataId nextStream (disk, [])).Kept base entries content
    (entries.map fun e => (content e.index).length + 1).sum := by
  obtain ⟨disk', hmade, hlaid⟩ := @laid_start _ entries content _ hclear
  obtain ⟨hsound, hspends⟩ := new_sound base entries clipDataId nextStream disk'
  have hpump := @kept_pumpAll _ _ content (entries.map fun e => (content e.index).length + 1).sum [] [] _
    ⟨hlaid, fun e hopen => absurd rfl hopen⟩ hsound hspends (.of_idle rfl) hplain hplace hsizes
    (Nat.zero_le _) (by
      rw [Run.remaining_of_closed rfl]
      exact Nat.le_of_eq (Nat.zero_add _))
  have hfirst : Run.perform (logged Disk.fs) ⟨Download.new base entries clipDataId, (disk, []), nextStream⟩
      (.privateDir (Download.new base entries clipDataId).base) =
        (none, ⟨Download.new base entries clipDataId, (disk', [.privateDir base]), nextStream⟩) :=
    Run.perform_disk hmade
  unfold start Run.start
  rw [hfirst]
  dsimp only
  generalize Run.pumpAll (logged Disk.fs) _ = out at *
  obtain ⟨run, progress | requests⟩ := out
  · exact hpump.2
  · exact hpump

theorem can_answer (h : t.Kept base entries content total) (hindex : ∀ e ∈ entries, e.index < maxEntries) (hended : t.ended = none) {id : UInt32}
    (hflight : t.run.download.inFlight.get? id ≠ none) : ∃ data, Truthful content t (id, some data) := by
  obtain ⟨request, hrequest⟩ := Option.ne_none_iff_exists'.mp hflight
  obtain ⟨hgood, -, -⟩ := h.going hended
  have hsound := h.inv.sound hended
  obtain ⟨e, he, hfile⟩ := hsound.not_idle hrequest
  have hfilling := hgood.filling e (by rw [hfile]; exact Option.some_ne_none _) he
  obtain ⟨⟨entry, asked, hentry, hlast, hnumber, hsize, hposition, hrequested⟩, hcurrent, hin⟩ :=
    hsound.flights id request hrequest
  rw [hcurrent] at hentry
  cases he.symm.trans hentry
  have hentryIndex : asked.index = e.index := by
    have hlt := hindex e (List.mem_of_getElem? he)
    unfold maxEntries at hlt
    omega
  cases hrange : request.range with
  | none =>
    rw [hrange] at hsize
    exact ⟨leBytes 8 (content asked.index).length, hended, hflight, asked, _, hlast, rfl, by
      rw [hsize]
      exact rfl⟩
  | some range =>
    rw [hrange] at hsize hposition hrequested hin
    obtain ⟨size, hknown, hend⟩ := hin
    obtain ⟨rfl, -⟩ := hfilling.sized size hknown
    have hpos := hfilling.asked id request range hrequest hrange
    refine ⟨((content e.index).drop range.1).take range.2, hended, hflight, asked, _, hlast, rfl, ?_⟩
    rw [hsize, hentryIndex, hposition, hrequested]
    refine ⟨List.ne_nil_of_length_pos ?_, List.prefix_refl _⟩
    rw [List.length_take, List.length_drop]
    omega

theorem reproducing_of_kept (h : t.Kept base entries content total)
    (hindex : ∀ e ∈ entries, e.index < maxEntries) : t.Reproducing base entries content where
  few := h.few
  once e he hdir p := by
    have hheld : ∀ {e : RemoteEntry}, e.dir = false → Held base content e t.run.disk.1 t.run.log →
        count (hits p) (writesTo (base ++ e.path) t.run.log) ≤ 1 := by
      intro e hdir hheld
      unfold Held at hheld
      rw [hdir, if_neg Bool.false_ne_true] at hheld
      rw [hheld.2]
      exact hits_le_one p _
    cases hended : t.ended with
    | some progress => exact hheld hdir ((h.ending progress hended).2.2 e he)
    | none =>
      obtain ⟨hgood, -, -⟩ := h.going hended
      obtain ⟨j, hlt, rfl⟩ := List.getElem_of_mem he
      have hentry := List.getElem?_eq_getElem hlt
      rcases Nat.lt_trichotomy j t.run.download.current with hj | rfl | hj
      · exact hheld hdir (hgood.laid.complete j _ hj hentry)
      · by_cases hfile : t.run.download.file = none
        · rw [hgood.laid.untouched _ _ (by rw [if_pos hfile]) hentry hdir]
          exact Nat.zero_le 1
        · have hfilling := hgood.filling _ hfile hentry
          cases hsize : t.run.download.size with
          | none =>
            rw [hfilling.unsized hsize]
            exact Nat.zero_le 1
          | some size =>
            have hpart := (hfilling.sized size hsize).2 p
            have hone := hits_le_one p (0, size)
            omega
      · rw [hgood.laid.untouched _ _ (by split <;> omega) hentry hdir]
        exact Nat.zero_le 1
  parts hended path size hfile hsize := by
    obtain ⟨hgood, -, -⟩ := h.going hended
    obtain ⟨e, he, rfl⟩ := (h.inv.sound hended).opened path hfile
    have hfilling := hgood.filling e (by rw [hfile]; exact Option.some_ne_none _) he
    exact ⟨e, he, rfl, hfilling.sized size hsize⟩
  waiting hended := ⟨(h.going hended).2.1, fun id hflight => can_answer h hindex hended hflight⟩
  finished progress hended := (h.ending progress hended).2

theorem answered_le (h : t.Kept base entries content total) : t.answered.length ≤ total := by
  cases hended : t.ended with
  | none => exact Nat.le_trans (Nat.le_add_right _ _) (h.going hended).2.2
  | some progress => exact (h.ending progress hended).1

theorem kept_run {answers : List (UInt32 × Option (List UInt8))} (h : t.Kept base entries content total)
    (hplain : AllPlain entries) (hplace : Placeable entries) (hsizes : Announced entries content)
    (hindex : ∀ e ∈ entries, e.index < maxEntries)
    (hall : Along (answer (logged Disk.fs)) (fun t a => t.Truthful content a ∧ t.IdsFree a) t answers) :
    (Steps.run (answer (logged Disk.fs)) t answers).Kept base entries content total ∧
    (Steps.run (answer (logged Disk.fs)) t answers).answered.length = t.answered.length + answers.length := by
  induction answers generalizing t with
  | nil => exact ⟨h, rfl⟩
  | cons a answers ih =>
    obtain ⟨⟨htruth, hfree⟩, hrest⟩ := hall
    obtain ⟨hkept, hlen⟩ := kept_answer h hplain hplace hsizes hindex htruth hfree
    obtain ⟨hrun, hmore⟩ := ih hkept hrest
    refine ⟨hrun, ?_⟩
    rw [run_cons, hmore, hlen, List.length_cons]
    omega

/-- Where no stream id is given out that a request left open has, a download reproduces the server's files. -/
theorem reproduces (files : List FileDescriptor) (base : Path) (clipDataId : Option UInt32)
    (nextStream : UInt32) (disk : Disk) (content : ℕ → List UInt8)
    (answers : List (UInt32 × Option (List UInt8))) (hplace : Placeable (plan files))
    (hsizes : Announced (plan files) content) (hclear : Clear base disk)
    (h : Along (answer (logged Disk.fs)) (fun t a => t.Truthful content a ∧ t.IdsFree a)
      (start (logged Disk.fs) base (plan files) clipDataId nextStream (disk, [])) answers) :
    (Steps.run (answer (logged Disk.fs)) (start (logged Disk.fs) base (plan files) clipDataId nextStream (disk, []))
        answers).Reproducing base (plan files) content ∧
      answers.length ≤ ((plan files).map fun e => (content e.index).length + 1).sum := by
  have hplain : AllPlain (plan files) := fun e he => plan_plain he
  have hindex : ∀ e ∈ plan files, e.index < maxEntries := fun e he => plan_index he
  have hstart := @kept_start _ _ _ _ clipDataId nextStream hplain hplace hsizes hclear
  obtain ⟨hkept, hlen⟩ := kept_run hstart hplain hplace hsizes hindex h
  have hzero : (start (logged Disk.fs) base (plan files) clipDataId nextStream (disk, [])).answered.length = 0 := by
    unfold start
    split <;> rfl
  have hle := answered_le hkept
  rw [hlen, hzero, Nat.zero_add] at hle
  exact ⟨reproducing_of_kept hkept hindex, hle⟩

def fileOf (size : UInt64) : List FileDescriptor := [⟨['a'], none, none, some size, none⟩]

theorem placeable_fileOf (size : UInt64) : Placeable (plan (fileOf size)) := by
  intro i j e e' he he' hne
  have hlen : (plan (fileOf size)).length ≤ 1 := List.length_filterMap_le _ _
  obtain ⟨hi, -⟩ := List.getElem?_eq_some_iff.mp he
  obtain ⟨hj, -⟩ := List.getElem?_eq_some_iff.mp he'
  omega

theorem clear_empty (base : Path) : Clear base .empty where
  above _ _ _ h := nomatch h
  below _ _ := rfl

/-- Two bytes, one at a time. -/
theorem reproduces_twoBytes :
    (Steps.run (answer (logged Disk.fs)) (start (logged Disk.fs) [['b']] (plan (fileOf 2)) none 0 (.empty, []))
        [(1, some [7]), (2, some [8])]).Reproducing [['b']] (plan (fileOf 2)) (fun _ => [7, 8]) ∧
      2 ≤ ((plan (fileOf 2)).map fun _ => 2 + 1).sum := by
  refine reproduces (fileOf 2) [['b']] none 0 .empty (fun _ => [7, 8]) [(1, some [7]), (2, some [8])]
    (placeable_fileOf 2) ?_ (clear_empty _) ⟨⟨⟨?_, ?_, ?_⟩, ?_⟩, ⟨⟨?_, ?_, ?_⟩, ?_⟩, trivial⟩
  · have hplan : plan (fileOf 2) = [⟨0, [['a']], false, some 2, none, true⟩] := by decide +kernel
    intro e he _
    rw [hplan] at he
    obtain rfl := List.mem_singleton.mp he
    exact ⟨by decide, fun n hn => (Option.some.inj hn).symm⟩
  · decide +kernel
  · decide +kernel
  · exact ⟨⟨1, 0, false, 0, 2, none⟩, [7], by decide +kernel, rfl, by decide +kernel⟩
  · unfold IdsFree Run.Free
    decide +kernel
  · decide +kernel
  · decide +kernel
  · exact ⟨⟨2, 0, false, 1, 1, none⟩, [8], by decide +kernel, rfl, by decide +kernel⟩
  · unfold IdsFree Run.Free
    decide +kernel

/-! ## An id that comes round -/

/-- 8 GiB of zeros, of which one byte is sent at a time, always in answer to the newest request. -/
def manyZeros (_ : ℕ) : List UInt8 := List.replicate (2 ^ 33) 0

def byteByByte : ℕ → List (UInt32 × Option (List UInt8))
  | 0 => []
  | n + 1 => byteByByte n ++ [(UInt32.ofNat (4 + n), some [0])]

def zerosEntry : RemoteEntry := ⟨0, [['a']], false, some (2 ^ 33), none, true⟩

/-- After so many bytes: the first three requests are still open. -/
structure Waiting (n : ℕ) (t : Transfer (Disk × List FileOp)) : Prop where
  inv : t.Inv [['b']] [zerosEntry]
  ended : t.ended = none
  current : t.run.download.current = 0
  file : t.run.download.file = some [['b'], ['a']]
  size : t.run.download.size = some (2 ^ 33)
  gaps : t.run.download.gaps = []
  next : t.run.download.next = chunk * (n / chunk + 4)
  newest : t.run.nextStream = UInt32.ofNat (4 + n)
  flight : t.run.download.inFlight.entries = [(1, ⟨0, some (0, chunk)⟩), (2, ⟨0, some (chunk, chunk)⟩),
    (3, ⟨0, some (2 * chunk, chunk)⟩),
    (UInt32.ofNat (4 + n), ⟨0, some (3 * chunk + n, chunk - n % chunk)⟩)]
  stored : ∃ bytes, t.run.disk.1.get? [['b'], ['a']] = some (.file bytes)
  unwritten : count (hits 0) (writesTo [['b'], ['a']] t.run.log) = 0

theorem waiting_start : Waiting 0 (start (logged Disk.fs) [['b']] (plan (fileOf (2 ^ 33))) none 0 (.empty, [])) := by
  have hplan : plan (fileOf (2 ^ 33)) = [zerosEntry] := by decide +kernel
  refine ⟨?_, by decide +kernel, by decide +kernel, by decide +kernel, by decide +kernel, by decide +kernel,
    by decide +kernel, by decide +kernel, by decide +kernel, ⟨[], by decide +kernel⟩, by decide +kernel⟩
  rw [hplan]
  exact inv_start fun e he => plan_plain (hplan ▸ he)

theorem toNat_id {n : ℕ} (h : 4 + n < 2 ^ 32) : (UInt32.ofNat (4 + n)).toNat = 4 + n :=
  UInt32.toNat_ofNat_of_lt' h

theorem id_ne {n k : ℕ} (h : 4 + n < 2 ^ 32) (hk : k < 4) : UInt32.ofNat k ≠ UInt32.ofNat (4 + n) := by
  intro heq
  have hnat := congrArg UInt32.toNat heq
  rw [toNat_id h, UInt32.toNat_ofNat_of_lt' (by omega : k < 2 ^ 32)] at hnat
  omega

theorem nextStreamId_id {n : ℕ} (h : 5 + n < 2 ^ 32) :
    nextStreamId (UInt32.ofNat (4 + n)) = UInt32.ofNat (4 + (n + 1)) := by
  apply UInt32.toNat_inj.mp
  rw [show (nextStreamId (UInt32.ofNat (4 + n))).toNat = _ from Counter.toNat_next _, toNat_id (by omega), toNat_id (by omega), if_neg (by omega)]
  rfl

/-- The state the byte is written in, with the next range to ask for. -/
structure Written (n : ℕ) (s : Run (Disk × List FileOp)) : Prop where
  list : s.download.entries = [zerosEntry]
  current : s.download.current = 0
  file : s.download.file = some [['b'], ['a']]
  size : s.download.size = some (2 ^ 33)
  newest : s.nextStream = UInt32.ofNat (4 + n)
  flight : s.download.inFlight.entries = [(1, ⟨0, some (0, chunk)⟩), (2, ⟨0, some (chunk, chunk)⟩),
    (3, ⟨0, some (2 * chunk, chunk)⟩)]
  range : s.download.takeRange (2 ^ 33) = some ((3 * chunk + (n + 1), chunk - (n + 1) % chunk),
    { s.download with gaps := [], next := chunk * ((n + 1) / chunk + 4) })
  stored : ∃ bytes, s.disk.1.get? [['b'], ['a']] = some (.file bytes)
  unwritten : count (hits 0) (writesTo [['b'], ['a']] s.log) = 0

variable {n : ℕ}

theorem Waiting.newest_get? (h : Waiting n t) : t.run.download.inFlight.get? (UInt32.ofNat (4 + n)) = some
    ⟨0, some (3 * chunk + n, chunk - n % chunk)⟩ := by
  apply Table.mem_entries.mp
  rw [h.flight]
  exact List.mem_cons_of_mem _ (List.mem_cons_of_mem _ (List.mem_cons_of_mem _ List.mem_cons_self))

theorem range_after {d : Download} (hgaps : d.gaps = if 1 < chunk - n % chunk then
      [(3 * chunk + n + 1, chunk - n % chunk - 1)] else []) (hnext : d.next = chunk * (n / chunk + 4))
    (hn : 4 + n < 2 ^ 32) :
    d.takeRange (2 ^ 33) = some ((3 * chunk + (n + 1), chunk - (n + 1) % chunk),
      { d with gaps := [], next := chunk * ((n + 1) / chunk + 4) }) := by
  unfold Download.takeRange
  unfold chunk at *
  by_cases hrest : 1 < 1024 * 1024 - n % (1024 * 1024)
  · have hrange : (3 * (1024 * 1024) + n + 1, 1024 * 1024 - n % (1024 * 1024) - 1) =
        (3 * (1024 * 1024) + (n + 1), 1024 * 1024 - (n + 1) % (1024 * 1024)) := by
      rw [Prod.mk.injEq]
      omega
    have hsame : d.next = 1024 * 1024 * ((n + 1) / (1024 * 1024) + 4) := by omega
    rw [hgaps, if_pos hrest, ← hsame, ← hrange]
    rfl
  · have hrange : (d.next, min (2 ^ 33 - d.next) (1024 * 1024)) =
        (3 * (1024 * 1024) + (n + 1), 1024 * 1024 - (n + 1) % (1024 * 1024)) := by
      rw [Prod.mk.injEq]
      omega
    have hmore : d.next + min (2 ^ 33 - d.next) (1024 * 1024) =
        1024 * 1024 * ((n + 1) / (1024 * 1024) + 4) := by omega
    rw [if_neg hrest] at hgaps
    rw [hgaps, ← hrange, ← hmore]
    show (if d.next < 2 ^ 33 then _ else _) = _
    rw [if_pos (by omega)]

theorem Waiting.taken (h : Waiting n t) (hn : 4 + n < 2 ^ 32) : ∃ s, Run.take (logged Disk.fs)
    (t.run.without (UInt32.ofNat (4 + n))) ⟨0, some (3 * chunk + n, chunk - n % chunk)⟩ (some [0]) = (none, s) ∧
    Written n s := by
  obtain ⟨bytes, hget⟩ := h.stored
  have hshort : 1 ≤ chunk - n % chunk := by
    unfold chunk
    omega
  refine ⟨_, @Run.take_piece _ (t.run.without (UInt32.ofNat (4 + n))) _ _ _ [0] _ rfl (List.cons_ne_nil _ _)
    hshort h.file hget, (h.inv.sound h.ended).list, h.current, h.file, h.size, h.newest,
    ?_, ?_, ⟨_, Table.get?_set_self _ _ _⟩, ?_⟩
  · show (t.run.download.inFlight.entries.filter fun p => p.1 ≠ UInt32.ofNat (4 + n)) = _
    rw [h.flight]
    have hone : (1 : UInt32) ≠ UInt32.ofNat (4 + n) := id_ne hn (by omega : 1 < 4)
    have htwo : (2 : UInt32) ≠ UInt32.ofNat (4 + n) := id_ne hn (by omega : 2 < 4)
    have hthree : (3 : UInt32) ≠ UInt32.ofNat (4 + n) := id_ne hn (by omega : 3 < 4)
    generalize UInt32.ofNat (4 + n) = id at hone htwo hthree
    simp [hone, htwo, hthree]
  · refine range_after ?_ h.next hn
    show (if 1 < chunk - n % chunk then t.run.download.gaps ++ _ else t.run.download.gaps) = _
    rw [h.gaps]
    rfl
  · show count (hits 0) (writesTo [['b'], ['a']] (t.run.log ++ [.write [['b'], ['a']] (3 * chunk + n) [0]])) = 0
    rw [writesTo_append, count_append, h.unwritten, writesTo_write, count_singleton]
    unfold hits chunk
    rw [if_neg (by dsimp only; omega)]

variable {fuel : ℕ}

theorem fill_succ {D : Type} {s : Run D} {size : ℕ} {requests : List FileContentsRequest} {range : Range}
    {d : Download} (hroom : s.download.inFlight.entries.length < window)
    (htake : s.download.takeRange size = some (range, d)) :
    s.fill entry size (fuel + 1) requests = Run.fill entry size fuel ({ s with download := d }.ask entry (some range)).1
      (requests ++ [({ s with download := d }.ask entry (some range)).2]) := by
  conv_lhs => unfold Run.fill
  rw [if_neg (Nat.not_le.mpr hroom), htake]

theorem fill_full {D : Type} {s : Run D} {size : ℕ} {requests : List FileContentsRequest}
    (hfull : window ≤ s.download.inFlight.entries.length) : s.fill entry size fuel requests = (s, requests) := by
  cases fuel with
  | zero => rfl
  | succ fuel =>
    unfold Run.fill
    rw [if_pos hfull]

theorem pumpAll_open {s : Run (Disk × List FileOp)} {size : ℕ}
    (hentry : s.download.entries[s.download.current]? = some entry) (hfile : s.download.file ≠ none)
    (hsize : s.download.size = some size)
    (hflight : (s.fill entry size (s.download.gaps.length + (size - s.download.next) + 1)
      []).1.download.inFlight.entries ≠ []) :
    s.pumpAll (logged Disk.fs) =
      ((s.fill entry size (s.download.gaps.length + (size - s.download.next) + 1) []).1,
        .ok (s.fill entry size (s.download.gaps.length + (size - s.download.next) + 1) []).2) := by
  unfold Run.pumpAll Run.pump
  rw [hentry]
  dsimp only
  unfold Run.visit
  rw [if_neg hfile]
  dsimp only
  rw [if_neg hfile]
  unfold Run.fetch
  rw [hsize]
  dsimp only
  rw [if_neg hflight]

theorem Waiting.answer_eq (h : Waiting n t) {s : Run (Disk × List FileOp)}
    (htake : Run.take (logged Disk.fs) (t.run.without (UInt32.ofNat (4 + n)))
      ⟨0, some (3 * chunk + n, chunk - n % chunk)⟩ (some [0]) = (none, s))
    {run : Run (Disk × List FileOp)} {requests : List FileContentsRequest}
    (hpump : s.pumpAll (logged Disk.fs) = (run, .ok requests)) :
    t.answer (logged Disk.fs) (UInt32.ofNat (4 + n), some [0]) =
      ⟨run, t.sent ++ requests, t.answered ++ [UInt32.ofNat (4 + n)], none⟩ := by
  unfold Run.without at htake
  unfold answer Run.onResponse
  rw [if_pos ⟨h.ended, by rw [h.newest_get?]; exact Option.some_ne_none _⟩, h.newest_get?]
  dsimp only
  rw [htake]
  dsimp only
  rw [hpump]
  rfl

theorem Waiting.step (h : Waiting n t) (hn : 5 + n < 2 ^ 32) :
    Waiting (n + 1) (t.answer (logged Disk.fs) (UInt32.ofNat (4 + n), some [0])) := by
  obtain ⟨s, htake, hs⟩ := h.taken (by omega)
  have hplan : plan (fileOf (2 ^ 33)) = [zerosEntry] := by decide +kernel
  have hinv := (@answer_inv _ _ Disk.fs _ _ ((UInt32.ofNat (4 + n), some [0]))
    (fun e he => plan_plain (hplan ▸ he)) h.inv).1
  have hid : nextStreamId s.nextStream = UInt32.ofNat (4 + (n + 1)) := by
    rw [hs.newest]
    exact nextStreamId_id hn
  have hnone : s.download.inFlight.get? (nextStreamId s.nextStream) = none := by
    rw [Table.get?_eq_none_iff, hs.flight, hid]
    have hlt : 4 + (n + 1) < 2 ^ 32 := by omega
    intro hmem
    rcases List.mem_cons.mp hmem with h | hmem
    · exact id_ne hlt (by omega : 1 < 4) h.symm
    · rcases List.mem_cons.mp hmem with h | hmem
      · exact id_ne hlt (by omega : 2 < 4) h.symm
      · exact id_ne hlt (by omega : 3 < 4) (List.mem_singleton.mp hmem).symm
  have hroom : s.download.inFlight.entries.length + 1 = window := by rw [hs.flight]; rfl
  have hentries := Table.entries_set_of_none
    (⟨s.download.current, some (3 * chunk + (n + 1), chunk - (n + 1) % chunk)⟩ : InFlight) hnone
  have hfill : s.fill zerosEntry (2 ^ 33) (s.download.gaps.length + (2 ^ 33 - s.download.next) + 1) [] = _ :=
    (fill_succ (by omega) hs.range).trans (fill_full (by
      show window ≤ (s.download.inFlight.set _ _).entries.length
      rw [hentries, List.length_append]
      exact Nat.le_of_eq hroom.symm))
  have hpump := pumpAll_open (by rw [hs.list, hs.current]; rfl) (by rw [hs.file]; exact Option.some_ne_none _)
    hs.size (by
      rw [hfill]
      show (s.download.inFlight.set _ _).entries ≠ []
      rw [hentries]
      exact List.append_ne_nil_of_right_ne_nil _ (List.cons_ne_nil _ _))
  rw [hfill] at hpump
  have hanswer := h.answer_eq htake hpump
  rw [hanswer] at hinv ⊢
  refine ⟨hinv, rfl, hs.current, hs.file, hs.size, rfl, rfl, hid, ?_, hs.stored, hs.unwritten⟩
  show (s.download.inFlight.set _ _).entries = _
  rw [hentries, hs.flight, hid, hs.current]
  rfl

theorem fill_flight {D : Type} {s : Run D} {size : ℕ} {requests : List FileContentsRequest}
    (h : s.download.inFlight.entries ≠ []) : (s.fill entry size fuel requests).1.download.inFlight.entries ≠ [] :=
  Run.fill_invariant (I := fun s' _ => s'.download.inFlight.entries ≠ []) fuel h fun s' _ range d _ _ _ hnil => by
    have hget := Table.get?_of_entries_nil hnil (nextStreamId s'.nextStream)
    replace hget : (d.inFlight.set _ _).get? (nextStreamId s'.nextStream) = none := hget
    rw [Table.get?_set_self] at hget
    cases hget

theorem Waiting.last (h : Waiting n t) (hn : n = 2 ^ 32 - 5) :
    ¬(t.answer (logged Disk.fs) (UInt32.ofNat (4 + n), some [0])).Reproducing [['b']] [zerosEntry] manyZeros := by
  intro hrep
  subst hn
  obtain ⟨s, htake, hs⟩ := h.taken (by omega)
  have hid : nextStreamId s.nextStream = 1 := by
    rw [hs.newest]
    decide
  have hroom : s.download.inFlight.entries.length < window := by rw [hs.flight]; decide
  -- The first request of the new ones takes the place of the one for the first chunk.
  obtain ⟨s₂, hs₂⟩ : ∃ s₂, s₂ = (Run.ask { s with download := { s.download with
      gaps := [], next := chunk * ((2 ^ 32 - 5 + 1) / chunk + 4) } } zerosEntry
      (some (3 * chunk + (2 ^ 32 - 5 + 1), chunk - (2 ^ 32 - 5 + 1) % chunk))).1 := ⟨_, rfl⟩
  have hforgotten : s₂.download.outstanding (hits 0) (2 ^ 33) = 0 := by
    have hset := Table.total_set (fun r : InFlight => (r.range.map (hits 0)).getD 0) s.download.inFlight
      (nextStreamId s.nextStream)
      ⟨s.download.current, some (3 * chunk + (2 ^ 32 - 5 + 1), chunk - (2 ^ 32 - 5 + 1) % chunk)⟩
    have hfirst : s.download.inFlight.get? (nextStreamId s.nextStream) = some ⟨0, some (0, chunk)⟩ := by
      apply Table.mem_entries.mp
      rw [hs.flight, hid]
      exact List.mem_cons_self
    have htotal : s.download.inFlight.total (fun r : InFlight => (r.range.map (hits 0)).getD 0) = 1 := by
      unfold Table.total
      rw [hs.flight]
      decide +kernel
    rw [hfirst, htotal] at hset
    change _ + 1 = 1 + 0 at hset
    have hzero : (s.download.inFlight.set (nextStreamId s.nextStream) ⟨s.download.current,
        some (3 * chunk + (2 ^ 32 - 5 + 1), chunk - (2 ^ 32 - 5 + 1) % chunk)⟩).total
        (fun r : InFlight => (r.range.map (hits 0)).getD 0) = 0 := by omega
    rw [hs₂]
    show 0 + (s.download.inFlight.set (nextStreamId s.nextStream) ⟨s.download.current, some _⟩).total
      (fun r : InFlight => (r.range.map (hits 0)).getD 0) + 0 = 0
    rw [hzero]
  have hflight₂ : s₂.download.inFlight.entries ≠ [] := by
    intro hnil
    have hget := Table.get?_of_entries_nil hnil (nextStreamId s.nextStream)
    rw [hs₂] at hget
    replace hget : (s.download.inFlight.set _ _).get? (nextStreamId s.nextStream) = none := hget
    rw [Table.get?_set_self] at hget
    cases hget
  obtain ⟨requests, hfill⟩ : ∃ requests,
      s.fill zerosEntry (2 ^ 33) (s.download.gaps.length + (2 ^ 33 - s.download.next) + 1) [] =
        s₂.fill zerosEntry (2 ^ 33) (s.download.gaps.length + (2 ^ 33 - s.download.next)) requests := by
    rw [hs₂]
    exact ⟨_, fill_succ hroom hs.range⟩
  have hpump := pumpAll_open (by rw [hs.list, hs.current]; rfl) (by rw [hs.file]; exact Option.some_ne_none _)
    hs.size (by rw [hfill]; exact fill_flight hflight₂)
  rw [hfill] at hpump
  rw [h.answer_eq htake hpump] at hrep
  have hless := @Run.outstanding_fill _ _ (additive_hits 0) s₂ zerosEntry (2 ^ 33)
    (s.download.gaps.length + (2 ^ 33 - s.download.next)) requests
  obtain ⟨hdisk, -, -, -, hfile, hsize⟩ := Run.fill_same (s := s₂) zerosEntry (2 ^ 33)
    (s.download.gaps.length + (2 ^ 33 - s.download.next)) requests
  generalize s₂.fill zerosEntry (2 ^ 33) (s.download.gaps.length + (2 ^ 33 - s.download.next)) requests =
    filled at *
  obtain ⟨e, -, -, -, hparts⟩ := hrep.parts rfl [['b'], ['a']] (2 ^ 33)
    (hfile.trans (by rw [hs₂]; exact hs.file)) (hsize.trans (by rw [hs₂]; exact hs.size))
  have hpart := hparts 0
  have hlog : filled.1.log = s.log := (congrArg Prod.snd hdisk).trans (by rw [hs₂]; rfl)
  dsimp only at hpart
  rw [hlog, hs.unwritten, hits_pos (by decide)] at hpart
  omega

theorem Waiting.truthful (h : Waiting n t) (hn : 4 + n < 2 ^ 32) :
    t.Truthful manyZeros (UInt32.ofNat (4 + n), some [0]) := by
  have hget := h.newest_get?
  obtain ⟨⟨entry, asked, hentry, hlast, hnumber, hsize, hposition, hrequested⟩, -⟩ :=
    (h.inv.sound h.ended).flights _ _ hget
  refine ⟨h.ended, by rw [hget]; exact Option.some_ne_none _, asked, [0], hlast, rfl, ?_⟩
  rw [hsize, hposition, hrequested]
  refine ⟨List.cons_ne_nil _ _, ?_⟩
  show [0] <+: ((List.replicate (2 ^ 33) 0).drop (3 * chunk + n)).take (chunk - n % chunk)
  rw [List.drop_replicate, List.take_replicate]
  have hpos : 1 ≤ min (chunk - n % chunk) (2 ^ 33 - (3 * chunk + n)) := by
    unfold chunk
    omega
  obtain ⟨k, hk⟩ := Nat.exists_eq_add_of_le hpos
  rw [hk, Nat.add_comm, List.replicate_succ]
  exact ⟨List.replicate k 0, rfl⟩

theorem waiting_run {n : ℕ} (hn : n + 5 ≤ 2 ^ 32) :
    Waiting n (Steps.run (answer (logged Disk.fs))
        (start (logged Disk.fs) [['b']] (plan (fileOf (2 ^ 33))) none 0 (.empty, [])) (byteByByte n)) ∧
      Along (answer (logged Disk.fs)) (fun t a => t.Truthful manyZeros a)
        (start (logged Disk.fs) [['b']] (plan (fileOf (2 ^ 33))) none 0 (.empty, [])) (byteByByte n) := by
  induction n with
  | zero => exact ⟨waiting_start, trivial⟩
  | succ n ih =>
    obtain ⟨hwaiting, halong⟩ := ih (by omega)
    refine ⟨?_, along_append.mpr ⟨halong, hwaiting.truthful (by omega), trivial⟩⟩
    show Waiting (n + 1) (Steps.run _ _ (byteByByte n ++ [_]))
    rw [run_append]
    exact hwaiting.step (by omega)

/-- A request left open while all other ids go by is forgotten. -/
theorem first_chunk_forgotten : ¬∀ (files : List FileDescriptor) (base : Path) (clipDataId : Option UInt32)
    (nextStream : UInt32) (disk : Disk) (content : ℕ → List UInt8)
    (answers : List (UInt32 × Option (List UInt8))), Placeable (plan files) → Announced (plan files) content →
    Clear base disk →
    Along (answer (logged Disk.fs)) (fun t a => t.Truthful content a)
      (start (logged Disk.fs) base (plan files) clipDataId nextStream (disk, [])) answers →
    (Steps.run (answer (logged Disk.fs)) (start (logged Disk.fs) base (plan files) clipDataId nextStream (disk, []))
        answers).Reproducing base (plan files) content := by
  intro h
  obtain ⟨n, hn⟩ : ∃ n, n + 5 = 2 ^ 32 := ⟨2 ^ 32 - 5, by omega⟩
  obtain ⟨hwaiting, halong⟩ := waiting_run (n := n) (by omega)
  have hplan : plan (fileOf (2 ^ 33)) = [zerosEntry] := by decide +kernel
  have hall := h (fileOf (2 ^ 33)) [['b']] none 0 .empty manyZeros
    (byteByByte n ++ [(UInt32.ofNat (4 + n), some [0])]) (placeable_fileOf _) ?_
    (clear_empty _) (along_append.mpr ⟨halong, hwaiting.truthful (by omega), trivial⟩)
  · rw [run_append] at hall
    refine hwaiting.last (by omega) ?_
    rw [← hplan]
    exact hall
  · intro e he _
    rw [hplan] at he
    obtain rfl := List.mem_singleton.mp he
    show (List.replicate (2 ^ 33) (0 : UInt8)).length < 2 ^ 64 ∧
      ∀ n, some (2 ^ 33) = some n → n = (List.replicate (2 ^ 33) (0 : UInt8)).length
    rw [List.length_replicate]
    exact ⟨by omega, fun n hn => (Option.some.inj hn).symm⟩

end Transfer

end Clipboard

end UwuRdp
