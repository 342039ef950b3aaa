import UwuRdp.Core.Files
import UwuRdp.Lib.Ranges
import UwuRdp.Lib.Steps

/-!
# A download stays in its folder

Whatever list a server sends, whatever it answers, in whatever order, and whatever fails on the way: what
a download creates or opens is its own folder or below it under plain names, every write is in the range
that was asked for under the answer's stream id and below the size known, and a download the user was not
asked about writes no more than may be downloaded without asking.
-/

namespace UwuRdp

open Lib Lib.Ranges Lib.Steps

namespace Clipboard

/-- A name that is no way out of a folder, and no device. -/
structure Plain (part : Text) : Prop where
  not_empty : part ≠ []
  not_dot : part ≠ ['.']
  not_dots : part ≠ ['.', '.']
  chars : ∀ c ∈ part, c ≠ '/' ∧ c ≠ '\\' ∧ c ≠ ':' ∧ Text.isControl c = false
  not_device : reservedOnWindows part = false

def Inside (base path : Path) : Prop :=
  ∃ parts, parts ≠ [] ∧ path = base ++ parts ∧ ∀ part ∈ parts, Plain part

def FileOp.path : FileOp → Path
  | .privateDir path | .createDirAll path | .create path | .write path _ _ | .setModified path _ => path

/-- Only the folder itself is created besides what is below it. -/
def Contained (base : Path) : FileOp → Prop
  | .privateDir path => path = base
  | .createDirAll path => path = base ∨ Inside base path
  | op => Inside base op.path

def FileOp.written : FileOp → Option Range
  | .write _ position data => some (position, data.length)
  | _ => none

def AllPlain (entries : List RemoteEntry) : Prop :=
  ∀ e ∈ entries, e.path ≠ [] ∧ ∀ part ∈ e.path, Plain part

def bytesWritten (log : List FileOp) : ℕ := count Prod.snd (log.filterMap FileOp.written)

/-! ## Names -/

variable {part : Text} {file : FileDescriptor} {files : List FileDescriptor} {entry : RemoteEntry}
  {base path : Path} {index : ℕ}

theorem plain_of_safe {name : Text} (h : safeComponent part = some name) : Plain name := by
  unfold safeComponent at h
  split at h
  · cases h
  · next hbad =>
    cases h
    unfold badComponent at hbad
    rw [decide_eq_true_iff] at hbad
    simp only [not_or, Bool.not_eq_true, List.any_eq_false] at hbad
    obtain ⟨hempty, hdot, hdots, hchars, hcontrol, -, -, hdevice⟩ := hbad
    refine ⟨hempty, hdot, hdots, fun c hc => ?_, hdevice⟩
    have hchar := of_decide_eq_false (hchars c hc)
    exact ⟨fun h => hchar (.inl h), fun h => hchar (.inr (.inl h)), fun h => hchar (.inr (.inr (.inr h))),
      hcontrol c hc⟩

theorem plain_of_mapM {parts parts' : List Text} (h : parts.mapM safeComponent = some parts') :
    ∀ part ∈ parts', Plain part := by
  induction parts generalizing parts' with
  | nil =>
    cases h
    exact fun part hp => absurd hp List.not_mem_nil
  | cons part parts ih =>
    rw [List.mapM_cons] at h
    obtain ⟨name, hname, h⟩ := Option.bind_eq_some_iff.mp h
    obtain ⟨names, hnames, h⟩ := Option.bind_eq_some_iff.mp h
    cases h
    intro other hother
    rcases List.mem_cons.mp hother with rfl | hother
    · exact plain_of_safe hname
    · exact ih hnames other hother

theorem planEntry_plain (h : planEntry index file = some entry) :
    entry.path ≠ [] ∧ ∀ part ∈ entry.path, Plain part := by
  unfold planEntry at h
  dsimp only at h
  split at h
  · next parent name hparent hname =>
    cases h
    refine ⟨List.append_ne_nil_of_right_ne_nil _ (List.cons_ne_nil _ _), fun part hpart => ?_⟩
    rcases List.mem_append.mp hpart with hpart | hpart
    · split at hparent
      · cases hparent
        cases hpart
      · split at hparent
        · cases hparent
          cases hpart
        · exact plain_of_mapM hparent part hpart
    · obtain rfl := List.mem_singleton.mp hpart
      exact plain_of_safe hname
  · cases h

theorem plan_plain (h : entry ∈ plan files) : entry.path ≠ [] ∧ ∀ part ∈ entry.path, Plain part := by
  obtain ⟨⟨file, index⟩, -, hplan⟩ := List.mem_filterMap.mp h
  exact planEntry_plain hplan

theorem inside_of_plain (h : entry.path ≠ [] ∧ ∀ part ∈ entry.path, Plain part) :
    Inside base (base ++ entry.path) := ⟨entry.path, h.1, rfl, h.2⟩

theorem parent_contained (h : entry.path ≠ [] ∧ ∀ part ∈ entry.path, Plain part) :
    (base ++ entry.path).dropLast = base ∨ Inside base (base ++ entry.path).dropLast := by
  rw [List.dropLast_append_of_ne_nil h.1]
  by_cases hempty : entry.path.dropLast = []
  · rw [hempty, List.append_nil]
    exact .inl rfl
  · exact .inr ⟨_, hempty, rfl, fun part hp => h.2 part ((List.dropLast_sublist _).subset hp)⟩

/-! ## The window -/

namespace Run

variable {D : Type} {s s' : Run D} {requests : List FileContentsRequest} {range : Range} {d : Download}
  {size : ℕ}

theorem takeRange_cases {d d' : Download} (h : d.takeRange size = some (range, d')) :
    (∃ gaps, d.gaps = gaps ++ [range] ∧ d' = { d with gaps := gaps }) ∨
      (d.gaps = [] ∧ d.next < size ∧ range = (d.next, min (size - d.next) chunk) ∧
        d' = { d with next := d.next + min (size - d.next) chunk }) := by
  unfold Download.takeRange at h
  split at h
  · next gap hgap =>
    cases h
    obtain ⟨gaps, hgaps⟩ := List.getLast?_eq_some_iff.mp hgap
    exact .inl ⟨gaps, hgaps, by rw [hgaps, List.dropLast_concat]⟩
  · next hnone =>
    split at h
    · next hlt =>
      cases h
      exact .inr ⟨List.getLast?_eq_none_iff.mp hnone, hlt, rfl, rfl⟩
    · cases h

theorem fill_invariant {I : Run D → List FileContentsRequest → Prop} (fuel : ℕ) (h : I s requests)
    (hstep : ∀ s requests range d, I s requests → s.download.inFlight.entries.length < window →
      s.download.takeRange size = some (range, d) →
      I ({ s with download := d }.ask entry (some range)).1
        (requests ++ [({ s with download := d }.ask entry (some range)).2])) :
    I (s.fill entry size fuel requests).1 (s.fill entry size fuel requests).2 := by
  induction fuel generalizing s requests with
  | zero => exact h
  | succ fuel ih =>
    unfold fill
    split
    · exact h
    · next hwindow =>
      split
      · exact h
      · next range d htake => exact ih (hstep s requests range d h (Nat.lt_of_not_le hwindow) htake)

theorem fill_exit {fuel : ℕ} (h : s.download.gaps.length + (size - s.download.next) < fuel) :
    window ≤ (s.fill entry size fuel requests).1.download.inFlight.entries.length ∨
      (s.fill entry size fuel requests).1.download.gaps = [] ∧
        size ≤ (s.fill entry size fuel requests).1.download.next := by
  induction fuel generalizing s requests with
  | zero => exact absurd h (Nat.not_lt_zero _)
  | succ fuel ih =>
    unfold fill
    split
    · next hfull => exact .inl hfull
    · split
      · next hnone =>
        unfold Download.takeRange at hnone
        split at hnone
        · cases hnone
        · next hgaps =>
          split at hnone
          · cases hnone
          · next hnext => exact .inr ⟨List.getLast?_eq_none_iff.mp hgaps, Nat.le_of_not_lt hnext⟩
      · next range d htake =>
        apply ih
        rcases takeRange_cases htake with ⟨gaps, hgaps, rfl⟩ | ⟨hgaps, hlt, -, rfl⟩
        · rw [hgaps, List.length_append, List.length_singleton] at h
          show gaps.length + (size - s.download.next) < fuel
          omega
        · show s.download.gaps.length + (size - (s.download.next + min (size - s.download.next) chunk)) < fuel
          unfold chunk
          omega

/-- What holds of the state a loop stops in, with its requests or with the end of the download. -/
def Outcome (J : Run D → List FileContentsRequest → Prop) (E : Run D → Progress → Prop) :
    Run D × Except Progress (List FileContentsRequest) → Prop
  | (s, .ok requests) => J s requests
  | (s, .error progress) => E s progress

def Next.Outcome (I J : Run D → List FileContentsRequest → Prop) (E : Run D → Progress → Prop) :
    Next D → Prop
  | .again s requests => I s requests
  | .stop s result => Run.Outcome J E (s, result)

theorem pump_rule {fs : FileSystem D} {I J : Run D → List FileContentsRequest → Prop}
    {E : Run D → Progress → Prop}
    (hvisit : ∀ s requests entry, I s requests → s.download.entries[s.download.current]? = some entry →
      (s.visit fs entry requests).Outcome (fun s' requests' => I s' requests' ∧
        s'.download.entries = s.download.entries ∧ s'.download.current = s.download.current + 1) J E)
    (hflight : ∀ s requests, I s requests → s.download.inFlight.entries ≠ [] → J s requests)
    (hfinish : ∀ s requests, I s requests → s.download.entries[s.download.current]? = none →
      s.download.inFlight.entries = [] →
      E { s with download := { s.download with finished := true } } (.finished s.download.topLevel))
    {fuel : ℕ} (hfuel : s.download.entries.length < fuel + s.download.current)
    (hcurrent : s.download.current ≤ s.download.entries.length) (h : I s requests) :
    Outcome J E (s.pump fs fuel requests) := by
  induction fuel generalizing s requests with
  | zero => omega
  | succ fuel ih =>
    unfold pump
    cases hentry : s.download.entries[s.download.current]? with
    | none =>
      by_cases hidle : s.download.inFlight.entries = []
      · rw [if_pos hidle]
        exact hfinish s requests h hentry hidle
      · rw [if_neg hidle]
        exact hflight s requests h hidle
    | some entry =>
      have hturn := hvisit s requests entry h hentry
      obtain ⟨hlt, -⟩ := List.getElem?_eq_some_iff.mp hentry
      dsimp only
      cases hnext : s.visit fs entry requests with
      | again s' requests' =>
        rw [hnext] at hturn
        obtain ⟨hI, hlist, hmoved⟩ := hturn
        exact ih (by rw [hlist, hmoved]; omega) (by rw [hlist, hmoved]; omega) hI
      | stop s' result =>
        rw [hnext] at hturn
        exact hturn

/-! ## What holds of a download -/

def LastSent (entries : List RemoteEntry) (sent : List FileContentsRequest) (id : UInt32) (r : InFlight) : Prop :=
  ∃ entry request, entries[r.index]? = some entry ∧
    (sent.filter (·.streamId = id)).getLast? = some request ∧ request.index = min entry.index (2 ^ 31 - 1) ∧
    request.size = r.range.isNone ∧ request.position = (r.range.getD (0, 8)).1 ∧
    request.requestedSize = (r.range.getD (0, 8)).2

variable {id : UInt32} {request : InFlight} {data : Option (List UInt8)}

theorem lastSent_append_ne {entries : List RemoteEntry} {sent : List FileContentsRequest}
    {r : InFlight} (h : LastSent entries sent id r) {request : FileContentsRequest}
    (hne : request.streamId ≠ id) : LastSent entries (sent ++ [request]) id r := by
  obtain ⟨entry, other, hentry, hlast, hasked⟩ := h
  refine ⟨entry, other, hentry, ?_, hasked⟩
  rw [List.filter_append, List.filter_cons_of_neg (by simpa using hne), List.filter_nil, List.append_nil]
  exact hlast

theorem lastSent_ask {entries : List RemoteEntry} {entry : RemoteEntry} {index : ℕ}
    (hentry : entries[index]? = some entry) (d : Download) (id : UInt32) (range : Option Range)
    (sent : List FileContentsRequest) : LastSent entries (sent ++ [d.request entry id range]) id ⟨index, range⟩ := by
  refine ⟨entry, d.request entry id range, hentry, ?_, rfl, rfl, rfl, rfl⟩
  rw [List.filter_append, List.filter_cons_of_pos (by simp [Download.request]), List.filter_nil, List.getLast?_concat]

variable {L : Type} {fs : FileSystem L} {entries : List RemoteEntry} {sent : List FileContentsRequest}

def log (s : Run (L × List FileOp)) : List FileOp := s.disk.2

/-- What holds between answers, with all requests sent so far and the ids of the answers taken. -/
structure Sound (base : Path) (entries : List RemoteEntry) (answered : List UInt32)
    (sent : List FileContentsRequest) (s : Run (L × List FileOp)) : Prop where
  folder : s.download.base = base
  list : s.download.entries = entries
  log : ∀ op ∈ s.log, Contained base op
  opened : ∀ path, s.download.file = some path →
    ∃ entry, entries[s.download.current]? = some entry ∧ path = base ++ entry.path
  idle : s.download.file = none → s.download.inFlight.entries = []
  sizing : s.download.size = none → s.download.file ≠ none →
    s.download.inFlight.entries.length ≤ 1 ∧ s.download.gaps = [] ∧ s.download.next = 0
  ranges : ∀ size, s.download.size = some size → s.download.file ≠ none →
    s.download.next ≤ size ∧ ∀ g ∈ s.download.gaps, g.1 + g.2 ≤ size
  flights : ∀ id r, s.download.inFlight.get? id = some r → LastSent entries sent id r ∧
    r.index = s.download.current ∧
    match r.range with
    | none => s.download.size = none
    | some range => ∃ size, s.download.size = some size ∧ range.1 + range.2 ≤ size
  times : ∀ id, answered.count id + (if s.download.inFlight.get? id = none then 0 else 1) ≤
    (sent.filter (·.streamId = id)).length

variable {s s' : Run (L × List FileOp)} {error : Option Text} {op : FileOp} {answered : List UInt32}

theorem perform_logged (h : s.perform (logged fs) op = (error, s')) :
    s'.download = s.download ∧ s'.nextStream = s.nextStream ∧ s'.log = s.log ++ [op] := by
  obtain ⟨-, rfl⟩ := Prod.mk.inj h
  exact ⟨rfl, rfl, rfl⟩

theorem Sound.ask (hs : Sound base entries answered sent s) {entry : RemoteEntry} {range : Option Range}
    (hentry : entries[s.download.current]? = some entry) (hfile : s.download.file ≠ none)
    (hrange : match range with
      | none => s.download.size = none ∧ s.download.inFlight.entries = []
      | some range => ∃ size, s.download.size = some size ∧ range.1 + range.2 ≤ size) :
    Sound base entries answered (sent ++ [(s.ask entry range).2]) (s.ask entry range).1 where
  folder := hs.folder
  list := hs.list
  log := hs.log
  opened := hs.opened
  idle h := absurd h hfile
  sizing hsize _ := by
    obtain ⟨-, hgaps, hnext⟩ := hs.sizing hsize hfile
    refine ⟨?_, hgaps, hnext⟩
    cases range with
    | none =>
      have hlen := Table.length_set_of_none (⟨s.download.current, none⟩ : InFlight)
        (Table.get?_of_entries_nil hrange.2 (nextStreamId s.nextStream))
      rw [hrange.2] at hlen
      exact Nat.le_of_eq hlen
    | some range =>
      obtain ⟨size, hsome, -⟩ := hrange
      cases hsome.symm.trans hsize
  ranges := hs.ranges
  flights id r h := by
    replace h : (s.download.inFlight.set (nextStreamId s.nextStream) ⟨s.download.current, range⟩).get? id =
        some r := h
    rw [Table.get?_set] at h
    split at h
    · next heq =>
      subst heq
      cases h
      refine ⟨lastSent_ask hentry s.download _ range sent, rfl, ?_⟩
      cases range with
      | none => exact hrange.1
      | some range => exact hrange
    · next hne =>
      obtain ⟨hlast, hindex, hsize⟩ := hs.flights id r h
      exact ⟨lastSent_append_ne hlast fun heq => hne heq.symm, hindex, hsize⟩
  times id := by
    have hold := hs.times id
    show answered.count id + (if (s.download.inFlight.set (nextStreamId s.nextStream)
      ⟨s.download.current, range⟩).get? id = none then 0 else 1) ≤
        ((sent ++ [s.download.request entry (nextStreamId s.nextStream) range]).filter
          (·.streamId = id)).length
    rw [Table.get?_set, List.filter_append, List.length_append]
    by_cases heq : id = nextStreamId s.nextStream
    · rw [if_pos heq, if_neg (Option.some_ne_none _),
        List.filter_cons_of_pos (by simp [Download.request, heq]), List.length_cons]
      omega
    · rw [if_neg heq]
      omega

theorem Sound.fill (hs : Sound base entries answered sent s) {entry : RemoteEntry} {size : ℕ} (fuel : ℕ)
    (hentry : entries[s.download.current]? = some entry) (hfile : s.download.file ≠ none)
    (hsize : s.download.size = some size) : ∃ new, (s.fill entry size fuel requests).2 = requests ++ new ∧ Sound base
    entries answered (sent ++ new) (s.fill entry size fuel requests).1 ∧
    (s.fill entry size fuel requests).1.download.current = s.download.current ∧
    (s.fill entry size fuel requests).1.download.file = s.download.file := by
  have hfill := @fill_invariant entry _ s requests size
    (fun s' requests' => ∃ new, requests' = requests ++ new ∧ Sound base entries answered (sent ++ new) s' ∧
      s'.download.current = s.download.current ∧ s'.download.file = s.download.file ∧
      s'.download.size = some size) fuel ⟨[], (List.append_nil _).symm, (List.append_nil sent).symm ▸ hs, rfl, rfl, hsize⟩ ?_
  · obtain ⟨new, hnew, hsound, hcurrent, hfile', -⟩ := hfill
    exact ⟨new, hnew, hsound, hcurrent, hfile'⟩
  · rintro s₁ requests₁ range d ⟨new, rfl, hsound, hcurrent, hfile₁, hsize₁⟩ - htake
    have hopen : s₁.download.file ≠ none := hfile₁ ▸ hfile
    have hentry₁ : entries[s₁.download.current]? = some entry := hcurrent ▸ hentry
    obtain ⟨hnext, hgaps⟩ := hsound.ranges size hsize₁ hopen
    rcases takeRange_cases htake with ⟨gaps, heq, rfl⟩ | ⟨heq, hlt, rfl, rfl⟩
    · have hin : ∀ g ∈ gaps, g.1 + g.2 ≤ size := fun g hg =>
        hgaps g (heq ▸ List.mem_append_left _ hg)
      refine ⟨new ++ [_], List.append_assoc .., ?_, hcurrent, hfile₁, hsize₁⟩
      rw [← List.append_assoc]
      refine Sound.ask (s := { s₁ with download := { s₁.download with gaps := gaps } })
        { hsound with sizing := fun hnone => ?_, ranges := fun n hn _ => ?_ } hentry₁ hopen
        ⟨size, hsize₁, hgaps range (heq ▸ List.mem_append_right _ (List.mem_singleton.mpr rfl))⟩
      · cases hsize₁.symm.trans hnone
      · cases hsize₁.symm.trans hn
        exact ⟨hnext, hin⟩
    · have hend : s₁.download.next + min (size - s₁.download.next) chunk ≤ size := by omega
      refine ⟨new ++ [_], List.append_assoc .., ?_, hcurrent, hfile₁, hsize₁⟩
      rw [← List.append_assoc]
      refine Sound.ask (s := { s₁ with download := { s₁.download with
          next := s₁.download.next + min (size - s₁.download.next) chunk } })
        { hsound with sizing := fun hnone => ?_, ranges := fun n hn _ => ?_ } hentry₁ hopen
        ⟨size, hsize₁, hend⟩
      · cases hsize₁.symm.trans hnone
      · cases hsize₁.symm.trans hn
        exact ⟨hend, hgaps⟩

/-! ## Files -/

theorem setModified_cases (s : Run (L × List FileOp)) (path : Path) (time : Option Moment) :
    (s.setModified (logged fs) path time).download = s.download ∧ ∃ ops, (s.setModified (logged fs) path time).log =
    s.log ++ ops ∧ ∀ op ∈ ops, op.written = none ∧ ∃ time, op = .setModified path time := by
  cases time with
  | none => exact ⟨rfl, [], (List.append_nil _).symm, fun op h => absurd h List.not_mem_nil⟩
  | some time =>
    refine ⟨rfl, [.setModified path time], rfl, fun op h => ?_⟩
    obtain rfl := List.mem_singleton.mp h
    exact ⟨rfl, time, rfl⟩

/-- What opening an entry may ask of the file system. -/
def Opens (path : Path) : FileOp → Prop
  | .createDirAll other => other = path ∨ other = path.dropLast
  | .create other => other = path
  | .setModified other _ => other = path
  | _ => False

theorem Opens.written {path : Path} {op : FileOp} (h : Opens path op) : op.written = none := by
  cases op with
  | write => exact h.elim
  | _ => rfl

theorem openCurrent_cases {entry : RemoteEntry} (h : s.openCurrent (logged fs) entry = (error, s')) :
    (∃ ops, s'.log = s.log ++ ops ∧ ∀ op ∈ ops, Opens (s.download.base ++ entry.path) op) ∧
      (error ≠ none ∨ entry.dir = true ∧ s'.download = s.download ∨
        entry.size = some 0 ∧
          s'.download = { s.download with size := entry.size, next := 0, gaps := [] } ∨
        entry.dir = false ∧ entry.size ≠ some 0 ∧ s'.download = { s.download with
          file := some (s.download.base ++ entry.path), size := entry.size, next := 0, gaps := [] }) := by
  unfold Run.openCurrent at h
  dsimp only at h
  split at h
  · next hdir =>
    obtain ⟨hdownload, -, hlog⟩ := perform_logged h
    refine ⟨⟨_, hlog, fun op hop => ?_⟩, .inr (.inl ⟨hdir, hdownload⟩)⟩
    obtain rfl := List.mem_singleton.mp hop
    exact .inl rfl
  · next hdir =>
    have hmkdirs : ∀ op ∈ [FileOp.createDirAll (s.download.base ++ entry.path).dropLast],
        Opens (s.download.base ++ entry.path) op := fun op hop => by
      obtain rfl := List.mem_singleton.mp hop
      exact .inr rfl
    split at h
    · next failed s₁ hmkdir =>
      obtain ⟨-, -, hlog⟩ := perform_logged hmkdir
      cases h
      exact ⟨⟨_, hlog, hmkdirs⟩, .inl (Option.some_ne_none _)⟩
    · next s₁ hmkdir =>
      obtain ⟨hdownload₁, -, hlog₁⟩ := perform_logged hmkdir
      have hcreates : ∀ op ∈ [FileOp.createDirAll (s.download.base ++ entry.path).dropLast,
          .create (s.download.base ++ entry.path)], Opens (s.download.base ++ entry.path) op := fun op hop => by
        rcases List.mem_cons.mp hop with rfl | hop
        · exact .inr rfl
        · obtain rfl := List.mem_singleton.mp hop
          exact rfl
      split at h
      · next failed s₂ hcreate =>
        obtain ⟨-, -, hlog₂⟩ := perform_logged hcreate
        cases h
        exact ⟨⟨_, by rw [hlog₂, hlog₁, List.append_assoc]; rfl, hcreates⟩, .inl (Option.some_ne_none _)⟩
      · next s₂ hcreate =>
        obtain ⟨hdownload₂, -, hlog₂⟩ := perform_logged hcreate
        have hd₂ : s₂.download = s.download := hdownload₂.trans hdownload₁
        have hlogs : s₂.log = s.log ++ [.createDirAll (s.download.base ++ entry.path).dropLast,
            .create (s.download.base ++ entry.path)] := by
          rw [hlog₂, hlog₁, List.append_assoc]
          rfl
        split at h
        · next hempty =>
          cases h
          obtain ⟨hd, ops, hlog, hops⟩ := @setModified_cases _ fs
            { s₂ with download := { s₂.download with size := entry.size, next := 0, gaps := [] } }
            (s.download.base ++ entry.path) entry.modified
          refine ⟨⟨_, hlog.trans ((congrArg (· ++ ops) hlogs).trans (List.append_assoc ..)), fun op hop => ?_⟩,
            .inr (.inr (.inl ⟨hempty, by rw [hd, hd₂]⟩))⟩
          rcases List.mem_append.mp hop with hop | hop
          · exact hcreates op hop
          · obtain ⟨-, time, rfl⟩ := hops op hop
            exact rfl
        · next hsize =>
          cases h
          exact ⟨⟨_, hlogs, hcreates⟩, .inr (.inr (.inr ⟨Bool.eq_false_iff.mpr hdir, hsize, by rw [hd₂]⟩))⟩

theorem closeCurrent_cases (s : Run (L × List FileOp)) (entry : RemoteEntry) :
    (s.closeCurrent (logged fs) entry).download =
        { s.download with file := none, size := none, current := s.download.current + 1 } ∧
      ∃ ops, (s.closeCurrent (logged fs) entry).log = s.log ++ ops ∧
        ∀ op ∈ ops, op.written = none ∧ ∃ path time, s.download.file = some path ∧ op = .setModified path time := by
  unfold Run.closeCurrent
  cases hfile : s.download.file with
  | none => exact ⟨rfl, [], (List.append_nil _).symm, fun op h => absurd h List.not_mem_nil⟩
  | some path =>
    obtain ⟨hd, ops, hlog, hops⟩ := @setModified_cases _ fs s path entry.modified
    dsimp only
    rw [hd]
    refine ⟨rfl, ops, hlog, fun op hop => ?_⟩
    obtain ⟨hwritten, time, rfl⟩ := hops op hop
    exact ⟨hwritten, path, time, rfl, rfl⟩

theorem Sound.moved (hs : Sound base entries answered sent s) {ops : List FileOp} (hlog : s'.log = s.log ++ ops)
    (hops : ∀ op ∈ ops, Contained base op) (hbase : s'.download.base = s.download.base)
    (hlist : s'.download.entries = s.download.entries) (hflight : s'.download.inFlight = s.download.inFlight)
    (hidle : s.download.inFlight.entries = [])
    (hopen : s'.download.file ≠ none → s'.download.gaps = [] ∧ s'.download.next = 0 ∧
      ∃ entry, entries[s'.download.current]? = some entry ∧ s'.download.file = some (base ++ entry.path)) :
    Sound base entries answered sent s' where
  folder := hbase.trans hs.folder
  list := hlist.trans hs.list
  log op h := by
    rw [hlog] at h
    rcases List.mem_append.mp h with h | h
    · exact hs.log op h
    · exact hops op h
  opened path h := by
    obtain ⟨-, -, entry, hentry, hpath⟩ := hopen (by rw [h]; exact Option.some_ne_none path)
    exact ⟨entry, hentry, Option.some.inj (h.symm.trans hpath)⟩
  idle _ := by rw [hflight, hidle]
  sizing _ h := by
    obtain ⟨hgaps, hnext, -⟩ := hopen h
    exact ⟨by rw [hflight, hidle]; exact Nat.zero_le 1, hgaps, hnext⟩
  ranges _ _ h := by
    obtain ⟨hgaps, hnext, -⟩ := hopen h
    rw [hgaps, hnext]
    exact ⟨Nat.zero_le _, fun g hg => absurd hg List.not_mem_nil⟩
  flights id r h := by
    rw [hflight, Table.get?_of_entries_nil hidle] at h
    cases h
  times id := by
    rw [hflight]
    exact hs.times id

theorem opens_contained {entry : RemoteEntry} (hplain : entry.path ≠ [] ∧ ∀ part ∈ entry.path, Plain part)
    (h : Opens (base ++ entry.path) op) : Contained base op := by
  cases op with
  | privateDir => exact h.elim
  | createDirAll =>
    rcases h with rfl | rfl
    · exact .inr (inside_of_plain hplain)
    · exact parent_contained hplain
  | create =>
    obtain rfl := h
    exact inside_of_plain hplain
  | write => exact h.elim
  | setModified =>
    obtain rfl := h
    exact inside_of_plain hplain

theorem Sound.openCurrent (hs : Sound base entries answered sent s) (hplain : AllPlain entries) {entry : RemoteEntry}
    (hentry : entries[s.download.current]? = some entry) (hfile : s.download.file = none)
    (h : s.openCurrent (logged fs) entry = (error, s')) : (∀ op ∈ s'.log, Contained base op) ∧
    (error = none → Sound base entries answered sent s' ∧ s'.download.current = s.download.current) := by
  obtain ⟨⟨ops, hlog, hops⟩, hcases⟩ := openCurrent_cases h
  have hcontained : ∀ op ∈ ops, Contained base op := fun op hop =>
    opens_contained (hplain entry (List.mem_of_getElem? hentry)) (hs.folder ▸ hops op hop)
  refine ⟨fun op hop => ?_, fun hnone => ?_⟩
  · rw [hlog] at hop
    rcases List.mem_append.mp hop with hop | hop
    · exact hs.log op hop
    · exact hcontained op hop
  · have hidle := hs.idle hfile
    rcases hcases with herror | ⟨-, hd⟩ | ⟨-, hd⟩ | ⟨-, -, hd⟩
    · exact absurd hnone herror
    all_goals refine ⟨hs.moved hlog hcontained (by rw [hd]) (by rw [hd]) (by rw [hd]) hidle fun hopen => ?_,
      by rw [hd]⟩
    · rw [hd] at hopen
      exact absurd hfile hopen
    · rw [hd] at hopen
      exact absurd hfile hopen
    · rw [hd]
      exact ⟨rfl, rfl, entry, hentry, by rw [hs.folder]⟩

theorem Sound.closeCurrent (hs : Sound base entries answered sent s) (hplain : AllPlain entries) (entry : RemoteEntry)
    (hidle : s.download.inFlight.entries = []) : Sound base entries answered sent (s.closeCurrent (logged fs) entry) ∧
    (s.closeCurrent (logged fs) entry).download.current = s.download.current + 1 := by
  obtain ⟨hd, ops, hlog, hops⟩ := @closeCurrent_cases _ fs s entry
  refine ⟨hs.moved hlog (fun op hop => ?_) (by rw [hd]) (by rw [hd]) (by rw [hd]) hidle fun hopen => ?_, by rw [hd]⟩
  · obtain ⟨-, path, time, hpath, rfl⟩ := hops op hop
    obtain ⟨e, he, rfl⟩ := hs.opened path hpath
    exact inside_of_plain (hplain e (List.mem_of_getElem? he))
  · rw [hd] at hopen
    exact absurd rfl hopen

theorem Sound.fetch (hs : Sound base entries answered (sent ++ requests) s) (hplain : AllPlain entries)
    {entry : RemoteEntry} (hentry : entries[s.download.current]? = some entry) (hopen : s.download.file ≠ none) :
    (s.fetch (logged fs) entry requests).Outcome (fun s' requests' =>
        Sound base entries answered (sent ++ requests') s' ∧ s'.download.current = s.download.current + 1)
      (fun s' requests' => Sound base entries answered (sent ++ requests') s')
      fun s' progress => (∀ op ∈ s'.log, Contained base op) ∧ progress.ended = some progress := by
  unfold Run.fetch
  cases hsize : s.download.size with
  | none =>
    by_cases hidle : s.download.inFlight.entries = []
    · rw [if_pos hidle]
      have hask := @Clipboard.Run.Sound.ask _ _ _ _ _ _ hs _ none hentry hopen ⟨hsize, hidle⟩
      rw [List.append_assoc] at hask
      exact hask
    · rw [if_neg hidle]
      exact hs
  | some size =>
    obtain ⟨new, hnew, hfill, hcurrent, -⟩ := @Clipboard.Run.Sound.fill _ requests _ _ _ _ _ hs _ _
      (s.download.gaps.length + (size - s.download.next) + 1) hentry hopen hsize
    dsimp only
    generalize s.fill entry size (s.download.gaps.length + (size - s.download.next) + 1) requests = filled at *
    obtain ⟨s₁, requests₁⟩ := filled
    obtain rfl : requests₁ = requests ++ new := hnew
    rw [List.append_assoc] at hfill
    by_cases hidle : s₁.download.inFlight.entries = []
    · rw [if_pos hidle]
      obtain ⟨hclosed, hmoved⟩ := @Clipboard.Run.Sound.closeCurrent _ _ fs _ _ _ _ hfill hplain entry hidle
      exact ⟨hclosed, hmoved.trans (congrArg (· + 1) hcurrent)⟩
    · rw [if_neg hidle]
      exact hfill

theorem Sound.visit (hs : Sound base entries answered (sent ++ requests) s) (hplain : AllPlain entries)
    {entry : RemoteEntry} (hentry : entries[s.download.current]? = some entry) :
    (s.visit (logged fs) entry requests).Outcome (fun s' requests' =>
        Sound base entries answered (sent ++ requests') s' ∧ s'.download.current = s.download.current + 1)
      (fun s' requests' => Sound base entries answered (sent ++ requests') s')
      fun s' progress => (∀ op ∈ s'.log, Contained base op) ∧ progress.ended = some progress := by
  unfold Run.visit
  by_cases hfile : s.download.file = none
  · rw [if_pos hfile]
    cases hopen : s.openCurrent (logged fs) entry with
    | mk error s₁ =>
      obtain ⟨hlog, hgood⟩ := hs.openCurrent hplain hentry hfile hopen
      cases error with
      | some message => exact ⟨hlog, rfl⟩
      | none =>
        obtain ⟨hs₁, hcurrent⟩ := hgood rfl
        dsimp only
        by_cases hfile₁ : s₁.download.file = none
        · rw [if_pos hfile₁]
          refine ⟨@Clipboard.Run.Sound.moved _ _ _ _ _ _ _ hs₁ [] (List.append_nil _).symm
            (fun op h => absurd h List.not_mem_nil) rfl rfl rfl (hs₁.idle hfile₁) fun h => absurd hfile₁ h,
            ?_⟩
          exact congrArg (· + 1) hcurrent
        · rw [if_neg hfile₁, ← hcurrent]
          exact hs₁.fetch hplain (hcurrent ▸ hentry) hfile₁
  · rw [if_neg hfile]
    dsimp only
    rw [if_neg hfile]
    exact hs.fetch hplain hentry hfile

theorem Sound.pumpAll (hs : Sound base entries answered sent s) (hplain : AllPlain entries)
    (hcurrent : s.download.current ≤ entries.length) :
    Outcome (fun s' requests => Sound base entries answered (sent ++ requests) s')
      (fun s' progress => (∀ op ∈ s'.log, Contained base op) ∧ progress.ended = some progress)
      (s.pumpAll (logged fs)) := by
  refine pump_rule (I := fun s' requests => Sound base entries answered (sent ++ requests) s')
    (fun s' requests entry h hentry => ?_) (fun s' requests h _ => h) (fun s' requests h _ _ => ⟨h.log, rfl⟩)
    (by omega) (hs.list.symm ▸ hcurrent) ((List.append_nil sent).symm ▸ hs)
  rw [h.list] at hentry
  have hturn := @Clipboard.Run.Sound.visit _ _ _ fs _ _ _ _ h hplain _ hentry
  cases hnext : s'.visit (logged fs) entry requests with
  | again s₁ requests₁ =>
    rw [hnext] at hturn
    exact ⟨hturn.1, hturn.1.list.trans h.list.symm, hturn.2⟩
  | stop s₁ result =>
    rw [hnext] at hturn
    exact hturn

/-! ## Answers -/

theorem take_cases
    (h : s.take (logged fs) request data = (error, s')) :
    (s'.log = s.log ∧ error ≠ none) ∨
      (∃ size entry, request.range = none ∧ s.download.entries[s.download.current]? = some entry ∧
        error = none ∧ s' = (if size = 0 then Run.closeCurrent (logged fs) else fun s _ => s) { s with
          download := { s.download with total := saturatingAdd s.download.total size, size := some size } }
            entry) ∨
      s.download.entries[s.download.current]? = none ∨
      ∃ path position len bytes, data = some bytes ∧ request.range = some (position, len) ∧ bytes ≠ [] ∧
        bytes.length ≤ len ∧ s.download.file = some path ∧
        s'.log = s.log ++ [.write path position bytes] ∧
        (error = none → s'.download = { s.download with
          done := (s.download.done + bytes.length) % 2 ^ 64
          gaps := if bytes.length < len then s.download.gaps ++ [(position + bytes.length, len - bytes.length)]
            else s.download.gaps }) := by
  unfold Run.take at h
  cases data with
  | none =>
    cases h
    exact .inl ⟨rfl, Option.some_ne_none _⟩
  | some bytes =>
    cases hrange : request.range with
    | none =>
      rw [hrange] at h
      dsimp only at h
      split at h
      · cases h
        exact .inl ⟨rfl, Option.some_ne_none _⟩
      · split at h
        · next entry hentry =>
          cases h
          refine .inr (.inl ⟨leNat bytes, entry, rfl, hentry, rfl, ?_⟩)
          split <;> rfl
        · next hnone => exact .inr (.inr (.inl hnone))
    | some range =>
      obtain ⟨position, len⟩ := range
      rw [hrange] at h
      dsimp only at h
      split at h
      · cases h
        exact .inl ⟨rfl, Option.some_ne_none _⟩
      · next hpiece =>
        rw [not_or] at hpiece
        split at h
        · cases h
          exact .inl ⟨rfl, Option.some_ne_none _⟩
        · next path hfile =>
          split at h
          · next failed s₁ hwrite =>
            obtain ⟨-, -, hlog⟩ := perform_logged hwrite
            cases h
            exact .inr (.inr (.inr ⟨path, position, len, bytes, rfl, rfl, hpiece.1,
              Nat.le_of_not_lt hpiece.2, hfile, hlog, fun h => nomatch h⟩))
          · next s₁ hwrite =>
            obtain ⟨hdownload, -, hlog⟩ := perform_logged hwrite
            cases h
            refine .inr (.inr (.inr ⟨path, position, len, bytes, rfl, rfl, hpiece.1,
              Nat.le_of_not_lt hpiece.2, hfile, hlog, fun _ => ?_⟩))
            rw [hdownload]

theorem Sound.erased (hs : Sound base entries answered sent s)
    (h : s.download.inFlight.get? id = some request) : Sound base entries (answered ++ [id]) sent
      { s with download := { s.download with inFlight := s.download.inFlight.erase id } } where
  folder := hs.folder
  list := hs.list
  log := hs.log
  opened := hs.opened
  idle hfile := by
    rw [Table.get?_of_entries_nil (hs.idle hfile)] at h
    cases h
  sizing hsize hopen := by
    have hlen := Table.length_erase_of_some h
    obtain ⟨hone, hgaps, hnext⟩ := hs.sizing hsize hopen
    refine ⟨?_, hgaps, hnext⟩
    dsimp only
    omega
  ranges := hs.ranges
  flights other r hr := by
    replace hr : (s.download.inFlight.erase id).get? other = some r := hr
    rw [Table.get?_erase] at hr
    split at hr
    · cases hr
    · exact hs.flights other r hr
  times other := by
    have hold := hs.times other
    rw [Table.get?_erase, List.count_append, List.count_singleton]
    by_cases heq : other = id
    · subst heq
      rw [if_neg (by rw [h]; exact Option.some_ne_none _)] at hold
      rw [if_pos rfl, if_pos rfl, beq_self_eq_true, if_pos rfl]
      omega
    · rw [if_neg heq, if_neg (by simpa using fun h => heq h.symm)]
      exact hold

theorem Sound.not_idle (hs : Sound base entries answered sent s) (h : s.download.inFlight.get? id = some request) : ∃
    entry, entries[s.download.current]? = some entry ∧ s.download.file = some (base ++ entry.path) := by
  cases hfile : s.download.file with
  | none =>
    rw [Table.get?_of_entries_nil (hs.idle hfile)] at h
    cases h
  | some path =>
    obtain ⟨entry, hentry, rfl⟩ := hs.opened path hfile
    exact ⟨entry, hentry, rfl⟩

theorem Sound.take (hs : Sound base entries answered sent s) (hplain : AllPlain entries) (hrequest : s.download.inFlight.get? id = some request)
    (h : Run.take (logged fs) { s with
      download := { s.download with inFlight := s.download.inFlight.erase id } } request data = (error, s')) :
    (∀ op ∈ s'.log, Contained base op) ∧
      (error = none → Sound base entries (answered ++ [id]) sent s' ∧
        s'.download.current ≤ entries.length) := by
  obtain ⟨entry, hentry, hfile⟩ := hs.not_idle hrequest
  obtain ⟨hlt, -⟩ := List.getElem?_eq_some_iff.mp hentry
  have hs₀ := hs.erased hrequest
  have hopen : s.download.file ≠ none := by
    rw [hfile]
    exact Option.some_ne_none _
  obtain ⟨-, -, hsize⟩ := hs.flights id request hrequest
  rcases take_cases h with ⟨hlog, herror⟩ | ⟨size, e, hrange, he, -, rfl⟩ | hnone |
      ⟨path, position, len, bytes, -, hrange, hne, hle, hpath, hlog, hdone⟩
  · exact ⟨fun op hop => hs₀.log op (hlog ▸ hop), fun hnone => absurd hnone herror⟩
  · -- The size was the only request.
    rw [hrange] at hsize
    obtain ⟨hone, hgaps, hnext⟩ := hs.sizing hsize hopen
    have hlen := Table.length_erase_of_some hrequest
    have hidle : (s.download.inFlight.erase id).entries = [] := List.eq_nil_of_length_eq_zero (by omega)
    have hsized := @Clipboard.Run.Sound.moved _ _ _ _ _ { s with download := { s.download with
        inFlight := s.download.inFlight.erase id
        total := saturatingAdd s.download.total size
        size := some size } } _ hs₀ [] (List.append_nil _).symm (fun op h => absurd h List.not_mem_nil) rfl rfl rfl hidle fun _ => ⟨hgaps, hnext, entry, hentry, hfile⟩
    split
    · obtain ⟨hclosed, hmoved⟩ := @Clipboard.Run.Sound.closeCurrent _ _ fs _ _ _ _ hsized hplain e hidle
      exact ⟨hclosed.log, fun _ => ⟨hclosed, by rw [hmoved]; exact hlt⟩⟩
    · exact ⟨hsized.log, fun _ => ⟨hsized, Nat.le_of_lt hlt⟩⟩
  · rw [hs₀.list] at hnone
    cases hentry.symm.trans hnone
  · rw [hrange] at hsize
    obtain ⟨size, hsome, hin⟩ := hsize
    cases hfile.symm.trans hpath
    have hwrite : ∀ op ∈ s'.log, Contained base op := fun op hop => by
      rw [hlog] at hop
      rcases List.mem_append.mp hop with hop | hop
      · exact hs₀.log op hop
      · obtain rfl := List.mem_singleton.mp hop
        exact inside_of_plain (hplain entry (List.mem_of_getElem? hentry))
    refine ⟨hwrite, fun hnone => ?_⟩
    have hd := hdone hnone
    have hcurrent : s'.download.current = s.download.current := by rw [hd]
    refine ⟨⟨by rw [hd]; exact hs₀.folder, by rw [hd]; exact hs₀.list, hwrite, by rw [hd]; exact hs₀.opened,
      by rw [hd]; exact hs₀.idle, fun hunknown _ => ?_, fun n hn _ => ?_, by rw [hd]; exact hs₀.flights,
      by rw [hd]; exact hs₀.times⟩, by rw [hcurrent]; exact Nat.le_of_lt hlt⟩
    · rw [hd] at hunknown
      cases hsome.symm.trans hunknown
    · rw [hd] at hn ⊢
      cases hsome.symm.trans hn
      obtain ⟨hnext, hgaps⟩ := hs₀.ranges size hsome hopen
      refine ⟨hnext, fun g hg => ?_⟩
      split at hg
      · rcases List.mem_append.mp hg with hg | hg
        · exact hgaps g hg
        · obtain rfl := List.mem_singleton.mp hg
          omega
      · exact hgaps g hg

/-! ## How much is written -/

end Run

namespace Download

/-- What is still to be asked for or answered of the open file. -/
def outstanding (w : Range → ℕ) (d : Download) (size : ℕ) : ℕ :=
  count w d.gaps + d.inFlight.total (fun r => (r.range.map w).getD 0) + w (d.next, size - d.next)

def future (d : Download) : ℕ :=
  ((d.entries.drop (if d.file = none then d.current else d.current + 1)).map fun e => e.size.getD 0).sum

end Download

namespace Run

variable {D : Type} {w : Range → ℕ}

theorem outstanding_ask (hw : Ranges.Additive w) {s : Run D} {range : Range} {d : Download} {size : ℕ}
    (entry : RemoteEntry) (htake : s.download.takeRange size = some (range, d)) :
    ({ s with download := d }.ask entry (some range)).1.download.outstanding w size +
        (s.download.inFlight.get? (nextStreamId s.nextStream)).elim 0 (fun r => (r.range.map w).getD 0) =
      s.download.outstanding w size := by
  have hset := fun inFlight : Table UInt32 InFlight => Table.total_set
    (fun r : InFlight => (r.range.map w).getD 0) inFlight (nextStreamId s.nextStream)
    ⟨s.download.current, some range⟩
  have hsum := hset s.download.inFlight
  unfold Download.outstanding
  rcases takeRange_cases htake with ⟨gaps, hgaps, rfl⟩ | ⟨-, hlt, rfl, rfl⟩
  · rw [hgaps, count_append, count_singleton]
    change _ = _ + w range at hsum
    dsimp only [ask]
    omega
  · have hcut := hw s.download.next (size - s.download.next) (min (size - s.download.next) chunk)
      (Nat.min_le_left _ _)
    change _ = _ + w (s.download.next, min (size - s.download.next) chunk) at hsum
    rw [Nat.sub_sub] at hcut
    dsimp only [ask]
    omega

theorem outstanding_fill (hw : Ranges.Additive w) {s : Run D} {entry : RemoteEntry} {size : ℕ} (fuel : ℕ)
    (requests : List FileContentsRequest) :
    (s.fill entry size fuel requests).1.download.outstanding w size ≤ s.download.outstanding w size :=
  fill_invariant (I := fun s' _ => s'.download.outstanding w size ≤ s.download.outstanding w size) fuel
    (Nat.le_refl _) fun s₁ _ range d h _ htake => by
      have hask := outstanding_ask hw entry htake
      omega

theorem fill_same {s : Run D} (entry : RemoteEntry) (size fuel : ℕ) (requests : List FileContentsRequest) :
    (s.fill entry size fuel requests).1.disk = s.disk ∧ (s.fill entry size fuel requests).1.download.entries =
    s.download.entries ∧ (s.fill entry size fuel requests).1.download.base = s.download.base ∧
    (s.fill entry size fuel requests).1.download.current = s.download.current ∧
    (s.fill entry size fuel requests).1.download.file = s.download.file ∧
    (s.fill entry size fuel requests).1.download.size = s.download.size :=
  fill_invariant (I := fun s' _ => s'.disk = s.disk ∧ s'.download.entries = s.download.entries ∧
      s'.download.base = s.download.base ∧ s'.download.current = s.download.current ∧
      s'.download.file = s.download.file ∧ s'.download.size = s.download.size) fuel
    ⟨rfl, rfl, rfl, rfl, rfl, rfl⟩ fun s₁ _ range d h _ htake => by
      rcases takeRange_cases htake with ⟨gaps, -, rfl⟩ | ⟨-, -, -, rfl⟩
      · exact h
      · exact h

variable {L : Type} {fs : FileSystem L} {s s' : Run (L × List FileOp)} {total : ℕ}
  {requests : List FileContentsRequest} {error : Option Text}

/-- A download of files of known sizes writes no more than these together. -/
structure Spends (total : ℕ) (s : Run (L × List FileOp)) : Prop where
  sizes : ∀ e ∈ s.download.entries, e.size ≠ none
  known : s.download.file ≠ none → s.download.size ≠ none
  budget : bytesWritten s.log + (s.download.file.elim 0 fun _ =>
    s.download.outstanding Prod.snd (s.download.size.getD 0)) + s.download.future ≤ total

theorem bytesWritten_append_none {log ops : List FileOp} (h : ∀ op ∈ ops, op.written = none) :
    bytesWritten (log ++ ops) = bytesWritten log := by
  unfold bytesWritten
  rw [List.filterMap_append, List.filterMap_eq_nil_iff.mpr h, List.append_nil]

theorem future_current {d : Download} {entry : RemoteEntry} (hentry : d.entries[d.current]? = some entry) :
    (d.entries.drop d.current).map (fun e => e.size.getD 0) = entry.size.getD 0 ::
    (d.entries.drop (d.current + 1)).map fun e => e.size.getD 0 := by
  obtain ⟨hlt, hget⟩ := List.getElem?_eq_some_iff.mp hentry
  rw [List.drop_eq_getElem_cons hlt, hget, List.map_cons]

theorem Spends.fetch (hs : s.Spends total) {entry : RemoteEntry} (hopen : s.download.file ≠ none) :
    (s.fetch (logged fs) entry requests).Outcome (fun s' _ => s'.Spends total) (fun s' _ => s'.Spends total) fun s' _
    => bytesWritten s'.log ≤ total := by
  unfold Run.fetch
  cases hsize : s.download.size with
  | none => exact absurd hsize (hs.known hopen)
  | some size =>
    obtain ⟨path, hpath⟩ := Option.ne_none_iff_exists'.mp hopen
    have hbudget := hs.budget
    rw [hpath, hsize] at hbudget
    change _ + s.download.outstanding Prod.snd size + _ ≤ total at hbudget
    have hless := @outstanding_fill _ _ additive_length s entry size
      (s.download.gaps.length + (size - s.download.next) + 1) requests
    obtain ⟨hdisk, hlist, -, hcurrent, hfile, hsize'⟩ := fill_same (s := s) entry size
      (s.download.gaps.length + (size - s.download.next) + 1) requests
    dsimp only
    generalize s.fill entry size (s.download.gaps.length + (size - s.download.next) + 1) requests = filled at *
    obtain ⟨s₁, requests₁⟩ := filled
    dsimp only at *
    have hlog : s₁.log = s.log := congrArg Prod.snd hdisk
    have hfuture : s₁.download.future = s.download.future := by
      unfold Download.future
      rw [hlist, hcurrent, hfile]
    have hs₁ : s₁.Spends total := by
      refine ⟨hlist ▸ hs.sizes, fun _ => by rw [hsize', hsize]; exact Option.some_ne_none _, ?_⟩
      rw [hlog, hfile, hpath, hsize', hsize, hfuture]
      show _ + s₁.download.outstanding Prod.snd size + _ ≤ total
      omega
    by_cases hidle : s₁.download.inFlight.entries = []
    · rw [if_pos hidle]
      obtain ⟨hd, ops, hlog', hops⟩ := @closeCurrent_cases _ fs s₁ entry
      refine ⟨by rw [hd]; exact hs₁.sizes, fun h => by rw [hd] at h; exact absurd rfl h, ?_⟩
      rw [hlog', bytesWritten_append_none fun op hop => (hops op hop).1, hd, hlog]
      have hnext : Download.future { s₁.download with
          file := none, size := none, current := s₁.download.current + 1 } = s₁.download.future := by
        unfold Download.future
        rw [hfile, hpath]
        rfl
      rw [hnext, hfuture]
      show _ + 0 + _ ≤ total
      omega
    · rw [if_neg hidle]
      exact hs₁

theorem Spends.visit (hs : s.Spends total) (hidle : s.download.file = none → s.download.inFlight.entries = [])
    {entry : RemoteEntry} (hentry : s.download.entries[s.download.current]? = some entry) :
    (s.visit (logged fs) entry requests).Outcome (fun s' _ => s'.Spends total) (fun s' _ => s'.Spends total) fun s' _
    => bytesWritten s'.log ≤ total := by
  unfold Run.visit
  by_cases hfile : s.download.file = none
  · rw [if_pos hfile]
    cases hopen : s.openCurrent (logged fs) entry with
    | mk error s₁ =>
      obtain ⟨⟨ops, hlog, hops⟩, hcases⟩ := openCurrent_cases hopen
      have hbytes : bytesWritten s₁.log = bytesWritten s.log := by
        rw [hlog]
        exact bytesWritten_append_none fun op hop => (hops op hop).written
      have hbudget := hs.budget
      rw [hfile] at hbudget
      have hfuture : s.download.future = entry.size.getD 0 +
          ((s.download.entries.drop (s.download.current + 1)).map fun e => e.size.getD 0).sum := by
        unfold Download.future
        rw [if_pos hfile, future_current hentry, List.sum_cons]
      cases error with
      | some message =>
        show bytesWritten s₁.log ≤ total
        omega
      | none =>
        -- Nothing to fetch, whichever way the state comes out.
        have hskip : ∀ {d : Download}, s₁.download = d → d.entries = s.download.entries →
            d.current = s.download.current → d.file = none →
            ({ s₁ with download := { d with current := d.current + 1 } } : Run (L × List FileOp)).Spends
              total := by
          intro d hd hlist hcurrent hnone
          refine ⟨hlist ▸ hs.sizes, fun h => absurd hnone h, ?_⟩
          show bytesWritten s₁.log + (d.file.elim 0 _) + Download.future { d with current := d.current + 1 } ≤ _
          unfold Download.future
          dsimp only
          rw [hnone, if_pos rfl, hlist, hcurrent]
          show _ + 0 + _ ≤ total
          omega
        rcases hcases with herror | ⟨-, hd⟩ | ⟨-, hd⟩ | ⟨-, hsize, hd⟩
        · exact absurd rfl herror
        · dsimp only
          rw [hd, if_pos hfile]
          exact hskip hd rfl rfl hfile
        · dsimp only
          rw [hd]
          rw [if_pos hfile]
          exact hskip hd rfl rfl hfile
        · have hopened : s₁.download.file ≠ none := by
            rw [hd]
            exact Option.some_ne_none _
          obtain ⟨size, hsome⟩ := Option.ne_none_iff_exists'.mp (hs.sizes entry (List.mem_of_getElem? hentry))
          have hs₁ : s₁.Spends total := by
            refine ⟨by rw [hd]; exact hs.sizes, fun _ => by
              rw [hd, hsome]
              exact Option.some_ne_none _, ?_⟩
            rw [hd, hsome, hbytes]
            have htotal : s.download.inFlight.total (fun r : InFlight => (r.range.map Prod.snd).getD 0) = 0 := by
              unfold Table.total
              rw [hidle hfile]
              rfl
            show _ + (count Prod.snd [] + s.download.inFlight.total _ + (size - 0)) +
              ((s.download.entries.drop (s.download.current + 1)).map fun e => e.size.getD 0).sum ≤ total
            rw [htotal, count_nil]
            rw [hsome] at hfuture
            change _ = size + _ at hfuture
            omega
          dsimp only
          rw [if_neg hopened]
          exact hs₁.fetch hopened
  · rw [if_neg hfile]
    dsimp only
    rw [if_neg hfile]
    exact hs.fetch hfile

variable {entries : List RemoteEntry} {answered : List UInt32} {sent : List FileContentsRequest}

theorem Spends.pumpAll (hs : s.Spends total) (hsound : s.Sound base entries answered sent) (hplain : AllPlain entries)
    (hcurrent : s.download.current ≤ entries.length) : Outcome (fun s' _ => s'.Spends total)
    (fun s' _ => bytesWritten s'.log ≤ total) (s.pumpAll (logged fs)) := by
  refine pump_rule (I := fun s' requests => Sound base entries answered (sent ++ requests) s' ∧
      s'.Spends total) (fun s' requests entry h hentry => ?_) (fun s' requests h _ => h.2)
    (fun s' requests h _ _ => Nat.le_trans (Nat.le_trans (Nat.le_add_right _ _) (Nat.le_add_right _ _))
      h.2.budget)
    (by omega) (hsound.list.symm ▸ hcurrent) ⟨(List.append_nil sent).symm ▸ hsound, hs⟩
  have hlist := h.1.list
  have hsoundly := @Clipboard.Run.Sound.visit _ _ _ fs _ _ _ _ h.1 hplain _ (hlist ▸ hentry)
  have hturn := @Clipboard.Run.Spends.visit _ fs _ _ requests h.2 h.1.idle _ hentry
  cases hnext : s'.visit (logged fs) entry requests with
  | again s₁ requests₁ =>
    rw [hnext] at hsoundly hturn
    exact ⟨⟨hsoundly.1, hturn⟩, hsoundly.1.list.trans hlist.symm, hsoundly.2⟩
  | stop s₁ result =>
    rw [hnext] at hturn
    exact hturn

theorem Spends.take (hs : s.Spends total) (hsound : s.Sound base entries answered sent) {id : UInt32}
    {request : InFlight} (hrequest : s.download.inFlight.get? id = some request)
    {data : Option (List UInt8)}
    (h : Run.take (logged fs) { s with
      download := { s.download with inFlight := s.download.inFlight.erase id } } request data = (error, s')) :
    bytesWritten s'.log ≤ total ∧ (error = none → s'.Spends total) := by
  obtain ⟨entry, hentry, hfile⟩ := hsound.not_idle hrequest
  obtain ⟨size, hsize⟩ := Option.ne_none_iff_exists'.mp (hs.known (by rw [hfile]; exact Option.some_ne_none _))
  have hbudget := hs.budget
  rw [hfile, hsize] at hbudget
  change _ + s.download.outstanding Prod.snd size + _ ≤ total at hbudget
  obtain ⟨-, -, hrange⟩ := hsound.flights id request hrequest
  rcases take_cases h with ⟨hlog, herror⟩ | ⟨n, e, hnone, -, -, -⟩ | hnone |
      ⟨path, position, len, bytes, -, hsome, -, hle, -, hlog, hdone⟩
  · rw [hlog]
    exact ⟨by show bytesWritten s.log ≤ total; omega, fun hnone => absurd hnone herror⟩
  · rw [hnone] at hrange
    cases hsize.symm.trans hrange
  · rw [hsound.list] at hnone
    cases hentry.symm.trans hnone
  · have herase := Table.total_erase (fun r : InFlight => (r.range.map Prod.snd).getD 0) s.download.inFlight id
    rw [hrequest] at herase
    change _ + (request.range.map Prod.snd).getD 0 = _ at herase
    rw [hsome] at herase
    change _ + len = _ at herase
    unfold Download.outstanding at hbudget
    have hwritten : bytesWritten s'.log = bytesWritten s.log + bytes.length := by
      rw [hlog]
      unfold bytesWritten
      rw [List.filterMap_append, count_append]
      rfl
    refine ⟨by omega, fun hnone => ?_⟩
    have hd := hdone hnone
    refine ⟨by rw [hd]; exact hs.sizes, fun _ => by rw [hd, hsize]; exact Option.some_ne_none _, ?_⟩
    rw [hwritten, hd, hfile, hsize]
    have hgaps : count Prod.snd (if bytes.length < len then
        s.download.gaps ++ [(position + bytes.length, len - bytes.length)] else s.download.gaps) ≤
        count Prod.snd s.download.gaps + (len - bytes.length) := by
      split
      · rw [count_append, count_singleton]
      · exact Nat.le_add_right _ _
    show _ + (count Prod.snd (if bytes.length < len then
        s.download.gaps ++ [(position + bytes.length, len - bytes.length)] else s.download.gaps) +
      (s.download.inFlight.erase id).total _ + (size - s.download.next)) + s.download.future ≤ total
    omega

theorem pumpAll_log (s : Run (L × List FileOp)) (hcurrent : s.download.current ≤ s.download.entries.length) :
    ∃ ops, (s.pumpAll (logged fs)).1.log = s.log ++ ops ∧ ∀ op ∈ ops, op.written = none := by
  have hadd : ∀ {s₁ s₂ : Run (L × List FileOp)} {ops : List FileOp},
      (∃ ops, s₁.log = s.log ++ ops ∧ ∀ op ∈ ops, op.written = none) → s₂.log = s₁.log ++ ops →
      (∀ op ∈ ops, op.written = none) → ∃ ops, s₂.log = s.log ++ ops ∧ ∀ op ∈ ops, op.written = none := by
    rintro s₁ s₂ ops ⟨old, hold, hnone⟩ hlog hops
    refine ⟨old ++ ops, by rw [hlog, hold, List.append_assoc], fun op hop => ?_⟩
    exact (List.mem_append.mp hop).elim (hnone op) (hops op)
  have hrule := @pump_rule _ s [] (logged fs)
    (fun s' _ => ∃ ops, s'.log = s.log ++ ops ∧ ∀ op ∈ ops, op.written = none)
    (fun s' _ => ∃ ops, s'.log = s.log ++ ops ∧ ∀ op ∈ ops, op.written = none)
    (fun s' _ => ∃ ops, s'.log = s.log ++ ops ∧ ∀ op ∈ ops, op.written = none)
    (fun s₁ requests entry h hentry => ?_) (fun _ _ h _ => h) (fun _ _ h _ _ => h)
    (s.download.entries.length + 1) (by omega) hcurrent
    ⟨[], (List.append_nil _).symm, fun op h => absurd h List.not_mem_nil⟩
  · unfold pumpAll
    generalize pump (logged fs) (s.download.entries.length + 1) s [] = out at *
    obtain ⟨s₁, _ | _⟩ := out
    · exact hrule
    · exact hrule
  · have hfetch : ∀ {s₂ : Run (L × List FileOp)}, (∃ ops, s₂.log = s.log ++ ops ∧ ∀ op ∈ ops, op.written = none) →
        s₂.download.entries = s₁.download.entries → s₂.download.current = s₁.download.current →
        (s₂.fetch (logged fs) entry requests).Outcome (fun s' _ =>
          (∃ ops, s'.log = s.log ++ ops ∧ ∀ op ∈ ops, op.written = none) ∧
            s'.download.entries = s₁.download.entries ∧ s'.download.current = s₁.download.current + 1)
          (fun s' _ => ∃ ops, s'.log = s.log ++ ops ∧ ∀ op ∈ ops, op.written = none)
          fun s' _ => ∃ ops, s'.log = s.log ++ ops ∧ ∀ op ∈ ops, op.written = none := by
      intro s₂ hs₂ hlist hcurrent₂
      unfold Run.fetch
      cases s₂.download.size with
      | none =>
        dsimp only
        split
        · exact hs₂
        · exact hs₂
      | some size =>
        obtain ⟨hdisk, hlist', -, hcurrent', -⟩ := fill_same (s := s₂) entry size
          (s₂.download.gaps.length + (size - s₂.download.next) + 1) requests
        dsimp only
        generalize s₂.fill entry size (s₂.download.gaps.length + (size - s₂.download.next) + 1) requests =
          filled at *
        obtain ⟨s₃, requests₃⟩ := filled
        have hs₃ : ∃ ops, s₃.log = s.log ++ ops ∧ ∀ op ∈ ops, op.written = none :=
          hadd hs₂ ((congrArg Prod.snd hdisk).trans (List.append_nil _).symm) fun op h => absurd h List.not_mem_nil
        split
        · obtain ⟨hd, ops, hlog, hops⟩ := @closeCurrent_cases _ fs s₃ entry
          refine ⟨hadd hs₃ hlog fun op hop => (hops op hop).1, ?_, ?_⟩
          · rw [hd]
            exact hlist'.trans hlist
          · rw [hd]
            exact congrArg (· + 1) (hcurrent'.trans hcurrent₂)
        · exact hs₃
    unfold Run.visit
    by_cases hfile : s₁.download.file = none
    · rw [if_pos hfile]
      cases hopen : s₁.openCurrent (logged fs) entry with
      | mk error s₂ =>
        obtain ⟨⟨ops, hlog, hops⟩, hcases⟩ := openCurrent_cases hopen
        have hs₂ := hadd h hlog fun op hop => (hops op hop).written
        cases error with
        | some message => exact hs₂
        | none =>
          have hsame : s₂.download.entries = s₁.download.entries ∧ s₂.download.current = s₁.download.current := by
            rcases hcases with herror | ⟨-, hd⟩ | ⟨-, hd⟩ | ⟨-, -, hd⟩
            · exact absurd rfl herror
            all_goals
              rw [hd]
              exact ⟨rfl, rfl⟩
          dsimp only
          split
          · exact ⟨hs₂, hsame.1, congrArg (· + 1) hsame.2⟩
          · exact hfetch hs₂ hsame.1 hsame.2
    · rw [if_neg hfile]
      dsimp only
      rw [if_neg hfile]
      exact hfetch h rfl rfl

end Run

/-! ## Downloads -/

namespace Transfer

variable {L : Type} {fs : FileSystem L} {t : Transfer (L × List FileOp)} {entries : List RemoteEntry}
  {clipDataId : Option UInt32} {nextStream : UInt32} {disk : L} {a : UInt32 × Option (List UInt8)}
  {answers : List (UInt32 × Option (List UInt8))} {total : ℕ}

/-- All sizes are known, and no more than this together. -/
def Known (total : ℕ) (entries : List RemoteEntry) : Prop :=
  (∀ e ∈ entries, e.size ≠ none) ∧ (entries.map fun e => e.size.getD 0).sum ≤ total

/-- What holds of a download between answers. -/
structure Inv (base : Path) (entries : List RemoteEntry) (t : Transfer (L × List FileOp)) : Prop where
  log : ∀ op ∈ t.run.log, Contained base op
  times : ∀ id, t.answered.count id ≤ (t.sent.filter (·.streamId = id)).length
  bytes : ∀ total, Known total entries → bytesWritten t.run.log ≤ total
  sound : t.ended = none → t.run.Sound base entries t.answered t.sent
  spends : t.ended = none → ∀ total, Known total entries → t.run.Spends total

/-- A write is what was asked for last under the id of the answer, below the size known. -/
def Licensed (t : Transfer (L × List FileOp)) (a : UInt32 × Option (List UInt8)) (op : FileOp) : Prop :=
  ∀ path position bytes, op = .write path position bytes → t.ended = none ∧ a.2 = some bytes ∧
    t.run.download.file = some path ∧ ∃ r len size, t.run.download.inFlight.get? a.1 = some r ∧
      r.range = some (position, len) ∧ Run.LastSent t.run.download.entries t.sent a.1 r ∧ bytes.length ≤ len ∧
      t.run.download.size = some size ∧ position + bytes.length ≤ size

variable {run : Run (L × List FileOp)}

theorem inv_of_sound {answered : List UInt32}
    {sent : List FileContentsRequest} {ended : Option Progress} (hs : run.Sound base entries answered sent)
    (hspends : ∀ total, Known total entries → run.Spends total) :
    (Transfer.mk run sent answered ended).Inv base entries where
  log := hs.log
  times id := Nat.le_trans (Nat.le_add_right _ _) (hs.times id)
  bytes total h := Nat.le_trans (Nat.le_trans (Nat.le_add_right _ _) (Nat.le_add_right _ _))
    (hspends total h).budget
  sound _ := hs
  spends _ := hspends

theorem inv_pumpAll {run : Run (L × List FileOp)} {answered : List UInt32}
    {sent : List FileContentsRequest} (hplain : AllPlain entries) (hs : run.Sound base entries answered sent)
    (hspends : ∀ total, Known total entries → run.Spends total)
    (hcurrent : run.download.current ≤ entries.length) :
    Run.Outcome (fun run requests => (Transfer.mk run (sent ++ requests) answered none).Inv base entries)
      (fun run progress => progress.ended = some progress ∧
        (Transfer.mk run sent answered (some progress)).Inv base entries) (run.pumpAll (logged fs)) := by
  have hsound := @Clipboard.Run.Sound.pumpAll _ _ fs _ _ _ _ hs hplain hcurrent
  have hspent := fun total h => @Clipboard.Run.Spends.pumpAll _ _ fs _ _ _ _ _ (hspends total h) hs hplain hcurrent
  generalize run.pumpAll (logged fs) = out at *
  obtain ⟨run', progress | requests⟩ := out
  · exact ⟨hsound.2, hsound.1, fun id => Nat.le_trans (Nat.le_add_right _ _) (hs.times id), hspent,
      fun h => (nomatch h), fun h => (nomatch h)⟩
  · exact inv_of_sound hsound hspent

theorem new_sound (base : Path) (entries : List RemoteEntry) (clipDataId : Option UInt32) (nextStream : UInt32)
    (disk : L) : Run.Sound base entries [] []
    (⟨Download.new base entries clipDataId, (disk, [.privateDir base]), nextStream⟩ : Run (L × List FileOp)) ∧ ∀
    total, Known total entries →
    (⟨Download.new base entries clipDataId, (disk, [.privateDir base]), nextStream⟩ : Run (L × List FileOp)).Spends
    total := by
  refine ⟨⟨rfl, rfl, fun op h => ?_, fun path h => (nomatch h), fun _ => rfl, fun _ h => absurd rfl h,
    fun size h => (nomatch h), fun id r h => (nomatch h), fun id => Nat.le_refl 0⟩, fun total h =>
    ⟨h.1, fun hopen => absurd rfl hopen, ?_⟩⟩
  · obtain rfl := List.mem_singleton.mp h
    rfl
  · show 0 + 0 + ((entries.drop 0).map fun e => e.size.getD 0).sum ≤ total
    have hsum := h.2
    rw [List.drop_zero]
    omega

theorem inv_start (hplain : AllPlain entries) :
    (start (logged fs) base entries clipDataId nextStream (disk, [])).Inv base entries := by
  unfold start Run.start
  cases hmkdir : Run.perform (logged fs) (⟨Download.new base entries clipDataId, (disk, []), nextStream⟩ :
      Run (L × List FileOp)) (.privateDir (Download.new base entries clipDataId).base) with
  | mk error run =>
    obtain ⟨-, hrun⟩ := Prod.mk.inj hmkdir
    obtain ⟨hs, hspends⟩ : run.Sound base entries [] [] ∧ ∀ total, Known total entries → run.Spends total := by
      rw [← hrun]
      exact new_sound base entries clipDataId nextStream (fs (.privateDir base) disk).2
    cases error with
    | some message => exact inv_of_sound hs hspends
    | none =>
      have hpump := @inv_pumpAll _ _ fs _ _ _ _ hplain hs hspends (by rw [← hrun]; exact Nat.zero_le _)
      dsimp only
      generalize run.pumpAll (logged fs) = out at *
      obtain ⟨run', progress | requests⟩ := out
      · exact hpump.2
      · exact hpump

theorem take_licensed {error : Option Text} {request : InFlight}
    (hended : t.ended = none) (hs : t.run.Sound base entries t.answered t.sent)
    (hrequest : t.run.download.inFlight.get? a.1 = some request)
    (htake : Run.take (logged fs) { t.run with download := { t.run.download with
      inFlight := t.run.download.inFlight.erase a.1 } } request a.2 = (error, run)) :
    ∃ ops, run.log = t.run.log ++ ops ∧ (ops.filterMap FileOp.written).length ≤ 1 ∧
      ∀ op ∈ ops, Licensed t a op := by
  have hquiet : ∀ ops : List FileOp, (∀ op ∈ ops, op.written = none) →
      (ops.filterMap FileOp.written).length ≤ 1 ∧ ∀ op ∈ ops, Licensed t a op := by
    intro ops hops
    refine ⟨by rw [List.filterMap_eq_nil_iff.mpr hops]; exact Nat.zero_le 1, fun op hop => ?_⟩
    rintro path position bytes rfl
    cases hops _ hop
  have hnone : ∀ op ∈ ([] : List FileOp), op.written = none := fun op h => absurd h List.not_mem_nil
  obtain ⟨entry, hentry, hfile⟩ := hs.not_idle hrequest
  rcases Run.take_cases htake with ⟨hlog, -⟩ | ⟨size, e, -, -, -, rfl⟩ | hmissing |
      ⟨path, position, len, bytes, hdata, hrange, hne, hle, hpath, hlog, -⟩
  · exact ⟨[], hlog.trans (List.append_nil _).symm, hquiet [] hnone⟩
  · split
    · obtain ⟨-, ops, hlog, hops⟩ := @Run.closeCurrent_cases _ fs { t.run with
        download := { t.run.download with
          inFlight := t.run.download.inFlight.erase a.1
          total := saturatingAdd t.run.download.total size
          size := some size } } e
      exact ⟨ops, hlog, hquiet ops fun op hop => (hops op hop).1⟩
    · exact ⟨[], (List.append_nil _).symm, hquiet [] hnone⟩
  · rw [hs.list] at hmissing
    cases hentry.symm.trans hmissing
  · refine ⟨_, hlog, Nat.le_refl 1, fun op hop => ?_⟩
    obtain rfl := List.mem_singleton.mp hop
    rintro _ _ _ ⟨⟩
    obtain ⟨hlast, -, hsize⟩ := hs.flights a.1 request hrequest
    rw [hrange] at hsize
    obtain ⟨size, hsome, hin⟩ := hsize
    exact ⟨hended, hdata, hpath, request, len, size, hrequest, hrange, hs.list.symm ▸ hlast, hle, hsome, by omega⟩

theorem answer_inv (hplain : AllPlain entries) (h : t.Inv base entries) : (t.answer (logged fs) a).Inv base entries ∧
    ∃ ops, (t.answer (logged fs) a).run.log = t.run.log ++ ops ∧ (ops.filterMap FileOp.written).length ≤ 1 ∧ ∀ op ∈
    ops, Licensed t a op := by
  have hnothing : ∃ ops, t.run.log = t.run.log ++ ops ∧ (ops.filterMap FileOp.written).length ≤ 1 ∧
      ∀ op ∈ ops, Licensed t a op :=
    ⟨[], (List.append_nil _).symm, Nat.zero_le 1, fun op h => absurd h List.not_mem_nil⟩
  unfold answer
  split
  · next hgoes =>
    obtain ⟨hended, hflight⟩ := hgoes
    obtain ⟨request, hrequest⟩ := Option.ne_none_iff_exists'.mp hflight
    have hs := h.sound hended
    unfold Run.onResponse
    rw [hrequest]
    dsimp only
    cases htake : Run.take (logged fs) { t.run with download := { t.run.download with
        inFlight := t.run.download.inFlight.erase a.1 } } request a.2 with
    | mk error run =>
      obtain ⟨hlog, hgood⟩ := hs.take hplain hrequest htake
      have hspent := fun total hknown => (h.spends hended total hknown).take hs hrequest htake
      have hwrites : ∃ ops, run.log = t.run.log ++ ops ∧ (ops.filterMap FileOp.written).length ≤ 1 ∧
          ∀ op ∈ ops, Licensed t a op := take_licensed hended hs hrequest htake
      cases error with
      | some message =>
        refine ⟨⟨hlog, fun id => ?_, fun total hknown => (hspent total hknown).1, fun h => (by cases h),
          fun h => (by cases h)⟩, hwrites⟩
        rw [List.append_nil]
        exact Nat.le_trans (Nat.le_add_right _ _) ((hs.erased hrequest).times id)
      | none =>
        obtain ⟨hs', hcurrent⟩ := hgood rfl
        have hpump := @inv_pumpAll _ _ fs _ _ _ _ hplain hs'
          (fun total hknown => (hspent total hknown).2 rfl) hcurrent
        obtain ⟨more, hmore, hnone⟩ := @Run.pumpAll_log _ fs run (hs'.list.symm ▸ hcurrent)
        have hwrites' : ∃ ops, (run.pumpAll (logged fs)).1.log = t.run.log ++ ops ∧
            (ops.filterMap FileOp.written).length ≤ 1 ∧ ∀ op ∈ ops, Licensed t a op := by
          obtain ⟨ops, hops, hone, hlicensed⟩ := hwrites
          refine ⟨ops ++ more, by rw [hmore, hops, List.append_assoc], ?_, fun op hop => ?_⟩
          · rw [List.filterMap_append, List.filterMap_eq_nil_iff.mpr hnone, List.append_nil]
            exact hone
          · rcases List.mem_append.mp hop with hop | hop
            · exact hlicensed op hop
            · rintro path position bytes rfl
              cases hnone _ hop
        dsimp only
        generalize run.pumpAll (logged fs) = out at *
        obtain ⟨run', progress | requests⟩ := out
        · dsimp only at hpump ⊢
          rw [hpump.1, List.append_nil]
          exact ⟨hpump.2, hwrites'⟩
        · exact ⟨hpump, hwrites'⟩
  · exact ⟨h, hnothing⟩

theorem known_of_knownSize {n : ℕ} (h : entries.foldlM (fun sum e =>
      e.size.bind fun size => if sum + size < 2 ^ 64 then some (sum + size) else none) n = some total) :
    (∀ e ∈ entries, e.size ≠ none) ∧ n + (entries.map fun e => e.size.getD 0).sum = total := by
  induction entries generalizing n with
  | nil =>
    obtain rfl := Option.some.inj h
    exact ⟨fun e he => absurd he List.not_mem_nil, Nat.add_zero n⟩
  | cons e entries ih =>
    rw [List.foldlM_cons] at h
    obtain ⟨sum, hsum, hrest⟩ := Option.bind_eq_some_iff.mp h
    obtain ⟨size, hsize, hadd⟩ := Option.bind_eq_some_iff.mp hsum
    split at hadd
    · cases hadd
      obtain ⟨hall, htotal⟩ := ih hrest
      refine ⟨fun e' he' => ?_, ?_⟩
      · rcases List.mem_cons.mp he' with rfl | he'
        · rw [hsize]
          exact Option.some_ne_none _
        · exact hall e' he'
      · rw [List.map_cons, List.sum_cons, hsize, ← htotal, Option.getD_some, Nat.add_assoc]
    · cases hadd

theorem known_of_start {files : List FileDescriptor} (h : remoteFiles files = .start entries) :
    entries = plan files ∧ Known autoDownloadLimit entries := by
  unfold remoteFiles at h
  dsimp only at h
  split at h
  · cases h
  · split at h
    · next total hsum =>
      split at h
      · next hle =>
        cases h
        obtain ⟨hall, htotal⟩ := known_of_knownSize hsum
        exact ⟨rfl, hall, by omega⟩
      · cases h
    · cases h

/-- Whatever the list, the answers and the failures of the file system. -/
theorem stays_in_folder (fs : FileSystem L) (files : List FileDescriptor) (base : Path)
    (clipDataId : Option UInt32) (nextStream : UInt32) (disk : L)
    (answers : List (UInt32 × Option (List UInt8))) :
    (∀ op ∈ (Steps.run (answer (logged fs)) (start (logged fs) base (plan files) clipDataId nextStream (disk, []))
        answers).run.log, Contained base op) ∧
    Along (answer (logged fs)) (fun t a => ∃ ops, (t.answer (logged fs) a).run.log = t.run.log ++ ops ∧
        (ops.filterMap FileOp.written).length ≤ 1 ∧ ∀ op ∈ ops, Licensed t a op)
      (start (logged fs) base (plan files) clipDataId nextStream (disk, [])) answers ∧
    (∀ id, (Steps.run (answer (logged fs)) (start (logged fs) base (plan files) clipDataId nextStream (disk, []))
          answers).answered.count id ≤
        ((Steps.run (answer (logged fs)) (start (logged fs) base (plan files) clipDataId nextStream (disk, []))
          answers).sent.filter (·.streamId = id)).length) ∧
    (remoteFiles files = .start (plan files) →
      bytesWritten (Steps.run (answer (logged fs)) (start (logged fs) base (plan files) clipDataId nextStream
        (disk, [])) answers).run.log ≤ autoDownloadLimit) := by
  have hplain : AllPlain (plan files) := fun e he => plan_plain he
  have hstart := @inv_start base _ fs _ clipDataId nextStream disk hplain
  have hall : Along (answer (logged fs)) (fun _ _ => True)
      (start (logged fs) base (plan files) clipDataId nextStream (disk, [])) answers :=
    along_of_forall (fun _ _ => trivial) _ _
  have hinv := hall.invariant hstart fun t a ht _ => (answer_inv hplain ht).1
  exact ⟨hinv.log, hall.mono hstart (fun t a ht _ => (answer_inv hplain ht).1) fun t a ht _ =>
    (answer_inv hplain ht).2, hinv.times, fun h => hinv.bytes _ (known_of_start h).2⟩

def oneFile : List FileDescriptor := [⟨['a'], none, none, some 0, none⟩]

/-- The folder itself is created too. -/
theorem folder_created : ¬∀ (files : List FileDescriptor) (base : Path), ∀ op ∈
    (start (logged fun _ (disk : Unit) => (none, disk)) base (plan files) none 0 ((), [])).run.log, Inside base
    op.path := by
  intro h
  obtain ⟨parts, hparts, hpath, -⟩ := h oneFile [['b']] (.privateDir [['b']]) (by decide +kernel)
  exact hparts (List.append_cancel_left (hpath.symm.trans (List.append_nil [['b']]).symm))

end Transfer

end Clipboard

end UwuRdp
