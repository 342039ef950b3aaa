import UwuRdp.Core.Outcomes
import UwuRdp.Lib.Counter
import UwuRdp.Lib.Steps

/-!
# Handles of shared folders

What holds of the open files and folders over whole runs: there are few of them, each has a number of its
own, and only those whose create asked for it may be written to. The bytes of a file change only through
these, or as a create empties or makes it.
-/

namespace UwuRdp

open Lib Lib.FileTree

namespace Drive

open Act (Ends)

variable {s s' s₁ : FsBackend} {r : Request}

/-! ## Numbers -/

theorem nextFreeId_spec {opened : Table UInt32 Open} {fuel : ℕ} {id : UInt32} (h : 0 < id.toNat)
    (hlen : opened.entries.length ≤ fuel) (hfuel : fuel < 2 ^ 32 - 1) : ∃ k,
    (∀ j < k, opened.get? (Counter.next^[j] id) ≠ none) ∧ nextFreeId opened fuel id =
    (Counter.next^[k] id, Counter.next^[k + 1] id) ∧ opened.get? (Counter.next^[k] id) = none := by
  -- Counted from the start: `j` numbers were taken, and `left` turns are left.
  have hloop : ∀ left j, j + left = fuel → (∀ i < j, opened.get? (Counter.next^[i] id) ≠ none) →
      ∃ k, (∀ i < k, opened.get? (Counter.next^[i] id) ≠ none) ∧
        nextFreeId opened left (Counter.next^[j] id) = (Counter.next^[k] id, Counter.next^[k + 1] id) ∧
        opened.get? (Counter.next^[k] id) = none := by
    intro left
    induction left with
    | zero =>
      intro j hj htaken
      refine ⟨j, htaken, ?_, ?_⟩
      · rw [nextFreeId, Function.iterate_succ_apply']
        rfl
      · by_contra hout
        refine absurd (Counter.lt_length h (by omega) fun i hi => ?_) (Nat.not_lt.mpr (hj ▸ hlen))
        rcases Nat.lt_or_eq_of_le hi with hlt | rfl
        · exact htaken i hlt
        · exact hout
    | succ left ih =>
      intro j hj htaken
      unfold nextFreeId
      split
      · next hfree =>
        refine ⟨j, htaken, ?_, Option.isNone_iff_eq_none.mp hfree⟩
        rw [Function.iterate_succ_apply']
        rfl
      · next hbusy =>
        have hstep : max (Counter.next^[j] id + 1) 1 = Counter.next^[j + 1] id := by
          rw [Function.iterate_succ_apply']
          rfl
        rw [hstep]
        refine ih (j + 1) (by omega) fun i hi => ?_
        rcases Nat.lt_or_eq_of_le (Nat.lt_succ_iff.mp hi) with hlt | rfl
        · exact htaken i hlt
        · exact fun hnone => hbusy (Option.isNone_iff_eq_none.mpr hnone)
  exact hloop fuel 0 (Nat.zero_add fuel) fun i hi => absurd hi (Nat.not_lt_zero i)

/-! ## What holds of every run -/

/-- The handles are few, have numbers, and paths in their shares. -/
structure Handled (s : FsBackend) : Prop where
  rooted : HandlesRooted s
  few : s.opened.entries.length ≤ s.maxOpen
  most : s.maxOpen = maxOpenFiles
  nonzero : ∀ id o, s.opened.get? id = some o → 0 < id.toNat
  next : 0 < s.nextId.toNat

theorem handled_new (disk : Disk) (shares : Table UInt32 Share) : Handled (FsBackend.new disk shares) where
  rooted id o ho := by cases ho
  few := Nat.zero_le _
  most := rfl
  nonzero id o ho := by cases ho
  next := by
    show 0 < (1 : UInt32).toNat
    decide

theorem Handled.free (h : Handled s) : ∃ k, (∀ j < k, s.opened.get? (Counter.next^[j] s.nextId) ≠ none) ∧ nextFreeId
    s.opened s.opened.entries.length s.nextId = (Counter.next^[k] s.nextId, Counter.next^[k + 1] s.nextId) ∧
    s.opened.get? (Counter.next^[k] s.nextId) = none := by
  have hfew := h.few
  rw [h.most] at hfew
  exact nextFreeId_spec h.next le_rfl (by unfold maxOpenFiles at hfew; omega)

theorem Handled.quiet (h : Handled s) (hq : Quiet s s') : Handled s' := by
  obtain ⟨places, rfl⟩ := hq
  exact ⟨h.rooted, h.few, h.most, h.nonzero, h.next⟩

theorem Moving.path {disk disk' : Disk} {path target path' : PathBuf}
    (h : Moving disk path target disk' path') : path' = path ∨ path' = target := by
  cases h with
  | left => exact .inl rfl
  | moved => exact .inr rfl

theorem Moving.data {disk disk' : Disk} {path target path' : PathBuf}
    (h : Moving disk path target disk' path') : disk'.data = disk.data := by
  cases h with
  | left => rfl
  | moved renamed =>
    obtain ⟨-, -, -, -, ⟨-, rfl⟩ | ⟨-, -, -, -, rfl⟩⟩ := rename_eq_ok renamed
    · rfl
    · rfl

theorem Outcome.handled (h : Outcome s r s') (hs : Handled s) : Handled s' ∧ s'.shares = s.shares := by
  cases h with
  | looked => exact ⟨hs, rfl⟩
  | @opened req path disk o room rooted opening dev at' asked =>
    obtain ⟨k, -, hid, hnone⟩ := hs.free
    rw [hid]
    refine ⟨⟨fun id o' ho' => ?_, ?_, hs.most, fun id o' ho' => ?_, Counter.iterate_pos hs.next (k + 1)⟩, rfl⟩
    · dsimp only at ho'
      rw [Table.get?_set] at ho'
      split at ho'
      · cases ho'
        rw [dev, at']
        exact rooted
      · exact hs.rooted id o' ho'
    · dsimp only
      rw [Table.length_set_of_none o hnone]
      exact room
    · dsimp only at ho'
      rw [Table.get?_set] at ho'
      split at ho'
      · next heq =>
        rw [heq]
        exact Counter.iterate_pos hs.next k
      · exact hs.nonzero id o' ho'
  | @closed req o disk there closing =>
    have hleft : ∀ id o', (s.opened.erase req.fileId).get? id = some o' → s.opened.get? id = some o' :=
      fun id o' ho' => by
        rw [Table.get?_erase] at ho'
        split at ho'
        · cases ho'
        · exact ho'
    have hlen := Table.length_erase_of_some there
    have hfew := hs.few
    exact ⟨⟨fun id o' ho' => hs.rooted id o' (hleft id o' ho'), by dsimp only; omega, hs.most,
      fun id o' ho' => hs.nonzero id o' (hleft id o' ho'), hs.next⟩, rfl⟩
  | written => exact ⟨⟨hs.rooted, hs.few, hs.most, hs.nonzero, hs.next⟩, rfl⟩
  | @updated _ req o o' target disk names there dev rooted moving dev' same =>
    refine ⟨⟨fun id o'' ho'' => ?_, ?_, hs.most, fun id o'' ho'' => ?_, hs.next⟩, rfl⟩
    · dsimp only at ho''
      rw [Table.get?_set] at ho''
      split at ho''
      · cases ho''
        have hpath : Rooted s req.deviceId o'.path := by
          rcases moving.path with heq | heq
          · rw [heq, ← dev]
            exact hs.rooted _ o there
          · rw [heq]
            exact rooted
        rw [dev', dev]
        exact hpath
      · exact hs.rooted id o'' ho''
    · dsimp only
      rw [Table.length_set_of_some o' there]
      exact hs.few
    · dsimp only at ho''
      rw [Table.get?_set] at ho''
      split at ho''
      · next heq =>
        rw [heq]
        exact hs.nonzero _ o there
      · exact hs.nonzero id o'' ho''

theorem step_handled [Platform] (hs : Handled s) (r : Request) : Handled (step s r) := by
  obtain ⟨s₁, hout, hq⟩ := step_outcome hs.rooted r
  exact (hout.handled hs).1.quiet hq

/-! ## Who may write -/

theorem Outcome.same (h : Outcome s r s') (hs : Handled s) {id : UInt32} {o o' : Open}
    (ho : s.opened.get? id = some o) (ho' : s'.opened.get? id = some o') :
    o'.writable = o.writable ∧ o'.deviceId = o.deviceId := by
  have hkept : s.opened.get? id = some o' → o'.writable = o.writable ∧ o'.deviceId = o.deviceId := fun h => by
    cases ho.symm.trans h
    exact ⟨rfl, rfl⟩
  cases h with
  | looked => exact hkept ho'
  | opened =>
    obtain ⟨k, -, hid, hnone⟩ := hs.free
    rw [hid] at ho'
    rw [Table.get?_set] at ho'
    split at ho'
    · next heq =>
      rw [heq, hnone] at ho
      cases ho
    · exact hkept ho'
  | closed =>
    rw [Table.get?_erase] at ho'
    split at ho'
    · cases ho'
    · exact hkept ho'
  | written => exact hkept ho'
  | updated names there dev rooted moving dev' same =>
    rw [Table.get?_set] at ho'
    split at ho'
    · next heq =>
      rw [heq, there] at ho
      cases ho
      cases ho'
      exact ⟨same, dev'⟩
    · exact hkept ho'

theorem Outcome.old (h : Outcome s r s') {id : UInt32} {o' : Open} (ho' : s'.opened.get? id = some o') :
    (∃ o, s.opened.get? id = some o) ∨ ∃ req, r = .create req := by
  cases h with
  | looked => exact .inl ⟨o', ho'⟩
  | opened => exact .inr ⟨_, rfl⟩
  | closed =>
    rw [Table.get?_erase] at ho'
    split at ho'
    · cases ho'
    · exact .inl ⟨o', ho'⟩
  | written => exact .inl ⟨o', ho'⟩
  | updated names there =>
    rw [Table.get?_set] at ho'
    split at ho'
    · next heq => exact .inl ⟨_, heq ▸ there⟩
    · exact .inl ⟨o', ho'⟩

/-- How the bytes of a file may change: a create empties it or makes it, or they are written through a
handle that may. -/
theorem Outcome.bytes (h : Outcome s r s') {id : ℕ} (hchanged : (s'.disk.data id).bytes ≠ (s.disk.data id).bytes) :
    (∃ req, r = .create req ∧ (Truncates req.createDisposition ∨ Creates req.createDisposition ∧ id = s.disk.next)) ∨
    r.Writes ∧ ∃ req o file, r.handle? = some req ∧ s.opened.get? req.fileId = some o ∧ o.deviceId = req.deviceId ∧
    o.file = some file ∧ file.id = id ∧ o.writable = true := by
  have hsame : ∀ {t : Disk}, t.data = s.disk.data → (t.data id).bytes = (s.disk.data id).bytes := fun h => by
    rw [h]
  cases h with
  | looked => exact absurd rfl hchanged
  | opened room rooted opening =>
    cases opening with
    | found => exact absurd rfl hchanged
    | truncated truncates => exact .inl ⟨_, rfl, .inl truncates⟩
    | made creates =>
      refine .inl ⟨_, rfl, .inr ⟨creates, ?_⟩⟩
      by_contra hne
      exact hchanged (congrArg FileData.bytes (Function.update_of_ne hne _ _))
  | closed there closing =>
    cases closing with
    | left | removed => exact absurd rfl hchanged
  | @written _ req o file f names there dev isOpen allowed =>
    by_cases heq : id = file.id
    · rcases allowed with ⟨hwrites, hwritable⟩ | hbytes
      · exact .inr ⟨hwrites, req, o, file, names, there, dev, isOpen, heq.symm, hwritable⟩
      · refine absurd ?_ hchanged
        rw [heq]
        show (Function.update s.disk.data file.id (f (s.disk.data file.id)) file.id).bytes = _
        rw [Function.update_self, hbytes]
    · exact absurd (congrArg FileData.bytes (Function.update_of_ne heq _ _)) hchanged
  | updated names there dev rooted moving =>
    exact absurd (hsame moving.data) hchanged

/-- The create each handle comes from, and whether it got the leave to write. -/
abbrev Granted := UInt32 → Option (CreateRequest × Bool)

def stepNoting [Platform] (x : FsBackend × Granted) (r : Request) : FsBackend × Granted :=
  (step x.1 r,
    match r, (r.handle { x.1 with touched := [] }).1 with
    | .create req, .ok (.created id _) =>
      Function.update x.2 id (((step x.1 r).opened.get? id).map fun o => (req, o.writable))
    | _, _ => x.2)

/-- Every handle has the leave its create got, and got none that was not asked for. -/
def Noted (x : FsBackend × Granted) : Prop :=
  ∀ id o, x.1.opened.get? id = some o → ∃ req, x.2 id = some (req, o.writable) ∧
    req.deviceId = o.deviceId ∧ (o.writable = true → wantsWrite req.desiredAccess = true)

theorem create_answer [Platform] (hs : Handled s) (req : CreateRequest) :
    (∃ e, ((Request.create req).handle s).1 = .error e ∧ Quiet s ((Request.create req).handle s).2) ∨ ∃ id information
    o, ((Request.create req).handle s).1 = .ok (.created id information) ∧ 0 < id.toNat ∧ s.opened.get? id = none ∧
    o.deviceId = req.deviceId ∧ (o.writable = true → wantsWrite req.desiredAccess = true) ∧
    ((Request.create req).handle s).2.opened = s.opened.set id o := by
  have hends := create_ends req s (Quiet.refl s)
  show (∃ e, ((create req >>= fun a => pure (Answer.created a.1 a.2)) s).1 = _ ∧ _) ∨ _
  split at hends
  · next a s' hrun =>
    obtain ⟨hid, path, disk, o, -, -, -, hdev, -, hasked, hq⟩ := hends
    obtain ⟨k, -, hfree, hnone⟩ := hs.free
    refine .inr ⟨a.1, a.2, o, ?_, ?_, ?_, hdev, hasked, ?_⟩
    · show ((create req >>= fun a => pure (Answer.created a.1 a.2)) s).1 = _
      rw [Act.bind_of_ok hrun]
      rfl
    · rw [hid, hfree]
      exact Counter.iterate_pos hs.next k
    · rw [hid, hfree]
      exact hnone
    · show ((create req >>= fun a => pure (Answer.created a.1 a.2)) s).2.opened = _
      rw [Act.bind_of_ok hrun, hid]
      exact hq.opened
  · next e s' hrun =>
    refine .inl ⟨e, ?_, ?_⟩
    · rw [Act.bind_of_error hrun]
    · show Quiet s ((create req >>= fun a => pure (Answer.created a.1 a.2)) s).2
      rw [Act.bind_of_error hrun]
      exact hends

variable {x : FsBackend × Granted}

theorem stepNoting_noted [Platform] (hs : Handled x.1) (h : Noted x) (r : Request) : Noted (stepNoting x r) := by
  obtain ⟨s₁, hout, hq⟩ := step_outcome hs.rooted r
  -- A handle that was there has its entry, if that stays.
  have hold : ∀ {g : Granted} {id : UInt32} {o o' : Open}, g id = x.2 id → x.1.opened.get? id = some o →
      (step x.1 r).opened.get? id = some o' → ∃ req, g id = some (req, o'.writable) ∧
        req.deviceId = o'.deviceId ∧ (o'.writable = true → wantsWrite req.desiredAccess = true) := by
    intro g id o o' hg ho ho'
    rw [hq.opened] at ho'
    obtain ⟨hwritable, hdev⟩ := hout.same hs ho ho'
    obtain ⟨req, hreq, hdevice, hasked⟩ := h id o ho
    exact ⟨req, by rw [hg, hreq, hwritable], hdevice.trans hdev.symm, fun hw => hasked (hwritable ▸ hw)⟩
  cases r with
  | create req =>
    rcases create_answer (hs.quiet (⟨[], rfl⟩ : Quiet x.1 { x.1 with touched := [] })) req with
      ⟨e, hanswer, hquiet⟩ | ⟨id, information, o, hanswer, -, hnone, hdev, hasked, hopened⟩
    · intro id o' ho'
      unfold stepNoting at ho' ⊢
      rw [hanswer]
      have ho : x.1.opened.get? id = some o' := by
        rw [← ho']
        exact congrArg (fun t => t.get? id) hquiet.opened.symm
      exact hold rfl ho ho'
    · intro id' o' ho'
      unfold stepNoting at ho' ⊢
      rw [hanswer]
      dsimp only
      have hset : (step x.1 (.create req)).opened.get? id' = if id' = id then some o else x.1.opened.get? id' := by
        unfold step
        rw [hopened]
        exact Table.get?_set _ _ _ _
      by_cases heq : id' = id
      · subst heq
        rw [hset, if_pos rfl] at ho'
        cases ho'
        refine ⟨req, ?_, hdev.symm, hasked⟩
        rw [Function.update_self, hset, if_pos rfl]
        rfl
      · have ho : x.1.opened.get? id' = some o' := by
          rw [hset, if_neg heq] at ho'
          exact ho'
        exact hold (Function.update_of_ne heq _ _) ho ho'
  | close | read | write | queryInformation | queryVolume | setInformation | queryDirectory =>
    intro id o' ho'
    have ho₁ : s₁.opened.get? id = some o' := hq.opened ▸ ho'
    rcases hout.old ho₁ with ⟨o, ho⟩ | ⟨req, hreq⟩
    · exact hold rfl ho ho'
    · cases hreq

theorem read_answer {req : IoRequest} {length offset : ℕ} {bytes : List UInt8}
    (h : (read req length offset s).1 = .ok bytes) : bytes.length ≤ maxRead ∧ ∃ o file, s.opened.get? req.fileId =
    some o ∧ o.deviceId = req.deviceId ∧ o.file = some file ∧ bytes = ((s.disk.data file.id).bytes.drop offset).take
    (min length maxRead) := by
  have hends : Peeks s (read req length offset) fun bytes => bytes.length ≤ maxRead ∧
      ∃ o file, s.opened.get? req.fileId = some o ∧ o.deviceId = req.deviceId ∧ o.file = some file ∧
        bytes = ((s.disk.data file.id).bytes.drop offset).take (min length maxRead) := by
    refine .bind (.openedFile req) fun o ho => ?_
    split
    · exact .fail
    · next file hfile =>
      split
      · exact .fail
      · split
        · exact .fail
        · refine .bind (.touchFile file) fun _ _ => .get_bind fun s' hs' => ?_
          rw [hs'.disk]
          refine .pure ⟨?_, o, file, ho.1, ho.2, hfile, rfl⟩
          rw [List.length_take]
          omega
  have hread := hends s (Quiet.refl s)
  split at hread
  · next a s' hrun =>
    rw [hrun] at h
    cases h
    exact hread.2
  · next e s' hrun =>
    rw [hrun] at h
    cases h

/-- What holds wherever a run has come to, and of the request that comes next. -/
structure SoundAt [Platform] (x : FsBackend × Granted) (r : Request) : Prop where
  /-- There are never more handles than may be open. -/
  few : x.1.opened.entries.length ≤ maxOpenFiles
  /-- No number names two handles. -/
  distinct : (x.1.opened.entries.map Prod.fst).Nodup
  /-- A handle has a number, and the leave its create got. -/
  handles : ∀ id o, x.1.opened.get? id = some o → id ≠ 0 ∧ ∃ req, x.2 id = some (req, o.writable) ∧
    req.deviceId = o.deviceId ∧ (o.writable = true → wantsWrite req.desiredAccess = true)
  /-- Counting on from the next number comes to a free one, which the next handle gets. -/
  free : ∃ k, (∀ j < k, x.1.opened.get? (Counter.next^[j] x.1.nextId) ≠ none) ∧
    x.1.opened.get? (Counter.next^[k] x.1.nextId) = none ∧
    (nextFreeId x.1.opened x.1.opened.entries.length x.1.nextId).1 = Counter.next^[k] x.1.nextId
  /-- A new handle has a number that is free. -/
  created : ∀ req id information, r = .create req →
    (r.handle { x.1 with touched := [] }).1 = .ok (.created id information) →
      id ≠ 0 ∧ x.1.opened.get? id = none
  /-- The bytes of a file change only by a create that empties or makes it, or through a handle whose create
  asked for write access and got it. -/
  bytes : ∀ id, ((step x.1 r).disk.data id).bytes ≠ (x.1.disk.data id).bytes →
    (∃ req, r = .create req ∧
        (Truncates req.createDisposition ∨ Creates req.createDisposition ∧ id = x.1.disk.next)) ∨
      r.Writes ∧ ∃ req o file made, r.handle? = some req ∧ x.1.opened.get? req.fileId = some o ∧
        o.file = some file ∧ file.id = id ∧ x.2 req.fileId = some (made, true) ∧
        wantsWrite made.desiredAccess = true
  /-- A handle keeps the leave it has, whatever is asked. -/
  stays : ∀ id o o', x.1.opened.get? id = some o → (step x.1 r).opened.get? id = some o' →
    o'.writable = o.writable
  /-- A read answers bytes of the open file from the offset on, and not too many. -/
  reads : ∀ req length offset bytes, r = .read req length offset →
    (r.handle { x.1 with touched := [] }).1 = .ok (.data bytes) →
      bytes.length ≤ maxRead ∧ ∃ o file, x.1.opened.get? req.fileId = some o ∧ o.file = some file ∧
        bytes = ((x.1.disk.data file.id).bytes.drop offset).take (min length maxRead)

theorem soundAt [Platform] (hs : Handled x.1) (h : Noted x) (r : Request) : SoundAt x r := by
  have hpos : ∀ {id : UInt32}, 0 < id.toNat → id ≠ 0 := fun hid hzero => by
    rw [hzero] at hid
    cases hid
  have hquiet : Handled { x.1 with touched := [] } := hs.quiet ⟨[], rfl⟩
  obtain ⟨s₁, hout, hq⟩ := step_outcome hs.rooted r
  refine ⟨hs.most ▸ hs.few, x.1.opened.nodup, fun id o ho => ⟨hpos (hs.nonzero id o ho), h id o ho⟩, ?_, ?_,
    ?_, ?_, ?_⟩
  · obtain ⟨k, htaken, hid, hnone⟩ := hs.free
    exact ⟨k, htaken, hnone, congrArg Prod.fst hid⟩
  · rintro req id information rfl hanswer
    rcases create_answer hquiet req with ⟨e, herror, -⟩ | ⟨id', information', o, hok, hid, hnone, -⟩
    · rw [herror] at hanswer
      cases hanswer
    · rw [hok] at hanswer
      cases hanswer
      exact ⟨hpos hid, hnone⟩
  · intro id hchanged
    rw [hq.disk] at hchanged
    rcases hout.bytes hchanged with hcreate | ⟨hwrites, req, o, file, hnames, ho, -, hfile, hid, hwritable⟩
    · exact .inl hcreate
    · obtain ⟨made, hmade, -, hasked⟩ := h req.fileId o ho
      rw [hwritable] at hmade
      exact .inr ⟨hwrites, req, o, file, made, hnames, ho, hfile, hid, hmade, hasked hwritable⟩
  · intro id o o' ho ho'
    rw [hq.opened] at ho'
    exact (hout.same hs ho ho').1
  · rintro req length offset bytes rfl hanswer
    have hread : (read req length offset { x.1 with touched := [] }).1 = .ok bytes := by
      generalize hrun : read req length offset { x.1 with touched := [] } = result
      obtain ⟨answer, s'⟩ := result
      have hhandle : ((read req length offset >>= fun bytes => pure (Answer.data bytes))
          { x.1 with touched := [] }).1 = .ok (.data bytes) := hanswer
      cases answer with
      | ok bytes' =>
        rw [Act.bind_of_ok hrun] at hhandle
        cases hhandle
        rfl
      | error e =>
        rw [Act.bind_of_error hrun] at hhandle
        cases hhandle
    obtain ⟨hlen, o, file, ho, -, hfile, hbytes⟩ := read_answer hread
    exact ⟨hlen, o, file, ho, hfile, hbytes⟩

theorem run_noted [Platform] (hs : Handled x.1) (h : Noted x) (requests : List Request) : Handled
    (Steps.run stepNoting x requests).1 ∧ Noted (Steps.run stepNoting x requests) ∧
    (Steps.run stepNoting x requests).1 = Steps.run step x.1 requests := by
  induction requests generalizing x with
  | nil => exact ⟨hs, h, rfl⟩
  | cons r requests ih => exact ih (step_handled hs r) (stepNoting_noted hs h r)

/-- Wherever a run on a fresh backend comes to, its handles are sound. -/
theorem handles_sound [Platform] (disk : Disk) (shares : Table UInt32 Share) (requests : List Request) (r : Request) :
    (Steps.run stepNoting (FsBackend.new disk shares, fun _ => none) requests).1 = Steps.run step
    (FsBackend.new disk shares) requests ∧ SoundAt
    (Steps.run stepNoting (FsBackend.new disk shares, fun _ => none) requests) r := by
  have hnone : Noted (FsBackend.new disk shares, fun _ => none) := fun id o ho => by cases ho
  obtain ⟨hs, hnoted, hrun⟩ := run_noted (handled_new disk shares) hnone requests
  exact ⟨hrun, soundAt hs hnoted r⟩

end Drive

end UwuRdp
