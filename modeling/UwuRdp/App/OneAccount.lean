import UwuRdp.App.InTurn

/-!
# What each step keeps

Every step of a thread keeps the invariant, phase by phase, where the condition holds; so do the other moves, and
with them every run.
-/

namespace UwuRdp

open Lib

namespace Passes

variable {s s' : Desk} {call : ℕ} {phase phase' : Phase}

/-! ## Reading the pairing -/

theorem account_uwuSync {account : Uuid} (h : s.account = some (.uwuSync account)) :
    s.db.lock.active = false ∧ s.db.enrolment.map Enrolment.accountId = some account := by
  unfold Desk.account at h
  split at h
  · cases hspace : s.db.lock.spaceId with
    | none | some space => simp [hspace] at h
  · next hactive =>
    refine ⟨Bool.eq_false_of_not_eq_true hactive, ?_⟩
    cases henrolment : s.db.enrolment with
    | none => simp [henrolment] at h
    | some e => simpa [henrolment] using h

variable {space : Uuid}

theorem account_uwuLock (h : s.account = some (.uwuLock space)) :
    s.db.lock.active = true ∧ s.db.lock.spaceId = some space := by
  unfold Desk.account at h
  split at h
  · next hactive =>
    refine ⟨hactive, ?_⟩
    cases hspace : s.db.lock.spaceId with
    | none => simp [hspace] at h
    | some space' => simpa [hspace] using h
  · cases henrolment : s.db.enrolment with
    | none | some e => simp [henrolment] at h

theorem account_of_enrolment {account : Uuid} (h : s.db.enrolment.map Enrolment.accountId = some account)
    (hactive : s.db.lock.active = false) : s.account = some (.uwuSync account) := by
  obtain ⟨e, he, rfl⟩ := Option.map_eq_some_iff.mp h
  simp [Desk.account, hactive, he]

theorem account_of_space (hactive : s.db.lock.active = true) (h : s.db.lock.spaceId = some space) :
    s.account = some (.uwuLock space) := by
  simp [Desk.account, hactive, h]

/-! ## The kept connections -/

theorem unset {P : Prop} (h : false = true) : P := by cases h

theorem not_stale_of_not_between (h : phase.between = false) :
    phase.staleServer = false ∧ phase.staleLock = false := by
  constructor
  · by_contra hstale
    rw [between_of_staleServer (Bool.eq_true_of_not_eq_false hstale)] at h
    cases h
  · by_contra hstale
    rw [between_of_staleLock (Bool.eq_true_of_not_eq_false hstale)] at h
    cases h

theorem Inv.kept_of_none (h : Inv s) (hnone : s.None Phase.between) : Kept s := by
  constructor
  · rcases h.server with ⟨j, q, hq, hstale⟩ | hkept
    · rw [(not_stale_of_not_between (hnone q (List.mem_of_getElem? hq))).1] at hstale
      cases hstale
    · exact hkept
  · rcases h.lock with ⟨j, q, hq, hstale⟩ | hkept
    · rw [(not_stale_of_not_between (hnone q (List.mem_of_getElem? hq))).2] at hstale
      cases hstale
    · exact hkept

theorem Inv.none_of_engaged (h : Inv s) (hi : s.calls[call]? = some phase) (hengaged : phase.engaged = true) :
    s.None Phase.between := by
  intro q hq
  obtain ⟨j, hj⟩ := List.mem_iff_getElem?.mp hq
  by_contra hbetween
  rw [h.apart j call q phase hj hi (Bool.eq_true_of_not_eq_false hbetween)] at hengaged
  cases hengaged

theorem Inv.none_of_underWay (h : Inv s) (hi : s.calls[call]? = some phase) (hunder : phase.underWay = true)
    (hphase : phase.between = false) : s.None Phase.between := by
  intro q hq
  obtain ⟨j, hj⟩ := List.mem_iff_getElem?.mp hq
  by_contra hbetween
  have hbetween := Bool.eq_true_of_not_eq_false hbetween
  obtain rfl := h.one j call q phase hj hi (underWay_of_between hbetween) hunder
  rw [Option.some.inj (hj.symm.trans hi), hphase] at hbetween
  cases hbetween

theorem Inv.account_of_kept (h : Inv s) (hnone : s.None Phase.between) {onLock : Bool} {account : Account}
    (hactive : onLock = true → s.db.lock.active = true) (hkept : s.kept onLock = some account) :
    s.account = some account := by
  obtain ⟨hserver, hlock⟩ := h.kept_of_none hnone
  cases onLock with
  | true =>
    obtain ⟨space, hspace, rfl⟩ := Option.map_eq_some_iff.mp hkept
    exact account_of_space (hactive rfl) (hlock (hactive rfl) space hspace)
  | false =>
    obtain ⟨id, hid, rfl⟩ := Option.map_eq_some_iff.mp hkept
    have henrolment := hserver id hid
    refine account_of_enrolment henrolment (h.both.resolve_left fun hnone => ?_)
    rw [hnone] at henrolment
    cases henrolment

/-! ## Steps that leave the pairing -/

theorem serverKept_none (h : s.server = none) : ServerKept s := by
  intro account haccount
  rw [h] at haccount
  cases haccount

theorem lockKept_none (h : s.lock = none) : LockKept s := by
  intro _ space hspace
  rw [h] at hspace
  cases hspace

theorem lockKept_inactive (h : s.db.lock.active = false) : LockKept s := by
  intro hactive
  rw [h] at hactive
  cases hactive

theorem serverKept_of_none (h : ServerKept s) (henrolment : s.db.enrolment = none) : s.server = none := by
  cases hserver : s.server with
  | none => rfl
  | some account =>
    have hkept := h account hserver
    rw [henrolment] at hkept
    cases hkept

theorem Inv.both_of_same (h : Inv s) (hs : SamePairing s s') : s'.db.enrolment = none ∨ s'.db.lock.active = false := by
  rw [show s'.db.enrolment = _ from hs.enrolment, show s'.db.lock = _ from hs.lock]
  exact h.both

theorem Goes.still (h : Inv s) (hcalls : s'.calls = s.calls.set call phase') (hok : phase'.Ok s')
    (hs : SamePairing s s') (hserver : s'.server = none ∨ s'.server = s.server ∧ phase.staleServer = false)
    (hlock : s'.lock = none ∨ s'.lock = s.lock ∧ phase.staleLock = false)
    (hunder : phase'.underWay = true → phase.underWay = true ∨ s.None Phase.underWay)
    (hbetween : phase'.between = true → phase.between = true)
    (hengaged : phase'.engaged = true → phase.engaged = true ∨ s.None Phase.between) :
    Goes s call phase s' phase' := by
  refine ⟨hcalls, hok, .inl ⟨hs, ?_⟩, hunder, fun hb => .inl (hbetween hb), fun he => ?_, ?_, ?_, ?_⟩
  · rcases hserver with hserver | ⟨hserver, -⟩
    · exact .inr (.inl hserver)
    · exact .inl hserver
  · rcases hengaged he with hphase | hnone
    · exact .inl hphase
    · exact .inr fun j q _ hq => hnone q (List.mem_of_getElem? hq)
  · exact h.both_of_same hs
  · rcases hserver with hserver | hserver
    · exact .inr (.inl (serverKept_none hserver))
    · exact .inr (.inr ⟨hs, hserver⟩)
  · rcases hlock with hlock | hlock
    · exact .inr (.inl (lockKept_none hlock))
    · exact .inr (.inr ⟨hs, hlock⟩)

theorem Inv.next (h : Inv s) (hi : s.calls[call]? = some phase) (hphase : phase.between = false)
    (hcalls : s'.calls = s.calls.set call phase') (hs : SamePairing s s') (hserver : s'.server = s.server)
    (hlock : s'.lock = s.lock) (hok : phase'.Ok s')
    (hunder : phase'.underWay = true → phase.underWay = true ∨ s.None Phase.underWay)
    (hbetween : phase'.between = false)
    (hengaged : phase'.engaged = true → phase.engaged = true ∨ s.None Phase.between) : Inv s' := by
  obtain ⟨hstaleServer, hstaleLock⟩ := not_stale_of_not_between hphase
  refine h.goes hi (.still h hcalls hok hs (.inr ⟨hserver, hstaleServer⟩) (.inr ⟨hlock, hstaleLock⟩) hunder ?_
    hengaged)
  intro hb
  rw [hbetween] at hb
  cases hb

theorem Inv.ends (h : Inv s) (hi : s.calls[call]? = some phase) (hphase : phase.between = false)
    (hcalls : s'.calls = s.calls.set call .ended) (hs : SamePairing s s') (hserver : s'.server = s.server)
    (hlock : s'.lock = s.lock) : Inv s' := by
  refine h.next hi hphase hcalls hs hserver hlock trivial (fun hu => ?_) rfl fun he => ?_
  · cases hu
  · cases he

theorem SamePairing.of_shared (h : s'.shared = s.shared) : SamePairing s s' := by
  constructor <;> rw [h]

section Take

variable {outcome : Outcome} {purpose : Purpose} {account : Account}

theorem Inv.missed (h : Inv s) (hi : s.calls[call]? = some phase) (hphase : phase.between = false)
    (hunder : purpose.changes = true → phase.underWay = true ∨ s.None Phase.underWay) (onLock signIn : Bool) :
    Inv (missed s call onLock signIn purpose) := by
  cases purpose with
  | pass => exact h.next hi hphase rfl (.of_shared rfl) rfl rfl trivial unset rfl unset
  | call => exact h.ends hi hphase rfl (.of_shared rfl) rfl rfl
  | leave header => exact h.next hi hphase rfl (.of_shared rfl) rfl rfl trivial (fun _ => hunder rfl) rfl unset
  | move => exact h.ends hi hphase rfl (.of_shared rfl) rfl rfl

variable {onLock sent : Bool} {left : Pass Withheld}

theorem Inv.reading (h : Inv s) (hi : s.calls[call]? = some (.reading purpose onLock)) :
    Inv (read s call purpose onLock) := by
  unfold read
  split
  · split
    · next space hactive hspace =>
      split
      · exact h.next hi rfl rfl (.of_shared rfl) rfl rfl (account_of_space hactive hspace) .inl rfl fun _ => .inl rfl
      · exact h.missed hi rfl .inl true true
    · exact h.missed hi rfl .inl true false
  · split
    · next e henrolment =>
      have hactive : s.db.lock.active = false := by
        refine h.both.resolve_left fun hnone => ?_
        rw [henrolment] at hnone
        cases hnone
      have haccount := account_of_enrolment (by rw [henrolment]; rfl) hactive
      exact h.next hi rfl rfl (.of_shared rfl) rfl rfl haccount .inl rfl fun _ => .inl rfl
    · exact h.missed hi rfl .inl false false

theorem missed_put (phase : Phase) (onLock signIn : Bool) :
    Passes.missed (s.put call phase) call onLock signIn purpose = Passes.missed s call onLock signIn purpose := by
  cases purpose <;> simp [Passes.missed, Desk.put]

theorem Inv.forget {account : Uuid} (h : Inv s) (hi : s.calls[call]? = some (.unsealing purpose account))
    (hengaged : s.NoOther Phase.engaged call) (hunder : s.NoOther Phase.underWay call) (hserver : s.server = none) :
    Inv ((s.onStore Store.forgetEnrolment).put call .ended) := by
  have hnone := h.none_of_engaged hi rfl
  have hothers : s.Others call fun q => q.engaged = false ∧ q.underWay = false := by
    intro j q hj hq
    constructor
    · exact Bool.eq_false_of_not_eq_true fun he => hj (hengaged j q hq he)
    · exact Bool.eq_false_of_not_eq_true fun hu => hj (hunder j q hq hu)
  exact h.goes hi ⟨rfl, trivial, .inr hothers, unset, unset, unset, .inl rfl, .inr (.inl (serverKept_none hserver)),
    .inr (.inl (h.kept_of_none hnone).2)⟩

theorem Inv.unsealing {account : Uuid} (h : Inv s) (hi : s.calls[call]? = some (.unsealing purpose account))
    (ha : outcome = .lost → s.NoOther Phase.engaged call ∧ s.NoOther Phase.underWay call ∧ s.server = none) : Inv
    (openKeys s call outcome purpose account) := by
  unfold openKeys
  split
  · exact h.missed hi rfl .inl false false
  · exact h.missed hi rfl .inl false false
  · obtain ⟨hengaged, hunder, hserver⟩ := ha rfl
    have hforgot := h.forget hi hengaged hunder hserver
    have hlt : call < s.calls.length := (List.getElem?_eq_some_iff.mp hi).1
    rw [← missed_put .ended]
    refine hforgot.missed (List.getElem?_set_self hlt) rfl (fun _ => .inr fun q hq => ?_) false false
    obtain ⟨j, hj⟩ := List.mem_iff_getElem?.mp hq
    by_cases hcall : j = call
    · subst hcall
      rw [← Option.some.inj ((List.getElem?_set_self hlt).symm.trans hj)]
      rfl
    · replace hj : s.calls[j]? = some q := (List.getElem?_set_ne (Ne.symm hcall)).symm.trans hj
      exact Bool.eq_false_of_not_eq_true fun hu => hcall (hunder j q hj hu)
  · exact h.next hi rfl rfl (.of_shared rfl) rfl rfl (h.ok call _ hi) .inl rfl fun _ => .inl rfl

theorem Inv.keep (h : Inv s) (hi : s.calls[call]? = some (.connecting purpose account)) : Inv (s.keep account) := by
  have haccount : s.account = some account := h.ok call _ hi
  have hcalls : s.calls = s.calls.set call (.connecting purpose account) := by
    obtain ⟨hlt, hcall⟩ := List.getElem?_eq_some_iff.mp hi
    rw [← hcall, List.set_getElem_self]
  suffices hgoes : Goes s call (.connecting purpose account) (s.keep account) (.connecting purpose account) from
    h.goes hi hgoes
  cases account with
  | uwuSync id =>
    refine ⟨hcalls, haccount, .inl ⟨.of_shared rfl, .inr (.inr rfl)⟩, .inl, .inl, .inl, h.both, ?_, ?_⟩
    · refine .inr (.inl fun id' hid => ?_)
      cases hid
      exact (account_uwuSync haccount).2
    · exact .inr (.inr ⟨.of_shared rfl, rfl, rfl⟩)
  | uwuLock space =>
    refine ⟨hcalls, haccount, .inl ⟨.of_shared rfl, .inl rfl⟩, .inl, .inl, .inl, h.both, ?_, ?_⟩
    · exact .inr (.inr ⟨.of_shared rfl, rfl, rfl⟩)
    · refine .inr (.inl fun _ space' hspace => ?_)
      cases hspace
      exact (account_uwuLock haccount).2

theorem Inv.finished (h : Inv s) (hi : s.calls[call]? = some (.working purpose account left sent))
    (result : Except SyncError Withheld) : Inv (Passes.finished s call account result purpose) := by
  cases purpose with
  | move fault space w e =>
    cases result with
    | ok withheld => exact h.next hi rfl rfl (.of_shared rfl) rfl rfl trivial (fun _ => .inl rfl) rfl unset
    | error err => exact h.ends hi rfl rfl (.of_shared rfl) rfl rfl
  | _ => exact h.next hi rfl rfl (.of_shared rfl) rfl rfl trivial unset rfl unset

theorem Inv.working (h : Inv s) (hi : s.calls[call]? = some (.working purpose account left sent)) : Inv
    (work s call purpose account sent left) := by
  obtain ⟨haccount, hsettled⟩ : s.account = some account ∧ Turns.Settled left := h.ok call _ hi
  cases left with
  | done withheld => exact h.finished hi (.ok withheld)
  | stop err => exact h.finished hi (.error err)
  | act change next =>
    have hs : SamePairing s (s.withShared (change s.shared)) := hsettled.1 s.shared
    exact h.next hi rfl rfl hs rfl rfl ⟨hs.account.trans haccount, hsettled.2 s.shared⟩ .inl rfl fun _ => .inl rfl
  | ask q next =>
    show Inv (if sent then s else _)
    split
    · exact h
    · exact h.next hi rfl rfl (.of_shared rfl) rfl rfl ⟨haccount, hsettled⟩ .inl rfl fun _ => .inl rfl

theorem Inv.answered {left : Pass Withheld} (h : Inv s)
    (hi : s.calls[call]? = some (.working purpose account left true)) (answer : Answered) :
    Inv (Passes.answered s call purpose account left answer) := by
  obtain ⟨haccount, hsettled⟩ : s.account = some account ∧ Turns.Settled left := h.ok call _ hi
  rw [Passes.answered.eq_def]
  split
  · next a => exact h.next hi rfl rfl (.of_shared rfl) rfl rfl ⟨haccount, hsettled a⟩ .inl rfl fun _ => .inl rfl
  · next a => exact h.next hi rfl rfl (.of_shared rfl) rfl rfl ⟨haccount, hsettled a⟩ .inl rfl fun _ => .inl rfl
  · exact h

variable [Platform] {cx : Session} {turns : ℕ}

theorem Inv.obtained (h : Inv s) (hi : s.calls[call]? = some phase) (hphase : phase.between = false)
    (hunder : purpose.changes = true → phase.underWay = true) (hnone : s.None Phase.between)
    (haccount : purpose ≠ .call → s.account = some account) :
    Inv (Passes.obtained cx turns s call account purpose) := by
  have hwork : purpose ≠ .call → Phase.Ok s (.working purpose account (Turns.syncOnce cx turns) false) :=
    fun hp => ⟨haccount hp, Turns.settled_syncOnce turns⟩
  cases purpose with
  | pass =>
    refine h.next hi hphase rfl (.of_shared rfl) rfl rfl (hwork ?_) unset rfl fun _ => .inr hnone
    intro hp
    cases hp
  | call => exact h.ends hi hphase rfl (.of_shared rfl) rfl rfl
  | leave header =>
    exact h.next hi hphase rfl (.of_shared rfl) rfl rfl trivial (fun _ => .inl (hunder rfl)) rfl unset
  | move =>
    refine h.next hi hphase rfl (.of_shared rfl) rfl rfl (hwork ?_) (fun _ => .inl (hunder rfl)) rfl fun _ =>
      .inr hnone
    intro hp
    cases hp

theorem Inv.taking (h : Inv s) (hi : s.calls[call]? = some (.taking purpose onLock))
    (ha : purpose = .call → s.None Phase.between) :
    Inv (proceed cx turns s call outcome (.taking purpose onLock)) := by
  have hok := h.ok call _ hi
  have hnone : s.None Phase.between := by
    cases purpose with
    | pass => exact h.none_of_engaged hi rfl
    | call => exact ha rfl
    | leave | move => exact h.none_of_underWay hi rfl rfl
  rw [proceed]
  split
  · next account hkept =>
    refine h.obtained hi rfl id hnone fun hp => h.account_of_kept hnone ?_ hkept
    cases purpose with
    | pass => exact hok
    | call => exact absurd rfl hp
    | leave | move =>
      intro hon
      cases hok.symm.trans hon
  · exact h.next hi rfl rfl (.of_shared rfl) rfl rfl trivial .inl rfl fun _ => .inr hnone

theorem Inv.connecting (h : Inv s) (hi : s.calls[call]? = some (.connecting purpose account)) :
    Inv (proceed cx turns s call outcome (.connecting purpose account)) := by
  show Inv (if outcome = .ok then _ else _)
  split
  · have haccount : s.account = some account := h.ok call _ hi
    have hsame : (s.keep account).shared = s.shared ∧ (s.keep account).calls = s.calls := by
      cases account <;> exact ⟨rfl, rfl⟩
    have hkept := h.keep hi
    have hi' : (s.keep account).calls[call]? = some (.connecting purpose account) := by rw [hsame.2, hi]
    refine hkept.obtained hi' rfl id (hkept.none_of_engaged hi' rfl) fun _ => ?_
    exact (SamePairing.of_shared hsame.1).account.trans haccount
  · exact h.missed hi rfl .inl _ false

end Take

/-! ## Commands that leave and join -/

section Changes

variable {outcome : Outcome} {c : Change}

theorem Inv.ending {onLock : Bool} {failure : Option Bool} (h : Inv s)
    (hi : s.calls[call]? = some (.ending onLock failure)) :
    Inv ({ s with running := false }.put call (.dropping onLock failure)) := by
  exact h.next hi rfl rfl (.of_shared rfl) rfl rfl trivial unset rfl unset

theorem Inv.giveUp (h : Inv s) (hi : s.calls[call]? = some phase) (hphase : phase.between = false) :
    Inv (giveUp s call c) := by
  cases c <;> exact h.ends hi hphase rfl (.of_shared rfl) rfl rfl

theorem free_of_allowed (h : allowed s c = true) : c.Free s := by
  cases c with
  | connect | join =>
    obtain ⟨henrolment, hactive⟩ := Bool.and_eq_true_iff.mp h
    exact ⟨Option.isNone_iff_eq_none.mp henrolment, Bool.eq_false_of_not_eq_true (by simpa using hactive)⟩
  | signIn => exact Option.isNone_iff_eq_none.mp h
  | _ => trivial

theorem Inv.checking (h : Inv s) (hi : s.calls[call]? = some (.checking c)) (ha : s.None Phase.underWay) :
    Inv (s.put call (if allowed s c then .asking c else .ended)) := by
  split
  · next hallowed =>
    have hfree : Phase.Ok s (.asking c) := free_of_allowed hallowed
    exact h.next hi rfl rfl (.of_shared rfl) rfl rfl hfree (fun _ => .inr ha) rfl fun he => by cases he
  · exact h.ends hi rfl rfl (.of_shared rfl) rfl rfl

theorem Inv.asking (h : Inv s) (hi : s.calls[call]? = some (.asking c)) : Inv (ask s call outcome c) := by
  have hfree : c.Free s := h.ok call _ hi
  unfold ask
  split
  · exact h.ends hi rfl rfl (.of_shared rfl) rfl rfl
  · cases c with
    | disconnect header => exact h.next hi rfl rfl (.of_shared rfl) rfl rfl rfl (fun _ => .inl rfl) rfl unset
    | move => exact h.next hi rfl rfl (.of_shared rfl) rfl rfl trivial (fun _ => .inl rfl) rfl unset
    | _ => exact h.next hi rfl rfl (.of_shared rfl) rfl rfl hfree (fun _ => .inl rfl) rfl unset

theorem Inv.waiting {fault : LockStatement → Bool} {space : Space} {w : LockStore.Wrapping} {e : LockEnrolment}
    (h : Inv s) (hi : s.calls[call]? = some (.waiting fault space w e)) :
    Inv ({ s with running := true }.put call (.taking (.move fault space w e) false)) :=
  h.next hi rfl rfl (.of_shared rfl) rfl rfl rfl (fun _ => .inl rfl) rfl fun he => by cases he

theorem Inv.preparing (h : Inv s) (hi : s.calls[call]? = some (.preparing c)) : Inv (prepare s call outcome c) := by
  have hfree : c.Free s := h.ok call _ hi
  unfold prepare
  split
  · exact h.giveUp hi rfl
  cases c with
  | join e header key floor =>
    dsimp only
    split
    · exact h.ends hi rfl rfl (.of_shared rfl) rfl rfl
    · next store hadopted =>
      have hs : SamePairing s (s.onStore fun _ => store) :=
        ⟨(adoptVault_pairing hadopted).1, (adoptVault_pairing hadopted).2⟩
      exact h.next hi rfl rfl hs rfl rfl (Change.Free.same hfree hs) (fun _ => .inl rfl) rfl unset
  | disconnect header => exact h.next hi rfl rfl ⟨rfl, rfl⟩ rfl rfl trivial (fun _ => .inl rfl) rfl unset
  | _ => exact h.next hi rfl rfl (.of_shared rfl) rfl rfl hfree (fun _ => .inl rfl) rfl unset

theorem Inv.changes (h : Inv s) (hi : s.calls[call]? = some (.committing c)) (ha : s.None Phase.engaged)
    (hcalls : s'.calls = s.calls.set call phase') (hok : phase'.Ok s') (hengaged : phase'.engaged = false)
    (hboth : s'.db.enrolment = none ∨ s'.db.lock.active = false) (hserver : phase'.staleServer = true ∨ ServerKept s')
    (hlock : phase'.staleLock = true ∨ LockKept s') : Inv s' := by
  have hothers : s.Others call fun q => q.engaged = false ∧ q.underWay = false := by
    intro j q hj hq
    refine ⟨ha q (List.mem_of_getElem? hq), Bool.eq_false_of_not_eq_true fun hu => hj ?_⟩
    exact h.one j call q _ hq hi hu rfl
  refine h.goes hi ⟨hcalls, hok, .inr hothers, fun _ => .inl rfl, fun _ => .inr ha, fun he => ?_, hboth, ?_, ?_⟩
  · rw [hengaged] at he
    cases he
  · exact hserver.imp id .inl
  · exact hlock.imp id .inl

theorem Inv.leaving {fault : LockStore.LeaveStatement → Bool} (h : Inv s)
    (hi : s.calls[call]? = some (.committing (.signOut fault))) (ha : s.None Phase.engaged)
    (hcalls : s'.calls = s.calls.set call phase') (hok : phase'.Ok s') (hengaged : phase'.engaged = false)
    (hleft : Left s.shared.store s'.shared.store) (hserver : s'.server = s.server) (hlock : s'.lock = s.lock) :
    Inv s' := by
  obtain ⟨hserverKept, hlockKept⟩ := h.kept_of_none (h.none_of_underWay hi rfl rfl)
  have henrolment : s'.db.enrolment = s.db.enrolment := hleft.1
  have hlocks : s'.db.lock = s.db.lock ∨ s'.db.lock.active = false := hleft.2.imp id fun hl => by
    show s'.shared.store.kept.db.lock.active = false
    rw [hl]
  refine h.changes hi ha hcalls hok hengaged ?_ (.inr fun account haccount => ?_) (.inr ?_)
  · rcases hlocks with hlocks | hinactive
    · rw [henrolment, hlocks]
      exact h.both
    · exact .inr hinactive
  · rw [henrolment]
    exact hserverKept account (hserver ▸ haccount)
  · rcases hlocks with hlocks | hinactive
    · intro hactive space hspace
      rw [hlocks] at hactive ⊢
      exact hlockKept hactive space (hlock ▸ hspace)
    · exact lockKept_inactive hinactive

section Commit

variable [Platform]

theorem Inv.committing (h : Inv s) (hi : s.calls[call]? = some (.committing c)) (ha : s.None Phase.engaged) :
    Inv (commit s call outcome c) := by
  have hfree : c.Free s := h.ok call _ hi
  obtain ⟨hserver, hlock⟩ : ServerKept s ∧ LockKept s := h.kept_of_none (h.none_of_underWay hi rfl rfl)
  unfold commit
  split
  · exact h.giveUp hi rfl
  cases c with
  | connect e | join e =>
    have hnone := serverKept_of_none hserver hfree.1
    exact h.changes hi ha rfl ⟨rfl, hfree.2, hnone⟩ rfl (.inr hfree.2) (.inr (serverKept_none hnone))
      (.inr (lockKept_inactive hfree.2))
  | disconnect => exact h.changes hi ha rfl trivial rfl (.inl rfl) (.inl rfl) (.inr hlock)
  | signIn fault space w e =>
    dsimp only
    split
    · next err store hjoin =>
      cases joinSpace_pairing hjoin
      exact h.ends hi rfl rfl (.of_shared rfl) rfl rfl
    · next store hjoin =>
      obtain ⟨hactive, hspace, henrolment⟩ := joinSpace_pairing hjoin
      have hnone := serverKept_of_none hserver hfree
      replace henrolment : store.kept.db.enrolment = none := henrolment.trans hfree
      exact h.changes hi ha rfl ⟨henrolment, hactive, hspace⟩ rfl (.inl henrolment) (.inr (serverKept_none hnone))
        (.inl rfl)
  | move fault space w e =>
    dsimp only
    split
    · next err store hjoin =>
      cases joinSpace_pairing hjoin
      exact h.giveUp hi rfl
    · next store hjoin =>
      obtain ⟨hactive, hspace, henrolment⟩ := joinSpace_pairing hjoin
      exact h.changes hi ha rfl ⟨henrolment, hactive, hspace⟩ rfl (.inl henrolment) (.inl rfl) (.inl rfl)
  | signOut fault =>
    have hleft := leaveLock_left fault s.shared.store
    dsimp only
    split
    · next err store hleave =>
      rw [hleave] at hleft
      exact h.leaving hi ha rfl trivial rfl hleft rfl rfl
    · next store hleave =>
      rw [hleave] at hleft
      exact h.leaving hi ha rfl trivial rfl hleft rfl rfl

end Commit

theorem Inv.after (h : Inv s) (hi : s.calls[call]? = some phase) (hphase : phase.between = true)
    (hcalls : s'.calls = s.calls.set call phase') (hok : phase'.Ok s') (hs : SamePairing s s')
    (hserver : s'.server = none ∨ s'.server = s.server) (hlock : s'.lock = none ∨ s'.lock = s.lock)
    (hengaged : phase'.engaged = false)
    (hstaleServer : phase.staleServer = true → phase'.staleServer = true ∨ s'.server = none)
    (hstaleLock : phase.staleLock = true → phase'.staleLock = true ∨ s'.lock = none) : Inv s' := by
  have hothers : s'.server = s.server ∨ s'.server = none ∨ phase.engaged = true := by
    rcases hserver with hserver | hserver
    · exact .inr (.inl hserver)
    · exact .inl hserver
  refine h.goes hi ⟨hcalls, hok, .inl ⟨hs, hothers⟩, fun _ => .inl (underWay_of_between hphase), fun _ => .inl hphase,
    fun he => ?_, ?_, ?_, ?_⟩
  · rw [hengaged] at he
    cases he
  · exact h.both_of_same hs
  · cases hstale : phase.staleServer with
    | true => exact (hstaleServer hstale).imp id fun hnone => .inl (serverKept_none hnone)
    | false =>
      rcases hserver with hserver | hserver
      · exact .inr (.inl (serverKept_none hserver))
      · exact .inr (.inr ⟨hs, hserver, rfl⟩)
  · cases hstale : phase.staleLock with
    | true => exact (hstaleLock hstale).imp id fun hnone => .inl (lockKept_none hnone)
    | false =>
      rcases hlock with hlock | hlock
      · exact .inr (.inl (lockKept_none hlock))
      · exact .inr (.inr ⟨hs, hlock, rfl⟩)

theorem Inv.settling (h : Inv s) (hi : s.calls[call]? = some (.settling c)) : Inv (settle s call outcome c) := by
  have hdone : c.Done s := h.ok call _ hi
  unfold settle
  cases c with
  | connect e header =>
    dsimp only
    split
    · next store hkept =>
      obtain ⟨henrolment, hlock⟩ := keepVaultHeader_pairing hkept
      have hs : SamePairing s (s.onStore fun _ => store) := ⟨henrolment, hlock⟩
      exact h.after hi rfl rfl (Change.Done.calm hdone hs (.inl rfl)) hs (.inr rfl) (.inr rfl) rfl unset unset
    · exact h.after hi rfl rfl trivial (.of_shared rfl) (.inr rfl) (.inr rfl) rfl unset unset
  | join e header key floor =>
    dsimp only
    split
    · have hs : SamePairing s (s.onStore fun store => { store with db := { store.db with floor } }) := ⟨rfl, rfl⟩
      exact h.after hi rfl rfl (Change.Done.calm hdone hs (.inl rfl)) hs (.inr rfl) (.inr rfl) rfl unset unset
    · exact h.after hi rfl rfl trivial (.of_shared rfl) (.inr rfl) (.inr rfl) rfl unset unset
  | move =>
    exact h.after hi rfl rfl hdone (.of_shared rfl) (.inr rfl) (.inr rfl) rfl (fun _ => .inl rfl) fun _ => .inl rfl
  | _ => exact h.after hi rfl rfl hdone (.of_shared rfl) (.inr rfl) (.inr rfl) rfl unset unset

theorem Inv.clearing (h : Inv s) (hi : s.calls[call]? = some (.clearing c)) : Inv (clear s call c) := by
  have hdone : c.Done s := h.ok call _ hi
  cases c with
  | signOut => exact h.after hi rfl rfl trivial (.of_shared rfl) (.inr rfl) (.inl rfl) rfl unset unset
  | move =>
    exact h.after hi rfl rfl hdone (.of_shared rfl) (.inl rfl) (.inr rfl) rfl (fun _ => .inr rfl) fun _ => .inl rfl
  | _ => exact h.after hi rfl rfl trivial (.of_shared rfl) (.inl rfl) (.inr rfl) rfl (fun _ => .inr rfl) unset

theorem Inv.caching (h : Inv s) (hi : s.calls[call]? = some (.caching c)) : Inv (cache s call c) := by
  have hdone : c.Done s := h.ok call _ hi
  cases c with
  | connect e | join e =>
    have hothers : s.Others call fun q => q.engaged = false ∧ q.underWay = false := by
      intro j q hj hq
      refine ⟨h.apart call j _ q hi hq rfl, Bool.eq_false_of_not_eq_true fun hu => hj ?_⟩
      exact h.one j call q _ hq hi hu rfl
    refine h.goes hi ⟨rfl, trivial, .inr hothers, unset, unset, unset, h.both, .inr (.inl fun account haccount => ?_),
      .inr (.inr ⟨.of_shared rfl, rfl, rfl⟩)⟩
    cases haccount
    show s.db.enrolment.map Enrolment.accountId = _
    rw [hdone.1]
    rfl
  | signIn _ space | move _ space =>
    refine h.goes hi ⟨rfl, trivial, .inl ⟨.of_shared rfl, .inl rfl⟩, unset, unset, unset, h.both,
      .inr (.inr ⟨.of_shared rfl, rfl, rfl⟩), .inr (.inl fun _ space' hspace' => ?_)⟩
    cases hspace'
    exact hdone.2.2
  | _ => exact h.after hi rfl rfl trivial (.of_shared rfl) (.inr rfl) (.inr rfl) rfl unset unset

end Changes

theorem Inv.begin (h : Inv s) (hs : SamePairing s s') (hserver : s'.server = s.server) (hlock : s'.lock = s.lock)
    (hcalls : ∀ (j : ℕ) (q : Phase), s'.calls[j]? = some q →
      s.calls[j]? = some q ∨ q.engaged = false ∧ q.underWay = false)
    (hstay : ∀ (j : ℕ) (q : Phase), s.calls[j]? = some q → s'.calls[j]? = some q) : Inv s' := by
  have hbusy : ∀ (j : ℕ) (q : Phase), s'.calls[j]? = some q → q.engaged = true ∨ q.underWay = true →
      s.calls[j]? = some q := by
    intro j q hq hbusy
    rcases hcalls j q hq with hold | ⟨hengaged, hunder⟩
    · exact hold
    · simp [hengaged, hunder] at hbusy
  refine ⟨fun j q hq => ?_, fun i j q q' hq hq' hu hu' => ?_, fun i j q q' hq hq' hb => ?_, ?_, ?_, ?_⟩
  · rcases hcalls j q hq with hold | ⟨hengaged, hunder⟩
    · exact (h.ok j q hold).calm hs fun _ => .inl hserver
    · exact Phase.ok_of_free hengaged hunder
  · exact h.one i j q q' (hbusy i q hq (.inr hu)) (hbusy j q' hq' (.inr hu')) hu hu'
  · rcases hcalls j q' hq' with hold | ⟨hengaged, -⟩
    · exact h.apart i j q q' (hbusy i q hq (.inr (underWay_of_between hb))) hold hb
    · exact hengaged
  · exact h.both_of_same hs
  · rcases h.server with ⟨j, q, hq, hstale⟩ | hkept
    · exact .inl ⟨j, q, hstay j q hq, hstale⟩
    · exact .inr (hkept.same hs hserver)
  · rcases h.lock with ⟨j, q, hq, hstale⟩ | hkept
    · exact .inl ⟨j, q, hstay j q hq, hstale⟩
    · exact .inr (hkept.same hs hlock)

theorem Inv.begins (h : Inv s) {new : Phase} (hengaged : new.engaged = false) (hunder : new.underWay = false)
    (hshared : s'.shared = s.shared) (hserver : s'.server = s.server) (hlock : s'.lock = s.lock)
    (hcalls : s'.calls = s.calls ++ [new]) : Inv s' := by
  refine h.begin (.of_shared hshared) hserver hlock (fun j q hq => ?_) fun j q hq => ?_
  · rw [hcalls, List.getElem?_append] at hq
    split at hq
    · exact .inl hq
    · obtain rfl := List.mem_singleton.mp (List.mem_of_getElem? hq)
      exact .inr ⟨hengaged, hunder⟩
  · rw [hcalls, List.getElem?_append_left (List.getElem?_eq_some_iff.mp hq).1, hq]

theorem inv_idle (hcalls : s.calls = []) (hserver : s.server = none) (hlock : s.lock = none)
    (hboth : s.db.enrolment = none ∨ s.db.lock.active = false) : Inv s := by
  have hnone : ∀ (j : ℕ) (q : Phase), s.calls[j]? ≠ some q := by
    intro j q hq
    rw [hcalls] at hq
    cases hq
  exact ⟨fun j q hq => absurd hq (hnone j q), fun i j q q' hq => absurd hq (hnone i q),
    fun i j q q' hq => absurd hq (hnone i q), hboth, .inr (serverKept_none hserver), .inr (lockKept_none hlock)⟩

section Run

variable [Platform] {cx : Session} {turns : ℕ} {outcome : Outcome}

theorem Inv.dropping {onLock : Bool} {failure : Option Bool} (h : Inv s)
    (hi : s.calls[call]? = some (.dropping onLock failure)) :
    Inv (proceed cx turns s call outcome (.dropping onLock failure)) := by
  rw [proceed]
  refine h.goes hi (.still h rfl trivial ?_ ?_ ?_ unset unset unset)
  · cases onLock && failure == some true <;> exact ⟨rfl, rfl⟩
  · cases failure with
    | none => exact .inr ⟨rfl, rfl⟩
    | some ended => exact .inl rfl
  · cases onLock && failure == some true with
    | true => exact .inl rfl
    | false => exact .inr ⟨rfl, rfl⟩

theorem Inv.proceed (h : Inv s) (hi : s.calls[call]? = some phase) (ha : Apart s (.go call outcome)) :
    Inv (proceed cx turns s call outcome phase) := by
  rw [Apart, hi] at ha
  cases phase with
  | deciding => exact h.next hi rfl rfl (.of_shared rfl) rfl rfl id unset rfl fun _ => .inr ha
  | taking purpose onLock =>
    refine h.taking hi fun hcall => ?_
    subst hcall
    exact ha
  | reading => exact h.reading hi
  | unsealing => exact h.unsealing hi ha
  | connecting => exact h.connecting hi
  | working => exact h.working hi
  | ending => exact h.ending hi
  | dropping => exact h.dropping hi
  | checking => exact h.checking hi ha
  | asking => exact h.asking hi
  | waiting fault space w e =>
    rw [Passes.proceed]
    split
    · exact h.ends hi rfl rfl (.of_shared rfl) rfl rfl
    split
    · exact h
    · exact h.waiting hi
  | preparing => exact h.preparing hi
  | committing => exact h.committing hi ha
  | settling => exact h.settling hi
  | clearing => exact h.clearing hi
  | caching => exact h.caching hi
  | ended => exact h

theorem Inv.step (h : Inv s) {m : Move} (ha : Apart s m) : Inv (Passes.step cx turns s m) := by
  cases m with
  | startPass =>
    show Inv (if s.running then s else _)
    split
    · exact h
    · exact h.begins rfl rfl rfl rfl rfl rfl
  | startCall | start => exact h.begins rfl rfl rfl rfl rfl rfl
  | go call outcome =>
    rw [Passes.step]
    split
    · next phase hi => exact h.proceed hi ha
    · exact h
  | answer call answer =>
    rw [Passes.step]
    split
    · next purpose account left hi => exact h.answered hi answer
    · exact h
  | edit db vault => exact h.begin ⟨rfl, rfl⟩ rfl rfl (fun _ _ => .inl) fun _ _ => id
  | restart => exact inv_idle rfl rfl rfl h.both

/-! ## Every run -/

omit [Platform] in
theorem Inv.loyal (h : Inv s) (m : Move) : Loyal s m := by
  cases m with
  | go call outcome =>
    rw [Loyal]
    split
    · next hi => exact (h.ok call _ hi).1
    · next onLock hi =>
      exact fun account => h.account_of_kept (h.none_of_engaged hi rfl) (h.ok call _ hi)
    · next onLock hi =>
      refine fun account => h.account_of_kept (h.none_of_underWay hi rfl rfl) fun hon => ?_
      cases (h.ok call _ hi : onLock = false).symm.trans hon
    · trivial
  | answer call answer =>
    rw [Loyal]
    split
    · next hi => exact (h.ok call _ hi).1
    · trivial
  | _ => trivial

end Run

/-! ## An account left in the middle of a pass -/

/-- A secret that no server has yet, and the vault open. -/
def oneUnpushed : Db :=
  (Db.fresh 1).setRow .secret 5
    ⟨⟨1000, 0, 1⟩, false, true, 0, UnlockedVault.sealRecord ⟨1, 7⟩ 5 .secret (.bytes [1, 2, 3])⟩

def syncedHeader : VaultHeader := ⟨1, .recommended, 4, ⟨⟨[1], 4, .recommended, some 3⟩, 1, 7⟩, true⟩

def pairedWith (account : Uuid) : Enrolment := ⟨"s".toList, account, account + 1, none, ⟨1⟩, none⟩

def goes (call steps : ℕ) : List Move := List.replicate steps (.go call .ok)

/-- The device pairs with account 10, and a pass is on the way to it with the secret. -/
def pushing : List Move :=
  .edit oneUnpushed (some ⟨1, 7⟩) :: .start (.connect (pairedWith 10) syncedHeader) :: goes 0 6 ++
    .startPass :: goes 1 4

def leaving : List Move :=
  .start (.disconnect syncedHeader) :: goes 2 10 ++ .start (.connect (pairedWith 20) syncedHeader) :: goes 3 6

end Passes

end UwuRdp
