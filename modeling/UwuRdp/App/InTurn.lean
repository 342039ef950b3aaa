import UwuRdp.App.Passes
import UwuRdp.Sync.Tokens

/-!
# One account at a time

A pass works for the account this device is paired with as long as no command changes that while a connection is
being made or used, and none looks for a connection between the change and the new connection's keeping.
-/

namespace UwuRdp

open Lib

namespace Passes

/-! ## What is wanted -/

/-- It uses a connection, or is about to on what it read of the pairing. -/
def Phase.engaged : Phase → Bool
  | .taking .pass _ | .reading .. | .unsealing .. | .connecting .. | .working .. => true
  | _ => false

/-- The command has changed the pairing, and the kept connections are not what they will be. -/
def Phase.between : Phase → Bool
  | .settling _ | .clearing _ | .caching _ => true
  | _ => false

def Purpose.changes : Purpose → Bool
  | .leave _ | .move .. => true
  | _ => false

def Phase.underWay : Phase → Bool
  | .taking p _ | .reading p _ | .unsealing p _ | .connecting p _ | .working p _ _ _ => p.changes
  | .asking _ | .waiting .. | .preparing _ | .committing _ | .settling _ | .clearing _ | .caching _ => true
  | _ => false

def Desk.NoOther (s : Desk) (p : Phase → Bool) (call : ℕ) : Prop :=
  ∀ j phase, s.calls[j]? = some phase → p phase = true → j = call

def Desk.None (s : Desk) (p : Phase → Bool) : Prop := ∀ phase ∈ s.calls, p phase = false

instance (s : Desk) (p : Phase → Bool) (call : ℕ) : Decidable (s.NoOther p call) :=
  decidable_of_iff (∀ j < s.calls.length, ∀ phase ∈ s.calls[j]?, p phase = true → j = call)
    ⟨fun h j phase hj => h j (List.getElem?_eq_some_iff.mp hj).1 phase hj, fun h j _ phase hj => h j phase hj⟩

instance (s : Desk) (p : Phase → Bool) : Decidable (s.None p) :=
  inferInstanceAs (Decidable (∀ phase ∈ s.calls, p phase = false))

/-- The commands that leave or join come one after the other. Each makes its change while no other thread has a
connection, and none looks for one until the command has put the kept ones right. -/
def Apart (s : Desk) : Move → Prop
  | .go call outcome =>
    match s.calls[call]? with
    | some (.checking _) => s.None Phase.underWay
    | some (.committing _) => s.None Phase.engaged
    | some .deciding | some (.taking .call _) => s.None Phase.between
    | some (.unsealing _ _) =>
      outcome = .lost → s.NoOther Phase.engaged call ∧ s.NoOther Phase.underWay call ∧ s.server = none
    | _ => True
  | _ => True

/-- A step of a pass is taken for the account this device is paired with: its requests go there, what it writes is on
that account's word, and a kept connection it takes is that account's. -/
def Loyal (s : Desk) : Move → Prop
  | .go call _ =>
    match s.calls[call]? with
    | some (.working _ account _ _) => s.account = some account
    | some (.taking .pass onLock) => ∀ account ∈ s.kept onLock, s.account = some account
    | some (.taking (.move ..) onLock) => ∀ account ∈ s.kept onLock, s.account = some account
    | _ => True
  | .answer call _ =>
    match s.calls[call]? with
    | some (.working _ account _ _) => s.account = some account
    | _ => True
  | _ => True

instance (s : Desk) : DecidablePred (Apart s) := fun m => by
  unfold Apart
  split
  · split <;> infer_instance
  · exact .isTrue trivial

instance (s : Desk) : DecidablePred (Loyal s) := fun m => by
  unfold Loyal
  split
  · split <;> infer_instance
  · split <;> infer_instance
  · exact .isTrue trivial

/-- The connections kept for the next pass are of the account this device is paired with. -/
def Kept (s : Desk) : Prop :=
  (∀ account, s.server = some account → s.db.enrolment.map Enrolment.accountId = some account) ∧
    (s.db.lock.active = true → ∀ space, s.lock = some space → s.db.lock.spaceId = some space)

/-! ## The changes -/

variable [Platform] {cx : Session} {turns : ℕ} {s s' : Desk}

abbrev SamePairing (s s' : Desk) : Prop := Turns.SamePairing s.shared s'.shared

omit [Platform] in
theorem SamePairing.account (h : SamePairing s s') : s'.account = s.account := by
  have henrolment : s'.db.enrolment = s.db.enrolment := h.enrolment
  have hlock : s'.db.lock = s.db.lock := h.lock
  unfold Desk.account
  rw [henrolment, hlock]

theorem joinSpace_pairing {fault : LockStatement → Bool} {space : Space} {w : LockStore.Wrapping}
    {joining : SpaceJoining} {e : LockEnrolment} {t t' : LockStore} {r : Except StoreError Unit}
    (h : LockStore.joinSpace fault space w joining e t = (r, t')) :
    match r with
    | .error _ => t' = t
    | .ok () => t'.kept.db.lock.active = true ∧ t'.kept.db.lock.spaceId = some space.id ∧
        t'.kept.db.enrolment = if joining = .moved then none else t.kept.db.enrolment := by
  unfold LockStore.joinSpace at h
  split at h
  · cases h
    rfl
  next header hheader =>
  dsimp only at h
  split at h
  · cases h
    rfl
  split at h
  · split at h
    · cases h
      rfl
    · split at h
      · cases h
        rfl
      · next kept hrewrap =>
        cases h
        dsimp only
        rw [LockTx.remember_eq_ok (LockTx.rewrap_eq_ok hrewrap)]
        exact ⟨rfl, rfl, rfl⟩
  · next hne =>
    have hid : header.vaultId = space.id := (UnlockedVault.unlockWith_rewrap hheader).2.1
    cases r with
    | error err => exact LockStore.adopt_error h
    | ok u =>
      obtain ⟨-, t₁, -, hadopted⟩ := LockStore.adopt_ok (hid ▸ hne) h
      rw [LockTx.remember_eq_ok hadopted]
      exact ⟨rfl, rfl, rfl⟩

/-- What leaving UwULock makes of it, wherever that stops. -/
def Left (t t' : LockStore) : Prop :=
  t'.kept.db.enrolment = t.kept.db.enrolment ∧
    (t'.kept.db.lock = t.kept.db.lock ∨ t'.kept.db.lock = { t.kept.db.lock with active := false })

omit [Platform] in
theorem alone_left {fault : LockStore.LeaveStatement → Bool} {step : LockStore.LeaveStatement}
    {f : LockStore → LockStore} {t : LockStore} (hf : ∀ t', Left t t' → Left t (f t')) :
    Act.Ends (Left t) (LockStore.alone fault step f) (fun _ => Left t) fun _ => Left t := by
  unfold LockStore.alone
  apply Act.Ends.ite
  · exact fun _ => Act.Ends.fail fun _ h => h
  · exact fun _ => .modify hf

theorem leaveLock_left (fault : LockStore.LeaveStatement → Bool) (t : LockStore) :
    Left t (LockStore.leaveLock fault t).2 := by
  refine Act.Ends.always (P := Left t) ?_ ⟨rfl, .inl rfl⟩
  refine Act.Ends.bind (alone_left fun _ h => h) fun _ => ?_
  apply Act.Ends.get_bind
  intro t₁ ht₁
  refine Act.Ends.bind (R := fun _ => Left t) ?_ fun _ => ?_
  · refine .conseq (P := Left t) ?_ (fun t₂ h => h ▸ ht₁) (fun _ _ h => h) fun _ _ h => h
    split
    · exact .bind (alone_left fun _ h => h) fun _ => alone_left fun _ h => h
    · exact .pure fun _ h => h
  · refine .bind (alone_left ?_) fun _ => ?_
    · rintro t' ⟨henrolment, hlock | hlock⟩
      · exact ⟨henrolment, .inr (congrArg (fun lock => { lock with active := false }) hlock)⟩
      · exact ⟨henrolment, .inr (congrArg (fun lock => { lock with active := false }) hlock)⟩
    · exact .bind (alone_left fun _ h => h) fun _ => alone_left fun _ h => h

omit [Platform] in
theorem adoptVault_pairing {header : VaultHeader} {key : VaultKey} {t t' : Store}
    (h : t.adoptVault header key = .ok t') : t'.db.enrolment = t.db.enrolment ∧ t'.db.lock = t.db.lock := by
  unfold Store.adoptVault Store.adopt at h
  split at h
  · cases h
    exact ⟨rfl, rfl⟩
  split at h
  · cases h
  · cases h
    exact ⟨rfl, rfl⟩

omit [Platform] in
theorem keepVaultHeader_pairing {header : VaultHeader} {t t' : Store} (h : t.keepVaultHeader header = .ok t') :
    t'.db.enrolment = t.db.enrolment ∧ t'.db.lock = t.db.lock := by
  unfold Store.keepVaultHeader at h
  split at h
  · cases h
  split at h
  · cases h
  · cases h
    exact ⟨rfl, rfl⟩

/-! ## The invariant -/

/-- What a command that leaves or joins found when it began. -/
def Change.Free (s : Desk) : Change → Prop
  | .connect .. | .join .. => s.db.enrolment = none ∧ s.db.lock.active = false
  | .signIn .. => s.db.enrolment = none
  | _ => True

def Change.Done (s : Desk) : Change → Prop
  | .connect e _ | .join e _ _ _ =>
    s.db.enrolment = some e ∧ s.db.lock.active = false ∧ s.server = none
  | .signIn _ space _ _ | .move _ space _ _ =>
    s.db.enrolment = none ∧ s.db.lock.active = true ∧ s.db.lock.spaceId = some space.id
  | _ => True

def Phase.Ok (s : Desk) : Phase → Prop
  | .taking .pass onLock => onLock = true → s.db.lock.active = true
  | .taking (.leave _) onLock | .taking (.move ..) onLock => onLock = false
  | .unsealing _ account => s.account = some (.uwuSync account)
  | .connecting _ account => s.account = some account
  | .working _ account left _ => s.account = some account ∧ Turns.Settled left
  | .asking c | .preparing c | .committing c => c.Free s
  | .settling c | .clearing c | .caching c => c.Done s
  | _ => True

/-- The kept UwUSync connection is of the account the command left. -/
def Phase.staleServer : Phase → Bool
  | .clearing (.disconnect _) | .settling (.move ..) | .clearing (.move ..) => true
  | _ => false

def Phase.staleLock : Phase → Bool
  | .caching (.signIn ..) | .settling (.move ..) | .clearing (.move ..) | .caching (.move ..) => true
  | _ => false

def ServerKept (s : Desk) : Prop :=
  ∀ account, s.server = some account → s.db.enrolment.map Enrolment.accountId = some account

def LockKept (s : Desk) : Prop :=
  s.db.lock.active = true → ∀ space, s.lock = some space → s.db.lock.spaceId = some space

def Desk.Others (s : Desk) (call : ℕ) (P : Phase → Prop) : Prop :=
  ∀ j phase, j ≠ call → s.calls[j]? = some phase → P phase

structure Inv (s : Desk) : Prop where
  ok : ∀ (i : ℕ) (phase : Phase), s.calls[i]? = some phase → phase.Ok s
  one : ∀ (i j : ℕ) (phase phase' : Phase), s.calls[i]? = some phase → s.calls[j]? = some phase' →
    phase.underWay = true → phase'.underWay = true → i = j
  apart : ∀ (i j : ℕ) (phase phase' : Phase), s.calls[i]? = some phase → s.calls[j]? = some phase' →
    phase.between = true → phase'.engaged = false
  both : s.db.enrolment = none ∨ s.db.lock.active = false
  server : (∃ i : ℕ, ∃ phase : Phase, s.calls[i]? = some phase ∧ phase.staleServer = true) ∨ ServerKept s
  lock : (∃ i : ℕ, ∃ phase : Phase, s.calls[i]? = some phase ∧ phase.staleLock = true) ∨ LockKept s

section Phases

omit [Platform]

theorem underWay_of_between {phase : Phase} (h : phase.between = true) : phase.underWay = true := by
  cases phase with
  | settling | clearing | caching => rfl
  | _ => cases h

theorem between_of_staleServer {phase : Phase} (h : phase.staleServer = true) : phase.between = true := by
  cases phase with
  | settling | clearing => rfl
  | _ => cases h

theorem between_of_staleLock {phase : Phase} (h : phase.staleLock = true) : phase.between = true := by
  cases phase with
  | settling | clearing | caching => rfl
  | _ => cases h

theorem not_engaged_of_between {phase : Phase} (h : phase.between = true) : phase.engaged = false := by
  cases phase with
  | settling | clearing | caching => rfl
  | _ => cases h

theorem Change.Free.same {c : Change} (h : c.Free s) (hs : SamePairing s s') : c.Free s' := by
  have henrolment : s'.db.enrolment = s.db.enrolment := hs.enrolment
  have hlock : s'.db.lock = s.db.lock := hs.lock
  cases c with
  | connect | join => exact ⟨henrolment.trans h.1, hlock ▸ h.2⟩
  | signIn => exact henrolment.trans h
  | _ => trivial

theorem Change.Done.calm {c : Change} (h : c.Done s) (hs : SamePairing s s')
    (hserver : s'.server = s.server ∨ s'.server = none) : c.Done s' := by
  have henrolment : s'.db.enrolment = s.db.enrolment := hs.enrolment
  have hlock : s'.db.lock = s.db.lock := hs.lock
  cases c with
  | connect | join =>
    refine ⟨henrolment.trans h.1, hlock ▸ h.2.1, ?_⟩
    rcases hserver with hserver | hserver
    · exact hserver.trans h.2.2
    · exact hserver
  | signIn | move => exact ⟨henrolment.trans h.1, hlock ▸ h.2.1, hlock ▸ h.2.2⟩
  | _ => trivial

theorem Phase.Ok.calm {phase : Phase} (h : phase.Ok s) (hs : SamePairing s s')
    (hserver : phase.between = true → s'.server = s.server ∨ s'.server = none) : phase.Ok s' := by
  have hlock : s'.db.lock = s.db.lock := hs.lock
  cases phase with
  | taking p onLock =>
    cases p with
    | pass => exact fun hon => hlock ▸ h hon
    | leave | move => exact h
    | _ => trivial
  | unsealing | connecting => exact hs.account.trans h
  | working => exact ⟨hs.account.trans h.1, h.2⟩
  | asking c | preparing c | committing c => exact Change.Free.same h hs
  | settling c | clearing c | caching c => exact Change.Done.calm h hs (hserver rfl)
  | _ => trivial

theorem Phase.ok_of_free {phase : Phase} (hengaged : phase.engaged = false) (hunder : phase.underWay = false) :
    phase.Ok s := by
  cases phase with
  | taking p onLock =>
    cases p with
    | pass => cases hengaged
    | leave | move => cases hunder
    | _ => trivial
  | unsealing | connecting | working => cases hengaged
  | asking | preparing | committing | settling | clearing | caching => cases hunder
  | _ => trivial

/-! ## A thread goes on -/

/-- What a step of one thread keeps to. -/
structure Goes (s : Desk) (call : ℕ) (phase : Phase) (s' : Desk) (phase' : Phase) : Prop where
  calls : s'.calls = s.calls.set call phase'
  ok : phase'.Ok s'
  others : (SamePairing s s' ∧ (s'.server = s.server ∨ s'.server = none ∨ phase.engaged = true)) ∨
    s.Others call fun q => q.engaged = false ∧ q.underWay = false
  underWay : phase'.underWay = true → phase.underWay = true ∨ s.None Phase.underWay
  between : phase'.between = true → phase.between = true ∨ s.None Phase.engaged
  engaged : phase'.engaged = true → phase.engaged = true ∨ s.Others call fun q => q.between = false
  both : s'.db.enrolment = none ∨ s'.db.lock.active = false
  server : phase'.staleServer = true ∨ ServerKept s' ∨
    (SamePairing s s' ∧ s'.server = s.server ∧ phase.staleServer = false)
  lock : phase'.staleLock = true ∨ LockKept s' ∨
    (SamePairing s s' ∧ s'.lock = s.lock ∧ phase.staleLock = false)

theorem ServerKept.same (h : ServerKept s) (hs : SamePairing s s') (hserver : s'.server = s.server) :
    ServerKept s' := by
  have henrolment : s'.db.enrolment = s.db.enrolment := hs.enrolment
  intro account haccount
  rw [henrolment]
  exact h account (hserver ▸ haccount)

theorem LockKept.same (h : LockKept s) (hs : SamePairing s s') (hcache : s'.lock = s.lock) : LockKept s' := by
  have hlock : s'.db.lock = s.db.lock := hs.lock
  intro hactive space hspace
  rw [hlock] at hactive ⊢
  exact h hactive space (hcache ▸ hspace)

variable {call : ℕ} {phase phase' : Phase}

theorem Inv.goes (h : Inv s) (hi : s.calls[call]? = some phase) (hg : Goes s call phase s' phase') : Inv s' := by
  have hlt : call < s.calls.length := (List.getElem?_eq_some_iff.mp hi).1
  have hself : s'.calls[call]? = some phase' := by rw [hg.calls, List.getElem?_set_self hlt]
  have hother : ∀ j q, j ≠ call → (s'.calls[j]? = some q ↔ s.calls[j]? = some q) := by
    intro j q hj
    rw [hg.calls, List.getElem?_set_ne (Ne.symm hj)]
  -- What a thread is: the one that went on, or another.
  have hcases : ∀ j q, s'.calls[j]? = some q → (j = call ∧ q = phase') ∨ (j ≠ call ∧ s.calls[j]? = some q) := by
    intro j q hq
    by_cases hj : j = call
    · subst hj
      exact .inl ⟨rfl, Option.some.inj (hq.symm.trans hself)⟩
    · exact .inr ⟨hj, (hother j q hj).mp hq⟩
  refine ⟨?_, ?_, ?_, hg.both, ?_, ?_⟩
  · intro j q hq
    rcases hcases j q hq with ⟨-, rfl⟩ | ⟨hj, hq⟩
    · exact hg.ok
    · rcases hg.others with ⟨hs, hserver⟩ | hothers
      · refine (h.ok j q hq).calm hs fun hbetween => ?_
        rcases hserver with hserver | hserver | hengaged
        · exact .inl hserver
        · exact .inr hserver
        · rw [h.apart j call q phase hq hi hbetween] at hengaged
          cases hengaged
      · exact Phase.ok_of_free (hothers j q hj hq).1 (hothers j q hj hq).2
  · intro i j q q' hq hq' hu hu'
    have hnew : ∀ i q, i ≠ call → s.calls[i]? = some q → q.underWay = true → phase'.underWay = true → False := by
      intro i q hne hq hu hu'
      rcases hg.underWay hu' with hphase | hnone
      · exact hne (h.one i call q phase hq hi hu hphase)
      · rw [hnone q (List.mem_of_getElem? hq)] at hu
        cases hu
    rcases hcases i q hq with ⟨rfl, rfl⟩ | ⟨hne, hold⟩ <;> rcases hcases j q' hq' with ⟨rfl, rfl⟩ | ⟨hne', hold'⟩
    · rfl
    · exact (hnew j q' hne' hold' hu' hu).elim
    · exact (hnew i q hne hold hu hu').elim
    · exact h.one i j q q' hold hold' hu hu'
  · intro i j q q' hq hq' hb
    rcases hcases i q hq with ⟨rfl, rfl⟩ | ⟨hne, hold⟩ <;> rcases hcases j q' hq' with ⟨rfl, rfl⟩ | ⟨hne', hold'⟩
    · exact not_engaged_of_between hb
    · rcases hg.between hb with hphase | hnone
      · exact h.apart i j phase q' hi hold' hphase
      · exact hnone q' (List.mem_of_getElem? hold')
    · by_contra he
      rcases hg.engaged (Bool.eq_true_of_not_eq_false he) with hphase | hothers
      · rw [h.apart i j q phase hold hi hb] at hphase
        cases hphase
      · rw [hothers i q hne hold] at hb
        cases hb
    · exact h.apart i j q q' hold hold' hb
  · rcases hg.server with hstale | hkept | ⟨hs, hserver, hphase⟩
    · exact .inl ⟨call, phase', hself, hstale⟩
    · exact .inr hkept
    · rcases h.server with ⟨j, q, hq, hstale⟩ | hkept
      · by_cases hj : j = call
        · subst hj
          rw [Option.some.inj (hi.symm.trans hq), hstale] at hphase
          cases hphase
        · exact .inl ⟨j, q, (hother j q hj).mpr hq, hstale⟩
      · exact .inr (hkept.same hs hserver)
  · rcases hg.lock with hstale | hkept | ⟨hs, hlock, hphase⟩
    · exact .inl ⟨call, phase', hself, hstale⟩
    · exact .inr hkept
    · rcases h.lock with ⟨j, q, hq, hstale⟩ | hkept
      · by_cases hj : j = call
        · subst hj
          rw [Option.some.inj (hi.symm.trans hq), hstale] at hphase
          cases hphase
        · exact .inl ⟨j, q, (hother j q hj).mpr hq, hstale⟩
      · exact .inr (hkept.same hs hlock)

end Phases

end Passes

end UwuRdp
