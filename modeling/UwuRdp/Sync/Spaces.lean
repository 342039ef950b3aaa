import UwuRdp.Sync.SignIn

/-!
# A space that was left is never taken again

What a sign-in is held to is read when it begins, and `joinSpace` checks nothing of it again. So an
account's record keeps to its rules as long as no other join of that account comes between a
sign-in's reading of it and its own join; `rolls_back` is what two sign-ins that overlap can do to
it.
-/

namespace UwuRdp

open Lib

/-! ## Accounts in the store -/

section Accounts

variable {s s' : LockStore} {a b : Text × Text} {before : LockAccount} {space id : Uuid}

theorem mem_leftAfter : id ∈ leftAfter before space ↔
    id ≠ space ∧ (id ∈ before.leftSpaces ∨ before.spaceId = some id) := by
  unfold leftAfter
  rw [List.mem_filter, decide_eq_true_iff, and_comm]
  refine and_congr_right fun hne => ?_
  cases hspace : before.spaceId with
  | none => simp
  | some old =>
    dsimp only
    rw [Option.some.injEq]
    split
    · rw [List.mem_append, List.mem_singleton, eq_comm]
    · next hold =>
      constructor
      · exact .inl
      · rintro (hmem | rfl)
        · exact hmem
        · by_contra hnot
          exact hold ⟨hne, hnot⟩

theorem account_set (row : LockAccount)
    (h : s'.kept.accounts = s.kept.accounts.set a row) (b : Text × Text) :
    s'.account b = if b = a then row else s.account b := by
  unfold LockStore.account
  rw [h, Table.get?_set]
  split <;> rfl

def SameSpaces (s s' : LockStore) : Prop :=
  ∀ a, (s'.account a).spaceId = (s.account a).spaceId ∧
    (s'.account a).leftSpaces = (s.account a).leftSpaces

theorem SameSpaces.refl (s : LockStore) : SameSpaces s s := fun _ => ⟨rfl, rfl⟩

theorem SameSpaces.trans {s'' : LockStore} (h : SameSpaces s s') (h' : SameSpaces s' s'') :
    SameSpaces s s'' := fun a => ⟨(h' a).1.trans (h a).1, (h' a).2.trans (h a).2⟩

theorem sameSpaces_onAccount {f : LockAccount → LockAccount}
    (hf : ∀ r, (f r).spaceId = r.spaceId ∧ (f r).leftSpaces = r.leftSpaces) : SameSpaces s (s.onAccount a f) := by
  intro b
  unfold LockStore.account LockStore.onAccount
  rw [Table.get?_modify]
  split
  · cases s.kept.accounts.get? b with
    | none => exact ⟨rfl, rfl⟩
    | some r => exact hf r
  · exact ⟨rfl, rfl⟩

theorem alone_ends {fault : LockStore.LeaveStatement → Bool} {step : LockStore.LeaveStatement}
    {f : LockStore → LockStore} {s₀ : LockStore} (hf : ∀ s, SameSpaces s (f s)) : Act.Ends (SameSpaces s₀)
    (LockStore.alone fault step f) (fun _ => SameSpaces s₀) fun _ => SameSpaces s₀ := by
  unfold LockStore.alone
  apply Act.Ends.ite
  · exact fun _ => Act.Ends.fail fun _ hs => hs
  · exact fun _ => .modify fun s hs => hs.trans (hf s)

variable [Platform]

theorem leaveLock_sameSpaces (fault : LockStore.LeaveStatement → Bool) (s : LockStore) :
    SameSpaces s (LockStore.leaveLock fault s).2 := by
  refine Act.Ends.always (P := SameSpaces s) ?_ (SameSpaces.refl s)
  refine Act.Ends.bind (alone_ends fun s => SameSpaces.refl s) fun _ => ?_
  apply Act.Ends.get_bind
  intro s₁ hs₁
  refine Act.Ends.bind (R := fun _ => SameSpaces s) ?_ fun _ => ?_
  · refine .conseq (P := SameSpaces s) ?_ (fun s₂ h => h ▸ hs₁) (fun _ _ h => h) fun _ _ h => h
    split
    · refine .bind (alone_ends fun s => ?_) fun _ => alone_ends fun s => ?_
      · exact sameSpaces_onAccount fun _ => ⟨rfl, rfl⟩
      · exact sameSpaces_onAccount fun _ => ⟨rfl, rfl⟩
    · exact .pure fun _ h => h
  · refine .bind (alone_ends fun s => fun _ => ⟨rfl, rfl⟩) fun _ => ?_
    refine .bind (alone_ends fun s => fun _ => ⟨rfl, rfl⟩) fun _ => ?_
    exact alone_ends fun s => fun _ => ⟨rfl, rfl⟩

theorem keepLockRememberToken_sameSpaces (fault : LockStore.LeaveStatement → Bool)
    (serverUrl email : Text) (token : Protected Text) (s : LockStore) :
    SameSpaces s (LockStore.keepLockRememberToken fault serverUrl email token s).2 := by
  refine Act.Ends.always (P := SameSpaces s) (alone_ends fun s => ?_) (SameSpaces.refl s)
  intro b
  rw [account_set (a := (serverUrl, accountEmail email)) _ rfl b]
  split
  · next hb => rw [hb]; exact ⟨rfl, rfl⟩
  · exact ⟨rfl, rfl⟩

theorem joinSpace_account {fault : LockStatement → Bool} {space : Space} {w : LockStore.Wrapping}
    {joining : SpaceJoining} {e : LockEnrolment}
    (h : LockStore.joinSpace fault space w joining e s = (.ok (), s')) (b : Text × Text) :
    s'.account b = if b = (e.serverUrl, accountEmail e.email) then
      accountAfter (s.account (e.serverUrl, accountEmail e.email)) space.id e else s.account b := by
  apply account_set
  unfold LockStore.joinSpace at h
  split at h
  · cases h
  next header hheader =>
  dsimp only at h
  split at h
  · cases h
  split at h
  · split at h
    · cases h
    · split at h
      · cases h
      · next kept hrewrap =>
        cases h
        rw [LockTx.remember_eq_ok (LockTx.rewrap_eq_ok hrewrap)]
        rfl
  · next hne =>
    have hid : header.vaultId = space.id := (UnlockedVault.unlockWith_rewrap hheader).2.1
    obtain ⟨-, t, -, hadopted⟩ := LockStore.adopt_ok (hid ▸ hne) h
    rw [LockTx.remember_eq_ok hadopted]
    rfl

end Accounts

/-! ## What a sign-in comes to -/

section Core

variable [LockCore] {σ : Type}

/-- A space that may be taken by what was known of the account and what was agreed to. -/
structure Permitted (known : Known) (accept : Option AcceptSpace) (space : Uuid) (made : Bool) :
    Prop where
  notLeft : space ∉ known.leftSpaces
  agreed : ∀ was, known.space = some was → was ≠ space →
    accept = some (.listed space) ∨ (accept = some .new ∧ made = true)

variable {extrasKey : ℕ} {server server' : σ} {srv : AccountServer σ}

theorem openSpace_eq_ok {existing : KeyedSpace} {taken : Taken}
    (h : openSpace extrasKey existing server = (.ok taken, server')) :
    ∃ key, taken = .space ⟨existing.id, key⟩ false := by
  unfold openSpace at h
  obtain ⟨key, server₁, hkey, hpure⟩ := Act.bind_eq_ok.mp h
  exact ⟨key, (Act.pure_eq_ok.mp hpure).1⟩

theorem makeSpace_eq_ok {made space : Space} {new : Bool}
    {again : SignInCall σ Taken}
    (h : makeSpace srv extrasKey made again server = (.ok (.space space new), server')) :
    (space = made ∧ new = true) ∨ ∃ server₁, again server₁ = (.ok (.space space new), server') := by
  unfold makeSpace at h
  obtain ⟨reply, server₁, -, h⟩ := Act.bind_eq_ok.mp h
  split at h
  · cases (Act.pure_eq_ok.mp h).1
    exact .inl ⟨rfl, rfl⟩
  · split at h
    · exact .inr ⟨server₁, h⟩
    · cases h

variable {fresh : ℕ → Space}

theorem takeSpace_permitted {known : Known} {accept : Option AcceptSpace} {rounds : ℕ}
    {space : Space} {made : Bool} (hfresh : ∀ n, (fresh n).id ∉ known.leftSpaces)
    (h : takeSpace srv extrasKey known accept fresh rounds server = (.ok (.space space made), server')) : Permitted
    known accept space.id made := by
  induction rounds generalizing server with
  | zero => cases h
  | succ rounds ih =>
    unfold takeSpace at h
    obtain ⟨spaces, server₁, -, h⟩ := Act.bind_eq_ok.mp h
    cases hfound : spaces.find? fun object => object.space = spaceName with
    | some existing =>
      simp only [hfound] at h
      split at h
      · cases h
      next hleft =>
      cases hwas : known.space with
      | some was =>
        simp only [hwas] at h
        split at h
        · cases (Act.pure_eq_ok.mp h).1
        · next hagreed =>
          obtain ⟨key, htaken⟩ := openSpace_eq_ok h
          cases htaken
          refine ⟨hleft, fun was' hwas' hne => .inl ?_⟩
          cases hwas.symm.trans hwas'
          by_contra hnot
          exact hagreed ⟨hne, hnot⟩
      | none =>
        simp only [hwas] at h
        obtain ⟨key, htaken⟩ := openSpace_eq_ok h
        cases htaken
        exact ⟨hleft, fun was hsome => by rw [hwas] at hsome; cases hsome⟩
    | none =>
      simp only [hfound] at h
      cases hwas : known.space with
      | some was =>
        simp only [hwas] at h
        split at h
        · cases (Act.pure_eq_ok.mp h).1
        · next hnew =>
          rcases makeSpace_eq_ok h with ⟨rfl, rfl⟩ | ⟨server₂, hagain⟩
          · exact ⟨hfresh rounds, fun _ _ _ => Or.inr ⟨not_not.mp hnew, rfl⟩⟩
          · exact ih hagain
      | none =>
        simp only [hwas] at h
        rcases makeSpace_eq_ok h with ⟨rfl, rfl⟩ | ⟨server₂, hagain⟩
        · exact ⟨hfresh rounds, fun was hsome => by rw [hwas] at hsome; cases hsome⟩
        · exact ih hagain

omit [LockCore] in
theorem need_eq_ok {α : Type} {a : Option α} {e : SignInError} {b : α}
    (h : SignInCall.need a e server = (.ok b, server')) : a = some b := by
  unfold SignInCall.need at h
  split at h
  · rw [(Act.pure_eq_ok.mp h).1]
  · cases h

theorem signIn_eq_ok {srv : AccountServer σ} {request : SignIn} {fresh : ℕ → Space} {server server' : σ}
    {t : SignedIn} (h : signIn srv request fresh server = (.ok (.signedIn t), server')) : LockCore.normalizeServer
    request.serverUrl = some t.serverUrl ∧ t.email = LockCore.normalizeEmail request.email.trim ∧ ∃ extrasKey server₁
    server₂, takeSpace srv extrasKey request.known request.acceptSpace fresh 2 server₁ =
    (.ok (.space t.space t.madeSpace), server₂) := by
  unfold signIn at h
  obtain ⟨base, server₁, hbase, h⟩ := Act.bind_eq_ok.mp h
  split at h
  · cases h
  obtain ⟨off, server₂, -, h⟩ := Act.bind_eq_ok.mp h
  split at h
  · cases h
  obtain ⟨kdf, server₃, -, h⟩ := Act.bind_eq_ok.mp h
  obtain ⟨⟨⟩, server₄, -, h⟩ := Act.bind_eq_ok.mp h
  obtain ⟨masterKey, server₅, -, h⟩ := Act.bind_eq_ok.mp h
  obtain ⟨outcome, server₆, -, h⟩ := Act.bind_eq_ok.mp h
  split at h
  · cases (Act.pure_eq_ok.mp h).1
  · split at h
    · obtain ⟨off, server₇, -, h⟩ := Act.bind_eq_ok.mp h
      cases h
    · cases h
  · obtain ⟨wrapped, server₇, -, h⟩ := Act.bind_eq_ok.mp h
    obtain ⟨userKey, server₈, -, h⟩ := Act.bind_eq_ok.mp h
    obtain ⟨privateKey, server₉, -, h⟩ := Act.bind_eq_ok.mp h
    obtain ⟨extrasKey, server₁₀, -, h⟩ := Act.bind_eq_ok.mp h
    obtain ⟨taken, server₁₁, htaken, h⟩ := Act.bind_eq_ok.mp h
    split at h
    · cases (Act.pure_eq_ok.mp h).1
    · next space made =>
      cases (Act.pure_eq_ok.mp h).1
      exact ⟨need_eq_ok hbase, rfl, extrasKey, server₁₀, server₁₁, htaken⟩

theorem signIn_signedIn {request : SignIn} {t : SignedIn} (hfresh : ∀ n, (fresh n).id ∉ request.known.leftSpaces)
    (h : signIn srv request fresh server = (.ok (.signedIn t), server')) : t.email = LockCore.normalizeEmail
    request.email.trim ∧ Permitted request.known request.acceptSpace t.space.id t.madeSpace := by
  obtain ⟨-, hemail, extrasKey, server₁, server₂, htaken⟩ := signIn_eq_ok h
  exact ⟨hemail, takeSpace_permitted hfresh htaken⟩

/-! ## Calls in any order -/

def SignedIn.enrolment (t : SignedIn) : LockEnrolment where
  serverUrl := t.serverUrl
  email := t.email
  kdf := LockCore.kdfToText t.kdf
  protectedRefreshToken := t.refreshToken.map Protected.mk
  protectedRememberToken := t.rememberToken.map Protected.mk

def SignedIn.account [Platform] (t : SignedIn) : Text × Text := (t.serverUrl, accountEmail t.email)

/-- A device, the sign-ins that began there, and those that went through. -/
structure SignInState where
  store : LockStore
  begun : List SignIn
  signed : List (SignIn × SignedIn)

/-- What happens on a device, in any order. -/
inductive SpaceCall : Type 1 where
  /-- A sign-in reads what is known of its account. -/
  | begin (serverUrl email : Text) (password : Password) (twoFactor : Option SecondStep)
      (rememberToken : Option Text) (accept : Option AcceptSpace)
  /-- A server answers everything one of them asks; new ids and keys come from outside. -/
  | answer {σ : Type} (i : ℕ) (srv : AccountServer σ) (server : σ) (fresh : ℕ → Space)
      (fault : LockStore.LeaveStatement → Bool)
  /-- One that went through joins its space. -/
  | join (i : ℕ) (fault : LockStatement → Bool) (w : LockStore.Wrapping) (joining : SpaceJoining)
  | leave (fault : LockStore.LeaveStatement → Bool)

variable [Platform]

namespace SpaceCall

def run (st : SignInState) : SpaceCall → SignInState
  | begin serverUrl email password twoFactor rememberToken accept =>
    match known st.store serverUrl email with
    | .error _ => st
    | .ok known => { st with begun := st.begun ++
        [⟨serverUrl, email, password, twoFactor, rememberToken, known, accept⟩] }
  | answer i srv server fresh fault =>
    match st.begun[i]? with
    | none => st
    | some request =>
      match (signIn srv request fresh server).1, LockCore.normalizeServer request.serverUrl with
      | .ok (.signedIn t), _ => { st with signed := st.signed ++ [(request, t)] }
      | .ok (.spaceChanged _ _ (some token)), some base =>
        { st with store := (LockStore.keepLockRememberToken fault base request.email ⟨token⟩ st.store).2 }
      | _, _ => st
  | join i fault w joining =>
    match st.signed[i]? with
    | none => st
    | some (_, t) =>
      { st with store := (LockStore.joinSpace fault t.space w joining t.enrolment st.store).2 }
  | leave fault => { st with store := (LockStore.leaveLock fault st.store).2 }

def Fresh (st : SignInState) : SpaceCall → Prop
  | answer i _ _ fresh _ => ∀ r, st.begun[i]? = some r → ∀ n, (fresh n).id ∉ r.known.leftSpaces
  | _ => True

/-- At a join, the account's record is what the sign-in read, or on its space already. -/
def Timely (st : SignInState) : SpaceCall → Prop
  | join i _ _ _ => ∀ r t, st.signed[i]? = some (r, t) →
      ((st.store.account t.account).spaceId = r.known.space ∧
        (st.store.account t.account).leftSpaces = r.known.leftSpaces) ∨
      (st.store.account t.account).spaceId = some t.space.id
  | _ => True

/-- The call joins a space of an account that its caller accepted. -/
def Accepted (st : SignInState) (a : Text × Text) (now : Uuid) : SpaceCall → Prop
  | join i _ _ _ => ∃ r t, st.signed[i]? = some (r, t) ∧ t.account = a ∧ t.space.id = now ∧
      (r.acceptSpace = some (.listed now) ∨ (r.acceptSpace = some .new ∧ t.madeSpace = true))
  | _ => False

end SpaceCall

namespace SignInState

def start (device : LockStore) : SignInState := ⟨device, [], []⟩

def run (st : SignInState) (calls : List SpaceCall) : SignInState := calls.foldl SpaceCall.run st

/-- A condition on every call of a run, where it is made. -/
def Along (P : SignInState → SpaceCall → Prop) : SignInState → List SpaceCall → Prop
  | _, [] => True
  | st, call :: calls => P st call ∧ Along P (call.run st) calls

/-- No account is on a space it left, and every space in hand was permitted. -/
structure Sound (st : SignInState) : Prop where
  records : ∀ a was, (st.store.account a).spaceId = some was →
    was ∉ (st.store.account a).leftSpaces
  signed : ∀ r t, (r, t) ∈ st.signed →
    Permitted r.known r.acceptSpace t.space.id t.madeSpace

variable {st st' : SignInState} {call : SpaceCall}

/-- What a call may do to the spaces of an account. -/
structure Lawful (st : SignInState) (call : SpaceCall) : Prop where
  sound : Sound (call.run st)
  left : ∀ a, (st.store.account a).leftSpaces ⊆ ((call.run st).store.account a).leftSpaces
  accepted : ∀ a was now, (st.store.account a).spaceId = some was →
    ((call.run st).store.account a).spaceId = some now → was ≠ now → call.Accepted st a now

theorem Lawful.of_same (hs : Sound st) (h : SameSpaces st.store (call.run st).store)
    (hsigned : ∀ r t, (r, t) ∈ (call.run st).signed →
      Permitted r.known r.acceptSpace t.space.id t.madeSpace) : Lawful st call where
  sound := {
    records := fun a was hwas => by
      rw [(h a).2]
      exact hs.records a was ((h a).1 ▸ hwas)
    signed := hsigned }
  left := fun a => by rw [(h a).2]; exact List.Subset.refl _
  accepted := fun a was now hwas hnow hne => by
    rw [(h a).1, hwas] at hnow
    exact absurd (Option.some.inj hnow) hne

variable {i : ℕ}

variable {fault : LockStatement → Bool} {w : LockStore.Wrapping} {joining : SpaceJoining}

theorem joined_lawful {r : SignIn} {t : SignedIn} {s' : LockStore} (hs : Sound st)
    (ht : (SpaceCall.join i fault w joining).Timely st) (hi : st.signed[i]? = some (r, t))
    (hjoin : LockStore.joinSpace fault t.space w joining t.enrolment st.store = (.ok (), s')) :
    Lawful st (.join i fault w joining) := by
  have hrun : (SpaceCall.join i fault w joining).run st = { st with store := s' } := by
    show (match st.signed[i]? with | none => _ | some (_, t) => _) = _
    rw [hi]
    show { st with store := _ } = _
    rw [hjoin]
  have hperm := hs.signed r t (List.mem_of_getElem? hi)
  have haccount := joinSpace_account hjoin
  have hother : ∀ a, a ≠ t.account → s'.account a = st.store.account a := fun a ha => by
    rw [haccount a]
    exact if_neg ha
  have hown : s'.account t.account = accountAfter (st.store.account t.account) t.space.id t.enrolment := by
    rw [haccount t.account]
    exact if_pos rfl
  -- The space is none that was left, either way the record may stand.
  have hnot : t.space.id ∉ (st.store.account t.account).leftSpaces := by
    rcases ht r t hi with ⟨-, hleft⟩ | hspace
    · rw [hleft]
      exact hperm.notLeft
    · exact hs.records _ _ hspace
  constructor
  · rw [hrun]
    refine ⟨fun a was hwas => ?_, hs.signed⟩
    by_cases ha : a = t.account
    · subst ha
      rw [hown] at hwas ⊢
      obtain rfl : t.space.id = was := Option.some.inj hwas
      exact fun hmem => (mem_leftAfter.mp hmem).1 rfl
    · dsimp only at hwas ⊢
      rw [hother a ha] at hwas ⊢
      exact hs.records a was hwas
  · intro a
    rw [hrun]
    by_cases ha : a = t.account
    · subst ha
      rw [hown]
      intro id hid
      exact mem_leftAfter.mpr ⟨fun heq => hnot (heq ▸ hid), Or.inl hid⟩
    · rw [hother a ha]
      exact List.Subset.refl _
  · intro a was now hwas hnow hne
    rw [hrun] at hnow
    by_cases ha : a = t.account
    · subst ha
      rw [hown] at hnow
      obtain rfl : t.space.id = now := Option.some.inj hnow
      refine ⟨r, t, hi, rfl, rfl, ?_⟩
      rcases ht r t hi with ⟨hspace, -⟩ | hspace
      · exact hperm.agreed was (hspace ▸ hwas) hne
      · rw [hwas] at hspace
        exact absurd (Option.some.inj hspace) hne
    · rw [hother a ha, hwas] at hnow
      exact absurd (Option.some.inj hnow) hne

theorem Lawful.of_nothing (hs : Sound st) (h : call.run st = st) : Lawful st call := by
  apply Lawful.of_same hs
  · rw [h]
    exact SameSpaces.refl _
  · rw [h]
    exact hs.signed

theorem begin_lawful (hs : Sound st) (serverUrl email : Text) (password : Password)
    (twoFactor : Option SecondStep) (rememberToken : Option Text) (accept : Option AcceptSpace) :
    Lawful st (.begin serverUrl email password twoFactor rememberToken accept) := by
  cases hk : known st.store serverUrl email with
  | error e => exact Lawful.of_nothing hs (by simp only [SpaceCall.run, hk])
  | ok learnt =>
    apply Lawful.of_same hs
    · simp only [SpaceCall.run, hk]
      exact SameSpaces.refl _
    · simp only [SpaceCall.run, hk]
      exact hs.signed

theorem answer_lawful {σ : Type} {srv : AccountServer σ} {server : σ} {fresh : ℕ → Space}
    {fault : LockStore.LeaveStatement → Bool} (hs : Sound st)
    (hf : (SpaceCall.answer i srv server fresh fault).Fresh st) : Lawful st (.answer i srv server fresh fault) := by
  cases hi : st.begun[i]? with
  | none => exact Lawful.of_nothing hs (by simp only [SpaceCall.run, hi])
  | some request =>
    cases hsign : signIn srv request fresh server with
    | mk result server' =>
      cases hbase : LockCore.normalizeServer request.serverUrl with
      | none =>
        cases result with
        | error e => exact Lawful.of_nothing hs (by simp only [SpaceCall.run, hi, hsign])
        | ok outcome =>
          cases outcome with
          | signedIn t =>
            unfold signIn at hsign
            rw [hbase] at hsign
            cases hsign
          | twoFactor => exact Lawful.of_nothing hs (by simp only [SpaceCall.run, hi, hsign])
          | spaceChanged was now token =>
            exact Lawful.of_nothing hs (by simp only [SpaceCall.run, hi, hsign, hbase])
      | some base =>
        cases result with
        | error e => exact Lawful.of_nothing hs (by simp only [SpaceCall.run, hi, hsign])
        | ok outcome =>
          cases outcome with
          | signedIn t =>
            apply Lawful.of_same hs
            · simp only [SpaceCall.run, hi, hsign]
              exact SameSpaces.refl _
            · simp only [SpaceCall.run, hi, hsign]
              intro r t' hm
              rcases List.mem_append.mp hm with hm | hm
              · exact hs.signed r t' hm
              · cases List.mem_singleton.mp hm
                exact (signIn_signedIn (hf request hi) hsign).2
          | twoFactor => exact Lawful.of_nothing hs (by simp only [SpaceCall.run, hi, hsign])
          | spaceChanged was now token =>
            cases token with
            | none => exact Lawful.of_nothing hs (by simp only [SpaceCall.run, hi, hsign])
            | some token =>
              apply Lawful.of_same hs
              · simp only [SpaceCall.run, hi, hsign, hbase]
                exact keepLockRememberToken_sameSpaces fault base request.email ⟨token⟩ st.store
              · simp only [SpaceCall.run, hi, hsign, hbase]
                exact hs.signed

theorem join_lawful (hs : Sound st)
    (ht : (SpaceCall.join i fault w joining).Timely st) : Lawful st (.join i fault w joining) := by
  cases hi : st.signed[i]? with
  | none => exact Lawful.of_nothing hs (by simp only [SpaceCall.run, hi])
  | some ticket =>
    obtain ⟨r, t⟩ := ticket
    cases hjoin : LockStore.joinSpace fault t.space w joining t.enrolment st.store with
    | mk result s' =>
      cases result with
      | ok u => exact joined_lawful hs ht hi hjoin
      | error e =>
        have hsame : s' = st.store := AdoptCall.run_error
          (show (AdoptCall.space t.space w joining t.enrolment).run fault st.store = _ from hjoin)
        apply Lawful.of_nothing hs
        simp only [SpaceCall.run, hi, hjoin, hsame]

theorem lawful (hs : Sound st) (hf : call.Fresh st) (ht : call.Timely st) : Lawful st call := by
  cases call with
  | begin serverUrl email password twoFactor rememberToken accept =>
    exact begin_lawful hs serverUrl email password twoFactor rememberToken accept
  | answer i srv server fresh fault => exact answer_lawful hs hf
  | join i fault w joining => exact join_lawful hs ht
  | leave fault => exact Lawful.of_same hs (leaveLock_sameSpaces fault st.store) hs.signed

/-! ## Runs -/

theorem run_append (st : SignInState) (first later : List SpaceCall) :
    st.run (first ++ later) = (st.run first).run later := List.foldl_append

theorem along_append {P : SignInState → SpaceCall → Prop} {first later : List SpaceCall} :
    Along P st (first ++ later) ↔ Along P st first ∧ Along P (st.run first) later := by
  induction first generalizing st with
  | nil => exact ⟨fun h => ⟨trivial, h⟩, And.right⟩
  | cons call first ih =>
    show P st call ∧ Along P (call.run st) (first ++ later) ↔
      (P st call ∧ Along P (call.run st) first) ∧ Along P ((call.run st).run first) later
    rw [ih, and_assoc]

theorem sound_run {calls : List SpaceCall} (hs : Sound st) (hf : Along SpaceCall.Fresh st calls)
    (ht : Along SpaceCall.Timely st calls) : Sound (st.run calls) ∧ ∀ a, (st.store.account a).leftSpaces ⊆
    ((st.run calls).store.account a).leftSpaces := by
  induction calls generalizing st with
  | nil => exact ⟨hs, fun a => List.Subset.refl _⟩
  | cons call calls ih =>
    have hl := lawful hs hf.1 ht.1
    obtain ⟨hsound, hleft⟩ := ih hl.sound hf.2 ht.2
    exact ⟨hsound, fun a => List.Subset.trans (hl.left a) (hleft a)⟩

omit [LockCore] [Platform] in
theorem sound_start {device : LockStore} (h : device.kept.accounts = Table.empty) :
    Sound (start device) where
  records a was hwas := by
    have hnone : (device.account a).spaceId = none := by
      unfold LockStore.account
      rw [h]
      rfl
    rw [show (start device).store = device from rfl, hnone] at hwas
    cases hwas
  signed r t hm := absurd hm List.not_mem_nil

end SignInState

open SignInState in
/-- As long as every join finds its account as the sign-in read it, a space that was left stays left
and is not taken again, and another space is only taken where exactly that one was accepted. -/
theorem left_never_taken_again (device : LockStore) (hnew : device.kept.accounts = Table.empty)
    (calls : List SpaceCall) (hf : Along SpaceCall.Fresh (start device) calls)
    (ht : Along SpaceCall.Timely (start device) calls) :
    (∀ first later, calls = first ++ later → ∀ a id,
      id ∈ (((start device).run first).store.account a).leftSpaces →
        id ∈ (((start device).run calls).store.account a).leftSpaces ∧
          (((start device).run calls).store.account a).spaceId ≠ some id) ∧
    ∀ first call later, calls = first ++ call :: later → ∀ a was now,
      (((start device).run first).store.account a).spaceId = some was →
      ((call.run ((start device).run first)).store.account a).spaceId = some now → was ≠ now →
        call.Accepted ((start device).run first) a now := by
  constructor
  · rintro first later rfl a id hid
    rw [along_append] at hf ht
    obtain ⟨hsound, -⟩ := sound_run (sound_start hnew) hf.1 ht.1
    obtain ⟨hsound', hleft⟩ := sound_run hsound hf.2 ht.2
    rw [run_append]
    exact ⟨hleft a hid, fun hspace => hsound'.records a id hspace (hleft a hid)⟩
  · rintro first call later rfl a was now hwas hnow hne
    rw [along_append] at hf ht
    obtain ⟨hsound, -⟩ := sound_run (sound_start hnew) hf.1 ht.1
    exact (lawful hsound hf.2.1 ht.2.1).accepted a was now hwas hnow hne

end Core

/-! ## Two sign-ins that overlap -/

/-- A client library for plain addresses, where every key opens to itself. -/
@[reducible]
def plainCore : LockCore where
  normalizeServer := some
  normalizeEmail email := email
  isWeakerThan _ _ := false
  kdfToText _ := []
  kdfOfText _ := some (.pbkdf2 600000)
  masterKey _ _ _ := some 1
  masterPasswordHash key _ := key
  decryptUserKey key _ := some key
  decryptPrivateKey key _ := some key
  wrapSpaceKey _ _ := []
  unwrapSpaceKey _ key := some key

def listingSpace (id : Uuid) : AccountServer Unit where
  appSyncSwitchedOff server := (false, server)
  prelogin _ server := (.ok (.pbkdf2 600000), server)
  token _ _ _ server := (.ok (.granted ⟨some [], none, none, none⟩), server)
  extrasKey key _ server := (.ok key, server)
  spaces server := (.ok [⟨⟨spaceName, id⟩, []⟩], server)
  createSpace _ _ server := (.error .refused, server)

def newInstall : LockStore where
  kept := {
    db := Db.fresh 1
    refreshToken := none
    signedInMs := none
    moveStartedMs := none
    accounts := Table.empty }
  vault := none

def beginCall (accept : Option AcceptSpace) : SpaceCall :=
  .begin "s".toList "e".toList [1] none none accept

def answerCall (i : ℕ) (id : Uuid) : SpaceCall :=
  .answer i (listingSpace id) () (fun n => ⟨100 + n, 0⟩) fun _ => false

def joinCall (i : ℕ) : SpaceCall :=
  .join i (fun _ => false) ⟨[1], .recommended, 4, 2000⟩ .signIn

/-- The first sign-in after the account moved from one space to another: asked, and agreed to. -/
def movesOn : List SpaceCall :=
  [beginCall none, answerCall 0 10, joinCall 0, beginCall (some (.listed 20)), answerCall 1 20,
    joinCall 1]

/-- Applied to that run: the space it left stays left. -/
theorem left_never_taken_again_movesOn : letI := asciiPlatform
    letI := plainCore
    let after := ((SignInState.start newInstall).run movesOn).store.account
      ("s".toList, "e".toList)
    10 ∈ after.leftSpaces ∧ after.spaceId ≠ some 10 := by
  let _ := asciiPlatform
  let _ := plainCore
  have hfresh : ∀ i id, ∀ st : SignInState, (∀ r, st.begun[i]? = some r → r.known.leftSpaces = []) →
      (answerCall i id).Fresh st := by
    intro i id st h r hr n hmem
    rw [h r hr] at hmem
    cases hmem
  have hbegun : ∀ st : SignInState, ∀ i : ℕ,
      st.begun[i]?.all (fun r : SignIn => decide (r.known.leftSpaces = [])) = true →
      ∀ r, st.begun[i]? = some r → r.known.leftSpaces = [] := by
    intro st i h r hr
    rw [hr] at h
    exact of_decide_eq_true h
  have hsigned : ∀ st : SignInState, ∀ i : ℕ, st.signed[i]?.all (fun p : SignIn × SignedIn =>
      decide ((st.store.account p.2.account).spaceId = p.1.known.space ∧
        (st.store.account p.2.account).leftSpaces = p.1.known.leftSpaces)) = true →
      (joinCall i).Timely st := by
    intro st i h r t hr
    rw [hr] at h
    exact .inl (of_decide_eq_true h)
  have hf : SignInState.Along SpaceCall.Fresh (SignInState.start newInstall) movesOn :=
    ⟨trivial, hfresh 0 10 _ (hbegun _ 0 (by decide +kernel)), trivial, trivial,
      hfresh 1 20 _ (hbegun _ 1 (by decide +kernel)), trivial, trivial⟩
  have ht : SignInState.Along SpaceCall.Timely (SignInState.start newInstall) movesOn :=
    ⟨trivial, trivial, hsigned _ 0 (by decide +kernel), trivial, trivial,
      hsigned _ 1 (by decide +kernel), trivial⟩
  have h := left_never_taken_again newInstall rfl movesOn hf ht
  exact h.1 movesOn [] rfl ("s".toList, "e".toList) 10 (by decide +kernel)

/-- A sign-in begins; while its server waits with the answer, another one moves the account on to the
space 20, agreed to; then the first is told of the space 10 after all. -/
def overlapping : List SpaceCall :=
  [beginCall none, answerCall 0 10, joinCall 0, beginCall none, beginCall (some (.listed 20)),
    answerCall 2 20, joinCall 1, answerCall 1 10, joinCall 2]

/-- The space that was left is taken again, and nobody agreed to it. -/
theorem rolls_back : letI := asciiPlatform
    letI := plainCore
    let before := ((SignInState.start newInstall).run (overlapping.take 8)).store.account
      ("s".toList, "e".toList)
    let after := ((SignInState.start newInstall).run overlapping).store.account
      ("s".toList, "e".toList)
    (before.spaceId = some 20 ∧ before.leftSpaces = [10]) ∧
      after.spaceId = some 10 ∧ after.leftSpaces = [20] := by
  let _ := asciiPlatform
  let _ := plainCore
  decide +kernel

end UwuRdp
