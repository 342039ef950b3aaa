import UwuRdp.Store.Writes

/-!
# What each call writes

One lemma a call, in the order the calls are built from each other: the steps every call is made of,
logins and passwords, groups, hosts, host keys, an import. Each says that a transaction that has
kept to a scope so far still does after the call.
-/

namespace UwuRdp

open Lib

variable {db₀ : Db} {sc : Scope db₀} {n n' : Uuid → ℕ} {cx : Session} {cs cs' : List Hlc}
  {c clock : Hlc} {k : EntityKind} {id : Uuid}

/-- A transaction in the middle: what it wrote keeps to the scope, and the clocks in `cs` are its
own. -/
def Mid (sc : Scope db₀) (n : Uuid → ℕ) (cx : Session) (cs : List Hlc) (s : TxState) : Prop :=
  Wrote sc n cx.device s.db ∧ ∀ c ∈ cs, Issued cx.device db₀ s.db c

abbrev noneReleased : Uuid → ℕ := fun _ => 0

def Begun (sc : Scope db₀) (cx : Session) (cs : List Hlc) (s : TxState) : Prop :=
  Mid sc noneReleased cx cs s ∧ s.db.rows = db₀.rows

variable {s : TxState} {P : TxState → Prop} {db : Db} {r r₀ : Row (Body k)} {f : Row (Body k) → Row (Body k)}
  {i o : Uuid} {username domain value name : Text} {secret old current : Option Uuid} {field : String}
  {change : LoginChange} {workspace : Workspace} {d : HostDraft}

theorem Mid.mono (h : Mid sc n cx cs s) (hn : ∀ i, n i ≤ n' i) (hc : cs' ⊆ cs) : Mid sc n' cx cs' s := by
  refine ⟨{ h.1 with owners := fun i => ?_ }, fun c hm => h.2 c (hc hm)⟩
  exact (h.1.owners i).trans (Nat.add_le_add_left (hn i) _)

/-! ## Steps -/

theorem query_ensures {α : Type} (f : Db → α) : Tx.Ensures P (StoreTx.query f) fun a s => P s ∧ a = f s.db := by
  intro s hs a s' hm
  cases hm
  exact ⟨hs, rfl⟩

theorem nowMs_mid : Tx.Ensures (Mid sc n cx cs) (StoreTx.nowMs cx) fun _ => Mid sc n cx cs := by
  intro s hs a s' hm
  cases hm
  exact hs

theorem nowV7_mid : Tx.Ensures (Mid sc n cx cs) (StoreTx.nowV7 cx) fun _ => Mid sc n cx cs := by
  intro s hs a s' hm
  cases hm
  exact hs

theorem tick_eq_ok {s' : TxState} (h : StoreTx.tick cx s = .ok (c, s')) :
    c = (s.db.clock cx.device).tick (cx.now s.asked) ∧ s'.db = s.db.setClock c := by
  cases h
  exact ⟨rfl, rfl⟩

theorem Wrote.tick (h : Wrote sc n cx.device s.db) (now : UInt64) :
    Wrote sc n cx.device (s.db.setClock ((s.db.clock cx.device).tick now)) := by
  have hl := later_tick cx.device s.db now
  exact { later := h.later.trans hl
          heads := fun k id => (h.heads k id).mono hl
          frame := h.frame
          books := ⟨h.books.vaultId, h.books.superseded, h.books.violations, h.books.cursor,
            h.books.floor, h.books.header, h.books.enrolment, h.books.lock, h.books.manifests⟩
          refs := h.refs
          slots := h.slots
          owners := h.owners
          kept := h.kept
          passwords := h.passwords }

theorem tick_mid : Tx.Ensures (Mid sc n cx cs) (StoreTx.tick cx) fun c => Mid sc n cx (c :: cs) := by
  intro s hs c s' hm
  obtain ⟨rfl, he⟩ := tick_eq_ok hm
  refine ⟨by rw [he]; exact hs.1.tick _, fun c' hc' => ?_⟩
  rw [he]
  rcases List.mem_cons.mp hc' with rfl | hm'
  · exact issued_tick hs.1.later
  · exact (hs.2 c' hm').mono (later_tick cx.device s.db _)

theorem tick_begun : Tx.Ensures (Begun sc cx cs) (StoreTx.tick cx) fun c => Begun sc cx (c :: cs) := by
  intro s hs c s' hm
  refine ⟨tick_mid s hs.1 c s' hm, ?_⟩
  rw [(tick_eq_ok hm).2]
  exact hs.2

theorem insertRow_mid {b : Body k} (hk : k ≠ .manifest) (hc : clock ∈ cs) : Tx.Ensures (Mid sc n cx cs)
    (StoreTx.insertRow k id (newRow clock b)) fun _ => Mid sc n cx cs := by
  intro s hs _ s' hm
  obtain ⟨ok, s₁, h₁, hm⟩ := Tx.bind_eq_ok.mp hm
  cases h₁
  obtain ⟨hok, hm⟩ := Tx.require_bind_eq_ok.mp hm
  cases hm
  simp only [Bool.and_eq_true, Option.isNone_iff_eq_none] at hok
  exact ⟨hs.1.insert hok.1 hk hok.2 (hs.2 clock hc), fun c' hc' =>
    (hs.2 c' hc').mono (Later.of_clock_eq rfl rfl)⟩

theorem setRow_same (h : db.row k id = some r) : db.setRow k id r = db := by
  rw [Db.setRow, Table.set_same h, Db.setTable, Function.update_eq_self]

theorem updateRow_mid (hP : ∀ s, P s → Mid sc n cx cs s) (hn : ∀ i, n i ≤ n' i)
    (h : ∀ s r, P s → s.db.row k id = some r → f r = r ∨ (Rewrite sc n n' k id r (f r) ∧ (f r).hlc ∈ cs)) : Tx.Ensures
    P (StoreTx.updateRow k id f) fun _ => Mid sc n' cx cs := by
  intro s hps _ s' hm
  have hs := hP s hps
  obtain ⟨old, s₁, h₁, hm⟩ := Tx.bind_eq_ok.mp hm
  cases h₁
  cases hr : s.db.row k id with
  | none =>
    simp only [hr] at hm
    cases hm
    exact hs.mono hn (List.Subset.refl _)
  | some r =>
    simp only [hr] at hm
    obtain ⟨ok, s₁, h₁, hm⟩ := Tx.bind_eq_ok.mp hm
    cases h₁
    obtain ⟨hok, hm⟩ := Tx.require_bind_eq_ok.mp hm
    cases hm
    rcases h s r hps hr with he | ⟨hw, hc⟩
    · simp only [he, setRow_same hr]
      exact hs.mono hn (List.Subset.refl _)
    · exact ⟨hs.1.rewrite hr hok hw (hs.2 _ hc), fun c' hc' =>
        (hs.2 c' hc').mono (Later.of_clock_eq rfl rfl)⟩

theorem rewrite_ok {f : Body k → Body k} (hw : sc.rows k id)
    (hk : k ≠ .manifest) (hp : ∀ i, points k (r.rewrite clock f) i = points k r i)
    (hl : livePassword k (r.rewrite clock f) = livePassword k r)
    (hs : password k (r.rewrite clock f) = password k r) :
    Rewrite sc n n k id r (r.rewrite clock f) where
  rows := hw
  kind := hk
  dirty := rfl
  serverSeq := rfl
  deleted _ := le_refl _
  points i := by rw [hp i]
  kept s h := .inr (hl ▸ h)
  password s h := .inl (hs ▸ h)

/-! ## Passwords -/

theorem sealSecret_mid {vault : UnlockedVault} {plain : List UInt8} : Tx.Ensures (Mid sc n cx cs)
    (sealSecret cx vault plain) fun id s => Mid sc n cx cs s ∧ sc.rows .secret id := by
  intro s hs id s' hm
  obtain ⟨i, s₁, h₁, hm⟩ := Tx.bind_eq_ok.mp hm
  obtain ⟨c, s₂, h₂, hm⟩ := Tx.bind_eq_ok.mp hm
  obtain ⟨_, s₃, h₃, hm⟩ := Tx.bind_eq_ok.mp hm
  obtain ⟨rfl, rfl⟩ := Tx.pure_eq_ok.mp hm
  have m₂ := tick_mid s₁ (nowV7_mid s hs id s₁ h₁) c s₂ h₂
  have m₃ := insertRow_mid (by decide) List.mem_cons_self s₂ m₂ _ s' h₃
  refine ⟨m₃.mono (fun _ => le_refl _) (List.subset_cons_self _ _), sc.new_rows _ _ ?_⟩
  -- The row was not there when it went in, so it was not there at the start.
  obtain ⟨ok, s₄, h₄, h₃⟩ := Tx.bind_eq_ok.mp h₃
  cases h₄
  obtain ⟨hok, -⟩ := Tx.require_bind_eq_ok.mp h₃
  simp only [Bool.and_eq_true, Option.isNone_iff_eq_none] at hok
  exact row_eq_none_of_wrote m₂.1 hok.1

theorem forgetSecret_mid (hw : sc.rows .secret id) :
    Tx.Ensures (Mid sc n cx cs) (forgetSecret cx id) fun _ => Mid sc n cx cs := by
  refine .bind tick_mid fun c => ?_
  refine .conseq (updateRow_mid (fun _ h => h) (fun i => le_refl (n i)) fun s r _ _ => ?_)
    (fun _ h => h) fun _ s h => h.mono (fun _ => le_refl _) (List.subset_cons_self c cs)
  split
  · exact .inl rfl
  · refine .inr ⟨⟨hw, by decide, rfl, rfl, fun _ => Bool.le_true _, fun _ => le_refl _, ?_, ?_⟩,
      List.mem_cons_self⟩
    · exact fun s h => by cases h
    · exact fun s h => by cases h

theorem releaseSecret_mid {secret : Uuid} (hf : sc.Forgettable secret) :
    Tx.Ensures (Mid sc n cx cs) (releaseSecret cx secret) fun _ => Mid sc n cx cs := by
  refine .bind (query_ensures _) fun used => ?_
  refine .ite (fun _ => .pure _ fun s h => h.1) fun hu => ?_
  rcases hf with hw | ⟨i, r, hr, hp, hd⟩
  · exact .conseq (forgetSecret_mid hw) (fun _ h => h.1) fun _ _ h => h
  · -- The login that keeps it still does.
    rintro s ⟨hs, rfl⟩
    obtain ⟨r', hr', hp'⟩ := hs.1.kept i r secret hr hp hd
    exact absurd (secretUsed_of_livePassword hr' hp') hu

/-! ## Logins -/

/-- A login an owner lets go of: once nothing points at it, it and its password may go. -/
structure Scope.Release (sc : Scope db₀) (n : Uuid → ℕ) (i : Uuid) : Prop where
  login : references db₀ i ≤ n i → sc.rows .identity i ∧ sc.dropped i
  password : references db₀ i ≤ n i → ∀ s,
    (∀ r, db₀.row .identity i = some r → livePassword .identity r = some s) → sc.Forgettable s

/-- A change of the login an owner has: its own one may be rewritten, and the password it replaces
forgotten. -/
structure Scope.Edit (sc : Scope db₀) (current : Option Uuid) (change : LoginChange) : Prop where
  login : ∀ i, current = some i → Text.trim change.username ≠ [] → references db₀ i ≤ 1 →
    sc.rows .identity i ∧ (change.password ≠ .keep → sc.dropped i)
  password : ∀ i s, current = some i → Text.trim change.username ≠ [] → change.password ≠ .keep →
    (∀ r, db₀.row .identity i = some r → r.body.passwordSecretId = some s) → sc.Forgettable s

theorem Mid.password_of (h : Mid sc n cx cs s) {r : Row IdentityBody} (hr : s.db.row .identity i = some r)
    (hp : r.body.passwordSecretId = some o) :
    (∀ r₀, db₀.row .identity i = some r₀ → r₀.body.passwordSecretId = some o) ∨ sc.rows .secret o := by
  by_cases ho : sc.rows .secret o
  · exact .inr ho
  · exact .inl fun r₀ h₀ => (h.1.passwords i r₀ r o h₀ hr hp).resolve_right ho

theorem Mid.live (h : Mid sc n cx cs s) (hk : k ≠ .knownHost) (hr : s.db.row k id = some r)
    (h₀ : db₀.row k id = some r₀) (hd : r.deleted = false) : r₀.deleted = false := by
  have hw := h.1.heads k id
  rw [Db.head_eq_some.mpr ⟨r, hr, rfl⟩, Db.head_eq_some.mpr ⟨r₀, h₀, rfl⟩] at hw
  generalize hrh : some r.head = hn at hw
  cases hw with
  | same =>
    have : r.deleted = r₀.deleted := congrArg Head.deleted (Option.some.inj hrh)
    rw [← this, hd]
  | rewritten _ c d _ _ hdel _ =>
    have hrd : r.deleted = d := congrArg Head.deleted (Option.some.inj hrh)
    have := hdel hk
    rw [← hrd, hd] at this
    exact Bool.eq_false_of_le_false this

theorem insertLogin_mid {label : Text} (hc : clock ∈ cs) : Tx.Ensures (Mid sc n cx cs)
    (insertLogin cx label username domain secret clock) fun _ => Mid sc n cx cs := by
  refine .bind nowV7_mid fun id => ?_
  refine .bind (insertRow_mid (by decide) hc) fun _ => ?_
  exact .pure _ fun _ h => h

theorem tombstoneLogin_mid (hw : sc.rows .identity i) (hd : sc.dropped i) (hc : clock ∈ cs) : Tx.Ensures
    (Mid sc n cx cs) (tombstoneLive .identity i clock fun b => b) fun _ => Mid sc n cx cs := by
  refine updateRow_mid (fun _ h => h) (fun i => le_refl (n i)) fun s r _ _ => ?_
  split
  · exact .inl rfl
  · refine .inr ⟨⟨hw, by decide, rfl, rfl, fun _ => Bool.le_true _, fun _ => le_refl _, ?_, ?_⟩, hc⟩
    · exact fun s _ => .inl ⟨rfl, hd⟩
    · exact fun s h => .inl h

theorem releaseLogin_mid (hrel : sc.Release n i) (hc : clock ∈ cs) :
    Tx.Ensures (Mid sc n cx cs) (releaseLogin cx clock i) fun _ => Mid sc n cx cs := by
  refine .bind (query_ensures _) fun used => ?_
  refine .ite (fun _ => .pure _ fun s h => h.1) fun hu => ?_
  refine .bind (query_ensures _) fun row => ?_
  rintro s ⟨⟨hs, hused⟩, hrow⟩
  have hn : references db₀ i ≤ n i := by
    have := hs.1.owners i
    omega
  obtain ⟨hw, hd⟩ := hrel.login hn
  -- The password of the login as it was when it was looked up.
  have hpw : ∀ r o, row = some r → r.deleted = false → r.body.passwordSecretId = some o →
      sc.Forgettable o := by
    intro r o hr hlive hp
    rw [hrow] at hr
    rcases hs.password_of hr hp with h₀ | ho
    · refine hrel.password hn o fun r₀ hr₀ => livePassword_identity.mpr ⟨?_, h₀ r₀ hr₀⟩
      exact hs.live (by decide) hr hr₀ hlive
    · exact .inl ho
  refine Tx.Ensures.bind (tombstoneLogin_mid hw hd hc) (fun _ => ?_) s hs
  cases row with
  | none => exact Tx.Ensures.pure _ fun _ h => h
  | some r =>
    refine .ite (fun _ => .pure _ fun _ h => h) fun hlive => ?_
    refine .forM fun o ho => releaseSecret_mid ?_
    exact hpw r o rfl (by simpa using hlive) (by simpa using ho)

theorem releaseAll_mid {identities : List Uuid} (hrel : ∀ i ∈ identities, sc.Release n i) (hc : clock ∈ cs) :
    Tx.Ensures (Mid sc n cx cs) (releaseAll cx clock identities) fun _ => Mid sc n cx cs :=
  .forM fun i hi => releaseLogin_mid (hrel i hi) hc

theorem cleanUsername_ok (h : cleanUsername field value = .ok username) : username = Text.trim value := by
  unfold cleanUsername at h
  simp only at h
  split at h
  · cases h
  · split at h
    · cases h
    · cases h
      rfl

theorem cleanDomain_ok (h : cleanDomain field value = .ok domain) : domain = Text.trim value := by
  unfold cleanDomain at h
  simp only at h
  split at h
  · cases h
  · split at h
    · cases h
    · cases h
      rfl

theorem checkLogin_ok (h : checkLogin field change = .ok (username, domain)) : username = Text.trim change.username ∧
    domain = Text.trim change.domain := by
  unfold checkLogin at h
  split at h
  · cases h
  · cases h
  · next u d hu hd =>
    have hok : u = username ∧ d = domain := by
      split at h
      · split at h
        · cases h
        · split at h
          · cases h
          · cases h
            exact ⟨rfl, rfl⟩
      · cases h
        exact ⟨rfl, rfl⟩
    obtain ⟨rfl, rfl⟩ := hok
    exact ⟨cleanUsername_ok hu, cleanDomain_ok hd⟩

theorem newSecret_mid {change : PasswordChange} : Tx.Ensures
    (fun s => Mid sc n cx cs s ∧ old = oldSecret s.db current) (newSecret cx old change) fun secret s =>
    (Mid sc n cx cs s ∧ (change = .keep → secret = oldSecret s.db current)) ∧
    (change ≠ .keep → ∀ o, secret = some o → sc.rows .secret o) := by
  cases change with
  | keep => exact .pure _ fun s h => ⟨⟨h.1, fun _ => h.2⟩, fun hk => absurd rfl hk⟩
  | forget =>
    refine .pure _ fun s h => ⟨⟨h.1, fun hk => by cases hk⟩, fun _ o ho => by cases ho⟩
  | set value =>
    refine .bind (.orFail fun s h v _ => h.1) fun vault => ?_
    refine .bind sealSecret_mid fun id => ?_
    refine .pure _ fun s h => ⟨⟨h.1, fun hk => by cases hk⟩, fun _ o ho => ?_⟩
    cases ho
    exact h.2

theorem writeLogin_mid {shared : Bool} (hsc : sc.Edit current change)
    (hu : Text.trim change.username ≠ [])
    (hsec : change.password ≠ .keep → ∀ o, secret = some o → sc.rows .secret o)
    (hc : clock ∈ cs) :
    Tx.Ensures (fun s => (Mid sc noneReleased cx cs s ∧
        (change.password = .keep → secret = oldSecret s.db current)) ∧
        shared = current.any fun i => decide (1 < references s.db i))
      (writeLogin cx current shared username domain secret clock)
      fun _ => Mid sc noneReleased cx cs := by
  unfold writeLogin
  split
  · next identity =>
    refine .bind (updateRow_mid (n := noneReleased) (fun s h => h.1.1) (fun i => le_refl 0)
      fun s r hs hr => .inr ⟨?_, hc⟩) fun _ => .pure _ fun _ h => h
    obtain ⟨⟨hmid, hkeep⟩, hshared⟩ := hs
    have hle : references db₀ identity ≤ 1 := by
      have ho : references db₀ identity ≤ references s.db identity := hmid.1.owners identity
      simp only [Option.any_some, Bool.false_eq, decide_eq_false_iff_not, not_lt] at hshared
      omega
    obtain ⟨hw, hd⟩ := hsc.login identity rfl hu hle
    have hold : oldSecret s.db (some identity) = r.body.passwordSecretId := by
      simp only [oldSecret, Option.bind_some, hr]
    refine ⟨hw, by decide, rfl, rfl, fun _ => le_refl _, fun _ => le_refl _, fun o ho => ?_,
      fun o ho => ?_⟩
    · by_cases hk : change.password = .keep
      · obtain ⟨hlive, hp⟩ := livePassword_identity.mp ho
        refine Or.inr (livePassword_identity.mpr ⟨hlive, ?_⟩)
        exact (hkeep hk).trans (hold.trans hp)
      · exact .inl ⟨rfl, hd hk⟩
    · by_cases hk : change.password = .keep
      · exact .inl (hold.symm.trans ((hkeep hk).symm.trans ho))
      · exact .inr (hsec hk o ho)
  · exact .conseq (insertLogin_mid hc) (fun s h => h.1.1) fun _ _ h => h

theorem releaseReplaced_mid {change : PasswordChange} (hf : change ≠ .keep → ∀ o, old = some o → sc.Forgettable o) :
    Tx.Ensures (Mid sc n cx cs) (releaseReplaced cx old secret change) fun _ => Mid sc n cx cs := by
  have loop : change ≠ .keep → Tx.Ensures (Mid sc n cx cs)
      ((old.filter fun o => some o ≠ secret).toList.forM (releaseSecret cx))
      fun _ => Mid sc n cx cs := by
    intro hk
    refine .forM fun o ho => releaseSecret_mid (hf hk o ?_)
    rw [Option.mem_toList] at ho
    exact (Option.filter_eq_some_iff.mp ho).1
  cases change with
  | keep => exact .pure _ fun _ h => h
  | set value | forget => exact loop (by simp)

theorem applyLogin_mid (hsc : sc.Edit current change) (hc : clock ∈ cs) : Tx.Ensures (Mid sc noneReleased cx cs)
    (applyLogin cx current change field clock) fun a s => Mid sc noneReleased cx cs s ∧ ∀ i, a.release = some i →
    current = some i ∧ Text.trim change.username = [] := by
  unfold applyLogin
  cases hch : checkLogin field change with
  | error e => exact .fail e
  | ok r =>
    obtain ⟨username, domain⟩ := r
    have hname := (checkLogin_ok hch).1
    refine .ite (fun he => .pure _ fun s h => ⟨h, fun i hi => ?_⟩) fun he => ?_
    · exact ⟨hi, by rw [← hname]; exact List.isEmpty_iff.mp he⟩
    have hu : Text.trim change.username ≠ [] := fun h => he (by rw [hname, h]; rfl)
    refine .bind (query_ensures _) fun old => ?_
    intro s hs
    -- What may be said of the old password once and for all.
    have hold : change.password ≠ .keep → ∀ o, old = some o → sc.Forgettable o := by
      intro hk o ho
      rw [hs.2] at ho
      obtain ⟨i, hi, ho⟩ := Option.bind_eq_some_iff.mp ho
      obtain ⟨r, hr, hp⟩ := Option.bind_eq_some_iff.mp ho
      rcases hs.1.password_of hr hp with h₀ | hw
      · exact hsc.password i o hi hu hk h₀
      · exact .inl hw
    refine Tx.Ensures.bind newSecret_mid (fun secret => Tx.Ensures.intro fun hsec => ?_) s hs
    refine Tx.Ensures.bind (query_ensures _) fun shared => ?_
    refine .bind (writeLogin_mid hsc hu hsec hc) fun identity => ?_
    refine .bind (releaseReplaced_mid hold) fun _ => ?_
    exact .pure _ fun s h => ⟨h, fun i hi => by cases hi⟩

/-! ## One kind left alone -/

/-- The scope without the rows of one kind that were there. -/
def Scope.without (sc : Scope db₀) (k : EntityKind) : Scope db₀ where
  rows k' id := sc.rows k' id ∧ (k' = k → db₀.row k' id = none)
  dropped := sc.dropped
  new_rows k' id h := ⟨sc.new_rows k' id h, fun _ => h⟩

theorem Mid.widen (h : Mid (sc.without k) n cx cs s) : Mid sc n cx cs s := by
  refine ⟨{ h.1 with heads := fun k' id => ?_, frame := fun k' id r hw => ?_, kept := h.1.kept,
                     passwords := fun i r₀ r o h₀ hr hp => ?_ }, h.2⟩
  · have hwr := h.1.heads k' id
    generalize db₀.head k' id = ho at hwr
    generalize s.db.head k' id = hn at hwr
    cases hwr with
    | same => exact .same _
    | created c d hk hc => exact .created c d hk hc
    | rewritten h c d hk hw hd hc => exact .rewritten h c d hk hw.1 hd hc
  · exact h.1.frame k' id r fun hf => hw hf.1
  · exact (h.1.passwords i r₀ r o h₀ hr hp).imp_right And.left

theorem Mid.row_eq (h : Mid (sc.without k) n cx cs s) (h₀ : db₀.row k id = some r) : s.db.row k id = some r := by
  refine h.1.frame k id r (fun hw => ?_) h₀
  rw [hw.2 rfl] at h₀
  cases h₀

theorem Scope.Forgettable.without (h : sc.Forgettable o) (hs : k ≠ .secret) : (sc.without k).Forgettable o :=
  h.imp_left fun hw => ⟨hw, fun e => absurd e.symm hs⟩

theorem Scope.Edit.without
    (h : sc.Edit current change) (hi : k ≠ .identity) (hs : k ≠ .secret) :
    (sc.without k).Edit current change where
  login i hc hu hr := ⟨⟨(h.login i hc hu hr).1, fun e => absurd e.symm hi⟩, (h.login i hc hu hr).2⟩
  password i o hc hu hk h₀ := (h.password i o hc hu hk h₀).without hs

theorem begun_start (sc : Scope db₀) (cx : Session) (h : s.db = db₀) : Begun sc cx [] s := by
  unfold Begun Mid
  rw [h]
  exact ⟨⟨Wrote.refl sc cx.device, fun c hc => by cases hc⟩, rfl⟩

theorem row_of_rows_eq (h : db.rows = db₀.rows) (k : EntityKind) (id : Uuid) :
    db.row k id = db₀.row k id := by rw [Db.row, h, Db.row]

theorem ownRow_mid (hw : sc.rows k id)
    (hk : k ≠ .manifest) (hi : k ≠ .identity) (h₀ : db₀.row k id = some r₀)
    (hp : ∀ i, points k r₀ i ≤ points k (f r₀) i + n i)
    (hf : ∀ r, f r = r ∨ ((f r).hlc ∈ cs ∧ (f r).dirty = true ∧ (f r).serverSeq = r.serverSeq ∧
      r.deleted ≤ (f r).deleted)) :
    Tx.Ensures (Mid (sc.without k) noneReleased cx cs) (StoreTx.updateRow k id f)
      fun _ => Mid sc n cx cs := by
  refine updateRow_mid (fun s h => Mid.widen h) (fun i => Nat.zero_le _) fun s r hs hr => ?_
  have he : r = r₀ := by
    rw [hs.row_eq h₀] at hr
    exact (Option.some.inj hr).symm
  subst he
  have nopw : ∀ r' : Row (Body k), livePassword k r' = none ∧ password k r' = none := by
    intro r'
    cases k <;> first | exact ⟨rfl, rfl⟩ | exact absurd rfl hi
  refine (hf r).imp_right fun ⟨hc, hdirty, hseq, hdel⟩ => ⟨⟨hw, hk, hdirty, hseq, fun _ => hdel,
    hp, fun o ho => ?_, fun o ho => ?_⟩, hc⟩
  · rw [(nopw _).1] at ho
    cases ho
  · rw [(nopw _).2] at ho
    cases ho

theorem tombstoneLive_mid {f : Body k → Body k} (hw : sc.rows k id) (hk : k ≠ .manifest) (hi : k ≠ .identity)
    (h₀ : db₀.row k id = some r₀) (hc : clock ∈ cs) : Tx.Ensures (Mid (sc.without k) noneReleased cx cs)
    (tombstoneLive k id clock f) fun _ => Mid sc (points k r₀) cx cs := by
  refine ownRow_mid hw hk hi h₀ (fun i => Nat.le_add_left _ _) fun r => ?_
  split
  · exact .inl rfl
  · exact .inr ⟨hc, rfl, rfl, Bool.le_true _⟩

/-! ## Groups by name -/

theorem groupId_some {g : Uuid} (h : groupId db workspace name = some g) : ∃ r, db.row .group g = some r ∧ r.deleted =
    false ∧ r.body.workspace = workspace ∧ r.body.name = name := by
  have hm := List.mem_of_mem_head? (Option.mem_def.mpr h)
  rw [List.mem_insertionSort, List.mem_map] at hm
  obtain ⟨⟨i, r⟩, hi, rfl⟩ := hm
  obtain ⟨hr, hp⟩ := Table.mem_select.mp hi
  simp only [Bool.and_eq_true, decide_eq_true_eq, Bool.not_eq_eq_eq_not, Bool.not_true] at hp
  exact ⟨r, hr, hp.1.1, hp.1.2, hp.2⟩

theorem groupId_none {g : Uuid} {r : Row GroupBody} (h : groupId db workspace name = none)
    (hr : db.row .group g = some r) (hd : r.deleted = false) (hw : r.body.workspace = workspace) : r.body.name ≠ name := by
  intro hn
  have hsort := List.head?_eq_none_iff.mp h
  have hmem : g ∈ ((namedGroups db workspace name).map Prod.fst).insertionSort (· ≤ ·) := by
    rw [List.mem_insertionSort, List.mem_map]
    refine ⟨(g, r), Table.mem_select.mpr ⟨hr, ?_⟩, rfl⟩
    rw [hd, hw, hn]
    simp
  rw [hsort] at hmem
  cases hmem

theorem groupId_of_rows_eq (h : db.rows = db₀.rows) : groupId db = groupId db₀ := by
  funext workspace name
  rw [groupId, namedGroups, h, groupId, namedGroups]

theorem afterLast_ensures (positions : List ℤ) : Tx.Ensures P (afterLast positions) fun _ => P := by
  unfold afterLast
  split
  · exact .pure _ fun _ h => h
  · exact .bind (.require fun _ h _ => h) fun _ =>
      .pure _ fun _ h => h

theorem nextPosition_ensures (workspace : Workspace) (group : Option Uuid) :
    Tx.Ensures P (nextPosition workspace group) fun _ => P :=
  .bind (.conseq (query_ensures _) (fun _ h => h) fun _ _ h => h.1) fun _ =>
    afterLast_ensures _

theorem ensureGroup_mid : Tx.Ensures (Mid sc n cx cs) (ensureGroup cx workspace name) fun id s => Mid sc n cx cs s ∧ ∃
    r, s.db.row .group id = some r ∧ r.body.name = name := by
  refine .bind (query_ensures _) fun found => ?_
  cases found with
  | some id =>
    refine .pure _ fun s h => ⟨h.1, ?_⟩
    obtain ⟨r, hr, -, -, hname⟩ := groupId_some h.2.symm
    exact ⟨r, hr, hname⟩
  | none =>
    refine .bind (.conseq (query_ensures _) (fun _ h => h.1) fun _ _ h => h.1)
      fun positions => ?_
    refine .bind (afterLast_ensures positions) fun position => ?_
    refine .bind tick_mid fun c => ?_
    refine .bind nowV7_mid fun id => ?_
    intro s hs a s' hm
    obtain ⟨_, s₁, h₁, hm⟩ := Tx.bind_eq_ok.mp hm
    obtain ⟨rfl, rfl⟩ := Tx.pure_eq_ok.mp hm
    have m₁ := insertRow_mid (by decide) List.mem_cons_self s hs _ s' h₁
    refine ⟨m₁.mono (fun _ => le_refl _) (List.subset_cons_self _ _), ?_⟩
    obtain ⟨ok, s₂, h₂, h₁⟩ := Tx.bind_eq_ok.mp h₁
    cases h₂
    obtain ⟨-, h₁⟩ := Tx.require_bind_eq_ok.mp h₁
    cases h₁
    exact ⟨_, Db.row_setRow_self .., rfl⟩

theorem ensureGroupPath_mid {path : Option Text} :
    Tx.Ensures (Mid sc n cx cs) (ensureGroupPath cx workspace path) fun _ => Mid sc n cx cs := by
  cases path with
  | none => exact .pure _ fun _ h => h
  | some name =>
    refine .bind (.conseq ensureGroup_mid (fun _ h => h) fun _ _ h => h.1)
      fun _ => .pure _ fun _ h => h

/-! ## Hosts -/

/-- What a saved host may touch: its own row, its two logins, and whichever of them it lets go. -/
structure Scope.Save (sc : Scope db₀) (d : HostDraft) : Prop where
  row : ∀ id, d.id = some id → sc.rows .host id
  login : ∀ id r, d.id = some id → liveHost db₀ id = some r →
    sc.Edit r.body.identityId ⟨d.username, d.domain, d.password⟩
  gateway : ∀ id r, d.id = some id → liveHost db₀ id = some r →
    sc.Edit r.body.gatewayIdentityId ⟨d.gatewayUsername, d.gatewayDomain, d.gatewayPassword⟩
  release : ∀ id r i, d.id = some id → liveHost db₀ id = some r →
    ((r.body.identityId = some i ∧ Text.trim d.username = []) ∨
      (r.body.gatewayIdentityId = some i ∧ Text.trim d.gatewayUsername = [])) →
    sc.Release (points .host r) i

theorem liveHost_some {r : Row HostBody} (h : liveHost db id = some r) :
    db.row .host id = some r ∧ r.deleted = false := by
  obtain ⟨hr, hd⟩ := Option.filter_eq_some_iff.mp h
  exact ⟨hr, by simpa using hd⟩

theorem liveHost_of_rows_eq (h : db.rows = db₀.rows) (id : Uuid) : liveHost db id = liveHost db₀ id := by
  rw [liveHost, row_of_rows_eq h, liveHost]

theorem existingHost_begun {id : Option Uuid} : Tx.Ensures (Begun sc cx cs) (existingHost id) fun existing s => Mid sc
    noneReleased cx cs s ∧ ∀ r, existing = some r → ∃ i, id = some i ∧ liveHost db₀ i = some r := by
  cases id with
  | none => exact .pure _ fun s h => ⟨h.1, fun r hr => by cases hr⟩
  | some id =>
    refine .bind (query_ensures _) fun row => ?_
    refine .bind (.orFail fun s h r hr => (⟨h.1.1, ?_⟩ :
      Mid sc noneReleased cx cs s ∧ liveHost db₀ id = some r)) fun r => ?_
    · rw [← liveHost_of_rows_eq h.1.2, ← h.2, hr]
    · refine .pure _ fun s h => ⟨h.1, fun r' hr' => ?_⟩
      cases hr'
      exact ⟨id, rfl, h.2⟩

theorem hostPosition_ensures (existing : Option (Row HostBody)) (workspace : Workspace) (group : Option Uuid) :
    Tx.Ensures P (hostPosition existing workspace group) fun _ => P := by
  unfold hostPosition
  split
  · exact .ite (fun _ => .pure _ fun _ h => h) fun _ =>
      nextPosition_ensures workspace group
  · exact nextPosition_ensures workspace group

/-- How often the host that is edited points at a login. -/
def pointsOf (existing : Option (Row HostBody)) (i : Uuid) : ℕ :=
  existing.elim 0 fun r => points .host r i

theorem writeHostRow_mid {existing : Option (Row HostBody)} {position : ℤ} {group login gatewayLogin : Option Uuid}
    (hrow : ∀ id, d.id = some id → sc.rows .host id)
    (hex : ∀ r, existing = some r → ∃ i, d.id = some i ∧ liveHost db₀ i = some r) (hc : clock ∈ cs) : Tx.Ensures
    (Mid (sc.without .host) noneReleased cx cs)
    (writeHostRow cx d existing workspace position group login gatewayLogin clock) fun _ => Mid sc (pointsOf existing)
    cx cs := by
  unfold writeHostRow
  split
  · next id r hid =>
    obtain ⟨i, hi, hr₀⟩ := hex r rfl
    rw [hid] at hi
    cases hi
    exact .bind (ownRow_mid (hrow id hid) (by decide) (by decide) (liveHost_some hr₀).1
      (fun i => Nat.le_add_left _ _) fun r' => .inr ⟨hc, rfl, rfl, le_refl _⟩) fun _ => .pure _ fun _ h => h
  · refine .bind nowV7_mid fun id => ?_
    refine .bind (insertRow_mid (by decide) hc) fun _ => ?_
    exact .pure _ fun s h => h.widen.mono (fun _ => Nat.zero_le _) (List.Subset.refl _)

theorem saveDraft_done (hsc : sc.Save d) :
    Tx.Ensures (fun s => s.db = db₀) (saveDraft cx d) fun _ s => ∃ n, Mid sc n cx [] s := by
  refine .bind (.conseq tick_begun
    (fun s h => begun_start (sc.without .host) cx h) fun _ _ h => h) fun clock => ?_
  refine .bind existingHost_begun fun existing => .intro fun hex => ?_
  have hc : clock ∈ [clock] := List.mem_cons_self
  -- A draft for a new host has no login to change.
  have edit : ∀ (f : HostBody → Option Uuid) (change : LoginChange),
      (∀ id r, d.id = some id → liveHost db₀ id = some r → sc.Edit (f r.body) change) →
      (sc.without .host).Edit (existing.bind fun r => f r.body) change := by
    intro f change h
    cases existing with
    | none => exact ⟨fun i hi => absurd hi (by simp), fun i s hi => absurd hi (by simp)⟩
    | some r =>
      obtain ⟨id, hid, hr⟩ := hex r rfl
      exact (h id r hid hr).without (by decide) (by decide)
  refine .bind ensureGroupPath_mid fun group => ?_
  refine .bind (hostPosition_ensures existing _ group) fun position => ?_
  refine .bind (applyLogin_mid (edit (·.identityId) _ hsc.login) hc)
    fun login => .intro fun hlogin => ?_
  refine .bind (applyLogin_mid (edit (·.gatewayIdentityId) _ hsc.gateway) hc)
    fun gatewayLogin => .intro fun hgateway => ?_
  refine .bind (writeHostRow_mid hsc.row hex hc) fun id => ?_
  refine .bind (releaseAll_mid (fun i hi => ?_) hc) fun _ => ?_
  · have hcur : ∃ r, existing = some r ∧
        ((r.body.identityId = some i ∧ Text.trim d.username = []) ∨
          (r.body.gatewayIdentityId = some i ∧ Text.trim d.gatewayUsername = [])) := by
      rw [List.mem_append, Option.mem_toList, Option.mem_toList] at hi
      rcases hi with hi | hi
      · obtain ⟨hi, hu⟩ := hlogin i hi
        obtain ⟨r, hr, hi⟩ := Option.bind_eq_some_iff.mp hi
        exact ⟨r, hr, .inl ⟨hi, hu⟩⟩
      · obtain ⟨hi, hu⟩ := hgateway i hi
        obtain ⟨r, hr, hi⟩ := Option.bind_eq_some_iff.mp hi
        exact ⟨r, hr, .inr ⟨hi, hu⟩⟩
    obtain ⟨r, rfl, hi⟩ := hcur
    obtain ⟨id, hid, hr⟩ := hex r rfl
    exact hsc.release id r i hid hr hi
  · refine .bind (query_ensures _) fun record => .orFail fun s h _ _ => ?_
    exact ⟨_, h.1.mono (fun _ => le_refl _) (List.nil_subset _)⟩

/-- What a deleted host may touch: its own row, and the logins it lets go. -/
structure Scope.Delete (sc : Scope db₀) (id : Uuid) : Prop where
  row : sc.rows .host id
  release : ∀ r i, liveHost db₀ id = some r →
    (r.body.identityId = some i ∨ r.body.gatewayIdentityId = some i) → sc.Release (points .host r) i

theorem deleteHost_done (hsc : sc.Delete id) :
    Tx.Ensures (fun s => s.db = db₀) (deleteHost cx id) fun _ s => ∃ n, Mid sc n cx [] s := by
  refine .bind (.conseq tick_begun
    (fun s h => begun_start (sc.without .host) cx h) fun _ _ h => h) fun clock => ?_
  have hc : clock ∈ [clock] := List.mem_cons_self
  refine .bind (query_ensures _) fun row => ?_
  refine .bind (.orFail fun s h r hr => (⟨h.1.1, ?_⟩ :
    Mid (sc.without .host) noneReleased cx [clock] s ∧ liveHost db₀ id = some r)) fun r =>
      .intro fun hr => ?_
  · rw [← liveHost_of_rows_eq h.1.2, ← h.2, hr]
  refine .bind (tombstoneLive_mid hsc.row (by decide) (by decide) (liveHost_some hr).1 hc)
    fun _ => ?_
  refine .conseq (releaseAll_mid (fun i hi => hsc.release r i hr ?_) hc) (fun _ h => h)
    fun _ s h => ⟨_, h.mono (fun _ => le_refl _) (List.nil_subset _)⟩
  rw [List.mem_append, Option.mem_toList, Option.mem_toList] at hi
  exact hi

def pointsOwn (r : Row HostBody) (i : Uuid) : ℕ := if r.body.identityId = some i then 1 else 0

/-- What a host that gets a login of its own may touch. -/
structure Scope.HostLogin (sc : Scope db₀) (id : Uuid) (change : LoginChange) : Prop where
  row : sc.rows .host id
  login : ∀ r, liveHost db₀ id = some r → sc.Edit r.body.identityId change
  release : ∀ r i, liveHost db₀ id = some r → r.body.identityId = some i →
    Text.trim change.username = [] → sc.Release (pointsOwn r) i

theorem setHostLogin_done {password : Option (List UInt8)}
    (hsc : sc.HostLogin id ⟨username, domain, password.elim .keep .set⟩) : Tx.Ensures (fun s => s.db = db₀)
    (setHostLogin cx id username domain password) fun _ s => ∃ n, Mid sc n cx [] s := by
  refine .bind (R := fun _ => Begun (sc.without .host) cx [])
    (.require fun s h _ => begun_start _ cx h) fun _ => ?_
  refine .bind (query_ensures _) fun row => ?_
  refine .bind (.orFail fun s h r hr => (⟨h.1.1, ?_⟩ :
    Mid (sc.without .host) noneReleased cx [] s ∧ liveHost db₀ id = some r)) fun r =>
      .intro fun hr => ?_
  · rw [← liveHost_of_rows_eq h.1.2, ← h.2, hr]
  refine .bind tick_mid fun clock => ?_
  have hc : clock ∈ [clock] := List.mem_cons_self
  refine .bind (applyLogin_mid ((hsc.login r hr).without (by decide) (by decide)) hc)
    fun login => .intro fun hlogin => ?_
  refine .bind (R := fun _ => Mid sc (pointsOwn r) cx [clock]) (ownRow_mid hsc.row
    (by decide) (by decide) (liveHost_some hr).1 (fun i => ?_) fun r' =>
      .inr ⟨hc, rfl, rfl, le_refl _⟩) fun _ => ?_
  · simp only [points, Row.rewrite, (liveHost_some hr).2, Bool.not_false, Bool.true_and,
      decide_eq_true_eq, pointsOwn]
    omega
  refine .bind (releaseAll_mid (fun i hi => ?_) hc) fun _ => ?_
  · obtain ⟨hi, hu⟩ := hlogin i (Option.mem_toList.mp hi)
    exact hsc.release r i hr hi hu
  · refine .bind (query_ensures _) fun record => .orFail fun s h _ _ => ?_
    exact ⟨_, h.1.mono (fun _ => le_refl _) (List.nil_subset _)⟩

variable [Platform]

theorem validated_eq {d' : HostDraft} (h : d.validated = .ok d') : d'.id = d.id ∧
    d'.username = d.username ∧ d'.domain = d.domain ∧ d'.password = d.password ∧
    d'.gatewayUsername = d.gatewayUsername ∧ d'.gatewayDomain = d.gatewayDomain ∧
    d'.gatewayPassword = d.gatewayPassword := by
  unfold HostDraft.validated at h
  simp only at h
  iterate 5 (split at h; · cases h)
  split at h
  · cases h
  · cases h
    exact ⟨rfl, rfl, rfl, rfl, rfl, rfl, rfl⟩

theorem saveHost_done {draft : HostDraft} (hsc : sc.Save draft) :
    Tx.Ensures (fun s => s.db = db₀) (saveHost cx draft) fun _ s => ∃ n, Mid sc n cx [] s := by
  unfold saveHost
  cases hv : draft.validated with
  | error e => exact .fail e
  | ok d =>
    refine .ite (fun _ => .fail _) fun _ => saveDraft_done ?_
    obtain ⟨h₁, h₂, h₃, h₄, h₅, h₆, h₇⟩ := validated_eq hv
    exact ⟨h₁ ▸ hsc.row, h₁ ▸ h₂ ▸ h₃ ▸ h₄ ▸ hsc.login, h₁ ▸ h₅ ▸ h₆ ▸ h₇ ▸ hsc.gateway,
      h₁ ▸ h₂ ▸ h₅ ▸ hsc.release⟩

theorem forgetHostPassword_done (hsc : ∀ host, readHost db₀ id = some host → sc.Save host.withoutPassword) :
    Tx.Ensures (fun s => s.db = db₀) (forgetHostPassword cx id) fun _ s => ∃ n, Mid sc n cx [] s := by
  refine .bind (query_ensures _) fun row => ?_
  refine .bind (.orFail fun s h host hr => (⟨h.1, ?_⟩ :
    s.db = db₀ ∧ readHost db₀ id = some host)) fun host => .intro fun hr =>
      saveHost_done (hsc host hr)
  rw [← h.1, ← h.2, hr]

end UwuRdp
