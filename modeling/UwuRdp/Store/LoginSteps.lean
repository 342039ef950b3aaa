import UwuRdp.Store.Calls

/-!
# What a login edit does

Each step of editing a login, as what it leaves of the rows that were there: a password sealed, a
login written in place or copied, a password forgotten, a login let go. The rules about logins are
proved from these and look at no transaction any more. Only rows are compared; a step also moves the
clock.
-/

namespace UwuRdp

open Lib

variable {cx : Session} {db db' db₁ db₂ : Db} {k : EntityKind} {id i j t : Uuid} {clock : Hlc}
  {s s' : TxState}

/-! ## Rows -/

theorem row_congr (h : db'.rows = db.rows) (k : EntityKind) (id : Uuid) : db'.row k id = db.row k id := by
  unfold Db.row
  rw [h]

theorem setRow_rows_congr (h : db'.rows = db.rows) (k : EntityKind) (id : Uuid) (r : Row (Body k)) :
    (db'.setRow k id r).rows = (db.setRow k id r).rows := by
  unfold Db.setRow Db.setTable
  simp only [h]

variable {u : Unit}

theorem insertRow_ok {r : Row (Body k)} (h : StoreTx.insertRow k id r s = .ok (u, s')) :
    s.db.row k id = none ∧ s.db.admits k id r.body = true ∧ s'.db = s.db.setRow k id r := by
  obtain ⟨ok, s₁, h₁, h⟩ := Tx.bind_eq_ok.mp h
  cases h₁
  obtain ⟨hok, h⟩ := Tx.require_bind_eq_ok.mp h
  cases h
  simp only [Bool.and_eq_true, Option.isNone_iff_eq_none] at hok
  exact ⟨hok.1, hok.2, rfl⟩

theorem updateRow_ok {f : Row (Body k) → Row (Body k)} (h : StoreTx.updateRow k id f s = .ok (u, s')) :
    (s.db.row k id = none ∧ s'.db = s.db) ∨ ∃ r, s.db.row k id = some r ∧ s.db.admits k id (f r).body = true ∧ s'.db =
    s.db.setRow k id (f r) := by
  obtain ⟨old, s₁, h₁, h⟩ := Tx.bind_eq_ok.mp h
  cases h₁
  cases hr : s.db.row k id with
  | none =>
    simp only [hr] at h
    cases h
    exact .inl ⟨rfl, rfl⟩
  | some r =>
    simp only [hr] at h
    obtain ⟨ok, s₁, h₁, h⟩ := Tx.bind_eq_ok.mp h
    cases h₁
    obtain ⟨hok, h⟩ := Tx.require_bind_eq_ok.mp h
    cases h
    exact .inr ⟨r, rfl, hok, rfl⟩

theorem updateRow_keeps {P : Db → Prop} {f : Row (Body k) → Row (Body k)}
    (hset : ∀ {db r}, P db → db.row k id = some r → P (db.setRow k id (f r))) :
    Tx.Ensures (fun s => P s.db) (StoreTx.updateRow k id f) fun _ s => P s.db := by
  intro s hs _ s' hm
  rcases updateRow_ok hm with ⟨-, he⟩ | ⟨r, hr, -, he⟩
  · exact he ▸ hs
  · exact he ▸ hset hs hr

theorem tombstoneLive_ok {f : Body k → Body k} (h : tombstoneLive k id clock f s = .ok (u, s')) :
    ((∀ r, s.db.row k id = some r → r.deleted = true) ∧ s'.db.rows = s.db.rows) ∨ ∃ r, s.db.row k id = some r ∧
    r.deleted = false ∧ s'.db.rows = (s.db.setRow k id (r.tombstone clock f)).rows := by
  rcases updateRow_ok h with ⟨hn, he⟩ | ⟨r, hr, -, he⟩
  · refine Or.inl ⟨fun r hr => ?_, by rw [he]⟩
    rw [hn] at hr
    cases hr
  · cases hd : r.deleted with
    | true =>
      rw [if_pos hd, setRow_same hr] at he
      refine Or.inl ⟨fun r' hr' => ?_, by rw [he]⟩
      rw [hr] at hr'
      cases hr'
      exact hd
    | false =>
      rw [hd, if_neg Bool.false_ne_true] at he
      exact Or.inr ⟨r, hr, hd, by rw [he]⟩

/-! ## Passwords -/

/-- A password is forgotten unless a live login uses it. -/
inductive Forgets (t : Uuid) (db db' : Db) : Prop
  | kept (used : secretUsed db t = true) (rows : db'.rows = db.rows)
  | gone (unused : secretUsed db t = false)
      (dead : ∀ r, db.row .secret t = some r → r.deleted = true) (rows : db'.rows = db.rows)
  | wiped {r : Row Sealed} {clock : Hlc} (unused : secretUsed db t = false)
      (row : db.row .secret t = some r) (live : r.deleted = false)
      (rows : db'.rows = (db.setRow .secret t (r.tombstone clock fun _ => Sealed.empty)).rows)

theorem releaseSecret_ok (h : releaseSecret cx t s = .ok (u, s')) : Forgets t s.db s'.db := by
  obtain ⟨used, s₁, h₁, h⟩ := Tx.bind_eq_ok.mp h
  cases h₁
  cases hu : secretUsed s.db t with
  | true =>
    simp only [hu, if_pos] at h
    cases h
    exact .kept hu rfl
  | false =>
    simp only [hu, Bool.false_eq_true, if_false] at h
    obtain ⟨c, s₂, h₂, h⟩ := Tx.bind_eq_ok.mp h
    obtain ⟨-, he⟩ := tick_eq_ok h₂
    have hrows : s₂.db.rows = s.db.rows := by rw [he]; rfl
    rcases tombstoneLive_ok h with ⟨hdead, hr⟩ | ⟨r, hr, hd, hr'⟩
    · exact .gone hu (fun r hr => hdead r ((row_congr hrows _ _).trans hr)) (hr.trans hrows)
    · exact .wiped hu ((row_congr hrows _ _).symm.trans hr) hd (hr'.trans (setRow_rows_congr hrows _ _ _))

def ForgetsAny (o : Option Uuid) (db db' : Db) : Prop :=
  match o with
  | none => db'.rows = db.rows
  | some t => Forgets t db db'

theorem releaseSecrets_ok {o : Option Uuid}
    (h : o.toList.forM (releaseSecret cx) s = .ok (u, s')) : ForgetsAny o s.db s'.db := by
  cases o with
  | none =>
    cases h
    exact rfl
  | some t =>
    obtain ⟨_, s₁, h₁, h⟩ := Tx.bind_eq_ok.mp h
    cases h
    exact releaseSecret_ok h₁

/-- The password a login gets: the one it has, none, or a new one sealed with the open vault. -/
inductive GetsSecret (cx : Session) (old : Option Uuid) (db db' : Db) :
    PasswordChange → Option Uuid → Prop
  | keep (rows : db'.rows = db.rows) : GetsSecret cx old db db' .keep old
  | forget (rows : db'.rows = db.rows) : GetsSecret cx old db db' .forget none
  | set {vault : UnlockedVault} {value : List UInt8} {t : Uuid} {clock : Hlc}
      (unlocked : cx.vault = some vault) (new : db.row .secret t = none)
      (rows : db'.rows = (db.setRow .secret t
        (newRow clock (vault.sealRecord t .secret (.bytes value)))).rows) :
      GetsSecret cx old db db' (.set value) (some t)

theorem newSecret_ok {old secret : Option Uuid} {change : PasswordChange}
    (h : newSecret cx old change s = .ok (secret, s')) : GetsSecret cx old s.db s'.db change secret := by
  cases change with
  | keep =>
    cases h
    exact .keep rfl
  | forget =>
    cases h
    exact .forget rfl
  | set value =>
    obtain ⟨vault, s₁, h₁, h⟩ := Tx.bind_eq_ok.mp h
    obtain ⟨t, s₂, h₂, h⟩ := Tx.bind_eq_ok.mp h
    cases h
    cases hv : cx.vault with
    | none => rw [hv] at h₁; cases h₁
    | some v =>
      rw [hv] at h₁
      cases h₁
      obtain ⟨i, s₃, h₃, h₂⟩ := Tx.bind_eq_ok.mp h₂
      obtain ⟨c, s₄, h₄, h₂⟩ := Tx.bind_eq_ok.mp h₂
      obtain ⟨_, s₅, h₅, h₂⟩ := Tx.bind_eq_ok.mp h₂
      cases h₂
      cases h₃
      obtain ⟨-, he⟩ := tick_eq_ok h₄
      have hrows : s₄.db.rows = s.db.rows := by rw [he]; rfl
      obtain ⟨hn, -, hs⟩ := insertRow_ok h₅
      exact .set hv ((row_congr hrows _ _).symm.trans hn) (by rw [hs]; exact setRow_rows_congr hrows _ _ _)

/-! ## Logins -/

def IdentityBody.withLogin (b : IdentityBody) (username domain : Text) (secret : Option Uuid) :
    IdentityBody :=
  { b with
    label := labelOf username domain, username, domain, authType := .password
    keyId := none, passwordSecretId := secret }

def newLogin (username domain : Text) (secret : Option Uuid) : IdentityBody :=
  ⟨labelOf username domain, username, domain, .password, none, secret, []⟩

/-- The owner's own login is rewritten, whatever row it is; one that others point at too stays, and
the owner gets a new one. -/
inductive WritesLogin (current : Option Uuid) (username domain : Text) (secret : Option Uuid)
    (db db' : Db) : Uuid → Prop
  | own {i : Uuid} {r : Row IdentityBody} {clock : Hlc} (owner : current = some i)
      (sole : references db i ≤ 1) (row : db.row .identity i = some r)
      (rows : db'.rows = (db.setRow .identity i
        (r.rewrite clock fun b => b.withLogin username domain secret)).rows) :
      WritesLogin current username domain secret db db' i
  | missing {i : Uuid} (owner : current = some i) (sole : references db i ≤ 1)
      (row : db.row .identity i = none) (rows : db'.rows = db.rows) :
      WritesLogin current username domain secret db db' i
  | new {i : Uuid} {clock : Hlc} (shared : ∀ j, current = some j → 1 < references db j)
      (row : db.row .identity i = none)
      (rows : db'.rows = (db.setRow .identity i
        (newRow clock (newLogin username domain secret))).rows) :
      WritesLogin current username domain secret db db' i

theorem writeLogin_ok {current secret : Option Uuid} {username domain : Text}
    (h : writeLogin cx current (current.any fun i => 1 < references s.db i) username domain secret
      clock s = .ok (i, s')) : WritesLogin current username domain secret s.db s'.db i := by
  have hnew : (∀ j, current = some j → 1 < references s.db j) →
      insertLogin cx (labelOf username domain) username domain secret clock s = .ok (i, s') →
      WritesLogin current username domain secret s.db s'.db i := by
    intro hshared h
    obtain ⟨x, s₁, h₁, h⟩ := Tx.bind_eq_ok.mp h
    obtain ⟨_, s₂, h₂, h⟩ := Tx.bind_eq_ok.mp h
    cases h
    cases h₁
    obtain ⟨hn, -, hs⟩ := insertRow_ok h₂
    exact .new hshared hn (by rw [hs]; rfl)
  cases current with
  | none => exact hnew (fun j hj => nomatch hj) h
  | some c =>
    rw [Option.any_some] at h
    by_cases hshared : 1 < references s.db c
    · rw [decide_eq_true hshared] at h
      exact hnew (fun j hj => Option.some.inj hj ▸ hshared) h
    · rw [decide_eq_false hshared] at h
      obtain ⟨_, s₁, h₁, h⟩ := Tx.bind_eq_ok.mp h
      cases h
      rcases updateRow_ok h₁ with ⟨hn, he⟩ | ⟨r, hr, -, he⟩
      · exact .missing rfl (Nat.not_lt.mp hshared) hn (by rw [he])
      · exact .own rfl (Nat.not_lt.mp hshared) hr (by rw [he]; rfl)

def replaced (old secret : Option Uuid) : PasswordChange → Option Uuid
  | .keep => none
  | _ => old.filter fun o => some o ≠ secret

/-- What a form does to the login an owner has today. -/
inductive AppliesLogin (cx : Session) (current : Option Uuid) (change : LoginChange) (db db' : Db) :
    AppliedLogin → Prop
  | drops (empty : Text.trim change.username = []) (rows : db'.rows = db.rows) :
      AppliesLogin cx current change db db' ⟨none, current⟩
  | gives {i : Uuid} {secret : Option Uuid} {db₁ db₂ : Db} (named : Text.trim change.username ≠ [])
      (got : GetsSecret cx (oldSecret db current) db db₁ change.password secret)
      (wrote : WritesLogin current (Text.trim change.username) (Text.trim change.domain) secret
        db₁ db₂ i)
      (forgot : ForgetsAny (replaced (oldSecret db current) secret change.password) db₂ db') :
      AppliesLogin cx current change db db' ⟨some i, none⟩

theorem applyLogin_ok {current : Option Uuid} {change : LoginChange} {field : String} {a : AppliedLogin}
    (h : applyLogin cx current change field clock s = .ok (a, s')) : AppliesLogin cx current change s.db s'.db a := by
  unfold applyLogin at h
  cases hc : checkLogin field change with
  | error e => rw [hc] at h; cases h
  | ok p =>
    obtain ⟨username, domain⟩ := p
    rw [hc] at h
    simp only at h
    obtain ⟨hu, hd⟩ := checkLogin_ok hc
    split at h
    · next hempty =>
      cases h
      exact .drops (by rw [← hu]; exact List.isEmpty_iff.mp hempty) rfl
    · next hnamed =>
      obtain ⟨old, s₁, h₁, h⟩ := Tx.bind_eq_ok.mp h
      cases h₁
      obtain ⟨secret, s₂, h₂, h⟩ := Tx.bind_eq_ok.mp h
      obtain ⟨shared, s₃, h₃, h⟩ := Tx.bind_eq_ok.mp h
      cases h₃
      obtain ⟨i, s₄, h₄, h⟩ := Tx.bind_eq_ok.mp h
      obtain ⟨_, s₅, h₅, h⟩ := Tx.bind_eq_ok.mp h
      cases h
      rw [hu, hd] at h₄
      refine .gives ?_ (newSecret_ok h₂) (writeLogin_ok h₄) ?_
      · rw [← hu]
        exact fun he => hnamed (List.isEmpty_iff.mpr he)
      · unfold releaseReplaced at h₅
        unfold replaced
        cases hp : change.password with
        | keep =>
          rw [hp] at h₅
          cases h₅
          exact rfl
        | set value | forget =>
          rw [hp] at h₅
          exact releaseSecrets_ok h₅

/-- A login nothing points at is tombstoned, and lets go of its password. -/
inductive Releases (i : Uuid) (db db' : Db) : Prop
  | kept (owned : 0 < references db i) (rows : db'.rows = db.rows)
  | gone (free : references db i = 0)
      (dead : ∀ r, db.row .identity i = some r → r.deleted = true) (rows : db'.rows = db.rows)
  | dropped {r : Row IdentityBody} {clock : Hlc} {db₁ : Db} (free : references db i = 0)
      (row : db.row .identity i = some r) (live : r.deleted = false)
      (rows : db₁.rows = (db.setRow .identity i (r.tombstone clock fun b => b)).rows)
      (forgot : ForgetsAny r.body.passwordSecretId db₁ db')

theorem releaseLogin_ok (h : releaseLogin cx clock i s = .ok (u, s')) : Releases i s.db s'.db := by
  obtain ⟨used, s₁, h₁, h⟩ := Tx.bind_eq_ok.mp h
  cases h₁
  split at h
  · next hused =>
    cases h
    exact .kept hused rfl
  · next hfree =>
    have hfree : references s.db i = 0 := Nat.eq_zero_of_not_pos hfree
    obtain ⟨row, s₁, h₁, h⟩ := Tx.bind_eq_ok.mp h
    cases h₁
    obtain ⟨_, s₂, h₂, h⟩ := Tx.bind_eq_ok.mp h
    rcases tombstoneLive_ok h₂ with ⟨hdead, hrows⟩ | ⟨r, hr, hd, hrows⟩
    · refine .gone hfree hdead ?_
      cases hr : s.db.row .identity i with
      | none =>
        simp only [hr] at h
        cases h
        exact hrows
      | some r =>
        simp only [hr, hdead r hr, if_true] at h
        cases h
        exact hrows
    · simp only [hr, hd, Bool.false_eq_true, if_false] at h
      exact .dropped hfree hr hd hrows (releaseSecrets_ok h)

/-- Logins are let go of one after the other. -/
inductive ReleasesAll : List Uuid → Db → Db → Prop
  | nil {db db' : Db} (rows : db'.rows = db.rows) : ReleasesAll [] db db'
  | cons {i : Uuid} {rest : List Uuid} {db db₁ db' : Db} (first : Releases i db db₁)
      (others : ReleasesAll rest db₁ db') : ReleasesAll (i :: rest) db db'

theorem releaseAll_ok {identities : List Uuid}
    (h : releaseAll cx clock identities s = .ok (u, s')) : ReleasesAll identities s.db s'.db := by
  induction identities generalizing s with
  | nil =>
    cases h
    exact .nil rfl
  | cons i rest ih =>
    obtain ⟨_, s₁, h₁, h⟩ := Tx.bind_eq_ok.mp h
    exact .cons (releaseLogin_ok h₁) (ih h)

theorem GetsSecret.congr {old secret : Option Uuid} {change : PasswordChange}
    (h : GetsSecret cx old db db' change secret) (hr : db.rows = db₁.rows) :
    GetsSecret cx old db₁ db' change secret := by
  cases h with
  | keep he => exact .keep (he.trans hr)
  | forget he => exact .forget (he.trans hr)
  | set hv hn he =>
    exact .set hv ((row_congr hr _ _).symm.trans hn) (he.trans (setRow_rows_congr hr _ _ _))

theorem AppliesLogin.congr {current : Option Uuid} {change : LoginChange} {a : AppliedLogin}
    (h : AppliesLogin cx current change db db' a) (hr : db.rows = db₁.rows) :
    AppliesLogin cx current change db₁ db' a := by
  have hold : oldSecret db current = oldSecret db₁ current := by
    unfold oldSecret Db.row
    rw [hr]
  cases h with
  | drops hn he => exact .drops hn (he.trans hr)
  | gives hn hg hw hf =>
    rw [hold] at hg hf
    exact .gives hn (hg.congr hr) hw hf

/-! ## What stays -/

theorem rows_setRow_ne {r : Row (Body k)} {k' : EntityKind} (h : k' ≠ k) :
    (db.setRow k id r).rows k' = db.rows k' := Db.setTable_rows_ne _ h

theorem references_congr (hh : db'.rows .host = db.rows .host)
    (hg : db'.rows .group = db.rows .group) (i : Uuid) : references db' i = references db i := by
  unfold references
  rw [hh, hg]

theorem secretUsed_congr (h : db'.rows .identity = db.rows .identity) (t : Uuid) :
    secretUsed db' t = secretUsed db t := by
  unfold secretUsed
  rw [h]

namespace Forgets

theorem rows_ne (h : Forgets t db db') (hk : k ≠ .secret) : db'.rows k = db.rows k := by
  cases h with
  | kept _ hr | gone _ _ hr => rw [hr]
  | wiped _ _ _ hr => rw [hr, rows_setRow_ne hk]

theorem secret_ne (h : Forgets t db db') {u : Uuid} (hu : u ≠ t) : db'.row .secret u = db.row .secret u := by
  cases h with
  | kept _ hr | gone _ _ hr => exact row_congr hr _ _
  | wiped _ _ _ hr => rw [row_congr hr, Db.row_setRow_ne_id hu]

theorem secret_of_used (h : Forgets t db db') {u : Uuid} (hu : secretUsed db u = true) :
    db'.row .secret u = db.row .secret u := by
  by_cases he : u = t
  · subst he
    cases h with
    | kept _ hr => exact row_congr hr _ _
    | gone hn | wiped hn => rw [hu] at hn; cases hn
  · exact h.secret_ne he

theorem secret_dead (h : Forgets t db db') (hu : secretUsed db t = false) {r : Row Sealed}
    (hr : db'.row .secret t = some r) : r.deleted = true := by
  cases h with
  | kept hk _ => rw [hu] at hk; cases hk
  | gone _ hd he => exact hd r ((row_congr he _ _).symm.trans hr)
  | wiped _ _ _ he =>
    rw [row_congr he, Db.row_setRow_self] at hr
    cases hr
    rfl

end Forgets

namespace ForgetsAny

variable {o : Option Uuid}

theorem rows_ne (h : ForgetsAny o db db') (hk : k ≠ .secret) : db'.rows k = db.rows k := by
  cases o with
  | none => exact congrFun h k
  | some t => exact Forgets.rows_ne h hk

variable {u : Uuid}

theorem secret_of_used (h : ForgetsAny o db db') (hu : secretUsed db u = true) :
    db'.row .secret u = db.row .secret u := by
  cases o with
  | none => exact row_congr h _ _
  | some t => exact Forgets.secret_of_used h hu

theorem secret_isSome (h : ForgetsAny o db db') (hu : (db.row .secret u).isSome) : (db'.row .secret u).isSome := by
  cases o with
  | none => rw [row_congr h]; exact hu
  | some t =>
    cases h with
    | kept _ hr | gone _ _ hr => rw [row_congr hr]; exact hu
    | wiped _ _ _ hr => rw [row_congr hr]; exact isSome_setRow _ _ _ _ hu

theorem secret_ne (h : ForgetsAny o db db') (hu : o ≠ some u) : db'.row .secret u = db.row .secret u := by
  cases o with
  | none => exact row_congr h _ _
  | some t => exact Forgets.secret_ne h fun he => hu (congrArg some he.symm)

end ForgetsAny

namespace GetsSecret

variable {old secret : Option Uuid} {change : PasswordChange}

theorem rows_ne (h : GetsSecret cx old db db' change secret) (hk : k ≠ .secret) : db'.rows k = db.rows k := by
  cases h with
  | keep hr | forget hr => rw [hr]
  | set _ _ hr => rw [hr, rows_setRow_ne hk]

theorem secret_some (h : GetsSecret cx old db db' change secret) {u : Uuid} {r : Row Sealed}
    (hr : db.row .secret u = some r) : db'.row .secret u = some r := by
  cases h with
  | keep he | forget he => rw [row_congr he, hr]
  | set _ hn he =>
    rw [row_congr he, Db.row_setRow_ne_id, hr]
    rintro rfl
    rw [hn] at hr
    cases hr

end GetsSecret

namespace WritesLogin

variable {current secret : Option Uuid} {username domain : Text}

theorem rows_ne (h : WritesLogin current username domain secret db db' i) (hk : k ≠ .identity) :
    db'.rows k = db.rows k := by
  cases h with
  | own _ _ _ hr => rw [hr, rows_setRow_ne hk]
  | missing _ _ _ hr => rw [hr]
  | new _ _ hr => rw [hr, rows_setRow_ne hk]

theorem identity_ne (h : WritesLogin current username domain secret db db' i) (hj : j ≠ i) :
    db'.row .identity j = db.row .identity j := by
  cases h with
  | own _ _ _ hr => rw [row_congr hr, Db.row_setRow_ne_id hj]
  | missing _ _ _ hr => rw [row_congr hr]
  | new _ _ hr => rw [row_congr hr, Db.row_setRow_ne_id hj]

end WritesLogin

theorem points_le_references {r : Row (Body k)} (hr : db.row k id = some r) (i : Uuid) :
    points k r i ≤ references db i := by
  have hset := references_setRow db k id { r with deleted := true } i
  have hzero : points k { r with deleted := true } i = 0 := by
    cases k <;> rfl
  rw [hr, Option.elim_some, hzero] at hset
  omega

/-- A login, with its password while it is live, is as it was. -/
structure LoginKept (db db' : Db) (j : Uuid) : Prop where
  row : db'.row .identity j = db.row .identity j
  secret : ∀ r t p, db.row .identity j = some r → r.deleted = false →
    r.body.passwordSecretId = some t → db.row .secret t = some p → db'.row .secret t = some p

theorem LoginKept.of_rows (hi : db'.rows .identity = db.rows .identity)
    (hs : db'.rows .secret = db.rows .secret) (j : Uuid) : LoginKept db db' j := by
  refine ⟨?_, fun r t p _ _ _ hp => ?_⟩
  · unfold Db.row
    rw [hi]
  · rw [← hp]
    unfold Db.row
    rw [hs]

theorem LoginKept.trans (h : LoginKept db db₁ j) (h' : LoginKept db₁ db' j) : LoginKept db db' j :=
  ⟨h'.row.trans h.row, fun r t p hr hd ht hp =>
    h'.secret r t p (h.row.trans hr) hd ht (h.secret r t p hr hd ht hp)⟩

theorem secretUsed_of_row {r : Row IdentityBody} (hr : db.row .identity j = some r)
    (hd : r.deleted = false) (hp : r.body.passwordSecretId = some t) : secretUsed db t = true :=
  secretUsed_of_livePassword hr (livePassword_identity.mpr ⟨hd, hp⟩)

theorem ForgetsAny.kept {o : Option Uuid} (h : ForgetsAny o db db') (j : Uuid) : LoginKept db db' j := by
  have hi : db'.rows .identity = db.rows .identity := h.rows_ne (by decide)
  refine ⟨?_, fun r t p hr hd ht hp => (h.secret_of_used (secretUsed_of_row hr hd ht)).trans hp⟩
  unfold Db.row
  rw [hi]

namespace Releases

theorem rows_ne (h : Releases i db db') (hi : k ≠ .identity) (hs : k ≠ .secret) : db'.rows k = db.rows k := by
  cases h with
  | kept _ hr | gone _ _ hr => rw [hr]
  | dropped _ _ _ hr hf => rw [hf.rows_ne hs, hr, rows_setRow_ne hi]

theorem loginKept (h : Releases i db db') (hj : j = i → 0 < references db i) : LoginKept db db' j := by
  cases h with
  | kept _ hr | gone _ _ hr => exact .of_rows (by rw [hr]) (by rw [hr]) j
  | dropped hfree _ _ hr hf =>
    have hne : j ≠ i := fun he => absurd (hj he) (by omega)
    refine LoginKept.trans ⟨?_, fun r t p _ _ _ hp => ?_⟩ (hf.kept j)
    · rw [row_congr hr, Db.row_setRow_ne_id hne]
    · rw [row_congr hr, Db.row_setRow_ne_kind (by decide), hp]

end Releases

namespace ReleasesAll

variable {identities : List Uuid}

theorem rows_ne (h : ReleasesAll identities db db') (hi : k ≠ .identity) (hs : k ≠ .secret) :
    db'.rows k = db.rows k := by
  induction h with
  | nil hr => rw [hr]
  | cons hf _ ih => rw [ih, hf.rows_ne hi hs]

theorem loginKept (h : ReleasesAll identities db db') (hj : j ∈ identities → 0 < references db j) :
    LoginKept db db' j := by
  induction h with
  | nil hr => exact .of_rows (by rw [hr]) (by rw [hr]) j
  | @cons i rest db db₁ db' hf _ ih =>
    refine (hf.loginKept fun he => he ▸ hj (he ▸ List.mem_cons_self)).trans (ih fun hm => ?_)
    rw [references_congr (hf.rows_ne (by decide) (by decide)) (hf.rows_ne (by decide) (by decide))]
    exact hj (List.mem_cons_of_mem i hm)

end ReleasesAll

namespace AppliesLogin

variable {current : Option Uuid} {change : LoginChange} {a : AppliedLogin}

section Applying

variable (h : AppliesLogin cx current change db db' a)

include h

theorem rows_ne (hi : k ≠ .identity) (hs : k ≠ .secret) : db'.rows k = db.rows k := by
  cases h with
  | drops _ hr => rw [hr]
  | gives _ hg hw hf => rw [hf.rows_ne hs, hw.rows_ne hi, hg.rows_ne hs]

theorem kept_of_ne (hj : a.identity ≠ some j) : LoginKept db db' j := by
  cases h with
  | drops _ hr => exact .of_rows (by rw [hr]) (by rw [hr]) j
  | @gives i secret db₁ db₂ _ hg hw hf =>
    have hne : j ≠ i := fun he => hj (congrArg some he.symm)
    refine LoginKept.trans ⟨?_, fun r t p _ _ _ hp => ?_⟩ (hf.kept j)
    · rw [hw.identity_ne hne]
      unfold Db.row
      rw [hg.rows_ne (by decide)]
    · unfold Db.row
      rw [hw.rows_ne (by decide)]
      exact hg.secret_some hp

theorem loginKept (hj : (db.row .identity j).isSome)
    (ho : current = some j → 1 < references db j) : LoginKept db db' j ∧ a.identity ≠ some j := by
  have hne : a.identity ≠ some j := by
    intro he
    cases h with
    | drops => cases he
    | @gives i secret db₁ db₂ _ hg hw hf =>
      cases he
      have hrefs : references db₁ j = references db j :=
        references_congr (hg.rows_ne (by decide)) (hg.rows_ne (by decide)) j
      cases hw with
      | own hc hsole _ _ | missing hc hsole _ _ => have := ho hc; omega
      | new _ hn _ =>
        unfold Db.row at hn hj
        rw [hg.rows_ne (by decide)] at hn
        rw [hn] at hj
        cases hj
  exact ⟨h.kept_of_ne hne, hne⟩

theorem eq_of_identity (hi : a.identity = some i) : a = ⟨some i, none⟩ := by
  cases h with
  | drops => cases hi
  | gives => cases hi; rfl

theorem given_isSome (hi : a.identity = some i)
    (hc : ∀ j, current = some j → (db.row .identity j).isSome) : (db'.row .identity i).isSome := by
  cases h with
  | drops => cases hi
  | @gives x secret db₁ db₂ _ hg hw hf =>
    cases hi
    rw [(hf.kept _).row]
    cases hw with
    | own _ _ _ hr => rw [row_congr hr, Db.row_setRow_self]; rfl
    | missing hcur _ hnone _ =>
      have hsome := hc _ hcur
      have hrow : db₁.row .identity i = db.row .identity i := by
        unfold Db.row
        rw [hg.rows_ne (by decide)]
      rw [← hrow, hnone] at hsome
      cases hsome
    | new _ _ hr => rw [row_congr hr, Db.row_setRow_self]; rfl

theorem secret_isSome (ht : (db.row .secret t).isSome) : (db'.row .secret t).isSome := by
  cases h with
  | drops _ hr => rw [row_congr hr]; exact ht
  | @gives i secret db₁ db₂ _ hg hw hf =>
    obtain ⟨p, hp⟩ := Option.isSome_iff_exists.mp ht
    refine hf.secret_isSome ?_
    unfold Db.row
    rw [hw.rows_ne (by decide)]
    exact Option.isSome_iff_exists.mpr ⟨p, hg.secret_some hp⟩

theorem identity_isSome (hj : (db.row .identity j).isSome) : (db'.row .identity j).isSome := by
  cases h with
  | drops _ hr => rw [row_congr hr]; exact hj
  | @gives i secret db₁ db₂ _ hg hw hf =>
    have hrow : db₁.row .identity j = db.row .identity j := by
      unfold Db.row
      rw [hg.rows_ne (by decide)]
    rw [(hf.kept j).row]
    rw [← hrow] at hj
    cases hw with
    | own _ _ _ hr => rw [row_congr hr]; exact isSome_setRow _ _ _ _ hj
    | missing _ _ _ hr => rw [row_congr hr]; exact hj
    | new _ _ hr => rw [row_congr hr]; exact isSome_setRow _ _ _ _ hj

end Applying

end AppliesLogin

end UwuRdp
