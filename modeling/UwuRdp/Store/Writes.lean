import UwuRdp.Store.Import

/-!
# What a call on this device writes

Every call that edits something here ticks the clock and writes rows with a clock it got that way.
`Wrote` says it for a whole transaction against the database it started from: each row is as it was,
or new and waiting to be pushed, or rewritten with a clock issued since and waiting to be pushed. A
`Scope` says which rows may be rewritten, and which logins may lose their password.
-/

namespace UwuRdp

open Lib

/-! ## Clocks issued inside a transaction -/

/-- A clock this device issued since `db₀`, unless the clock has come to the last millisecond. -/
def Issued (device : UInt32) (db₀ db : Db) (c : Hlc) : Prop :=
  c.device = device ∧
    (db.clockWallMs.toNat < u64Max → db₀.clock device < c ∧ c ≤ db.clock device)

def Later (device : UInt32) (db db' : Db) : Prop :=
  db.clockWallMs ≤ db'.clockWallMs ∧
    (db'.clockWallMs.toNat < u64Max → db.clock device ≤ db'.clock device)

variable {device : UInt32} {db₀ db db' : Db} {c : Hlc}

theorem Later.refl (device : UInt32) (db : Db) : Later device db db :=
  ⟨UInt64.le_refl _, fun _ => le_refl _⟩

theorem Later.wall_lt (h : Later device db db') (hw : db'.clockWallMs.toNat < u64Max) :
    db.clockWallMs.toNat < u64Max :=
  lt_of_le_of_lt (UInt64.le_iff_toNat_le.mp h.1) hw

theorem Later.trans {db₁ : Db} (h : Later device db db₁) (h' : Later device db₁ db') : Later device db db' :=
  ⟨UInt64.le_trans h.1 h'.1, fun hw => (h.2 (h'.wall_lt hw)).trans (h'.2 hw)⟩

theorem Issued.mono (h : Issued device db₀ db c) (hl : Later device db db') : Issued device db₀ db' c :=
  ⟨h.1, fun hw => ⟨(h.2 (hl.wall_lt hw)).1, (h.2 (hl.wall_lt hw)).2.trans (hl.2 hw)⟩⟩

theorem Later.of_clock_eq (hw : db'.clockWallMs = db.clockWallMs)
    (hc : db'.clockCounter = db.clockCounter) : Later device db db' := by
  unfold Later Db.clock
  rw [hw, hc]
  exact Later.refl device db

theorem clock_setClock (db : Db) (hd : c.device = device) : (db.setClock c).clock device = c := by
  subst hd
  rfl

theorem later_tick (device : UInt32) (db : Db) (now : UInt64) :
    Later device db (db.setClock ((db.clock device).tick now)) := by
  have hd : ((db.clock device).tick now).device = device := Hlc.tick_device (db.clock device) now
  refine ⟨Hlc.wallMs_le_tick (db.clock device) now, fun hw => ?_⟩
  rw [clock_setClock db hd]
  exact (Hlc.lt_tick hw).le

theorem issued_tick {now : UInt64} (h : Later device db₀ db) :
    Issued device db₀ (db.setClock ((db.clock device).tick now)) ((db.clock device).tick now) := by
  have hl := later_tick device db now
  have hd : ((db.clock device).tick now).device = device := Hlc.tick_device (db.clock device) now
  refine ⟨hd, fun hw => ⟨?_, ?_⟩⟩
  · exact lt_of_le_of_lt (h.2 (hl.wall_lt hw)) (Hlc.lt_tick hw)
  · rw [clock_setClock db hd]

/-! ## Who points at what -/

/-- How often a row points at a login while it is live. -/
def points : (k : EntityKind) → Row (Body k) → Uuid → ℕ
  | .host, r, i => (if !r.deleted && r.body.identityId = some i then 1 else 0) +
      if !r.deleted && r.body.gatewayIdentityId = some i then 1 else 0
  | .group, r, i => if !r.deleted && r.body.identityId = some i then 1 else 0
  | _, _, _ => 0

def livePassword : (k : EntityKind) → Row (Body k) → Option Uuid
  | .identity, r => if r.deleted then none else r.body.passwordSecretId
  | _, _ => none

def password : (k : EntityKind) → Row (Body k) → Option Uuid
  | .identity, r => r.body.passwordSecretId
  | _, _ => none

theorem references_setRow (db : Db) (k : EntityKind) (id : Uuid) (r : Row (Body k)) (i : Uuid) : references
    (db.setRow k id r) i + ((db.row k id).elim 0 fun r' => points k r' i) = references db i + points k r i := by
  by_cases hh : k = .host
  · subst hh
    have h₁ := Table.length_select_set (db.rows .host)
      (fun _ r => !r.deleted && decide (r.body.identityId = some i)) id r
    have h₂ := Table.length_select_set (db.rows .host)
      (fun _ r => !r.deleted && decide (r.body.gatewayIdentityId = some i)) id r
    have hg : (db.setRow .host id r).rows .group = db.rows .group := Db.setTable_rows_ne _ (by decide)
    simp only [references, Db.setRow, Db.setTable_rows_self, points] at hg ⊢
    rw [hg]
    unfold Db.row
    cases hr : (db.rows .host).get? id with
    | none =>
      simp only [hr, Option.elim_none] at h₁ h₂ ⊢
      omega
    | some r' =>
      simp only [hr, Option.elim_some] at h₁ h₂ ⊢
      omega
  · have hhost : (db.setRow k id r).rows .host = db.rows .host := Db.setTable_rows_ne _ (fun h => hh h.symm)
    by_cases hg : k = .group
    · subst hg
      have h₁ := Table.length_select_set (db.rows .group)
        (fun _ r => !r.deleted && decide (r.body.identityId = some i)) id r
      simp only [references, Db.setRow, Db.setTable_rows_self, points] at hhost ⊢
      rw [hhost]
      unfold Db.row
      cases hr : (db.rows .group).get? id with
      | none =>
        simp only [hr, Option.elim_none] at h₁ ⊢
        omega
      | some r' =>
        simp only [hr, Option.elim_some] at h₁ ⊢
        omega
    · have hgroup : (db.setRow k id r).rows .group = db.rows .group := Db.setTable_rows_ne _ (fun h => hg h.symm)
      have hp : ∀ r', points k r' i = 0 := by
        intro r'
        cases k <;> first | rfl | exact absurd rfl hh | exact absurd rfl hg
      have ho : ((db.row k id).elim 0 fun r' => points k r' i) = 0 := by
        cases db.row k id with
        | none => rfl
        | some r' => exact hp r'
      rw [ho, hp, references, hhost, hgroup]
      rfl

theorem livePassword_identity {r : Row IdentityBody} {s : Uuid} :
    livePassword .identity r = some s ↔ r.deleted = false ∧ r.body.passwordSecretId = some s := by
  change (if r.deleted = true then none else r.body.passwordSecretId) = some s ↔ _
  cases r.deleted <;> simp

theorem secretUsed_of_livePassword {i s : Uuid} {r : Row IdentityBody} (hr : db.row .identity i = some r)
    (hp : livePassword .identity r = some s) : secretUsed db s = true := by
  obtain ⟨hd, hs⟩ := livePassword_identity.mp hp
  unfold secretUsed
  by_contra hn
  have hnone : (db.rows .identity).find?
      (fun _ r => !r.deleted && decide (r.body.passwordSecretId = some s)) = none := by
    simpa using hn
  have := Table.find?_none hnone hr
  simp [hs, hd] at this

/-! ## What a transaction wrote -/

/-- What a call may touch of the rows that were there: which ones it may rewrite, and which logins
may lose their password or be deleted. -/
structure Scope (db₀ : Db) where
  rows : EntityKind → Uuid → Prop
  dropped : Uuid → Prop
  new_rows : ∀ k id, db₀.row k id = none → rows k id

/-- The scope of a call about which nothing is asked. -/
def Scope.all (db₀ : Db) : Scope db₀ := ⟨fun _ _ => True, fun _ => True, fun _ _ _ => trivial⟩

/-- A password that may be forgotten, or that a login keeps which is not dropped. -/
def Scope.Forgettable (sc : Scope db₀) (s : Uuid) : Prop :=
  sc.rows .secret s ∨ ∃ i r, db₀.row .identity i = some r ∧ livePassword .identity r = some s ∧
    ¬sc.dropped i

/-- What became of the header of a row. -/
inductive Written (sc : Scope db₀) (device : UInt32) (db : Db) (k : EntityKind) (id : Uuid) :
    Option Head → Option Head → Prop where
  | same (h : Option Head) : Written sc device db k id h h
  | created (c : Hlc) (d : Bool) (hk : k ≠ .manifest) (hc : Issued device db₀ db c) :
      Written sc device db k id none (some ⟨c, d, true, 0⟩)
  /-- Only a host key that was forgotten comes back to life. -/
  | rewritten (h : Head) (c : Hlc) (d : Bool) (hk : k ≠ .manifest) (hw : sc.rows k id)
      (hd : k ≠ .knownHost → h.deleted ≤ d) (hc : Issued device db₀ db c) :
      Written sc device db k id (some h) (some ⟨c, d, true, h.serverSeq⟩)

def RefsClosed (db : Db) : Prop :=
  ∀ k id r, db.row k id = some r → ∀ ref ∈ Body.refs k r.body, (db.row ref.1 ref.2).isSome

def SlotsUnique (db : Db) : Prop :=
  ∀ i j r r', db.row .knownHost i = some r → db.row .knownHost j = some r' →
    r.body.address = r'.body.address → r.body.port = r'.body.port → i = j

/-- The part of the database that only pulling and pairing change. -/
structure SameBooks (db db' : Db) : Prop where
  vaultId : db'.vaultId = db.vaultId
  superseded : db'.superseded = db.superseded
  violations : db'.violations = db.violations
  cursor : db'.cursor = db.cursor
  floor : db'.floor = db.floor
  header : db'.header = db.header
  enrolment : db'.enrolment = db.enrolment
  lock : db'.lock = db.lock
  manifests : db'.rows .manifest = db.rows .manifest

/-- What a transaction has written since `db₀`, in which up to `n i` owners let go of a login `i`. -/
structure Wrote (sc : Scope db₀) (n : Uuid → ℕ) (device : UInt32) (db : Db) : Prop where
  later : Later device db₀ db
  heads : ∀ k id, Written sc device db k id (db₀.head k id) (db.head k id)
  frame : ∀ k id r, ¬sc.rows k id → db₀.row k id = some r → db.row k id = some r
  books : SameBooks db₀ db
  refs : RefsClosed db₀ → RefsClosed db
  slots : SlotsUnique db₀ → SlotsUnique db
  owners : ∀ i, references db₀ i ≤ references db i + n i
  /-- A login that is not dropped keeps its password. -/
  kept : ∀ i r s, db₀.row .identity i = some r → livePassword .identity r = some s →
    ¬sc.dropped i → ∃ r', db.row .identity i = some r' ∧ livePassword .identity r' = some s
  /-- A login's password is the one it had, or one made here. -/
  passwords : ∀ i r₀ r s, db₀.row .identity i = some r₀ → db.row .identity i = some r →
    r.body.passwordSecretId = some s → r₀.body.passwordSecretId = some s ∨ sc.rows .secret s

/-- What makes a rewritten row one that a call may write. -/
structure Rewrite (sc : Scope db₀) (n n' : Uuid → ℕ) (k : EntityKind) (id : Uuid)
    (r r' : Row (Body k)) : Prop where
  rows : sc.rows k id
  kind : k ≠ .manifest
  dirty : r'.dirty = true
  serverSeq : r'.serverSeq = r.serverSeq
  deleted : k ≠ .knownHost → r.deleted ≤ r'.deleted
  points : ∀ i, points k r i + n i ≤ points k r' i + n' i
  kept : ∀ s, livePassword k r = some s → (k = .identity ∧ sc.dropped id) ∨
    livePassword k r' = some s
  password : ∀ s, password k r' = some s → password k r = some s ∨ sc.rows .secret s

variable {sc : Scope db₀} {n n' : Uuid → ℕ} {k : EntityKind} {id : Uuid}

theorem SameBooks.refl (db : Db) : SameBooks db db := ⟨rfl, rfl, rfl, rfl, rfl, rfl, rfl, rfl, rfl⟩

theorem SameBooks.setRow (h : SameBooks db₀ db) (hk : k ≠ .manifest) (id : Uuid)
    (r : Row (Body k)) : SameBooks db₀ (db.setRow k id r) :=
  ⟨h.vaultId, h.superseded, h.violations, h.cursor, h.floor, h.header, h.enrolment, h.lock,
    (Db.setTable_rows_ne _ hk.symm).trans h.manifests⟩

theorem Wrote.refl (sc : Scope db₀) (device : UInt32) : Wrote sc (fun _ => 0) device db₀ where
  later := Later.refl device db₀
  heads _ _ := .same _
  frame _ _ _ _ h := h
  books := SameBooks.refl db₀
  refs h := h
  slots h := h
  owners _ := le_refl _
  kept _ r _ hr hp _ := ⟨r, hr, hp⟩
  passwords _ _ _ _ h₀ h hp := by
    rw [h₀] at h
    cases h
    exact .inl hp

theorem Written.mono {h h' : Option Head} (hw : Written sc device db k id h h')
    (hl : Later device db db') : Written sc device db' k id h h' := by
  cases hw with
  | same => exact .same _
  | created c d hk hc => exact .created c d hk (hc.mono hl)
  | rewritten h c d hk hw hd hc => exact .rewritten h c d hk hw hd (hc.mono hl)

theorem Wrote.isSome (h : Wrote sc n device db) (hr : (db₀.row k id).isSome) : (db.row k id).isSome := by
  have hw := h.heads k id
  cases h₁ : db.row k id with
  | some r => rfl
  | none =>
    rw [Db.head, Db.head, h₁] at hw
    cases h₀ : db₀.row k id with
    | none => rw [h₀] at hr; exact hr
    | some r =>
      rw [h₀] at hw
      cases hw

theorem row_eq_none_of_wrote (h : Wrote sc n device db) (hr : db.row k id = none) : db₀.row k id = none := by
  by_contra hn
  have := h.isSome (Option.isSome_iff_ne_none.mpr hn)
  rw [hr] at this
  cases this

theorem isSome_setRow (db : Db) (k : EntityKind) (id : Uuid) (r : Row (Body k)) {k' : EntityKind}
    {id' : Uuid} (h : (db.row k' id').isSome) : ((db.setRow k id r).row k' id').isSome := by
  by_cases hh : k' = k ∧ id' = id
  · obtain ⟨rfl, rfl⟩ := hh
    rw [Db.row_setRow_self]
    rfl
  · rw [Db.row_setRow_ne hh]
    exact h

theorem refs_of_admits {b : Body k} (ha : db.admits k id b = true) :
    ∀ ref ∈ Body.refs k b, (db.row ref.1 ref.2).isSome := by
  simp only [Db.admits, Db.refsExist, Bool.and_eq_true, List.all_eq_true] at ha
  exact ha.1

theorem RefsClosed.setRow {r : Row (Body k)} (h : RefsClosed db)
    (hr : ∀ ref ∈ Body.refs k r.body, (db.row ref.1 ref.2).isSome) : RefsClosed (db.setRow k id r) := by
  intro k' id' r' hr' ref href
  refine isSome_setRow db k id r ?_
  by_cases hh : k' = k ∧ id' = id
  · obtain ⟨rfl, rfl⟩ := hh
    rw [Db.row_setRow_self] at hr'
    cases hr'
    exact hr ref href
  · rw [Db.row_setRow_ne hh] at hr'
    exact h k' id' r' hr' ref href

theorem SlotsUnique.setRow {r : Row (Body k)} (h : SlotsUnique db)
    (ha : db.admits k id r.body = true) : SlotsUnique (db.setRow k id r) := by
  by_cases hk : k = .knownHost
  swap
  · intro i j ri rj hi hj
    rw [Db.row_setRow_ne (fun e => hk e.1.symm)] at hi hj
    exact h i j ri rj hi hj
  subst hk
  have free : ∀ i ri, db.row .knownHost i = some ri → ri.body.address = r.body.address →
      ri.body.port = r.body.port → i = id := by
    intro i ri hi hadr hport
    simp only [Db.admits, Db.slotFree, Bool.and_eq_true, Option.isNone_iff_eq_none] at ha
    have := Table.find?_none ha.2 hi
    simpa [hadr, hport] using this
  intro i j ri rj hi hj hadr hport
  by_cases hii : i = id
  · subst hii
    rw [Db.row_setRow_self] at hi
    cases hi
    by_cases hjj : j = i
    · exact hjj.symm
    · rw [Db.row_setRow_ne_id hjj] at hj
      exact (free j rj hj hadr.symm hport.symm).symm
  · rw [Db.row_setRow_ne_id hii] at hi
    by_cases hjj : j = id
    · subst hjj
      rw [Db.row_setRow_self] at hj
      cases hj
      exact free i ri hi hadr hport
    · rw [Db.row_setRow_ne_id hjj] at hj
      exact h i j ri rj hi hj hadr hport

theorem Wrote.insert (h : Wrote sc n device db) {b : Body k} (hn : db.row k id = none)
    (hk : k ≠ .manifest) (ha : db.admits k id b = true) (hc : Issued device db₀ db c) :
    Wrote sc n device (db.setRow k id (newRow c b)) := by
  have hl : Later device db (db.setRow k id (newRow c b)) := Later.of_clock_eq rfl rfl
  have hn₀ := row_eq_none_of_wrote h hn
  have other : ∀ {k' id' r'}, db₀.row k' id' = some r' → ¬(k' = k ∧ id' = id) := by
    rintro k' id' r' hr' ⟨rfl, rfl⟩
    rw [hn₀] at hr'
    cases hr'
  refine ⟨h.later.trans hl, fun k' id' => ?_, fun k' id' r' hw hr' => ?_, h.books.setRow hk _ _,
    fun hr => (h.refs hr).setRow (refs_of_admits ha), fun hs => (h.slots hs).setRow ha, fun i => ?_,
    fun i r' s hr' hp hd => ?_, fun i r₀ r' s h₀ hr' hp => ?_⟩
  · by_cases hh : k' = k ∧ id' = id
    · obtain ⟨rfl, rfl⟩ := hh
      rw [Db.head_setRow_self, Db.head_eq_none.mpr hn₀]
      exact .created c false hk (hc.mono hl)
    · rw [Db.head_setRow_ne hh]
      exact (h.heads k' id').mono hl
  · rw [Db.row_setRow_ne (other hr')]
    exact h.frame k' id' r' hw hr'
  · have hrs := references_setRow db k id (newRow c b) i
    have ho := h.owners i
    rw [hn, Option.elim_none] at hrs
    omega
  · rw [Db.row_setRow_ne (other hr')]
    exact h.kept i r' s hr' hp hd
  · rw [Db.row_setRow_ne (other h₀)] at hr'
    exact h.passwords i r₀ r' s h₀ hr' hp

theorem Wrote.rewrite (h : Wrote sc n device db) {r r' : Row (Body k)} (hr : db.row k id = some r)
    (ha : db.admits k id r'.body = true) (hw : Rewrite sc n n' k id r r')
    (hc : Issued device db₀ db r'.hlc) : Wrote sc n' device (db.setRow k id r') := by
  have hl : Later device db (db.setRow k id r') := Later.of_clock_eq rfl rfl
  refine ⟨h.later.trans hl, fun k' id' => ?_, fun k' id' r₀ hf h₀ => ?_,
    h.books.setRow hw.kind _ _, fun hr => (h.refs hr).setRow (refs_of_admits ha), fun hs => (h.slots hs).setRow ha,
    fun i => ?_, fun i r₀ s h₀ hp hd => ?_, fun i r₀ r₁ s h₀ h₁ hp => ?_⟩
  · by_cases hh : k' = k ∧ id' = id
    swap
    · rw [Db.head_setRow_ne hh]
      exact (h.heads k' id').mono hl
    obtain ⟨rfl, rfl⟩ := hh
    have hhead : r'.head = ⟨r'.hlc, r'.deleted, true, r.serverSeq⟩ := by
      rw [Row.head, hw.dirty, hw.serverSeq]
    have hwr := h.heads k' id'
    rw [Db.head_setRow_self, hhead]
    rw [Db.head_eq_some.mpr ⟨r, hr, rfl⟩] at hwr
    generalize hho : db₀.head k' id' = ho at hwr
    generalize hrh : some r.head = hn at hwr
    -- Rewritten once more: against the start it is new, or rewritten.
    cases hwr with
    | same =>
      cases hrh
      exact .rewritten r.head _ _ hw.kind hw.rows hw.deleted (hc.mono hl)
    | created c d hk hc' =>
      have hs : r.serverSeq = 0 := congrArg Head.serverSeq (Option.some.inj hrh)
      rw [hs]
      exact .created _ _ hk (hc.mono hl)
    | rewritten h₀ c d hk hw' hd' hc' =>
      have hs : r.serverSeq = h₀.serverSeq := congrArg Head.serverSeq (Option.some.inj hrh)
      have hdel : r.deleted = d := congrArg Head.deleted (Option.some.inj hrh)
      rw [hs]
      exact .rewritten h₀ _ _ hk hw' (fun hk' => (hd' hk').trans (hdel ▸ hw.deleted hk')) (hc.mono hl)
  · have hh : ¬(k' = k ∧ id' = id) := by
      rintro ⟨rfl, rfl⟩
      exact hf hw.rows
    rw [Db.row_setRow_ne hh]
    exact h.frame k' id' r₀ hf h₀
  · have hrs := references_setRow db k id r' i
    have ho := h.owners i
    have hp := hw.points i
    rw [hr, Option.elim_some] at hrs
    omega
  · obtain ⟨r₁, h₁, hp₁⟩ := h.kept i r₀ s h₀ hp hd
    by_cases hh : EntityKind.identity = k ∧ i = id
    · obtain ⟨rfl, rfl⟩ := hh
      rw [hr] at h₁
      cases h₁
      rcases hw.kept s hp₁ with hdr | hk
      · exact absurd hdr.2 hd
      · exact ⟨r', Db.row_setRow_self .., hk⟩
    · exact ⟨r₁, by rw [Db.row_setRow_ne hh]; exact h₁, hp₁⟩
  · by_cases hh : EntityKind.identity = k ∧ i = id
    · obtain ⟨rfl, rfl⟩ := hh
      rw [Db.row_setRow_self] at h₁
      cases h₁
      rcases hw.password s hp with hp' | hp'
      · exact h.passwords i r₀ r s h₀ hr hp'
      · exact .inr hp'
    · rw [Db.row_setRow_ne hh] at h₁
      exact h.passwords i r₀ r₁ s h₀ h₁ hp

end UwuRdp
