import UwuRdp.Lib.Completes
import UwuRdp.Lib.Sort
import UwuRdp.Store.Nesting
import Mathlib.Data.List.Forall2

/-!
# What an import leaves in an empty store

An import of a set that is in shape goes through, and leaves exactly what it was given: its groups in
their order, the hosts it takes in theirs, a login of its own for each owner that has one, and the
certificates of those hosts. Where each is placed is a matter of counting: groups are numbered per
workspace, hosts per group.
-/

namespace UwuRdp

open Lib

variable {cx : Session} {db db' db₀ : Db} {k : EntityKind} {id : Uuid} {s s' : TxState} {clock : Hlc}
  {v : UnlockedVault} {set : ImportSet}

/-! ## Steps that go through -/

variable {r : Row (Body k)} {identity : Option Uuid}

theorem insertRow_go (hn : s.db.row k id = none) (ha : s.db.admits k id r.body = true) :
    StoreTx.insertRow k id r s = .ok ((), ⟨s.db.setRow k id r, s.asked⟩) := by
  have hok : ((s.db.row k id).isNone && s.db.admits k id r.body) = true := by
    rw [hn, ha]
    rfl
  show (Tx.require (((s.db.row k id).isNone && s.db.admits k id r.body) = true) StoreError.sqlite >>= fun _ =>
    StoreTx.execute fun db => db.setRow k id r) s = _
  rw [Tx.require, if_pos hok]
  rfl

theorem updateRow_go {f : Row (Body k) → Row (Body k)} (hr : s.db.row k id = some r)
    (ha : s.db.admits k id (f r).body = true) :
    StoreTx.updateRow k id f s = .ok ((), ⟨s.db.setRow k id (f r), s.asked⟩) := by
  have hgiven : StoreTx.query (fun db => db.row k id) s = .ok (some r, s) := congrArg (fun o => Except.ok (o, s)) hr
  unfold StoreTx.updateRow
  rw [Tx.bind_of_ok hgiven]
  show (Tx.require (s.db.admits k id (f r).body = true) StoreError.sqlite >>= fun _ =>
    StoreTx.execute fun db => db.setRow k id (f r)) s = _
  rw [Tx.require, if_pos ha]
  rfl

theorem admits_of_refs {b : Body k} (hk : k ≠ .knownHost)
    (h : ∀ ref ∈ Body.refs k b, db.row ref.1 ref.2 ≠ none) : db.admits k id b = true := by
  have hslot : db.slotFree id k b = true := by
    cases k with
    | knownHost => exact absurd rfl hk
    | _ => rfl
  unfold Db.admits Db.refsExist
  rw [hslot, Bool.and_true, List.all_eq_true]
  exact fun ref hm => Option.isSome_iff_ne_none.mpr (h ref hm)

/-- What only looks at the rows, and at how many answers of the system are used up at least. -/
def Rowwise (P : TxState → Prop) : Prop :=
  ∀ s s', P s → s'.db.rows = s.db.rows → s.asked ≤ s'.asked → P s'

variable {P : TxState → Prop} {α β : Type} {secret : Option Uuid} {password : Option (List UInt8)}
  {l : Option LoginInput}

theorem Rowwise.and {Q : TxState → Prop} (hP : Rowwise P) (hQ : Rowwise Q) : Rowwise fun s => P s ∧ Q s :=
  fun s s' h hr ha => ⟨hP s s' h.1 hr ha, hQ s s' h.2 hr ha⟩

theorem tick_completes (hP : Rowwise P) : Tx.Completes P (StoreTx.tick cx) fun _ => P :=
  fun s hs => ⟨_, _, rfl, hP s _ hs rfl (Nat.le_succ _)⟩

theorem query_completes (f : Db → α) : Tx.Completes P (StoreTx.query f) fun a s => P s ∧ a = f s.db :=
  fun s hs => ⟨_, s, rfl, hs, rfl⟩

def Spare (cx : Session) (s : TxState) : Prop :=
  ∀ k id, s.db.row k id ≠ none → ∃ n, n < s.asked ∧ id = cx.newId n

def Unused (cx : Session) (id : Uuid) (s : TxState) : Prop :=
  (∃ n, n < s.asked ∧ id = cx.newId n) ∧ ∀ k, s.db.row k id = none

theorem spare_rowwise : Rowwise (Spare cx) := by
  intro s s' h hr ha k id hid
  rw [row_congr hr] at hid
  obtain ⟨n, hn, he⟩ := h k id hid
  exact ⟨n, hn.trans_le ha, he⟩

theorem unused_rowwise : Rowwise (Unused cx id) := by
  intro s s' h hr ha
  obtain ⟨⟨n, hn, he⟩, hfree⟩ := h
  exact ⟨⟨n, hn.trans_le ha, he⟩, fun k => (row_congr hr k id).trans (hfree k)⟩

theorem Spare.unused (h : Spare cx s) (hnew : Function.Injective cx.newId) {n : ℕ} (hn : s.asked ≤ n) (k : EntityKind) :
    s.db.row k (cx.newId n) = none := by
  by_contra hused
  obtain ⟨m, hm, he⟩ := h k _ hused
  exact absurd (hnew he) (Nat.ne_of_gt (hm.trans_le hn))

theorem Unused.row_kept {k₂ : EntityKind} {id₂ : Uuid} {r₂ : Row (Body k₂)} (h : Unused cx id s)
    (hr : s.db.row k₂ id₂ = some r₂) : (s.db.setRow k id r).row k₂ id₂ = some r₂ := by
  refine (Db.row_setRow_ne fun hself => ?_).trans hr
  rw [hself.2, h.2 k₂] at hr
  cases hr

theorem Unused.entries_setRow (h : Unused cx id s) :
    ((s.db.setRow k id r).rows k).entries = (s.db.rows k).entries ++ [(id, r)] := by
  rw [Db.setRow, Db.setTable_rows_self]
  exact Table.entries_set_of_none r (h.2 k)

theorem nowV7_completes (hP : Rowwise P) (hnew : Function.Injective cx.newId) :
    Tx.Completes (fun s => P s ∧ Spare cx s) (StoreTx.nowV7 cx) fun id s => (P s ∧ Spare cx s) ∧ Unused cx id s := by
  intro s hs
  refine ⟨cx.newId s.asked, ⟨s.db, s.asked + 1⟩, rfl, (hP.and spare_rowwise) s _ hs rfl (Nat.le_succ _),
    ⟨s.asked, Nat.lt_succ_self _, rfl⟩, hs.2.unused hnew le_rfl⟩

theorem Spare.setRow (h : Spare cx s) (hid : ∃ n, n < s.asked ∧ id = cx.newId n) :
    Spare cx ⟨s.db.setRow k id r, s.asked⟩ := by
  intro k₂ id₂ hused
  by_cases hself : k₂ = k ∧ id₂ = id
  · exact hself.2 ▸ hid
  · rw [Db.row_setRow_ne hself] at hused
    exact h k₂ id₂ hused

/-! ## Logins -/

def ImportSet.loginAt (set : ImportSet) (index : Option ℕ) : Option LoginInput :=
  index.bind fun i => set.logins[i]?

def LoginInput.credentials (l : LoginInput) : Credentials :=
  (l.username, l.domain, .ok (l.password.map Payload.bytes))

/-- A login the form would take as it is, with a password or none. -/
structure LoginInput.Clean (l : LoginInput) : Prop where
  named : l.username ≠ []
  username : cleanUsername "username" l.username = .ok l.username
  domain : cleanDomain "domain" l.domain = .ok l.domain
  password : l.password ≠ some []

def PasswordFilled (v : UnlockedVault) (db : Db) (secret : Option Uuid) : Option (List UInt8) → Prop
  | none => secret = none
  | some bytes => ∃ t p, secret = some t ∧ db.row .secret t = some p ∧ p.deleted = false ∧
      v.openRecord t .secret p.body = some (.bytes bytes)

/-- An owner points at a login of its own that is the one it was given. -/
def LoginFilled (v : UnlockedVault) (db : Db) (identity : Option Uuid) : Option LoginInput → Prop
  | none => identity = none
  | some l => ∃ i r, identity = some i ∧ db.row .identity i = some r ∧ r.deleted = false ∧
      r.body.username = l.username ∧ r.body.domain = l.domain ∧
      PasswordFilled v db r.body.passwordSecretId l.password

/-- Rows that are there stay as they are; only logins and passwords are added. -/
structure Grows (cx : Session) (db₀ : Db) (s : TxState) : Prop where
  others : ∀ k, k ≠ .identity → k ≠ .secret → s.db.rows k = db₀.rows k
  kept : ∀ k id r, db₀.row k id = some r → s.db.row k id = some r
  spare : Spare cx s

theorem grows_rowwise : Rowwise (Grows cx db₀) := by
  intro s s' h hr ha
  refine ⟨fun k hi hs => ?_, fun k id r hrow => ?_, spare_rowwise s s' h.spare hr ha⟩
  · rw [hr]
    exact h.others k hi hs
  · rw [row_congr hr]
    exact h.kept k id r hrow

theorem Grows.refl (h : Spare cx s) : Grows cx s.db s := ⟨fun _ _ _ => rfl, fun _ _ _ hr => hr, h⟩

theorem Grows.setRow (h : Grows cx db₀ s) (hk : k = .identity ∨ k = .secret)
    (hid : Unused cx id s) : Grows cx db₀ ⟨s.db.setRow k id r, s.asked⟩ := by
  refine ⟨fun k₂ hi hs => ?_, fun k₂ id₂ r₂ hr₂ => ?_, h.spare.setRow hid.1⟩
  · have hne : k₂ ≠ k := by
      rintro rfl
      exact hk.elim hi hs
    exact (rows_setRow_ne hne).trans (h.others k₂ hi hs)
  · exact hid.row_kept (h.kept k₂ id₂ r₂ hr₂)

theorem PasswordFilled.mono (h : PasswordFilled v db secret password)
    (hk : ∀ k id r, db.row k id = some r → db'.row k id = some r) : PasswordFilled v db' secret password := by
  cases password with
  | none => exact h
  | some bytes =>
    obtain ⟨t, p, ht, hp, hd, ho⟩ := h
    exact ⟨t, p, ht, hk _ _ _ hp, hd, ho⟩

theorem LoginFilled.mono (h : LoginFilled v db identity l)
    (hk : ∀ k id r, db.row k id = some r → db'.row k id = some r) : LoginFilled v db' identity l := by
  cases l with
  | none => exact h
  | some l =>
    obtain ⟨i, r, hi, hr, hd, hu, hdom, hp⟩ := h
    exact ⟨i, r, hi, hk _ _ _ hr, hd, hu, hdom, hp.mono hk⟩

theorem PasswordFilled.there {t : Uuid}
    (h : PasswordFilled v db secret password) (ht : secret = some t) : db.row .secret t ≠ none := by
  cases password with
  | none => exact absurd (ht.symm.trans h) (Option.some_ne_none t)
  | some bytes =>
    obtain ⟨t', p, ht', hp, -⟩ := h
    rw [ht] at ht'
    cases ht'
    rw [hp]
    exact Option.some_ne_none p

theorem LoginFilled.there {i : Uuid}
    (h : LoginFilled v db identity l) (hi : identity = some i) : db.row .identity i ≠ none := by
  cases l with
  | none => exact absurd (hi.symm.trans h) (Option.some_ne_none i)
  | some l =>
    obtain ⟨i', r, hi', hr, -⟩ := h
    rw [hi] at hi'
    cases hi'
    rw [hr]
    exact Option.some_ne_none r

theorem LoginFilled.credentials (h : LoginFilled v db identity l)
    (hn : ∀ x, l = some x → x.username ≠ []) : credentials db (some v) identity = l.map LoginInput.credentials := by
  cases l with
  | none =>
    rw [show identity = none from h]
    rfl
  | some l =>
    obtain ⟨i, r, rfl, hr, hd, hu, hdom, hp⟩ := h
    rw [credentials_live hr hd (by rw [hu]; exact hn l rfl), Option.map_some, LoginInput.credentials, hu, hdom]
    cases hpass : l.password with
    | none =>
      rw [hpass] at hp
      rw [show r.body.passwordSecretId = none from hp]
      rfl
    | some bytes =>
      rw [hpass] at hp
      obtain ⟨t, p, ht, hprow, hpd, hopen⟩ := hp
      have hreveal : revealSecret db (some v) t = .ok (.bytes bytes) := by
        unfold revealSecret
        rw [hprow, Option.filter_some, hpd, Bool.not_false, if_pos rfl]
        dsimp only
        rw [hopen]
      rw [ht]
      dsimp only
      rw [hreveal]
      rfl

section Logins

variable (hnew : Function.Injective cx.newId) (hv : cx.vault = some v)

include hnew

theorem sealSecret_completes (bytes : List UInt8) : Tx.Completes (Grows cx db₀) (sealSecret cx v bytes) fun t s =>
    Grows cx db₀ s ∧ PasswordFilled v s.db (some t) (some bytes) := by
  refine .bind (.conseq (nowV7_completes grows_rowwise hnew)
    (fun s h => ⟨h, h.spare⟩) fun _ _ h => h) fun t => ?_
  refine .bind (tick_completes ((grows_rowwise.and spare_rowwise).and unused_rowwise)) fun clock => ?_
  intro s hs
  have hgo := insertRow_go (r := newRow clock (v.sealRecord t .secret (.bytes bytes))) (hs.2.2 .secret) rfl
  refine ⟨t, _, Tx.bind_of_ok hgo, hs.1.1.setRow (.inr rfl) hs.2, t, _, rfl, Db.row_setRow_self .., rfl, ?_⟩
  exact if_pos ⟨rfl, rfl, rfl, rfl⟩

include hv

theorem importSecret_completes {password : Option (List UInt8)} (hp : password ≠ some []) :
    Tx.Completes (Grows cx db₀) (importSecret cx password) fun secret s => Grows cx db₀ s ∧
      PasswordFilled v s.db secret password := by
  cases password with
  | none => exact .pure _ fun s hs => ⟨hs, rfl⟩
  | some bytes =>
    refine .ite (fun hempty => ?_) fun _ => ?_
    · exact absurd (congrArg some (List.isEmpty_iff.mp hempty)) hp
    · rw [hv]
      show Tx.Completes _ (sealSecret cx v bytes >>= fun id => pure (some id)) _
      exact .bind (sealSecret_completes hnew bytes) fun t => .pure _ fun s hs => hs

theorem importLogin_completes {index : Option ℕ} (hl : ∀ l, set.loginAt index = some l → l.Clean) :
    Tx.Completes (Grows cx db₀) (importLogin cx set index) fun o s => Grows cx db₀ s ∧
      LoginFilled v s.db o (set.loginAt index) := by
  unfold importLogin
  change Tx.Completes _ (match set.loginAt index with
    | none => pure none
    | some input => _) _
  cases hinput : set.loginAt index with
  | none => exact .pure _ fun s hs => ⟨hs, rfl⟩
  | some l =>
    have hclean := hl l hinput
    dsimp only
    rw [hclean.username, hclean.domain]
    dsimp only
    rw [if_neg (by simpa using hclean.named)]
    refine .bind (importSecret_completes hnew hv hclean.password) fun secret => ?_
    have hfilled : Rowwise fun s => PasswordFilled v s.db secret l.password := fun s s' h hr _ =>
      h.mono fun k id r hrow => (row_congr hr k id).trans hrow
    refine .bind (tick_completes (grows_rowwise.and hfilled)) fun clock => ?_
    refine .bind (R := fun i s => (Grows cx db₀ s ∧ PasswordFilled v s.db secret l.password) ∧
      ∃ r, s.db.row .identity i = some r ∧ r.deleted = false ∧ r.body.username = l.username ∧
        r.body.domain = l.domain ∧ r.body.passwordSecretId = secret) ?_ fun i =>
          .pure _ fun s hs => ?_
    · refine .bind (.conseq (nowV7_completes (grows_rowwise.and hfilled) hnew)
        (fun s h => ⟨h, h.1.spare⟩) fun _ _ h => h) fun i => ?_
      intro s hs
      obtain ⟨⟨⟨hgrows, hsecret⟩, -⟩, hunused⟩ := hs
      let r : Row (Body .identity) := newRow clock
        ⟨labelOf l.username l.domain, l.username, l.domain, .password, none, secret, []⟩
      have hrefs : s.db.admits .identity i r.body = true := by
        refine admits_of_refs (by decide) fun ref hm => ?_
        obtain ⟨t, ht, rfl⟩ : ∃ t, secret = some t ∧ (EntityKind.secret, t) = ref := by
          simpa [Body.refs, r, newRow] using hm
        exact hsecret.there ht
      have hgo := insertRow_go (hunused.2 .identity) hrefs
      refine ⟨i, _, Tx.bind_of_ok hgo, ⟨hgrows.setRow (.inl rfl) hunused, hsecret.mono fun _ _ _ => hunused.row_kept⟩, _,
        Db.row_setRow_self .., rfl, rfl, rfl, rfl⟩
    · obtain ⟨⟨hgrows, hsecret⟩, r, hr, hd, hu, hdom, hp⟩ := hs
      exact ⟨hgrows, i, r, rfl, hr, hd, hu, hdom, hp ▸ hsecret⟩

end Logins

/-! ## What the tables hold -/

theorem exists_of_mem_right {R : α → β → Prop} {l : List α} {l' : List β}
    (h : List.Forall₂ R l l') {b : β} (hb : b ∈ l') : ∃ a ∈ l, R a b := by
  induction h with
  | nil => cases hb
  | cons hr _ ih =>
    rcases List.mem_cons.mp hb with rfl | hb
    · exact ⟨_, List.mem_cons_self, hr⟩
    · obtain ⟨a, ha, hab⟩ := ih hb
      exact ⟨a, List.mem_cons_of_mem _ ha, hab⟩

theorem exists_of_mem_left {R : α → β → Prop} {l : List α} {l' : List β}
    (h : List.Forall₂ R l l') {a : α} (ha : a ∈ l) : ∃ b ∈ l', R a b := by
  obtain ⟨b, hb, hr⟩ := exists_of_mem_right h.flip ha
  exact ⟨b, hb, hr⟩

section Tables

variable [Platform]

/-- A group as it was given. -/
structure GroupFilled (v : UnlockedVault) (set : ImportSet) (db : Db) (input : GroupInput)
    (e : Uuid × Row GroupBody) : Prop where
  live : e.2.deleted = false
  workspace : e.2.body.workspace = input.workspace
  name : e.2.body.name = input.name
  drives : e.2.body.drives = input.drives.map normalizeDrives
  login : LoginFilled v db e.2.body.identityId (set.loginAt input.login)

def importedName (host : HostInput) : Text :=
  if (Text.trim host.name).isEmpty then Text.trim host.address else Text.trim host.name

/-- A host as it was given. -/
structure HostFilled (v : UnlockedVault) (set : ImportSet) (db : Db) (input : HostInput)
    (e : Uuid × Row HostBody) : Prop where
  live : e.2.deleted = false
  name : e.2.body.name = importedName input
  address : e.2.body.address = Text.trim input.address
  port : e.2.body.port = input.port
  workspace : e.2.body.workspace = input.workspace
  group : e.2.body.groupId = input.groupPath.bind (groupId db input.workspace)
  rdp : e.2.body.rdp = normalizeRdp input.rdp
  comment : e.2.body.comment = (Text.trim input.comment).take 4000
  login : LoginFilled v db e.2.body.identityId (set.loginAt input.login)
  gateway : LoginFilled v db e.2.body.gatewayIdentityId (set.loginAt input.gatewayLogin)

omit [Platform] in
/-- A certificate as it was given. -/
structure KeyFilled (input : KnownHostInput) (e : Uuid × Row KnownHostPayload) : Prop where
  live : e.2.deleted = false
  address : e.2.body.address = normalise input.address
  port : e.2.body.port = input.port
  algorithm : e.2.body.algorithm = input.algorithm
  fingerprint : e.2.body.fingerprintSha256 = input.fingerprint
  publicKey : e.2.body.publicKey = input.publicKey

/-- The tables hold what an import has come to so far, in its order. -/
structure Filled (cx : Session) (v : UnlockedVault) (set : ImportSet) (gs : List GroupInput)
    (hs : List HostInput) (ks : List KnownHostInput) (s : TxState) : Prop where
  spare : Spare cx s
  groups : List.Forall₂ (GroupFilled v set s.db) gs (s.db.rows .group).entries
  grouped : Numbered (fun e : Uuid × Row GroupBody => e.2.body.workspace) (fun e => e.2.body.position)
    (s.db.rows .group).entries
  hosts : List.Forall₂ (HostFilled v set s.db) hs (s.db.rows .host).entries
  hosted : Numbered (fun e : Uuid × Row HostBody => (e.2.body.workspace, e.2.body.groupId))
    (fun e => e.2.body.position) (s.db.rows .host).entries
  keys : List.Forall₂ KeyFilled ks (s.db.rows .knownHost).entries

variable {gs : List GroupInput} {hs : List HostInput} {ks : List KnownHostInput}

theorem filled_blank (hb : ∀ k, db.rows k = Table.empty) : Filled cx v set [] [] [] ⟨db, 0⟩ := by
  have hentries : ∀ k, (db.rows k).entries = [] := fun k => by
    rw [hb k]
    rfl
  refine ⟨fun k id hid => absurd (?_ : db.row k id = none) hid, ?_, ?_, ?_, ?_, ?_⟩
  · unfold Db.row
    rw [hb k]
    rfl
  · show List.Forall₂ _ [] (db.rows .group).entries
    rw [hentries]
    exact .nil
  · show Numbered _ _ (db.rows .group).entries
    rw [hentries]
    exact numbered_nil
  · show List.Forall₂ _ [] (db.rows .host).entries
    rw [hentries]
    exact .nil
  · show Numbered _ _ (db.rows .host).entries
    rw [hentries]
    exact numbered_nil
  · show List.Forall₂ _ [] (db.rows .knownHost).entries
    rw [hentries]
    exact .nil

variable {input : GroupInput} {n : ℕ}

theorem GroupFilled.mono {e : Uuid × Row GroupBody} (h : GroupFilled v set db input e)
    (hk : ∀ k id r, db.row k id = some r → db'.row k id = some r) : GroupFilled v set db' input e :=
  { h with login := h.login.mono hk }

theorem HostFilled.mono {input : HostInput} {e : Uuid × Row HostBody} (h : HostFilled v set db input e)
    (hg : db'.rows .group = db.rows .group) (hk : ∀ k id r, db.row k id = some r → db'.row k id = some r) :
    HostFilled v set db' input e :=
  { h with
    group := by rw [groupId_congr hg]; exact h.group
    login := h.login.mono hk
    gateway := h.gateway.mono hk }

theorem Filled.grows (h : Filled cx v set gs hs ks s) (hg : Grows cx s.db s') : Filled cx v set gs hs ks s' := by
  have hgroup := hg.others .group (by decide) (by decide)
  have hhost := hg.others .host (by decide) (by decide)
  have hkey := hg.others .knownHost (by decide) (by decide)
  refine ⟨hg.spare, ?_, ?_, ?_, ?_, ?_⟩
  · rw [hgroup]
    exact h.groups.imp fun _ _ hf => hf.mono hg.kept
  · rw [hgroup]
    exact h.grouped
  · rw [hhost]
    exact h.hosts.imp fun _ _ hf => hf.mono hgroup hg.kept
  · rw [hhost]
    exact h.hosted
  · rw [hkey]
    exact h.keys

theorem filled_rowwise : Rowwise (Filled cx v set gs hs ks) := fun s s' h hr ha =>
  h.grows ⟨fun k _ _ => by rw [hr], fun k id r hrow => (row_congr hr k id).trans hrow,
    spare_rowwise s s' h.spare hr ha⟩

/-! ## Groups -/

omit [Platform] in
theorem foldl_max_range (n : ℕ) : ((List.range (n + 1)).map fun i : ℕ => (i : ℤ)).foldl
    (fun (m : Option ℤ) p => some (m.elim p (max p))) none = some (n : ℤ) := by
  induction n with
  | zero => rfl
  | succ n ih =>
    rw [List.range_succ, List.map_append, List.foldl_append, ih, List.map_singleton, List.foldl_cons,
      List.foldl_nil, Option.elim_some, max_eq_left]
    omega

omit [Platform] in
theorem lt_i64Max (h : n < maxItems) : (n : ℤ) + 1 ≤ i64Max := by
  unfold maxItems at h
  unfold i64Max
  omega

omit [Platform] in
theorem afterLast_go {positions : List ℤ} {m : ℤ} (hm : m + 1 ≤ i64Max)
    (hp : positions.foldl (fun m p => some (m.elim p (max p))) none = some m) :
    afterLast positions s = .ok (m + 1, s) := by
  unfold afterLast
  rw [hp]
  dsimp only
  rw [Tx.require_bind_of hm]
  rfl

omit [Platform] in
theorem afterLast_range (h : n ≤ maxItems) :
    afterLast ((List.range n).map fun m : ℕ => (m : ℤ)) s = .ok ((n : ℤ), s) := by
  cases n with
  | zero => rfl
  | succ n =>
    rw [Int.natCast_succ]
    exact afterLast_go (lt_i64Max h) (foldl_max_range n)

variable {workspace : Workspace} {name : Text}

theorem Filled.unnamed (h : Filled cx v set gs hs ks s)
    (hfree : ∀ g ∈ gs, ¬(g.workspace = workspace ∧ g.name = name)) : groupId s.db workspace name = none := by
  have hnone : namedGroups s.db workspace name = [] := by
    refine List.filter_eq_nil_iff.mpr fun e he hp => ?_
    obtain ⟨g, hg, hfilled⟩ := exists_of_mem_right h.groups he
    simp only [Bool.and_eq_true, decide_eq_true_eq] at hp
    exact hfree g hg ⟨hfilled.workspace.symm.trans hp.1.2, hfilled.name.symm.trans hp.2⟩
  unfold groupId
  rw [hnone]
  rfl

theorem Filled.groupPositions (h : Filled cx v set gs hs ks s) (workspace : Workspace) :
    ∃ n : ℕ, n ≤ gs.length ∧
      n = ((s.db.rows .group).entries.filter fun e => e.2.body.workspace = workspace).length ∧
      ((s.db.rows .group).select fun _ r => !r.deleted && r.body.workspace = workspace).map
        (fun r => r.2.body.position) = (List.range n).map fun m : ℕ => (m : ℤ) := by
  refine ⟨_, ?_, rfl, ?_⟩
  · rw [h.groups.length_eq]
    exact List.length_filter_le _ _
  · rw [← h.grouped workspace]
    unfold Table.select
    congr 1
    refine List.filter_congr fun e he => ?_
    obtain ⟨g, -, hfilled⟩ := exists_of_mem_right h.groups he
    show (!e.2.deleted && decide (e.2.body.workspace = workspace)) = _
    rw [hfilled.live]
    rfl

def LastGroup (id : Uuid) (s : TxState) : Prop :=
  ∃ first r, (s.db.rows .group).entries = first ++ [(id, r)]

omit [Platform] in
theorem lastGroup_rowwise : Rowwise (LastGroup id) := by
  intro s s' h hr _
  obtain ⟨first, r, he⟩ := h
  exact ⟨first, r, by rw [hr]; exact he⟩

theorem ensureGroup_completes (hnew : Function.Injective cx.newId)
    (hfree : ∀ g ∈ gs, ¬(g.workspace = workspace ∧ g.name = name)) (hlen : gs.length ≤ maxItems) : Tx.Completes
    (Filled cx v set gs [] []) (ensureGroup cx workspace name) fun id s => Filled cx v set
    (gs ++ [⟨workspace, name, none, none⟩]) [] [] s ∧ LastGroup id s := by
  intro s hs
  obtain ⟨n, hn, hcount, hpositions⟩ := hs.groupPositions workspace
  let clock := (s.db.clock cx.device).tick (cx.now s.asked)
  let s₁ : TxState := ⟨s.db.setClock clock, s.asked + 2⟩
  let id := cx.newId (s.asked + 1)
  let r : Row (Body .group) := newRow clock ⟨workspace, name, n, none, none, []⟩
  have hs₁ : Filled cx v set gs [] [] s₁ := filled_rowwise s s₁ hs rfl (Nat.le_add_right _ _)
  have hunused : Unused cx id s₁ := ⟨⟨s.asked + 1, Nat.lt_succ_self _, rfl⟩, hs.spare.unused hnew (Nat.le_succ _)⟩
  have hgo := insertRow_go (r := r) (hunused.2 .group) (admits_of_refs (by decide) fun ref hm => by cases hm)
  have hrun : ensureGroup cx workspace name s = .ok (id, ⟨s₁.db.setRow .group id r, s₁.asked⟩) := by
    unfold ensureGroup
    refine (Tx.bind_of_ok (a := groupId s.db workspace name) rfl).trans ?_
    rw [hs.unnamed hfree]
    refine (Tx.bind_of_ok rfl).trans ?_
    dsimp only
    rw [hpositions]
    refine (Tx.bind_of_ok (afterLast_range (hn.trans hlen))).trans ?_
    exact Tx.bind_of_ok hgo
  have hentries := hunused.entries_setRow (r := r)
  have hkept : ∀ k id₂ r₂, s₁.db.row k id₂ = some r₂ → (s₁.db.setRow .group id r).row k id₂ = some r₂ :=
    fun _ _ _ => hunused.row_kept
  refine ⟨id, _, hrun, ⟨hs₁.spare.setRow hunused.1, ?_, ?_, ?_, ?_, ?_⟩, _, r, hentries⟩
  · rw [hentries]
    refine List.rel_append (hs₁.groups.imp fun _ _ hf => hf.mono hkept) (.cons ?_ .nil)
    exact ⟨rfl, rfl, rfl, rfl, rfl⟩
  · rw [hentries]
    refine hs₁.grouped.append ?_
    show (n : ℤ) = _
    rw [hcount]
    rfl
  · rw [rows_setRow_ne (by decide)]
    rw [List.forall₂_nil_left_iff.mp hs₁.hosts]
    exact .nil
  · rw [rows_setRow_ne (by decide)]
    exact hs₁.hosted
  · rw [rows_setRow_ne (by decide)]
    exact hs₁.keys

omit [Platform] in
theorem forall₂_concat {α β : Type} {R : α → β → Prop} {l : List α} {a : α} {l' : List β} {b : β}
    (h : List.Forall₂ R (l ++ [a]) (l' ++ [b])) : List.Forall₂ R l l' ∧ R a b := by
  have hlen : l.length = l'.length := by
    have := h.length_eq
    rw [List.length_append, List.length_append, List.length_singleton, List.length_singleton] at this
    omega
  have hfirst := List.forall₂_take_append _ l' [b] h
  have hlast := List.forall₂_drop_append _ l' [b] h
  rw [List.take_left' hlen] at hfirst
  rw [List.drop_left' hlen] at hlast
  cases hlast with
  | cons hr _ => exact ⟨hfirst, hr⟩

theorem Filled.updateLast (h : Filled cx v set (gs ++ [input]) [] [] s)
    (input' : GroupInput) (hlast : LastGroup id s) {f : Row GroupBody → Row GroupBody}
    (hf : ∀ r, GroupFilled v set s.db input (id, r) → GroupFilled v set s.db input' (id, f r) ∧
      (f r).body.workspace = r.body.workspace ∧ (f r).body.position = r.body.position) :
    ∃ s', StoreTx.updateRow .group id f s = .ok ((), s') ∧
      Filled cx v set (gs ++ [input']) [] [] s' ∧ LastGroup id s' := by
  obtain ⟨first, r, he⟩ := hlast
  have hgroups := h.groups
  rw [he] at hgroups
  obtain ⟨hfirst, hr⟩ := forall₂_concat hgroups
  obtain ⟨hnow, hw, hp⟩ := hf r hr
  have hrow : s.db.row .group id = some r := Table.mem_entries.mp (he ▸ List.mem_append_right _ List.mem_cons_self)
  have hrefs : s.db.admits .group id (f r).body = true := by
    refine admits_of_refs (by decide) fun ref hm => ?_
    obtain ⟨i, hi, rfl⟩ : ∃ i, (f r).body.identityId = some i ∧ (EntityKind.identity, i) = ref := by
      simpa [Body.refs] using hm
    exact hnow.login.there hi
  have hentries : ((s.db.setRow .group id (f r)).rows .group).entries = first ++ [(id, f r)] := by
    rw [Db.setRow, Db.setTable_rows_self]
    exact Table.entries_set_last (f r) he
  -- Logins and passwords stay where they are.
  have hkept : ∀ {input : GroupInput} {e : Uuid × Row GroupBody}, GroupFilled v set s.db input e →
      GroupFilled v set (s.db.setRow .group id (f r)) input e := by
    intro input e hfilled
    have hident : ∀ i, (s.db.setRow .group id (f r)).row .identity i = s.db.row .identity i :=
      fun i => Db.row_setRow_ne_kind (by decide)
    have hsecret : ∀ t, (s.db.setRow .group id (f r)).row .secret t = s.db.row .secret t :=
      fun t => Db.row_setRow_ne_kind (by decide)
    refine { hfilled with login := ?_ }
    have hlogin := hfilled.login
    cases hl : set.loginAt input.login with
    | none =>
      rw [hl] at hlogin
      exact hlogin
    | some l =>
      rw [hl] at hlogin
      obtain ⟨i, q, hi, hq, hd, hu, hdom, hpass⟩ := hlogin
      refine ⟨i, q, hi, (hident i).trans hq, hd, hu, hdom, ?_⟩
      cases hbytes : l.password with
      | none =>
        rw [hbytes] at hpass
        exact hpass
      | some bytes =>
        rw [hbytes] at hpass
        obtain ⟨t, p, ht, hp, hrest⟩ := hpass
        exact ⟨t, p, ht, (hsecret t).trans hp, hrest⟩
  refine ⟨_, updateRow_go hrow hrefs, ⟨?_, ?_, ?_, ?_, ?_, ?_⟩, first, f r, hentries⟩
  · refine h.spare.setRow (h.spare .group id ?_)
    rw [hrow]
    exact Option.some_ne_none r
  · rw [hentries]
    exact List.rel_append (hfirst.imp fun _ _ hf => hkept hf) (.cons (hkept hnow) .nil)
  · rw [hentries]
    have hgrouped := h.grouped
    rw [he] at hgrouped
    refine hgrouped.congr ?_
    rw [List.map_append, List.map_append, List.map_singleton, List.map_singleton]
    show _ ++ [((f r).body.workspace, (f r).body.position)] = _ ++ [(r.body.workspace, r.body.position)]
    rw [hw, hp]
  · rw [rows_setRow_ne (by decide), List.forall₂_nil_left_iff.mp h.hosts]
    exact .nil
  · rw [rows_setRow_ne (by decide)]
    exact h.hosted
  · rw [rows_setRow_ne (by decide)]
    exact h.keys

theorem importDrives_completes (drives : Option DriveRedirection) : Tx.Completes
    (fun s => Filled cx v set (gs ++ [⟨workspace, name, none, none⟩]) [] [] s ∧ LastGroup id s)
    (importDrives cx id drives) fun _ s => Filled cx v set (gs ++ [⟨workspace, name, none, drives⟩]) [] [] s ∧
    LastGroup id s := by
  cases drives with
  | none => exact .pure _ fun _ h => h
  | some drives =>
    refine .bind (tick_completes (filled_rowwise.and lastGroup_rowwise)) fun clock => ?_
    intro s hs
    let f : Row GroupBody → Row GroupBody := fun r => if r.body.drives.isSome then r
      else r.rewrite clock fun b => { b with drives := some (normalizeDrives drives) }
    obtain ⟨s', hgo, hnow⟩ := hs.1.updateLast ⟨workspace, name, none, some drives⟩ hs.2 (f := f) (by
      intro r hr
      have hf : f r = r.rewrite clock fun b => { b with drives := some (normalizeDrives drives) } := by
        show (if r.body.drives.isSome then _ else _) = _
        rw [show r.body.drives = none from hr.drives]
        rfl
      rw [hf]
      exact ⟨⟨hr.live, hr.workspace, hr.name, rfl, hr.login⟩, rfl, rfl⟩)
    exact ⟨(), s', hgo, hnow⟩

theorem importGroupLogin_completes (hnew : Function.Injective cx.newId) (hv : cx.vault = some v)
    {drives : Option DriveRedirection} {login : Option ℕ} (hl : ∀ l, set.loginAt login = some l → l.Clean) :
    Tx.Completes (fun s => Filled cx v set (gs ++ [⟨workspace, name, none, drives⟩]) [] [] s ∧ LastGroup id s)
    (importGroupLogin cx set id login) fun _ => Filled cx v set (gs ++ [⟨workspace, name, login, drives⟩]) [] [] := by
  intro s hs
  obtain ⟨hfilled, first, r, he⟩ := hs
  have hrow : s.db.row .group id = some r := Table.mem_entries.mp (he ▸ List.mem_append_right _ List.mem_cons_self)
  have hgroups := hfilled.groups
  rw [he] at hgroups
  have hfree : r.body.identityId = none := (forall₂_concat hgroups).2.login
  have hbare : ((s.db.row .group id).any fun r => r.body.identityId.isSome) = false := by
    rw [hrow, Option.any_some, hfree]
    rfl
  obtain ⟨o, s₁, h₁, hgrows, hlogin⟩ := importLogin_completes hnew hv hl s (Grows.refl hfilled.spare)
  have hfilled₁ := hfilled.grows hgrows
  have hlast₁ : LastGroup id s₁ := ⟨first, r, by rw [hgrows.others .group (by decide) (by decide)]; exact he⟩
  have hasked : StoreTx.query (fun db => (db.row .group id).any fun r => r.body.identityId.isSome) s =
      .ok (false, s) := congrArg (fun b => Except.ok (b, s)) hbare
  unfold importGroupLogin
  rw [Tx.bind_of_ok hasked, if_neg Bool.false_ne_true, Tx.bind_of_ok h₁]
  cases o with
  | none =>
    refine ⟨(), s₁, rfl, ?_⟩
    cases hgiven : set.loginAt login with
    | some l =>
      rw [hgiven] at hlogin
      obtain ⟨i, q, hi, -⟩ := hlogin
      cases hi
    | none =>
      -- No login was given, and none is there.
      have hentries : (s₁.db.rows .group).entries = first ++ [(id, r)] := by
        rw [hgrows.others .group (by decide) (by decide)]
        exact he
      have hgroups₁ := hfilled₁.groups
      rw [hentries] at hgroups₁
      obtain ⟨hfirst, hlast⟩ := forall₂_concat hgroups₁
      refine { hfilled₁ with groups := ?_ }
      rw [hentries]
      refine List.rel_append hfirst (.cons ⟨hlast.live, hlast.workspace, hlast.name, hlast.drives, ?_⟩ .nil)
      rw [hgiven]
      exact hlast.login
  | some identity =>
    let clock := (s₁.db.clock cx.device).tick (cx.now s₁.asked)
    let s₂ : TxState := ⟨s₁.db.setClock clock, s₁.asked + 1⟩
    have hfilled₂ : Filled cx v set _ [] [] s₂ := filled_rowwise s₁ s₂ hfilled₁ rfl (Nat.le_succ _)
    let f : Row GroupBody → Row GroupBody := fun r =>
      r.rewrite clock fun b => { b with identityId := some identity }
    obtain ⟨s₃, hgo, hnow, -⟩ := hfilled₂.updateLast ⟨workspace, name, login, drives⟩
      (lastGroup_rowwise s₁ s₂ hlast₁ rfl (Nat.le_succ _)) (f := f)
      fun q hq => ⟨⟨hq.live, hq.workspace, hq.name, hq.drives, hlogin.mono fun _ _ _ h => h⟩, rfl, rfl⟩
    exact ⟨(), s₃, (Tx.bind_of_ok (a := clock) rfl).trans hgo, hnow⟩

/-- A group that is in shape, and is not there yet. -/
structure GroupInput.Clean (set : ImportSet) (input : GroupInput) : Prop where
  name : groupName (some input.name) = .ok (some input.name)
  login : ∀ l, set.loginAt input.login = some l → l.Clean

theorem importGroup_completes (hnew : Function.Injective cx.newId) (hv : cx.vault = some v)
    (hclean : input.Clean set) (hfree : ∀ g ∈ gs, ¬(g.workspace = input.workspace ∧ g.name = input.name))
    (hlen : gs.length ≤ maxItems) : Tx.Completes (Filled cx v set gs [] []) (importGroup cx set input) fun _ => Filled
    cx v set (gs ++ [input]) [] [] := by
  unfold importGroup
  rw [hclean.name]
  refine .bind (ensureGroup_completes hnew hfree hlen) fun id => ?_
  refine .bind (importDrives_completes input.drives) fun _ => ?_
  exact importGroupLogin_completes hnew hv hclean.login

theorem importGroups_completes (hnew : Function.Injective cx.newId) (hv : cx.vault = some v)
    (hclean : ∀ g ∈ set.groups, g.Clean set) (hlen : set.groups.length ≤ maxItems)
    (hnodup : (set.groups.map fun g => (g.workspace, g.name)).Nodup) : Tx.Completes (Filled cx v set [] [] [])
    (set.groups.forM (importGroup cx set)) fun _ => Filled cx v set set.groups [] [] := by
  refine .forM (I := fun gs => Filled cx v set gs [] []) fun done g rest hl => ?_
  have hmem : g ∈ set.groups := hl ▸ List.mem_append_right _ List.mem_cons_self
  refine importGroup_completes hnew hv (hclean g hmem) (fun g' hg' hsame => ?_) ?_
  · rw [hl, List.map_append, List.nodup_append] at hnodup
    refine hnodup.2.2 (g'.workspace, g'.name) (List.mem_map_of_mem hg') (g.workspace, g.name) List.mem_cons_self ?_
    rw [hsame.1, hsame.2]
  · rw [hl, List.length_append] at hlen
    omega

/-! ## Hosts -/

/-- The same address and port, as the import compares them. -/
def HostInput.sameAddress (a b : HostInput) : Bool :=
  a.port = b.port && Text.toAsciiLowercase (Text.trim a.address) = Text.toAsciiLowercase (Text.trim b.address)

/-- The hosts an import takes, one after the other: plausible ones, and of each address the first. -/
def takeHosts (taken : List HostInput) : List HostInput → List HostInput
  | [] => taken
  | host :: rest =>
    if !isPlausible host || taken.any fun h => h.sameAddress host then takeHosts taken rest
    else takeHosts (taken ++ [host]) rest

theorem Filled.hostExists_eq (h : Filled cx v set gs hs ks s) (host : HostInput) :
    hostExists s.db host.address host.port = hs.any fun t => t.sameAddress host := by
  rw [Bool.eq_iff_iff]
  unfold hostExists Table.find?
  rw [List.find?_isSome, List.any_eq_true]
  constructor
  · rintro ⟨e, he, hp⟩
    obtain ⟨t, ht, hfilled⟩ := exists_of_mem_right h.hosts he
    simp only [Bool.and_eq_true, decide_eq_true_eq] at hp
    refine ⟨t, ht, ?_⟩
    unfold HostInput.sameAddress
    rw [Bool.and_eq_true, decide_eq_true_eq, decide_eq_true_eq, ← hfilled.port, ← hfilled.address]
    exact ⟨hp.1.2, hp.2⟩
  · rintro ⟨t, ht, hsame⟩
    obtain ⟨e, he, hfilled⟩ := exists_of_mem_left h.hosts ht
    unfold HostInput.sameAddress at hsame
    rw [Bool.and_eq_true, decide_eq_true_eq, decide_eq_true_eq, ← hfilled.port, ← hfilled.address] at hsame
    refine ⟨e, he, ?_⟩
    simp only [Bool.and_eq_true, decide_eq_true_eq, Bool.not_eq_true']
    exact ⟨⟨hfilled.live, hsame.1⟩, hsame.2⟩

theorem Filled.hostPositions (h : Filled cx v set gs hs ks s) (workspace : Workspace) (group : Option Uuid) : ∃ n : ℕ,
    n ≤ hs.length ∧ n =
    ((s.db.rows .host).entries.filter fun e => (e.2.body.workspace, e.2.body.groupId) = (workspace, group)).length ∧
    ((s.db.rows .host).select fun _ r => !r.deleted && r.body.workspace = workspace && r.body.groupId = group).map
    (fun r => r.2.body.position) = (List.range n).map fun m : ℕ => (m : ℤ) := by
  refine ⟨_, ?_, rfl, ?_⟩
  · rw [h.hosts.length_eq]
    exact List.length_filter_le _ _
  · rw [← h.hosted (workspace, group)]
    unfold Table.select
    congr 1
    refine List.filter_congr fun e he => ?_
    obtain ⟨t, -, hfilled⟩ := exists_of_mem_right h.hosts he
    show (!e.2.deleted && decide (e.2.body.workspace = workspace) && decide (e.2.body.groupId = group)) =
      decide ((e.2.body.workspace, e.2.body.groupId) = (workspace, group))
    rw [hfilled.live, Bool.not_false, Bool.true_and, Bool.eq_iff_iff, Bool.and_eq_true, decide_eq_true_eq,
      decide_eq_true_eq, decide_eq_true_eq, Prod.mk.injEq]

theorem Filled.named (h : Filled cx v set gs hs ks s) {g : GroupInput}
    (hg : g ∈ gs) (hw : g.workspace = workspace) (hn : g.name = name) : groupId s.db workspace name ≠ none := by
  intro hnone
  obtain ⟨e, he, hfilled⟩ := exists_of_mem_left h.groups hg
  have hrow : s.db.row .group e.1 = some e.2 := Table.mem_entries.mp he
  exact groupId_none hnone hrow hfilled.live (hfilled.workspace.trans hw) (hfilled.name.trans hn)

/-- A host in a group that is there, with logins in shape. -/
structure HostInput.Clean (set : ImportSet) (input : HostInput) : Prop where
  path : groupName input.groupPath = .ok input.groupPath
  group : ∀ name, input.groupPath = some name →
    ∃ g ∈ set.groups, g.workspace = input.workspace ∧ g.name = name
  position : input.position = none
  login : ∀ l, set.loginAt input.login = some l → l.Clean
  gateway : ∀ l, set.loginAt input.gatewayLogin = some l → l.Clean

theorem Filled.ensureGroupPath_go (h : Filled cx v set set.groups hs ks s) {input : HostInput}
    (hclean : input.Clean set) : ensureGroupPath cx input.workspace input.groupPath s = .ok
    (input.groupPath.bind (groupId s.db input.workspace), s) := by
  cases hpath : input.groupPath with
  | none => rfl
  | some name =>
    obtain ⟨g, hg, hw, hn⟩ := hclean.group name hpath
    obtain ⟨id, hid⟩ := Option.ne_none_iff_exists'.mp (h.named hg hw hn)
    have hfound : ensureGroup cx input.workspace name s = .ok (id, s) := by
      unfold ensureGroup
      refine (Tx.bind_of_ok (a := groupId s.db input.workspace name) rfl).trans ?_
      rw [hid]
      rfl
    rw [Option.bind_some, hid]
    exact Tx.bind_of_ok hfound

def importedBody (input : HostInput) (position : ℤ) (group login gatewayLogin : Option Uuid) : HostBody where
  name := importedName input
  address := Text.trim input.address
  port := input.port
  workspace := input.workspace
  position := position
  groupId := group
  identityId := login
  rdp := normalizeRdp input.rdp
  comment := (Text.trim input.comment).take 4000
  gatewayIdentityId := gatewayLogin
  extra := []

theorem writeHost_completes (hnew : Function.Injective cx.newId) {input : HostInput} (hclean : input.Clean set)
    (hlen : hs.length ≤ maxItems) {login gatewayLogin : Option Uuid} :
    Tx.Completes (fun s => Filled cx v set set.groups hs [] s ∧
        LoginFilled v s.db login (set.loginAt input.login) ∧
        LoginFilled v s.db gatewayLogin (set.loginAt input.gatewayLogin))
      (writeHost cx input login gatewayLogin) fun _ => Filled cx v set set.groups (hs ++ [input]) [] := by
  intro s hstart
  obtain ⟨hfilled, hlogin, hgateway⟩ := hstart
  let group := input.groupPath.bind (groupId s.db input.workspace)
  obtain ⟨n, hn, hcount, hpositions⟩ := hfilled.hostPositions input.workspace group
  let clock := (s.db.clock cx.device).tick (cx.now s.asked)
  let s₁ : TxState := ⟨s.db.setClock clock, s.asked + 2⟩
  let id := cx.newId (s.asked + 1)
  let r : Row (Body .host) := newRow clock (importedBody input n group login gatewayLogin)
  have hs₁ : Filled cx v set set.groups hs [] s₁ := filled_rowwise s s₁ hfilled rfl (Nat.le_add_right _ _)
  have hunused : Unused cx id s₁ :=
    ⟨⟨s.asked + 1, Nat.lt_succ_self _, rfl⟩, hfilled.spare.unused hnew (Nat.le_succ _)⟩
  have hrefs : s₁.db.admits .host id r.body = true := by
    refine admits_of_refs (by decide) fun ref hm => ?_
    simp only [Body.refs, List.mem_append, List.mem_map, Option.mem_toList] at hm
    rcases hm with (⟨g, hm, rfl⟩ | ⟨i, hm, rfl⟩) | ⟨i, hm, rfl⟩
    · obtain ⟨name, -, hid⟩ := Option.bind_eq_some_iff.mp (show group = some g from hm)
      obtain ⟨q, hq, -⟩ := groupId_some hid
      show s.db.row .group g ≠ none
      rw [hq]
      exact Option.some_ne_none q
    · exact hlogin.there hm
    · exact hgateway.there hm
  have hgo := insertRow_go (r := r) (hunused.2 .host) hrefs
  have hposition : importPosition input.workspace group input.position s = .ok ((n : ℤ), s) := by
    rw [hclean.position]
    refine (Tx.bind_of_ok rfl).trans ?_
    dsimp only
    rw [hpositions]
    exact afterLast_range (hn.trans hlen)
  have hrun : writeHost cx input login gatewayLogin s = .ok ((), ⟨s₁.db.setRow .host id r, s₁.asked⟩) := by
    unfold writeHost
    rw [hclean.path]
    refine (Tx.bind_of_ok (hfilled.ensureGroupPath_go hclean)).trans ?_
    exact (Tx.bind_of_ok hposition).trans hgo
  have hentries := hunused.entries_setRow (r := r)
  have hgroups : (s₁.db.setRow .host id r).rows .group = s₁.db.rows .group := rows_setRow_ne (by decide)
  have hkept : ∀ k id₂ r₂, s₁.db.row k id₂ = some r₂ → (s₁.db.setRow .host id r).row k id₂ = some r₂ :=
    fun _ _ _ => hunused.row_kept
  refine ⟨(), _, hrun, hs₁.spare.setRow hunused.1, ?_, ?_, ?_, ?_, ?_⟩
  · rw [hgroups]
    exact hs₁.groups.imp fun _ _ hf => hf.mono hkept
  · rw [hgroups]
    exact hs₁.grouped
  · rw [hentries]
    refine List.rel_append (hs₁.hosts.imp fun _ _ hf => hf.mono hgroups hkept) (.cons ?_ .nil)
    refine ⟨rfl, rfl, rfl, rfl, rfl, ?_, rfl, rfl, hlogin.mono hkept, hgateway.mono hkept⟩
    rw [groupId_congr hgroups]
    rfl
  · rw [hentries]
    refine hs₁.hosted.append ?_
    show (n : ℤ) = _
    rw [hcount]
    rfl
  · rw [rows_setRow_ne (by decide)]
    exact hs₁.keys

theorem importHosts_completes (hnew : Function.Injective cx.newId) (hv : cx.vault = some v)
    (hosts taken : List HostInput) (hclean : ∀ h ∈ hosts, h.Clean set)
    (hlen : taken.length + hosts.length ≤ maxItems) :
    Tx.Completes (Filled cx v set set.groups taken [])
      (importHosts cx set hosts ((taken.map fun h => (normalise h.address, h.port)).reverse))
      fun added s => Filled cx v set set.groups (takeHosts taken hosts) [] s ∧
        added = ((takeHosts taken hosts).map fun h => (normalise h.address, h.port)).reverse := by
  induction hosts generalizing taken with
  | nil => exact .pure _ fun s hs => ⟨hs, rfl⟩
  | cons host rest ih =>
    have hrest : ∀ h ∈ rest, h.Clean set := fun h hh => hclean h (List.mem_cons_of_mem host hh)
    have hhost := hclean host List.mem_cons_self
    rw [List.length_cons] at hlen
    refine .bind (.conseq (query_completes _) (fun _ h => h) fun there s hs =>
      (⟨hs.1, hs.2.trans (hs.1.hostExists_eq host)⟩ : Filled cx v set set.groups taken [] s ∧
        there = taken.any fun t => t.sameAddress host)) fun there => .intro fun hthere => ?_
    unfold takeHosts
    rw [hthere]
    split
    · exact ih taken hrest (by omega)
    · refine .bind (R := fun login s => Filled cx v set set.groups taken [] s ∧
        LoginFilled v s.db login (set.loginAt host.login)) (fun s hs => ?_) fun login => ?_
      · obtain ⟨o, s', hgo, hgrows, hlogin⟩ := importLogin_completes hnew hv hhost.login s (Grows.refl hs.spare)
        exact ⟨o, s', hgo, hs.grows hgrows, hlogin⟩
      · refine .bind (R := fun gateway s => Filled cx v set set.groups taken [] s ∧
          LoginFilled v s.db login (set.loginAt host.login) ∧
          LoginFilled v s.db gateway (set.loginAt host.gatewayLogin)) (fun s hs => ?_) fun gateway => ?_
        · obtain ⟨o, s', hgo, hgrows, hlogin⟩ := importLogin_completes hnew hv hhost.gateway s (Grows.refl hs.1.spare)
          exact ⟨o, s', hgo, hs.1.grows hgrows, hs.2.mono hgrows.kept, hlogin⟩
        · refine .bind (writeHost_completes hnew hhost (by omega)) fun _ => ?_
          have hnext := ih (taken ++ [host]) hrest (by rw [List.length_append, List.length_singleton]; omega)
          rw [List.map_append, List.reverse_append] at hnext
          exact hnext

/-! ## Certificates -/

theorem writeKnownHost_completes (hnew : Function.Injective cx.newId) {input : KnownHostInput}
    (hfree : ∀ k ∈ ks, ¬(normalise k.address = normalise input.address ∧ k.port = input.port)) : Tx.Completes
    (Filled cx v set gs hs ks) (writeKnownHost cx input) fun _ => Filled cx v set gs hs (ks ++ [input]) := by
  intro s hfilled
  have hnone : ∀ {s : TxState}, Filled cx v set gs hs ks s → ∀ e ∈ (s.db.rows .knownHost).entries,
      ¬(e.2.body.address = normalise input.address ∧ e.2.body.port = input.port) := by
    intro s hfilled e he hsame
    obtain ⟨k, hk, hkey⟩ := exists_of_mem_right hfilled.keys he
    exact hfree k hk ⟨hkey.address.symm.trans hsame.1, hkey.port.symm.trans hsame.2⟩
  let clock := (s.db.clock cx.device).tick (cx.now s.asked)
  let s₁ : TxState := ⟨s.db.setClock clock, s.asked + 3⟩
  let id := cx.newId (s.asked + 1)
  let r : Row (Body .knownHost) := newRow clock ⟨normalise input.address, input.port, input.algorithm,
    input.fingerprint, input.publicKey, cx.now (s.asked + 2), []⟩
  have hs₁ : Filled cx v set gs hs ks s₁ := filled_rowwise s s₁ hfilled rfl (Nat.le_add_right _ _)
  have hunused : Unused cx id s₁ :=
    ⟨⟨s.asked + 1, Nat.add_lt_add_left (by decide) _, rfl⟩, hfilled.spare.unused hnew (Nat.le_succ _)⟩
  have hslot : s.db.slot (normalise input.address) input.port = none := by
    refine List.find?_eq_none.mpr fun e he hp => hnone hfilled e he ?_
    simpa using hp
  have hadmits : s₁.db.admits .knownHost id r.body = true := by
    have hrival : s₁.db.rival id (normalise input.address) input.port = none := by
      refine List.find?_eq_none.mpr fun e he hp => hnone hs₁ e he ?_
      simp only [Bool.and_eq_true, decide_eq_true_eq] at hp
      exact hp.1
    show ((true : Bool) && (s₁.db.rival id (normalise input.address) input.port).isNone) = true
    rw [hrival]
    rfl
  have hgo := insertRow_go (r := r) (hunused.2 .knownHost) hadmits
  have hrun : writeKnownHost cx input s = .ok ((), ⟨s₁.db.setRow .knownHost id r, s₁.asked⟩) := by
    unfold writeKnownHost
    refine (Tx.bind_of_ok (a := s.db.slot (normalise input.address) input.port) rfl).trans ?_
    rw [hslot]
    exact hgo
  have hentries := hunused.entries_setRow (r := r)
  have hgroups : (s₁.db.setRow .knownHost id r).rows .group = s₁.db.rows .group := rows_setRow_ne (by decide)
  have hhosts : (s₁.db.setRow .knownHost id r).rows .host = s₁.db.rows .host := rows_setRow_ne (by decide)
  have hkept : ∀ k id₂ r₂, s₁.db.row k id₂ = some r₂ → (s₁.db.setRow .knownHost id r).row k id₂ = some r₂ :=
    fun _ _ _ => hunused.row_kept
  refine ⟨(), _, hrun, hs₁.spare.setRow hunused.1, ?_, ?_, ?_, ?_, ?_⟩
  · rw [hgroups]
    exact hs₁.groups.imp fun _ _ hf => hf.mono hkept
  · rw [hgroups]
    exact hs₁.grouped
  · rw [hhosts]
    exact hs₁.hosts.imp fun _ _ hf => hf.mono hgroups hkept
  · rw [hhosts]
    exact hs₁.hosted
  · rw [hentries]
    exact List.rel_append hs₁.keys (.cons ⟨rfl, rfl, rfl, rfl, rfl, rfl⟩ .nil)

/-- A set in shape: its groups have names of their own, its hosts groups of the set, its logins are ones
the form would take, and its certificates are of different addresses. -/
structure ImportSet.Clean (set : ImportSet) : Prop where
  groups : ∀ g ∈ set.groups, g.Clean set
  named : (set.groups.map fun g => (g.workspace, g.name)).Nodup
  hosts : ∀ h ∈ set.hosts, h.Clean set
  keys : (set.knownHosts.map fun k => (normalise k.address, k.port)).Nodup

def ImportSet.Fits (set : ImportSet) : Prop :=
  set.hosts.length ≤ maxItems ∧ set.logins.length ≤ maxItems ∧ set.knownHosts.length ≤ maxItems ∧
    set.groups.length ≤ maxItems

/-- The certificates an import brings along: those of the hosts it took. -/
def ImportSet.keysTaken (set : ImportSet) : List KnownHostInput :=
  set.knownHosts.filter fun k =>
    ((takeHosts [] set.hosts).map fun h => (normalise h.address, h.port)).contains (normalise k.address, k.port)

theorem importSet_completes (hnew : Function.Injective cx.newId) (hv : cx.vault = some v) (hclean : set.Clean)
    (hfits : set.Fits) : Tx.Completes (Filled cx v set [] [] []) (importSet cx set) fun _ => Filled cx v set
    set.groups (takeHosts [] set.hosts) set.keysTaken := by
  refine .bind (R := fun _ => Filled cx v set [] [] [])
    (.require fun s hs => ⟨hfits, hs⟩) fun _ => ?_
  refine .bind (importGroups_completes hnew hv hclean.groups hfits.2.2.2 hclean.named) fun _ => ?_
  refine .bind (importHosts_completes hnew hv set.hosts [] hclean.hosts
    (by rw [List.length_nil, Nat.zero_add]; exact hfits.1)) fun added => Tx.Completes.intro fun hadded => ?_
  have hkeys : (set.knownHosts.filter fun k => added.contains (normalise k.address, k.port)) = set.keysTaken := by
    refine List.filter_congr fun k _ => ?_
    rw [hadded, List.contains_reverse]
  rw [hkeys]
  have hnodup : (set.keysTaken.map fun k => (normalise k.address, k.port)).Nodup :=
    hclean.keys.sublist (List.filter_sublist.map _)
  refine .forM (I := fun ks => Filled cx v set set.groups (takeHosts [] set.hosts) ks)
    fun done k rest hl => writeKnownHost_completes hnew fun k' hk' hsame => ?_
  rw [hl, List.map_append, List.nodup_append] at hnodup
  refine hnodup.2.2 (normalise k'.address, k'.port) (List.mem_map_of_mem hk') (normalise k.address, k.port)
    List.mem_cons_self ?_
  rw [hsame.1, hsame.2]

end Tables

end UwuRdp
