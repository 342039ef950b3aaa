import UwuRdp.Store.Detection
import UwuRdp.Store.Preference
import UwuRdp.Store.Space

/-!
# Adopting a vault is all or nothing

Whatever statement fails, the records, the header and the key that is held are what they were; and
an adoption that goes through seals every secret again and leaves none behind. The statements add up
to what adopting is in `Store.Vault`.
-/

namespace UwuRdp

open Lib

namespace LockTx

variable {fault : LockStatement → Bool} {s s' : LockDb}

/-! ## Writing one table -/

theorem onTable_rows (k : EntityKind)
    (f : Table Uuid (Row (Body k)) → Table Uuid (Row (Body k))) (s : LockDb) :
    (onTable k f s).db.rows = Function.update s.db.rows k (f (s.db.rows k)) := rfl

theorem onTable_id (k : EntityKind) (s : LockDb) : onTable k (fun t => t) s = s := by
  unfold onTable Db.setTable
  rw [Function.update_eq_self]

variable {k : EntityKind}

theorem onTable_onTable (f g : Table Uuid (Row (Body k)) → Table Uuid (Row (Body k))) (s : LockDb) : onTable k g
    (onTable k f s) = onTable k (fun t => g (f t)) s := by
  unfold onTable
  rw [Db.setTable_rows_self]
  unfold Db.setTable
  rw [Function.update_idem]

theorem onTable_foldl {β : Type} (l : List β)
    (g : β → Table Uuid (Row (Body k)) → Table Uuid (Row (Body k))) (s : LockDb) :
    l.foldl (fun s b => onTable k (g b) s) s = onTable k (fun t => l.foldl (fun t b => g b t) t) s := by
  induction l generalizing s with
  | nil => exact (onTable_id k s).symm
  | cons b l ih => rw [List.foldl_cons, ih (onTable k (g b) s), onTable_onTable]; rfl

/-! ## Sealing again -/

theorem resealOne_eq_ok {old new : UnlockedVault} {e : Uuid × Row Sealed}
    (h : resealOne fault old new e s = .ok ((), s')) :
    (old.openRecord e.1 .secret e.2.body).isSome ∧
      s' = onTable .secret (fun t => t.modify e.1 fun r =>
        { r with body := (resealed old new e.1 e.2).body }) s := by
  unfold resealOne at h
  obtain ⟨plain, s₁, hplain, hrest⟩ := Tx.bind_eq_ok.mp h
  obtain ⟨hopen, rfl⟩ := Tx.orFail_eq_ok.mp hplain
  refine ⟨by rw [hopen]; rfl, ?_⟩
  rw [((statement_eq_ok fault).mp hrest).2]
  unfold resealed
  rw [hopen]

variable {old : Option UnlockedVault}

theorem reseal_eq_ok {new : UnlockedVault} (h : reseal fault old new s = .ok ((), s')) :
    ∃ t, resealAll old new (s.db.rows .secret) = .ok t ∧ s' = onTable .secret (fun _ => t) s := by
  unfold reseal at h
  obtain ⟨a, s₁, hask, hrest⟩ := Tx.bind_eq_ok.mp h
  obtain ⟨-, rfl, rfl⟩ := (ask_eq_ok fault).mp hask
  unfold resealAll
  split at hrest
  · next hempty =>
    obtain ⟨-, hs⟩ := Tx.pure_eq_ok.mp hrest
    rw [if_pos hempty, hs]
    exact ⟨_, rfl, (onTable_id .secret s).symm⟩
  next hempty =>
  rw [if_neg hempty]
  obtain ⟨vault, s₂, hold, hloop⟩ := Tx.bind_eq_ok.mp hrest
  obtain ⟨rfl, rfl⟩ := Tx.orFail_eq_ok.mp hold
  obtain ⟨hs', hall⟩ := Tx.forM_eq_ok (fun e _ s s' he => (resealOne_eq_ok he).2) hloop
  have hopen : ((s.db.rows .secret).select fun _ r => sealedSecret r).all
      (fun e => (vault.openRecord e.1 .secret e.2.body).isSome) = true := by
    rw [List.all_eq_true]
    intro e he
    obtain ⟨s₁, s₂, h₁⟩ := hall e he
    exact (resealOne_eq_ok h₁).1
  simp only [hopen, if_true]
  refine ⟨_, rfl, ?_⟩
  rw [hs', onTable_foldl]
  unfold onTable
  beta_reduce
  rw [Table.foldl_modify _ _ _ (Table.nodup_select _ _)]
  congr 2
  apply Table.map_congr
  intro id r hr
  rw [Table.find?_select hr]
  cases hsealed : sealedSecret r with
  | false => rfl
  | true =>
    show { r with body := (resealed vault new id r).body } = resealed vault new id r
    unfold resealed
    split <;> rfl

/-! ## The records -/

theorem carryRows_eq_ok {carry : Carry} (hk : k.hasTable = true) (h : carryRows fault carry k s = .ok ((), s')) : s' =
    onTable k (fun t => t.map fun _ r => adoptRow carry r) s := by
  unfold carryRows at h
  rw [if_pos hk] at h
  obtain ⟨⟨⟩, s₁, hseq, hrest⟩ := Tx.bind_eq_ok.mp h
  obtain ⟨-, rfl⟩ := (statement_eq_ok fault).mp hseq
  cases carry with
  | moved =>
    rw [if_pos rfl] at hrest
    obtain ⟨-, rfl⟩ := Tx.pure_eq_ok.mp hrest
    unfold onTable adoptRow
    simp
  | push =>
    rw [if_neg (by decide)] at hrest
    rw [((statement_eq_ok fault).mp hrest).2, onTable_onTable]
    simp only [Table.map_map]
    unfold adoptRow
    simp

def withRows (s : LockDb) (rows : (k : EntityKind) → Table Uuid (Row (Body k))) : LockDb :=
  { s with db := { s.db with rows } }

theorem foldl_carry (carry : Carry) (kinds : List EntityKind) (hn : kinds.Nodup) (s : LockDb) :
    kinds.foldl (fun s k => onTable k (fun t => t.map fun _ r => adoptRow carry r) s) s =
      withRows s fun k =>
        if k ∈ kinds then (s.db.rows k).map fun _ r => adoptRow carry r else s.db.rows k := by
  induction kinds generalizing s with
  | nil => rfl
  | cons k kinds ih =>
    rw [List.nodup_cons] at hn
    rw [List.foldl_cons, ih hn.2]
    apply congrArg (withRows s)
    funext j
    rw [onTable_rows]
    by_cases hj : j = k
    · subst hj
      rw [if_neg hn.1, if_pos List.mem_cons_self, Function.update_self]
    · rw [Function.update_of_ne hj]
      simp only [List.mem_cons, hj, false_or]

/-! ## The transaction -/

/-- The database in the vault of an account, its secrets sealed again. -/
def adopted (s : LockDb) (header : VaultHeader) (carry : Carry) (t : Table Uuid (Row Sealed)) :
    LockDb :=
  { s with db := { s.db with
      vaultId := header.vaultId
      rows := adoptRows carry (s.db.setTable .secret t).rows
      superseded := Table.empty
      violations := Table.empty
      cursor := 0
      floor := none
      header := some header } }

theorem adopt_eq_ok {header : VaultHeader} {key : VaultKey}
    {carry : Carry} {also : LockTx Unit} {done : Bool}
    (h : adopt fault old header key carry also s = .ok (done, s')) :
    if done then s.db.vaultId ≠ header.vaultId ∧
      ∃ t, resealAll old ⟨header.vaultId, key⟩ (s.db.rows .secret) = .ok t ∧
        also (adopted s header carry t) = .ok ((), s')
    else s.db.vaultId = header.vaultId := by
  unfold adopt at h
  obtain ⟨-, h⟩ := Tx.require_bind_eq_ok.mp h
  obtain ⟨a, s₁, hask, h⟩ := Tx.bind_eq_ok.mp h
  obtain ⟨-, rfl, rfl⟩ := (ask_eq_ok fault).mp hask
  split at h
  · next heq =>
    obtain ⟨rfl, -⟩ := Tx.pure_eq_ok.mp h
    exact heq
  next hne =>
  obtain ⟨⟨⟩, s₂, hreseal, h⟩ := Tx.bind_eq_ok.mp h
  obtain ⟨t, ht, rfl⟩ := reseal_eq_ok hreseal
  obtain ⟨⟨⟩, s₃, hdrop, h⟩ := Tx.bind_eq_ok.mp h
  obtain ⟨-, rfl⟩ := (statement_eq_ok fault).mp hdrop
  obtain ⟨⟨⟩, s₄, hstore, h⟩ := Tx.bind_eq_ok.mp h
  obtain ⟨-, rfl⟩ := (statement_eq_ok fault).mp hstore
  obtain ⟨⟨⟩, s₅, hid, h⟩ := Tx.bind_eq_ok.mp h
  obtain ⟨-, rfl⟩ := (statement_eq_ok fault).mp hid
  obtain ⟨⟨⟩, s₆, hloop, h⟩ := Tx.bind_eq_ok.mp h
  have hcarry := (Tx.forM_eq_ok (fun k hk s s' hs =>
    carryRows_eq_ok (hasTable_of_mem_syncedKinds hk) hs) hloop).1
  rw [foldl_carry carry syncedKinds (by decide)] at hcarry
  obtain ⟨⟨⟩, s₇, hmanifests, h⟩ := Tx.bind_eq_ok.mp h
  obtain ⟨-, rfl⟩ := (statement_eq_ok fault).mp hmanifests
  obtain ⟨-, h⟩ := Tx.require_bind_eq_ok.mp h
  obtain ⟨⟨⟩, s₈, hcursor, h⟩ := Tx.bind_eq_ok.mp h
  obtain ⟨-, rfl⟩ := (statement_eq_ok fault).mp hcursor
  obtain ⟨⟨⟩, s₉, halso, h⟩ := Tx.bind_eq_ok.mp h
  obtain ⟨-, h⟩ := Tx.require_bind_eq_ok.mp h
  obtain ⟨rfl, rfl⟩ := Tx.pure_eq_ok.mp h
  refine ⟨hne, t, ht, ?_⟩
  have hrows : Function.update (fun k => if k ∈ syncedKinds then
        ((s.db.setTable .secret t).rows k).map fun _ r => adoptRow carry r
      else (s.db.setTable .secret t).rows k) .manifest Table.empty =
      adoptRows carry (s.db.setTable .secret t).rows := by
    funext k
    unfold adoptRows
    by_cases hk : k = .manifest
    · subst hk
      rw [Function.update_self, if_neg (by decide), if_pos rfl]
    · rw [Function.update_of_ne hk, if_neg hk]
  rw [← halso, hcarry]
  unfold adopted
  rw [← hrows]
  rfl

/-! ## Taking a space -/

section Remember

variable [Platform] {space : Uuid} {joining : SpaceJoining} {e : LockEnrolment} {now : UInt64}

/-- What `remember` makes of the database. -/
def remembered (space : Uuid) (joining : SpaceJoining) (e : LockEnrolment) (now : UInt64)
    (s : LockDb) : LockDb :=
  let account := (e.serverUrl, accountEmail e.email)
  { db := { s.db with
      lock := ⟨true, some e.serverUrl, some e.email, some space⟩
      enrolment := if joining = .moved then none else s.db.enrolment }
    refreshToken := e.protectedRefreshToken
    signedInMs := some now
    moveStartedMs := none
    accounts := s.accounts.set account
      (accountAfter ((s.accounts.get? account).getD .default) space e) }

theorem remember_eq_ok (h : remember fault space joining e now s = .ok ((), s')) :
    s' = remembered space joining e now s := by
  unfold remember at h
  obtain ⟨⟨⟩, s₁, hstate, h⟩ := Tx.bind_eq_ok.mp h
  obtain ⟨-, rfl⟩ := (statement_eq_ok fault).mp hstate
  obtain ⟨a, s₂, hask, h⟩ := Tx.bind_eq_ok.mp h
  obtain ⟨-, rfl, rfl⟩ := (ask_eq_ok fault).mp hask
  obtain ⟨⟨⟩, s₃, haccount, h⟩ := Tx.bind_eq_ok.mp h
  obtain ⟨-, rfl⟩ := (statement_eq_ok fault).mp haccount
  unfold remembered
  cases joining with
  | signIn =>
    rw [if_neg (by decide)] at h
    exact (Tx.pure_eq_ok.mp h).2
  | moved =>
    rw [if_pos rfl] at h
    exact ((statement_eq_ok fault).mp h).2

omit [Platform] in
theorem rewrap_eq_ok {header : VaultHeader} {also : LockTx Unit}
    (h : rewrap fault header also s = .ok ((), s')) :
    also { s with db := { s.db with header := some header } } = .ok ((), s') := by
  unfold rewrap at h
  obtain ⟨-, h⟩ := Tx.require_bind_eq_ok.mp h
  obtain ⟨⟨⟩, s₁, hdrop, h⟩ := Tx.bind_eq_ok.mp h
  obtain ⟨-, rfl⟩ := (statement_eq_ok fault).mp hdrop
  obtain ⟨⟨⟩, s₂, hstore, h⟩ := Tx.bind_eq_ok.mp h
  obtain ⟨-, rfl⟩ := (statement_eq_ok fault).mp hstore
  obtain ⟨-, h⟩ := Tx.require_bind_eq_ok.mp h
  obtain ⟨⟨⟩, s₃, halso, h⟩ := Tx.bind_eq_ok.mp h
  unfold Tx.require at h
  split at h
  · rw [← (Tx.pure_eq_ok.mp h).2] at halso
    exact halso
  · cases h

end Remember

end LockTx

namespace LockStore

variable {fault : LockStatement → Bool} {s s' : LockStore}

variable {header : VaultHeader} {key : VaultKey}

variable {also : LockTx Unit}

theorem adopt_error {carry : Carry} {err : StoreError}
    (h : LockStore.adopt fault header key carry also s = (.error err, s')) : s' = s := by
  unfold LockStore.adopt at h
  split at h
  · cases h
  · cases h
  · cases h
    rfl

theorem adopt_ok {carry : Carry} (hne : s.kept.db.vaultId ≠ header.vaultId)
    (h : LockStore.adopt fault header key carry also s = (.ok (), s')) : s'.vault = some ⟨header.vaultId, key⟩ ∧ ∃ t,
    resealAll s.vault ⟨header.vaultId, key⟩ (s.kept.db.rows .secret) = .ok t ∧ also
    (LockTx.adopted s.kept header carry t) = .ok ((), s'.kept) := by
  unfold LockStore.adopt at h
  split at h
  · next kept hok =>
    cases h
    exact ⟨rfl, (LockTx.adopt_eq_ok hok).2⟩
  · next hok => exact absurd (LockTx.adopt_eq_ok hok) hne
  · cases h

theorem adopt_toStore {carry : Carry} (hne : s.kept.db.vaultId ≠ header.vaultId)
    (h : LockStore.adopt fault header key carry (pure ()) s = (.ok (), s')) : Store.adopt header key carry id
    s.toStore = .ok s'.toStore := by
  obtain ⟨hvault, t, ht, hadopted⟩ := adopt_ok hne h
  obtain ⟨-, hkept⟩ := Tx.pure_eq_ok.mp hadopted
  obtain ⟨kept, vault⟩ := s'
  obtain rfl : vault = _ := hvault
  obtain rfl : kept = _ := hkept
  unfold Store.adopt
  rw [toStore_db, toStore_vault, if_neg hne, ht]
  rfl

end LockStore

/-! ## What adopting promises -/

variable {new : UnlockedVault} {t : Table Uuid (Row Sealed)} {id : Uuid}

variable {t' : Table Uuid (Row Sealed)} {r : Row Sealed} {old : Option UnlockedVault}

theorem openRecord_resealAll {old : UnlockedVault} {plain : Payload} (h : resealAll (some old) new t = .ok t')
    (hr : t.get? id = some r) (hd : r.deleted = false) (ho : old.openRecord id .secret r.body = some plain) : ∃ r',
    t'.get? id = some r' ∧ r'.deleted = false ∧ new.openRecord id .secret r'.body = some plain := by
  have hlen : 0 < r.body.len := by
    unfold UnlockedVault.openRecord at ho
    split at ho
    · next hbody =>
      rw [hbody]
      exact Nat.succ_pos _
    · cases ho
  have hsealed : sealedSecret r = true := by
    unfold sealedSecret
    rw [hd, decide_eq_true hlen]
    rfl
  unfold resealAll at h
  dsimp only at h
  split at h
  · next hempty =>
    have hmem : (id, r) ∈ t.select fun _ r => sealedSecret r := Table.mem_select.mpr ⟨hr, hsealed⟩
    rw [List.isEmpty_iff.mp hempty] at hmem
    cases hmem
  · split at h
    · cases h
      refine ⟨resealed old new id r, ?_, ?_, ?_⟩
      · rw [Table.get?_map, hr, Option.map_some, if_pos hsealed]
      · unfold resealed
        rw [ho]
        exact hd
      · unfold resealed
        rw [ho]
        show (if new.key = new.key ∧ id = id ∧ EntityKind.secret = EntityKind.secret ∧
          new.vaultId = new.vaultId then some plain else none) = _
        rw [if_pos ⟨rfl, rfl, rfl, rfl⟩]
    · cases h

theorem head_resealAll
    (h : resealAll old new t = .ok t') (hr : t.get? id = some r) : ∃ r', t'.get? id = some r' ∧ r'.head = r.head := by
  unfold resealAll at h
  dsimp only at h
  split at h
  · cases h
    exact ⟨r, hr, rfl⟩
  split at h
  · cases h
  split at h
  · next old hall =>
    cases h
    refine ⟨_, by rw [Table.get?_map, hr, Option.map_some], ?_⟩
    split
    · unfold resealed
      split <;> rfl
    · rfl
  · cases h

theorem row_sealedAgain {db : Db} {k : EntityKind} {r : Row (Body k)}
    (h : resealAll old new (db.rows .secret) = .ok t) (hr : db.row k id = some r) :
    ∃ r', (db.setTable .secret t).row k id = some r' ∧ r'.head = r.head := by
  unfold Db.row
  by_cases hk : k = .secret
  · subst hk
    rw [Db.setTable_rows_self]
    exact head_resealAll h hr
  · have hrows : (db.setTable .secret t).rows k = db.rows k := Db.setTable_rows_ne _ hk
    rw [hrows]
    exact ⟨r, hr, rfl⟩

/-- The ways into another vault: an account's, or a space. -/
inductive AdoptCall where
  | vault (header : VaultHeader) (key : VaultKey)
  | space (space : Space) (w : LockStore.Wrapping) (joining : SpaceJoining) (e : LockEnrolment)

namespace AdoptCall

def target : AdoptCall → UnlockedVault
  | vault header key => ⟨header.vaultId, key⟩
  | space s _ _ _ => ⟨s.id, s.key⟩

/-- Whether the records wait to be pushed afterwards. -/
def carry : AdoptCall → Carry
  | vault _ _ => .push
  | space _ _ joining _ => if joining = .signIn then .push else .moved

def run [Platform] (fault : LockStatement → Bool) : AdoptCall → LockCall
  | vault header key => LockStore.adopt fault header key .push (pure ())
  | space s w joining e => LockStore.joinSpace fault s w joining e

variable [Platform] {fault : LockStatement → Bool} {s s' : LockStore} {call : AdoptCall}

theorem run_error {err : StoreError} (h : call.run fault s = (.error err, s')) : s' = s := by
  cases call with
  | vault header key => exact LockStore.adopt_error h
  | space space w joining e =>
    change LockStore.joinSpace fault space w joining e s = _ at h
    unfold LockStore.joinSpace at h
    split at h
    · cases h
      rfl
    dsimp only at h
    split at h
    · cases h
      rfl
    split at h
    · split at h
      · cases h
        rfl
      · split at h
        · cases h
          rfl
        · cases h
    · exact LockStore.adopt_error h

theorem run_ok (hne : s.kept.db.vaultId ≠ call.target.vaultId) (h : call.run fault s = (.ok (), s')) : s'.vault = some
    call.target ∧ ∃ t, resealAll s.vault call.target (s.kept.db.rows .secret) = .ok t ∧ s'.kept.db.rows = adoptRows
    call.carry (s.kept.db.setTable .secret t).rows := by
  cases call with
  | vault header key =>
    obtain ⟨hvault, t, ht, hadopted⟩ := LockStore.adopt_ok hne h
    refine ⟨hvault, t, ht, ?_⟩
    rw [(Tx.pure_eq_ok.mp hadopted).2]
    rfl
  | space space w joining e =>
    change LockStore.joinSpace fault space w joining e s = _ at h
    unfold LockStore.joinSpace at h
    split at h
    · cases h
    next header hheader =>
    split at h
    · cases h
    have hne' : s.kept.db.vaultId ≠ space.id := hne
    rw [if_neg hne'] at h
    have hid : header.vaultId = space.id := (UnlockedVault.unlockWith_rewrap hheader).2.1
    obtain ⟨hvault, t, ht, hadopted⟩ := LockStore.adopt_ok (hid ▸ hne') h
    rw [hid] at hvault ht
    refine ⟨hvault, t, ht, ?_⟩
    rw [LockTx.remember_eq_ok hadopted]
    rfl

end AdoptCall

/-- Adopting another vault goes through with every secret and every record, or changes nothing. -/
theorem adopt_atomic [Platform] (fault : LockStatement → Bool) (call : AdoptCall) (s : LockStore)
    (hne : s.kept.db.vaultId ≠ call.target.vaultId) :
    match call.run fault s with
    | (.ok (), s') =>
      s'.vault = some call.target ∧
      (∀ vault id r plain, s.vault = some vault → s.kept.db.row .secret id = some r →
        r.deleted = false → vault.openRecord id .secret r.body = some plain →
        ∃ r', s'.kept.db.row .secret id = some r' ∧ r'.deleted = false ∧
          call.target.openRecord id .secret r'.body = some plain) ∧
      ∀ k ∈ syncedKinds, ∀ id r, s.kept.db.row k id = some r → r.deleted = false →
        r.hlc.stamped = true → ∃ r', s'.kept.db.row k id = some r' ∧ r'.deleted = false ∧
          r'.dirty = if call.carry = .push then true else r.dirty
    | (.error _, s') => s' = s := by
  cases hrun : call.run fault s with
  | mk result s' =>
    cases result with
    | error e => exact AdoptCall.run_error hrun
    | ok u =>
      obtain ⟨hvault, t, ht, hrows⟩ := AdoptCall.run_ok hne hrun
      refine ⟨hvault, ?_, ?_⟩
      · intro vault id r plain hv hr hd ho
        rw [hv] at ht
        obtain ⟨r', hr', hd', ho'⟩ := openRecord_resealAll ht hr hd ho
        refine ⟨adoptRow call.carry r', ?_, hd', ho'⟩
        unfold Db.row
        rw [hrows]
        unfold adoptRows
        rw [if_pos (by decide), Db.setTable_rows_self, Table.get?_map, hr', Option.map_some]
      · intro k hk id r hr hd hstamped
        obtain ⟨r₀, hr₀, hhead⟩ := row_sealedAgain ht hr
        have hdeleted : r₀.deleted = false := (congrArg Head.deleted hhead).trans hd
        have hdirty : r₀.dirty = r.dirty := congrArg Head.dirty hhead
        have hhlc : r₀.hlc.stamped = true := (congrArg (Hlc.stamped ∘ Head.hlc) hhead).trans hstamped
        refine ⟨adoptRow call.carry r₀, ?_, hdeleted, ?_⟩
        · unfold Db.row
          rw [hrows]
          unfold adoptRows
          rw [if_pos hk, Table.get?_map, show ((s.kept.db.setTable .secret t).rows k).get? id = _
            from hr₀, Option.map_some]
        · unfold adoptRow
          simp only [hdeleted, hdirty, hhlc, Bool.not_false, and_self, and_true]

def oneSecret : LockStore where
  kept := {
    db := (Db.fresh 1).setRow .secret 5
      ⟨⟨1000, 0, 1⟩, false, false, 3, UnlockedVault.sealRecord ⟨1, 7⟩ 5 .secret (.bytes [1, 2, 3])⟩
    refreshToken := none
    signedInMs := none
    moveStartedMs := none
    accounts := Table.empty }
  vault := some ⟨1, 7⟩

def takesSpace : AdoptCall :=
  .space ⟨9, 70⟩ ⟨[1], .recommended, 4, 2000⟩ .signIn ⟨"s".toList, "e".toList, [], none, none⟩

theorem adopt_atomic_oneSecret : letI := asciiPlatform
    ∃ s', takesSpace.run (fun _ => false) oneSecret = (.ok (), s') ∧
      ∃ r', s'.kept.db.row .secret 5 = some r' ∧ r'.deleted = false ∧
        UnlockedVault.openRecord ⟨9, 70⟩ 5 .secret r'.body = some (.bytes [1, 2, 3]) := by
  let _ := asciiPlatform
  have hok : (takesSpace.run (fun _ => false) oneSecret).1 = .ok () := by decide +kernel
  have h := adopt_atomic (fun _ => false) takesSpace oneSecret (by decide +kernel)
  cases hrun : takesSpace.run (fun _ => false) oneSecret with
  | mk result s' =>
    rw [hrun] at hok h
    obtain rfl : result = .ok () := hok
    exact ⟨s', rfl, h.2.1 ⟨1, 7⟩ 5 _ (.bytes [1, 2, 3]) rfl rfl rfl (by decide +kernel)⟩

end UwuRdp
