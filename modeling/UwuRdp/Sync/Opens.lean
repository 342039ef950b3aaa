import UwuRdp.Sync.Flow

/-!
# The vault can be opened again

Whatever operation ran last and wherever it ended, the header that is kept has to open with a
password the person gave and, if it needs one, the account key this device kept. Making an account
keeps the header last, when the key is safe; joining one keeps the header first, so a pairing that
cannot be written down then leaves a vault nobody opens.
-/

namespace UwuRdp

open Lib

/-! ## What opening takes -/

/-- The stored secrets are sealed under a vault's key. -/
def SealedUnder (v : UnlockedVault) (db : Db) : Prop :=
  ∀ id r, db.row .secret id = some r → sealedSecret r = true →
    (v.openRecord id .secret r.body).isSome

/-- A password opens a header to a vault: with the account key the pairing keeps, if the header
needs one, and else alone. -/
def OpensWith (password : Password) (db : Db) (h : VaultHeader) (v : UnlockedVault) : Prop :=
  if h.needsAccountKey then
    ∃ e key, db.enrolment = some e ∧ e.protectedAccountKey = some ⟨key⟩ ∧
      h.unlockWith password (some key) = .ok v
  else h.unlock password = .ok v

/-- The vault that is kept opens with a password, to the key the secrets are sealed under. -/
structure Openable (password : Password) (s : Store) : Prop where
  opens : ∀ h, s.db.header = some h → ∃ v, OpensWith password s.db h v ∧ h.vaultId = s.db.vaultId ∧
    SealedUnder v s.db ∧ ∀ w, s.vault = some w → w = v
  absent : s.db.header = none → s.vault = none ∧
    ∀ id r, s.db.row .secret id = some r → sealedSecret r = false

/-- A device that is paired through a handover has the floor it was handed. -/
def FloorHeld (s : FlowState) : Prop :=
  s.db.enrolment.isSome → ∀ m, s.handed = some m → s.db.floor = m

/-- One of two passwords opens the vault, and the floor is the one handed over. -/
def StaysOpen (p q : Password) (s : FlowState) : Prop :=
  (Openable p s.toStore ∨ Openable q s.toStore) ∧ FloorHeld s

/-- A header says truthfully whether its key is wrapped under an account key, as every header does
that a device made. -/
def VaultHeader.Truthful (h : VaultHeader) : Prop :=
  h.needsAccountKey = h.wrappedKey.master.accountKey.isSome

variable {p q : Password} {s : Store} {h : VaultHeader} {v w : UnlockedVault}

theorem Openable.of_header (hh : s.db.header = some h) (ho : OpensWith p s.db h v)
    (hid : h.vaultId = s.db.vaultId) (hs : SealedUnder v s.db)
    (hv : ∀ w, s.vault = some w → w = v) : Openable p s where
  opens h' hh' := by
    rw [hh] at hh'
    cases hh'
    exact ⟨v, ho, hid, hs, hv⟩
  absent hn := by
    rw [hh] at hn
    cases hn

theorem OpensWith.vaultId (ho : OpensWith p s.db h v) : v.vaultId = h.vaultId := by
  unfold OpensWith at ho
  split at ho
  · obtain ⟨e, key, -, -, hu⟩ := ho
    obtain ⟨-, -, -, -, rfl⟩ := VaultHeader.unlockWith_eq_ok.mp hu
    rfl
  · obtain ⟨-, hu⟩ := VaultHeader.unlock_eq_ok.mp ho
    obtain ⟨-, -, -, -, rfl⟩ := VaultHeader.unlockWith_eq_ok.mp hu
    rfl

variable {db : Db} {key : Option AccountKey} {new : UnlockedVault} {id : Uuid} {r : Row Sealed}

theorem opens_alone (hn : h.needsAccountKey = false) (hu : h.unlockWith p none = .ok v) : OpensWith p db h v := by
  unfold OpensWith
  rw [if_neg (by rw [hn]; decide)]
  exact VaultHeader.unlock_eq_ok.mpr ⟨hn, hu⟩

theorem opens_paired {e : Enrolment} (hn : h.needsAccountKey = key.isSome) (hu : h.unlockWith p key = .ok v)
    (he : db.enrolment = some e) (hk : e.protectedAccountKey = key.map fun k => ⟨k⟩) : OpensWith p db h v := by
  cases key with
  | none => exact opens_alone hn hu
  | some k =>
    unfold OpensWith
    rw [if_pos (show h.needsAccountKey = true from hn)]
    exact ⟨e, k, he, hk, hu⟩

theorem Openable.sealed (ho : Openable p s) (hv : s.vault = some v) : SealedUnder v s.db := by
  cases hh : s.db.header with
  | none =>
    rw [(ho.absent hh).1] at hv
    cases hv
  | some h =>
    obtain ⟨w, -, -, hs, hw⟩ := ho.opens h hh
    rw [hw v hv]
    exact hs

theorem Openable.memory_vaultId (ho : Openable p s) (hv : s.vault = some v) : v.vaultId = s.db.vaultId := by
  cases hh : s.db.header with
  | none =>
    rw [(ho.absent hh).1] at hv
    cases hv
  | some h =>
    obtain ⟨w, hw, hid, -, hm⟩ := ho.opens h hh
    rw [hm v hv, hw.vaultId, hid]

theorem Openable.unlock (ho : Openable p s) (he : s.db.enrolment = none)
    (hh : s.db.header = some h) : ∃ v, h.unlock p = .ok v ∧ h.vaultId = s.db.vaultId ∧
      SealedUnder v s.db ∧ ∀ w, s.vault = some w → w = v := by
  obtain ⟨v, hop, hrest⟩ := ho.opens h hh
  unfold OpensWith at hop
  split at hop
  · obtain ⟨e, key, hsome, -⟩ := hop
    rw [he] at hsome
    cases hsome
  · exact ⟨v, hop, hrest⟩

theorem Openable.saveEnrolment (ho : Openable p s) (he : s.db.enrolment = none) (e : Enrolment) :
    Openable p (s.saveEnrolment e) where
  opens h hh := by
    obtain ⟨v, hu, hrest⟩ := ho.unlock he hh
    obtain ⟨hn, hu⟩ := VaultHeader.unlock_eq_ok.mp hu
    exact ⟨v, opens_alone hn hu, hrest⟩
  absent := ho.absent

variable {s' : Store}

theorem Openable.keepVaultHeader (ho : Openable p s) (hv : s.vault = some v)
    (hk : s.keepVaultHeader h = .ok s') (hop : OpensWith q s.db h v) : Openable q s' := by
  unfold Store.keepVaultHeader at hk
  rw [hv] at hk
  dsimp only at hk
  split at hk
  · cases hk
  · next hid =>
    cases hk
    refine Openable.of_header rfl hop ?_ (ho.sealed hv) fun w hw => ?_
    · rw [← not_not.mp hid]
      exact ho.memory_vaultId hv
    · exact (Option.some.inj hw).symm

theorem Openable.forgetEnrolment (ho : Openable p s)
    (hn : ∀ h, s.db.header = some h → h.needsAccountKey = false) : Openable p s.forgetEnrolment where
  opens h hh := by
    obtain ⟨v, hop, hrest⟩ := ho.opens h hh
    refine ⟨v, ?_, hrest⟩
    unfold OpensWith at hop ⊢
    rw [hn h hh, if_neg (by decide)] at hop ⊢
    exact hop
  absent := ho.absent

theorem Openable.setManifestFloor (ho : Openable p s) (floor : Option ManifestFloor) :
    Openable p { s with db := setManifestFloor s.db floor } := by
  obtain ⟨violations, heq⟩ := setManifestFloor_eq s.db floor
  rw [heq]
  exact ⟨ho.opens, ho.absent⟩

theorem Openable.password_eq (ho : Openable p s) (hh : s.db.header = some h) (hu : h.unlockWith q key = .ok v) : p = q := by
  obtain ⟨w, hop, -⟩ := ho.opens h hh
  unfold OpensWith at hop
  split at hop
  · obtain ⟨e, k, -, -, hw⟩ := hop
    exact (VaultHeader.unlockWith_unique hw hu).1
  · exact (VaultHeader.unlockWith_unique (VaultHeader.unlock_eq_ok.mp hop).2 hu).1

theorem Openable.unlocked (ho : Openable p s) (hh : s.db.header = some h) (hu : h.unlockWith q key = .ok v) : Openable p { s with vault := some v } := by
  obtain ⟨w, hop, hid, hs, -⟩ := ho.opens h hh
  have hvw : w = v := by
    unfold OpensWith at hop
    split at hop
    · obtain ⟨e, k, -, -, hw⟩ := hop
      exact (VaultHeader.unlockWith_unique hw hu).2.2
    · exact (VaultHeader.unlockWith_unique (VaultHeader.unlock_eq_ok.mp hop).2 hu).2.2
  subst hvw
  exact Openable.of_header hh hop hid hs fun w hw => (Option.some.inj hw).symm

theorem setManifestFloor_floor (db : Db) (floor : Option ManifestFloor) :
    (setManifestFloor db floor).floor = floor := by
  obtain ⟨violations, heq⟩ := setManifestFloor_eq db floor
  rw [heq]

theorem Store.unlockVaultWith_eq_ok
    (hc : s.unlockVaultWith q key = .ok s') :
    ∃ h v, s.db.header = some h ∧ h.unlockWith q key = .ok v ∧ s' = { s with vault := some v } := by
  unfold Store.unlockVaultWith at hc
  split at hc
  · cases hc
  · next h hh =>
    split at hc
    · cases hc
    · next v hv => exact ⟨h, v, hh, hv, (Except.ok.inj hc).symm⟩

theorem Store.unlockVault_eq_ok (hc : s.unlockVault q = .ok s') :
    ∃ h v, s.db.header = some h ∧ h.unlock q = .ok v ∧ s' = { s with vault := some v } := by
  unfold Store.unlockVault at hc
  split at hc
  · cases hc
  · next h hh =>
    split at hc
    · cases hc
    · next v hv => exact ⟨h, v, hh, hv, (Except.ok.inj hc).symm⟩

/-! ## Adopting a vault -/

theorem openRecord_resealed {old : UnlockedVault} (ho : (old.openRecord id .secret r.body).isSome) :
    (new.openRecord id .secret (resealed old new id r).body).isSome := by
  obtain ⟨plain, hp⟩ := Option.isSome_iff_exists.mp ho
  unfold resealed
  rw [hp]
  show (if new.key = new.key ∧ id = id ∧ EntityKind.secret = EntityKind.secret ∧
    new.vaultId = new.vaultId then some plain else none).isSome
  rw [if_pos ⟨rfl, rfl, rfl, rfl⟩]
  rfl

theorem sealed_resealAll {old : Option UnlockedVault} {t t' : Table Uuid (Row Sealed)}
    (h : resealAll old new t = .ok t') (hr : t'.get? id = some r)
    (hs : sealedSecret r = true) : (new.openRecord id .secret r.body).isSome := by
  unfold resealAll at h
  dsimp only at h
  split at h
  · next hempty =>
    cases h
    have hmem : (id, r) ∈ t.select fun _ r => sealedSecret r := Table.mem_select.mpr ⟨hr, hs⟩
    rw [List.isEmpty_iff.mp hempty] at hmem
    cases hmem
  · split at h
    · cases h
    · next old =>
      split at h
      · next hall =>
        cases h
        rw [Table.get?_map, Option.map_eq_some_iff] at hr
        obtain ⟨r₀, hr₀, rfl⟩ := hr
        split
        · next hs₀ =>
          have hopen := List.all_eq_true.mp hall (id, r₀) (Table.mem_select.mpr ⟨hr₀, hs₀⟩)
          exact openRecord_resealed hopen
        · next hs₀ =>
          rw [if_neg hs₀] at hs
          exact absurd hs hs₀
      · cases h

theorem adoptVault_spec {key : VaultKey} (hne : s.db.vaultId ≠ h.vaultId) (ha : s.adoptVault h key = .ok s') :
    s'.db.header = some h ∧ s'.db.vaultId = h.vaultId ∧ s'.vault = some ⟨h.vaultId, key⟩ ∧ s'.db.enrolment =
    s.db.enrolment ∧ s'.db.floor = none ∧ SealedUnder ⟨h.vaultId, key⟩ s'.db := by
  unfold Store.adoptVault Store.adopt at ha
  rw [if_neg hne] at ha
  split at ha
  · cases ha
  · next secrets hsecrets =>
    cases ha
    refine ⟨rfl, rfl, rfl, rfl, rfl, fun id r hr hs => ?_⟩
    have hrow : (secrets.map fun _ r => adoptRow Carry.push r).get? id = some r := by
      have hmem : EntityKind.secret ∈ syncedKinds := by decide
      have hrows : adoptRows Carry.push (s.db.setTable .secret secrets).rows .secret =
          secrets.map fun _ r => adoptRow Carry.push r := by
        unfold adoptRows
        rw [if_pos hmem, Db.setTable_rows_self]
      rw [← hrows]
      exact hr
    rw [Table.get?_map, Option.map_eq_some_iff] at hrow
    obtain ⟨r₀, hr₀, rfl⟩ := hrow
    exact sealed_resealAll (r := r₀) hsecrets hr₀ hs

/-! ## The steps -/

namespace Flow

variable {fault : Option FlowStep} {P Q K : FlowState → Prop}

theorem attempt_ends {step : FlowStep} (h : fault = some step → ∀ s, P s → K s) :
    Act.Ends P (attempt fault step) (fun _ => P) fun _ => K :=
  .ite (fun hf => .fail fun s hs => h hf s hs) fun _ => .pure fun _ hs => hs

theorem call_ends {m : Store → Except StoreError Store}
    (hok : ∀ s store, P s → m s.toStore = .ok store → Q { s with toStore := store })
    (herr : ∀ s, P s → K s) : Act.Ends P (call m) (fun _ => Q) fun _ => K := by
  apply Act.Ends.get_bind
  intro s hs
  split
  · exact Act.Ends.fail fun s' hs' => herr s' (hs' ▸ hs)
  · next store hm => exact .modify fun s' hs' => hs' ▸ hok s store hs hm

variable {setup : Setup} {accountKey key : Option AccountKey} {handed : Option (Option ManifestFloor)} {j : Joining}
  {m : Flow Unit}

theorem remember_ends {admitted : Admitted} {deviceKey : ℕ}
    (hf : fault = some .protect ∨ fault = some .saveEnrolment → ∀ s, P s → K s)
    (hs : ∀ s e, P s → e.protectedAccountKey = accountKey.map (fun key => ⟨key⟩) →
      Q { s.toStore.saveEnrolment e with handed }) :
    Act.Ends P (remember fault setup admitted deviceKey accountKey handed) (fun _ => Q)
      fun _ => K := by
  refine .bind (attempt_ends fun h => hf (.inl h)) fun _ => ?_
  refine .bind (attempt_ends fun h => hf (.inr h)) fun _ => ?_
  exact .modify fun s h => hs s _ h rfl

/-! ## Making an account -/

/-- A device that is not paired, with a vault the password opens, or none. -/
def Ready (q : Password) (s : FlowState) : Prop := Openable q s.toStore ∧ s.db.enrolment = none

theorem floorHeld_of_unpaired {s : FlowState} (h : s.db.enrolment = none) : FloorHeld s := by
  intro hsome
  rw [h] at hsome
  cases hsome

theorem Ready.staysOpen_left {s : FlowState} (h : Ready p s) : StaysOpen p q s :=
  ⟨.inl h.1, floorHeld_of_unpaired h.2⟩

theorem Ready.staysOpen_right {s : FlowState} (h : Ready q s) : StaysOpen p q s :=
  ⟨.inr h.1, floorHeld_of_unpaired h.2⟩

theorem checkPassword_ends : Act.Ends (Ready p) (checkPassword q) (fun _ => Ready q) (fun _ => StaysOpen p q) := by
  apply Act.Ends.get_bind
  intro s hs
  have hfail : ∀ s', s' = s → StaysOpen p q s' := by
    rintro s' rfl
    exact hs.staysOpen_left
  split
  · next habs =>
    apply Act.Ends.pure
    rintro s' rfl
    have hh : s'.db.header = none := by
      unfold Store.vaultStatus at habs
      split at habs
      · cases habs
      · split at habs
        · cases habs
        · next hn => exact Option.not_isSome_iff_eq_none.mp hn
    refine ⟨⟨fun h he => ?_, hs.1.absent⟩, hs.2⟩
    rw [hh] at he
    cases he
  · refine call_ends (fun s' store hs' hu => ?_) hfail
    subst hs'
    obtain ⟨h, v, hh, hv, rfl⟩ := Store.unlockVault_eq_ok hu
    obtain ⟨-, hv⟩ := VaultHeader.unlock_eq_ok.mp hv
    obtain rfl := hs.1.password_eq hh hv
    exact ⟨hs.1.unlocked hh hv, hs.2⟩

variable {salt : ℕ}

theorem createVaultWith_ready {s : FlowState} {store : Store} {key : VaultKey}
    {kdf : KdfParams} (h : Ready q s) (hc : s.createVaultWith key salt q kdf = .ok store) :
    Ready q { s with toStore := store } := by
  unfold Store.createVaultWith at hc
  split at hc
  · cases hc
  · next hn =>
    split at hc
    · cases hc
    · next header hh =>
      cases hc
      obtain ⟨hu, hid, hneed⟩ := UnlockedVault.unlockWith_rewrap hh
      refine ⟨Openable.of_header rfl (opens_alone hneed hu) hid (fun id r hr hs => ?_) fun w hw => ?_, h.2⟩
      · have hno := (h.1.absent (Option.not_isSome_iff_eq_none.mp hn)).2 id r hr
        rw [hno] at hs
        cases hs
      · exact (Option.some.inj hw).symm

theorem wrapVaultKey_spec {s : Store} (hw : s.wrapVaultKey salt q accountKey = .ok h) : ∃ v, s.vault = some v ∧
    h.unlockWith q accountKey = .ok v ∧ h.needsAccountKey = accountKey.isSome := by
  unfold Store.wrapVaultKey at hw
  split at hw
  · cases hw
  · next v hv =>
    split at hw
    · cases hw
    · next header hh =>
      cases hw
      obtain ⟨hu, -, hneed⟩ := UnlockedVault.unlockWith_rewrap hh
      exact ⟨v, hv, hu, hneed⟩

/-- A device that is paired and may keep a new header. -/
def Paired (q : Password) (h : VaultHeader) (v : UnlockedVault) (s : FlowState) : Prop :=
  Openable q s.toStore ∧ FloorHeld s ∧ s.vault = some v ∧ OpensWith q s.db h v

theorem keepVaultHeader_db {s s' : Store} (hk : s.keepVaultHeader h = .ok s') :
    s'.db = { s.db with header := some h } := by
  unfold Store.keepVaultHeader at hk
  split at hk
  · cases hk
  · split at hk
    · cases hk
    · cases hk
      rfl

theorem createAccountWith_ends (c : Creation) (hq : c.password = q) :
    Act.Ends (Ready q) (createAccountWith fault c) (fun _ => StaysOpen p q) (fun _ => StaysOpen p q) := by
  subst hq
  have hkept : ∀ s, Ready c.password s → StaysOpen p c.password s := fun _ h => h.staysOpen_right
  refine .bind (attempt_ends fun _ => hkept) fun _ => .get_bind fun s₀ hs₀ => ?_
  refine Act.Ends.bind (R := fun _ => Ready c.password) ?_ fun _ => ?_
  · apply Act.Ends.ite
    · intro _
      refine .bind (attempt_ends fun _ s hs => hkept s (hs ▸ hs₀)) fun _ => ?_
      refine call_ends (fun s store hs hc => ?_) fun s hs => hkept s (hs ▸ hs₀)
      exact createVaultWith_ready (hs ▸ hs₀) hc
    · exact fun _ => .pure fun s hs => hs ▸ hs₀
  refine .bind (attempt_ends fun _ => hkept) fun _ => .get_bind fun s₁ hs₁ => ?_
  split
  · exact .fail fun s hs => hkept s (hs ▸ hs₁)
  · next header hw =>
    obtain ⟨v, hv, hu, hneed⟩ := wrapVaultKey_spec hw
    have hk : ∀ s, s = s₁ → StaysOpen p c.password s := fun s hs => hkept s (hs ▸ hs₁)
    refine .bind (attempt_ends fun _ => hk) fun _ => ?_
    refine .bind (attempt_ends fun _ => hk) fun _ => ?_
    refine .bind (attempt_ends fun _ => hk) fun _ => ?_
    -- From here on the account key is kept, and the old header still opens.
    refine .bind (R := fun _ => Paired c.password header v) (remember_ends (fun _ => hk) ?_) fun _ => ?_
    · rintro s e rfl he
      exact ⟨hs₁.1.saveEnrolment hs₁.2 e, fun _ m hm => (nomatch hm), hv, opens_paired hneed hu rfl he⟩
    · refine .bind (attempt_ends fun _ s hs => ⟨.inr hs.1, hs.2.1⟩) fun _ => ?_
      refine call_ends (fun s store hs hk => ?_) fun s hs => ⟨.inr hs.1, hs.2.1⟩
      refine ⟨.inr (hs.1.keepVaultHeader hs.2.2.1 hk hs.2.2.2), ?_⟩
      show store.db.enrolment.isSome → ∀ m, s.handed = some m → store.db.floor = m
      rw [keepVaultHeader_db hk]
      exact hs.2.1

/-! ## Joining an account -/

/-- A joining device that gets as far as the account's vault. -/
def LetIn (fault : Option FlowStep) (j : Joining) (accountKey : Option AccountKey) (s : FlowState) :
    Prop :=
  s.db.enrolment = none ∧ s.db.lock.active = false ∧ s.vaultStatus ≠ .locked ∧
    ∃ v, approach fault j accountKey s = (.ok v, s)

/-- The pairing can be written down once the vault of another account is the one kept here and needs
an account key. -/
def SavesKey (fault : Option FlowStep) (j : Joining) (s : FlowState) : Prop :=
  j.header.vaultId ≠ s.db.vaultId → j.header.needsAccountKey = true →
    fault ≠ some .protect ∧ fault ≠ some .saveEnrolment

/-- A device with the vault of an account and no pairing yet. -/
def Adopted (h : VaultHeader) (v : UnlockedVault) (s : FlowState) : Prop :=
  s.db.header = some h ∧ s.db.vaultId = h.vaultId ∧ s.vault = some v ∧ s.db.enrolment = none ∧
    s.db.floor = none ∧ SealedUnder v s.db

theorem ofExcept_ends {α : Type} {r : Except FlowError α} {s : FlowState} (hk : K s) :
    Act.Ends (· = s) (Act.ofExcept r) (fun a s' => s' = s ∧ r = .ok a) fun _ => K := by
  rintro s' rfl
  cases r with
  | ok a => exact ⟨rfl, rfl⟩
  | error e => exact hk

theorem approach_ends (j : Joining) (key : Option AccountKey) {s : FlowState} (hk : K s) : Act.Ends (· = s)
    (approach fault j key) (fun v s' => s' = s ∧ j.header.unlockWith j.password key = .ok v) fun _ => K := by
  have hK : ∀ s', s' = s → K s' := fun s' hs => hs ▸ hk
  refine .bind (ofExcept_ends hk) fun _ => ?_
  refine .bind (attempt_ends fun _ s' hs => hK s' hs.1) fun _ => ?_
  refine .bind (attempt_ends fun _ s' hs => hK s' hs.1) fun _ => ?_
  refine .bind (attempt_ends fun _ s' hs => hK s' hs.1) fun _ => ?_
  refine .bind ((ofExcept_ends hk).conseq (fun _ hs => hs.1) (fun _ _ hs => hs) fun _ _ hs => hs) fun header => ?_
  have hwire : ∀ h, fromWire j.header = .ok h → h = j.header := by
    intro h hf
    unfold fromWire at hf
    split at hf
    · exact (Except.ok.inj hf).symm
    · cases hf
  split
  · exact .fail fun s' hs => hK s' hs.1
  · next v hv =>
    apply Act.Ends.pure
    rintro s' ⟨hs, hf⟩
    rw [hwire header hf] at hv
    exact ⟨hs, hv⟩

theorem enter_ends {s : FlowState} (hs : Ready p s)
    (ht : j.header.Truthful) (hu : j.header.unlockWith j.password key = .ok v)
    (hsave : SavesKey fault j s) :
    Act.Ends (· = s) (enter fault j setup key handed v)
      (fun _ s' => (Openable p s'.toStore ∨ Openable j.password s'.toStore) ∧ s'.handed = handed ∧
        s'.db.floor = if j.header.vaultId = s.db.vaultId then s.db.floor else none)
      fun _ => StaysOpen p j.password := by
  have hk : ∀ s', s' = s → StaysOpen p j.password s' := by
    rintro s' rfl
    exact hs.staysOpen_left
  have hneed : j.header.needsAccountKey = key.isSome := by
    obtain ⟨-, -, hm, -, -⟩ := VaultHeader.unlockWith_eq_ok.mp hu
    rw [ht, hm]
  have hvid : v = ⟨j.header.vaultId, v.key⟩ := by
    obtain ⟨-, -, -, -, rfl⟩ := VaultHeader.unlockWith_eq_ok.mp hu
    rfl
  refine .bind (attempt_ends fun _ => hk) fun _ => ?_
  by_cases hid : j.header.vaultId = s.db.vaultId
  · -- The vault is this device's already: nothing is adopted.
    refine .bind (R := fun _ => (· = s)) (call_ends ?_ hk) fun _ => remember_ends (fun _ => hk) ?_
    · rintro s' store rfl ha
      unfold Store.adoptVault Store.adopt at ha
      rw [if_pos hid.symm] at ha
      cases ha
      rfl
    · rintro s' e rfl -
      rw [if_pos hid]
      exact ⟨.inl (hs.1.saveEnrolment hs.2 e), rfl, rfl⟩
  · refine .bind (R := fun _ => Adopted j.header v) (call_ends ?_ hk) fun _ => remember_ends ?_ ?_
    · rintro s' store rfl ha
      obtain ⟨hh, hvault, hmem, hen, hfloor, hsealed⟩ := adoptVault_spec (Ne.symm hid) ha
      rw [← hvid] at hmem hsealed
      exact ⟨hh, hvault, hmem, hen.trans hs.2, hfloor, hsealed⟩
    · -- The pairing is not written down, so the header must open without it.
      rintro hfault s' ⟨hh, hvault, hmem, hen, -, hsealed⟩
      have hn : j.header.needsAccountKey = false := by
        by_contra hn
        obtain ⟨h₁, h₂⟩ := hsave hid (Bool.not_eq_false _ ▸ hn)
        exact hfault.elim h₁ h₂
      have hnone : key = none := by
        rw [hn] at hneed
        exact Option.isSome_eq_false_iff.mp hneed.symm |> Option.isNone_iff_eq_none.mp
      rw [hnone] at hu
      exact Ready.staysOpen_right ⟨Openable.of_header hh (opens_alone hn hu) hvault.symm hsealed
        fun w hw => Option.some.inj (hw.symm.trans hmem), hen⟩
    · rintro s' e ⟨hh, hvault, hmem, -, hfloor, hsealed⟩ he
      rw [if_neg hid]
      exact ⟨.inr (Openable.of_header hh (opens_paired hneed hu rfl he) hvault.symm hsealed
        fun w hw => Option.some.inj (hw.symm.trans hmem)), rfl, hfloor⟩

theorem unpaired_ends (hk : ∀ s, P s → K s)
    (h : ∀ s, P s → s.db.enrolment = none → s.db.lock.active = false → Act.Ends (· = s) m (fun _ => K) fun _ => K) :
    Act.Ends P (unpaired m) (fun _ => K) fun _ => K := by
  apply Act.Ends.get_bind
  intro s hs
  refine Act.Ends.ite (fun _ => Act.Ends.fail fun s' hs' => hk s' (hs' ▸ hs)) fun hp => ?_
  refine .ite (fun _ => .fail fun s' hs' => hk s' (hs' ▸ hs)) fun hl => ?_
  exact h s hs (Option.not_isSome_iff_eq_none.mp hp) (Bool.eq_false_iff.mpr hl)

theorem unlocked_ends {s : FlowState} (hk : K s)
    (h : s.vaultStatus ≠ .locked → Act.Ends (· = s) m (fun _ => K) fun _ => K) :
    Act.Ends (· = s) (unlocked m) (fun _ => K) fun _ => K := by
  apply Act.Ends.get_bind
  rintro s' rfl
  exact Act.Ends.ite (fun _ => Act.Ends.fail fun s'' hs => hs ▸ hk) h

theorem approach_bind_ends {s : FlowState}
    {m : UnlockedVault → Flow Unit} (hk : K s) (hen : s.db.enrolment = none)
    (hlock : s.db.lock.active = false) (hopen : s.vaultStatus ≠ .locked)
    (hm : ∀ v, j.header.unlockWith j.password key = .ok v → LetIn fault j key s →
      Act.Ends (· = s) (m v) (fun _ => K) fun _ => K) :
    Act.Ends (· = s) (approach fault j key >>= m) (fun _ => K) fun _ => K := by
  refine .bind (approach_ends j key hk).track fun v => ?_
  rintro s' ⟨⟨rfl, hu⟩, hrun⟩
  exact hm v hu ⟨hen, hlock, hopen, v, hrun⟩ s' rfl

theorem syncJoin_ends (handover : Handover) (j : Joining) (ht : j.header.Truthful) {s : FlowState}
    (ho : Openable p s.toStore) (hf : FloorHeld s)
    (hsave : LetIn fault j handover.accountKey s → SavesKey fault j s)
    (hset : LetIn fault j handover.accountKey s → fault = some .setFloor →
      (if j.header.vaultId = s.db.vaultId then s.db.floor else none) = handover.manifest) :
    Act.Ends (· = s) (syncJoin fault handover j) (fun _ => StaysOpen p j.password)
      fun _ => StaysOpen p j.password := by
  have hk : ∀ s', s' = s → StaysOpen p j.password s' := fun s' hs => hs ▸ ⟨.inl ho, hf⟩
  refine unpaired_ends hk fun s' hs' hen hlock => ?_
  subst hs'
  refine unlocked_ends ⟨.inl ho, hf⟩ fun hopen => ?_
  refine .bind (attempt_ends fun _ => hk) fun _ => ?_
  refine .bind (attempt_ends fun _ => hk) fun _ => ?_
  refine .bind (attempt_ends fun _ => hk) fun _ => ?_
  refine .ite (fun _ => .fail hk) fun _ => ?_
  refine approach_bind_ends ⟨.inl ho, hf⟩ hen hlock hopen fun v hu hlet => ?_
  refine .bind (enter_ends ⟨ho, hen⟩ ht hu (hsave hlet)) fun _ => ?_
  refine .bind (attempt_ends fun hfault s' h => ⟨h.1, fun _ m hm => ?_⟩) fun _ => ?_
  · rw [h.2.1] at hm
    rw [h.2.2, hset hlet hfault]
    exact Option.some.inj hm
  · refine .modify fun s' h => ⟨?_, fun _ m hm => ?_⟩
    · exact h.1.imp (fun h => h.setManifestFloor _) fun h => h.setManifestFloor _
    · rw [show s'.handed = some m from hm] at h
      rw [setManifestFloor_floor]
      exact (Option.some.inj h.2.1).symm

theorem syncSsoJoin_ends (setup : Setup) (accountKey : Option AccountKey) (j : Joining)
    (ht : j.header.Truthful) {s : FlowState} (ho : Openable p s.toStore) (hf : FloorHeld s)
    (hsave : LetIn fault j (accountKey.filter fun _ => j.params.needsAccountKey) s →
      SavesKey fault j s) :
    Act.Ends (· = s) (syncSsoJoin fault setup accountKey j) (fun _ => StaysOpen p j.password)
      fun _ => StaysOpen p j.password := by
  have hk : ∀ s', s' = s → StaysOpen p j.password s' := fun s' hs => hs ▸ ⟨.inl ho, hf⟩
  refine unpaired_ends hk fun s' hs' hen hlock => ?_
  subst hs'
  refine unlocked_ends ⟨.inl ho, hf⟩ fun hopen => ?_
  refine .bind (attempt_ends fun _ => hk) fun _ => ?_
  refine .bind (attempt_ends fun _ => hk) fun _ => ?_
  refine .ite (fun _ => .fail hk) fun _ => ?_
  refine approach_bind_ends ⟨.inl ho, hf⟩ hen hlock hopen fun v hu hlet => ?_
  refine (enter_ends ⟨ho, hen⟩ ht hu (hsave hlet)).conseq (fun _ h => h) (fun _ s' h => ?_) fun _ _ h => h
  refine ⟨h.1, fun _ m hm => ?_⟩
  rw [h.2.1] at hm
  cases hm

/-! ## Leaving an account -/

/-- A vault the password opens, and a floor that holds. -/
def Sound (p : Password) (s : FlowState) : Prop := Openable p s.toStore ∧ FloorHeld s

theorem rewrapVault_ends : Act.Ends (Sound p) (rewrapVault fault salt p none)
    (fun _ s => Sound p s ∧ ∀ h, s.db.header = some h → h.needsAccountKey = false) fun _ => StaysOpen p p := by
  have hk : ∀ s, Sound p s → StaysOpen p p s := fun s hs => ⟨.inl hs.1, hs.2⟩
  refine .bind (attempt_ends fun _ => hk) fun _ => .get_bind ?_
  rintro s₀ ⟨ho, hf⟩
  have hk₀ : ∀ s, s = s₀ → StaysOpen p p s := fun s hs => hs ▸ ⟨.inl ho, hf⟩
  split
  · exact .fail hk₀
  · next header hw =>
    obtain ⟨v, hv, hu, hneed⟩ := wrapVaultKey_spec hw
    refine .bind (attempt_ends fun _ => hk₀) fun _ => call_ends ?_ hk₀
    rintro s store rfl hkeep
    refine ⟨⟨ho.keepVaultHeader hv hkeep (opens_alone hneed hu), ?_⟩, fun h hh => ?_⟩
    · show store.db.enrolment.isSome → ∀ m, s.handed = some m → store.db.floor = m
      rw [keepVaultHeader_db hkeep]
      exact hf
    · rw [show ({ s with toStore := store } : FlowState).db.header = store.db.header from rfl,
        keepVaultHeader_db hkeep] at hh
      cases hh
      exact hneed

theorem syncDisconnect_ends (password : Password) (salt : ℕ) {s : FlowState} (ho : Openable p s.toStore)
    (hf : FloorHeld s) : Act.Ends (· = s) (syncDisconnect fault password salt) (fun _ => StaysOpen p password) fun _
    => StaysOpen p password := by
  have hk : ∀ s', s' = s → StaysOpen p password s' := fun s' hs => hs ▸ ⟨.inl ho, hf⟩
  apply Act.Ends.get_bind
  rintro s' rfl
  split
  · exact Act.Ends.pure hk
  · exact .fail hk
  · next enrolment header hen hh =>
    refine .bind (attempt_ends fun _ => hk) fun _ => ?_
    dsimp only
    cases hu : header.unlockWith password (enrolment.protectedAccountKey.map Protected.plain) with
    | error e => exact .fail hk
    | ok v =>
      obtain rfl := ho.password_eq hh hu
      refine Act.Ends.bind (R := fun _ => Sound p) ?_ fun _ => ?_
      · apply Act.Ends.ite
        · intro _
          refine .bind (attempt_ends fun _ => hk) fun _ => call_ends ?_ hk
          rintro s store rfl hcall
          obtain ⟨h, w, hh, hw, rfl⟩ := Store.unlockVaultWith_eq_ok hcall
          exact ⟨ho.unlocked hh hw, hf⟩
        · exact fun _ => .pure fun s hs => hs ▸ ⟨ho, hf⟩
      refine .bind rewrapVault_ends fun _ => ?_
      refine .bind (attempt_ends fun _ s hs => ⟨.inl hs.1.1, hs.1.2⟩) fun _ => ?_
      refine .modify fun s hs => ⟨.inl (hs.1.1.forgetEnrolment hs.2), ?_⟩
      exact floorHeld_of_unpaired rfl

/-! ## Unlocking and locking -/

theorem unlockVault_ends (password : Password) (recovery : Option AccountKey) :
    Act.Ends (Sound p) (unlockVault fault password recovery) (fun _ => Sound p) fun _ => Sound p := by
  apply Act.Ends.get_bind
  rintro s₀ hs₀
  have hk : ∀ s, s = s₀ → Sound p s := fun s hs => hs ▸ hs₀
  apply Act.Ends.ite
  · intro _
    split
    · exact .fail hk
    · refine call_ends ?_ hk
      rintro s store rfl hcall
      obtain ⟨h, v, hh, hu, rfl⟩ := Store.unlockVaultWith_eq_ok hcall
      exact ⟨hs₀.1.unlocked hh hu, hs₀.2⟩
  · intro _
    refine call_ends ?_ hk
    rintro s store rfl hcall
    obtain ⟨h, v, hh, hu, rfl⟩ := Store.unlockVault_eq_ok hcall
    exact ⟨hs₀.1.unlocked hh (VaultHeader.unlock_eq_ok.mp hu).2, hs₀.2⟩

end Flow

/-! ## Runs -/

/-- An operation on the vault, with the step of it that fails, if one does. -/
inductive VaultOp where
  | connect (fault : Option FlowStep) (c : Creation)
  | ssoCreate (fault : Option FlowStep) (c : Creation)
  | join (fault : Option FlowStep) (handover : Handover) (j : Joining)
  | ssoJoin (fault : Option FlowStep) (setup : Setup) (accountKey : Option AccountKey) (j : Joining)
  | disconnect (fault : Option FlowStep) (password : Password) (salt : ℕ)
  | unlock (fault : Option FlowStep) (password : Password) (recovery : Option AccountKey)
  | lock

namespace VaultOp

def action : VaultOp → Flow Unit
  | connect fault c => Flow.syncConnect fault c
  | ssoCreate fault c => Flow.syncSsoCreate fault c
  | join fault handover j => Flow.syncJoin fault handover j
  | ssoJoin fault setup accountKey j => Flow.syncSsoJoin fault setup accountKey j
  | disconnect fault password salt => Flow.syncDisconnect fault password salt
  | unlock fault password recovery => Flow.unlockVault fault password recovery
  | lock => Flow.lockVault

/-- The state an operation leaves, wherever it ended. -/
def run (op : VaultOp) (s : FlowState) : FlowState := (op.action s).2

def password : VaultOp → Option Password
  | connect _ c => some c.password
  | ssoCreate _ c => some c.password
  | join _ _ j => some j.password
  | ssoJoin _ _ _ j => some j.password
  | disconnect _ password _ => some password
  | unlock _ password _ => some password
  | lock => none

/-- The header the server hands to a joining device is one a device made. -/
def Honest : VaultOp → Prop
  | join _ _ j => j.header.Truthful
  | ssoJoin _ _ _ j => j.header.Truthful
  | _ => True

/-- A join that gets to the account's vault goes on to keep what opens it and the floor: no step
between the two fails where that leaves something behind. -/
def Unbroken (s : FlowState) : VaultOp → Prop
  | join fault handover j => Flow.LetIn fault j handover.accountKey s →
      Flow.SavesKey fault j s ∧ (fault = some .setFloor →
        (if j.header.vaultId = s.db.vaultId then s.db.floor else none) = handover.manifest)
  | ssoJoin fault _ accountKey j =>
      Flow.LetIn fault j (accountKey.filter fun _ => j.params.needsAccountKey) s →
        Flow.SavesKey fault j s
  | _ => True

theorem staysOpen (op : VaultOp) {s : FlowState} (ho : Openable p s.toStore) (hf : FloorHeld s)
    (hh : op.Honest) (hu : op.Unbroken s) : StaysOpen p (op.password.getD p) (op.run s) := by
  have create {fault : Option FlowStep} {c : Creation} : Act.Ends (· = s) (Flow.unpaired do
          Flow.checkPassword c.password
          Flow.createAccountWith fault c)
        (fun _ => StaysOpen p c.password) fun _ => StaysOpen p c.password := by
    refine Flow.unpaired_ends (fun s' hs => hs ▸ ⟨.inl ho, hf⟩) fun s' hs hen _ => ?_
    refine .bind (Flow.checkPassword_ends.conseq (fun s'' hs' => ?_) (fun _ _ h => h)
      fun _ _ h => h) fun _ => Flow.createAccountWith_ends c rfl
    rw [hs', hs] at *
    exact ⟨ho, hen⟩
  cases op with
  | connect fault c | ssoCreate fault c => exact Act.Ends.always create rfl
  | join fault handover j =>
    exact Act.Ends.always (Flow.syncJoin_ends handover j hh ho hf (fun h => (hu h).1) fun h => (hu h).2) rfl
  | ssoJoin fault setup accountKey j =>
    exact Act.Ends.always (Flow.syncSsoJoin_ends setup accountKey j hh ho hf hu) rfl
  | disconnect fault password salt =>
    exact Act.Ends.always (Flow.syncDisconnect_ends password salt ho hf) rfl
  | unlock fault password recovery =>
    have hs : Flow.Sound p (Flow.unlockVault fault password recovery s).2 :=
      Act.Ends.always (Flow.unlockVault_ends password recovery) ⟨ho, hf⟩
    exact ⟨.inl hs.1, hs.2⟩
  | lock =>
    refine ⟨.inl ⟨fun h hs => ?_, fun hn => ⟨rfl, (ho.absent hn).2⟩⟩, hf⟩
    obtain ⟨v, hop, hid, hsealed, -⟩ := ho.opens h hs
    exact ⟨v, hop, hid, hsealed, fun w hw => nomatch hw⟩

end VaultOp

def runOps (s : FlowState) (ops : List VaultOp) : FlowState := ops.foldl (fun s op => op.run s) s

/-- Every operation of a run is unbroken where it starts. -/
def RunUnbroken (s : FlowState) : List VaultOp → Prop
  | [] => True
  | op :: rest => op.Unbroken s ∧ RunUnbroken (op.run s) rest

/-- **The vault can be opened again.** From a store whose vault a password opens, or without one,
every run whose joins are unbroken leaves a vault that a password the person gave opens, with the
account key this device kept if it takes one, to the key the secrets are sealed under; and a device
paired through a handover has the floor it was handed. -/
theorem runOps_openable (p : Password) (s : FlowState) (ops : List VaultOp) (ho : Openable p s.toStore)
    (hf : FloorHeld s) (hh : ∀ op ∈ ops, op.Honest) (hu : RunUnbroken s ops) :
    (∃ q ∈ p :: ops.filterMap VaultOp.password, Openable q (runOps s ops).toStore) ∧ FloorHeld (runOps s ops) := by
  induction ops generalizing p s with
  | nil => exact ⟨⟨p, List.mem_cons_self, ho⟩, hf⟩
  | cons op rest ih =>
    obtain ⟨hopen, hfloor⟩ := op.staysOpen ho hf (hh op List.mem_cons_self) hu.1
    have hrest : ∀ op ∈ rest, op.Honest := fun op' hm => hh op' (List.mem_cons_of_mem op hm)
    rcases hopen with hopen | hopen
    · obtain ⟨⟨q, hq, hopenq⟩, hfl⟩ := ih p (op.run s) hopen hfloor hrest hu.2
      refine ⟨⟨q, ?_, hopenq⟩, hfl⟩
      rcases List.mem_cons.mp hq with rfl | hq
      · exact List.mem_cons_self
      · refine List.mem_cons_of_mem p ?_
        rw [List.filterMap_cons]
        split
        · exact hq
        · exact List.mem_cons_of_mem _ hq
    · obtain ⟨⟨q, hq, hopenq⟩, hfl⟩ := ih _ (op.run s) hopen hfloor hrest hu.2
      refine ⟨⟨q, ?_, hopenq⟩, hfl⟩
      rw [List.filterMap_cons]
      cases hpw : op.password with
      | none =>
        rw [hpw] at hq
        exact hq
      | some r =>
        rw [hpw] at hq
        exact List.mem_cons_of_mem p hq

/-! ## Joining with an account key -/

/-- An account at a server, whose vault needs account key 9. -/
def someJoining : Joining where
  password := [1]
  deviceKey := 3
  params := ⟨.recommended, true⟩
  admitted := ⟨40, 41⟩
  header := ⟨8, .recommended, 5, ⟨⟨[1], 5, .recommended, some 9⟩, 8, 77⟩, true⟩

def someHandover : Handover := ⟨⟨"s".toList, none⟩, some 9, some ⟨50, ⟨5, 0, 2⟩⟩⟩

def freshState : FlowState := ⟨⟨Db.fresh 1, none⟩, none⟩

theorem openable_fresh (p : Password) : Openable p freshState.toStore where
  opens _ hh := nomatch hh
  absent _ := ⟨rfl, fun _ _ hr => nomatch hr⟩

/-- A join that goes through, and a device that leaves again. -/
theorem runOps_openable_join : ∃ q, Openable q
    (runOps freshState [.join none someHandover someJoining, .disconnect none [1] 6]).toStore := by
  have honest : ∀ op ∈ [VaultOp.join none someHandover someJoining, .disconnect none [1] 6], op.Honest := by
    intro op hm
    rcases List.mem_cons.mp hm with rfl | hm
    · exact rfl
    · obtain rfl := List.mem_singleton.mp hm
      trivial
  obtain ⟨⟨q, -, h⟩, -⟩ := runOps_openable [1] freshState
    [.join none someHandover someJoining, .disconnect none [1] 6] (openable_fresh [1])
    (Flow.floorHeld_of_unpaired rfl) honest
    ⟨fun _ => ⟨fun _ _ => ⟨nofun, nofun⟩, nofun⟩, trivial, trivial⟩
  exact ⟨q, h⟩

/-- The operating system cannot seal the account key: the vault of the account is kept, and nothing
here opens it. -/
theorem join_strands_vault : ¬∀ (p : Password) (s : FlowState) (ops : List VaultOp), Openable p s.toStore → FloorHeld
    s → (∀ op ∈ ops, op.Honest) → ∃ q ∈ p :: ops.filterMap VaultOp.password, Openable q (runOps s ops).toStore := by
  intro hall
  obtain ⟨q, -, hopen⟩ := hall [1] freshState [.join (some .protect) someHandover someJoining]
    (openable_fresh [1]) (Flow.floorHeld_of_unpaired rfl) fun op hm => by
      obtain rfl := List.mem_singleton.mp hm
      exact rfl
  have hheader : (runOps freshState [.join (some .protect) someHandover someJoining]).db.header =
      some someJoining.header := by decide +kernel
  have hnone : (runOps freshState [.join (some .protect) someHandover someJoining]).db.enrolment =
      none := by decide +kernel
  obtain ⟨v, hu, -⟩ := hopen.unlock hnone hheader
  exact absurd (VaultHeader.unlock_eq_ok.mp hu).1 (by decide)

end UwuRdp
