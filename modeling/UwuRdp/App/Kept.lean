import UwuRdp.App.Device
import UwuRdp.Store.Db

/-!
# What a device keeps between starts

The keys of a pairing and the key of a remembered vault are kept in the database, sealed for the
signed-in user. They are forgotten when they will never open again, and only then: no keychain that
does not answer and no key file that cannot be read makes a blob that was sealed here one of those.
-/

namespace UwuRdp

open Lib

namespace Device

/-- `<[u8; N]>::try_from`. -/
def tryFrom (n : ℕ) (bytes : List UInt8) : Option (Vector UInt8 n) :=
  if h : bytes.length = n then some ⟨bytes.toArray, by simpa using h⟩ else none

@[simp] theorem tryFrom_toList {n : ℕ} (v : Vector UInt8 n) : tryFrom n v.toList = some v := by
  unfold tryFrom
  rw [dif_pos v.length_toList]
  rfl

/-- An open vault, with the bytes of its key. -/
structure KeyedVault where
  vaultId : Uuid
  key : Vector UInt8 32

/-- The stored row: vault id, protected key, and the check value. -/
structure KeptKey where
  vaultId : Uuid
  protectedKey : List UInt8
  check : SealedBytes

/-- What `protect` returned, and for what. -/
structure Returned where
  label : List UInt8
  bytes : List UInt8
  blob : List UInt8

/-- The device: the places of its own key, the rows that hold what was sealed, and the vault. -/
structure State where
  places : Places
  /-- The id in the vault's header. -/
  header : Option Uuid
  vault : Option KeyedVault
  protectedDeviceKey : Option (List UInt8)
  protectedAccountKey : Option (List UInt8)
  unlock : Option KeptKey
  /-- Everything `protect` returned so far. Nothing reads it. -/
  returned : List Returned

def State.fresh (p : Places) : State where
  places := p
  header := none
  vault := none
  protectedDeviceKey := none
  protectedAccountKey := none
  unlock := none
  returned := []

structure EnrolmentKeys where
  deviceKey : Vector UInt8 32
  accountKey : Option (Vector UInt8 16)

/-- Sealed with the real vault key next to the protected copy. -/
def checkText : List UInt8 := asciiBytes "uwurdp/device-unlock/v1"

def checkId (vaultId : Uuid) : Uuid := vaultId ^^^ 0x7577_7573_7368_2d64_6576_6963_652d_636b

/-- Whether what the operating system said about a sealed blob means it will never open here. -/
def neverOpens (e : IoError) : Bool := e.kind = .invalidData

/-! ## The calls -/

section Calls

variable (c : TaggedAead (List UInt8) 16) (display : KeyringError → String)
  (v : Aead (List UInt8))

/-- `protect`, as the store is given it. -/
def sealed (bytes label : List UInt8) (t : Turn) : Act State StoreError (List UInt8) := fun st =>
  match protect c bytes label t st.places with
  | (.ok b, p) => (.ok b, { st with places := p, returned := st.returned ++ [⟨label, bytes, b⟩] })
  | (.error _, p) => (.error .device, { st with places := p })

/-- The account key of a pairing, sealed where there is one. -/
def sealedAccount (accountKey : Option (Vector UInt8 16)) (t : Turn) :
    Act State StoreError (Option (List UInt8)) :=
  match accountKey with
  | none => pure none
  | some key => do
    let b ← sealed c key.toList syncLabel t
    pure (some b)

def saveEnrolment (deviceKey : Vector UInt8 32) (accountKey : Option (Vector UInt8 16))
    (t t' : Turn) : Act State StoreError Unit := do
  let device ← sealed c deviceKey.toList syncLabel t
  let account ← sealedAccount c accountKey t'
  Act.modify fun st => { st with protectedDeviceKey := some device, protectedAccountKey := account }

def State.forgetEnrolment (st : State) : State :=
  { st with protectedDeviceKey := none, protectedAccountKey := none }

/-- What the two blobs of a pairing hold; `none` when they open and are not what was kept. -/
def openEnrolment (p : Places) (device : List UInt8) (account : Option (List UInt8)) (l l' : Look) :
    Except IoError (Option EnrolmentKeys) :=
  match unprotect c display device syncLabel l p with
  | .error e => .error e
  | .ok bytes =>
    match tryFrom 32 bytes, account with
    | none, _ => .ok none
    | some deviceKey, none => .ok (some ⟨deviceKey, none⟩)
    | some deviceKey, some account =>
      match unprotect c display account syncLabel l' p with
      | .error e => .error e
      | .ok bytes =>
        match tryFrom 16 bytes with
        | none => .ok none
        | some accountKey => .ok (some ⟨deviceKey, some accountKey⟩)

/-- The keys a paired device signs and unlocks with. The pairing is dropped when they will never be
unsealed again. -/
def enrolmentKeys (l l' : Look) : Act State StoreError (Option EnrolmentKeys) := fun st =>
  match st.protectedDeviceKey with
  | none => (.ok none, st)
  | some device =>
    match openEnrolment c display st.places device st.protectedAccountKey l l' with
    | .ok (some keys) => (.ok (some keys), st)
    | .ok none => (.ok none, st.forgetEnrolment)
    | .error e => if neverOpens e then (.ok none, st.forgetEnrolment) else (.error .device, st)

def rememberVault (nonce : Vector UInt8 24) (t : Turn) : Act State StoreError Unit := do
  let st ← Act.get
  match st.vault with
  | none => Act.fail .vaultLocked
  | some vault =>
    let check := encryptRecord v nonce.toList vault.key.toList (checkId vault.vaultId) .secret
      vault.vaultId checkText
    let b ← sealed c vault.key.toList vaultLabel t
    Act.modify fun st => { st with unlock := some ⟨vault.vaultId, b, check⟩ }

def State.forgetRememberedVault (st : State) : State := { st with unlock := none }

/-- The vault a kept key opens; `none` when what is kept does not fit this vault. -/
def openKept (st : State) (kept : KeptKey) (l : Look) : Except IoError (Option KeyedVault) :=
  if st.header ≠ some kept.vaultId then .ok none
  else
    match unprotect c display kept.protectedKey vaultLabel l st.places with
    | .error e => .error e
    | .ok bytes =>
      match tryFrom 32 bytes with
      | none => .ok none
      | some key =>
        if decryptRecord v key.toList (checkId kept.vaultId) .secret kept.vaultId kept.check =
            some checkText then .ok (some ⟨kept.vaultId, key⟩)
        else .ok none

def unlockRememberedVault (l : Look) : Act State StoreError Bool := fun st =>
  match st.unlock with
  | none => (.ok false, st)
  | some kept =>
    match openKept c display v st kept l with
    | .ok (some vault) => (.ok true, { st with vault := some vault })
    | .ok none => (.ok false, st.forgetRememberedVault)
    | .error e =>
      if neverOpens e then (.ok false, st.forgetRememberedVault) else (.error .device, st)

/-- What may happen on a device, one after the other. -/
inductive Call where
  /-- Some other secret is sealed, for any purpose. -/
  | protect (bytes label : List UInt8) (t : Turn)
  | unprotect (blob label : List UInt8) (l : Look)
  | saveEnrolment (deviceKey : Vector UInt8 32) (accountKey : Option (Vector UInt8 16))
      (t t' : Turn)
  | enrolmentKeys (l l' : Look)
  | forgetEnrolment
  | rememberVault (nonce : Vector UInt8 24) (t : Turn)
  | unlockRememberedVault (l : Look)
  | forgetRememberedVault
  /-- The vault is made, replaced, unlocked or locked in another way. -/
  | vault (header : Option Uuid) (vault : Option KeyedVault)

def step (st : State) : Call → State
  | .protect bytes label t => (sealed c bytes label t st).2
  | .unprotect _ _ _ => st
  | .saveEnrolment deviceKey accountKey t t' => (saveEnrolment c deviceKey accountKey t t' st).2
  | .enrolmentKeys l l' => (enrolmentKeys c display l l' st).2
  | .forgetEnrolment => st.forgetEnrolment
  | .rememberVault nonce t => (rememberVault c v nonce t st).2
  | .unlockRememberedVault l => (unlockRememberedVault c display v l st).2
  | .forgetRememberedVault => st.forgetRememberedVault
  | .vault header vault => { st with header := header, vault := vault }

def run (st : State) (calls : List Call) : State := calls.foldl (step c display v) st

end Calls

/-! ## What is kept was sealed here -/

section Keeping

variable {c : TaggedAead (List UInt8) 16} {display : KeyringError → String}
  {v : Aead (List UInt8)}

variable (c v) in
/-- Every blob that was returned can still be opened or may be, and every blob in a row was returned
for what the row is read as. -/
structure Sound (st : State) : Prop where
  returned : ∀ r ∈ st.returned, SealedFor c r.label r.bytes r.blob st.places
  deviceKey : ∀ b, st.protectedDeviceKey = some b →
    ∃ key : Vector UInt8 32, ⟨syncLabel, key.toList, b⟩ ∈ st.returned
  accountKey : ∀ b, st.protectedAccountKey = some b →
    ∃ key : Vector UInt8 16, ⟨syncLabel, key.toList, b⟩ ∈ st.returned
  unlock : ∀ kept, st.unlock = some kept → ∃ key : Vector UInt8 32,
    ⟨vaultLabel, key.toList, kept.protectedKey⟩ ∈ st.returned ∧
      decryptRecord v key.toList (checkId kept.vaultId) .secret kept.vaultId kept.check =
        some checkText

theorem sound_fresh (p : Places) : Sound c v (State.fresh p) where
  returned _ hr := absurd hr List.not_mem_nil
  deviceKey _ hb := absurd hb (by simp [State.fresh])
  accountKey _ hb := absurd hb (by simp [State.fresh])
  unlock _ hk := absurd hk (by simp [State.fresh])

variable {st : State}

theorem Sound.forgetEnrolment (h : Sound c v st) : Sound c v st.forgetEnrolment where
  returned := h.returned
  deviceKey _ hb := absurd hb (by simp [State.forgetEnrolment])
  accountKey _ hb := absurd hb (by simp [State.forgetEnrolment])
  unlock := h.unlock

theorem Sound.forgetRememberedVault (h : Sound c v st) :
    Sound c v st.forgetRememberedVault where
  returned := h.returned
  deviceKey := h.deviceKey
  accountKey := h.accountKey
  unlock _ hk := absurd hk (by simp [State.forgetRememberedVault])

theorem Sound.grow (h : Sound c v st) {p : Places} (hg : Grows st.places p)
    {new : List Returned} (hnew : ∀ r ∈ new, SealedFor c r.label r.bytes r.blob p) :
    Sound c v { st with places := p, returned := st.returned ++ new } where
  returned r hr := by
    rcases List.mem_append.mp hr with hr | hr
    · exact (h.returned r hr).mono hg
    · exact hnew r hr
  deviceKey b hb := by
    obtain ⟨key, hmem⟩ := h.deviceKey b hb
    exact ⟨key, List.mem_append_left _ hmem⟩
  accountKey b hb := by
    obtain ⟨key, hmem⟩ := h.accountKey b hb
    exact ⟨key, List.mem_append_left _ hmem⟩
  unlock kept hk := by
    obtain ⟨key, hmem, hcheck⟩ := h.unlock kept hk
    exact ⟨key, List.mem_append_left _ hmem, hcheck⟩

theorem sealed_ends (bytes label : List UInt8) (t : Turn) (before : List Returned) : Act.Ends
    (fun st => Sound c v st ∧ before ⊆ st.returned) (sealed c bytes label t)
    (fun b st => Sound c v st ∧ ⟨label, bytes, b⟩ :: before ⊆ st.returned) (fun _ => Sound c v) := by
  rintro st ⟨hs, hbefore⟩
  have hprotect := protect_ends (c := c) bytes label t st.places st.places rfl
  unfold sealed
  rcases hp : protect c bytes label t st.places with ⟨r, p⟩
  rw [hp] at hprotect
  cases r with
  | ok b =>
    have hnew : ∀ r ∈ [(⟨label, bytes, b⟩ : Returned)], SealedFor c r.label r.bytes r.blob p := by
      intro r hr
      rw [List.mem_singleton.mp hr]
      exact hprotect.2
    refine ⟨hs.grow hprotect.1 hnew, List.cons_subset.mpr ⟨?_, ?_⟩⟩
    · exact List.mem_append_right _ (List.mem_singleton.mpr rfl)
    · exact fun r hr => List.mem_append_left _ (hbefore hr)
  | error e =>
    have hgrow := hs.grow (p := p) hprotect fun r hr => absurd hr List.not_mem_nil
    rwa [List.append_nil] at hgrow

theorem sealedAccount_ends (accountKey : Option (Vector UInt8 16)) (t : Turn)
    (before : List Returned) :
    Act.Ends (fun st => Sound c v st ∧ before ⊆ st.returned) (sealedAccount c accountKey t)
      (fun account st => Sound c v st ∧ before ⊆ st.returned ∧ ∀ b, account = some b →
        ∃ key : Vector UInt8 16, ⟨syncLabel, key.toList, b⟩ ∈ st.returned)
      (fun _ => Sound c v) := by
  cases accountKey with
  | none => exact .pure fun st h => ⟨h.1, h.2, fun b hb => absurd hb (by simp)⟩
  | some key =>
    refine (sealed_ends key.toList syncLabel t before).bind fun b => .pure fun st h => ?_
    obtain ⟨hmem, hbefore⟩ := List.cons_subset.mp h.2
    refine ⟨h.1, hbefore, fun b' hb => ⟨key, ?_⟩⟩
    exact Option.some.inj hb ▸ hmem

theorem saveEnrolment_ends (deviceKey : Vector UInt8 32) (accountKey : Option (Vector UInt8 16)) (t t' : Turn) :
    Act.Ends (Sound c v) (saveEnrolment c deviceKey accountKey t t') (fun _ => Sound c v) (fun _ => Sound c v) := by
  have hstart : ∀ st, Sound c v st → Sound c v st ∧ [] ⊆ st.returned := fun st hs => ⟨hs, List.nil_subset _⟩
  refine ((sealed_ends deviceKey.toList syncLabel t []).conseq hstart (fun _ _ h => h)
    (fun _ _ h => h)).bind fun device => ?_
  refine (sealedAccount_ends accountKey t' _).bind fun account => .modify fun st h => ?_
  obtain ⟨hs, hmem, haccount⟩ := h
  refine ⟨hs.returned, fun b hb => ⟨deviceKey, ?_⟩, haccount, hs.unlock⟩
  exact Option.some.inj hb ▸ hmem (List.mem_singleton.mpr rfl)

theorem rememberVault_ends (nonce : Vector UInt8 24) (t : Turn) :
    Act.Ends (Sound c v) (rememberVault c v nonce t) (fun _ => Sound c v) (fun _ => Sound c v) := by
  refine .get_bind fun st hs => ?_
  cases st.vault with
  | none => exact .fail fun s h => h ▸ hs
  | some vault =>
    have hstart : ∀ s, s = st → Sound c v s ∧ [] ⊆ s.returned := fun s h => ⟨h ▸ hs, List.nil_subset _⟩
    refine ((sealed_ends vault.key.toList vaultLabel t []).conseq hstart (fun _ _ h => h)
      (fun _ _ h => h)).bind fun b => .modify fun s h => ?_
    refine ⟨h.1.returned, h.1.deviceKey, h.1.accountKey, fun kept hk => ?_⟩
    cases Option.some.inj hk
    refine ⟨vault.key, h.2 (List.mem_singleton.mpr rfl), ?_⟩
    exact openBytes_sealBytes_self v nonce.length_toList _ _ _

/-! ## What is kept is not forgotten -/

theorem openEnrolment_sound {st : State} (h : Sound c v st) {device : List UInt8}
    (hdevice : st.protectedDeviceKey = some device) (l l' : Look) :
    (∃ keys, openEnrolment c display st.places device st.protectedAccountKey l l' = .ok (some keys)) ∨ ∃ e,
    openEnrolment c display st.places device st.protectedAccountKey l l' = .error e ∧ e.kind ≠ .invalidData := by
  obtain ⟨key, hmem⟩ := h.deviceKey device hdevice
  unfold openEnrolment
  obtain hopen | ⟨e, hopen, he⟩ := @Device.SealedFor.unprotect _ display _ _ _ _ (h.returned _ hmem) l
  · simp only [hopen, tryFrom_toList]
    cases haccount : st.protectedAccountKey with
    | none => exact .inl ⟨_, rfl⟩
    | some account =>
      obtain ⟨key', hmem'⟩ := h.accountKey account haccount
      obtain hopen' | ⟨e, hopen', he⟩ := @Device.SealedFor.unprotect _ display _ _ _ _ (h.returned _ hmem') l'
      · simp only [hopen', tryFrom_toList]
        exact .inl ⟨_, rfl⟩
      · simp only [hopen']
        exact .inr ⟨e, rfl, he⟩
  · simp only [hopen]
    exact .inr ⟨e, rfl, he⟩

theorem enrolmentKeys_keeps (h : Sound c v st) (l l' : Look) : (enrolmentKeys c display l l' st).2 = st := by
  unfold enrolmentKeys
  cases hdevice : st.protectedDeviceKey with
  | none => rfl
  | some device =>
    obtain ⟨keys, hopen⟩ | ⟨e, hopen, he⟩ := @openEnrolment_sound _ display _ _ h _ hdevice l l'
    · simp only [hopen]
    · have hmay : neverOpens e = false := by simpa [neverOpens] using he
      simp only [hopen, hmay]
      rfl

theorem openKept_sound {st : State} (h : Sound c v st) {kept : KeptKey} (hkept : st.unlock = some kept)
    (hheader : st.header = some kept.vaultId) (l : Look) :
    (∃ vault, openKept c display v st kept l = .ok (some vault)) ∨ ∃ e, openKept c display v st kept l = .error e ∧
    e.kind ≠ .invalidData := by
  obtain ⟨key, hmem, hcheck⟩ := h.unlock kept hkept
  unfold openKept
  rw [if_neg (not_not_intro hheader)]
  obtain hopen | ⟨e, hopen, he⟩ := @Device.SealedFor.unprotect _ display _ _ _ _ (h.returned _ hmem) l
  · simp only [hopen, tryFrom_toList, if_pos hcheck]
    exact .inl ⟨_, rfl⟩
  · simp only [hopen]
    exact .inr ⟨e, rfl, he⟩

theorem unlockRememberedVault_keeps (h : Sound c v st) (l : Look) :
    (unlockRememberedVault c display v l st).2.unlock = st.unlock ∨
      ∃ kept, st.unlock = some kept ∧ st.header ≠ some kept.vaultId := by
  cases hkept : st.unlock with
  | none =>
    unfold unlockRememberedVault
    simp only [hkept]
    exact .inl trivial
  | some kept =>
    by_cases hheader : st.header = some kept.vaultId
    · refine .inl ?_
      unfold unlockRememberedVault
      obtain ⟨vault, hopen⟩ | ⟨e, hopen, he⟩ := @openKept_sound _ display _ _ h _ hkept hheader l
      · simp only [hkept, hopen]
      · have hmay : neverOpens e = false := by simpa [neverOpens] using he
        simp only [hkept, hopen, hmay]
        exact hkept
    · exact .inr ⟨kept, rfl, hheader⟩

theorem unlockRememberedVault_sound (h : Sound c v st) (l : Look) :
    Sound c v (unlockRememberedVault c display v l st).2 := by
  unfold unlockRememberedVault
  split
  · exact h
  · split
    · exact ⟨h.returned, h.deviceKey, h.accountKey, h.unlock⟩
    · exact h.forgetRememberedVault
    · split
      · exact h.forgetRememberedVault
      · exact h

theorem step_sound (h : Sound c v st) (call : Call) : Sound c v (step c display v st call) := by
  cases call with
  | protect bytes label t =>
    exact ((sealed_ends bytes label t []).conseq (fun s hs => ⟨hs, List.nil_subset _⟩)
      (fun _ _ h => h.1) (fun _ _ h => h)).always h
  | unprotect blob label l => exact h
  | saveEnrolment deviceKey accountKey t t' =>
    exact (saveEnrolment_ends deviceKey accountKey t t').always h
  | enrolmentKeys l l' =>
    show Sound c v (enrolmentKeys c display l l' st).2
    rwa [enrolmentKeys_keeps h]
  | forgetEnrolment => exact h.forgetEnrolment
  | rememberVault nonce t => exact (rememberVault_ends nonce t).always h
  | unlockRememberedVault l => exact unlockRememberedVault_sound h l
  | forgetRememberedVault => exact h.forgetRememberedVault
  | vault header vault => exact ⟨h.returned, h.deviceKey, h.accountKey, h.unlock⟩

theorem run_sound (h : Sound c v st) (calls : List Call) : Sound c v (run c display v st calls) := by
  induction calls generalizing st with
  | nil => exact h
  | cons call calls ih => exact ih (step_sound h call)

end Keeping

/-- After any calls, with any pattern of failures in the keychain and in the file system, a blob that
was sealed here opens for its label to the bytes it was made of or fails in a way that may pass, and
opens for no other label. So the keys of a pairing are not dropped when they are read, and a
remembered vault's key only where the vault is another one. -/
theorem kept_keys_not_forgotten (c : TaggedAead (List UInt8) 16) (display : KeyringError → String)
    (v : Aead (List UInt8)) (start : Places) (calls : List Call) :
    let st := run c display v (State.fresh start) calls
    (∀ r ∈ st.returned, ∀ l,
      (unprotect c display r.blob r.label l st.places = .ok r.bytes ∨
        ∃ e, unprotect c display r.blob r.label l st.places = .error e ∧ e.kind ≠ .invalidData) ∧
      ∀ label opened, unprotect c display r.blob label l st.places = .ok opened →
        label = r.label) ∧
    (∀ l l', (enrolmentKeys c display l l' st).2 = st) ∧
    ∀ l, (unlockRememberedVault c display v l st).2.unlock = st.unlock ∨
      ∃ kept, st.unlock = some kept ∧ st.header ≠ some kept.vaultId := by
  intro st
  have hs : Sound c v st := run_sound (sound_fresh start) calls
  refine ⟨fun r hr l => ⟨(hs.returned r hr).unprotect l, fun label opened hopen => ?_⟩, ?_, ?_⟩
  · exact (hs.returned r hr).other_label hopen
  · exact fun l l' => enrolmentKeys_keeps hs l l'
  · exact fun l => unlockRememberedVault_keeps hs l

end Device

end UwuRdp
