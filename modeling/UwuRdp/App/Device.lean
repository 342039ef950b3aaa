import UwuRdp.Lib.Act
import UwuRdp.Proto.Seal

/-!
# Sealing for the signed-in user

On macOS and Linux a random key of the program's own seals what is kept between starts: the one in
the keychain, or the one in a private file where the keychain does not answer. Either place may come
and go from call to call, and a blob does not say which key sealed it. What is shown here is that a
key that sealed something is never replaced in its place, so that looking in both places either finds
it or meets an error.
-/

namespace UwuRdp

open Lib

namespace Device

def account : String := "device-seal-key"
def version : UInt8 := 1

def vaultLabel : List UInt8 := asciiBytes "uwurdp/vault-key/device/v1"
def syncLabel : List UInt8 := asciiBytes "uwurdp/sync-keys/device/v1"

/-! ## Errors -/

/-- What kind of error the system reports, as far as it is told apart. -/
inductive ErrorKind where
  | notFound
  | alreadyExists
  | permissionDenied
  | invalidData
  | other
deriving DecidableEq

structure IoError where
  kind : ErrorKind
  message : String
deriving DecidableEq

/-- What a keychain says instead of a secret. -/
inductive KeyringError where
  /-- There is no such entry. -/
  | noEntry
  | invalid (attr reason : String)
  /-- Locked, slow, or asked and refused. -/
  | refused (text : String)
deriving DecidableEq

/-- How an access to the file system fails. It does not say that a file is missing: that is an
answer. -/
structure FileFault where
  kind : ErrorKind
  text : String
  answersNot : kind ≠ .notFound

def FileFault.error (f : FileFault) : IoError := ⟨f.kind, f.text⟩

/-! ## The places a key is kept in -/

structure KeyFile where
  isFile : Bool
  mode : ℕ
  bytes : List UInt8
deriving DecidableEq

/-- The keychain's entry and the private file. -/
structure Places where
  keychain : Option (List UInt8)
  file : Option KeyFile
deriving DecidableEq

/-- How a look into the keychain goes: what it says instead of opening the entry, or instead of
giving its secret. -/
structure KeychainLook where
  entry : Option String
  get : Option String

/-- How a write to the keychain goes: whether it is kept, and what the keychain complains of. A write
may be dropped in silence. -/
structure KeychainWrite where
  kept : Bool
  complaint : Option String

/-- How the accesses of `keychain_key` go. -/
structure KeychainTurn where
  look : KeychainLook
  entry : Option String
  set : KeychainWrite
  getBack : Option String

/-- How a look for the file goes. -/
structure FileLook where
  /-- Whether there is a home folder. -/
  home : Bool
  stat : Option FileFault
  read : Option FileFault

/-- How the accesses of `file_key` go. -/
structure FileTurn where
  look : FileLook
  home : Bool
  folder : Option FileFault
  create : Option FileFault
  /-- How many bytes of the key reach the file. -/
  kept : ℕ
  write : Option FileFault
  sync : Option FileFault

/-! ## Looking -/

def getSecret (complaint : Option String) (p : Places) : Except KeyringError (List UInt8) :=
  match complaint, p.keychain with
  | some text, _ => .error (.refused text)
  | none, none => .error .noEntry
  | none, some secret => .ok secret

/-- The key in the keychain; `none` when it answers that there is none. An entry that is not a key is
an error, never overwritten. -/
def keychainRead (l : KeychainLook) (p : Places) : Except KeyringError (Option (List UInt8)) :=
  match l.entry with
  | some text => .error (.refused text)
  | none =>
    match getSecret l.get p with
    | .ok secret =>
      if secret.length = 32 then .ok (some secret)
      else .error (.invalid account s!"{secret.length} bytes where a key has 32")
    | .error .noEntry => .ok none
    | .error e => .error e

/-- The key in the private file; `none` when there is no file. -/
def existingFileKey (l : FileLook) (p : Places) : Except IoError (Option (List UInt8)) :=
  if !l.home then .error ⟨.other, "no home folder"⟩
  else
    match l.stat, p.file with
    | some f, _ => .error f.error
    | none, none => .ok none
    | none, some file =>
      -- Only a plain file of ours, readable by nobody else, counts.
      if !file.isFile ∨ file.mode &&& 0o077 ≠ 0 then
        .error ⟨.other, "the seal key file is not private"⟩
      else
        match l.read with
        | some f => .error f.error
        | none =>
          if file.bytes.length = 32 then .ok (some file.bytes)
          else .error ⟨.other, "the seal key file is damaged"⟩

/-! ## Keeping a new key -/

/-- The rest of `keychain_key`, where there is no entry yet. The key is read back, so that a keychain
that silently drops writes is not mistaken for one that keeps them. -/
def newKeychainKey (t : KeychainTurn) (fresh : List UInt8) : Act Places KeyringError (List UInt8) :=
  fun p =>
    match t.entry with
    | some text => (.error (.refused text), p)
    | none =>
      let p' := if t.set.kept then { p with keychain := some fresh } else p
      match t.set.complaint with
      | some text => (.error (.refused text), p')
      | none =>
        match getSecret t.getBack p' with
        | .error e => (.error e, p')
        | .ok stored => if stored = fresh then (.ok fresh, p') else (.error .noEntry, p')

def keychainKey (t : KeychainTurn) (fresh : List UInt8) : Act Places KeyringError (List UInt8) :=
  fun p =>
    match keychainRead t.look p with
    | .error e => (.error e, p)
    | .ok (some key) => (.ok key, p)
    | .ok none => newKeychainKey t fresh p

/-- The rest of `file_key`, where there is no file yet. -/
def newFileKey (t : FileTurn) (fresh : List UInt8) : Act Places IoError (List UInt8) := fun p =>
  if !t.home then (.error ⟨.other, "no home folder"⟩, p)
  else
    match t.folder, t.create, p.file with
    | some f, _, _ => (.error f.error, p)
    | none, some f, _ => (.error f.error, p)
    | none, none, some _ => (.error ⟨.alreadyExists, "File exists"⟩, p)
    | none, none, none =>
      -- From here on the file is there, with what reached it.
      let p' := { p with file := some ⟨true, 0o600, fresh.take t.kept⟩ }
      match t.write, t.sync with
      | some f, _ => (.error f.error, p')
      | none, some f => (.error f.error, p')
      | none, none => (.ok fresh, p')

def fileKey (t : FileTurn) (fresh : List UInt8) : Act Places IoError (List UInt8) := fun p =>
  match existingFileKey t.look p with
  | .error e => (.error e, p)
  | .ok (some key) => (.ok key, p)
  | .ok none => newFileKey t fresh p

/-- What one call of `protect` draws at random, and how its accesses go. -/
structure Turn where
  nonce : Vector UInt8 24
  keychainFresh : Vector UInt8 32
  fileFresh : Vector UInt8 32
  keychain : KeychainTurn
  file : FileTurn

/-- The program's own key for this user, for sealing: from the keychain, made on first use; from a
private file where it does not answer. -/
def sealKey (t : Turn) : Act Places IoError (List UInt8) := fun p =>
  match keychainKey t.keychain t.keychainFresh.toList p with
  | (.ok key, p') => (.ok key, p')
  | (.error _, p') => fileKey t.file t.fileFresh.toList p'

/-! ## Sealing and opening -/

section Cipher

variable (c : TaggedAead (List UInt8) 16) (display : KeyringError → String)

def blob (key nonce label bytes : List UInt8) : List UInt8 :=
  version :: (nonce ++ c.encrypt key nonce label bytes)

def protect (bytes label : List UInt8) (t : Turn) : Act Places IoError (List UInt8) := do
  let key ← sealKey t
  pure (blob c key t.nonce.toList label bytes)

def tryKey {ε : Type} (nonce sealed label : List UInt8) (found : Except ε (Option (List UInt8))) :
    Option (List UInt8) :=
  match found with
  | .ok (some key) => c.decrypt key nonce label sealed
  | _ => none

/-- Open a blob with the keys there are: the keychain's, then the file's. Only when every place that
could hold the key answered and none opens the blob is that `invalidData`. -/
def openedWith (nonce sealed label : List UInt8)
    (keychain : Except KeyringError (Option (List UInt8)))
    (file : Except IoError (Option (List UInt8))) : Except IoError (List UInt8) :=
  match tryKey c nonce sealed label keychain with
  | some opened => .ok opened
  | none =>
    match tryKey c nonce sealed label file with
    | some opened => .ok opened
    | none =>
      match keychain, file with
      | .error e, _ => .error ⟨.other, "the keychain did not answer: " ++ display e⟩
      | _, .error e => .error ⟨.other, "the seal key file: " ++ e.message⟩
      | .ok _, .ok _ => .error ⟨.invalidData, "does not open for this user"⟩

/-- How the accesses of one call of `unprotect` go. -/
structure Look where
  keychain : KeychainLook
  file : FileLook

def unprotect (bytes label : List UInt8) (l : Look) (p : Places) : Except IoError (List UInt8) :=
  match bytes with
  | [] => .error ⟨.invalidData, "not sealed by UwURDP"⟩
  | v :: rest =>
    if v ≠ version then .error ⟨.invalidData, "not sealed by UwURDP"⟩
    else if rest.length < 24 + 16 then .error ⟨.invalidData, "too short"⟩
    else openedWith c display (rest.take 24) (rest.drop 24) label (keychainRead l.keychain p)
      (existingFileKey l.file p)

end Cipher

/-! ## A key that sealed something stays where it is -/

/-- Nothing that is kept in a place is replaced. -/
structure Grows (p p' : Places) : Prop where
  keychain : ∀ secret, p.keychain = some secret → p'.keychain = some secret
  file : ∀ f, p.file = some f → p'.file = some f

@[refl] theorem Grows.refl (p : Places) : Grows p p := ⟨fun _ h => h, fun _ h => h⟩

variable {p : Places}

variable {p' : Places} {found : Option (List UInt8)}

theorem Grows.trans {p'' : Places} (h : Grows p p') (h' : Grows p' p'') : Grows p p'' :=
  ⟨fun s hs => h'.keychain s (h.keychain s hs), fun f hf => h'.file f (h.file f hf)⟩

/-- A key that looking in both places finds, or meets an error in looking for. -/
def Findable (key : List UInt8) (p : Places) : Prop :=
  p.keychain = some key ∨ ∃ f, p.file = some f ∧ (f.bytes = key ∨ f.bytes.length ≠ 32)

theorem Findable.mono {key : List UInt8} (h : Findable key p) (hg : Grows p p') : Findable key p' := by
  rcases h with hk | ⟨f, hf, hb⟩
  · exact .inl (hg.keychain key hk)
  · exact .inr ⟨f, hg.file f hf, hb⟩

theorem keychainRead_eq_ok {l : KeychainLook} (h : keychainRead l p = .ok found) : found = p.keychain := by
  unfold keychainRead at h
  split at h
  · cases h
  · cases hc : l.get with
    | some text =>
      simp only [hc, getSecret] at h
      cases h
    | none =>
      cases hp : p.keychain with
      | none =>
        simp only [hc, hp, getSecret] at h
        exact (Except.ok.inj h).symm
      | some secret =>
        simp only [hc, hp, getSecret] at h
        split at h
        · exact (Except.ok.inj h).symm
        · cases h

theorem existingFileKey_eq_ok {l : FileLook} (h : existingFileKey l p = .ok found) :
    (p.file = none ∧ found = none) ∨ ∃ f, p.file = some f ∧ f.bytes.length = 32 ∧ found = some f.bytes := by
  unfold existingFileKey at h
  split at h
  · cases h
  · split at h
    · cases h
    · next hf => exact .inl ⟨hf, (Except.ok.inj h).symm⟩
    · next f _ hf =>
      split at h
      · cases h
      · split at h
        · cases h
        · split at h
          · next hlen => exact .inr ⟨f, hf, hlen, (Except.ok.inj h).symm⟩
          · cases h

theorem newKeychainKey_ends (t : KeychainTurn) (fresh : List UInt8) (p : Places)
    (hp : p.keychain = none) :
    Act.Ends (· = p) (newKeychainKey t fresh)
      (fun key p' => Grows p p' ∧ p'.keychain = some key) (fun _ p' => Grows p p') := by
  rintro p rfl
  have hset : Grows p (if t.set.kept then { p with keychain := some fresh } else p) := by
    split
    · exact ⟨fun s hs => absurd (hp.symm.trans hs) (by simp), fun _ hf => hf⟩
    · exact Grows.refl p
  unfold newKeychainKey
  cases t.entry with
  | some text => exact Grows.refl p
  | none =>
    cases t.set.complaint with
    | some text => exact hset
    | none =>
      generalize (if t.set.kept then { p with keychain := some fresh } else p) = p' at hset ⊢
      cases hget : getSecret t.getBack p' with
      | error e =>
        simp only [hget]
        exact hset
      | ok stored =>
        by_cases h : stored = fresh
        · simp only [hget, if_pos h]
          refine ⟨hset, ?_⟩
          unfold getSecret at hget
          split at hget
          · cases hget
          · cases hget
          · next hs => rw [hs, ← h, Except.ok.inj hget]
        · simp only [hget, if_neg h]
          exact hset

theorem keychainKey_ends (t : KeychainTurn) (fresh : List UInt8) (p : Places) : Act.Ends (· = p) (keychainKey t fresh)
    (fun key p' => Grows p p' ∧ p'.keychain = some key) (fun _ p' => Grows p p') := by
  rintro p rfl
  unfold keychainKey
  cases hread : keychainRead t.look p with
  | error e => exact Grows.refl p
  | ok found =>
    cases found with
    | some key => exact ⟨Grows.refl p, (keychainRead_eq_ok hread).symm⟩
    | none => exact newKeychainKey_ends t fresh p (keychainRead_eq_ok hread).symm p rfl

theorem newFileKey_ends (t : FileTurn) (fresh : Vector UInt8 32) (p : Places) (hp : p.file = none) : Act.Ends (· = p)
    (newFileKey t fresh.toList) (fun key p' => Grows p p' ∧ Findable key p') (fun _ p' => Grows p p') := by
  rintro p rfl
  have hnew : Grows p { p with file := some ⟨true, 0o600, fresh.toList.take t.kept⟩ } :=
    ⟨fun _ hs => hs, fun f hf => absurd (hp.symm.trans hf) (by simp)⟩
  have hkey : Findable fresh.toList { p with file := some ⟨true, 0o600, fresh.toList.take t.kept⟩ } := by
    refine .inr ⟨_, rfl, ?_⟩
    by_cases hk : 32 ≤ t.kept
    · exact .inl (List.take_of_length_le (by simpa using hk))
    · refine .inr ?_
      -- A write cut short leaves a file that is no key.
      rw [List.length_take]
      omega
  unfold newFileKey
  rw [hp]
  cases t.home with
  | false => exact Grows.refl p
  | true =>
    cases t.folder with
    | some f => exact Grows.refl p
    | none =>
      cases t.create with
      | some f => exact Grows.refl p
      | none =>
        cases t.write with
        | some f => exact hnew
        | none =>
          cases t.sync with
          | some f => exact hnew
          | none => exact ⟨hnew, hkey⟩

theorem fileKey_ends (t : FileTurn) (fresh : Vector UInt8 32) (p : Places) : Act.Ends (· = p) (fileKey t fresh.toList)
    (fun key p' => Grows p p' ∧ Findable key p') (fun _ p' => Grows p p') := by
  rintro p rfl
  unfold fileKey
  cases hread : existingFileKey t.look p with
  | error e => exact Grows.refl p
  | ok found =>
    obtain ⟨hf, rfl⟩ | ⟨f, hf, -, rfl⟩ := existingFileKey_eq_ok hread
    · exact newFileKey_ends t fresh p hf p rfl
    · exact ⟨Grows.refl p, .inr ⟨f, hf, .inl rfl⟩⟩

theorem sealKey_ends (t : Turn) (p : Places) : Act.Ends (· = p) (sealKey t)
    (fun key p' => Grows p p' ∧ Findable key p') (fun _ p' => Grows p p') := by
  rintro p rfl
  have hkeychain := keychainKey_ends t.keychain t.keychainFresh.toList p p rfl
  unfold sealKey
  rcases hk : keychainKey t.keychain t.keychainFresh.toList p with ⟨r, p'⟩
  rw [hk] at hkeychain
  cases r with
  | ok key => exact ⟨hkeychain.1, .inl hkeychain.2⟩
  | error e =>
    have hgrows : Grows p p' := hkeychain
    exact (fileKey_ends t.file t.fileFresh p').conseq (fun _ h => h)
      (fun _ _ h => ⟨hgrows.trans h.1, h.2⟩) (fun _ _ h => hgrows.trans h) p' rfl

/-! ## What opens -/

section Opening

variable (c : TaggedAead (List UInt8) 16) (display : KeyringError → String)

/-- A blob that a key there is, or may be, opens to these bytes under this label. -/
def SealedFor (label bytes blob' : List UInt8) (p : Places) : Prop :=
  ∃ (key : List UInt8) (nonce : Vector UInt8 24),
    blob' = blob c key nonce.toList label bytes ∧ Findable key p

variable {c display}

variable {label bytes key nonce label' opened : List UInt8}

variable {b : List UInt8} {p' : Places} {keychain : Except KeyringError (Option (List UInt8))}
  {file : Except IoError (Option (List UInt8))}

theorem SealedFor.mono {p : Places}
    (h : SealedFor c label bytes b p) (hg : Grows p p') : SealedFor c label bytes b p' := by
  obtain ⟨key, nonce, hb, hf⟩ := h
  exact ⟨key, nonce, hb, hf.mono hg⟩

theorem protect_ends (bytes label : List UInt8) (t : Turn) (p : Places) : Act.Ends (· = p) (protect c bytes label t)
    (fun b p' => Grows p p' ∧ SealedFor c label bytes b p') (fun _ p' => Grows p p') :=
  (sealKey_ends t p).bind fun key => .pure fun _ h => ⟨h.1, key, t.nonce, rfl, h.2⟩

theorem tryKey_eq_some {ε : Type} {found : Except ε (Option (List UInt8))}
    (h : tryKey c nonce (c.encrypt key nonce label bytes) label' found = some opened) : label' = label ∧ opened =
    bytes := by
  unfold tryKey at h
  split at h
  · obtain ⟨-, -, hl, hm⟩ := c.bound _ _ _ _ _ _ _ _ h
    exact ⟨hl, hm⟩
  · cases h

theorem openedWith_eq_ok
    (h : openedWith c display nonce (c.encrypt key nonce label bytes) label' keychain file = .ok opened) : label' =
    label ∧ opened = bytes := by
  unfold openedWith at h
  split at h
  · next hk => exact Except.ok.inj h ▸ tryKey_eq_some hk
  · split at h
    · next hf => exact Except.ok.inj h ▸ tryKey_eq_some hf
    · split at h <;> cases h

theorem openedWith_invalidData {e : IoError}
    (h : openedWith c display nonce (c.encrypt key nonce label bytes) label keychain file = .error e)
    (he : e.kind = .invalidData) : ∃ a b, keychain = .ok a ∧ file = .ok b ∧ a ≠ some key ∧ b ≠ some key := by
  have hopens : ∀ {ε : Type} {found : Except ε (Option (List UInt8))},
      tryKey c nonce (c.encrypt key nonce label bytes) label found = none →
        found ≠ .ok (some key) := by
    rintro ε found hnone rfl
    cases (c.decrypt_encrypt key nonce label bytes).symm.trans hnone
  unfold openedWith at h
  split at h
  · cases h
  next hk =>
  split at h
  · cases h
  next hf =>
  split at h
  · cases Except.error.inj h
    cases he
  · cases Except.error.inj h
    cases he
  · next a b =>
    exact ⟨a, b, rfl, rfl, fun ha => hopens hk (congrArg Except.ok ha), fun hb => hopens hf (congrArg Except.ok hb)⟩

theorem unprotect_blob (key label label' bytes : List UInt8) (nonce : Vector UInt8 24) (l : Look) (p : Places) :
    unprotect c display (blob c key nonce.toList label bytes) label' l p = openedWith c display nonce.toList
    (c.encrypt key nonce.toList label bytes) label' (keychainRead l.keychain p) (existingFileKey l.file p) := by
  have hlen : nonce.toList.length = 24 := nonce.length_toList
  have htag := c.tag_le key nonce.toList label bytes
  unfold unprotect blob
  dsimp only
  rw [if_neg (by simp), if_neg (by rw [List.length_append]; omega), List.take_left' hlen, List.drop_left' hlen]

theorem SealedFor.unprotect {label bytes b : List UInt8} {p : Places} (h : SealedFor c label bytes b p) (l : Look) :
    unprotect c display b label l p = .ok bytes ∨ ∃ e, unprotect c display b label l p = .error e ∧ e.kind ≠
    .invalidData := by
  obtain ⟨key, nonce, rfl, hfind⟩ := h
  rw [unprotect_blob]
  cases hopen : openedWith c display nonce.toList (c.encrypt key nonce.toList label bytes) label
      (keychainRead l.keychain p) (existingFileKey l.file p) with
  | ok opened => exact .inl (by rw [(openedWith_eq_ok hopen).2])
  | error e =>
    refine .inr ⟨e, rfl, fun he => ?_⟩
    obtain ⟨a, b, ha, hb, hka, hkb⟩ := openedWith_invalidData hopen he
    rcases hfind with hk | ⟨f, hf, hbytes⟩
    · exact hka ((keychainRead_eq_ok ha).trans hk)
    · obtain ⟨hnone, -⟩ | ⟨f', hf', hlen, rfl⟩ := existingFileKey_eq_ok hb
      · cases hf.symm.trans hnone
      · cases hf.symm.trans hf'
        rcases hbytes with hbytes | hbytes
        · exact hkb (congrArg some hbytes)
        · exact hbytes hlen

theorem SealedFor.other_label {p : Places} (h : SealedFor c label bytes b p) {l : Look}
    (hopen : Device.unprotect c display b label' l p' = .ok opened) : label' = label := by
  obtain ⟨key, nonce, rfl, -⟩ := h
  rw [unprotect_blob] at hopen
  exact (openedWith_eq_ok hopen).1

end Opening

end Device

end UwuRdp
