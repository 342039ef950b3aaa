import UwuRdp.Store.Runs

/-!
# A local write beats the version it replaces

The clock of a device is never behind a row it holds, as long as no record arrived from further
ahead than the drift cap: a tick is later than the clock, and catching up passes what arrived. So an
edit writes a version that is preferred to the one it replaces, on this device and on every other.
-/

namespace UwuRdp

open Lib

/-- No row is ahead of the device's clock, unless the clock has come to its last millisecond. -/
def RowsBehind (device : UInt32) (db : Db) : Prop :=
  db.clockWallMs.toNat < u64Max → ∀ k id h, db.head k id = some h → h.hlc ≤ db.clock device

/-- Nothing in a batch is further ahead of the system clock than the drift cap. -/
def WithinDrift (now : UInt64) (envelopes : List Envelope) : Prop :=
  ∀ env ∈ envelopes, env.updatedAt.wallMs ≤ saturatingAdd now maxDriftMs

/-- A call that applies nothing from beyond the drift cap. -/
def StoreCall.WithinDrift : StoreCall → Prop
  | apply _ now envelopes => UwuRdp.WithinDrift now envelopes
  | _ => True

instance (call : StoreCall) : Decidable call.WithinDrift := by
  cases call <;> unfold StoreCall.WithinDrift <;>
    first | exact instDecidableTrue | (unfold UwuRdp.WithinDrift; infer_instance)

variable {device : UInt32} {db db' : Db}

theorem rowsBehind_fresh (device : UInt32) (vaultId : Uuid) : RowsBehind device (Db.fresh vaultId) := by
  intro _ k id h hh
  rw [Db.head_fresh] at hh
  cases hh

theorem RowsBehind.of_heads (hb : RowsBehind device db) (hl : Later device db db')
    (h : ∀ k id h', db'.head k id = some h' → ∃ h₀, db.head k id = some h₀ ∧ h₀.hlc = h'.hlc) :
    RowsBehind device db' := by
  intro hw k id h' hh'
  obtain ⟨h₀, hh₀, he⟩ := h k id h' hh'
  rw [← he]
  exact (hb (hl.wall_lt hw) k id h₀ hh₀).trans (hl.2 hw)

theorem RowsBehind.wrote {n : Uuid → ℕ} (hb : RowsBehind device db)
    (h : Wrote (Scope.all db) n device db') : RowsBehind device db' := by
  intro hw k id h' hh'
  have hwr := h.heads k id
  rw [hh'] at hwr
  generalize hho : db.head k id = ho at hwr
  cases hwr with
  | same => exact (hb (h.later.wall_lt hw) k id h' hho).trans (h.later.2 hw)
  | created c d _ hc | rewritten h₀ c d _ _ _ hc => exact (hc.2 hw).2

theorem Hlc.zero_le (c : Hlc) : Hlc.zero ≤ c := by
  rw [Hlc.le_iff]
  simp only [Hlc.zero, UInt64.toNat_zero, UInt32.toNat_zero]
  omega

theorem later_merge (device : UInt32) (db : Db) (remote : Hlc) (now : UInt64) :
    Later device db (db.setClock ((db.clock device).merge remote now)) := by
  have hd : ((db.clock device).merge remote now).device = device := rfl
  refine ⟨Hlc.wallMs_le_merge (db.clock device) remote now, fun hw => ?_⟩
  rw [clock_setClock db hd]
  exact (Hlc.lt_merge hw).le

theorem hlc_lt_of_wrote {n : Uuid → ℕ} {k : EntityKind} {id : Uuid} {h h' : Head}
    (hw : Wrote (Scope.all db) n device db') (hb : RowsBehind device db) (hwall : db'.clockWallMs.toNat < u64Max)
    (hh : db.head k id = some h) (hh' : db'.head k id = some h') (hne : h' ≠ h) : h.hlc < h'.hlc := by
  have hwr := hw.heads k id
  rw [hh, hh'] at hwr
  cases hwr with
  | same => exact absurd rfl hne
  | rewritten _ c d _ _ _ hc =>
    exact lt_of_le_of_lt (hb (hw.later.wall_lt hwall) k id h hh) (hc.2 hwall).1

section Runs

variable [Platform]

theorem RowsBehind.applyEnvelopes {vault : Option UnlockedVault} {now : UInt64} {envs : List Envelope}
    {rep : ApplyReport} (hb : RowsBehind device db) (hd : WithinDrift now envs)
    (h : applyEnvelopes device vault now envs db = .ok (rep, db')) : Later device db db' ∧ RowsBehind device db' := by
  rcases applyEnvelopes_spec h with ⟨-, rfl⟩ | ⟨v, out, db₁, -, happ, rfl⟩
  · exact ⟨Later.refl device _, hb⟩
  obtain ⟨hstep, -, hfrom, hrows⟩ := applyAll_spec happ
  have hl₁ : Later device db db₁ := Later.of_clock_eq hstep.rest.clockWallMs hstep.rest.clockCounter
  cases hout : out.2 with
  | none =>
    refine ⟨hl₁, fun hw k id h' hh' => ?_⟩
    rcases hrows k id h' hh' with ⟨h₀, hh₀, he⟩ | hz | ⟨c, hc, -⟩
    · rw [← he]
      exact (hb (hl₁.wall_lt hw) k id h₀ hh₀).trans (hl₁.2 hw)
    · rw [hz]
      exact Hlc.zero_le _
    · rw [hout] at hc
      cases hc
  | some c =>
    have hl₂ := later_merge device db₁ c now
    refine ⟨hl₁.trans hl₂, fun hw k id h' hh' => ?_⟩
    rcases hrows k id h' hh' with ⟨h₀, hh₀, he⟩ | hz | ⟨c', hc', hle⟩
    · rw [← he]
      exact (hb ((hl₁.trans hl₂).wall_lt hw) k id h₀ hh₀).trans ((hl₁.trans hl₂).2 hw)
    · rw [hz]
      exact Hlc.zero_le _
    · -- The newest clock of the batch is one of its records', so the cap did not cut it off.
      rw [hout] at hc'
      cases hc'
      have hcap : c.wallMs ≤ saturatingAdd now maxDriftMs := by
        rcases hfrom c hout with hn | ⟨env, henv, rfl⟩
        · cases hn
        · exact hd env (mem_applySort.mp henv)
      have hdev : ((db₁.clock device).merge c now).device = device := rfl
      refine hle.trans ?_
      show c ≤ (db₁.setClock ((db₁.clock device).merge c now)).clock device
      rw [clock_setClock db₁ hdev]
      exact (Hlc.remote_lt_merge hw hcap).le

theorem StoreCall.rowsBehind (call : StoreCall) (hd : call.WithinDrift) (hb : RowsBehind device db) :
    Later device db (call.run device db) ∧ RowsBehind device (call.run device db) := by
  have same : ∀ db' : Db, db'.rows = db.rows → db'.clockWallMs = db.clockWallMs →
      db'.clockCounter = db.clockCounter → Later device db db' ∧ RowsBehind device db' := by
    intro db' hrows hw hc
    have hl : Later device db db' := Later.of_clock_eq hw hc
    refine ⟨hl, hb.of_heads hl fun k id h' hh' => ⟨h', ?_, rfl⟩⟩
    rw [← hh', Db.head, Db.head, row_of_rows_eq hrows]
  cases call with
  | edit cx op =>
    obtain ⟨n, hw⟩ := LocalOp.run_all { cx with device } op db
    exact ⟨hw.later, hb.wrote hw⟩
  | apply vault now envs =>
    show Later device db ((UwuRdp.applyEnvelopes device vault now envs).commit db) ∧
      RowsBehind device ((UwuRdp.applyEnvelopes device vault now envs).commit db)
    unfold Tx.commit
    split
    · next rep db' h => exact hb.applyEnvelopes hd h
    · exact ⟨Later.refl device db, hb⟩
  | markPushed records =>
    have hr := markPushed_rest records db
    have hl : Later device db (UwuRdp.markPushed db records).1 := Later.of_clock_eq hr.clockWallMs hr.clockCounter
    refine ⟨hl, hb.of_heads hl fun k id h' hh' => ?_⟩
    change (UwuRdp.markPushed db records).1.head k id = some h' at hh'
    rw [head_markPushed] at hh'
    obtain ⟨h₀, hh₀, rfl⟩ := Option.map_eq_some_iff.mp hh'
    exact ⟨h₀, hh₀, (congrArg Version.updatedAt (markAll_version records k id h₀)).symm⟩
  | refreshManifest cx =>
    simp only [StoreCall.run]
    rcases refreshManifest_spec { cx with device } db with he | ⟨now, m, he⟩
    · rw [he]
      exact ⟨Later.refl device db, hb⟩
    · rw [he]
      have hl : Later device db (db.setClock ((db.clock device).tick now)) := later_tick device db now
      refine ⟨hl, fun hw k id h' hh' => ?_⟩
      have hi : _ ∧ (db.clock device).tick now ≤ _ := (issued_tick (Later.refl device db)).2 hw
      rw [Db.head_setRow] at hh'
      split at hh'
      · cases hh'
        exact hi.2
      · exact (hb (hl.wall_lt hw) k id h' hh').trans (hl.2 hw)
  | checkManifests | noteIncompletePull => exact same _ rfl rfl rfl
  | setManifestFloor floor =>
    obtain ⟨violations, he⟩ := setManifestFloor_eq db floor
    simp only [StoreCall.run, he]
    exact same _ rfl rfl rfl
  | setSyncCursor cursor => exact same _ rfl rfl rfl

theorem rowsBehind_runCalls {calls : List StoreCall} (hd : ∀ call ∈ calls, call.WithinDrift)
    (hb : RowsBehind device db) : RowsBehind device (runCalls device db calls) := by
  induction calls generalizing db with
  | nil => exact hb
  | cons call rest ih =>
    refine ih (fun c hc => hd c (List.mem_cons_of_mem call hc)) ?_
    exact (call.rowsBehind (hd call List.mem_cons_self) hb).2

end Runs

/-! ## One host from another device -/

/-- A platform for text that is plain ASCII. -/
@[reducible]
def asciiPlatform : Platform where
  toLowercase := Text.toAsciiLowercase
  manifestId vaultId device := 2 ^ 127 + vaultId * 2 ^ 32 + device.toNat

/-- A host that device 2 wrote at a given millisecond, as the server hands it over. -/
def hostFrom (wallMs : UInt64) : Envelope where
  id := 5
  vaultId := 1
  kind := .host
  updatedAt := ⟨wallMs, 0, 2⟩
  baseSeq := 0
  deleted := false
  blob := (⟨1, 7⟩ : UnlockedVault).sealSynced 5 .host ⟨wallMs, 0, 2⟩ false
    (.host ⟨['h'], ['h'], 3389, "private".toList, 0, none, none, {}, none, [], []⟩)
  seq := some 1

/-- A record that device 2 wrote at a given millisecond, as the server hands it over. -/
def sealedAt (wallMs : UInt64) (id : Uuid) (kind : EntityKind) (deleted : Bool) (payload : Payload)
    (seq : ℕ) : Envelope where
  id := id
  vaultId := 1
  kind := kind
  updatedAt := ⟨wallMs, 0, 2⟩
  baseSeq := 0
  deleted := deleted
  blob := (⟨1, 7⟩ : UnlockedVault).sealSynced id kind ⟨wallMs, 0, 2⟩ deleted payload
  seq := some seq

def groupOf (name : String) : Payload :=
  .group ⟨"private".toList, name.toList, 0, none, none, []⟩

/-- Device 1, whose clock stands at one second, with the vault open. -/
def deviceOne : Session := ⟨1, some ⟨1, 7⟩, fun _ => 1000, fun n => 100 + n⟩

end UwuRdp
