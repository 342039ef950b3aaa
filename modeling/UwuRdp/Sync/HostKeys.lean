import UwuRdp.Sync.Engine
import UwuRdp.Store.Preference

/-!
# Host keys a pass brought along

A host key of another device is worth nothing before the manifests were held against what came with
it. Every pass that goes through ends in that check, or in a note that it could not be made; a pass
that stops half way leaves neither.
-/

namespace UwuRdp

open Lib

/-! ## What has to be checked -/

/-- A page wrote a version of a host key that another device decided on. -/
def BringsHostKey (device : UInt32) (before after : Db) : Prop :=
  ∃ id h, after.head .knownHost id = some h ∧
    (before.head .knownHost id).map Head.version ≠ some h.version ∧ h.hlc.device ≠ device

/-- A page brought another device's host key, and no complete pull was followed by a check since. -/
def Unchecked (device : UInt32) : List PassEvent → Prop
  | [] => False
  | .checked :: _ => False
  | .page before after :: earlier => BringsHostKey device before after ∨ Unchecked device earlier
  | .stopped _ :: earlier => Unchecked device earlier

/-- Host keys count as withheld, and no other device's key is answered with. -/
def Doubted (device : UInt32) (db : Db) : Prop :=
  (withheld db).hostKeys = true ∧
    ∀ address port e, trustedRow db device address port = some e → e.2.hlc.device = device

def HostKeysGuarded {σ : Type} (device : UInt32) (s : PassState σ) : Prop :=
  Unchecked device s.events → Doubted device s.db

/-- The pass stopped while another device's host key was waiting for its check, and nothing had put
host keys in doubt before. -/
def CutShort (device : UInt32) : List PassEvent → Prop
  | .stopped db :: earlier => Unchecked device earlier ∧ hostKeysWithheld db = false
  | _ => False

theorem doubted_iff {device : UInt32} {db : Db} : Doubted device db ↔ hostKeysWithheld db = true := by
  constructor
  · intro h
    exact h.1
  · intro h
    refine ⟨h, fun address port e he => ?_⟩
    have hc := (Option.filter_eq_some_iff.mp he).2
    rw [h, Bool.not_true, Bool.or_false, Bool.and_eq_true] at hc
    exact eq_of_beq hc.2

theorem hostKeysWithheld_noteIncompletePull (db : Db) : hostKeysWithheld (noteIncompletePull db) = true := by
  unfold hostKeysWithheld
  by_contra h
  rw [Bool.not_eq_true, Option.isSome_eq_false_iff, Option.isNone_iff_eq_none] at h
  have hp := Table.find?_none h (Table.get?_set_self db.violations _ Problem.incomplete)
  cases hp

namespace Engine

variable {σ α β : Type}

/-! ## A pass either goes on or stops for good -/

def Running (s : PassState σ) : Prop := ∀ db, PassEvent.stopped db ∉ s.events

def Halted (_ : SyncError) (s : PassState σ) : Prop :=
  ∃ earlier, s.events = .stopped s.db :: earlier

def Goes (m : Pass σ α) : Prop := Act.Ends Running m (fun _ => Running) Halted

theorem Goes.bind {m : Pass σ α} {f : α → Pass σ β} (hm : Goes m) (hf : ∀ a, Goes (f a)) :
    Goes (m >>= f) := Act.Ends.bind hm hf

theorem goes_pure (a : α) : Goes (pure a : Pass σ α) := Act.Ends.pure fun _ h => h

theorem goes_get : Goes (Act.get : Pass σ (PassState σ)) := Act.Ends.get fun _ h => h

theorem goes_modify {f : PassState σ → PassState σ} (h : ∀ s, (f s).events = s.events) :
    Goes (Act.modify f : Pass σ Unit) := by
  apply Act.Ends.modify
  intro s hs
  unfold Running
  rw [h s]
  exact hs

theorem goes_look (f : Db → α) : Goes (look f : Pass σ α) :=
  goes_get.bind fun s => goes_pure (f s.db)

theorem goes_store (f : Db → Db) : Goes (store f : Pass σ Unit) := goes_modify fun _ => rfl

theorem goes_note (f : SyncReport → SyncReport) : Goes (note f : Pass σ Unit) :=
  goes_modify fun _ => rfl

theorem goes_log {e : PassEvent} (he : ∀ db, e ≠ .stopped db) : Goes (log e : Pass σ Unit) := by
  apply Act.Ends.modify
  intro s hs db hmem
  rcases List.mem_cons.mp hmem with heq | hmem
  · exact he db heq.symm
  · exact hs db hmem

theorem goes_nowMs (cx : Session) : Goes (nowMs cx : Pass σ UInt64) :=
  fun _ hs => hs

theorem goes_request (f : σ → Except TransportError α × σ) : Goes (request f) :=
  fun _ hs => hs

theorem goes_takeReset (t : Transport σ) : Goes (takeReset t) :=
  fun _ hs => hs

theorem goes_stop (e : SyncError) : Goes (stop e : Pass σ α) :=
  fun s _ => ⟨s.events, rfl⟩

theorem goes_orStop (answer : Except TransportError α) : Goes (orStop answer : Pass σ α) := by
  unfold orStop
  split
  · exact goes_pure _
  · exact goes_stop _

theorem goes_markPushed (records : List Pushed) : Goes (markPushed records : Pass σ ℕ) :=
  goes_get.bind fun _ => (goes_store _).bind fun _ => goes_pure _

/-- Whatever host key still waits for its check is in doubt. -/
def Settled (device : UInt32) (s : PassState σ) : Prop :=
  Running s ∧ (Unchecked device s.events → hostKeysWithheld s.db = true)

theorem checkManifests_settles (device : UInt32) :
    Act.Ends Running (checkManifests : Pass σ Withheld) (fun _ => Settled device) Halted := by
  intro s hs
  refine ⟨fun db hmem => ?_, fun h => h.elim⟩
  rcases List.mem_cons.mp hmem with heq | hmem
  · cases heq
  · exact hs db hmem

theorem noteIncompletePull_settles (device : UInt32) :
    Act.Ends Running (noteIncompletePull : Pass σ Withheld) (fun _ => Settled device) Halted :=
  fun s hs => ⟨hs, fun _ => hostKeysWithheld_noteIncompletePull s.db⟩

variable [Platform]

theorem goes_applyEnvelopes (cx : Session) (envelopes : List Envelope) :
    Goes (applyEnvelopes cx envelopes : Pass σ ApplyReport) := by
  refine (goes_nowMs cx).bind fun now => goes_get.bind fun s => ?_
  split
  · exact goes_stop _
  · exact (goes_store _).bind fun _ => (goes_note _).bind fun _ => goes_pure _

theorem goes_refreshManifest (cx : Session) : Goes (refreshManifest cx : Pass σ Unit) := by
  refine goes_get.bind fun s => ?_
  split
  · exact goes_stop _
  · exact goes_modify fun _ => rfl

variable (cx : Session) (t : Transport σ)

theorem goes_mergeConflicts (conflicts : List Envelope) : Goes (mergeConflicts cx conflicts : Pass σ Unit) :=
  .ite (fun _ => goes_pure _) fun _ =>
    (goes_applyEnvelopes cx conflicts).bind fun _ => goes_pure _

theorem goes_pushTurn (conflicts : ℕ) : Goes (pushTurn cx t conflicts) := by
  refine (goes_look _).bind fun pending => ?_
  split
  · exact goes_stop _
  · refine (goes_note _).bind fun _ => .ite (fun _ => goes_pure _) fun _ => ?_
    refine (goes_request _).bind fun answer => (goes_orStop answer).bind fun response => ?_
    refine (goes_markPushed _).bind fun cleared => (goes_note _).bind fun _ => ?_
    exact (goes_mergeConflicts cx _).bind fun _ => goes_pure _

theorem goes_pushBatches (turns conflicts : ℕ) : Goes (pushBatches cx t turns conflicts) := by
  induction turns generalizing conflicts with
  | zero => exact goes_pure _
  | succ turns ih =>
    refine (goes_pushTurn cx t conflicts).bind fun turn => ?_
    exact .ite (fun _ => ih _) fun _ => goes_pure _

theorem goes_pushAll : Goes (pushAll cx t) :=
  (goes_look _).bind fun _ => goes_pushBatches cx t _ _

theorem goes_pullPages (pages : ℕ) : Goes (pullPages cx t pages) := by
  induction pages with
  | zero => exact goes_pure _
  | succ pages ih =>
    unfold pullPages
    refine (goes_look _).bind fun cursor => (goes_request _).bind fun answer => ?_
    refine (goes_orStop answer).bind fun page => (goes_takeReset t).bind fun reset => ?_
    apply Act.Ends.ite
    · intro _
      exact Act.Ends.ite (fun _ => goes_pure _) fun _ => (goes_store _).bind fun _ => ih
    · intro _
      refine .ite (fun _ => goes_pure _) fun _ => (goes_note _).bind fun _ => ?_
      refine (goes_look _).bind fun before => (goes_applyEnvelopes cx _).bind fun applied => ?_
      refine (goes_look _).bind fun after => (goes_log fun _ => PassEvent.noConfusion).bind fun _ => ?_
      refine .ite (fun _ => goes_pure _) fun _ => .ite (fun _ => ?_) fun _ => goes_pure _
      exact (goes_store _).bind fun _ => .ite (fun _ => ih) fun _ => goes_pure _

theorem goes_pullAll : Goes (pullAll cx t) := goes_pullPages cx t maxPages

theorem goes_publishManifest : Goes (publishManifest cx t) := by
  unfold publishManifest
  refine (goes_refreshManifest cx).bind fun _ => (goes_look _).bind fun pending => ?_
  split
  · exact goes_stop _
  · exact goes_pure _
  · refine (goes_request _).bind fun answer => ?_
    split
    · exact goes_pure _
    · refine (goes_markPushed _).bind fun _ => ?_
      exact (goes_mergeConflicts cx _).bind fun _ => goes_pullAll cx t

/-! ## The check at the end -/

theorem check_settles (complete : Bool) :
    Act.Ends Running (check cx t complete) (fun _ => Settled cx.device) Halted := by
  unfold check
  refine .ite (fun _ => noteIncompletePull_settles _) fun _ => ?_
  refine .bind (goes_look _) fun alarmed => ?_
  refine .bind (checkManifests_settles cx.device) fun found => ?_
  apply Act.Ends.ite
  · exact fun _ => Act.Ends.pure fun _ hs => hs
  · intro _
    refine .bind (R := fun _ => Running) ?_ fun _ => .bind (goes_pullAll cx t) fun complete => ?_
    · exact (goes_store _).conseq (fun _ hs => hs.1) (fun _ _ hs => hs) fun _ _ hs => hs
    · apply Act.Ends.ite
      · exact fun _ => checkManifests_settles _
      · exact fun _ => Act.Ends.bind (goes_note _) fun _ => noteIncompletePull_settles _

theorem settle_settles (complete : Bool) :
    Act.Ends Running (settle cx t complete) (fun _ => Settled cx.device) Halted := by
  have noted (f : SyncReport → SyncReport) :
      Act.Ends (Settled cx.device) (note f : Pass σ Unit) (fun _ => Settled cx.device) Halted :=
    .modify fun _ hs => hs
  unfold settle
  refine .bind (R := fun _ => Running) ?_ fun complete => ?_
  · exact .ite (fun _ => goes_publishManifest cx t) fun _ => goes_pure _
  refine .bind (goes_note _) fun _ => ?_
  refine .bind (check_settles cx t complete) fun withheld => ?_
  refine .bind (noted _) fun _ => .bind (R := fun _ => Settled cx.device) ?_ fun cursor => ?_
  · exact fun _ hs => hs
  · exact .bind (noted _) fun _ => fun _ hs => hs

theorem rounds_settles (left : ℕ) : Act.Ends Running (rounds cx t left) (fun _ => Settled cx.device) Halted := by
  induction left with
  | zero => exact fun s _ => ⟨s.events, rfl⟩
  | succ left ih =>
    unfold rounds
    refine .bind (goes_note _) fun _ => .bind (goes_pushAll cx t) fun conflicts => ?_
    refine .bind (goes_pullAll cx t) fun complete => ?_
    exact .ite (fun _ => settle_settles cx t complete) fun _ => ih

theorem syncOnce_settles : Act.Ends Running (syncOnce cx t) (fun _ => Settled cx.device) Halted :=
  .bind (goes_note _) fun _ => rounds_settles cx t maxRounds

end Engine

/-- A host key device 2 trusted, as the server hands it over. -/
def keyFrom (id : Uuid) (wallMs : UInt64) (fingerprint : Text) (seq : ℕ) : Envelope where
  id := id
  vaultId := 1
  kind := .knownHost
  updatedAt := ⟨wallMs, 0, 2⟩
  baseSeq := 0
  deleted := false
  blob := (⟨1, 7⟩ : UnlockedVault).sealSynced id .knownHost ⟨wallMs, 0, 2⟩ false
    (.knownHost ⟨['h'], 3389, [], fingerprint, [], 900, []⟩)
  seq := some seq

/-- One page with a host key and the word that there is more, and then no answer. -/
def lostAfterOnePage : Transport ℕ where
  pull _ _ asked :=
    (if asked = 0 then .ok ⟨[keyFrom 6 900 ['f'] 1], 1, true⟩ else .error .unreachable, asked + 1)
  push _ asked := (.error .unreachable, asked)
  takeReset asked := (false, asked)

/-- A pass that ends after one page, which brought that key as the newest of its host. -/
private def bringsKey : List PassEvent → Bool
  | [.stopped _, .page before after] => before.head .knownHost 6 = none &&
      after.head .knownHost 6 = some ⟨⟨900, 0, 2⟩, false, false, 1⟩
  | _ => false

end UwuRdp
