import UwuRdp.Store.Sync

/-!
# Manifests on this device

Publishing its own, and checking everyone's. A manifest lists the rows the server has confirmed and
nothing has changed since. After a pull that reached the end, what a manifest lists must be here, or
something newer; what is not is written down, and while that concerns host keys, a host key that
came from another device is not trusted.
-/

namespace UwuRdp

open Lib

/-! ## Publishing -/

/-- The order a manifest lists kinds in: host keys first. -/
def priority : List EntityKind :=
  [.knownHost, .key, .secret, .identity, .host, .group, .snippet]

/-- A column that is above zero as the database compares it. -/
def sqlPositive (n : ℕ) : Bool := 0 < n && n < 2 ^ 63

/-- A clock that is not the one of placeholders, as the database compares. -/
def Hlc.stamped (c : Hlc) : Bool :=
  0 < signed c.wallMs || 0 < c.counter.toNat || 0 < c.device.toNat

/-- A row the server has confirmed, unchanged since, and no placeholder. -/
def Head.listed (h : Head) : Bool := !h.dirty && sqlPositive h.serverSeq && h.hlc.stamped

def entriesOfKind (db : Db) (k : EntityKind) : List ManifestEntry :=
  (((db.rows k).select fun _ r => r.head.listed).insertionSort fun a b => a.1 ≤ b.1).map
    fun r => ManifestEntry.new k r.1 r.2.hlc r.2.deleted

def manifestEntries (db : Db) : List ManifestEntry := priority.flatMap (entriesOfKind db)

/-- Whether the manifest here says already what a new one would. -/
def manifestCurrent (device : UInt32) (partialList : Bool) (entries : List ManifestEntry) :
    Option (Row Manifest) → Bool
  | none => false
  | some r => !r.deleted && r.body.device == device && r.body.partialList == partialList &&
      r.body.entries == entries

variable [Platform]

/-- Write a new manifest for this device if what it holds changed since the last one. Says whether
there is a new one to push. -/
def refreshManifest (cx : Session) : StoreTx Bool := do
  let id ← StoreTx.query fun db => Platform.manifestId db.vaultId cx.device
  let all ← StoreTx.query manifestEntries
  let entries := all.take maxManifestEntries
  have length_le : entries.length ≤ maxManifestEntries := List.length_take_le _ _
  let partialList := decide (maxManifestEntries < all.length)
  let previous ← StoreTx.query fun db => db.row .manifest id
  if manifestCurrent cx.device partialList entries previous then pure false
  else do
    let clock ← StoreTx.tick cx
    let manifest : Manifest := ⟨cx.device, clock, partialList, entries, length_le⟩
    -- The server's version of the row stays, so the push is based on it.
    StoreTx.execute fun db => db.setRow .manifest id
      ⟨clock, false, true, previous.elim 0 Row.serverSeq, manifest⟩
    pure true

/-! ## Checking -/

/-- Remember the manifest the device that added this one had published. Until a check finds it, it
counts as not checked yet. -/
def setManifestFloor (db : Db) (floor : Option ManifestFloor) : Db :=
  let db := { db with floor }
  match floor with
  | none => db
  | some f =>
    let key := (EntityKind.manifest.discriminant, f.id)
    if (db.violations.get? key).isSome then db
    else { db with violations := db.violations.set key .unchecked }

omit [Platform] in
theorem setManifestFloor_eq (db : Db) (floor : Option ManifestFloor) :
    ∃ violations, setManifestFloor db floor = { db with floor, violations } := by
  unfold setManifestFloor
  dsimp only
  split
  · exact ⟨_, rfl⟩
  · split <;> exact ⟨_, rfl⟩

def noteIncompletePull (db : Db) : Db :=
  { db with
    violations := db.violations.set (EntityKind.manifest.discriminant, nilUuid) .incomplete }

/-- Whether one listed version is accounted for here, and if not, how. -/
def checkEntry (db : Db) (kind : EntityKind) (entry : ManifestEntry) : Option Problem :=
  if !kind.hasTable then none
  else
    let unaccounted (problem : Problem) : Option Problem :=
      -- A host key that arrived and gave up its slot to a newer one.
      if (db.superseded.get? entry.id).any fun clock => entry.updatedAt ≤ clock then none
      else some problem
    match db.row kind entry.id with
    -- A tombstone beats every edit; otherwise the listed version or a later one must be here.
    | some r =>
      if r.deleted then none
      else if entry.updatedAt ≤ r.hlc then none
      else unaccounted .older
    -- A delete of something this device never had.
    | none => if entry.deleted then none else unaccounted .missing

def heldManifests (db : Db) : List (Uuid × Row Manifest) :=
  (db.rows .manifest).select fun _ r => !r.deleted

/-- What the check writes down about one entry. Kinds this build does not keep are not checked. -/
def verdict (db : Db) (entry : ManifestEntry) : Option ((ℕ × Uuid) × Problem) :=
  match entry.kind? with
  | none => none
  | some kind =>
    if syncedKinds.contains kind then
      (checkEntry db kind entry).map fun problem => ((kind.discriminant, entry.id), problem)
    else none

/-- What all entries of all manifests held here come to. -/
def checkHeld (db : Db) : Table (ℕ × Uuid) Problem :=
  ((heldManifests db).flatMap fun m => m.2.body.entries).foldl
    (fun found entry => found.record (verdict db entry)) Table.empty

/-- What the floor comes to: the manifest the pairing promised, or a newer one, must be here. -/
def checkFloor (db : Db) (floor : ManifestFloor) : Option Problem :=
  match (heldManifests db).find? fun m => m.1 = floor.id with
  | none => some .missing
  | some m => if floor.clock ≤ m.2.hlc then none else some .older

def floorVerdict (db : Db) : Option ((ℕ × Uuid) × Problem) :=
  db.floor.bind fun floor =>
    (checkFloor db floor).map fun problem => ((EntityKind.manifest.discriminant, floor.id), problem)

/-- Hold every manifest against what is here, and write down what is missing. -/
def checkManifests (db : Db) : Db :=
  { db with violations := (checkHeld db).record (floorVerdict db) }

/-- What the last check found, as the page shows it. -/
structure Withheld where
  records : ℕ
  hostKeys : Bool
deriving DecidableEq

def Withheld.any (w : Withheld) : Bool := 0 < w.records

def hostKeyKinds : List ℕ := [6, 9]

/-- Whether something about host keys is written down. -/
def hostKeysWithheld (db : Db) : Bool :=
  (db.violations.find? fun key _ => hostKeyKinds.contains key.1).isSome

/-- What the last check found. A manifest not checked yet counts only against host keys. -/
def withheld (db : Db) : Withheld where
  records := (db.violations.select fun _ problem => problem ≠ .unchecked).length
  hostKeys := hostKeysWithheld db

end UwuRdp
