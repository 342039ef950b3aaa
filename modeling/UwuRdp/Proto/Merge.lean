import UwuRdp.Proto.Clock

/-!
# Who wins when two devices edited the same record

Last writer wins per record, by the hybrid logical clock, except that a delete beats a concurrent
edit whatever the clocks say. That decision is the order of `(deleted, updatedAt)`
(`resolve_eq_takeRemote`), so "the version `resolve` prefers" is a maximum and does not depend on
the order two versions meet in.
-/

namespace UwuRdp

/-- What to do with a record that exists on both sides. -/
inductive Resolution where
  /-- Keep ours, push it. -/
  | keepLocal
  /-- Take theirs, write it to the store. -/
  | takeRemote
  /-- The same version of the same record. -/
  | identical
deriving DecidableEq

/-- One side of the comparison: when it was written, and whether it is a tombstone. -/
structure Version where
  updatedAt : Hlc
  deleted : Bool
deriving DecidableEq

def resolve (loc remote : Version) : Resolution :=
  if loc = remote then .identical
  else match loc.deleted, remote.deleted with
    | true, false => .keepLocal
    | false, true => .takeRemote
    | _, _ => if loc.updatedAt > remote.updatedAt then .keepLocal else .takeRemote

namespace Version

def key (v : Version) : Bool ×ₗ Hlc := toLex (v.deleted, v.updatedAt)

theorem key_injective : Function.Injective key := by
  intro a b h
  cases a; cases b
  simp only [key, EmbeddingLike.apply_eq_iff_eq, Prod.mk.injEq] at h
  rw [h.1, h.2]

instance : LinearOrder Version := LinearOrder.lift' key key_injective

variable {a b : Version}

theorem lt_iff : a < b ↔ a.deleted < b.deleted ∨ a.deleted = b.deleted ∧ a.updatedAt < b.updatedAt := by
  change key a < key b ↔ _
  simp only [key, Prod.Lex.toLex_lt_toLex]

theorem le_iff : a ≤ b ↔ a.deleted < b.deleted ∨ a.deleted = b.deleted ∧ a.updatedAt ≤ b.updatedAt := by
  change key a ≤ key b ↔ _
  simp only [key, Prod.Lex.toLex_le_toLex]

theorem lt_of_updatedAt_lt (hd : a.deleted ≤ b.deleted) (hc : a.updatedAt < b.updatedAt) : a < b := by
  rw [lt_iff]
  rcases lt_or_eq_of_le hd with h | h
  · exact .inl h
  · exact .inr ⟨h, hc⟩

end Version

variable {a b : Version}

theorem resolve_eq_identical : resolve a b = .identical ↔ a = b := by
  unfold resolve
  split
  · next h => simp [h]
  · next h =>
    simp only [h, iff_false]
    split <;> first | decide | (split <;> decide)

theorem resolve_eq_keepLocal : resolve a b = .keepLocal ↔ b < a := by
  obtain ⟨ac, ad⟩ := a
  obtain ⟨bc, bd⟩ := b
  rw [Version.lt_iff]
  cases ad <;> cases bd <;> simp [resolve] <;> grind

theorem resolve_eq_takeRemote : resolve a b = .takeRemote ↔ a < b := by
  obtain ⟨ac, ad⟩ := a
  obtain ⟨bc, bd⟩ := b
  rw [Version.lt_iff]
  cases ad <;> cases bd <;> simp [resolve] <;> grind

end UwuRdp
