import UwuRdp.Store.LoginOwners

/-!
# Logins and passwords that are accounted for

On a device that only ever edited, a live login has exactly one owner and a live password exactly one
login. Inside a call the books are open: a login may be in hand, made and not given to its owner yet
or taken from it and not let go of yet, and a password may be loose the same way. `Balanced` says
what holds with those counted in. Writing a row and each step of editing a login keep it.
-/

namespace UwuRdp

open Lib

variable {cx : Session} {db db' db₁ : Db} {k k' : EntityKind} {id id' i j t : Uuid}
  {held held' loose loose' : List Uuid}

/-! ## Live rows -/

def Db.Live (db : Db) (k : EntityKind) (id : Uuid) : Prop :=
  ∃ r, db.row k id = some r ∧ r.deleted = false

theorem Db.Live.congr (h : db.Live k id) (hr : db'.row k id = db.row k id) : db'.Live k id := by
  obtain ⟨r, hrow, hd⟩ := h
  exact ⟨r, hr.trans hrow, hd⟩

variable {r : Row (Body k)}

theorem Db.Live.setRow (h : db.Live k' id')
    (hd : k' = k ∧ id' = id → r.deleted = false) : (db.setRow k id r).Live k' id' := by
  by_cases he : k' = k ∧ id' = id
  · obtain ⟨rfl, rfl⟩ := he
    exact ⟨r, Db.row_setRow_self .., hd ⟨rfl, rfl⟩⟩
  · exact h.congr (Db.row_setRow_ne he)

theorem live_of_groupId {workspace : Workspace} {name : Text}
    (h : groupId db workspace name = some id) : db.Live .group id := by
  obtain ⟨r, hr, hd, -⟩ := groupId_some h
  exact ⟨r, hr, hd⟩

theorem points_pos_iff : 1 ≤ points k r i ↔ r.deleted = false ∧ (.identity, i) ∈ Body.refs k r.body := by
  cases k with
  | portForward | terminalProfile => exact r.body.elim
  | host =>
    cases hd : r.deleted <;> simp [points, Body.refs, hd, Nat.one_le_iff_ne_zero]
    tauto
  | group => cases hd : r.deleted <;> simp [points, Body.refs, hd, Nat.one_le_iff_ne_zero]
  | identity | key | snippet | knownHost | secret | manifest => simp [points, Body.refs]

/-! ## The books -/

/-- Every login and every password is accounted for, with those in hand counted in. -/
structure Balanced (held loose : List Uuid) (db : Db) : Prop where
  login : ∀ i, db.Live .identity i → references db i + held.count i = 1
  inHand : ∀ i ∈ held, db.Live .identity i
  refs : ∀ k id r, db.row k id = some r → r.deleted = false → ∀ ref ∈ Body.refs k r.body,
    db.Live ref.1 ref.2
  user : ∀ i j r r' t, db.row .identity i = some r → r.deleted = false →
    db.row .identity j = some r' → r'.deleted = false → r.body.passwordSecretId = some t →
    r'.body.passwordSecretId = some t → i = j
  used : ∀ t, db.Live .secret t → secretUsed db t = true ∨ t ∈ loose
  wiped : ∀ t p, db.row .secret t = some p → p.deleted = true → p.body = Sealed.empty
  keys : ∀ id, db.row .key id = none

theorem balanced_fresh (vaultId : Uuid) : Balanced [] [] (Db.fresh vaultId) where
  login _ h := nomatch h.choose_spec.1
  inHand _ h := nomatch h
  refs _ _ _ h := nomatch h
  user _ _ _ _ _ h := nomatch h
  used _ h := nomatch h.choose_spec.1
  wiped _ _ h := nomatch h
  keys _ := rfl

theorem Balanced.congr (h : Balanced held loose db) (hr : db'.rows = db.rows) : Balanced held loose db' := by
  have hrow := row_congr hr
  have live : ∀ k id, db'.Live k id ↔ db.Live k id := fun k id =>
    ⟨fun h => h.congr (hrow k id).symm, fun h => h.congr (hrow k id)⟩
  refine ⟨fun i hi => ?_, fun i hi => (live _ _).mpr (h.inHand i hi), fun k id r hk hd ref hm => ?_,
    ?_, fun t ht => ?_, fun t p hp => h.wiped t p ((hrow _ _).symm.trans hp), fun id => ?_⟩
  · have hrefs : references db' i = references db i := references_congr (by rw [hr]) (by rw [hr]) i
    rw [hrefs]
    exact h.login i ((live _ _).mp hi)
  · exact (live _ _).mpr (h.refs k id r ((hrow _ _).symm.trans hk) hd ref hm)
  · intro i j r r' t hi hd hj hd' ht ht'
    exact h.user i j r r' t ((hrow _ _).symm.trans hi) hd ((hrow _ _).symm.trans hj) hd' ht ht'
  · have husers : secretUsed db' t = secretUsed db t := secretUsed_congr (by rw [hr]) t
    rw [husers]
    exact h.used t ((live _ _).mp ht)
  · exact (hrow _ _).trans (h.keys id)

theorem Balanced.live_of_points (h : Balanced held loose db)
    (hr : db.row k id = some r) (hp : 1 ≤ points k r i) : db.Live .identity i := by
  obtain ⟨hd, hm⟩ := points_pos_iff.mp hp
  exact h.refs k id r hr hd (.identity, i) hm

theorem Balanced.sole (h : Balanced held loose db)
    (hr : db.row k id = some r) (hp : 1 ≤ points k r i) : references db i = 1 ∧ held.count i = 0 := by
  have hone := h.login i (h.live_of_points hr hp)
  have hle := points_le_references hr i
  omega

theorem exists_points (h : 0 < references db i) : ∃ k id r, db.row k id = some r ∧ 1 ≤ points k r i := by
  unfold references at h
  by_contra hnone
  have hzero : ∀ k id r, db.row k id = some r → ¬1 ≤ points k r i := fun k id r hr hp =>
    hnone ⟨k, id, r, hr, hp⟩
  have hempty : ∀ (k : EntityKind) (p : Uuid → Row (Body k) → Bool),
      (∀ id r, db.row k id = some r → p id r = true → 1 ≤ points k r i) →
      ((db.rows k).select p).length = 0 := by
    intro k p hp
    rw [List.length_eq_zero_iff, List.eq_nil_iff_forall_not_mem]
    rintro ⟨id, r⟩ hm
    obtain ⟨hr, hpr⟩ := Table.mem_select.mp hm
    exact hzero k id r hr (hp id r hr hpr)
  rw [hempty .host _ fun id r _ hp => ?_, hempty .host _ fun id r _ hp => ?_,
    hempty .group _ fun id r _ hp => ?_] at h
  · cases h
  · simp only [points, hp, if_true]
    omega
  · simp only [points, hp, if_true]
    omega
  · simp only [points, hp, if_true]
    omega

theorem Balanced.references_of_not_live (h : Balanced held loose db)
    (hn : ¬db.Live .identity i) : references db i = 0 := by
  by_contra hpos
  obtain ⟨k, id, r, hr, hp⟩ := exists_points (Nat.pos_of_ne_zero hpos)
  exact hn (h.live_of_points hr hp)

/-- A row of a host, a group or a certificate is written: what it points at now, and what is in hand
now, is what it pointed at before and what was in hand. -/
theorem Balanced.setOwner (h : Balanced held loose db) {r' : Row (Body k)}
    (hr : db'.rows = (db.setRow k id r').rows) (hi : k ≠ .identity) (hs : k ≠ .secret) (hk : k ≠ .key)
    (hp : ∀ i, points k r' i + held'.count i =
      ((db.row k id).elim 0 fun r => points k r i) + held.count i)
    (hrefs : r'.deleted = false → ∀ ref ∈ Body.refs k r'.body, db.Live ref.1 ref.2)
    (hgone : ∀ k₂ id₂ r₂, db.row k₂ id₂ = some r₂ → r₂.deleted = false →
      (k, id) ∈ Body.refs k₂ r₂.body → r'.deleted = false) : Balanced held' loose db' := by
  refine @Balanced.congr (db.setRow k id r') _ _ _ ?_ hr
  have hident : ∀ i, (db.setRow k id r').row .identity i = db.row .identity i := fun i =>
    Db.row_setRow_ne_kind (Ne.symm hi)
  have hsecret : ∀ t, (db.setRow k id r').row .secret t = db.row .secret t := fun t =>
    Db.row_setRow_ne_kind (Ne.symm hs)
  have hlive : ∀ i, (db.setRow k id r').Live .identity i → db.Live .identity i := fun i hl =>
    hl.congr (hident i).symm
  refine ⟨fun i hl => ?_, fun i hm => ?_, fun k₂ id₂ r₂ hr₂ hd₂ ref hm => ?_, ?_, fun t ht => ?_,
    fun t p hp => h.wiped t p ((hsecret t).symm.trans hp), fun id₂ => ?_⟩
  · have hone := h.login i (hlive i hl)
    have hset := references_setRow db k id r' i
    have := hp i
    omega
  · -- What is in hand now was before, or the row pointed at it.
    have hc := List.count_pos_iff.mpr hm
    have := hp i
    refine Db.Live.congr ?_ (hident i)
    by_cases hh : i ∈ held
    · exact h.inHand i hh
    · rw [List.count_eq_zero_of_not_mem hh] at this
      cases hrow : db.row k id with
      | none =>
        rw [hrow, Option.elim_none] at this
        omega
      | some r =>
        rw [hrow, Option.elim_some] at this
        exact h.live_of_points hrow (by omega)
  · by_cases he : k₂ = k ∧ id₂ = id
    · obtain ⟨rfl, rfl⟩ := he
      rw [Db.row_setRow_self] at hr₂
      cases hr₂
      exact (hrefs hd₂ ref hm).setRow fun _ => hd₂
    · rw [Db.row_setRow_ne he] at hr₂
      exact (h.refs k₂ id₂ r₂ hr₂ hd₂ ref hm).setRow fun hself =>
        hgone k₂ id₂ r₂ hr₂ hd₂ (by rw [← hself.1, ← hself.2]; exact hm)
  · intro i j r r' t hri hdi hrj hdj
    rw [hident] at hri hrj
    exact h.user i j r r' t hri hdi hrj hdj
  · rw [secretUsed_congr (rows_setRow_ne (Ne.symm hi))]
    exact h.used t (ht.congr (hsecret t).symm)
  · exact (Db.row_setRow_ne_kind (Ne.symm hk)).trans (h.keys id₂)

/-- A login is written, in place or as a new one, or deleted. Its new password is live and nobody
else's; the old one is loose from here on. -/
theorem Balanced.setLogin (h : Balanced held loose db) {r' : Row IdentityBody}
    (hcount : ∀ j, j ≠ i → held'.count j = held.count j)
    (hlive : r'.deleted = false → references db i + held'.count i = 1)
    (hdead : r'.deleted = true → references db i = 0 ∧ held'.count i = 0)
    (hkey : r'.body.keyId = none)
    (hsecret : ∀ t, r'.deleted = false → r'.body.passwordSecretId = some t → db.Live .secret t ∧
      ∀ j r, j ≠ i → db.row .identity j = some r → r.deleted = false →
        r.body.passwordSecretId ≠ some t)
    (hloose : ∀ t, db.Live .secret t →
      (t ∈ loose ∨ ∃ r, db.row .identity i = some r ∧ r.body.passwordSecretId = some t) →
      t ∈ loose' ∨ r'.deleted = false ∧ r'.body.passwordSecretId = some t)
    (hr : db'.rows = (db.setRow .identity i r').rows) : Balanced held' loose' db' := by
  refine @Balanced.congr (db.setRow .identity i r') _ _ _ ?_ hr
  have hself : (db.setRow .identity i r').row .identity i = some r' := Db.row_setRow_self ..
  have hother : ∀ j, j ≠ i → (db.setRow .identity i r').row .identity j = db.row .identity j :=
    fun j hj => Db.row_setRow_ne_id hj
  have hsec : ∀ t, (db.setRow .identity i r').row .secret t = db.row .secret t := fun t =>
    Db.row_setRow_ne_kind (by decide)
  have hrefs : ∀ j, references (db.setRow .identity i r') j = references db j := fun j =>
    references_congr (rows_setRow_ne (by decide)) (rows_setRow_ne (by decide)) j
  refine ⟨fun j hl => ?_, fun j hm => ?_, fun k id r hrow hd ref hm => ?_, ?_, fun t ht => ?_,
    fun t p hp => h.wiped t p ((hsec t).symm.trans hp), fun id => ?_⟩
  · rw [hrefs]
    by_cases hj : j = i
    · subst hj
      obtain ⟨r, hrow, hd⟩ := hl
      rw [hself] at hrow
      cases hrow
      exact hlive hd
    · rw [hcount j hj]
      exact h.login j (hl.congr (hother j hj).symm)
  · have hc := List.count_pos_iff.mpr hm
    by_cases hj : j = i
    · subst hj
      refine ⟨r', hself, ?_⟩
      cases hd : r'.deleted with
      | false => rfl
      | true => have := (hdead hd).2; omega
    · rw [hcount j hj] at hc
      exact (h.inHand j (List.count_pos_iff.mp hc)).congr (hother j hj)
  · by_cases he : k = .identity ∧ id = i
    · obtain ⟨rfl, rfl⟩ := he
      rw [hself] at hrow
      cases hrow
      rw [Body.refs, hkey, Option.toList_none, List.map_nil, List.nil_append, List.mem_map] at hm
      obtain ⟨t, ht, rfl⟩ := hm
      exact (hsecret t hd (Option.mem_toList.mp ht)).1.congr (hsec t)
    · rw [Db.row_setRow_ne he] at hrow
      refine (h.refs k id r hrow hd ref hm).setRow fun hto => ?_
      -- It points at the login, so the login is not one nobody points at.
      have hp : 1 ≤ points k r i := points_pos_iff.mpr ⟨hd, by rw [← hto.1, ← hto.2]; exact hm⟩
      have hle := points_le_references hrow i
      cases hd' : r'.deleted with
      | false => rfl
      | true => have := (hdead hd').1; omega
  · intro a b ra rb t ha hda hb hdb hta htb
    by_cases hai : a = i
    · by_cases hbi : b = i
      · rw [hai, hbi]
      · rw [hai, hself] at ha
        cases ha
        rw [hother b hbi] at hb
        exact absurd htb ((hsecret t hda hta).2 b rb hbi hb hdb)
    · rw [hother a hai] at ha
      by_cases hbi : b = i
      · rw [hbi, hself] at hb
        cases hb
        exact absurd hta ((hsecret t hdb htb).2 a ra hai ha hda)
      · rw [hother b hbi] at hb
        exact h.user a b ra rb t ha hda hb hdb hta htb
  · have ht' : db.Live .secret t := ht.congr (hsec t).symm
    have hnow : t ∈ loose' ∨ r'.deleted = false ∧ r'.body.passwordSecretId = some t →
        secretUsed (db.setRow .identity i r') t = true ∨ t ∈ loose' := by
      rintro (hl | ⟨hd, hp⟩)
      · exact .inr hl
      · exact .inl (secretUsed_of_row hself hd hp)
    rcases h.used t ht' with hu | hl
    · obtain ⟨j, r, hrow, hd, hp⟩ := secretUsed_iff.mp hu
      by_cases hj : j = i
      · subst hj
        exact hnow (hloose t ht' (.inr ⟨r, hrow, hp⟩))
      · exact .inl (secretUsed_of_row ((hother j hj).trans hrow) hd hp)
    · exact hnow (hloose t ht' (.inl hl))
  · exact (Db.row_setRow_ne_kind (by decide)).trans (h.keys id)

/-! ## Steps of editing a login -/

theorem Balanced.addSecret (h : Balanced held loose db) {p : Row Sealed}
    (hn : db.row .secret t = none) (hd : p.deleted = false)
    (hr : db'.rows = (db.setRow .secret t p).rows) :
    Balanced held (t :: loose) db' ∧ db'.Live .secret t ∧
      ∀ j r, db'.row .identity j = some r → r.deleted = false → r.body.passwordSecretId ≠ some t := by
  have hident : ∀ j, db'.row .identity j = db.row .identity j := fun j => by
    rw [row_congr hr]
    exact Db.row_setRow_ne_kind (by decide)
  refine ⟨@Balanced.congr (db.setRow .secret t p) _ _ _ ?_ hr, ⟨p, ?_, hd⟩, fun j r hj hdj hp => ?_⟩
  · have hlive : ∀ k id, db.Live k id → (db.setRow .secret t p).Live k id := fun k id hl =>
      hl.setRow fun _ => hd
    have hkeep : ∀ k id, k ≠ .secret → (db.setRow .secret t p).row k id = db.row k id :=
      fun k id hk => Db.row_setRow_ne_kind hk
    refine ⟨fun i hi => ?_, fun i hi => hlive _ _ (h.inHand i hi), fun k id r hrow hdr ref hm => ?_,
      ?_, fun u hu => ?_, fun u q hq hdq => ?_, fun id => ?_⟩
    · rw [references_congr (rows_setRow_ne (by decide)) (rows_setRow_ne (by decide))]
      exact h.login i (hi.congr (hkeep _ _ (by decide)).symm)
    · by_cases hk : k = .secret
      · subst hk
        cases hm
      · rw [hkeep k id hk] at hrow
        exact hlive _ _ (h.refs k id r hrow hdr ref hm)
    · intro a b ra rb u ha hda hb
      rw [hkeep _ _ (by decide)] at ha hb
      exact h.user a b ra rb u ha hda hb
    · rw [secretUsed_congr (rows_setRow_ne (by decide))]
      by_cases he : u = t
      · exact .inr (he ▸ List.mem_cons_self)
      · exact (h.used u (hu.congr (Db.row_setRow_ne_id he).symm)).imp_right (List.mem_cons_of_mem t)
    · by_cases he : u = t
      · subst he
        rw [Db.row_setRow_self] at hq
        cases hq
        rw [hd] at hdq
        cases hdq
      · rw [Db.row_setRow_ne_id he] at hq
        exact h.wiped u q hq hdq
    · exact (hkeep _ _ (by decide)).trans (h.keys id)
  · rw [row_congr hr]
    exact Db.row_setRow_self ..
  · rw [hident] at hj
    obtain ⟨q, hq, -⟩ := h.refs .identity j r hj hdj (.secret, t) (by simp [Body.refs, hp])
    rw [hn] at hq
    cases hq

theorem Forgets.balanced (hf : Forgets t db db') (h : Balanced held [t] db) : Balanced held [] db' := by
  have hdrop : (db.Live .secret t → secretUsed db t = true) → Balanced held [] db := fun hu =>
    { h with used := fun u hl => (h.used u hl).elim .inl fun hm =>
        Or.inl (by cases List.mem_singleton.mp hm; exact hu hl) }
  cases hf with
  | kept hu hr => exact (hdrop fun _ => hu).congr hr
  | gone _ hdead hr =>
    refine (hdrop fun ⟨p, hp, hd⟩ => ?_).congr hr
    rw [hdead p hp] at hd
    cases hd
  | @wiped p clock hu hp hd hr =>
    refine @Balanced.congr (db.setRow .secret t (p.tombstone clock fun _ => Sealed.empty)) _ _ _ ?_ hr
    have hkeep : ∀ k id, ¬(k = .secret ∧ id = t) →
        (db.setRow .secret t (p.tombstone clock fun _ => Sealed.empty)).row k id = db.row k id :=
      fun k id hne => Db.row_setRow_ne hne
    have hi : ∀ i, (db.setRow .secret t (p.tombstone clock fun _ => Sealed.empty)).row .identity i =
        db.row .identity i := fun i => hkeep _ _ fun he => by cases he.1
    have hself : (db.setRow .secret t (p.tombstone clock fun _ => Sealed.empty)).row .secret t =
        some (p.tombstone clock fun _ => Sealed.empty) := Db.row_setRow_self ..
    refine ⟨fun i hl => ?_, fun i hm => (h.inHand i hm).congr (hi i), fun k id r hrow hdr ref hm => ?_,
      ?_, fun u hl => ?_, fun u q hq hdq => ?_, fun id => ?_⟩
    · rw [references_congr (rows_setRow_ne (by decide)) (rows_setRow_ne (by decide))]
      exact h.login i (hl.congr (hi i).symm)
    · by_cases hk : k = .secret
      · subst hk
        cases hm
      · rw [hkeep k id fun he => hk he.1] at hrow
        refine (h.refs k id r hrow hdr ref hm).congr (hkeep _ _ fun hto => ?_)
        -- Only logins point at passwords, and no live one points at this.
        obtain ⟨k₂, id₂⟩ := ref
        obtain ⟨rfl, rfl⟩ := hto
        cases k with
        | portForward | terminalProfile => exact r.body.elim
        | host | group => simp [Body.refs] at hm
        | identity =>
          have hp : r.body.passwordSecretId = some id₂ := by simpa [Body.refs] using hm
          rw [secretUsed_of_row hrow hdr hp] at hu
          cases hu
        | key => rw [h.keys] at hrow; cases hrow
        | snippet | knownHost | secret | manifest => cases hm
    · intro a b ra rb u ha hda hb
      rw [hi] at ha hb
      exact h.user a b ra rb u ha hda hb
    · rw [secretUsed_congr (rows_setRow_ne (by decide))]
      by_cases he : u = t
      · subst he
        obtain ⟨q, hq, hdq⟩ := hl
        rw [hself] at hq
        cases hq
        cases hdq
      · refine (h.used u (hl.congr (hkeep _ _ fun hto => he hto.2).symm)).imp_right fun hm => ?_
        exact absurd (List.mem_singleton.mp hm) he
    · by_cases he : u = t
      · subst he
        rw [hself] at hq
        cases hq
        rfl
      · rw [hkeep _ _ fun hto => he hto.2] at hq
        exact h.wiped u q hq hdq
    · exact (hkeep _ _ fun he => by cases he.1).trans (h.keys id)

theorem ForgetsAny.balanced {o : Option Uuid} (hf : ForgetsAny o db db')
    (h : Balanced held o.toList db) : Balanced held [] db' := by
  cases o with
  | none => exact h.congr hf
  | some t => exact Forgets.balanced hf h

theorem Releases.balanced (hr : Releases i db db') (h : Balanced (i :: held) [] db) : Balanced held [] db' := by
  obtain ⟨r, hrow, hlive⟩ := h.inHand i List.mem_cons_self
  have hone := h.login i ⟨r, hrow, hlive⟩
  rw [List.count_cons_self] at hone
  cases hr with
  | kept howned => omega
  | gone _ hdead => rw [hdead r hrow] at hlive; cases hlive
  | @dropped r' clock db₁ hfree hrow' _ hrows hf =>
    rw [hrow] at hrow'
    cases hrow'
    have hkey : r.body.keyId = none := by
      rw [Option.eq_none_iff_forall_not_mem]
      intro key hm
      obtain ⟨q, hq, -⟩ := h.refs .identity i r hrow hlive (.key, key) (by simp [Body.refs, Option.mem_def.mp hm])
      rw [h.keys] at hq
      cases hq
    have hkey' : (r.tombstone clock fun b => b).body.keyId = none := hkey
    refine hf.balanced (h.setLogin (i := i) (fun j hj => ?_) (fun hd => by cases hd) (fun _ => ?_)
      hkey' (fun t hd => by cases hd) (fun t _ ht => .inl ?_) hrows)
    · rw [List.count_cons_of_ne (Ne.symm hj)]
    · exact ⟨hfree, by omega⟩
    · rcases ht with ht | ⟨q, hq, hp⟩
      · cases ht
      · rw [hrow] at hq
        cases hq
        exact Option.mem_toList.mpr hp

theorem ReleasesAll.balanced {identities : List Uuid} (hr : ReleasesAll identities db db')
    (h : Balanced (identities ++ held) [] db) : Balanced held [] db' := by
  induction hr with
  | nil hrows => exact h.congr hrows
  | cons first _ ih => exact ih (first.balanced h)

theorem GetsSecret.balanced {old secret : Option Uuid} {change : PasswordChange}
    (hg : GetsSecret cx old db db' change secret) (h : Balanced held [] db)
    (hold : ∀ t, old = some t → db.Live .secret t) : Balanced held (secret.toList.filter fun t => some t ≠ old) db' ∧
    (∀ t, secret = some t → db'.Live .secret t) ∧ ∀ t, secret = some t → old = some t ∨ ∀ j r, db'.row .identity j =
    some r → r.deleted = false → r.body.passwordSecretId ≠ some t := by
  cases hg with
  | keep hr =>
    refine ⟨?_, fun t ht => (hold t ht).congr (row_congr hr _ _), fun t ht => .inl ht⟩
    have hnone : (old.toList.filter fun t => some t ≠ old) = [] := by
      cases old <;> simp
    rw [hnone]
    exact h.congr hr
  | forget hr =>
    refine ⟨h.congr hr, fun t ht => ?_, fun t ht => ?_⟩
    · cases ht
    · cases ht
  | @set vault value t clock _ hn hr =>
    obtain ⟨hacc, hl, hnobody⟩ := h.addSecret hn rfl hr
    refine ⟨?_, fun u hu => Option.some.inj hu ▸ hl, fun u hu => .inr (Option.some.inj hu ▸ hnobody)⟩
    have hne : some t ≠ old := by
      intro he
      obtain ⟨q, hq, -⟩ := hold t he.symm
      rw [hn] at hq
      cases hq
    simpa [hne] using hacc

/-- An edit of an owner's login: the owner's own is written, one that has none gets a new one. What
is given and what is to let go of is what it had and what was made. -/
theorem AppliesLogin.balanced {current : Option Uuid} {change : LoginChange} {a : AppliedLogin}
    (ha : AppliesLogin cx current change db db' a) (h : Balanced held [] db)
    (hcur : ∀ i, current = some i → references db i = 1 ∧ held.count i = 0 ∧ db.Live .identity i) : ∃ made, Balanced
    (made ++ held) [] db' ∧ ∀ i, a.identity.toList.count i + a.release.toList.count i = current.toList.count i +
    List.count i made := by
  cases ha with
  | drops _ hr => exact ⟨[], h.congr hr, fun i => by simp⟩
  | @gives x secret db₁ db₂ _ hg hw hf =>
    have hold : ∀ t, oldSecret db current = some t → ∃ i r, current = some i ∧
        db.row .identity i = some r ∧ r.deleted = false ∧ r.body.passwordSecretId = some t := by
      intro t ht
      obtain ⟨i, hi, ht⟩ := Option.bind_eq_some_iff.mp ht
      obtain ⟨r, hr, ht⟩ := Option.bind_eq_some_iff.mp ht
      obtain ⟨r', hr', hd⟩ := (hcur i hi).2.2
      rw [hr] at hr'
      cases hr'
      exact ⟨i, r, hi, hr, hd, ht⟩
    obtain ⟨h₁, hlive, hnobody⟩ := hg.balanced h fun t ht => by
      obtain ⟨i, r, -, hr, hd, hp⟩ := hold t ht
      exact h.refs .identity i r hr hd (.secret, t) (by simp [Body.refs, hp])
    have hrefs₁ : ∀ i, references db₁ i = references db i := fun i =>
      references_congr (hg.rows_ne (by decide)) (hg.rows_ne (by decide)) i
    have hrow₁ : ∀ i, db₁.row .identity i = db.row .identity i := fun i => by
      unfold Db.row
      rw [hg.rows_ne (by decide)]
    cases hw with
    | @own r clock hi hsole hrow hrows =>
      obtain ⟨hone, hfree, r', hr', hd⟩ := hcur x hi
      rw [hrow₁, hr'] at hrow
      cases hrow
      have hmine : oldSecret db current = r.body.passwordSecretId := by
        rw [hi]
        unfold oldSecret
        rw [Option.bind_some, hr', Option.bind_some]
      refine ⟨[], hf.balanced (h₁.setLogin (fun _ _ => rfl) (fun _ => ?_) (fun hdead => ?_) rfl
        (fun t _ ht => ⟨hlive t ht, fun j rj hj hrj hdj hp => ?_⟩) (fun t _ ht => ?_) hrows),
        fun i => by simp [hi]⟩
      · show references db₁ x + List.count x held = 1
        rw [hrefs₁, hone, hfree]
      · cases hdead.symm.trans hd
      · rcases hnobody t ht with hold | hnobody
        · rw [hrow₁] at hrj
          exact hj (h.user j x rj r t hrj hdj hr' hd hp (hmine ▸ hold))
        · exact hnobody j rj hrj hdj hp
      · rcases ht with ht | ⟨q, hq, hp⟩
        · exact Or.inr ⟨hd, Option.mem_toList.mp (List.mem_filter.mp ht).1⟩
        · rw [hrow₁, hr'] at hq
          cases hq
          rw [← hmine] at hp
          -- The password it had is kept, or it is the one that is replaced.
          by_cases hs : secret = some t
          · exact .inr ⟨hd, hs⟩
          · refine Or.inl (Option.mem_toList.mpr ?_)
            rw [hp] at hg ⊢
            cases hc : change.password with
            | keep =>
              rw [hc] at hg
              cases hg
              exact absurd rfl hs
            | set | forget => simp [replaced, Ne.symm hs]
    | missing hi _ hn =>
      obtain ⟨r, hr, -⟩ := (hcur x hi).2.2
      rw [hrow₁, hr] at hn
      cases hn
    | @new clock hshared hn hrows =>
      have hnone : current = none := by
        rw [Option.eq_none_iff_forall_not_mem]
        intro i hm
        have hone := (hcur i hm).1
        have := hshared i hm
        rw [hrefs₁] at this
        omega
      have hnew : ¬db₁.Live .identity x := by
        rintro ⟨r, hr, -⟩
        rw [hn] at hr
        cases hr
      have hfree : List.count x held = 0 := List.count_eq_zero_of_not_mem fun hm =>
        hnew (h₁.inHand x hm)
      have hloose : replaced (oldSecret db current) secret change.password = none := by
        rw [hnone]
        cases change.password <;> rfl
      rw [hloose] at hf
      refine ⟨[x], hf.balanced (h₁.setLogin (fun j hj => ?_) (fun _ => ?_) (fun hdead => ?_) rfl
        (fun t _ ht => ⟨hlive t ht, fun j rj hj hrj hdj hp => ?_⟩) (fun t _ ht => .inr ?_) hrows),
        fun i => by simp [hnone]⟩
      · exact List.count_cons_of_ne (Ne.symm hj)
      · show references db₁ x + List.count x (x :: held) = 1
        rw [List.count_cons_self, hfree, h₁.references_of_not_live hnew]
      · cases hdead
      · rcases hnobody t ht with hold | hnobody
        · rw [hnone] at hold
          cases hold
        · exact hnobody j rj hrj hdj hp
      · rcases ht with ht | ⟨q, hq, -⟩
        · exact ⟨rfl, Option.mem_toList.mp (List.mem_filter.mp ht).1⟩
        · rw [hn] at hq
          cases hq

end UwuRdp
