import UwuRdp.Store.Accounts

/-!
# Every login has one owner, every password one login

What a device that syncs with nobody holds, whatever it edits and whether or not an edit goes
through: each live login belongs to exactly one live host, gateway or group, each live password to
exactly one live login, whatever a live row points at is live, and nothing of a deleted password is
left.
-/

namespace UwuRdp

open Lib

variable {cx : Session} {db db' db₁ : Db} {k : EntityKind} {id i : Uuid} {s s' : TxState}
  {held held' : List Uuid} {clock : Hlc}

/-! ## What the rows of owners point at -/

theorem count_toList (o : Option Uuid) (i : Uuid) :
    o.toList.count i = if o = some i then 1 else 0 := by
  cases o with
  | none => rfl
  | some j => simp [List.count_singleton]

variable {r : Row HostBody}

theorem points_host_count (hd : r.deleted = false) (i : Uuid) : points .host r i =
    r.body.identityId.toList.count i + r.body.gatewayIdentityId.toList.count i := by
  rw [points_host hd, count_toList, count_toList]

theorem points_group_count {r : Row GroupBody} (hd : r.deleted = false) (i : Uuid) :
    points .group r i = r.body.identityId.toList.count i := by
  rw [count_toList]
  simp [points, hd]

theorem live_refs_host {b : HostBody} (hg : ∀ g, b.groupId = some g → db.Live .group g)
    (hi : ∀ i, b.identityId = some i → db.Live .identity i)
    (ht : ∀ i, b.gatewayIdentityId = some i → db.Live .identity i) :
    ∀ ref ∈ Body.refs .host b, db.Live ref.1 ref.2 := by
  intro ref hm
  simp only [Body.refs, List.mem_append, List.mem_map, Option.mem_toList] at hm
  rcases hm with (⟨g, hm, rfl⟩ | ⟨i, hm, rfl⟩) | ⟨i, hm, rfl⟩
  · exact hg g hm
  · exact hi i hm
  · exact ht i hm

theorem Balanced.host_refs {loose : List Uuid} (h : Balanced held loose db)
    (hr : db.row .host id = some r) (hd : r.deleted = false) : (∀ g, r.body.groupId = some g → db.Live .group g) ∧
    (∀ i, r.body.identityId = some i → db.Live .identity i) ∧ ∀ i, r.body.gatewayIdentityId = some i → db.Live
    .identity i := by
  refine ⟨fun g hg => ?_, fun i hi => ?_, fun i hi => ?_⟩
  · exact h.refs .host id r hr hd (.group, g) (by simp [Body.refs, hg])
  · exact h.refs .host id r hr hd (.identity, i) (by simp [Body.refs, hi])
  · exact h.refs .host id r hr hd (.identity, i) (by simp [Body.refs, hi])

theorem not_mem_refs_host {k₂ : EntityKind} (b : Body k₂) : (.host, id) ∉ Body.refs k₂ b := by
  cases k₂ with
  | portForward | terminalProfile => exact b.elim
  | _ => simp [Body.refs]

variable {workspace : Workspace} {change : LoginChange} {g : Uuid} {name : Text} {set : ImportSet}

variable {group : Option Uuid}

theorem FindsGroup.balanced {path : Option Text} (hf : FindsGroup workspace db db' path group)
    (h : Balanced held [] db) : Balanced held [] db' ∧ ∀ g, group = some g → db'.Live .group g := by
  cases hf with
  | ungrouped hr => exact ⟨h.congr hr, fun g hg => by cases hg⟩
  | found hn hr =>
    refine ⟨h.congr hr, fun g hg => ?_⟩
    cases hg
    exact (live_of_groupId hn).congr (row_congr hr _ _)
  | made _ hn hr =>
    refine ⟨h.setOwner hr (by decide) (by decide) (by decide) (fun i => ?_) (fun _ ref hm => ?_)
      (fun _ _ _ _ _ _ => rfl), fun g hg => ?_⟩
    · rw [hn]
      rfl
    · cases hm
    · cases hg
      exact ⟨_, by rw [row_congr hr]; exact Db.row_setRow_self .., rfl⟩

/-! ## Calls on logins -/

/-- An owner's login after an edit of it, as the owner's row takes it up. -/
structure EditedLogin (held : List Uuid) (current : Option Uuid) (a : AppliedLogin)
    (made : List Uuid) (db : Db) : Prop where
  books : Balanced (made ++ held) [] db
  given : ∀ x, a.identity = some x → db.Live .identity x
  count : ∀ i, a.identity.toList.count i + a.release.toList.count i =
    current.toList.count i + made.count i

theorem AppliesLogin.edited {current : Option Uuid} {change : LoginChange} {a : AppliedLogin}
    (ha : AppliesLogin cx current change db db' a) (h : Balanced held [] db) {r : Row (Body k)}
    (hr : db.row k id = some r) (hk : k ≠ .identity ∧ k ≠ .secret) (hp : ∀ i, current = some i → 1 ≤ points k r i) : ∃
    made, EditedLogin held current a made db' := by
  obtain ⟨made, hbooks, hcount⟩ := ha.balanced h fun i hi => by
    obtain ⟨hone, hfree⟩ := h.sole hr (hp i hi)
    exact ⟨hone, hfree, h.live_of_points hr (hp i hi)⟩
  refine ⟨made, hbooks, fun x hx => ?_, hcount⟩
  have := hcount x
  rw [hx, Option.toList_some, List.count_singleton_self] at this
  by_cases hcur : current = some x
  · have hr' : db'.row k id = some r := by
      unfold Db.row
      rw [ha.rows_ne hk.1 hk.2]
      exact hr
    exact hbooks.live_of_points hr' (hp x hcur)
  · rw [count_toList current, if_neg hcur] at this
    exact hbooks.inHand x (List.mem_append_left _ (List.count_pos_iff.mp (by omega)))

theorem SetsLogin.balanced (hs : SetsLogin cx id change db db') (h : Balanced [] [] db) : Balanced [] [] db' := by
  cases hs with
  | @mk r a clock db₁ db₂ hrow live login rows released =>
    obtain ⟨made, hbooks, hgiven, hcount⟩ := login.edited h hrow (by decide) fun i hi => by
      rw [points_host_count live, hi, Option.toList_some, List.count_singleton_self]
      omega
    have hrow₁ : db₁.row .host id = some r := by
      unfold Db.row
      rw [login.rows_ne (by decide) (by decide)]
      exact hrow
    obtain ⟨hg, hi, ht⟩ := hbooks.host_refs hrow₁ live
    have hbooks₂ : Balanced (a.release.toList ++ []) [] db₂ := by
      refine hbooks.setOwner rows (by decide) (by decide) (by decide) (fun i => ?_)
        (fun _ => live_refs_host hg hgiven ht) fun _ _ _ _ _ hm => absurd hm (not_mem_refs_host _)
      have := hcount i
      rw [hrow₁, Option.elim_some, points_host_count live, points_host_count (show
        (r.rewrite clock fun b => { b with identityId := a.identity }).deleted = false from live)]
      simp only [Row.rewrite, List.append_nil]
      omega
    exact released.balanced hbooks₂

theorem SetsGroupLogin.balanced (hs : SetsGroupLogin cx id change db db')
    (h : Balanced [] [] db) : Balanced [] [] db' := by
  cases hs with
  | @mk r a clock db₁ db₂ hrow live login rows released =>
    obtain ⟨made, hbooks, hgiven, hcount⟩ := login.edited h hrow (by decide) fun i hi => by
      rw [points_group_count live, hi, Option.toList_some, List.count_singleton_self]
    have hrow₁ : db₁.row .group id = some r := by
      unfold Db.row
      rw [login.rows_ne (by decide) (by decide)]
      exact hrow
    have hbooks₂ : Balanced (a.release.toList ++ []) [] db₂ := by
      refine hbooks.setOwner rows (by decide) (by decide) (by decide) (fun i => ?_)
        (fun _ ref hm => ?_) fun _ _ _ _ _ _ => live
      · have := hcount i
        rw [hrow₁, Option.elim_some, points_group_count live, points_group_count (show
          (r.rewrite clock fun b => { b with identityId := a.identity }).deleted = false from live)]
        simp only [Row.rewrite, List.append_nil]
        omega
      · simp only [Body.refs, List.mem_map, Option.mem_toList] at hm
        obtain ⟨x, hx, rfl⟩ := hm
        exact hgiven x hx
    exact released.balanced hbooks₂

theorem DeletesHost.balanced (hs : DeletesHost id db db') (h : Balanced [] [] db) : Balanced [] [] db' := by
  cases hs with
  | @mk r clock db₁ hrow live rows released =>
    have hbooks₁ : Balanced ((r.body.identityId.toList ++ r.body.gatewayIdentityId.toList) ++ []) [] db₁ := by
      refine h.setOwner rows (by decide) (by decide) (by decide) (fun i => ?_)
        (fun hd => by cases hd) fun _ _ _ _ _ hm => absurd hm (not_mem_refs_host _)
      rw [hrow, Option.elim_some, points_host_count live, List.append_nil, List.count_append]
      show 0 + _ = _ + 0
      omega
    exact released.balanced hbooks₁

theorem AppliesLogin.edited_existing {existing : Option (Row HostBody)} {login : HostBody → Option Uuid}
    {a : AppliedLogin} (ha : AppliesLogin cx (existing.bind fun r => login r.body) change db db' a)
    (h : Balanced held [] db) (hex : ∀ r, existing = some r → db.row .host id = some r ∧ r.deleted = false)
    (hl : ∀ r i, r.deleted = false → login r.body = some i → 1 ≤ points .host r i) : ∃ made, EditedLogin held
    (existing.bind fun r => login r.body) a made db' := by
  cases existing with
  | none =>
    obtain ⟨made, hbooks, hcount⟩ := ha.balanced h fun i hi => by cases hi
    refine ⟨made, hbooks, fun x hx => ?_, hcount⟩
    have := hcount x
    rw [hx, Option.toList_some, List.count_singleton_self, Option.bind_none, Option.toList_none,
      List.count_nil] at this
    exact hbooks.inHand x (List.mem_append_left _ (List.count_pos_iff.mp (by omega)))
  | some r =>
    obtain ⟨hr, hd⟩ := hex r rfl
    exact ha.edited h hr (by decide) fun i hi => hl r i hd hi

theorem Saves.balanced {d : HostDraft} (hs : Saves cx d db db' id) (h : Balanced [] [] db) : Balanced [] [] db' := by
  cases hs with
  | @mk existing workspace position group own gateway db₁ db₂ db₃ db₄ steps =>
    obtain ⟨h₁, hgroup⟩ := steps.found.balanced h
    have hex : ∀ r, existing = some r → db.row .host id = some r ∧ r.deleted = false := by
      intro r hr
      cases steps.wrote with
      | edited hid hwas hrow =>
        obtain ⟨host, hhost, hlive⟩ := steps.was.live hr
        rw [hid] at hhost
        cases hhost
        exact liveHost_some hlive
      | added hnone => rw [hnone] at hr; cases hr
    have hrows₁ : db₁.rows .host = db.rows .host := steps.found.rows_ne (by decide)
    have hrows₂ : db₂.rows .host = db₁.rows .host := steps.login.rows_ne (by decide) (by decide)
    have hrows₃ : db₃.rows .host = db₂.rows .host := steps.through.rows_ne (by decide) (by decide)
    have hex₁ : ∀ r, existing = some r → db₁.row .host id = some r ∧ r.deleted = false :=
      fun r hr => ⟨by unfold Db.row; rw [hrows₁]; exact (hex r hr).1, (hex r hr).2⟩
    have hex₂ : ∀ r, existing = some r → db₂.row .host id = some r ∧ r.deleted = false :=
      fun r hr => ⟨by unfold Db.row; rw [hrows₂]; exact (hex₁ r hr).1, (hex₁ r hr).2⟩
    have hex₃ : ∀ r, existing = some r → db₃.row .host id = some r ∧ r.deleted = false :=
      fun r hr => ⟨by unfold Db.row; rw [hrows₃]; exact (hex₂ r hr).1, (hex₂ r hr).2⟩
    obtain ⟨made, hown⟩ := steps.login.edited_existing h₁ hex₁ fun r i hd hi => by
      rw [points_host_count hd, hi, Option.toList_some, List.count_singleton_self]
      omega
    obtain ⟨made', hgateway⟩ := steps.through.edited_existing hown.books hex₂ fun r i hd hi => by
      rw [points_host_count hd, hi, Option.toList_some, List.count_singleton_self]
      omega
    have hgiven : ∀ x, own.identity = some x → db₃.Live .identity x := by
      intro x hx
      by_cases hg : gateway.identity = some x
      · exact hgateway.given x hg
      · exact (hown.given x hx).congr (steps.through.kept_of_ne hg).row
    have hcount : ∀ i, own.identity.toList.count i + gateway.identity.toList.count i +
        (own.release.toList ++ gateway.release.toList ++ []).count i =
        (existing.bind fun r => r.body.identityId).toList.count i +
          (existing.bind fun r => r.body.gatewayIdentityId).toList.count i +
          (made' ++ (made ++ [])).count i := by
      intro i
      have h₁ := hown.count i
      have h₂ := hgateway.count i
      simp only [List.append_nil, List.count_append]
      omega
    refine steps.released.balanced (?_ : Balanced (_ ++ []) [] _)
    cases steps.wrote with
    | @edited r clock hid hwas hrow rows =>
      have hd := (hex₃ r hwas).2
      refine hgateway.books.setOwner rows (by decide) (by decide) (by decide) (fun i => ?_)
        (fun _ => live_refs_host ?_ hgiven hgateway.given)
        fun _ _ _ _ _ hm => absurd hm (not_mem_refs_host _)
      · have := hcount i
        rw [hwas, Option.bind_some, Option.bind_some] at this
        rw [hrow, Option.elim_some, points_host_count hd, points_host_count (show (r.rewrite clock
          fun b => d.body workspace position group own.identity gateway.identity
            b.extra).deleted = false from hd)]
        exact this
      · intro g hg
        refine (hgroup g hg).congr ?_
        unfold Db.row
        rw [steps.through.rows_ne (by decide) (by decide), steps.login.rows_ne (by decide) (by decide)]
    | @added clock hwas hnew rows =>
      refine hgateway.books.setOwner rows (by decide) (by decide) (by decide) (fun i => ?_)
        (fun _ => live_refs_host ?_ hgiven hgateway.given)
        fun _ _ _ _ _ hm => absurd hm (not_mem_refs_host _)
      · have := hcount i
        rw [hwas, Option.bind_none, Option.bind_none, Option.toList_none, List.count_nil, Nat.zero_add] at this
        rw [hnew, Option.elim_none, points_host_count rfl, Nat.zero_add]
        exact this
      · intro g hg
        refine (hgroup g hg).congr ?_
        unfold Db.row
        rw [steps.through.rows_ne (by decide) (by decide), steps.login.rows_ne (by decide) (by decide)]

/-! ## Rows whose logins stay -/

def Sums (held : List Uuid) (s : TxState) : Prop := Balanced held [] s.db

theorem tick_sums : Tx.Ensures (Sums held) (StoreTx.tick cx) fun _ => Sums held := by
  intro s hs c s' hm
  refine Balanced.congr hs ?_
  rw [(tick_eq_ok hm).2]
  rfl

theorem query_sums {α : Type} (f : Db → α) : Tx.Ensures (Sums held) (StoreTx.query f) fun _ => Sums held :=
  .conseq (query_ensures f) (fun _ h => h) fun _ _ h => h.1

variable {f : HostBody → HostBody}

theorem Balanced.moveHost (h : Balanced held [] db) (hr : db.row .host id = some r)
    (hf : (f r.body).identityId = r.body.identityId ∧ (f r.body).gatewayIdentityId = r.body.gatewayIdentityId)
    (hg : r.deleted = false → ∀ g, (f r.body).groupId = some g → db.Live .group g)
    (hrows : db'.rows = (db.setRow .host id (r.rewrite clock f)).rows) : Balanced held [] db' := by
  refine h.setOwner hrows (by decide) (by decide) (by decide) (fun i => ?_) (fun hd => ?_)
    fun _ _ _ _ _ hm => absurd hm (not_mem_refs_host _)
  · rw [hr, Option.elim_some]
    simp only [points, Row.rewrite, hf.1, hf.2]
  · have hd : r.deleted = false := hd
    obtain ⟨-, hi, ht⟩ := h.host_refs hr hd
    exact live_refs_host (hg hd) (fun i h => hi i (hf.1 ▸ h)) fun i h => ht i (hf.2 ▸ h)

theorem Balanced.changeGroup {r r' : Row GroupBody} (h : Balanced held [] db) (hr : db.row .group id = some r)
    (hd : r'.deleted = r.deleted) (hi : r'.body.identityId = r.body.identityId)
    (hrows : db'.rows = (db.setRow .group id r').rows) : Balanced held [] db' := by
  refine h.setOwner hrows (by decide) (by decide) (by decide) (fun i => ?_) (fun hlive ref hm => ?_)
    fun k₂ id₂ r₂ hr₂ hd₂ hm => ?_
  · rw [hr, Option.elim_some]
    simp only [points, hd, hi]
  · rw [hd] at hlive
    refine h.refs .group id r hr hlive ref ?_
    simp only [Body.refs, hi] at hm
    exact hm
  · obtain ⟨q, hq, hlive⟩ := h.refs k₂ id₂ r₂ hr₂ hd₂ _ hm
    rw [hr] at hq
    cases hq
    rw [hd]
    exact hlive

theorem Sums.congr (h : Sums held s) (he : s'.db.rows = s.db.rows) : Sums held s' :=
  Balanced.congr h he

theorem updateGroup_sums {f : Row GroupBody → Row GroupBody}
    (hf : ∀ r, (f r).deleted = r.deleted ∧ (f r).body.identityId = r.body.identityId) :
    Tx.Ensures (Sums held) (StoreTx.updateRow .group id f) fun _ => Sums held :=
  updateRow_keeps (P := Balanced held []) fun hs hr => hs.changeGroup hr (hf _).1 (hf _).2 rfl

theorem Balanced.setKnownHost {r' : Row KnownHostPayload} (h : Balanced held [] db)
    (hrows : db'.rows = (db.setRow .knownHost id r').rows) : Balanced held [] db' := by
  refine h.setOwner hrows (by decide) (by decide) (by decide) (fun i => ?_) (fun _ ref hm => ?_)
    fun k₂ id₂ r₂ _ _ hm => ?_
  · cases db.row .knownHost id <;> rfl
  · cases hm
  · cases k₂ with
    | portForward | terminalProfile => exact r₂.body.elim
    | _ => simp [Body.refs] at hm

theorem updateKnownHost_sums {f : Row KnownHostPayload → Row KnownHostPayload} :
    Tx.Ensures (Sums held) (StoreTx.updateRow .knownHost id f) fun _ => Sums held :=
  updateRow_keeps (P := Balanced held []) fun hs _ => hs.setKnownHost rfl

theorem insertKnownHost_sums {r : Row KnownHostPayload} :
    Tx.Ensures (Sums held) (StoreTx.insertRow .knownHost id r) fun _ => Sums held := by
  intro s hs u s' hm
  exact Balanced.setKnownHost hs (by rw [(insertRow_ok hm).2.2])

/-! ## Groups -/

def SumsIn (group : Option Uuid) (held : List Uuid) (s : TxState) : Prop :=
  Sums held s ∧ ∀ g, group = some g → s.db.Live .group g

theorem updateHost_sumsIn
    (hf : ∀ b, (f b).identityId = b.identityId ∧ (f b).gatewayIdentityId = b.gatewayIdentityId ∧
      (f b).groupId = group) :
    Tx.Ensures (SumsIn group held) (StoreTx.updateRow .host id fun r => r.rewrite clock f)
      fun _ => SumsIn group held := by
  intro s hs u s' hm
  rcases updateRow_ok hm with ⟨-, he⟩ | ⟨r, hr, -, he⟩
  · exact ⟨hs.1.congr (by rw [he]), by rw [he]; exact hs.2⟩
  · refine ⟨Balanced.moveHost hs.1 hr ⟨(hf _).1, (hf _).2.1⟩ (fun _ g hg => ?_) (by rw [he]), fun g hg => ?_⟩
    · exact hs.2 g ((hf _).2.2 ▸ hg)
    · rw [he]
      exact (hs.2 g hg).congr (Db.row_setRow_ne_kind (by decide))

def Leaving (src : Uuid) (rest : List Uuid) (s : TxState) : Prop :=
  ∀ id r, s.db.row .host id = some r → r.deleted = false → r.body.groupId = some src → id ∈ rest

variable {dst : Option Uuid}

theorem updateHost_leaving {src : Uuid} {rest : List Uuid}
    (hf : ∀ b, (f b).groupId = dst) (hne : dst ≠ some src) : Tx.Ensures (Leaving src (id :: rest))
    (StoreTx.updateRow .host id fun r => r.rewrite clock f) fun _ => Leaving src rest := by
  intro s hs u s' hm id₂ r₂ hr₂ hd₂ hg₂
  have hother : id₂ ≠ id → s.db.row .host id₂ = some r₂ → id₂ ∈ rest := fun hid hr =>
    (List.mem_cons.mp (hs id₂ r₂ hr hd₂ hg₂)).resolve_left hid
  rcases updateRow_ok hm with ⟨hn, he⟩ | ⟨r, hr, -, he⟩
  · rw [he] at hr₂
    refine hother (fun hid => ?_) hr₂
    rw [hid, hn] at hr₂
    cases hr₂
  · rw [he] at hr₂
    by_cases hid : id₂ = id
    · rw [hid, Db.row_setRow_self] at hr₂
      cases hr₂
      exact absurd ((hf r.body).symm.trans hg₂) hne
    · rw [Db.row_setRow_ne_id hid] at hr₂
      exact hother hid hr₂

theorem placeHosts_sums {src : Uuid} (hne : dst ≠ some src) (hosts : List Uuid) (position : ℤ) :
    Tx.Ensures (fun s => SumsIn dst held s ∧ Leaving src hosts s) (placeHosts workspace dst clock position hosts) fun
    _ s => SumsIn dst held s ∧ Leaving src [] s := by
  induction hosts generalizing position with
  | nil => exact .pure _ fun _ h => h
  | cons id rest ih =>
    refine .bind (.and (updateHost_sumsIn fun _ => ⟨rfl, rfl, rfl⟩)
      (updateHost_leaving (fun _ => rfl) hne)) fun _ => ih (position + 1)

theorem mem_hostOrder {p : Uuid → HostBody → Bool} (hr : db.row .host id = some r)
    (hd : r.deleted = false) (hp : p id r.body = true) : id ∈ (hostOrder db p).map Prod.fst := by
  unfold hostOrder inOrder
  rw [List.map_map, List.mem_map]
  refine ⟨(id, r.body.position, r.body.name), ?_, rfl⟩
  rw [List.mem_insertionSort, List.mem_map]
  exact ⟨(id, r), Table.mem_select.mpr ⟨hr, by simp [hd, hp]⟩, rfl⟩

theorem moveMembers_sums {src : Uuid} (hne : dst ≠ some src) : Tx.Ensures (SumsIn dst held)
    (moveMembers cx src workspace dst) fun _ s => SumsIn dst held s ∧ Leaving src [] s := by
  refine .bind (query_ensures _) fun hosts => ?_
  have hleft : ∀ s : TxState, (SumsIn dst held s ∧ hosts = hostOrder s.db fun _ b => b.groupId = some src) →
      SumsIn dst held s ∧ Leaving src (hosts.map Prod.fst) s := by
    rintro s ⟨hs, rfl⟩
    refine ⟨hs, fun id r hr hd hg => mem_hostOrder hr hd (decide_eq_true hg)⟩
  refine .conseq ?_ hleft fun _ _ h => h
  refine .ite (fun hempty => .pure _ fun s h => ?_) fun _ => ?_
  · rw [List.isEmpty_iff.mp hempty] at h
    exact h
  · refine .bind (nextPosition_ensures workspace dst) fun first => ?_
    refine .bind (R := fun _ s => SumsIn dst held s ∧ Leaving src (hosts.map Prod.fst) s)
      ?_ fun clock => placeHosts_sums hne _ first
    intro s hs c s' hm
    have hrows : s'.db.rows = s.db.rows := by rw [(tick_eq_ok hm).2]; rfl
    refine ⟨⟨hs.1.1.congr hrows, fun g hg => (hs.1.2 g hg).congr (row_congr hrows _ _)⟩, ?_⟩
    intro id r hr
    exact hs.2 id r ((row_congr hrows _ _).symm.trans hr)

theorem tombstoneGroup_sums : Tx.Ensures (fun s => Sums [] s ∧ Leaving g [] s)
    (tombstoneGroup cx g) fun _ => Sums [] := by
  intro s hs u s' hm
  obtain ⟨clock, s₁, h₁, hm⟩ := Tx.bind_eq_ok.mp hm
  obtain ⟨row, s₂, h₂, hm⟩ := Tx.bind_eq_ok.mp hm
  cases h₂
  obtain ⟨_, s₃, h₃, hm⟩ := Tx.bind_eq_ok.mp hm
  have hrows : s₁.db.rows = s.db.rows := by rw [(tick_eq_ok h₁).2]; rfl
  have hbooks : Balanced [] [] s₁.db := hs.1.congr hrows
  refine (releaseAll_ok hm).balanced (?_ : Balanced (_ ++ []) [] _)
  show Balanced ((((s₁.db.row .group g).filter fun r => !r.deleted).bind fun r =>
    r.body.identityId).toList ++ []) [] s₃.db
  rcases tombstoneLive_ok h₃ with ⟨hdead, hr⟩ | ⟨r, hr, hd, hr'⟩
  · have hnone : (s₁.db.row .group g).filter (fun r => !r.deleted) = none := by
      cases hrow : s₁.db.row .group g with
      | none => rfl
      | some r => simp [hdead r hrow]
    rw [hnone]
    exact hbooks.congr hr
  · rw [hr, Option.filter_some, hd, Bool.not_false, if_pos rfl, Option.bind_some]
    refine hbooks.setOwner hr' (by decide) (by decide) (by decide) (fun i => ?_)
      (fun hlive => by cases hlive) fun k₂ id₂ r₂ hr₂ hd₂ hm => ?_
    · rw [hr, Option.elim_some, points_group_count hd, List.append_nil]
      show 0 + _ = _ + 0
      omega
    · -- Only hosts point at groups, and none at this one.
      cases k₂ with
      | portForward | terminalProfile => exact r₂.body.elim
      | host =>
        have hg : r₂.body.groupId = some g := by simpa [Body.refs] using hm
        exact absurd (hs.2 id₂ r₂ ((row_congr hrows _ _).symm.trans hr₂) hd₂ hg) List.not_mem_nil
      | _ => simp [Body.refs] at hm

theorem knownGroup_ensures {P : TxState → Prop} (workspace : Workspace) (name : Text) : Tx.Ensures P
    (knownGroup workspace name) fun g s => P s ∧ groupId s.db workspace name = some g := by
  refine .bind (query_ensures _) fun found => ?_
  exact .orFail fun s hs g hg => ⟨hs.1, hs.2.symm.trans hg⟩

theorem mergeGroup_sums {src dst : Uuid} (hne : dst ≠ src) : Tx.Ensures (SumsIn (some dst) [])
    (moveMembers cx src workspace (some dst) >>= fun _ => tombstoneGroup cx src) fun _ => Sums [] :=
  .bind (moveMembers_sums fun he => hne (Option.some.inj he)) fun _ =>
    .conseq tombstoneGroup_sums (fun _ h => ⟨h.1.1, h.2⟩) fun _ _ h => h

theorem renameGroup_sums {src dst : Text} :
    Tx.Ensures (Sums []) (renameGroup cx workspace src dst) fun _ => Sums [] := by
  unfold renameGroup
  split
  · exact .fail _
  · next name _ =>
    refine .ite (fun _ => .pure _ fun _ h => h) fun hne => ?_
    refine .bind (knownGroup_ensures workspace src) fun srcId => ?_
    refine .bind (query_ensures _) fun found => ?_
    cases found with
    | some dstId =>
      intro s hs
      obtain ⟨r, hr, -, -, hsrc⟩ := groupId_some hs.1.2
      obtain ⟨r', hr', -, -, hdst⟩ := groupId_some hs.2.symm
      refine mergeGroup_sums (fun he => ?_) s ⟨hs.1.1, fun g hg => ?_⟩
      · rw [he, hr] at hr'
        cases hr'
        exact hne (hsrc.symm.trans hdst)
      · cases hg
        exact live_of_groupId hs.2.symm
    | none =>
      refine .bind (.conseq tick_sums (fun _ h => h.1.1) fun _ _ h => h) fun clock => ?_
      exact updateGroup_sums fun r => ⟨rfl, rfl⟩

theorem deleteGroup_sums : Tx.Ensures (Sums []) (deleteGroup cx workspace name) fun _ => Sums [] := by
  refine .bind (knownGroup_ensures workspace name) fun g => ?_
  refine .bind (.conseq (moveMembers_sums (fun he => by cases he))
    (fun s hs => ⟨hs.1, fun g hg => by cases hg⟩) fun _ _ h => h) fun _ => ?_
  exact .conseq tombstoneGroup_sums (fun _ h => ⟨h.1.1, h.2⟩) fun _ _ h => h

theorem setWorkspaces_sums (hosts : List Uuid) :
    Tx.Ensures (Sums held) (setWorkspaces workspace clock hosts) fun _ => Sums held := by
  refine .forM fun id _ => updateRow_keeps (P := Balanced held []) fun hs hr => ?_
  exact hs.moveHost hr ⟨rfl, rfl⟩ (fun hd => (hs.host_refs hr hd).1) rfl

theorem enterWorkspace_sums : Tx.Ensures
    (fun s => Sums [] s ∧ ∀ r, s.db.row .group g = some r → r.body.workspace ≠ workspace)
    (enterWorkspace cx g name workspace) fun _ => Sums [] := by
  refine .bind (query_ensures _) fun found => ?_
  cases found with
  | some target =>
    refine .bind (R := fun _ s => SumsIn (some target) [] s ∧ Leaving g [] s) ?_ fun _ =>
      .bind (.conseq tombstoneGroup_sums (fun _ h => ⟨h.1.1, h.2⟩)
        fun _ _ h => h) fun _ => .pure _ fun _ h => h
    intro s hs
    obtain ⟨r, hr, -, hw, -⟩ := groupId_some hs.2.symm
    refine moveMembers_sums (fun he => ?_) s ⟨hs.1.1, fun d hd => ?_⟩
    · cases he
      exact hs.1.2 r hr hw
    · cases hd
      exact live_of_groupId hs.2.symm
  | none =>
    refine .bind (.conseq tick_sums (fun _ h => h.1.1) fun _ _ h => h) fun clock => ?_
    refine .bind (updateGroup_sums fun r => ⟨rfl, rfl⟩) fun _ => ?_
    refine .bind (query_sums _) fun hosts => ?_
    exact .bind (setWorkspaces_sums hosts) fun _ => .pure _ fun _ h => h

theorem moveGroup_ensures {I : TxState → Prop} {dst : Workspace} {before : Option Text}
    (hquery : ∀ {α : Type} (f : Db → α), Tx.Ensures I (StoreTx.query f) fun _ => I)
    (htick : Tx.Ensures I (StoreTx.tick cx) fun _ => I)
    (hplace : ∀ clock places, Tx.Ensures I (renumber clock places) fun _ => I)
    (henter : ∀ g, dst ≠ workspace → Tx.Ensures (fun s => I s ∧ groupId s.db workspace name = some g)
      (enterWorkspace cx g name dst) fun _ => I) :
    Tx.Ensures I (moveGroup cx workspace name dst before) fun _ => I := by
  refine .bind (knownGroup_ensures workspace name) fun named => ?_
  refine .ite (fun hne => .bind (henter named hne) fun g => ?_) fun _ =>
    .bind (R := fun _ => I) (.pure _ fun _ h => h.1) fun g => ?_
  all_goals
    refine .bind (hquery _) fun beforeId => .bind (hquery _) fun order => ?_
    split
    · exact .pure _ fun _ h => h
    · exact .bind htick fun clock => hplace _ _

theorem moveGroup_sums {dst : Workspace} {before : Option Text} :
    Tx.Ensures (Sums []) (moveGroup cx workspace name dst before) fun _ => Sums [] := by
  refine moveGroup_ensures query_sums tick_sums (fun _ _ => ?_) fun g hne => ?_
  · exact .forM fun e _ => updateGroup_sums fun r => ⟨rfl, rfl⟩
  · refine .conseq enterWorkspace_sums (fun s hs => ⟨hs.1, fun r hr hw => ?_⟩) fun _ _ h => h
    obtain ⟨r', hr', -, hw', -⟩ := groupId_some hs.2
    rw [hr] at hr'
    cases hr'
    exact hne (hw.symm.trans hw')

theorem ensureGroupPath_sums {path : Option Text} :
    Tx.Ensures (Sums held) (ensureGroupPath cx workspace path) fun group => SumsIn group held := by
  intro s hs group s' hm
  exact (ensureGroupPath_ok hm).balanced hs

theorem tick_sumsIn : Tx.Ensures (SumsIn group held) (StoreTx.tick cx) fun _ => SumsIn group held := by
  intro s hs c s' hm
  have hrows : s'.db.rows = s.db.rows := by rw [(tick_eq_ok hm).2]; rfl
  exact ⟨hs.1.congr hrows, fun g hg => (hs.2 g hg).congr (row_congr hrows _ _)⟩

theorem moveHost_sums {group : Option Text} {before : Option Uuid} :
    Tx.Ensures (Sums []) (moveHost cx id workspace group before) fun _ => Sums [] := by
  unfold moveHost
  split
  · exact .fail _
  · refine .bind (query_sums _) fun row => ?_
    refine .bind (R := fun _ => Sums []) (.orFail fun _ h _ _ => h) fun r => ?_
    refine .bind ensureGroupPath_sums fun groupId => ?_
    refine .bind (.conseq (query_ensures _) (fun _ h => h) fun _ _ h => h.1) fun order => ?_
    refine .bind tick_sumsIn fun clock => ?_
    refine .bind (.forM fun e _ => updateHost_sumsIn fun _ => ⟨rfl, rfl, rfl⟩) fun _ => ?_
    refine .bind (.conseq (query_sums _) (fun _ h => h.1) fun _ _ h => h) fun record => ?_
    exact .orFail fun _ h _ _ => h

/-! ## Imports -/

theorem Balanced.perm (h : Balanced held [] db) (hc : ∀ i, held'.count i = held.count i) : Balanced held' [] db := by
  refine { h with login := fun i hi => ?_, inHand := fun i hm => ?_ }
  · rw [hc]
    exact h.login i hi
  · have hpos := List.count_pos_iff.mpr hm
    rw [hc] at hpos
    exact h.inHand i (List.count_pos_iff.mp hpos)

theorem importSecret_ok {password : Option (List UInt8)} {secret : Option Uuid}
    (h : importSecret cx password s = .ok (secret, s')) : ∃ change, GetsSecret cx none s.db s'.db change secret := by
  cases password with
  | none =>
    cases h
    exact ⟨.keep, .keep rfl⟩
  | some value =>
    simp only [importSecret] at h
    split at h
    · cases h
      exact ⟨.keep, .keep rfl⟩
    · exact ⟨.set value, @newSecret_ok _ _ _ _ _ (.set value) h⟩

theorem importLogin_ok {index : Option ℕ} {o : Option Uuid} (h : importLogin cx set index s = .ok (o, s')) :
    (o = none ∧ s'.db.rows = s.db.rows) ∨ ∃ change, AppliesLogin cx none change s.db s'.db ⟨o, none⟩ := by
  unfold importLogin at h
  cases hi : index.bind fun i => set.logins[i]? with
  | none =>
    rw [hi] at h
    cases h
    exact .inl ⟨rfl, rfl⟩
  | some input =>
    rw [hi] at h
    simp only at h
    cases hu : cleanUsername "username" input.username with
    | error e =>
      rw [hu] at h
      cases h
      exact .inl ⟨rfl, rfl⟩
    | ok username =>
      cases hd : cleanDomain "domain" input.domain with
      | error e =>
        rw [hu, hd] at h
        cases h
        exact .inl ⟨rfl, rfl⟩
      | ok domain =>
        simp only [hu, hd] at h
        split at h
        · cases h
          exact .inl ⟨rfl, rfl⟩
        · next hne =>
          obtain ⟨secret, s₁, h₁, h⟩ := Tx.bind_eq_ok.mp h
          obtain ⟨clock, s₂, h₂, h⟩ := Tx.bind_eq_ok.mp h
          obtain ⟨x, s₃, h₃, h⟩ := Tx.bind_eq_ok.mp h
          cases h
          obtain ⟨change, hg⟩ := importSecret_ok h₁
          have hrows : s₂.db.rows = s₁.db.rows := by rw [(tick_eq_ok h₂).2]; rfl
          obtain ⟨y, s₄, h₄, h₃⟩ := Tx.bind_eq_ok.mp h₃
          obtain ⟨_, s₅, h₅, h₃⟩ := Tx.bind_eq_ok.mp h₃
          cases h₃
          cases h₄
          obtain ⟨hn, -, he⟩ := insertRow_ok h₅
          have hnone : replaced (oldSecret s.db none) secret change = none := by
            cases change <;> rfl
          have hwrote : WritesLogin none (Text.trim input.username) (Text.trim input.domain) secret
              s₁.db s'.db (cx.newId s₂.asked) := by
            refine .new (fun j hj => by cases hj) ((row_congr hrows _ _).symm.trans hn) (?_ : _ =
              (s₁.db.setRow .identity _ (newRow clock (newLogin _ _ secret))).rows)
            rw [he, ← cleanUsername_ok hu, ← cleanDomain_ok hd]
            exact setRow_rows_congr hrows _ _ _
          have hforgot : ForgetsAny (replaced (oldSecret s.db none) secret change) s'.db s'.db := by
            rw [hnone]
            exact rfl
          refine .inr ⟨⟨input.username, input.domain, change⟩, .gives ?_ hg hwrote hforgot⟩
          rw [← cleanUsername_ok hu]
          exact fun hempty => hne (List.isEmpty_iff.mpr hempty)

theorem importLogin_balanced {index : Option ℕ} {o : Option Uuid} (hm : importLogin cx set index s = .ok (o, s'))
    (h : Balanced held [] s.db) : Balanced (o.toList ++ held) [] s'.db ∧ s'.db.rows .group = s.db.rows .group := by
  rcases importLogin_ok hm with ⟨rfl, hrows⟩ | ⟨change, ha⟩
  · exact ⟨h.congr hrows, by rw [hrows]⟩
  · obtain ⟨made, hbooks, hcount⟩ := ha.balanced h fun i hi => by cases hi
    refine ⟨hbooks.perm fun i => ?_, ha.rows_ne (by decide) (by decide)⟩
    have := hcount i
    simp only [Option.toList_none, List.count_nil] at this
    rw [List.count_append, List.count_append]
    omega

theorem importGroupLogin_sums {login : Option ℕ} :
    Tx.Ensures (SumsIn (some g) []) (importGroupLogin cx set g login) fun _ => Sums [] := by
  intro s hs u s' hm
  obtain ⟨has, s₁, h₁, hm⟩ := Tx.bind_eq_ok.mp hm
  cases h₁
  split at hm
  · cases hm
    exact hs.1
  · next hnone =>
    obtain ⟨o, s₂, h₂, hm⟩ := Tx.bind_eq_ok.mp hm
    obtain ⟨hbooks, hgroups⟩ := importLogin_balanced h₂ hs.1
    cases o with
    | none =>
      cases hm
      exact hbooks
    | some identity =>
      obtain ⟨clock, s₃, h₃, hm⟩ := Tx.bind_eq_ok.mp hm
      have hrows : s₃.db.rows = s₂.db.rows := by rw [(tick_eq_ok h₃).2]; rfl
      have hbooks₃ := hbooks.congr hrows
      obtain ⟨r, hr, hd⟩ := hs.2 g rfl
      have hr₃ : s₃.db.row .group g = some r := by
        rw [row_congr hrows]
        unfold Db.row
        rw [hgroups]
        exact hr
      have hfree : r.body.identityId = none := by
        simpa [hr] using hnone
      rcases updateRow_ok hm with ⟨hn, -⟩ | ⟨r', hr', -, he⟩
      · rw [hr₃] at hn
        cases hn
      · rw [hr₃] at hr'
        cases hr'
        have hset : s'.db.rows = (s₃.db.setRow .group g (r.rewrite clock fun b =>
            { b with identityId := some identity })).rows := by rw [he]
        refine hbooks₃.setOwner hset (by decide) (by decide) (by decide) (fun i => ?_)
          (fun _ ref hm => ?_) fun _ _ _ _ _ _ => hd
        · rw [hr₃, Option.elim_some, points_group_count hd, points_group_count (show (r.rewrite clock
            fun b => { b with identityId := some identity }).deleted = false from hd), hfree]
          simp [Row.rewrite]
        · simp only [Body.refs, List.mem_map, Option.mem_toList] at hm
          obtain ⟨x, hx, rfl⟩ := hm
          cases hx
          exact hbooks₃.inHand identity List.mem_cons_self

variable [Platform]

theorem importDrives_sumsIn {drives : Option DriveRedirection} :
    Tx.Ensures (SumsIn (some g) []) (importDrives cx g drives) fun _ => SumsIn (some g) [] := by
  cases drives with
  | none => exact .pure _ fun _ h => h
  | some drives =>
    refine .bind tick_sumsIn fun clock => ?_
    intro s hs u s' hm
    rcases updateRow_ok hm with ⟨-, he⟩ | ⟨r, hr, -, he⟩
    · exact ⟨hs.1.congr (by rw [he]), by rw [he]; exact hs.2⟩
    · have hsame : ∀ r : Row GroupBody, (if r.body.drives.isSome then r else r.rewrite clock fun b =>
          { b with drives := some (normalizeDrives drives) }).deleted = r.deleted ∧
          (if r.body.drives.isSome then r else r.rewrite clock fun b =>
            { b with drives := some (normalizeDrives drives) }).body.identityId =
            r.body.identityId := fun r => by split <;> exact ⟨rfl, rfl⟩
      refine ⟨Balanced.changeGroup hs.1 hr (hsame r).1 (hsame r).2 (by rw [he]), fun g' hg => ?_⟩
      rw [he]
      refine (hs.2 g' hg).setRow fun _ => ?_
      obtain ⟨r', hr', hd⟩ := hs.2 g rfl
      rw [hr] at hr'
      cases hr'
      exact (hsame r).1.trans hd

theorem importGroup_sums {group : GroupInput} : Tx.Ensures (Sums []) (importGroup cx set group) fun _ => Sums [] := by
  unfold importGroup
  split
  · exact .fail _
  · exact .pure _ fun _ h => h
  · next name _ =>
    refine .bind (R := fun g => SumsIn (some g) []) (fun s hs g s' hm => ?_) fun g =>
      .bind importDrives_sumsIn fun _ => importGroupLogin_sums
    have hpath : ensureGroupPath cx group.workspace (some name) s = .ok (some g, s') :=
      Tx.bind_eq_ok.mpr ⟨g, s', hm, rfl⟩
    exact (ensureGroupPath_ok hpath).balanced hs

theorem writeHost_sums {host : HostInput} {login gatewayLogin : Option Uuid} : Tx.Ensures
    (Sums (gatewayLogin.toList ++ (login.toList ++ []))) (writeHost cx host login gatewayLogin) fun _ => Sums [] := by
  unfold writeHost
  split
  · exact .fail _
  · refine .bind ensureGroupPath_sums fun group => ?_
    refine .bind (R := fun _ => SumsIn group (gatewayLogin.toList ++ (login.toList ++ []))) ?_ fun position => ?_
    · cases host.position with
      | some p => exact .pure _ fun _ h => h
      | none => exact nextPosition_ensures host.workspace group
    · refine .bind tick_sumsIn fun clock => ?_
      intro s hs u s' hm
      obtain ⟨id, s₁, h₁, hm⟩ := Tx.bind_eq_ok.mp hm
      cases h₁
      obtain ⟨hn, -, he⟩ := insertRow_ok hm
      refine Balanced.setOwner hs.1 (by rw [he]) (by decide) (by decide) (by decide) (fun i => ?_)
        (fun _ => live_refs_host hs.2 (fun i hi => ?_) fun i hi => ?_)
        fun _ _ _ _ _ hm => absurd hm (not_mem_refs_host _)
      · have hn : s.db.row .host (cx.newId s.asked) = none := hn
        rw [hn, Option.elim_none, points_host_count rfl, List.append_nil, List.count_append]
        show login.toList.count i + gatewayLogin.toList.count i + 0 =
          0 + (gatewayLogin.toList.count i + login.toList.count i)
        omega
      · refine hs.1.inHand i (List.mem_append_right _ (List.mem_append_left _ ?_))
        exact Option.mem_toList.mpr hi
      · exact hs.1.inHand i (List.mem_append_left _ (Option.mem_toList.mpr hi))

theorem importHosts_sums (hosts : List HostInput) (added : List (Text × UInt16)) :
    Tx.Ensures (Sums []) (importHosts cx set hosts added) fun _ => Sums [] := by
  induction hosts generalizing added with
  | nil => exact .pure _ fun _ h => h
  | cons host rest ih =>
    refine .bind (query_sums _) fun there => ?_
    refine .ite (fun _ => ih added) fun _ => ?_
    refine .bind (fun s hs o s' hm => (importLogin_balanced hm hs).1) fun login => ?_
    refine .bind (fun s hs o s' hm => (importLogin_balanced hm hs).1) fun gateway => ?_
    exact .bind writeHost_sums fun _ => ih _

theorem importSet_sums : Tx.Ensures (Sums []) (importSet cx set) fun _ => Sums [] := by
  refine .bind (R := fun _ => Sums []) (.require fun _ h _ => h) fun _ => ?_
  refine .bind (.forM fun group _ => importGroup_sums) fun _ => ?_
  refine .bind (importHosts_sums set.hosts []) fun added => ?_
  refine .forM fun known _ => ?_
  refine .bind (query_sums _) fun slot => ?_
  cases slot with
  | some _ => exact .pure _ fun _ h => h
  | none =>
    refine .bind tick_sums fun clock => ?_
    refine .bind (R := fun _ => Sums []) (fun s hs _ s' hm => ?_) fun id => ?_
    · cases hm
      exact hs
    · refine .bind (R := fun _ => Sums []) (fun s hs _ s' hm => ?_) fun _ =>
        insertKnownHost_sums
      cases hm
      exact hs

/-! ## Every run of edits -/

theorem LocalOp.call_sums {op : LocalOp} : Tx.Ensures (Sums []) (op.call cx) fun _ => Sums [] := by
  cases op with
  | saveHost draft =>
    refine ignore_ensures fun s hs record s' hm => ?_
    obtain ⟨d, id, -, hsaves, -⟩ := saveHost_ok hm
    exact hsaves.balanced hs
  | deleteHost id => exact fun s hs _ s' hm => (deleteHost_ok hm).balanced hs
  | setHostLogin id username domain password =>
    exact ignore_ensures fun s hs _ s' hm => (setHostLogin_ok hm).balanced hs
  | forgetHostPassword id =>
    refine ignore_ensures fun s hs record s' hm => ?_
    obtain ⟨host, -, hm⟩ := forgetHostPassword_ok hm
    obtain ⟨d, id, -, hsaves, -⟩ := saveHost_ok hm
    exact hsaves.balanced hs
  | moveHost id workspace group before => exact ignore_ensures moveHost_sums
  | createGroup workspace name =>
    refine ignore_ensures ?_
    unfold UwuRdp.createGroup
    split
    · exact .fail _
    · next name _ =>
      refine .bind (query_sums _) fun found => ?_
      refine .bind (R := fun _ => Sums []) (.require fun _ h _ => h) fun _ => ?_
      intro s hs g s' hm
      have hpath : ensureGroupPath cx workspace (some name) s = .ok (some g, s') := Tx.bind_eq_ok.mpr ⟨g, s', hm, rfl⟩
      exact ((ensureGroupPath_ok hpath).balanced hs).1
  | setGroupDrives workspace name drives =>
    refine .bind (knownGroup_ensures workspace name) fun g => ?_
    refine .bind (.conseq tick_sums (fun _ h => h.1) fun _ _ h => h) fun clock => ?_
    exact updateGroup_sums fun r => ⟨rfl, rfl⟩
  | setGroupLogin workspace name change =>
    intro s hs _ s' hm
    obtain ⟨g, -, hsets⟩ := setGroupLogin_ok hm
    exact hsets.balanced hs
  | renameGroup workspace src dst => exact renameGroup_sums
  | moveGroup workspace name dst before => exact moveGroup_sums
  | deleteGroup workspace name => exact deleteGroup_sums
  | trustHostKey address port algorithm fingerprint publicKey =>
    refine .bind tick_sums fun clock => ?_
    refine .bind (R := fun _ => Sums []) (fun s hs _ s' hm => by cases hm; exact hs) fun id => ?_
    refine .bind (R := fun _ => Sums []) (fun s hs _ s' hm => by cases hm; exact hs) fun first => ?_
    refine .bind (query_sums _) fun slot => ?_
    cases slot with
    | none => exact insertKnownHost_sums
    | some e => exact updateKnownHost_sums
  | forgetHostKey address port =>
    refine ignore_ensures (.bind tick_sums fun clock => ?_)
    refine .bind (query_sums _) fun slot => ?_
    cases slot with
    | none => exact .pure _ fun _ h => h
    | some e =>
      refine .ite (fun _ => .pure _ fun _ h => h) fun _ => ?_
      exact .bind updateKnownHost_sums fun _ => .pure _ fun _ h => h
  | importSet set => exact importSet_sums

theorem LocalOp.run_balanced (op : LocalOp) (h : Balanced [] [] db) : Balanced [] [] (op.run cx db) := by
  unfold LocalOp.run Session.run
  cases hm : op.call cx ⟨db, 0⟩ with
  | ok r =>
    obtain ⟨u, s⟩ := r
    exact LocalOp.call_sums ⟨db, 0⟩ h u s hm
  | error e => exact h

/-- The database after some edits, one after the other, each in a session of its own. -/
def runEdits (db : Db) (edits : List (Session × LocalOp)) : Db :=
  edits.foldl (fun db edit => edit.2.run edit.1 db) db

theorem runEdits_balanced (edits : List (Session × LocalOp)) (h : Balanced [] [] db) :
    Balanced [] [] (runEdits db edits) := by
  induction edits generalizing db with
  | nil => exact h
  | cons edit rest ih => exact ih (edit.2.run_balanced h)

omit [Platform] in
theorem host_login_ne_gateway (h : references db i = 1)
    (ho : (Owner.host id).login db = some i) : (Owner.gateway id).login db ≠ some i := by
  intro hg
  obtain ⟨r, hr, ho⟩ := Option.bind_eq_some_iff.mp ho
  obtain ⟨r', hr', hg⟩ := Option.bind_eq_some_iff.mp hg
  rw [hr] at hr'
  cases hr'
  obtain ⟨hrow, hd⟩ := liveHost_some hr
  have hle := points_le_references hrow i
  rw [points_host hd, if_pos ho, if_pos hg] at hle
  omega

omit [Platform] in
theorem owner_unique {o o' : Owner} (h : references db i = 1) (ho : o.login db = some i)
    (ho' : o'.login db = some i) : o' = o := by
  obtain ⟨r, hr, hp⟩ := o.points_pos ho
  obtain ⟨r', hr', hp'⟩ := o'.points_pos ho'
  have hrow : o'.row = o.row := by
    by_contra hne
    have hle := points_add_le_references hr hr' (fun he => hne (Prod.ext he.1 he.2)) i
    omega
  cases o with
  | host a =>
    cases o' with
    | host b => exact congrArg Owner.host (Prod.mk.inj hrow).2
    | gateway b =>
      obtain rfl : b = a := (Prod.mk.inj hrow).2
      exact absurd ho' (host_login_ne_gateway h ho)
    | group b => cases (Prod.mk.inj hrow).1
  | gateway a =>
    cases o' with
    | host b =>
      obtain rfl : b = a := (Prod.mk.inj hrow).2
      exact absurd ho (host_login_ne_gateway h ho')
    | gateway b => exact congrArg Owner.gateway (Prod.mk.inj hrow).2
    | group b => cases (Prod.mk.inj hrow).1
  | group a =>
    cases o' with
    | host b | gateway b => cases (Prod.mk.inj hrow).1
    | group b => exact congrArg Owner.group (Prod.mk.inj hrow).2

omit [Platform] in
theorem exists_owner (h : 0 < references db i) : ∃ o : Owner, o.login db = some i := by
  obtain ⟨k, id, r, hr, hp⟩ := exists_points h
  obtain ⟨hd, hm⟩ := points_pos_iff.mp hp
  cases k with
  | portForward | terminalProfile => exact r.body.elim
  | host =>
    have hlive : liveHost db id = some r := by
      unfold liveHost
      rw [hr, Option.filter_some, hd]
      rfl
    have hm : r.body.identityId = some i ∨ r.body.gatewayIdentityId = some i := by
      simpa [Body.refs] using hm
    rcases hm with hm | hm
    · exact ⟨.host id, by rw [Owner.login, hlive, Option.bind_some, hm]⟩
    · exact ⟨.gateway id, by rw [Owner.login, hlive, Option.bind_some, hm]⟩
  | group =>
    have hm : r.body.identityId = some i := by simpa [Body.refs] using hm
    refine ⟨.group id, ?_⟩
    rw [Owner.login, hr, Option.filter_some, hd, Bool.not_false, if_pos rfl, Option.bind_some, hm]
  | _ => simp [Body.refs] at hm

/-- Every live login has one owner and every live password one login, nothing live points at what is
deleted, and of a deleted password nothing is left. -/
structure Ownership (db : Db) : Prop where
  login : ∀ i, db.Live .identity i → ∃! o : Owner, o.login db = some i
  secret : ∀ t, db.Live .secret t → ∃! i, ∃ r, db.row .identity i = some r ∧ r.deleted = false ∧
    r.body.passwordSecretId = some t
  refs : ∀ k id r, db.row k id = some r → r.deleted = false → ∀ ref ∈ Body.refs k r.body,
    db.Live ref.1 ref.2
  wiped : ∀ t p, db.row .secret t = some p → p.deleted = true → p.body = Sealed.empty

/-- **Every login has one owner and every password one login**, after any edits on a device that
syncs with nobody, the ones that failed included. -/
theorem ownership_runEdits (vaultId : Uuid) (edits : List (Session × LocalOp)) :
    Ownership (runEdits (Db.fresh vaultId) edits) := by
  have h := runEdits_balanced edits (balanced_fresh vaultId)
  refine ⟨fun i hi => ?_, fun t ht => ?_, h.refs, h.wiped⟩
  · have hone : references (runEdits (Db.fresh vaultId) edits) i = 1 := h.login i hi
    have hpos : 0 < references (runEdits (Db.fresh vaultId) edits) i := by omega
    obtain ⟨o, ho⟩ := exists_owner hpos
    exact ⟨o, ho, fun o' ho' => owner_unique hone ho ho'⟩
  · have hused := (h.used t ht).resolve_right List.not_mem_nil
    obtain ⟨j, r, hr, hd, hp⟩ := secretUsed_iff.mp hused
    refine ⟨j, ⟨r, hr, hd, hp⟩, ?_⟩
    rintro j' ⟨r', hr', hd', hp'⟩
    exact h.user j' j r' r t hr' hd' hr hd hp' hp

end UwuRdp
