import UwuRdp.Lib.Ghost
import UwuRdp.Store.Ownership

/-!
# Where an imported login comes from

An import gives every host, gateway and group a login of its own, and nothing in the store says which
entry of the set a login was made from. Here the import keeps that down as it goes, and what it leaves
in an empty store is told in terms of the set alone: a host has the login of its entry when that is one
the store takes, and a group the one of the first entry under its name that has one.
-/

namespace UwuRdp

open Lib

/-! ## What the set says -/

/-- Whether the store makes a login of an entry: it has a username, and the form would take it. -/
def LoginInput.taken (input : LoginInput) : Bool :=
  match cleanUsername "username" input.username, cleanDomain "domain" input.domain with
  | .ok username, .ok _ => !username.isEmpty
  | _, _ => false

def LoginInput.hasPassword (input : LoginInput) : Bool := input.password.any fun p => !p.isEmpty

def takenFrom (set : ImportSet) (index : Option ℕ) : Option ℕ :=
  index.filter fun i => (set.logins[i]?).any LoginInput.taken

def GroupInput.called (g : GroupInput) (workspace : Workspace) (name : Text) : Bool :=
  g.workspace = workspace && groupName (some g.name) = .ok (some name)

/-- The entry the login of a group comes from: that of the first group of the name that has one. -/
def groupFrom (set : ImportSet) (groups : List GroupInput) (workspace : Workspace) (name : Text) :
    Option ℕ :=
  ((groups.filter fun g => g.called workspace name).filterMap fun g => takenFrom set g.login).head?

def sameAddress (h h' : HostInput) : Bool :=
  h'.port = h.port && normalise h'.address = normalise h.address

/-- The hosts an import adds: those the form would take, the first of each address. -/
def addedHosts (hosts : List HostInput) : List HostInput :=
  hosts.foldl (fun added h =>
    if !isPlausible h || added.any (sameAddress h) then added else added ++ [h]) []

/-! ## An import that writes down its sources -/

/-- The logins that were made, each with the entry it was made from. -/
abbrev Sources := List (Uuid × ℕ)

/-- A transaction on the store that writes down where logins come from. -/
abbrev SourceTx := Tx (TxState × Sources) StoreError

def sourceOf : Option Uuid → Option ℕ → Sources
  | some id, some i => [(id, i)]
  | _, _ => []

def tracedLogin (cx : Session) (set : ImportSet) (index : Option ℕ) : SourceTx (Option Uuid) := do
  let login ← Tx.lift (importLogin cx set index)
  Tx.note (sourceOf login index ++ ·)
  pure login

def giveGroupLogin (cx : Session) (id : Uuid) : Option Uuid → StoreTx Unit
  | none => pure ()
  | some identity => do
    let clock ← StoreTx.tick cx
    StoreTx.updateRow .group id fun r => r.rewrite clock fun b =>
      { b with identityId := some identity }

def tracedGroupLogin (cx : Session) (set : ImportSet) (id : Uuid) (login : Option ℕ) :
    SourceTx Unit := do
  let hasLogin ← Tx.lift (StoreTx.query fun db =>
    (db.row .group id).any fun r => r.body.identityId.isSome)
  if hasLogin then pure ()
  else do
    let login ← tracedLogin cx set login
    Tx.lift (giveGroupLogin cx id login)

section Traced

variable [Platform]

def tracedGroup (cx : Session) (set : ImportSet) (group : GroupInput) : SourceTx Unit :=
  match groupName (some group.name) with
  | .error e => Tx.fail e
  | .ok none => pure ()
  | .ok (some name) => do
    let id ← Tx.lift (ensureGroup cx group.workspace name)
    Tx.lift (importDrives cx id group.drives)
    tracedGroupLogin cx set id group.login

def tracedHosts (cx : Session) (set : ImportSet) :
    List HostInput → List (Text × UInt16) → SourceTx (List (Text × UInt16))
  | [], added => pure added
  | host :: rest, added => do
    let there ← Tx.lift (StoreTx.query fun db => hostExists db host.address host.port)
    if !isPlausible host || there then tracedHosts cx set rest added
    else do
      let login ← tracedLogin cx set host.login
      let gatewayLogin ← tracedLogin cx set host.gatewayLogin
      Tx.lift (writeHost cx host login gatewayLogin)
      tracedHosts cx set rest ((normalise host.address, host.port) :: added)

/-- `importSet`, writing down where every login comes from. -/
def tracedImport (cx : Session) (set : ImportSet) : SourceTx Unit := do
  Tx.lift (Tx.require (set.hosts.length ≤ maxItems ∧ set.logins.length ≤ maxItems ∧
    set.knownHosts.length ≤ maxItems ∧ set.groups.length ≤ maxItems)
    (.invalid "import" "too-many"))
  set.groups.forM (tracedGroup cx set)
  let added ← tracedHosts cx set set.hosts []
  Tx.lift ((set.knownHosts.filter fun k => added.contains (normalise k.address, k.port)).forM
    (writeKnownHost cx))

def importSources (cx : Session) (set : ImportSet) (db : Db) : Sources :=
  match tracedImport cx set (⟨db, 0⟩, []) with
  | .ok (_, (_, sources)) => sources
  | .error _ => []

end Traced

/-! ## Without the sources it is the import -/

section Erasing

variable {cx : Session} {set : ImportSet}

theorem tracedLogin_erases (index : Option ℕ) : Tx.Erases (tracedLogin cx set index) (importLogin cx set index) :=
  Tx.Erases.noted _ _

theorem tracedGroupLogin_erases (id : Uuid) (login : Option ℕ) :
    Tx.Erases (tracedGroupLogin cx set id login) (importGroupLogin cx set id login) := by
  refine (Tx.Erases.lift _).bind fun hasLogin => ?_
  cases hasLogin with
  | true => exact Tx.Erases.pure _
  | false =>
    refine (tracedLogin_erases login).bind fun o => ?_
    cases o with
    | none | some identity => exact Tx.Erases.lift _

variable [Platform]

theorem tracedGroup_erases (group : GroupInput) :
    Tx.Erases (tracedGroup cx set group) (importGroup cx set group) := by
  unfold tracedGroup importGroup
  rcases groupName (some group.name) with e | (_ | name)
  · exact Tx.Erases.fail _
  · exact Tx.Erases.pure _
  · exact (Tx.Erases.lift _).bind fun id => (Tx.Erases.lift _).bind fun _ =>
      tracedGroupLogin_erases id group.login

theorem tracedHosts_erases (hosts : List HostInput) (added : List (Text × UInt16)) :
    Tx.Erases (tracedHosts cx set hosts added) (importHosts cx set hosts added) := by
  induction hosts generalizing added with
  | nil => exact Tx.Erases.pure _
  | cons host rest ih =>
    refine (Tx.Erases.lift _).bind fun there => ?_
    cases hskip : !isPlausible host || there with
    | true => exact ih added
    | false =>
      exact (tracedLogin_erases host.login).bind fun login =>
        (tracedLogin_erases host.gatewayLogin).bind fun gatewayLogin =>
          (Tx.Erases.lift _).bind fun _ => ih _

theorem tracedImport_erases : Tx.Erases (tracedImport cx set) (importSet cx set) := by
  refine (Tx.Erases.lift _).bind fun _ => ?_
  refine (Tx.Erases.forM tracedGroup_erases).bind fun _ => ?_
  exact (tracedHosts_erases set.hosts []).bind fun added => Tx.Erases.lift _

theorem tracedImport_of_ok {db : Db} {s : TxState} {u : Unit} (h : importSet cx set ⟨db, 0⟩ = .ok (u, s)) :
    tracedImport cx set (⟨db, 0⟩, []) = .ok (u, (s, importSources cx set db)) := by
  obtain ⟨sources, hm⟩ := tracedImport_erases.of_ok h []
  unfold importSources
  rw [hm]

end Erasing

/-! ## What a login is made of -/

/-- A login as an entry has it. -/
structure MadeOf (input : LoginInput) (r : Row IdentityBody) : Prop where
  live : r.deleted = false
  username : r.body.username = Text.trim input.username
  named : r.body.username ≠ []
  password : r.body.passwordSecretId.isSome = input.hasPassword

/-- A login, or none, that was made from an entry, or from none. -/
inductive MadeFrom (sources : Sources) : Option Uuid → Option ℕ → Prop
  | none : MadeFrom sources none none
  | made {id : Uuid} {i : ℕ} (h : (id, i) ∈ sources) : MadeFrom sources (some id) (some i)

theorem MadeFrom.mono {sources sources' : Sources} {o : Option Uuid} {i : Option ℕ}
    (h : MadeFrom sources o i) (hsub : sources ⊆ sources') : MadeFrom sources' o i := by
  cases h with
  | none => exact .none
  | made h => exact .made (hsub h)

section Logins

variable {cx : Session} {set : ImportSet} {s s' : TxState}

theorem importSecret_isSome {password : Option (List UInt8)} {secret : Option Uuid}
    (h : importSecret cx password s = .ok (secret, s')) : secret.isSome = password.any fun p => !p.isEmpty := by
  cases password with
  | none =>
    cases h
    rfl
  | some value =>
    simp only [importSecret] at h
    split at h
    · next hempty =>
      cases h
      simp [hempty]
    · next hne =>
      obtain ⟨vault, s₁, -, h⟩ := Tx.bind_eq_ok.mp h
      obtain ⟨id, s₂, -, h⟩ := Tx.bind_eq_ok.mp h
      cases h
      simpa using hne

/-- What `importLogin` leaves: nothing new, where the entry is none the store takes, or a new login
made from it. -/
inductive ImportsLogin (set : ImportSet) (index : Option ℕ) (db db' : Db) : Option Uuid → Prop
  | none (untaken : takenFrom set index = none) (rows : db'.rows = db.rows) :
      ImportsLogin set index db db' none
  | made {id : Uuid} {i : ℕ} {input : LoginInput} {r : Row IdentityBody}
      (index_eq : index = some i) (taken : takenFrom set index = some i)
      (entry : set.logins[i]? = some input) (new : db.row .identity id = none)
      (of : MadeOf input r) (rows : ∀ k, k ≠ .identity → k ≠ .secret → db'.rows k = db.rows k)
      (row : db'.rows .identity = (db.setRow .identity id r).rows .identity) :
      ImportsLogin set index db db' (some id)

theorem importLogin_imports {index : Option ℕ} {o : Option Uuid}
    (h : importLogin cx set index s = .ok (o, s')) : ImportsLogin set index s.db s'.db o := by
  unfold importLogin at h
  cases index with
  | none =>
    cases h
    exact .none rfl rfl
  | some i =>
    rw [Option.bind_some] at h
    cases hi : set.logins[i]? with
    | none =>
      rw [hi] at h
      cases h
      exact .none (by simp [takenFrom, hi]) rfl
    | some input =>
      rw [hi] at h
      simp only at h
      have huntaken : input.taken = false → takenFrom set (some i) = none := by
        intro hno
        simp [takenFrom, hi, hno]
      cases hu : cleanUsername "username" input.username with
      | error e =>
        rw [hu] at h
        cases h
        exact .none (huntaken (by simp [LoginInput.taken, hu])) rfl
      | ok username =>
        cases hd : cleanDomain "domain" input.domain with
        | error e =>
          rw [hu, hd] at h
          cases h
          exact .none (huntaken (by simp [LoginInput.taken, hu, hd])) rfl
        | ok domain =>
          simp only [hu, hd] at h
          split at h
          · next hempty =>
            cases h
            exact .none (huntaken (by simp [LoginInput.taken, hu, hd, hempty])) rfl
          · next hne =>
            obtain ⟨secret, s₁, h₁, h⟩ := Tx.bind_eq_ok.mp h
            obtain ⟨clock, s₂, h₂, h⟩ := Tx.bind_eq_ok.mp h
            obtain ⟨x, s₃, h₃, h⟩ := Tx.bind_eq_ok.mp h
            cases h
            obtain ⟨change, hg⟩ := importSecret_ok h₁
            have hrows : s₂.db.rows = s₁.db.rows := by rw [(tick_eq_ok h₂).2]; rfl
            obtain ⟨y, s₄, h₄, h₃⟩ := Tx.bind_eq_ok.mp h₃
            obtain ⟨_, s₅, h₅, h₃⟩ := Tx.bind_eq_ok.mp h₃
            cases h₃
            cases h₄
            obtain ⟨hn, -, he⟩ := insertRow_ok h₅
            have hkept : ∀ k, k ≠ .secret → s₂.db.rows k = s.db.rows k := fun k hk => by
              rw [hrows, hg.rows_ne hk]
            let r : Row IdentityBody := newRow clock
              ⟨labelOf username domain, username, domain, .password, none, secret, []⟩
            have hof : MadeOf input r := ⟨rfl, cleanUsername_ok hu, fun hempty => hne (List.isEmpty_iff.mpr hempty),
                importSecret_isSome h₁⟩
            refine .made (r := r) rfl ?_ hi ?_ hof ?_ ?_
            · simp [takenFrom, hi, LoginInput.taken, hu, hd, hne]
            · have hn : s₂.db.row .identity (cx.newId s₂.asked) = none := hn
              unfold Db.row at hn ⊢
              rwa [← hkept .identity (by decide)]
            · intro k hki hks
              rw [he, rows_setRow_ne hki]
              exact hkept k hks
            · rw [he]
              show ((s₂.db.rows .identity).set _ _) = (s.db.rows .identity).set _ _
              rw [hkept .identity (by decide)]

end Logins

/-! ## What an import is through with -/

/-- A group that stands for a path, or none for none. -/
inductive InGroup (db : Db) (workspace : Workspace) : Option Text → Option Uuid → Prop
  | ungrouped : InGroup db workspace none none
  | grouped {name : Text} {g : Uuid} {r : Row GroupBody} (row : db.row .group g = some r)
      (workspace_eq : r.body.workspace = workspace) (name_eq : r.body.name = name) :
      InGroup db workspace (some name) (some g)

def NamesKept (db db' : Db) : Prop :=
  ∀ g r, db.row .group g = some r →
    ∃ r', db'.row .group g = some r' ∧ r'.body.workspace = r.body.workspace ∧
      r'.body.name = r.body.name

theorem NamesKept.of_rows {db db' : Db} (h : db'.rows .group = db.rows .group) : NamesKept db db' :=
  fun g r hr => ⟨r, by unfold Db.row; rw [h]; exact hr, rfl, rfl⟩

theorem InGroup.mono {db db' : Db} {workspace : Workspace} {path : Option Text} {g : Option Uuid}
    (h : InGroup db workspace path g) (hk : NamesKept db db') : InGroup db' workspace path g := by
  cases h with
  | ungrouped => exact .ungrouped
  | grouped hr hw hn =>
    obtain ⟨r', hr', hw', hn'⟩ := hk _ _ hr
    exact .grouped hr' (hw'.trans hw) (hn'.trans hn)

section Runs

variable [Platform] {cx : Session} {set : ImportSet} {groups : List GroupInput}
  {hosts : List HostInput} {s s' : TxState × Sources}

/-- A host as its entry has it. -/
structure HostWritten (set : ImportSet) (s : TxState × Sources) (h : HostInput) (r : Row HostBody) :
    Prop where
  live : r.deleted = false
  address : r.body.address = Text.trim h.address
  port : r.body.port = h.port
  rdp : r.body.rdp = normalizeRdp h.rdp
  login : MadeFrom s.2 r.body.identityId (takenFrom set h.login)
  gateway : MadeFrom s.2 r.body.gatewayIdentityId (takenFrom set h.gatewayLogin)
  group : ∃ path, groupName h.groupPath = .ok path ∧
    InGroup s.1.db h.workspace path r.body.groupId

variable {r : Row HostBody}

theorem HostWritten.mono {h : HostInput} (hw : HostWritten set s h r)
    (hsub : s.2 ⊆ s'.2) (hk : NamesKept s.1.db s'.1.db) : HostWritten set s' h r := by
  obtain ⟨path, hpath, hg⟩ := hw.group
  exact { hw with
    login := hw.login.mono hsub
    gateway := hw.gateway.mono hsub
    group := ⟨path, hpath, hg.mono hk⟩ }

/-- What an import leaves, once it is through with some of the groups and hosts of a set. -/
structure Imports (set : ImportSet) (groups : List GroupInput) (hosts : List HostInput)
    (s : TxState × Sources) : Prop where
  source : ∀ id i, (id, i) ∈ s.2 → ∃ r input, s.1.db.row .identity id = some r ∧
    set.logins[i]? = some input ∧ MadeOf input r
  only : ∀ id i j, (id, i) ∈ s.2 → (id, j) ∈ s.2 → i = j
  identity : ∀ id r, s.1.db.row .identity id = some r → ∃ i, (id, i) ∈ s.2
  group : ∀ g r, s.1.db.row .group g = some r → r.deleted = false ∧
    MadeFrom s.2 r.body.identityId (groupFrom set groups r.body.workspace r.body.name)
  unique : ∀ g g' r r', s.1.db.row .group g = some r → s.1.db.row .group g' = some r' →
    r.body.workspace = r'.body.workspace → r.body.name = r'.body.name → g = g'
  named : ∀ g ∈ groups, ∀ name, groupName (some g.name) = .ok (some name) →
    ∃ id r, s.1.db.row .group id = some r ∧ r.body.workspace = g.workspace ∧ r.body.name = name
  host : ∀ x r, s.1.db.row .host x = some r → ∃ h ∈ addedHosts hosts, HostWritten set s h r
  added : ∀ h ∈ addedHosts hosts, ∃ x r, s.1.db.row .host x = some r ∧ HostWritten set s h r

theorem imports_nil {db : Db} (hempty : ∀ k id, db.row k id = none) :
    Imports set [] [] (⟨db, 0⟩, []) where
  source _ _ h := absurd h List.not_mem_nil
  only _ _ _ h := absurd h List.not_mem_nil
  identity id r h := absurd ((hempty .identity id).symm.trans h) (by simp)
  group g r h := absurd ((hempty .group g).symm.trans h) (by simp)
  unique g _ r _ h := absurd ((hempty .group g).symm.trans h) (by simp)
  named _ h := absurd h List.not_mem_nil
  host x r h := absurd ((hempty .host x).symm.trans h) (by simp)
  added _ h := absurd h List.not_mem_nil

theorem Imports.congr (h : Imports set groups hosts s) (hi : s'.1.db.rows .identity = s.1.db.rows .identity)
    (hg : s'.1.db.rows .group = s.1.db.rows .group) (hh : s'.1.db.rows .host = s.1.db.rows .host) (hs : s'.2 = s.2) :
    Imports set groups hosts s' := by
  have hrow : ∀ id, s'.1.db.row .identity id = s.1.db.row .identity id := fun id => by
    unfold Db.row
    rw [hi]
  have hgrow : ∀ id, s'.1.db.row .group id = s.1.db.row .group id := fun id => by
    unfold Db.row
    rw [hg]
  have hhrow : ∀ id, s'.1.db.row .host id = s.1.db.row .host id := fun id => by
    unfold Db.row
    rw [hh]
  have hwritten : ∀ {h r}, HostWritten set s h r → HostWritten set s' h r := fun hw =>
    hw.mono (by rw [hs]; exact List.Subset.refl _) (NamesKept.of_rows hg)
  constructor
  · simpa only [hrow, hs] using h.source
  · simpa only [hs] using h.only
  · simpa only [hrow, hs] using h.identity
  · simpa only [hgrow, hs] using h.group
  · simpa only [hgrow] using h.unique
  · simpa only [hgrow] using h.named
  · intro x r hr
    rw [hhrow] at hr
    obtain ⟨e, he, hw⟩ := h.host x r hr
    exact ⟨e, he, hwritten hw⟩
  · intro e he
    obtain ⟨x, r, hr, hw⟩ := h.added e he
    exact ⟨x, r, (hhrow x).trans hr, hwritten hw⟩

theorem Imports.login {index : Option ℕ} {o : Option Uuid} (h : Imports set groups hosts s)
    (hl : ImportsLogin set index s.1.db s'.1.db o) (hs : s'.2 = sourceOf o index ++ s.2) :
    Imports set groups hosts s' ∧ MadeFrom s'.2 o (takenFrom set index) := by
  cases hl with
  | none huntaken hrows =>
    have hs' : s'.2 = s.2 := by rw [hs]; cases index <;> rfl
    exact ⟨h.congr (by rw [hrows]) (by rw [hrows]) (by rw [hrows]) hs', by rw [huntaken]; exact .none⟩
  | @made id i input r hindex htaken hentry hnew hof hrows hrow =>
    cases hindex
    have hs' : s'.2 = (id, i) :: s.2 := hs
    have hsub : s.2 ⊆ s'.2 := by rw [hs']; exact List.subset_cons_self _ _
    have hgroup : s'.1.db.rows .group = s.1.db.rows .group := hrows _ (by decide) (by decide)
    have hhost : s'.1.db.rows .host = s.1.db.rows .host := hrows _ (by decide) (by decide)
    have hgrow : ∀ g, s'.1.db.row .group g = s.1.db.row .group g := fun g => by
      unfold Db.row
      rw [hgroup]
    have hhrow : ∀ x, s'.1.db.row .host x = s.1.db.row .host x := fun x => by
      unfold Db.row
      rw [hhost]
    have hself : s'.1.db.row .identity id = some r := by
      unfold Db.row
      rw [hrow]
      exact Db.row_setRow_self s.1.db .identity id r
    have hother : ∀ j, j ≠ id → s'.1.db.row .identity j = s.1.db.row .identity j := fun j hj => by
      unfold Db.row
      rw [hrow]
      exact Db.row_setRow_ne_id hj
    -- What was noted before is about other logins: this one was not there.
    have hold : ∀ j n, (j, n) ∈ s.2 → j ≠ id := by
      rintro j n hm rfl
      obtain ⟨r', -, hr', -⟩ := h.source j n hm
      rw [hnew] at hr'
      cases hr'
    have hwritten : ∀ {e r}, HostWritten set s e r → HostWritten set s' e r := fun hw =>
      hw.mono hsub (NamesKept.of_rows hgroup)
    refine ⟨?_, by rw [htaken, hs']; exact .made List.mem_cons_self⟩
    constructor
    · intro j n hm
      rw [hs'] at hm
      rcases List.mem_cons.mp hm with heq | hm
      · cases heq
        exact ⟨r, input, hself, hentry, hof⟩
      · obtain ⟨r', input', hr', hrest⟩ := h.source j n hm
        exact ⟨r', input', (hother j (hold j n hm)).trans hr', hrest⟩
    · intro j n m hn hm
      rw [hs'] at hn hm
      rcases List.mem_cons.mp hn with heq | hn <;> rcases List.mem_cons.mp hm with heq' | hm
      · cases heq
        cases heq'
        rfl
      · cases heq
        exact absurd rfl (hold _ _ hm)
      · cases heq'
        exact absurd rfl (hold _ _ hn)
      · exact h.only j n m hn hm
    · intro j r' hr'
      by_cases hj : j = id
      · subst hj
        exact ⟨i, by rw [hs']; exact List.mem_cons_self⟩
      · rw [hother j hj] at hr'
        obtain ⟨n, hn⟩ := h.identity j r' hr'
        exact ⟨n, hsub hn⟩
    · intro g r' hr'
      rw [hgrow] at hr'
      exact ⟨(h.group g r' hr').1, (h.group g r' hr').2.mono hsub⟩
    · simpa only [hgrow] using h.unique
    · simpa only [hgrow] using h.named
    · intro x r' hr'
      rw [hhrow] at hr'
      obtain ⟨e, he, hw⟩ := h.host x r' hr'
      exact ⟨e, he, hwritten hw⟩
    · intro e he
      obtain ⟨x, r', hr', hw⟩ := h.added e he
      exact ⟨x, r', (hhrow x).trans hr', hwritten hw⟩

/-! ## Groups -/

omit [Platform] in
theorem called_of_groupName {g : GroupInput} {name : Text} (h : groupName (some g.name) = .ok (some name))
    (w : Workspace) (n : Text) : g.called w n = true ↔ w = g.workspace ∧ n = name := by
  unfold GroupInput.called
  rw [h, Bool.and_eq_true, decide_eq_true_eq, decide_eq_true_eq, Except.ok.injEq, Option.some.injEq]
  exact and_congr eq_comm eq_comm

omit [Platform] in
theorem groupFrom_snoc (g : GroupInput) (w : Workspace) (n : Text) :
    groupFrom set (groups ++ [g]) w n =
      (groupFrom set groups w n).or (if g.called w n then takenFrom set g.login else none) := by
  unfold groupFrom
  rw [List.filter_append, List.filterMap_append, List.head?_append]
  congr 1
  cases hcalled : g.called w n with
  | false => simp [hcalled]
  | true => cases htaken : takenFrom set g.login <;> simp [hcalled, htaken]

theorem Imports.changeGroup {groups' : List GroupInput} {g : Uuid} {r r' : Row GroupBody}
    (h : Imports set groups hosts s) (hr : s.1.db.row .group g = some r)
    (hrows : s'.1.db.rows = (s.1.db.setRow .group g r').rows) (hs : s'.2 = s.2)
    (hd : r'.deleted = r.deleted) (hw : r'.body.workspace = r.body.workspace)
    (hn : r'.body.name = r.body.name)
    (hid : MadeFrom s.2 r'.body.identityId (groupFrom set groups' r.body.workspace r.body.name))
    (hfrom : ∀ w n, ¬(w = r.body.workspace ∧ n = r.body.name) →
      groupFrom set groups' w n = groupFrom set groups w n)
    (hnamed : ∀ e ∈ groups', ∀ name, groupName (some e.name) = .ok (some name) →
      e ∈ groups ∨ (e.workspace = r.body.workspace ∧ name = r.body.name)) :
    Imports set groups' hosts s' := by
  have hrow : ∀ id, s'.1.db.row .identity id = s.1.db.row .identity id := fun id => by
    rw [row_congr hrows, Db.row_setRow_ne_kind (by decide)]
  have hhrow : ∀ x, s'.1.db.row .host x = s.1.db.row .host x := fun x => by
    rw [row_congr hrows, Db.row_setRow_ne_kind (by decide)]
  have hself : s'.1.db.row .group g = some r' := by
    rw [row_congr hrows, Db.row_setRow_self]
  have hother : ∀ j, j ≠ g → s'.1.db.row .group j = s.1.db.row .group j := fun j hj => by
    rw [row_congr hrows, Db.row_setRow_ne_id hj]
  -- Every group is the one it was, by its workspace and its name.
  have hwas : ∀ j q, s'.1.db.row .group j = some q → ∃ q', s.1.db.row .group j = some q' ∧
      q.body.workspace = q'.body.workspace ∧ q.body.name = q'.body.name := by
    intro j q hq
    by_cases hj : j = g
    · subst hj
      rw [hself] at hq
      cases hq
      exact ⟨r, hr, hw, hn⟩
    · rw [hother j hj] at hq
      exact ⟨q, hq, rfl, rfl⟩
  have hkept : NamesKept s.1.db s'.1.db := by
    intro j q hq
    by_cases hj : j = g
    · subst hj
      rw [hr] at hq
      cases hq
      exact ⟨r', hself, hw, hn⟩
    · exact ⟨q, (hother j hj).trans hq, rfl, rfl⟩
  have hwritten : ∀ {e r}, HostWritten set s e r → HostWritten set s' e r := fun hwr =>
    hwr.mono (by rw [hs]; exact List.Subset.refl _) hkept
  constructor
  · simpa only [hrow, hs] using h.source
  · simpa only [hs] using h.only
  · simpa only [hrow, hs] using h.identity
  · intro j q hq
    by_cases hj : j = g
    · subst hj
      rw [hself] at hq
      cases hq
      exact ⟨hd.trans (h.group j r hr).1, by rw [hs, hw, hn]; exact hid⟩
    · rw [hother j hj] at hq
      refine ⟨(h.group j q hq).1, ?_⟩
      rw [hs, hfrom _ _ fun hsame => hj (h.unique j g q r hq hr hsame.1 hsame.2)]
      exact (h.group j q hq).2
  · intro j j' q q' hq hq' hsw hsn
    obtain ⟨p, hp, hpw, hpn⟩ := hwas j q hq
    obtain ⟨p', hp', hpw', hpn'⟩ := hwas j' q' hq'
    exact h.unique j j' p p' hp hp' (hpw.symm.trans (hsw.trans hpw')) (hpn.symm.trans (hsn.trans hpn'))
  · intro e he name hname
    rcases hnamed e he name hname with hold | ⟨hew, rfl⟩
    · obtain ⟨j, q, hq, hqw, hqn⟩ := h.named e hold name hname
      obtain ⟨q', hq', hqw', hqn'⟩ := hkept j q hq
      exact ⟨j, q', hq', hqw'.trans hqw, hqn'.trans hqn⟩
    · exact ⟨g, r', hself, hw.trans hew.symm, hn⟩
  · intro x q hq
    rw [hhrow] at hq
    obtain ⟨e, he, hwr⟩ := h.host x q hq
    exact ⟨e, he, hwritten hwr⟩
  · intro e he
    obtain ⟨x, q, hq, hwr⟩ := h.added e he
    exact ⟨x, q, (hhrow x).trans hq, hwritten hwr⟩

theorem Imports.finds {workspace : Workspace} {path : Option Text} {o : Option Uuid}
    (h : Imports set groups hosts s) (hf : FindsGroup workspace s.1.db s'.1.db path o)
    (hs : s'.2 = s.2) : Imports set groups hosts s' ∧ InGroup s'.1.db workspace path o := by
  have hsame : ∀ hrows : s'.1.db.rows = s.1.db.rows, Imports set groups hosts s' := fun hrows =>
    h.congr (by rw [hrows]) (by rw [hrows]) (by rw [hrows]) hs
  cases hf with
  | ungrouped hrows => exact ⟨hsame hrows, .ungrouped⟩
  | @found name g hnamed hrows =>
    obtain ⟨r, hr, -, hw, hn⟩ := groupId_some hnamed
    exact ⟨hsame hrows, .grouped ((row_congr hrows _ _).trans hr) hw hn⟩
  | @made name g clock position hunnamed hnew hrows =>
    let r' : Row GroupBody := newRow clock ⟨workspace, name, position, none, none, []⟩
    have hself : s'.1.db.row .group g = some r' := by rw [row_congr hrows, Db.row_setRow_self]
    have hother : ∀ j, j ≠ g → s'.1.db.row .group j = s.1.db.row .group j := fun j hj => by
      rw [row_congr hrows, Db.row_setRow_ne_id hj]
    have hrow : ∀ id, s'.1.db.row .identity id = s.1.db.row .identity id := fun id => by
      rw [row_congr hrows, Db.row_setRow_ne_kind (by decide)]
    have hhrow : ∀ x, s'.1.db.row .host x = s.1.db.row .host x := fun x => by
      rw [row_congr hrows, Db.row_setRow_ne_kind (by decide)]
    have hne : ∀ j q, s.1.db.row .group j = some q → j ≠ g := by
      rintro j q hq rfl
      rw [hnew] at hq
      cases hq
    have hkept : NamesKept s.1.db s'.1.db := fun j q hq =>
      ⟨q, (hother j (hne j q hq)).trans hq, rfl, rfl⟩
    have hfree : ∀ j q, s.1.db.row .group j = some q → q.body.workspace = workspace → q.body.name ≠ name :=
      fun j q hq => groupId_none hunnamed hq (h.group j q hq).1
    have hfrom : groupFrom set groups workspace name = none := by
      have hnone : (groups.filter fun e => e.called workspace name) = [] := by
        rw [List.filter_eq_nil_iff]
        intro e he hcalled
        rw [GroupInput.called, Bool.and_eq_true, decide_eq_true_eq, decide_eq_true_eq] at hcalled
        obtain ⟨j, q, hq, hqw, hqn⟩ := h.named e he name hcalled.2
        exact hfree j q hq (hqw.trans hcalled.1) hqn
      unfold groupFrom
      rw [hnone]
      rfl
    have hwritten : ∀ {e r}, HostWritten set s e r → HostWritten set s' e r := fun hwr =>
      hwr.mono (by rw [hs]; exact List.Subset.refl _) hkept
    refine ⟨?_, .grouped hself rfl rfl⟩
    constructor
    · simpa only [hrow, hs] using h.source
    · simpa only [hs] using h.only
    · simpa only [hrow, hs] using h.identity
    · intro j q hq
      by_cases hj : j = g
      · subst hj
        rw [hself] at hq
        cases hq
        refine ⟨rfl, ?_⟩
        show MadeFrom s'.2 none (groupFrom set groups workspace name)
        rw [hfrom]
        exact .none
      · rw [hother j hj] at hq
        rw [hs]
        exact h.group j q hq
    · intro j j' q q' hq hq' hsw hsn
      by_cases hj : j = g <;> by_cases hj' : j' = g
      · rw [hj, hj']
      · subst hj
        rw [hself] at hq
        cases hq
        rw [hother j' hj'] at hq'
        exact absurd hsn.symm (hfree j' q' hq' hsw.symm)
      · subst hj'
        rw [hself] at hq'
        cases hq'
        rw [hother j hj] at hq
        exact absurd hsn (hfree j q hq hsw)
      · rw [hother j hj] at hq
        rw [hother j' hj'] at hq'
        exact h.unique j j' q q' hq hq' hsw hsn
    · intro e he n hname
      obtain ⟨j, q, hq, hqw, hqn⟩ := h.named e he n hname
      exact ⟨j, q, (hother j (hne j q hq)).trans hq, hqw, hqn⟩
    · intro x q hq
      rw [hhrow] at hq
      obtain ⟨e, he, hwr⟩ := h.host x q hq
      exact ⟨e, he, hwritten hwr⟩
    · intro e he
      obtain ⟨x, q, hq, hwr⟩ := h.added e he
      exact ⟨x, q, (hhrow x).trans hq, hwritten hwr⟩

variable {o : Option Uuid} {id : Uuid} {t t' : TxState} {u : Unit} {e : HostInput}

omit [Platform] in
theorem tracedLogin_ok {index : Option ℕ} (h : tracedLogin cx set index s = .ok (o, s')) : ImportsLogin set index
    s.1.db s'.1.db o ∧ s'.2 = sourceOf o index ++ s.2 := by
  obtain ⟨login, s₁, h₁, h⟩ := Tx.bind_eq_ok.mp h
  obtain ⟨h₁, hs⟩ := Tx.lift_eq_ok.mp h₁
  cases h
  exact ⟨importLogin_imports h₁, by rw [← hs]⟩

theorem importDrives_ok {drives : Option DriveRedirection} (h : importDrives cx id drives t = .ok (u, t')) :
    t'.db.rows = t.db.rows ∨ ∃ r r' : Row GroupBody, t.db.row .group id = some r ∧ t'.db.rows =
    (t.db.setRow .group id r').rows ∧ r'.deleted = r.deleted ∧ r'.body.workspace = r.body.workspace ∧ r'.body.name =
    r.body.name ∧ r'.body.identityId = r.body.identityId := by
  cases drives with
  | none =>
    cases h
    exact .inl rfl
  | some drives =>
    obtain ⟨clock, t₁, h₁, h⟩ := Tx.bind_eq_ok.mp h
    have hrows : t₁.db.rows = t.db.rows := by rw [(tick_eq_ok h₁).2]; rfl
    obtain ⟨-, he⟩ | ⟨r, hr, -, he⟩ := updateRow_ok h
    · exact .inl (by rw [he, hrows])
    · have hset := setRow_rows_congr (k := .group) hrows id (if r.body.drives.isSome then r
        else r.rewrite clock fun b => { b with drives := some (normalizeDrives drives) })
      rw [← he] at hset
      refine .inr ⟨r, _, (row_congr hrows _ _).symm.trans hr, hset, ?_⟩
      split <;> exact ⟨rfl, rfl, rfl, rfl⟩

theorem Imports.drives {drives : Option DriveRedirection} (h : Imports set groups hosts s)
    (hm : importDrives cx id drives s.1 = .ok (u, s'.1)) (hs : s'.2 = s.2) : Imports set groups hosts s' := by
  obtain hrows | ⟨r, r', hr, hrows, hd, hw, hn, hid⟩ := importDrives_ok hm
  · exact h.congr (by rw [hrows]) (by rw [hrows]) (by rw [hrows]) hs
  · refine h.changeGroup hr hrows hs hd hw hn ?_ (fun _ _ _ => rfl) fun e he _ _ => .inl he
    rw [hid]
    exact (h.group id r hr).2

omit [Platform] in
theorem giveGroupLogin_ok {r : Row GroupBody} (h : giveGroupLogin cx id o t = .ok (u, t'))
    (hr : t.db.row .group id = some r) (hnone : r.body.identityId = none) : ∃ r' : Row GroupBody, t'.db.rows =
    (t.db.setRow .group id r').rows ∧ r'.deleted = r.deleted ∧ r'.body.workspace = r.body.workspace ∧ r'.body.name =
    r.body.name ∧ r'.body.identityId = o := by
  cases o with
  | none =>
    cases h
    exact ⟨r, by rw [setRow_same hr], rfl, rfl, rfl, hnone⟩
  | some identity =>
    obtain ⟨clock, t₁, h₁, h⟩ := Tx.bind_eq_ok.mp h
    have hrows : t₁.db.rows = t.db.rows := by rw [(tick_eq_ok h₁).2]; rfl
    have hr₁ : t₁.db.row .group id = some r := (row_congr hrows _ _).trans hr
    obtain ⟨hmissing, -⟩ | ⟨r', hr', -, he⟩ := updateRow_ok h
    · rw [hr₁] at hmissing
      cases hmissing
    · rw [hr₁] at hr'
      cases hr'
      have hset := setRow_rows_congr (k := .group) hrows id
        (r.rewrite clock fun b => { b with identityId := some identity })
      rw [← he] at hset
      exact ⟨_, hset, rfl, rfl, rfl, rfl⟩

theorem Imports.groupLogin {g : GroupInput} {name : Text} {r : Row GroupBody} (h : Imports set groups hosts s)
    (hname : groupName (some g.name) = .ok (some name)) (hr : s.1.db.row .group id = some r)
    (hw : r.body.workspace = g.workspace) (hn : r.body.name = name)
    (hm : tracedGroupLogin cx set id g.login s = .ok (u, s')) : Imports set (groups ++ [g]) hosts s' := by
  have hcalled := called_of_groupName hname
  have hother : ∀ w n, ¬(w = r.body.workspace ∧ n = r.body.name) →
      groupFrom set (groups ++ [g]) w n = groupFrom set groups w n := by
    intro w n hne
    rw [hw, hn, ← hcalled w n] at hne
    rw [groupFrom_snoc, if_neg hne, Option.or_none]
  have hnew : groupFrom set (groups ++ [g]) r.body.workspace r.body.name =
      (groupFrom set groups r.body.workspace r.body.name).or (takenFrom set g.login) := by
    rw [groupFrom_snoc, if_pos ((hcalled _ _).mpr ⟨hw, hn⟩)]
  have hnamed : ∀ e ∈ groups ++ [g], ∀ n, groupName (some e.name) = .ok (some n) →
      e ∈ groups ∨ (e.workspace = r.body.workspace ∧ n = r.body.name) := by
    intro e he n hen
    rcases List.mem_append.mp he with he | he
    · exact .inl he
    · rw [List.mem_singleton] at he
      subst he
      rw [hname] at hen
      cases hen
      exact .inr ⟨hw.symm, hn.symm⟩
  have hmade := (h.group id r hr).2
  obtain ⟨has, s₁, h₁, hm⟩ := Tx.bind_eq_ok.mp hm
  cases h₁
  cases hid : r.body.identityId with
  | some identity =>
    have hhas : ((s.1.db.row .group id).any fun r => r.body.identityId.isSome) = true := by
      rw [hr]
      simp [hid]
    rw [if_pos hhas] at hm
    cases hm
    refine h.changeGroup hr (by rw [setRow_same hr]) rfl rfl rfl rfl ?_ hother hnamed
    rw [hid] at hmade
    rw [hnew, hid]
    generalize groupFrom set groups r.body.workspace r.body.name = from' at hmade
    cases hmade with
    | made hmem => exact .made hmem
  | none =>
    have hhas : ¬((s.1.db.row .group id).any fun r => r.body.identityId.isSome) = true := by
      rw [hr]
      simp [hid]
    rw [if_neg hhas] at hm
    obtain ⟨o, s₂, h₂, hm⟩ := Tx.bind_eq_ok.mp hm
    obtain ⟨hlogin, hs₂⟩ := tracedLogin_ok h₂
    obtain ⟨hi, hfrom⟩ := h.login hlogin hs₂
    obtain ⟨hm, hs'⟩ := Tx.lift_eq_ok.mp hm
    have hr₂ : s₂.1.db.row .group id = some r := by
      cases hlogin with
      | none _ hrows => exact (row_congr hrows _ _).trans hr
      | made _ _ _ _ _ hrows _ =>
        unfold Db.row
        rw [hrows .group (by decide) (by decide)]
        exact hr
    obtain ⟨r', hrows, hd, hw', hn', hid'⟩ := giveGroupLogin_ok hm hr₂ hid
    refine hi.changeGroup hr₂ hrows hs' hd hw' hn' ?_ hother hnamed
    rw [hid] at hmade
    rw [hnew, hid']
    generalize groupFrom set groups r.body.workspace r.body.name = from' at hmade
    cases hmade
    exact hfrom

theorem tracedGroup_imports (done : List GroupInput) (g : GroupInput) : Tx.Ensures (Imports set done [])
    (tracedGroup cx set g) fun _ => Imports set (done ++ [g]) [] := by
  intro s h u s' hm
  unfold tracedGroup at hm
  rcases hname : groupName (some g.name) with e | (_ | name)
  · rw [hname] at hm
    cases hm
  · rw [hname] at hm
    cases hm
    have hnever : ∀ w n, g.called w n = false := fun w n => by simp [GroupInput.called, hname]
    have hsame : groupFrom set (done ++ [g]) = groupFrom set done := by
      funext w n
      rw [groupFrom_snoc, hnever, if_neg (by decide), Option.or_none]
    refine { h with group := by rw [hsame]; exact h.group, named := fun e he n hen => ?_ }
    rcases List.mem_append.mp he with he | he
    · exact h.named e he n hen
    · rw [List.mem_singleton.mp he, hname] at hen
      cases hen
  · rw [hname] at hm
    obtain ⟨id, s₁, h₁, hm⟩ := Tx.bind_eq_ok.mp hm
    obtain ⟨h₁, hs₁⟩ := Tx.lift_eq_ok.mp h₁
    obtain ⟨_, s₂, h₂, hm⟩ := Tx.bind_eq_ok.mp hm
    obtain ⟨h₂, hs₂⟩ := Tx.lift_eq_ok.mp h₂
    have hpath : ensureGroupPath cx g.workspace (some name) s.1 = .ok (some id, s₁.1) :=
      Tx.bind_eq_ok.mpr ⟨id, s₁.1, h₁, rfl⟩
    obtain ⟨hi, hg⟩ := h.finds (ensureGroupPath_ok hpath) hs₁
    have hi₂ := hi.drives h₂ hs₂
    cases hg with
    | @grouped _ _ r hr hw hn =>
      have hkept : ∃ r', s₂.1.db.row .group id = some r' ∧ r'.body.workspace = g.workspace ∧ r'.body.name = name := by
        obtain hrows | ⟨r₀, r', hr₀, hrows, -, hw', hn', -⟩ := importDrives_ok h₂
        · exact ⟨r, (row_congr hrows _ _).trans hr, hw, hn⟩
        · rw [hr] at hr₀
          cases hr₀
          exact ⟨r', by rw [row_congr hrows, Db.row_setRow_self], hw'.trans hw, hn'.trans hn⟩
      obtain ⟨r', hr', hw', hn'⟩ := hkept
      exact hi₂.groupLogin hname hr' hw' hn' hm

/-! ## Hosts -/

omit [Platform] in
theorem addedHosts_snoc (h : HostInput) : addedHosts (hosts ++ [h]) =
    if !isPlausible h || (addedHosts hosts).any (sameAddress h) then addedHosts hosts
    else addedHosts hosts ++ [h] := by
  unfold addedHosts
  rw [List.foldl_append]
  rfl

theorem Imports.hostExists (h : Imports set groups hosts s) (e : HostInput) :
    UwuRdp.hostExists s.1.db e.address e.port = (addedHosts hosts).any (sameAddress e) := by
  rw [Bool.eq_iff_iff]
  unfold UwuRdp.hostExists
  constructor
  · intro hthere
    obtain ⟨⟨x, r⟩, hfind⟩ := Option.isSome_iff_exists.mp hthere
    obtain ⟨hr, hp⟩ := Table.find?_some hfind
    obtain ⟨e', he', hw⟩ := h.host x r hr
    refine List.any_eq_true.mpr ⟨e', he', ?_⟩
    simp only [Bool.and_eq_true, decide_eq_true_eq] at hp
    rw [hw.port, hw.address] at hp
    simp [sameAddress, normalise, hp.1.2, hp.2]
  · intro hany
    obtain ⟨e', he', hsame⟩ := List.any_eq_true.mp hany
    obtain ⟨x, r, hr, hw⟩ := h.added e' he'
    simp only [sameAddress, normalise, Bool.and_eq_true, decide_eq_true_eq] at hsame
    rw [Option.isSome_iff_ne_none]
    intro hnone
    have hno := Table.find?_none hnone hr
    simp only [hw.live, hw.port, hw.address, hsame.1] at hno
    simp [of_decide_eq_true hsame.2] at hno

theorem Imports.writeHost {login gatewayLogin : Option Uuid} (h : Imports set groups hosts s)
    (hm : writeHost cx e login gatewayLogin s.1 = .ok (u, s'.1)) (hs : s'.2 = s.2)
    (hnew : addedHosts (hosts ++ [e]) = addedHosts hosts ++ [e]) (hlogin : MadeFrom s.2 login (takenFrom set e.login))
    (hgateway : MadeFrom s.2 gatewayLogin (takenFrom set e.gatewayLogin)) : Imports set groups (hosts ++ [e]) s' := by
  unfold UwuRdp.writeHost at hm
  rcases hpath : groupName e.groupPath with err | path
  · rw [hpath] at hm
    cases hm
  rw [hpath] at hm
  obtain ⟨group, s₁, h₁, hm⟩ := Tx.bind_eq_ok.mp hm
  obtain ⟨hi, hg⟩ := @Imports.finds _ _ _ _ _ ((s₁, s.2)) _ _ _ h (ensureGroupPath_ok h₁) rfl
  obtain ⟨position, s₂, h₂, hm⟩ := Tx.bind_eq_ok.mp hm
  have hs₂ : s₂ = s₁ := by
    cases hposition : e.position with
    | some p =>
      rw [hposition] at h₂
      cases h₂
      rfl
    | none =>
      rw [hposition] at h₂
      exact nextPosition_ok h₂
  obtain ⟨clock, s₃, h₃, hm⟩ := Tx.bind_eq_ok.mp hm
  obtain ⟨x, s₄, h₄, hm⟩ := Tx.bind_eq_ok.mp hm
  cases h₄
  obtain ⟨hfree, -, he⟩ := insertRow_ok hm
  have hrows : s₃.db.rows = s₁.db.rows := by rw [(tick_eq_ok h₃).2, hs₂]; rfl
  have hset := setRow_rows_congr (k := .host) hrows (cx.newId s₃.asked) (newRow clock
    { name := if (Text.trim e.name).isEmpty then Text.trim e.address else Text.trim e.name
      address := Text.trim e.address, port := e.port, workspace := e.workspace, position
      groupId := group, identityId := login, rdp := normalizeRdp e.rdp
      comment := (Text.trim e.comment).take 4000, gatewayIdentityId := gatewayLogin, extra := [] })
  rw [← show s'.1.db = s₃.db.setRow .host _ _ from he] at hset
  generalize hr' : newRow clock (_ : HostBody) = r' at hset
  have hfree : s₁.db.row .host (cx.newId s₃.asked) = none := (row_congr hrows _ _).symm.trans hfree
  have hself : s'.1.db.row .host (cx.newId s₃.asked) = some r' := by
    rw [row_congr hset, Db.row_setRow_self]
  have hother : ∀ j, j ≠ cx.newId s₃.asked → s'.1.db.row .host j = s₁.db.row .host j :=
    fun j hj => by rw [row_congr hset, Db.row_setRow_ne_id hj]
  have hrow : ∀ id, s'.1.db.row .identity id = s₁.db.row .identity id := fun id => by
    rw [row_congr hset, Db.row_setRow_ne_kind (by decide)]
  have hgrow : ∀ id, s'.1.db.row .group id = s₁.db.row .group id := fun id => by
    rw [row_congr hset, Db.row_setRow_ne_kind (by decide)]
  have hkept : NamesKept s₁.db s'.1.db := fun g r hr => ⟨r, (hgrow g).trans hr, rfl, rfl⟩
  have hwritten : ∀ {e r}, HostWritten set (s₁, s.2) e r → HostWritten set s' e r := fun hwr =>
    hwr.mono (by rw [hs]; exact List.Subset.refl _) hkept
  have hthis : HostWritten set s' e r' := by
    subst hr'
    exact ⟨rfl, rfl, rfl, rfl, by rw [hs]; exact hlogin, by rw [hs]; exact hgateway, path, hpath,
      hg.mono hkept⟩
  constructor
  · simpa only [hrow, hs] using hi.source
  · simpa only [hs] using hi.only
  · simpa only [hrow, hs] using hi.identity
  · simpa only [hgrow, hs] using hi.group
  · simpa only [hgrow] using hi.unique
  · simpa only [hgrow] using hi.named
  · intro j r hr
    rw [hnew]
    by_cases hj : j = cx.newId s₃.asked
    · subst hj
      rw [hself] at hr
      cases hr
      exact ⟨e, List.mem_append_right _ (List.mem_singleton.mpr rfl), hthis⟩
    · rw [hother j hj] at hr
      obtain ⟨e', he', hw⟩ := hi.host j r hr
      exact ⟨e', List.mem_append_left _ he', hwritten hw⟩
  · intro e' he'
    rw [hnew] at he'
    rcases List.mem_append.mp he' with he' | he'
    · obtain ⟨j, r, hr, hw⟩ := hi.added e' he'
      refine ⟨j, r, (hother j ?_).trans hr, hwritten hw⟩
      rintro rfl
      rw [show s₁.db.row .host _ = _ from hr] at hfree
      cases hfree
    · rw [List.mem_singleton.mp he']
      exact ⟨_, r', hself, hthis⟩

theorem tracedHosts_imports (rest : List HostInput) (done : List HostInput)
    (added : List (Text × UInt16)) :
    Tx.Ensures (Imports set groups done) (tracedHosts cx set rest added) fun _ =>
      Imports set groups (done ++ rest) := by
  induction rest generalizing done added with
  | nil =>
    rw [List.append_nil]
    exact .pure _ fun _ h => h
  | cons e rest ih =>
    intro s h a s' hm
    obtain ⟨there, ⟨t₁, sources₁⟩, h₁, hm⟩ := Tx.bind_eq_ok.mp hm
    obtain ⟨h₁, hs₁⟩ := Tx.lift_eq_ok.mp h₁
    cases hs₁
    cases h₁
    have hnext : ∀ {added s₂}, Imports set groups (done ++ [e]) s₂ →
        tracedHosts cx set rest added s₂ = .ok (a, s') → Imports set groups (done ++ e :: rest) s' := by
      intro added s₂ hi hm
      have hrest := ih (done ++ [e]) added s₂ hi a s' hm
      rwa [List.append_assoc, List.singleton_append] at hrest
    have hsnoc := @addedHosts_snoc done e
    rw [← h.hostExists e] at hsnoc
    split at hm
    · next hskip =>
      rw [if_pos hskip] at hsnoc
      refine hnext ?_ hm
      exact { h with host := by rw [hsnoc]; exact h.host, added := by rw [hsnoc]; exact h.added }
    · next hadd =>
      rw [if_neg hadd] at hsnoc
      obtain ⟨login, s₂, h₂, hm⟩ := Tx.bind_eq_ok.mp hm
      obtain ⟨gatewayLogin, s₃, h₃, hm⟩ := Tx.bind_eq_ok.mp hm
      obtain ⟨_, s₄, h₄, hm⟩ := Tx.bind_eq_ok.mp hm
      obtain ⟨hmade, hsource⟩ := tracedLogin_ok h₂
      obtain ⟨hmade', hsource'⟩ := tracedLogin_ok h₃
      obtain ⟨hi₂, hlogin⟩ := h.login hmade hsource
      obtain ⟨hi₃, hgateway⟩ := hi₂.login hmade' hsource'
      obtain ⟨hwrite, hs₄⟩ := Tx.lift_eq_ok.mp h₄
      have hsub : s₂.2 ⊆ s₃.2 := by
        rw [hsource']
        exact List.subset_append_right _ _
      exact hnext (hi₃.writeHost hwrite hs₄ hsnoc (hlogin.mono hsub) hgateway) hm

omit [Platform] in
theorem writeKnownHost_rows {known : KnownHostInput} (h : writeKnownHost cx known t = .ok (u, t')) (k : EntityKind)
    (hk : k ≠ .knownHost) : t'.db.rows k = t.db.rows k := by
  obtain ⟨slot, t₁, h₁, h⟩ := Tx.bind_eq_ok.mp h
  cases h₁
  cases hslot : t.db.slot (normalise known.address) known.port with
  | some e =>
    simp only [hslot] at h
    cases h
    rfl
  | none =>
    simp only [hslot] at h
    obtain ⟨clock, t₂, h₂, h⟩ := Tx.bind_eq_ok.mp h
    obtain ⟨id, t₃, h₃, h⟩ := Tx.bind_eq_ok.mp h
    obtain ⟨ms, t₄, h₄, h⟩ := Tx.bind_eq_ok.mp h
    cases h₃
    cases h₄
    obtain ⟨-, -, he⟩ := insertRow_ok h
    have hrows : t₂.db.rows k = t.db.rows k := by rw [(tick_eq_ok h₂).2]; rfl
    rw [he, rows_setRow_ne hk]
    exact hrows

theorem importSet_imports {db : Db} (hempty : ∀ k id, db.row k id = none)
    (h : importSet cx set ⟨db, 0⟩ = .ok (u, t)) :
    Imports set set.groups set.hosts (t, importSources cx set db) := by
  have hm := tracedImport_of_ok h
  obtain ⟨_, ⟨t₁, sources₁⟩, h₁, hm⟩ := Tx.bind_eq_ok.mp hm
  obtain ⟨h₁, hs₁⟩ := Tx.lift_eq_ok.mp h₁
  cases hs₁
  have ht₁ : t₁ = ⟨db, 0⟩ :=
    Tx.Ensures.require (P := (· = ⟨db, 0⟩)) (Q := fun _ s => s = ⟨db, 0⟩) (fun _ hs _ => hs) _ rfl _
      _ h₁
  subst ht₁
  obtain ⟨_, s₂, h₂, hm⟩ := Tx.bind_eq_ok.mp hm
  obtain ⟨added, s₃, h₃, hm⟩ := Tx.bind_eq_ok.mp hm
  obtain ⟨hm, hs'⟩ := Tx.lift_eq_ok.mp hm
  have hgroups := @Tx.Ensures.forM_done _ _ _ _ _ set.groups [] (fun done g => tracedGroup_imports done g) _
    (imports_nil hempty) _ s₂ h₂
  have hhosts := tracedHosts_imports set.hosts [] [] _ hgroups added s₃ h₃
  have hkept : ∀ k, k ≠ .knownHost → t.db.rows k = s₃.1.db.rows k := by
    intro k hk
    refine Tx.Ensures.forM (P := fun s => s.db.rows k = s₃.1.db.rows k) (fun known _ => ?_) _ rfl
      _ _ hm
    intro t₁ hkeep _ t₂ hknown
    exact (writeKnownHost_rows hknown k hk).trans hkeep
  exact hhosts.congr (hkept _ (by decide)) (hkept _ (by decide)) (hkept _ (by decide)) hs'

/-! ## Which entry a connection uses -/

/-- The entry the login of a host's group comes from. -/
def pathFrom (set : ImportSet) (h : HostInput) : Option ℕ :=
  match groupName h.groupPath with
  | .ok (some name) => groupFrom set set.groups h.workspace name
  | _ => none

/-- The entry a host connects with: its own, else its group's. -/
def loginFrom (set : ImportSet) (h : HostInput) : Option ℕ :=
  (takenFrom set h.login).or (pathFrom set h)

/-- A login a connection uses, or none, and the entry it comes from, or none. -/
inductive ResolvedFrom (set : ImportSet) (sources : Sources) :
    Option ResolvedLogin → Option ℕ → Prop
  | none : ResolvedFrom set sources none none
  | made {login : ResolvedLogin} {i : ℕ} {input : LoginInput}
      (source : (login.identity, i) ∈ sources) (entry : set.logins[i]? = some input)
      (password : login.hasPassword = input.hasPassword) :
      ResolvedFrom set sources (some login) (some i)

theorem Imports.resolved {i : Option ℕ} (h : Imports set groups hosts s) (hm : MadeFrom s.2 o i) (fromGroup : Bool) :
    ResolvedFrom set s.2 (resolved s.1.db o fromGroup) i := by
  cases hm with
  | none => exact .none
  | @made id i hmem =>
    obtain ⟨r, input, hr, hentry, hof⟩ := h.source id i hmem
    have hlive : (!r.deleted && !r.body.username.isEmpty) = true := by
      rw [hof.live, Bool.not_false, Bool.true_and, Bool.not_eq_true', List.isEmpty_eq_false_iff]
      exact hof.named
    have hres : UwuRdp.resolved s.1.db (some id) fromGroup = some
        { username := r.body.username, domain := r.body.domain
          hasPassword := r.body.passwordSecretId.isSome, fromGroup, identity := id
          secret := r.body.passwordSecretId } := by
      unfold UwuRdp.resolved
      rw [Option.bind_some, hr, Option.filter_some, if_pos hlive, Option.map_some]
    rw [hres]
    exact .made hmem hentry hof.password

theorem Imports.hostLogin (h : Imports set set.groups hosts s) {x : Uuid} (hr : s.1.db.row .host x = some r) (hw : HostWritten set s e r) :
    ∃ o, hostLogin s.1.db x = .ok o ∧ ResolvedFrom set s.2 o (loginFrom set e) := by
  have hlive : liveHost s.1.db x = some r := by
    unfold liveHost
    rw [hr, Option.filter_some, if_pos (by rw [hw.live]; rfl)]
  have hown := h.resolved hw.login false
  unfold UwuRdp.hostLogin
  simp only [hlive]
  unfold loginFrom
  generalize takenFrom set e.login = i at hown
  cases ho : UwuRdp.resolved s.1.db r.body.identityId false with
  | some login =>
    simp only
    rw [ho] at hown
    cases hown with
    | made hsource hentry hpassword =>
      exact ⟨_, rfl, .made hsource hentry hpassword⟩
  | none =>
    simp only
    rw [ho] at hown
    cases hown
    refine ⟨_, rfl, ?_⟩
    rw [Option.none_or]
    obtain ⟨path, hpath, hg⟩ := hw.group
    unfold pathFrom
    rw [hpath]
    generalize r.body.groupId = group at hg
    cases hg with
    | ungrouped => exact .none
    | @grouped name g q hq hqw hqn =>
      obtain ⟨hqlive, hqlogin⟩ := h.group g q hq
      have hgroup : resolvedGroup s.1.db (some g) = UwuRdp.resolved s.1.db q.body.identityId true := by
        unfold resolvedGroup
        rw [Option.bind_some, hq, Option.filter_some, if_pos (by rw [hqlive]; rfl), Option.bind_some]
      show ResolvedFrom set s.2 (resolvedGroup s.1.db (some g)) (groupFrom set set.groups e.workspace name)
      rw [hgroup, ← hqw, ← hqn]
      exact h.resolved hqlogin true

theorem Imports.hostGatewayLogin (h : Imports set groups hosts s) {x : Uuid}
    (hr : s.1.db.row .host x = some r) (hw : HostWritten set s e r) : ∃ o, hostGatewayLogin s.1.db x = .ok o ∧
    ResolvedFrom set s.2 o (takenFrom set e.gatewayLogin) := by
  have hlive : liveHost s.1.db x = some r := by
    unfold liveHost
    rw [hr, Option.filter_some, if_pos (by rw [hw.live]; rfl)]
  unfold UwuRdp.hostGatewayLogin
  rw [hlive]
  exact ⟨_, rfl, h.resolved hw.gateway false⟩

end Runs

end UwuRdp
