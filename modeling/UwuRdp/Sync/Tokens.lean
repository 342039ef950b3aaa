import UwuRdp.Store.Adopt

/-!
# The tokens of a UwULock session

An access token runs out after a while; the refresh token brings the next one, and most servers hand
out a new refresh token with it, after which the old one is worthless. One refresh of a connection
runs at a time. The refresh token kept for the next start stands in the one row of `lock_state`,
whatever connection it comes from.
-/

namespace UwuRdp

open Lib

/-- A refresh token. Nobody makes one up, so it stands for its issue: the server, the account and
which one it was. -/
structure RefreshToken where
  server : Text
  email : Text
  number : ℕ
deriving DecidableEq

/-- The tokens of a session; times in seconds. -/
structure Tokens where
  /-- Empty for a session from a kept refresh token. -/
  access : Text
  refresh : Option RefreshToken
  renewAt : ℕ
deriving DecidableEq

/-- `wire::Token`: what a server grants. -/
structure Grant where
  accessToken : Text
  refreshToken : Option RefreshToken
  expiresIn : Option ℕ
deriving DecidableEq

/-- An access token this close to running out is refreshed first. -/
def refreshAhead : ℕ := 120

def Grant.lifetime (g : Grant) : ℕ := min (max (g.expiresIn.getD 3600) 60) 86400

/-- `take`: keep the tokens of a grant. -/
def Tokens.take (now : ℕ) (tokens : Option Tokens) (g : Grant) : Tokens where
  access := g.accessToken
  refresh := g.refreshToken.or (tokens.bind Tokens.refresh)
  renewAt := now + (g.lifetime - refreshAhead)

/-- `with_refresh_token`: a session from a token kept earlier; the first request refreshes it. -/
def Tokens.withRefreshToken (now : ℕ) (refresh : RefreshToken) : Tokens := ⟨[], some refresh, now⟩

/-- How `refresh` begins. -/
inductive RefreshStart where
  /-- There is no session, or none that can be refreshed: `TransportError::SignIn`. -/
  | signIn
  /-- Another thread refreshed meanwhile, or it is not due. -/
  | fresh
  | present (token : RefreshToken)
deriving DecidableEq

/-- The first half of `refresh`, up to the request. `stale` is the access token a request was refused
with. -/
def Tokens.beginRefresh (now : ℕ) (stale : Option Text) : Option Tokens → RefreshStart
  | none => .signIn
  | some t =>
    let fresh := now < t.renewAt ∧ t.access ≠ []
    if fresh ∧ (stale = none ∨ stale ≠ some t.access) then .fresh
    else
      match t.refresh with
      | none => .signIn
      | some refresh => .present refresh

theorem Tokens.beginRefresh_present {now : ℕ} {stale : Option Text} {tokens : Option Tokens} {token : RefreshToken}
    (h : beginRefresh now stale tokens = .present token) : tokens.bind Tokens.refresh = some token := by
  cases tokens with
  | none => cases h
  | some t =>
    dsimp only [beginRefresh] at h
    split at h
    · cases h
    · split at h
      · cases h
      · next refresh hrefresh =>
        cases h
        exact hrefresh

/-! ## The row of `lock_state` -/

/-- What `lock_state` says of the session; tokens as they are kept. -/
structure LockRow (τ : Type) where
  active : Bool
  serverUrl : Option Text
  email : Option Text
  refreshToken : Option τ
deriving DecidableEq

namespace LockRow

variable {τ : Type}

/-- `lock_state`'s `signed_in`. -/
def signedIn (r : LockRow τ) : Bool := r.refreshToken.isSome

/-- What `join_space` writes. -/
def join (serverUrl email : Text) (refresh : Option τ) : LockRow τ :=
  ⟨true, some serverUrl, some email, refresh⟩

/-- `keep_lock_refresh_token` -/
def keepRefreshToken (r : LockRow τ) (token : τ) : LockRow τ :=
  if r.active then { r with refreshToken := some token } else r

/-- `end_lock_session` -/
def endSession (r : LockRow τ) : LockRow τ := { r with refreshToken := none }

/-- What `leave_lock` writes. -/
def leave (r : LockRow τ) : LockRow τ := { r with active := false, refreshToken := none }

theorem keepRefreshToken_of_inactive {r : LockRow τ} (h : r.active = false) (token : τ) :
    r.keepRefreshToken token = r := by
  unfold keepRefreshToken
  rw [h]
  rfl

@[simp] theorem keepRefreshToken_active (r : LockRow τ) (token : τ) :
    (r.keepRefreshToken token).active = r.active := by
  unfold keepRefreshToken
  split <;> rfl

@[simp] theorem keepRefreshToken_serverUrl (r : LockRow τ) (token : τ) :
    (r.keepRefreshToken token).serverUrl = r.serverUrl := by
  unfold keepRefreshToken
  split <;> rfl

@[simp] theorem keepRefreshToken_email (r : LockRow τ) (token : τ) :
    (r.keepRefreshToken token).email = r.email := by
  unfold keepRefreshToken
  split <;> rfl

end LockRow

/-! ## The row in the store -/

namespace LockStore

def lockRow (s : LockStore) : LockRow (Protected Text) where
  active := s.kept.db.lock.active
  serverUrl := s.kept.db.lock.serverUrl
  email := s.kept.db.lock.email
  refreshToken := s.kept.refreshToken

variable [Platform] {s s' : LockStore}

theorem joinSpace_lockRow {fault : LockStatement → Bool} {space : Space} {w : Wrapping} {joining : SpaceJoining}
    {e : LockEnrolment} (h : joinSpace fault space w joining e s = (.ok (), s')) : s'.lockRow = .join e.serverUrl
    e.email e.protectedRefreshToken := by
  unfold joinSpace at h
  split at h
  · cases h
  next header hheader =>
  dsimp only at h
  split at h
  · cases h
  split at h
  · split at h
    · cases h
    · split at h
      · cases h
      · next kept hrewrap =>
        cases h
        unfold lockRow
        rw [LockTx.remember_eq_ok (LockTx.rewrap_eq_ok hrewrap)]
        cases joining <;> rfl
  · next hne =>
    have hid : header.vaultId = space.id := (UnlockedVault.unlockWith_rewrap hheader).2.1
    obtain ⟨-, t, -, hadopted⟩ := adopt_ok (hid ▸ hne) h
    unfold lockRow
    rw [LockTx.remember_eq_ok hadopted]
    cases joining <;> rfl

omit [Platform] in
theorem alone_eq_ok {fault : LeaveStatement → Bool} {at' : LeaveStatement}
    {f : LockStore → LockStore} {u : Unit} (h : alone fault at' f s = (.ok u, s')) : s' = f s := by
  unfold alone at h
  split at h
  · cases h
  · cases h
    rfl

omit [Platform] in
theorem lockRow_onAccount (s : LockStore) (a : Text × Text) (f : LockAccount → LockAccount) :
    (s.onAccount a f).lockRow = s.lockRow := rfl

theorem leaveLock_lockRow {fault : LeaveStatement → Bool}
    (h : leaveLock fault s = (.ok (), s')) : s'.lockRow = s.lockRow.leave := by
  unfold leaveLock at h
  obtain ⟨⟨⟩, s₁, hread, hget⟩ := Act.bind_eq_ok.mp h
  rw [alone_eq_ok hread, Act.get_bind] at hget
  obtain ⟨⟨⟩, s₂, haccount, hrest⟩ := Act.bind_eq_ok.mp hget
  have hrow : s₂.lockRow = s.lockRow := by
    cases hurl : s.kept.db.lock.serverUrl with
    | none =>
      simp only [id, hurl] at haccount
      rw [(Act.pure_eq_ok.mp haccount).2]
    | some serverUrl =>
      cases hemail : s.kept.db.lock.email with
      | none =>
        simp only [id, hurl, hemail] at haccount
        rw [(Act.pure_eq_ok.mp haccount).2]
      | some email =>
        simp only [id, hurl, hemail] at haccount
        obtain ⟨⟨⟩, s₃, htoken, hkdf⟩ := Act.bind_eq_ok.mp haccount
        rw [alone_eq_ok hkdf, lockRow_onAccount, alone_eq_ok htoken, lockRow_onAccount]
  obtain ⟨⟨⟩, s₃, hstate, hcursors⟩ := Act.bind_eq_ok.mp hrest
  obtain ⟨⟨⟩, s₄, hcursor, hviolations⟩ := Act.bind_eq_ok.mp hcursors
  rw [alone_eq_ok hviolations, alone_eq_ok hcursor, alone_eq_ok hstate]
  show s₂.lockRow.leave = s.lockRow.leave
  rw [hrow]

end LockStore

end UwuRdp
