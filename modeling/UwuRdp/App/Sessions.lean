import Mathlib.Logic.Function.Basic
import UwuRdp.Lib.Steps
import UwuRdp.Sync.Tokens

/-!
# The threads of a UwULock session

Sync passes and the realtime channel share a cached connection; without one they make it from what
`lock_state` keeps. A refresh waits for its answer as long as the server likes, and the answer goes
through the keeper into the row before it goes into the connection. Signing in and signing out
replace the row first and the cached connection after that, and the end of a session clears the row
first and the cache after that. Every section under a lock is a move of its own, and any thread may
make the next one.
-/

namespace UwuRdp

open Lib

namespace LockSessions

/-- Who asks for the connection. -/
inductive Caller where
  /-- A sync pass. -/
  | pass
  /-- The realtime channel. -/
  | listen
deriving DecidableEq

/-- What a thread is doing with the connection it has. -/
inductive Work where
  | use (caller : Caller) (conn : ℕ)
  /-- A sign-in on the connection it made, for this account. -/
  | signingIn (email : Text) (conn : ℕ)
deriving DecidableEq

def Work.conn : Work → ℕ
  | use _ conn => conn
  | signingIn _ conn => conn

/-- Where a thread is. -/
inductive Thread where
  | idle
  /-- It goes on if `lock_state` says so. -/
  | looking (caller : Caller)
  /-- `connection`, from the top. -/
  | opening (caller : Caller)
  /-- Nothing is cached. -/
  | uncached (caller : Caller)
  /-- This is the server that is kept. -/
  | reached (caller : Caller) (server : Text)
  /-- And this the token; `session` says which sign-in it is of. -/
  | ready (caller : Caller) (token : RefreshToken) (server : Text) (session : Option ℕ)
  | working (work : Work)
  /-- Its refresh token is on the way, noted down at `k`. -/
  | waiting (work : Work) (k : ℕ)
  /-- `session_ended`, from the top; with the connection whose session it is. -/
  | ending (conn : Option ℕ)
  | dropping (conn : Option ℕ)
  /-- The space is joined, the connection not yet in use. -/
  | joined (conn : ℕ)
  | signingOut
  | signedOut
deriving DecidableEq

/-- A connection, `Lock`. -/
structure Connection where
  server : Text
  tokens : Option Tokens
  /-- A refresh is under way. -/
  refreshing : Bool
  /-- It has a keeper. -/
  keeps : Bool
  /-- The sign-in whose session this is, by its connection; none for one from before the start of
  the app. Nothing reads it. -/
  session : Option ℕ
deriving DecidableEq

def Connection.refreshToken (c : Connection) : Option RefreshToken := c.tokens.bind Tokens.refresh

/-- How a server answers a refresh. -/
inductive Answer where
  /-- No answer, or none that reads. -/
  | lost
  /-- 400 or 401. -/
  | refused
  /-- 400 or 401, with app sync switched off. -/
  | switchedOff
  /-- Any other status. -/
  | failed
  /-- New tokens; `renews` when a new refresh token is among them. -/
  | granted (access : Text) (renews : Bool) (expiresIn : Option ℕ)
deriving DecidableEq

def Answer.brings : Answer → Bool
  | granted _ renews _ => renews
  | _ => false

/-- A refresh token on its way to a server, with the answer once there is one. -/
structure Presentation where
  server : Text
  token : RefreshToken
  answer : Option Answer
deriving DecidableEq

/-- Its answer was lost, refused or brought no new token. -/
def Presentation.Settled (p : Presentation) : Prop := ∃ a, p.answer = some a ∧ a.brings = false

/-- The app: the row, the cache, the connections there ever were, the threads, and what was
presented to servers so far. -/
structure App where
  row : LockRow RefreshToken
  /-- `sync.lock` -/
  cached : Option ℕ
  /-- `sync.running` -/
  running : Bool
  clock : ℕ
  made : ℕ
  conns : ℕ → Connection
  threads : ℕ → Thread
  /-- How many refresh tokens servers have issued. -/
  issued : ℕ
  /-- The sign-in the row is of. Nothing reads it. -/
  session : Option ℕ
  log : List Presentation

namespace App

variable (w : App) (i : ℕ)

def goes (t : Thread) : App := { w with threads := Function.update w.threads i t }

def onConn (c : ℕ) (conn : Connection) : App := { w with conns := Function.update w.conns c conn }

def makes (conn : Connection) : App := { w.onConn w.made conn with made := w.made + 1 }

def released : Caller → App
  | .pass => { w with running := false }
  | .listen => w

/-- A request failed with `TransportError::SignIn`: `session_ended` for whoever asked, a failure for
a sign-in. -/
def signInNeeded : Work → App
  | .use caller conn => (w.released caller).goes i (.ending (some conn))
  | .signingIn _ _ => w.goes i .idle

/-! ## The sections -/

/-- A pass or the realtime channel begins; only one pass at a time. -/
def start (caller : Caller) : App :=
  match w.threads i with
  | .idle =>
    if caller = .pass ∧ w.running then w
    else App.goes { w with running := w.running || decide (caller = .pass) } i (.looking caller)
  | _ => w

def look : App :=
  match w.threads i with
  | .looking caller =>
    if w.row.active ∧ (caller = .listen → w.row.signedIn) then w.goes i (.opening caller)
    else (w.released caller).goes i .idle
  | _ => w

def lookCached : App :=
  match w.threads i with
  | .opening caller =>
    match w.cached with
    | some conn => w.goes i (.working (.use caller conn))
    | none => w.goes i (.uncached caller)
  | _ => w

/-- `lock_state` -/
def readState : App :=
  match w.threads i with
  | .uncached caller =>
    match w.row.active, w.row.serverUrl with
    | true, some server => w.goes i (.reached caller server)
    | _, _ => (w.released caller).goes i .idle
  | _ => w

/-- `lock_refresh_token` -/
def readToken : App :=
  match w.threads i with
  | .reached caller server =>
    match w.row.refreshToken with
    | some token => w.goes i (.ready caller token server w.session)
    | none => (w.released caller).goes i (.ending none)
  | _ => w

def install : App :=
  match w.threads i with
  | .ready caller token server session =>
    App.goes { w.makes ⟨server, some (.withRefreshToken w.clock token), false, true, session⟩ with
      cached := some w.made } i (.working (.use caller w.made))
  | _ => w

/-- `renew` takes the access token for stale, before it refreshes. -/
def expire : App :=
  match w.threads i with
  | .working work =>
    let conn := w.conns work.conn
    w.onConn work.conn { conn with tokens := conn.tokens.map fun t => { t with renewAt := w.clock } }
  | _ => w

/-- `access_token` and `refresh`, up to the request. -/
def refresh (stale : Option Text) : App :=
  match w.threads i with
  | .working work =>
    let conn := w.conns work.conn
    if conn.refreshing then w
    else
      match Tokens.beginRefresh w.clock stale conn.tokens with
      | .signIn => w.signInNeeded i work
      | .fresh => w
      | .present token =>
        App.goes { w.onConn work.conn { conn with refreshing := true } with
          log := w.log ++ [⟨conn.server, token, none⟩] } i (.waiting work w.log.length)
  | _ => w

def newToken (server email : Text) (renews : Bool) : Option RefreshToken :=
  if renews then some ⟨server, email, w.issued⟩ else none

def noted (k : ℕ) (a : Answer) : List Presentation := w.log.modify k fun p => { p with answer := some a }

/-- The keeper of a connection is called with a token. -/
def keep (conn : Connection) (token : Option RefreshToken) : LockRow RefreshToken :=
  match token with
  | some token => if conn.keeps then w.row.keepRefreshToken token else w.row
  | none => w.row

/-- The answer to a refresh, and what `refresh` does with it. -/
def answer (a : Answer) : App :=
  match w.threads i with
  | .waiting work k =>
    let conn := w.conns work.conn
    let w := { w with log := w.noted k a }
    match a with
    | .granted access renews expiresIn =>
      -- A server answers for the account whose token it was given.
      let email := (conn.refreshToken.map RefreshToken.email).getD []
      let grant : Grant := ⟨access, w.newToken conn.server email renews, expiresIn⟩
      let tokens := Tokens.take w.clock conn.tokens grant
      App.goes { w.onConn work.conn { conn with refreshing := false, tokens := some tokens } with
        row := w.keep conn tokens.refresh
        issued := w.issued + 1 } i (.working work)
    | .refused =>
      (w.onConn work.conn { conn with refreshing := false, tokens := none }).signInNeeded i work
    | _ => (w.onConn work.conn { conn with refreshing := false }).goes i (.working work)
  | _ => w

/-- The server ends the session, on the realtime channel. -/
def logout : App :=
  match w.threads i with
  | .working (.use .listen conn) => w.goes i (.ending (some conn))
  | _ => w

/-- The pass is done, the channel stopped, or a command fails on the way. -/
def finish : App :=
  match w.threads i with
  | .working (.use caller _) => (w.released caller).goes i .idle
  | .working (.signingIn _ _) => w.goes i .idle
  | .signingOut => w.goes i .idle
  | _ => w

/-- `session_ended`: nothing is kept that would try it again, -/
def endSession : App :=
  match w.threads i with
  | .ending conn => App.goes { w with row := w.row.endSession } i (.dropping conn)
  | _ => w

def drop : App :=
  match w.threads i with
  | .dropping _ => App.goes { w with cached := none } i .idle
  | _ => w

/-- The password grant of a sign-in, on a connection of its own. -/
def signIn (server email access : Text) (renews : Bool) (expiresIn : Option ℕ) : App :=
  match w.threads i with
  | .idle =>
    let tokens := Tokens.take w.clock none ⟨access, w.newToken server email renews, expiresIn⟩
    App.goes { w.makes ⟨server, some tokens, false, false, some w.made⟩ with issued := w.issued + 1 } i
      (.working (.signingIn email w.made))
  | _ => w

/-- `join_space` -/
def join : App :=
  match w.threads i with
  | .working (.signingIn email c) =>
    let conn := w.conns c
    App.goes { w with row := .join conn.server email conn.refreshToken, session := some c } i (.joined c)
  | _ => w

/-- `start_syncing` -/
def startSyncing : App :=
  match w.threads i with
  | .joined c =>
    App.goes { w.onConn c { w.conns c with keeps := true } with cached := some c } i .idle
  | _ => w

/-- `lock_sign_out` begins. -/
def signOut : App :=
  match w.threads i with
  | .idle => if w.row.active then w.goes i .signingOut else w
  | _ => w

/-- `leave_lock` -/
def leave : App :=
  match w.threads i with
  | .signingOut => App.goes { w with row := w.row.leave } i .signedOut
  | _ => w

def letGo : App :=
  match w.threads i with
  | .signedOut => App.goes { w with cached := none } i .idle
  | _ => w

end App

/-- What may happen next. -/
inductive Move where
  | tick (seconds : ℕ)
  | start (i : ℕ) (caller : Caller)
  | look (i : ℕ)
  | lookCached (i : ℕ)
  | readState (i : ℕ)
  | readToken (i : ℕ)
  | install (i : ℕ)
  | expire (i : ℕ)
  | refresh (i : ℕ) (stale : Option Text)
  | answer (i : ℕ) (a : Answer)
  | logout (i : ℕ)
  | finish (i : ℕ)
  | endSession (i : ℕ)
  | drop (i : ℕ)
  | signIn (i : ℕ) (server email access : Text) (renews : Bool) (expiresIn : Option ℕ)
  | join (i : ℕ)
  | startSyncing (i : ℕ)
  | signOut (i : ℕ)
  | leave (i : ℕ)
  | letGo (i : ℕ)
deriving DecidableEq

/-- One section of one thread; a move that does not fit does nothing. -/
def step (w : App) : Move → App
  | .tick seconds => { w with clock := w.clock + seconds }
  | .start i caller => w.start i caller
  | .look i => w.look i
  | .lookCached i => w.lookCached i
  | .readState i => w.readState i
  | .readToken i => w.readToken i
  | .install i => w.install i
  | .expire i => w.expire i
  | .refresh i stale => w.refresh i stale
  | .answer i a => w.answer i a
  | .logout i => w.logout i
  | .finish i => w.finish i
  | .endSession i => w.endSession i
  | .drop i => w.drop i
  | .signIn i server email access renews expiresIn => w.signIn i server email access renews expiresIn
  | .join i => w.join i
  | .startSyncing i => w.startSyncing i
  | .signOut i => w.signOut i
  | .leave i => w.leave i
  | .letGo i => w.letGo i

/-- The app at its start, with whatever an earlier run of it kept. -/
structure Launched (w : App) : Prop where
  cached : w.cached = none
  conns : ∀ c, (w.conns c).tokens = none
  threads : ∀ i, w.threads i = .idle
  log : w.log = []
  inactive : w.row.active = false → w.row.refreshToken = none
  issuer : ∀ t, w.row.refreshToken = some t →
    w.row.serverUrl = some t.server ∧ w.row.email = some t.email ∧ t.number < w.issued

end LockSessions

end UwuRdp
