import UwuRdp.App.Apart

/-!
# Runs of UwULock sessions

What sessions owe each other over a whole run, in any order of the sections: the token kept is of
the server and the account kept beside it, a session that ends takes no other one along, signing out
leaves nothing, and no token is presented twice without need.
-/

namespace UwuRdp

open Lib Lib.Steps

namespace LockSessions

variable {w : App} {i : ℕ} {m : Move} {moves : List Move}

/-! ## Signing out -/

def Out (w : App) : Prop := w.row.active = false ∧ w.row.refreshToken = none

theorem Out.row_eq {w' : App} (h : Out w) (hrow : w'.row = w.row) : Out w' := by
  unfold Out
  rw [hrow]
  exact h

theorem row_released (w : App) (caller : Caller) : (w.released caller).row = w.row := by
  cases caller <;> rfl

theorem row_signInNeeded (w : App) (i : ℕ) (work : Work) : (w.signInNeeded i work).row = w.row := by
  cases work with
  | use caller conn => exact row_released w caller
  | signingIn email conn => rfl

theorem out_step (h : Out w) (hm : ∀ j, m ≠ .join j) : Out (step w m) := by
  cases m with
  | tick seconds => exact h
  | join j => exact absurd rfl (hm j)
  | start j caller =>
    refine h.row_eq ?_
    show (w.start j caller).row = _
    unfold App.start
    split
    · split <;> rfl
    · rfl
  | look j =>
    refine h.row_eq ?_
    show (w.look j).row = _
    unfold App.look
    split
    · split
      · rfl
      · exact row_released w _
    · rfl
  | lookCached j =>
    refine h.row_eq ?_
    show (w.lookCached j).row = _
    unfold App.lookCached
    split
    · split <;> rfl
    · rfl
  | readState j =>
    refine h.row_eq ?_
    show (w.readState j).row = _
    unfold App.readState
    split
    · split
      · rfl
      · exact row_released w _
    · rfl
  | readToken j =>
    refine h.row_eq ?_
    show (w.readToken j).row = _
    unfold App.readToken
    split
    · split
      · rfl
      · exact row_released w _
    · rfl
  | install j =>
    refine h.row_eq ?_
    show (w.install j).row = _
    unfold App.install
    split <;> rfl
  | expire j =>
    refine h.row_eq ?_
    show (w.expire j).row = _
    unfold App.expire
    split <;> rfl
  | refresh j stale =>
    refine h.row_eq ?_
    show (w.refresh j stale).row = _
    unfold App.refresh
    split
    · dsimp only
      split
      · rfl
      · split
        · exact row_signInNeeded w j _
        · rfl
        · rfl
    · rfl
  | answer j a =>
    refine h.row_eq ?_
    show (w.answer j a).row = _
    unfold App.answer
    split
    · next work k _ =>
      cases a with
      | granted access renews expiresIn =>
        show App.keep _ _ _ = w.row
        unfold App.keep
        split
        · split
          · exact LockRow.keepRefreshToken_of_inactive h.1 _
          · rfl
        · rfl
      | refused => exact row_signInNeeded _ j work
      | lost | switchedOff | failed => rfl
    · rfl
  | logout j =>
    refine h.row_eq ?_
    show (w.logout j).row = _
    unfold App.logout
    split <;> rfl
  | finish j =>
    refine h.row_eq ?_
    show (w.finish j).row = _
    unfold App.finish
    split
    · exact row_released w _
    · rfl
    · rfl
    · rfl
  | endSession j =>
    show Out (w.endSession j)
    unfold App.endSession
    split
    · exact ⟨h.1, rfl⟩
    · exact h
  | drop j =>
    refine h.row_eq ?_
    show (w.drop j).row = _
    unfold App.drop
    split <;> rfl
  | signIn j server email access renews expiresIn =>
    refine h.row_eq ?_
    show (w.signIn j server email access renews expiresIn).row = _
    unfold App.signIn
    split <;> rfl
  | startSyncing j =>
    refine h.row_eq ?_
    show (w.startSyncing j).row = _
    unfold App.startSyncing
    split <;> rfl
  | signOut j =>
    refine h.row_eq ?_
    show (w.signOut j).row = _
    unfold App.signOut
    split
    · split <;> rfl
    · rfl
  | leave j =>
    show Out (w.leave j)
    unfold App.leave
    split
    · exact ⟨rfl, rfl⟩
    · exact h
  | letGo j =>
    refine h.row_eq ?_
    show (w.letGo j).row = _
    unfold App.letGo
    split <;> rfl

theorem out_run (h : Out w) (hm : ∀ j, .join j ∉ moves) : Out (run step w moves) := by
  induction moves generalizing w with
  | nil => exact h
  | cons m moves ih =>
    exact ih (out_step h fun j hj => hm j (hj ▸ List.mem_cons_self)) fun j hj => hm j (List.mem_cons_of_mem _ hj)

/-! ## The end of a session -/

/-- The connection of a session is not the one there is now: it was replaced or dropped, or the row
is another sign-in's. -/
def Replaced (w : App) (own : Option ℕ) : Prop :=
  own = none ∨ w.cached ≠ own ∨ ∃ c, own = some c ∧ (w.conns c).session ≠ w.session

/-- A session that ends on a connection that was since replaced or dropped leaves the row and the
cache alone. -/
def EndsAlone (w : App) : Move → Prop
  | .endSession i => ∀ own, w.threads i = .ending own → Replaced w own →
      (step w (.endSession i)).row = w.row
  | .drop i => ∀ own, w.threads i = .dropping own → w.cached ≠ own →
      (step w (.drop i)).cached = w.cached
  | _ => True

theorem endsAlone (h : Sound w) (hu : Undisturbed w m) : EndsAlone w m := by
  cases m with
  | endSession i =>
    intro own hi hreplaced
    have hrow : (step w (.endSession i)).row = w.row.endSession := by
      show (w.endSession i).row = _
      unfold App.endSession
      rw [hi]
      rfl
    rw [hrow]
    rcases hu own hi with hnone | ⟨hown, hcached, hpending⟩
    · unfold LockRow.endSession
      rw [← hnone]
    · rcases hreplaced with hn | hne | ⟨c, hc, hs⟩
      · exact absurd hn hown
      · exact absurd hcached hne
      · exact absurd ((h.cached c (hcached.trans hc)).2 hpending) hs
  | drop i =>
    intro own hi hne
    have hcached : (step w (.drop i)).cached = none := by
      show (w.drop i).cached = _
      unfold App.drop
      rw [hi]
      rfl
    rcases hu own hi with hnone | ⟨hown, -⟩
    · rw [hcached, hnone]
    · exact absurd hown hne
  | _ => trivial

/-! ## Whole runs -/

/-- What sessions owe each other along a run. -/
structure SessionsApart (w : App) (moves : List Move) : Prop where
  /-- The token kept was issued by the server and for the account kept beside it. -/
  kept : ∀ first later, moves = first ++ later → ∀ t, (run step w first).row.refreshToken = some t →
    (run step w first).row.serverUrl = some t.server ∧ (run step w first).row.email = some t.email
  /-- No token goes to a server that did not issue it. -/
  presented : ∀ p ∈ (run step w moves).log, p.server = p.token.server
  ends : ∀ first m later, moves = first ++ m :: later → EndsAlone (run step w first) m
  signedOut : ∀ first i between later, moves = first ++ .leave i :: (between ++ later) →
    (run step w first).threads i = .signingOut → (∀ j, .join j ∉ between) →
      (run step w (first ++ .leave i :: between)).row.refreshToken = none
  /-- A token that is presented again was on its way before with an answer that was lost, refused or
  brought no new one. -/
  once : (run step w moves).log.Pairwise fun p q => p.token = q.token → p.Settled

/-- As long as nothing disturbs them, UwULock sessions do not interfere. -/
theorem sessions_apart (w : App) (moves : List Move) (hw : Launched w)
    (hu : Along step Undisturbed w moves) : SessionsApart w moves := by
  have hsound : ∀ {moves}, Along step Undisturbed w moves → Sound (run step w moves) := fun hu =>
    hu.invariant (sound_of_launched hw) fun w m hs hm => sound_step hs m hm
  constructor
  case kept =>
    rintro first later rfl t ht
    exact ((hsound hu.before).row t ht).2.2
  case presented => exact fun p hp => ((hsound hu).log p hp).1
  case ends =>
    rintro first m later rfl
    exact endsAlone (hsound hu.before) hu.at
  case signedOut =>
    rintro first i between later rfl hi hjoin
    rw [run_append, run_cons]
    refine (out_run ?_ hjoin).2
    show Out (App.leave _ i)
    unfold App.leave
    rw [hi]
    exact ⟨rfl, rfl⟩
  case once => exact (hsound hu).once

/-! ## Runs of two sessions -/

/-- An app that starts with this row, and nothing going on. -/
def launched (row : LockRow RefreshToken) (issued : ℕ) : App where
  row := row
  cached := none
  running := false
  clock := 0
  made := 0
  conns _ := ⟨[], none, false, false, none⟩
  threads _ := .idle
  issued := issued
  session := none
  log := []

def newApp : App := launched ⟨false, none, none, none⟩ 0

theorem launched_newApp : Launched newApp := by
  constructor <;> intros <;> first | rfl | contradiction

def restarted : App :=
  launched ⟨true, some ['a'], some ['u'], some ⟨['a'], ['u'], 0⟩⟩ 1

theorem launched_restarted : Launched restarted := by
  constructor
  case inactive => exact fun h => by cases h
  case issuer =>
    intro t ht
    cases ht
    exact ⟨rfl, rfl, Nat.zero_lt_one⟩
  all_goals intros; rfl

def signsIn (server email : Text) : List Move :=
  [.signIn 0 server email ['t'] true none, .join 0, .startSyncing 0]

def signsOut : List Move := [.signOut 0, .leave 0, .letGo 0]

/-- A pass or the realtime channel finds the cached connection. -/
def connects (i : ℕ) (caller : Caller) : List Move := [.start i caller, .look i, .lookCached i]

def makesOne (i : ℕ) : List Move := [.readState i, .readToken i, .install i]

/-- One sign-in, a pass that refreshes, and the sign-out. -/
def oneSession : List Move :=
  signsIn ['a'] ['u'] ++ connects 1 .pass ++
    [.tick 4000, .refresh 1 none, .answer 1 (.granted ['t'] true none), .finish 1] ++ signsOut

theorem sessions_apart_oneSession : SessionsApart newApp oneSession := by
  refine sessions_apart newApp oneSession launched_newApp ⟨trivial, ?_, trivial, trivial, trivial,
    ?_, trivial, trivial, ?_, trivial, trivial, trivial, fun _ => .inr (.inl rfl), trivial⟩
  · intro email c _
    have hthreads : ∀ j, (step newApp (.signIn 0 ['a'] ['u'] ['t'] true none)).threads j =
        if j = 0 then .working (.signingIn ['u'] 0) else .idle := fun j => Function.update_apply ..
    constructor
    · rintro ⟨j, hj⟩
      rw [hthreads] at hj
      split at hj <;> cases hj
    · rintro ⟨j, d, hj⟩
      rw [hthreads] at hj
      split at hj <;> cases hj
  · intro caller hcaller hcached
    cases hcached
  · intro work k hwork _ _
    refine ⟨.inl (Option.some_ne_none 0), fun t ht => ?_⟩
    obtain rfl : Work.use .pass 0 = work := (Thread.waiting.inj hwork).1
    obtain rfl : (⟨['a'], ['u'], 0⟩ : RefreshToken) = t := Option.some.inj ht
    exact ⟨rfl, rfl⟩

/-- A refresh is under way while the person signs in to another server; its answer comes while that
session ends, and the next connection is made from the row. -/
def overtaken : List Move :=
  signsIn ['a'] ['u'] ++ connects 1 .pass ++ [.tick 4000, .refresh 1 none] ++ signsOut ++
    signsIn ['b'] ['v'] ++ connects 2 .listen ++
    [.logout 2, .endSession 2, .answer 1 (.granted ['t'] true none), .drop 2] ++
    connects 2 .listen ++ makesOne 2 ++ [.refresh 2 none]

/-- The realtime channel hears of the end of its session once the person has signed in anew. -/
def outlived : List Move :=
  signsIn ['a'] ['u'] ++ connects 1 .listen ++ signsOut ++ signsIn ['b'] ['v'] ++ [.logout 1]

/-- A pass and the realtime channel both make the connection. -/
def bothConnect : List Move :=
  connects 1 .pass ++ connects 2 .listen ++ makesOne 1 ++ makesOne 2 ++
    [.refresh 1 none, .refresh 2 none]

/-- A token goes to a server that did not issue it, a session takes the next one along, and one token
is presented twice at once. -/
theorem token_at_another_server : (Launched newApp ∧ ¬SessionsApart newApp overtaken) ∧
    (Launched newApp ∧ ¬SessionsApart newApp (outlived ++ [.endSession 1])) ∧
    (Launched restarted ∧ ¬SessionsApart restarted bothConnect) := by
  refine ⟨⟨launched_newApp, fun h => ?_⟩, ⟨launched_newApp, fun h => ?_⟩, launched_restarted, fun h => ?_⟩
  · have hlog : (⟨['b'], ⟨['a'], ['u'], 2⟩, none⟩ : Presentation) ∈ (run step newApp overtaken).log := by
      decide +kernel
    exact absurd (h.presented _ hlog) (by decide)
  · have hreplaced : Replaced (run step newApp outlived) (some 0) := .inr (.inl (by decide +kernel))
    have hrow := h.ends outlived (.endSession 1) [] rfl (some 0) (by decide +kernel) hreplaced
    exact absurd (congrArg LockRow.refreshToken hrow) (by decide +kernel)
  · have hlog : (run step restarted bothConnect).log =
        [⟨['a'], ⟨['a'], ['u'], 0⟩, none⟩, ⟨['a'], ⟨['a'], ['u'], 0⟩, none⟩] := by decide +kernel
    have honce := h.once
    rw [hlog] at honce
    obtain ⟨a, ha, -⟩ := List.rel_of_pairwise_cons honce (List.mem_singleton_self _) rfl
    cases ha

end LockSessions

end UwuRdp
