import UwuRdp.App.Sessions

/-!
# When UwULock sessions keep apart

All sessions share one row and one cached connection, and neither says whose it is. What a refresh
brings, the end of a session and a connection made from the row are taken for those of the session
there is now. So the sessions keep apart as long as no other one comes between: `Undisturbed` says
which sections that is about, and `token_at_another_server` what happens without it.
-/

namespace UwuRdp

open Lib

namespace LockSessions

variable {w w' : App} {i j c d : ℕ} {t : RefreshToken} {thread : Thread}

/-! ## Whose a token is -/

def Holds (w : App) (c : ℕ) (t : RefreshToken) : Prop := (w.conns c).refreshToken = some t

/-- A token on its way to a server, or one that brought another. -/
def Spent (w : App) (t : RefreshToken) : Prop := ∃ p ∈ w.log, p.token = t ∧ ¬p.Settled

/-- A token in nobody's hands that a server would still take. -/
def Free (w : App) (t : RefreshToken) : Prop :=
  t.number < w.issued ∧ (∀ c, ¬Holds w c t) ∧ ¬Spent w t

/-- A sign-in has joined its space and its connection is not yet in use. -/
def Pending (w : App) : Prop := ∃ i c, w.threads i = .joined c

def Held (w : App) : Prop := w.cached ≠ none ∨ Pending w

/-- `connection` is between its sections. -/
def Thread.connecting : Thread → Bool
  | uncached _ | reached _ _ | ready _ _ _ _ => true
  | _ => false

def Connecting (w : App) : Prop := ∃ i, (w.threads i).connecting = true

/-! ## Undisturbed sections -/

/-- What no other section may come between: the sections of `connection`, the two ends of a
sign-in, and a session and its keeper or its end. -/
def Undisturbed (w : App) : Move → Prop
  | .lookCached i => ∀ caller, w.threads i = .opening caller → w.cached = none →
      ¬Connecting w ∧ ¬Pending w
  | .join i => ∀ email c, w.threads i = .working (.signingIn email c) → ¬Connecting w ∧ ¬Pending w
  | .answer i (.granted _ _ _) => ∀ work k, w.threads i = .waiting work k →
      (w.conns work.conn).keeps = true → w.row.active = true →
        Held w ∧ ∀ t, Holds w work.conn t →
          w.row.serverUrl = some t.server ∧ w.row.email = some t.email
  | .endSession i => ∀ own, w.threads i = .ending own →
      w.row.refreshToken = none ∨ (own ≠ none ∧ w.cached = own ∧ ¬Pending w)
  | .drop i => ∀ own, w.threads i = .dropping own →
      w.cached = none ∨ (w.cached = own ∧ (w.row.refreshToken = none ∨ Pending w))
  | .letGo i => w.threads i = .signedOut →
      w.cached = none ∨ w.row.refreshToken = none ∨ Pending w
  | _ => True

/-! ## What holds of a state -/

def Work.Fits (w : App) : Work → Prop
  | .use _ c => c < w.made
  | .signingIn email c => c < w.made ∧ (w.conns c).session = some c ∧
      ∀ t, Holds w c t → t.email = email

def Thread.Fits (w : App) : Thread → Prop
  | uncached _ => w.cached = none
  | reached _ server => w.cached = none ∧ w.row.serverUrl = some server
  | ready _ t server session => w.cached = none ∧ t.server = server ∧ Free w t ∧ session = w.session
  | working work => work.Fits w
  | waiting work k => work.Fits w ∧ (w.conns work.conn).refreshing = true ∧
      ∃ p, w.log[k]? = some p ∧ p.answer = none ∧ Holds w work.conn p.token
  | joined c => c < w.made ∧ w.session = some c ∧ (w.conns c).session = some c
  | _ => True

/-- The section of a thread that no other thread may be in at the same time. -/
inductive Thread.Excludes : Thread → Thread → Prop where
  | connecting {t u : Thread} (ht : t.connecting = true) (hu : u.connecting = true) : Excludes t u
  | joining {t : Thread} (ht : t.connecting = true) (c : ℕ) : Excludes t (joined c)
  | joined {t : Thread} (ht : t.connecting = true) (c : ℕ) : Excludes (joined c) t
  | both (c d : ℕ) : Excludes (joined c) (joined d)
  | refreshing (work work' : Work) (k l : ℕ) (h : work.conn = work'.conn) :
      Excludes (waiting work k) (waiting work' l)

variable {u : Thread} {work : Work} {conn : Connection}

theorem Thread.Excludes.symm {t : Thread} (h : t.Excludes u) : u.Excludes t := by
  cases h with
  | connecting ht hu => exact .connecting hu ht
  | joining ht c => exact .joined ht c
  | joined ht c => exact .joining ht c
  | both c d => exact .both d c
  | refreshing work work' k l h => exact .refreshing work' work l k h.symm

/-- Sessions are apart. -/
structure Sound (w : App) : Prop where
  row : ∀ t, w.row.refreshToken = some t → w.row.active = true ∧ t.number < w.issued ∧
    w.row.serverUrl = some t.server ∧ w.row.email = some t.email
  conns : ∀ c t, Holds w c t → t.server = (w.conns c).server ∧ t.number < w.issued ∧
    ((w.conns c).refreshing = false → ¬Spent w t)
  own : ∀ c d t, Holds w c t → Holds w d t → c = d
  kept : ¬Held w → ∀ t, w.row.refreshToken = some t → Free w t
  cached : ∀ c, w.cached = some c → c < w.made ∧ (¬Pending w → (w.conns c).session = w.session)
  threads : ∀ i, (w.threads i).Fits w
  alone : ∀ i j, i ≠ j → ¬(w.threads i).Excludes (w.threads j)
  log : ∀ p ∈ w.log, p.server = p.token.server ∧ p.token.number < w.issued
  once : w.log.Pairwise fun p q => p.token = q.token → p.Settled

theorem sound_of_launched (h : Launched w) : Sound w where
  row t ht := by
    obtain ⟨hserver, hemail, hissued⟩ := h.issuer t ht
    refine ⟨?_, hissued, hserver, hemail⟩
    cases hactive : w.row.active with
    | true => rfl
    | false =>
      rw [h.inactive hactive] at ht
      cases ht
  conns c t ht := by
    unfold Holds Connection.refreshToken at ht
    rw [h.conns c] at ht
    cases ht
  own c d t ht := by
    unfold Holds Connection.refreshToken at ht
    rw [h.conns c] at ht
    cases ht
  kept _ t ht := by
    refine ⟨(h.issuer t ht).2.2, fun c hc => ?_, ?_⟩
    · unfold Holds Connection.refreshToken at hc
      rw [h.conns c] at hc
      cases hc
    · rintro ⟨p, hp, -⟩
      rw [h.log] at hp
      cases hp
  cached c hc := by
    rw [h.cached] at hc
    cases hc
  threads i := by
    rw [h.threads i]
    trivial
  alone i j _ hex := by
    rw [h.threads i, h.threads j] at hex
    cases hex with
    | connecting ht => cases ht
  log p hp := by
    rw [h.log] at hp
    cases hp
  once := by
    rw [h.log]
    exact .nil

/-! ## A thread goes on -/

def Thread.apart : Thread → Bool
  | uncached _ | reached _ _ | ready _ _ _ _ | waiting _ _ | joined _ => false
  | _ => true

theorem not_excludes_of_apart (h : thread.apart = true) (u : Thread) : ¬thread.Excludes u := by
  intro hex
  cases hex with
  | connecting ht | joining ht =>
    cases thread with
    | uncached | reached | ready => cases h
    | _ => cases ht
  | joined | both | refreshing => cases h

theorem not_joined_of_apart (h : thread.apart = true) (c : ℕ) : thread ≠ .joined c := by
  rintro rfl
  cases h

theorem Free.mono (h : Free w t) (hissued : w.issued ≤ w'.issued)
    (hheld : ∀ c, Holds w' c t → Holds w c t) (hspent : Spent w' t → Spent w t) : Free w' t :=
  ⟨h.1.trans_le hissued, fun c hc => h.2.1 c (hheld c hc), fun hs => h.2.2 (hspent hs)⟩

theorem fits_goes : u.Fits (w.goes i thread) ↔ u.Fits w := by cases u <;> exact Iff.rfl

theorem threads_goes (w : App) (i : ℕ) (thread : Thread) (j : ℕ) :
    (w.goes i thread).threads j = if j = i then thread else w.threads j :=
  Function.update_apply ..

theorem pending_goes (hold : ∀ c, w.threads i ≠ .joined c) (hnew : ∀ c, thread ≠ .joined c) :
    Pending (w.goes i thread) ↔ Pending w := by
  constructor
  · rintro ⟨j, c, hj⟩
    rw [threads_goes] at hj
    split at hj
    · exact absurd hj (hnew c)
    · exact ⟨j, c, hj⟩
  · rintro ⟨j, c, hj⟩
    refine ⟨j, c, ?_⟩
    rw [threads_goes]
    split
    · next hji => exact absurd (hji ▸ hj) (hold c)
    · exact hj

theorem Sound.goes (h : Sound w) (hold : ∀ c, w.threads i ≠ .joined c)
    (hnew : ∀ c, thread ≠ .joined c) (hfits : thread.Fits w)
    (halone : ∀ j, j ≠ i → ¬thread.Excludes (w.threads j)) : Sound (w.goes i thread) where
  row := h.row
  conns := h.conns
  own := h.own
  kept hheld := h.kept fun hw => hheld (hw.imp_right (pending_goes hold hnew).mpr)
  cached c hc := ⟨(h.cached c hc).1, fun hp => (h.cached c hc).2 ((pending_goes hold hnew).not.mp hp)⟩
  threads j := by
    rw [fits_goes, threads_goes]
    split
    · exact hfits
    · exact h.threads j
  alone j k hjk := by
    rw [threads_goes, threads_goes]
    split
    · next hj =>
      rw [if_neg fun hk => hjk (hj.trans hk.symm)]
      exact halone k fun hk => hjk (hj.trans hk.symm)
    · next hj =>
      split
      · next hk => exact fun hex => halone j hj hex.symm
      · exact h.alone j k hjk
  log := h.log
  once := h.once

theorem Sound.goes_apart (h : Sound w) (hold : ∀ c, w.threads i ≠ .joined c)
    (hapart : thread.apart = true) (hfits : thread.Fits w) : Sound (w.goes i thread) :=
  h.goes hold (not_joined_of_apart hapart) hfits fun _ _ => not_excludes_of_apart hapart _

theorem Sound.goes_connecting (h : Sound w) (hold : (w.threads i).connecting = true)
    (hnew : thread.connecting = true) (hfits : thread.Fits w) : Sound (w.goes i thread) := by
  refine h.goes ?_ ?_ hfits fun j hji hex => h.alone i j hji.symm ?_
  · intro c hc
    rw [hc] at hold
    cases hold
  · rintro c rfl
    cases hnew
  · generalize w.threads j = u at hex
    cases hex with
    | connecting _ hu => exact .connecting hold hu
    | joining _ c => exact .joining hold c
    | joined | both | refreshing => cases hnew

theorem Sound.unrelated (h : Sound w) (running : Bool) (clock : ℕ) :
    Sound { w with running := running, clock := clock } where
  row := h.row
  conns := h.conns
  own := h.own
  kept := h.kept
  cached := h.cached
  threads j := by
    have hfits := h.threads j
    generalize w.threads j = u at hfits ⊢
    cases u <;> exact hfits
  alone := h.alone
  log := h.log
  once := h.once

theorem Sound.released (h : Sound w) (caller : Caller) : Sound (w.released caller) := by
  cases caller with
  | pass => exact h.unrelated false w.clock
  | listen => exact h

theorem threads_released (w : App) (caller : Caller) : (w.released caller).threads = w.threads := by
  cases caller <;> rfl

/-! ### Sections that only look -/

section Kept

variable (h : Sound w)

include h

theorem sound_start (caller : Caller) : Sound (w.start i caller) := by
  unfold App.start
  split
  · next hi =>
    split
    · exact h
    · refine (h.unrelated _ w.clock).goes_apart (fun c hc => ?_) rfl trivial
      cases hi.symm.trans hc
  · exact h

theorem sound_look : Sound (w.look i) := by
  unfold App.look
  split
  · next caller hi =>
    have hold : ∀ c, w.threads i ≠ .joined c := fun c hc => by cases hi.symm.trans hc
    split
    · exact h.goes_apart hold rfl trivial
    · refine (h.released caller).goes_apart (fun c => ?_) rfl trivial
      rw [threads_released]
      exact hold c
  · exact h

theorem sound_lookCached (hu : Undisturbed w (.lookCached i)) : Sound (w.lookCached i) := by
  unfold App.lookCached
  split
  · next caller hi =>
    have hold : ∀ c, w.threads i ≠ .joined c := fun c hc => by cases hi.symm.trans hc
    split
    · next c hc => exact h.goes_apart hold rfl (h.cached c hc).1
    · next hc =>
      obtain ⟨hconnecting, hpending⟩ := hu caller hi hc
      refine h.goes hold (fun _ hj => by cases hj) hc fun j _ hex => ?_
      generalize hj : w.threads j = u at hex
      cases hex with
      | connecting _ hu => exact hconnecting ⟨j, hj ▸ hu⟩
      | joining _ c => exact hpending ⟨j, c, hj⟩
  · exact h

theorem sound_readState : Sound (w.readState i) := by
  unfold App.readState
  split
  · next caller hi =>
    have hcached : w.cached = none := by
      have hfits := h.threads i
      rw [hi] at hfits
      exact hfits
    split
    · next server _ hserver =>
      exact h.goes_connecting (by rw [hi]; rfl) rfl ⟨hcached, hserver⟩
    · refine (h.released caller).goes_apart (fun c hc => ?_) rfl trivial
      rw [threads_released] at hc
      cases hi.symm.trans hc
  · exact h

theorem not_held_of_connecting (hi : (w.threads i).connecting = true) (hcached : w.cached = none) : ¬Held w := by
  rintro (hc | ⟨j, c, hj⟩)
  · exact hc hcached
  · by_cases hji : j = i
    · rw [← hji, hj] at hi
      cases hi
    · exact h.alone i j (Ne.symm hji) (hj ▸ .joining hi c)

theorem sound_readToken : Sound (w.readToken i) := by
  unfold App.readToken
  split
  · next caller server hi =>
    have hconnecting : (w.threads i).connecting = true := by rw [hi]; rfl
    have hfits := h.threads i
    rw [hi] at hfits
    obtain ⟨hcached, hserver⟩ := hfits
    split
    · next token htoken =>
      have hissuer := (h.row token htoken).2.2.1
      rw [hserver] at hissuer
      exact h.goes_connecting hconnecting rfl ⟨hcached, (Option.some.inj hissuer).symm,
        h.kept (not_held_of_connecting h hconnecting hcached) token htoken, rfl⟩
    · refine (h.released caller).goes_apart (fun c hc => ?_) rfl trivial
      rw [threads_released] at hc
      cases hi.symm.trans hc
  · exact h

theorem sound_logout : Sound (w.logout i) := by
  unfold App.logout
  split
  · next conn hi => exact h.goes_apart (fun c hc => by cases hi.symm.trans hc) rfl trivial
  · exact h

theorem sound_finish : Sound (w.finish i) := by
  unfold App.finish
  split
  · next caller conn hi =>
    refine (h.released caller).goes_apart (fun c hc => ?_) rfl trivial
    rw [threads_released] at hc
    cases hi.symm.trans hc
  · next email conn hi => exact h.goes_apart (fun c hc => by cases hi.symm.trans hc) rfl trivial
  · next hi => exact h.goes_apart (fun c hc => by cases hi.symm.trans hc) rfl trivial
  · exact h

theorem sound_signOut : Sound (w.signOut i) := by
  unfold App.signOut
  split
  · next hi =>
    split
    · exact h.goes_apart (fun c hc => by cases hi.symm.trans hc) rfl trivial
    · exact h
  · exact h

theorem Sound.signInNeeded (hold : ∀ c, w.threads i ≠ .joined c) : Sound (w.signInNeeded i work) := by
  cases work with
  | use caller conn =>
    refine (h.released caller).goes_apart (fun c => ?_) rfl trivial
    rw [threads_released]
    exact hold c
  | signingIn email conn => exact h.goes_apart hold rfl trivial

end Kept

/-! ### Sections that change a connection, the row or the cache -/

theorem conns_onConn (w : App) (c : ℕ) (conn : Connection) (d : ℕ) :
    (w.onConn c conn).conns d = if d = c then conn else w.conns d :=
  Function.update_apply ..

/-- A connection with the tokens, the server and the session it has. -/
structure Alike (conn conn' : Connection) : Prop where
  token : conn'.refreshToken = conn.refreshToken
  server : conn'.server = conn.server
  refreshing : conn'.refreshing = conn.refreshing
  session : conn'.session = conn.session

theorem Alike.refl (conn : Connection) : Alike conn conn := ⟨rfl, rfl, rfl, rfl⟩

theorem alike_onConn (h : Alike (w.conns c) conn) (d : ℕ) : Alike (w.conns d) ((w.onConn c conn).conns d) := by
  rw [conns_onConn]
  split
  · next hd => exact hd ▸ h
  · exact .refl _

section Kept1

variable (h : Sound w)

include h

theorem Sound.onConn (hconn : Alike (w.conns c) conn) : Sound (w.onConn c conn) := by
  have halike := alike_onConn hconn
  have hholds : ∀ d t, Holds (w.onConn c conn) d t ↔ Holds w d t := fun d t => by
    unfold Holds
    rw [(halike d).token]
  have hfree : ∀ t, Free w t → Free (w.onConn c conn) t := fun t ht =>
    ht.mono le_rfl (fun d => (hholds d t).mp) id
  constructor
  case row => exact h.row
  case conns =>
    intro d t ht
    rw [(halike d).server, (halike d).refreshing]
    exact h.conns d t ((hholds d t).mp ht)
  case own => exact fun d e t hd he => h.own d e t ((hholds d t).mp hd) ((hholds e t).mp he)
  case kept => exact fun hheld t ht => hfree t (h.kept hheld t ht)
  case cached =>
    intro d hd
    rw [(halike d).session]
    exact h.cached d hd
  case threads =>
    intro j
    have hfits := h.threads j
    have hwork : ∀ work : Work, work.Fits w → work.Fits (w.onConn c conn) := fun work hf => by
      cases work with
      | use caller d => exact hf
      | signingIn email d =>
        refine ⟨hf.1, ?_, fun t ht => hf.2.2 t ((hholds d t).mp ht)⟩
        rw [(halike d).session]
        exact hf.2.1
    show (w.threads j).Fits _
    generalize w.threads j = u at hfits ⊢
    cases u with
    | working work => exact hwork work hfits
    | waiting work k =>
      obtain ⟨hf, hrefreshing, p, hp, hanswer, hpt⟩ := hfits
      refine ⟨hwork work hf, ?_, p, hp, hanswer, (hholds _ _).mpr hpt⟩
      rw [(halike _).refreshing]
      exact hrefreshing
    | ready caller t server session => exact ⟨hfits.1, hfits.2.1, hfree t hfits.2.2.1, hfits.2.2.2⟩
    | joined d =>
      refine ⟨hfits.1, hfits.2.1, ?_⟩
      rw [(halike d).session]
      exact hfits.2.2
    | _ => exact hfits
  case alone => exact h.alone
  case log => exact h.log
  case once => exact h.once

theorem sound_expire : Sound (w.expire i) := by
  unfold App.expire
  split
  · next work hi =>
    refine h.onConn ⟨?_, rfl, rfl, rfl⟩
    show (Option.map _ _).bind _ = Option.bind _ _
    rw [Option.bind_map]
    rfl
  · exact h

theorem Sound.forgets (row : LockRow RefreshToken) (htoken : row.refreshToken = none)
    (hserver : row.serverUrl = w.row.serverUrl) : Sound { w with row := row } where
  row t ht := by
    rw [show row.refreshToken = some t from ht] at htoken
    cases htoken
  conns := h.conns
  own := h.own
  kept _ t ht := by
    rw [show row.refreshToken = some t from ht] at htoken
    cases htoken
  cached := h.cached
  threads j := by
    have hfits := h.threads j
    generalize w.threads j = u at hfits ⊢
    cases u with
    | reached caller server => exact ⟨hfits.1, hserver.trans hfits.2⟩
    | _ => exact hfits
  alone := h.alone
  log := h.log
  once := h.once

theorem sound_endSession : Sound (w.endSession i) := by
  unfold App.endSession
  split
  · next own hi =>
    refine (h.forgets w.row.endSession rfl rfl).goes_apart (fun c hc => ?_) rfl trivial
    cases hi.symm.trans hc
  · exact h

theorem sound_leave : Sound (w.leave i) := by
  unfold App.leave
  split
  · next hi =>
    refine (h.forgets w.row.leave rfl rfl).goes_apart (fun c hc => ?_) rfl trivial
    cases hi.symm.trans hc
  · exact h

theorem Sound.uncaches (hfree : w.cached = none ∨ w.row.refreshToken = none ∨ Pending w) :
    Sound { w with cached := none } where
  row := h.row
  conns := h.conns
  own := h.own
  kept hheld t ht := by
    rcases hfree with hcached | hnone | hpending
    · exact h.kept (fun hw => hheld (hw.imp_left fun hc => absurd hcached hc)) t ht
    · cases hnone.symm.trans ht
    · exact absurd (.inr hpending) hheld
  cached c hc := by cases hc
  threads j := by
    have hfits := h.threads j
    generalize w.threads j = u at hfits ⊢
    cases u with
    | uncached => exact rfl
    | reached | ready => exact ⟨rfl, hfits.2⟩
    | _ => exact hfits
  alone := h.alone
  log := h.log
  once := h.once

theorem sound_drop (hu : Undisturbed w (.drop i)) : Sound (w.drop i) := by
  unfold App.drop
  split
  · next own hi =>
    refine (h.uncaches ((hu own hi).imp_right And.right)).goes_apart (fun c hc => ?_) rfl trivial
    cases hi.symm.trans hc
  · exact h

theorem sound_letGo (hu : Undisturbed w (.letGo i)) : Sound (w.letGo i) := by
  unfold App.letGo
  split
  · next hi =>
    refine (h.uncaches (hu hi)).goes_apart (fun c hc => ?_) rfl trivial
    cases hi.symm.trans hc
  · exact h

theorem Sound.inUse (hi : w.threads i = .joined c) :
    Sound (App.goes { w with cached := some c } i .idle) := by
  obtain ⟨hc, hsession, hconn⟩ : (Thread.joined c).Fits w := hi ▸ h.threads i
  -- No connection is being made meanwhile.
  have hnone : ∀ j, (w.threads j).connecting = false := fun j => by
    by_contra hj
    have hj := Bool.not_eq_false _ |>.mp hj
    have hij : i ≠ j := fun hij => by
      rw [← hij, hi] at hj
      cases hj
    exact h.alone i j hij (hi ▸ .joined hj c)
  constructor
  case row => exact h.row
  case conns => exact h.conns
  case own => exact h.own
  case kept => exact fun hheld => absurd (.inl (Option.some_ne_none c)) hheld
  case cached =>
    intro d hd
    cases hd
    exact ⟨hc, fun _ => hconn.trans hsession.symm⟩
  case threads =>
    intro j
    rw [fits_goes, threads_goes]
    split
    · trivial
    · have hfits := h.threads j
      have hj := hnone j
      generalize w.threads j = u at hfits hj ⊢
      cases u with
      | uncached | reached | ready => cases hj
      | _ => exact hfits
  case alone =>
    intro j k hjk
    rw [threads_goes, threads_goes]
    split
    · exact not_excludes_of_apart rfl _
    · split
      · exact fun hex => not_excludes_of_apart rfl _ hex.symm
      · exact h.alone j k hjk
  case log => exact h.log
  case once => exact h.once

theorem sound_startSyncing : Sound (w.startSyncing i) := by
  unfold App.startSyncing
  split
  · next c hi =>
    exact Sound.inUse (w := w.onConn c { w.conns c with keeps := true }) (h.onConn ⟨rfl, rfl, rfl, rfl⟩) hi
  · exact h

theorem spent_issued (ht : Spent w t) : t.number < w.issued := by
  obtain ⟨p, hp, rfl, -⟩ := ht
  exact (h.log p hp).2

theorem sound_join (hu : Undisturbed w (.join i)) : Sound (w.join i) := by
  unfold App.join
  split
  · next email c hi =>
    obtain ⟨hconnecting, hpending⟩ := hu email c hi
    obtain ⟨hc, hsession, hemail⟩ : (Thread.working (.signingIn email c)).Fits w := hi ▸ h.threads i
    have hnone : ∀ j, (w.threads j).connecting = false := fun j => by
      by_contra hj
      exact hconnecting ⟨j, Bool.not_eq_false _ |>.mp hj⟩
    have hpending' : Pending (w.join i) := ⟨i, c, by
      unfold App.join
      rw [hi]
      exact (threads_goes ..).trans (if_pos rfl)⟩
    unfold App.join at hpending'
    rw [hi] at hpending'
    constructor
    case row =>
      intro t ht
      have hholds : Holds w c t := ht
      obtain ⟨hserver, hissued, -⟩ := h.conns c t hholds
      exact ⟨rfl, hissued, by rw [hserver]; rfl, by rw [hemail t hholds]; rfl⟩
    case conns => exact h.conns
    case own => exact h.own
    case kept => exact fun hheld => absurd (.inr hpending') hheld
    case cached => exact fun d hd => ⟨(h.cached d hd).1, fun hp => absurd hpending' hp⟩
    case threads =>
      intro j
      rw [fits_goes, threads_goes]
      split
      · exact ⟨hc, rfl, hsession⟩
      · have hfits := h.threads j
        have hj := hnone j
        have hjoined : ∀ d, w.threads j ≠ .joined d := fun d hd => hpending ⟨j, d, hd⟩
        generalize w.threads j = u at hfits hj hjoined ⊢
        cases u with
        | uncached | reached | ready => cases hj
        | joined d => exact absurd rfl (hjoined d)
        | _ => exact hfits
    case alone =>
      have hexcludes : ∀ k, ¬(Thread.joined c).Excludes (w.threads k) := fun k hex => by
        have hk := hnone k
        have hjoined : ∀ d, w.threads k ≠ .joined d := fun d hd => hpending ⟨k, d, hd⟩
        generalize w.threads k = u at hk hjoined hex
        cases hex with
        | joining ht | connecting ht => cases ht
        | joined ht => cases hk.symm.trans ht
        | both _ d => exact hjoined d rfl
      intro j k hjk
      rw [threads_goes, threads_goes]
      split
      · next hj =>
        rw [if_neg fun hk => hjk (hj.trans hk.symm)]
        exact hexcludes k
      · split
        · exact fun hex => hexcludes j hex.symm
        · exact h.alone j k hjk
    case log => exact h.log
    case once => exact h.once
  · exact h

end Kept1

theorem conns_makes (w : App) (conn : Connection) (d : ℕ) :
    (w.makes conn).conns d = if d = w.made then conn else w.conns d :=
  conns_onConn w w.made conn d

theorem holds_makes (h : Holds (w.makes conn) d t) :
    d = w.made ∧ conn.refreshToken = some t ∨ d ≠ w.made ∧ Holds w d t := by
  unfold Holds at h
  rw [conns_makes] at h
  split at h
  · next hd => exact .inl ⟨hd, h⟩
  · next hd => exact .inr ⟨hd, h⟩

theorem Work.Fits.lt (h : work.Fits w) : work.conn < w.made := by
  cases work with
  | use caller c => exact h
  | signingIn email c => exact h.1

theorem Work.Fits.mono (h : work.Fits w) (hmade : w.made ≤ w'.made)
    (hconn : w'.conns work.conn = w.conns work.conn) : work.Fits w' := by
  cases work with
  | use caller c => exact h.trans_le hmade
  | signingIn email c =>
    have hconn : w'.conns c = w.conns c := hconn
    refine ⟨h.1.trans_le hmade, hconn ▸ h.2.1, fun t ht => h.2.2 t ?_⟩
    unfold Holds at ht ⊢
    rwa [hconn] at ht

theorem Thread.Fits.mono (h : u.Fits w) (hu : u.connecting = false)
    (hmade : w.made ≤ w'.made) (hsession : w'.session = w.session)
    (hconn : ∀ c, c < w.made → w'.conns c = w.conns c) (hlog : w'.log = w.log) : u.Fits w' := by
  cases u with
  | uncached | reached | ready => cases hu
  | working work => exact Work.Fits.mono h hmade (hconn _ (Work.Fits.lt h))
  | waiting work k =>
    obtain ⟨hwork, hrefreshing, p, hp, hanswer, ht⟩ := h
    have hsame := hconn _ hwork.lt
    refine ⟨hwork.mono hmade hsame, hsame ▸ hrefreshing, p, hlog ▸ hp, hanswer, ?_⟩
    unfold Holds at ht ⊢
    rwa [hsame]
  | joined c =>
    exact ⟨h.1.trans_le hmade, hsession.trans h.2.1, (hconn c h.1).symm ▸ h.2.2⟩
  | _ => trivial

/-- A connection is made, with a token nobody holds: a new one, or the one that is kept, and then it
goes to the cache while no other connection is being made. -/
theorem Sound.makes {conn : Connection} {cached : Option ℕ} {issued : ℕ} {work : Work} (h : Sound w)
    (hold : ∀ c, w.threads i ≠ .joined c) (hissued : w.issued ≤ issued)
    (hnew : ∀ t, conn.refreshToken = some t → t.server = conn.server ∧ t.number < issued ∧
      (∀ d, ¬Holds w d t) ∧ ¬Spent w t)
    (hcached : cached = w.cached ∧ (∀ t, conn.refreshToken = some t → ¬Free w t) ∨
      cached = some w.made ∧ conn.session = w.session ∧ ∀ j, j ≠ i → (w.threads j).connecting = false)
    (hwork : work.Fits (w.makes conn)) :
    Sound (App.goes { w.makes conn with cached := cached, issued := issued } i (.working work)) := by
  have hsame : ∀ d, d < w.made → (w.makes conn).conns d = w.conns d := fun d hd => by
    rw [conns_makes, if_neg (Nat.ne_of_lt hd)]
  have hpending : Pending (App.goes { w.makes conn with cached := cached, issued := issued } i
      (.working work)) ↔ Pending w := pending_goes (w := { w.makes conn with .. }) hold (by simp)
  constructor
  case row => exact fun t ht => ⟨(h.row t ht).1, (h.row t ht).2.1.trans_le hissued, (h.row t ht).2.2⟩
  case conns =>
    intro d t ht
    show t.server = ((w.makes conn).conns d).server ∧ t.number < issued ∧
      (((w.makes conn).conns d).refreshing = false → ¬Spent w t)
    rw [conns_makes]
    rcases holds_makes ht with ⟨hd, ht⟩ | ⟨hd, ht⟩
    · rw [if_pos hd]
      obtain ⟨hserver, hlt, -, hspent⟩ := hnew t ht
      exact ⟨hserver, hlt, fun _ => hspent⟩
    · rw [if_neg hd]
      obtain ⟨hserver, hlt, hspent⟩ := h.conns d t ht
      exact ⟨hserver, hlt.trans_le hissued, hspent⟩
  case own =>
    intro d e t hd he
    rcases holds_makes hd with ⟨hdm, hd⟩ | ⟨-, hd⟩
    · rcases holds_makes he with ⟨hem, -⟩ | ⟨-, he⟩
      · exact hdm.trans hem.symm
      · exact absurd he ((hnew t hd).2.2.1 e)
    · rcases holds_makes he with ⟨-, he⟩ | ⟨-, he⟩
      · exact absurd hd ((hnew t he).2.2.1 d)
      · exact h.own d e t hd he
  case kept =>
    intro hheld t ht
    rcases hcached with ⟨hc, hfree⟩ | ⟨hc, -, -⟩
    · have hkept := h.kept (fun hw => hheld ?_) t ht
      · refine hkept.mono hissued (fun d hd => ?_) id
        rcases holds_makes hd with ⟨-, ht⟩ | ⟨-, hd⟩
        · exact absurd hkept (hfree t ht)
        · exact hd
      · exact hw.imp (fun hne => hc ▸ hne) hpending.mpr
    · exact absurd (Or.inl (show cached ≠ none by rw [hc]; exact Option.some_ne_none _)) hheld
  case cached =>
    intro d hd
    rw [hpending]
    show d < w.made + 1 ∧ (¬Pending w → ((w.makes conn).conns d).session = w.session)
    have hd : cached = some d := hd
    rcases hcached with ⟨hc, -⟩ | ⟨hc, hsession, -⟩
    · obtain ⟨hlt, hs⟩ := h.cached d (hc.symm.trans hd)
      rw [hsame d hlt]
      exact ⟨Nat.lt_succ_of_lt hlt, hs⟩
    · obtain rfl : w.made = d := Option.some.inj (hc.symm.trans hd)
      rw [conns_makes, if_pos rfl]
      exact ⟨Nat.lt_succ_self _, fun _ => hsession⟩
  case threads =>
    intro j
    rw [fits_goes, threads_goes]
    split
    · exact hwork.mono le_rfl rfl
    · next hj =>
      have hfits : (w.threads j).Fits w := h.threads j
      cases hu : (w.threads j).connecting with
      | false => exact hfits.mono hu (Nat.le_succ _) rfl hsame rfl
      | true =>
        rcases hcached with ⟨hc, hfree⟩ | ⟨-, -, hnone⟩
        · show (w.threads j).Fits _
          generalize w.threads j = u at hfits hu ⊢
          cases u with
          | uncached => exact hc.trans hfits
          | reached => exact ⟨hc.trans hfits.1, hfits.2⟩
          | ready caller token server session =>
            refine ⟨hc.trans hfits.1, hfits.2.1, ?_, hfits.2.2.2⟩
            refine hfits.2.2.1.mono hissued (fun d hd => ?_) id
            rcases holds_makes hd with ⟨-, ht⟩ | ⟨-, hd⟩
            · exact absurd hfits.2.2.1 (hfree token ht)
            · exact hd
          | _ => cases hu
        · exact absurd hu (Bool.eq_false_iff.mp (hnone j hj))
  case alone =>
    intro j k hjk
    rw [threads_goes, threads_goes]
    split
    · exact not_excludes_of_apart rfl _
    · split
      · exact fun hex => not_excludes_of_apart rfl _ hex.symm
      · exact h.alone j k hjk
  case log => exact fun p hp => ⟨(h.log p hp).1, (h.log p hp).2.trans_le hissued⟩
  case once => exact h.once

theorem sound_install (h : Sound w) : Sound (w.install i) := by
  unfold App.install
  split
  · next caller token server session hi =>
    obtain ⟨hcached, hserver, hfree, hsession⟩ : (Thread.ready caller token server session).Fits w := hi ▸ h.threads i
    have hconnecting : (w.threads i).connecting = true := by rw [hi]; rfl
    refine h.makes (fun c hc => by cases hi.symm.trans hc) le_rfl (fun t ht => ?_)
      (.inr ⟨rfl, hsession, fun j hj => ?_⟩) (Nat.lt_succ_self _)
    · cases ht
      exact ⟨hserver, hfree⟩
    · by_contra hc
      exact h.alone i j hj.symm (.connecting hconnecting (Bool.not_eq_false _ |>.mp hc))
  · exact h

theorem newToken_eq_some {server email : Text} {renews : Bool}
    (h : w.newToken server email renews = some t) : t = ⟨server, email, w.issued⟩ ∧ renews = true := by
  unfold App.newToken at h
  split at h
  · next hr => exact ⟨(Option.some.inj h).symm, hr⟩
  · cases h

theorem Sound.unheld (h : Sound w) (ht : t.number = w.issued) : ¬Holds w c t ∧ ¬Spent w t ∧ ¬Free w t :=
  ⟨fun hc => absurd (h.conns c t hc).2.1 (by omega), fun hs => absurd (spent_issued h hs) (by omega),
    fun hf => absurd hf.1 (by omega)⟩

theorem sound_signIn (h : Sound w) (server email access : Text) (renews : Bool)
    (expiresIn : Option ℕ) : Sound (w.signIn i server email access renews expiresIn) := by
  unfold App.signIn
  split
  · next hi =>
    have hold : ∀ c, w.threads i ≠ .joined c := fun c hc => by cases hi.symm.trans hc
    let grant : Grant := ⟨access, w.newToken server email renews, expiresIn⟩
    let conn : Connection := ⟨server, some (Tokens.take w.clock none grant), false, false, some w.made⟩
    have htoken : ∀ t, conn.refreshToken = some t → t = ⟨server, email, w.issued⟩ := fun t ht => by
      have ht : (w.newToken server email renews).or none = some t := ht
      rw [Option.or_none] at ht
      exact (newToken_eq_some ht).1
    refine @LockSessions.Sound.makes _ _ conn _ _ _ h hold (Nat.le_succ _) (fun t ht => ?_)
      (.inl ⟨rfl, fun t ht => ?_⟩) ?_
    · obtain rfl := htoken t ht
      exact ⟨rfl, Nat.lt_succ_self _, fun d => (h.unheld rfl).1, (h.unheld (c := 0) rfl).2.1⟩
    · obtain rfl := htoken t ht
      exact (h.unheld (c := 0) rfl).2.2
    · refine ⟨Nat.lt_succ_self _, ?_, fun t ht => ?_⟩
      · rw [conns_makes, if_pos rfl]
      · rcases holds_makes ht with ⟨-, ht⟩ | ⟨hne, -⟩
        · rw [htoken t ht]
        · exact absurd rfl hne
  · exact h

/-! ### A refresh and its answer -/

theorem spent_append {p : Presentation} {w' : App} (hlog : w'.log = w.log ++ [p]) (h : Spent w' t) :
    Spent w t ∨ p.token = t := by
  obtain ⟨q, hq, rfl, hs⟩ := h
  rw [hlog, List.mem_append, List.mem_singleton] at hq
  rcases hq with hq | rfl
  · exact .inl ⟨q, hq, rfl, hs⟩
  · exact .inr rfl

theorem Sound.presents (h : Sound w) (hi : w.threads i = .working work)
    (hidle : (w.conns work.conn).refreshing = false) (ht : Holds w work.conn t) :
    Sound (App.goes { w.onConn work.conn { w.conns work.conn with refreshing := true } with
      log := w.log ++ [⟨(w.conns work.conn).server, t, none⟩] } i (.waiting work w.log.length)) := by
  obtain ⟨hserver, hissued, hspent⟩ := h.conns _ t ht
  have hspent := hspent hidle
  have hwork : work.Fits w := by
    have hfits := h.threads i
    rw [hi] at hfits
    exact hfits
  let conn : Connection := { w.conns work.conn with refreshing := true }
  let w₁ := w.onConn work.conn conn
  have hconns : ∀ d, w₁.conns d = if d = work.conn then conn else w.conns d := conns_onConn w work.conn conn
  have hsession : ∀ d, (w₁.conns d).session = (w.conns d).session := fun d => by
    rw [hconns]
    split
    · next hd => rw [hd]
    · rfl
  have hholds : ∀ d t', Holds w₁ d t' ↔ Holds w d t' := fun d t' => by
    unfold Holds
    rw [hconns]
    split
    · next hd => rw [hd]; rfl
    · exact Iff.rfl
  have hfree : ∀ t', Free w t' → t'.number < w.issued ∧ (∀ d, ¬Holds w₁ d t') ∧
      ¬Spent { w₁ with log := w.log ++ [⟨(w.conns work.conn).server, t, none⟩] } t' := fun t' hf => by
    refine ⟨hf.1, fun d => (hholds d t').not.mpr (hf.2.1 d), fun hs => ?_⟩
    rcases spent_append (w := w) rfl hs with hs | rfl
    · exact hf.2.2 hs
    · exact hf.2.1 _ ht
  have hfits' : ∀ work : Work, work.Fits w → work.Fits w₁ := fun work hf => by
    cases work with
    | use caller d => exact hf
    | signingIn email d =>
      exact ⟨hf.1, (hsession d).trans hf.2.1, fun t' ht' => hf.2.2 t' ((hholds d t').mp ht')⟩
  have hpending : Pending (App.goes { w₁ with log := w.log ++ [⟨(w.conns work.conn).server, t, none⟩] }
      i (.waiting work w.log.length)) ↔ Pending w :=
    pending_goes (w := { w₁ with .. }) (fun c hc => by cases hi.symm.trans hc) (by simp)
  -- No other thread waits for an answer on the same connection.
  have hothers : ∀ j work' k, w.threads j = .waiting work' k → work'.conn ≠ work.conn := fun j work' k hj hc => by
      have hfits := h.threads j
      rw [hj] at hfits
      have hrefreshing := hfits.2.1
      rw [hc, hidle] at hrefreshing
      cases hrefreshing
  constructor
  case row => exact h.row
  case conns =>
    intro d t' ht'
    have ht' := (hholds d t').mp ht'
    obtain ⟨hs, hlt, hsp⟩ := h.conns d t' ht'
    show t'.server = (w₁.conns d).server ∧ t'.number < w.issued ∧ ((w₁.conns d).refreshing = false → _)
    rw [hconns]
    split
    · next hd => exact ⟨hs.trans (hd ▸ rfl), hlt, fun hr => by cases hr⟩
    · next hd =>
      refine ⟨hs, hlt, fun hr hs' => ?_⟩
      rcases spent_append (w := w) rfl hs' with hs' | rfl
      · exact hsp hr hs'
      · exact hd (h.own _ _ _ ht' ht)
  case own => exact fun d e t' hd he => h.own d e t' ((hholds d t').mp hd) ((hholds e t').mp he)
  case kept =>
    exact fun hheld t' ht' => hfree t' (h.kept (fun hw => hheld (hw.imp_right hpending.mpr)) t' ht')
  case cached =>
    intro d hd
    rw [hpending]
    obtain ⟨hlt, hs⟩ := h.cached d hd
    exact ⟨hlt, fun hp => (hsession d).trans (hs hp)⟩
  case threads =>
    intro j
    rw [fits_goes, threads_goes]
    split
    · refine ⟨?_, ?_, ⟨(w.conns work.conn).server, t, none⟩, ?_, rfl, (hholds _ _).mpr ht⟩
      · have hf := hfits' work hwork
        cases work <;> exact hf
      · show (w₁.conns work.conn).refreshing = true
        rw [hconns, if_pos rfl]
      · exact List.getElem?_concat_length
    · have hfits := h.threads j
      have hother := hothers j
      show (w.threads j).Fits _
      generalize w.threads j = u at hfits hother ⊢
      cases u with
      | ready caller token server session =>
        exact ⟨hfits.1, hfits.2.1, hfree token hfits.2.2.1, hfits.2.2.2⟩
      | working work' =>
        have hf := hfits' work' hfits
        cases work' <;> exact hf
      | waiting work' k =>
        obtain ⟨hf, hrefreshing, p, hp, hanswer, hpt⟩ := hfits
        refine ⟨?_, ?_, p, ?_, hanswer, (hholds _ _).mpr hpt⟩
        · have hf := hfits' work' hf
          cases work' <;> exact hf
        · show (w₁.conns work'.conn).refreshing = true
          rw [hconns, if_neg (hother work' k rfl)]
          exact hrefreshing
        · exact (List.getElem?_append_left (List.getElem?_eq_some_iff.mp hp).1).trans hp
      | joined d => exact ⟨hfits.1, hfits.2.1, (hsession d).trans hfits.2.2⟩
      | _ => exact hfits
  case alone =>
    have hexcludes : ∀ j, ¬(Thread.waiting work w.log.length).Excludes (w.threads j) := fun j hex => by
      have hother := hothers j
      generalize w.threads j = u at hex hother
      cases hex with
      | connecting ht | joining ht => cases ht
      | refreshing _ work' _ k hc => exact hother work' k rfl hc.symm
    intro j k hjk
    rw [threads_goes, threads_goes]
    split
    · next hj =>
      rw [if_neg fun hk => hjk (hj.trans hk.symm)]
      exact hexcludes k
    · split
      · exact fun hex => hexcludes j hex.symm
      · exact h.alone j k hjk
  case log =>
    intro p hp
    rcases List.mem_append.mp hp with hp | hp
    · exact h.log p hp
    · obtain rfl := List.mem_singleton.mp hp
      exact ⟨hserver.symm, hissued⟩
  case once =>
    refine List.pairwise_append.mpr ⟨h.once, List.pairwise_singleton .., fun p hp q hq hpq => ?_⟩
    obtain rfl := List.mem_singleton.mp hq
    by_contra hs
    exact hspent ⟨p, hp, hpq, hs⟩

theorem sound_refresh (h : Sound w) (stale : Option Text) : Sound (w.refresh i stale) := by
  unfold App.refresh
  split
  · next work hi =>
    dsimp only
    split
    · exact h
    · next hidle =>
      split
      · exact h.signInNeeded fun c hc => by cases hi.symm.trans hc
      · exact h
      · next token htoken =>
        exact h.presents hi (Bool.eq_false_iff.mpr hidle) (Tokens.beginRefresh_present htoken)
  · exact h

theorem noted_get (w : App) (k : ℕ) (a : Answer) (l : ℕ) :
    (w.noted k a)[l]? = if k = l then w.log[l]?.map fun p => { p with answer := some a }
      else w.log[l]? := by
  unfold App.noted
  rw [List.getElem?_modify]
  split
  · rfl
  · exact Option.map_id'

section Answered

variable {k : ℕ} {p : Presentation} {a : Answer}

theorem mem_noted (hp : w.log[k]? = some p) {q : Presentation} (hq : q ∈ w.noted k a) :
    q = { p with answer := some a } ∨ ∃ l, l ≠ k ∧ w.log[l]? = some q := by
  obtain ⟨l, hl⟩ := List.mem_iff_getElem?.mp hq
  rw [noted_get] at hl
  split at hl
  · next hkl =>
    rw [← hkl, hp] at hl
    exact .inl (Option.some.inj hl).symm
  · next hkl => exact .inr ⟨l, fun h => hkl h.symm, hl⟩

theorem spent_of_noted (hp : w.log[k]? = some p) (hpending : p.answer = none)
    (h : ∃ q ∈ w.noted k a, q.token = t ∧ ¬q.Settled) : Spent w t := by
  obtain ⟨q, hq, rfl, hs⟩ := h
  rcases mem_noted hp hq with rfl | ⟨l, -, hl⟩
  · refine ⟨p, List.mem_of_getElem? hp, rfl, ?_⟩
    rintro ⟨b, hb, -⟩
    cases hpending.symm.trans hb
  · exact ⟨q, List.mem_of_getElem? hl, rfl, hs⟩

theorem settled_of_lt (h : Sound w) {l m : ℕ} {q r : Presentation} (hlm : l < m)
    (hq : w.log[l]? = some q) (hr : w.log[m]? = some r) (htoken : q.token = r.token) : q.Settled := by
  obtain ⟨hl, rfl⟩ := List.getElem?_eq_some_iff.mp hq
  obtain ⟨hm, rfl⟩ := List.getElem?_eq_some_iff.mp hr
  exact List.pairwise_iff_getElem.mp h.once l m hl hm hlm htoken

theorem unspent_noted (h : Sound w) (hp : w.log[k]? = some p) (hpending : p.answer = none)
    (ha : a.brings = false) : ¬∃ q ∈ w.noted k a, q.token = p.token ∧ ¬q.Settled := by
  have hnot : ¬p.Settled := by
    rintro ⟨b, hb, -⟩
    cases hpending.symm.trans hb
  rintro ⟨q, hq, hqp, hs⟩
  rcases mem_noted hp hq with rfl | ⟨l, hlk, hl⟩
  · exact hs ⟨a, rfl, ha⟩
  · rcases Nat.lt_or_gt_of_ne hlk with hlt | hgt
    · exact hs (settled_of_lt h hlt hl hp hqp)
    · exact hnot (settled_of_lt h hgt hp hl hqp.symm)

theorem once_noted (h : Sound w) (hp : w.log[k]? = some p) (hpending : p.answer = none) :
    (w.noted k a).Pairwise fun q r => q.token = r.token → q.Settled := by
  have hnot : ¬p.Settled := by
    rintro ⟨b, hb, -⟩
    cases hpending.symm.trans hb
  refine List.pairwise_iff_getElem.mpr fun l m hl hm hlm htoken => ?_
  have hl' := List.getElem?_eq_getElem hl
  have hm' := List.getElem?_eq_getElem hm
  generalize (w.noted k a)[l] = q at hl' htoken ⊢
  generalize (w.noted k a)[m] = r at hm' htoken
  rw [noted_get] at hl' hm'
  split at hl'
  · next hkl =>
    rw [if_neg (by omega)] at hm'
    rw [← hkl, hp] at hl'
    cases hl'
    exact absurd (settled_of_lt h (hkl ▸ hlm) hp hm' htoken) hnot
  · split at hm'
    · next hkm =>
      rw [← hkm, hp] at hm'
      cases hm'
      exact settled_of_lt h (hkm ▸ hlm) hl' hp htoken
    · exact settled_of_lt h hlm hl' hm' htoken

end Answered

/-- The answer to a refresh: the connection goes on with the token it has, unless the answer brings
another, with a new one of the same account, or with none. -/
theorem Sound.answered {work : Work} {k issued : ℕ} {conn : Connection} {a : Answer} (h : Sound w)
    (hi : w.threads i = .waiting work k) (hissued : w.issued ≤ issued)
    (hserver : conn.server = (w.conns work.conn).server)
    (hsession : conn.session = (w.conns work.conn).session)
    (htoken : ∀ t, conn.refreshToken = some t →
      (Holds w work.conn t ∧ a.brings = false) ∨
      (t.server = conn.server ∧ t.number = w.issued ∧ w.issued < issued ∧
        ∃ t', Holds w work.conn t' ∧ t.email = t'.email))
    (hapart : thread.apart = true) (hfits : ∀ w' : App, work.Fits w' → thread.Fits w') :
    Sound (App.goes { w.onConn work.conn conn with log := w.noted k a, issued := issued } i thread) := by
  obtain ⟨hwork, hrefreshing, p, hp, hanswer, hpt⟩ : (Thread.waiting work k).Fits w := hi ▸ h.threads i
  let w₁ : App := { w.onConn work.conn conn with log := w.noted k a, issued := issued }
  have hconns : ∀ d, w₁.conns d = if d = work.conn then conn else w.conns d := conns_onConn w work.conn conn
  have hspent : ∀ t, Spent w₁ t → Spent w t := fun t => spent_of_noted hp hanswer
  have hholds : ∀ d t, Holds w₁ d t →
      d = work.conn ∧ conn.refreshToken = some t ∨ d ≠ work.conn ∧ Holds w d t := fun d t ht => by
    unfold Holds at ht
    rw [hconns] at ht
    split at ht
    · next hd => exact .inl ⟨hd, ht⟩
    · next hd => exact .inr ⟨hd, ht⟩
  have hsessions : ∀ d, (w₁.conns d).session = (w.conns d).session := fun d => by
    rw [hconns]
    split
    · next hd => rw [hd, hsession]
    · rfl
  -- What the connection holds now, nobody else holds, and it was never free.
  have hown : ∀ t, conn.refreshToken = some t → (∀ d, Holds w d t → d = work.conn) ∧ ¬Free w t := fun t ht => by
      rcases htoken t ht with ⟨hc, -⟩ | ⟨-, hn, -, -⟩
      · exact ⟨fun d hd => h.own _ _ _ hd hc, fun hf => hf.2.1 _ hc⟩
      · exact ⟨fun d hd => absurd hd (h.unheld hn).1, (h.unheld (c := 0) hn).2.2⟩
  have hfree : ∀ t, Free w t → Free w₁ t := fun t hf => by
    refine hf.mono hissued (fun d hd => ?_) (hspent t)
    rcases hholds d t hd with ⟨-, ht⟩ | ⟨-, hd⟩
    · exact absurd hf (hown t ht).2
    · exact hd
  have hworks : ∀ work' : Work, work'.Fits w → work'.Fits w₁ := fun work' hf => by
    cases work' with
    | use caller d => exact hf
    | signingIn email d =>
      refine ⟨hf.1, (hsessions d).trans hf.2.1, fun t ht => ?_⟩
      rcases hholds d t ht with ⟨hd, ht⟩ | ⟨-, ht⟩
      · rcases htoken t ht with ⟨ht, -⟩ | ⟨-, -, -, t', ht', hemail⟩
        · exact hf.2.2 t (hd ▸ ht)
        · exact hemail.trans (hf.2.2 t' (hd ▸ ht'))
      · exact hf.2.2 t ht
  have hpending : Pending (w₁.goes i thread) ↔ Pending w :=
    pending_goes (w := w₁) (fun c hc => by cases hi.symm.trans hc) (not_joined_of_apart hapart)
  constructor
  case row => exact fun t ht => ⟨(h.row t ht).1, (h.row t ht).2.1.trans_le hissued, (h.row t ht).2.2⟩
  case conns =>
    intro d t ht
    show t.server = (w₁.conns d).server ∧ t.number < issued ∧ ((w₁.conns d).refreshing = false → ¬Spent w₁ t)
    rw [hconns]
    rcases hholds d t ht with ⟨hd, ht⟩ | ⟨hd, ht⟩
    · rw [if_pos hd]
      rcases htoken t ht with ⟨hc, hb⟩ | ⟨hs, hn, hlt, -⟩
      · obtain ⟨hs, hlt, -⟩ := h.conns _ t hc
        refine ⟨hs.trans hserver.symm, hlt.trans_le hissued, fun _ => ?_⟩
        obtain rfl : p.token = t := Option.some.inj (hpt.symm.trans hc)
        exact unspent_noted h hp hanswer hb
      · exact ⟨hs, hn ▸ hlt, fun _ hsp => (h.unheld (c := 0) hn).2.1 (hspent t hsp)⟩
    · rw [if_neg hd]
      obtain ⟨hs, hlt, hsp⟩ := h.conns d t ht
      exact ⟨hs, hlt.trans_le hissued, fun hr hsp' => hsp hr (hspent t hsp')⟩
  case own =>
    intro d e t hd he
    rcases hholds d t hd with ⟨hdc, hd⟩ | ⟨hdc, hd⟩
    · rcases hholds e t he with ⟨hec, -⟩ | ⟨hec, he⟩
      · exact hdc.trans hec.symm
      · exact absurd ((hown t hd).1 e he) hec
    · rcases hholds e t he with ⟨-, he⟩ | ⟨-, he⟩
      · exact absurd ((hown t he).1 d hd) hdc
      · exact h.own d e t hd he
  case kept =>
    exact fun hheld t ht => hfree t (h.kept (fun hw => hheld (hw.imp_right hpending.mpr)) t ht)
  case cached =>
    intro d hd
    rw [hpending]
    obtain ⟨hlt, hs⟩ := h.cached d hd
    exact ⟨hlt, fun hp => (hsessions d).trans (hs hp)⟩
  case threads =>
    intro j
    rw [fits_goes, threads_goes]
    split
    · exact hfits w₁ (hworks work hwork)
    · next hj =>
      have hf := h.threads j
      have halone := h.alone i j (Ne.symm hj)
      rw [hi] at halone
      show (w.threads j).Fits w₁
      generalize w.threads j = u at hf halone ⊢
      cases u with
      | ready caller token server session => exact ⟨hf.1, hf.2.1, hfree token hf.2.2.1, hf.2.2.2⟩
      | working work' => exact hworks work' hf
      | waiting work' l =>
        obtain ⟨hw, hr, q, hq, hqa, hqt⟩ := hf
        have hne : work'.conn ≠ work.conn := fun hc => halone (.refreshing _ _ _ _ hc.symm)
        have hkl : k ≠ l := fun hkl => by
          rw [← hkl, hp] at hq
          cases hq
          exact hne (h.own _ _ _ hqt hpt)
        refine ⟨hworks work' hw, ?_, q, ?_, hqa, ?_⟩
        · rw [hconns, if_neg hne]
          exact hr
        · exact (noted_get ..).trans ((if_neg hkl).trans hq)
        · unfold Holds
          rw [hconns, if_neg hne]
          exact hqt
      | joined d => exact ⟨hf.1, hf.2.1, (hsessions d).trans hf.2.2⟩
      | _ => exact hf
  case alone =>
    intro j l hjl
    rw [threads_goes, threads_goes]
    split
    · exact not_excludes_of_apart hapart _
    · split
      · exact fun hex => not_excludes_of_apart hapart _ hex.symm
      · exact h.alone j l hjl
  case log =>
    intro q hq
    rcases mem_noted hp hq with rfl | ⟨l, -, hl⟩
    · obtain ⟨hs, hlt⟩ := h.log p (List.mem_of_getElem? hp)
      exact ⟨hs, hlt.trans_le hissued⟩
    · obtain ⟨hs, hlt⟩ := h.log q (List.mem_of_getElem? hl)
      exact ⟨hs, hlt.trans_le hissued⟩
  case once => exact once_noted h hp hanswer

/-- The keeper writes a token its connection holds, where no session is kept or the one that is has
a connection and is of that server and account. -/
theorem Sound.keeps (h : Sound w) (ht : Holds w c t)
    (hkeep : w.row.active = true →
      Held w ∧ w.row.serverUrl = some t.server ∧ w.row.email = some t.email) :
    Sound { w with row := w.row.keepRefreshToken t } := by
  cases hactive : w.row.active with
  | false =>
    rw [LockRow.keepRefreshToken_of_inactive hactive]
    exact h
  | true =>
    obtain ⟨hheld, hserver, hemail⟩ := hkeep hactive
    constructor
    case row =>
      intro t' ht'
      obtain rfl : t = t' := by
        have ht' : (w.row.keepRefreshToken t).refreshToken = some t' := ht'
        unfold LockRow.keepRefreshToken at ht'
        rw [hactive] at ht'
        exact Option.some.inj ht'
      exact ⟨(LockRow.keepRefreshToken_active ..).trans hactive, (h.conns c t ht).2.1,
        (LockRow.keepRefreshToken_serverUrl ..).trans hserver,
        (LockRow.keepRefreshToken_email ..).trans hemail⟩
    case kept => exact fun hnot => absurd hheld hnot
    case threads =>
      intro j
      have hfits := h.threads j
      generalize w.threads j = u at hfits ⊢
      cases u with
      | reached caller server =>
        exact ⟨hfits.1, (LockRow.keepRefreshToken_serverUrl ..).trans hfits.2⟩
      | _ => exact hfits
    all_goals first | exact h.conns | exact h.own | exact h.cached | exact h.alone | exact h.log | exact h.once

theorem sound_granted {k : ℕ} (h : Sound w) (hi : w.threads i = .waiting work k) (access : Text) (renews : Bool)
    (expiresIn : Option ℕ) (hu : Undisturbed w (.answer i (.granted access renews expiresIn))) : Sound
    (w.answer i (.granted access renews expiresIn)) := by
  let conn := w.conns work.conn
  let email := (conn.refreshToken.map RefreshToken.email).getD []
  let grant : Grant := ⟨access, w.newToken conn.server email renews, expiresIn⟩
  let tokens := Tokens.take w.clock conn.tokens grant
  obtain ⟨-, -, p, -, -, hpt⟩ : (Thread.waiting work k).Fits w := hi ▸ h.threads i
  have hemail : email = p.token.email := by
    show (Option.map _ conn.refreshToken).getD [] = _
    rw [show conn.refreshToken = some p.token from hpt]
    rfl
  have htoken : ∀ t, tokens.refresh = some t → (Holds w work.conn t ∧ renews = false) ∨
      (t.server = conn.server ∧ t.number = w.issued ∧ w.issued < w.issued + 1 ∧
        ∃ t', Holds w work.conn t' ∧ t.email = t'.email) := fun t ht => by
    have ht : (w.newToken conn.server email renews).or (conn.tokens.bind Tokens.refresh) = some t := ht
    cases hr : renews with
    | true =>
      rw [hr] at ht
      obtain rfl := (Option.some.inj ht).symm
      exact .inr ⟨rfl, rfl, Nat.lt_succ_self _, p.token, hpt, hemail⟩
    | false =>
      rw [hr] at ht
      exact .inl ⟨ht, rfl⟩
  have hanswered := @LockSessions.Sound.answered _ _ (.working work) _ _ _
    { conn with refreshing := false, tokens := some tokens } (.granted access renews expiresIn) h hi
    (Nat.le_succ _) rfl rfl htoken rfl fun _ hf => hf
  have hgoal : w.answer i (.granted access renews expiresIn) =
      { App.goes { w.onConn work.conn { conn with refreshing := false, tokens := some tokens } with
          log := w.noted k (.granted access renews expiresIn), issued := w.issued + 1 } i
          (.working work) with
        row := w.keep conn tokens.refresh } := by
    unfold App.answer
    rw [hi]
    rfl
  rw [hgoal]
  unfold App.keep
  split
  · next t ht =>
    split
    · next hkeeps =>
      refine hanswered.keeps (c := work.conn) (t := t) ?_ fun hactive => ?_
      · unfold Holds
        exact (congrArg Connection.refreshToken (conns_onConn w work.conn _ work.conn)).trans
          ((congrArg _ (if_pos rfl)).trans ht)
      · obtain ⟨hheld, hrow⟩ := hu work k hi hkeeps hactive
        refine ⟨hheld.imp_right ?_, ?_⟩
        · exact (pending_goes (w := w) (fun c hc => by cases hi.symm.trans hc) (by simp)).mpr
        · rcases htoken t ht with ⟨ht, -⟩ | ⟨hs, -, -, t', ht', he⟩
          · exact hrow t ht
          · obtain ⟨hserver, hemail⟩ := hrow t' ht'
            rw [hs, he, ← (h.conns _ t' ht').1]
            exact ⟨hserver, hemail⟩
    · exact hanswered
  · exact hanswered

theorem sound_answer (h : Sound w) (a : Answer) (hu : Undisturbed w (.answer i a)) : Sound (w.answer i a) := by
  cases hi : w.threads i with
  | waiting work k =>
    -- An answer without tokens leaves the connection the one it has, or none.
    have hkeeps : ∀ a : Answer, a.brings = false → Sound (App.goes
        { w.onConn work.conn { w.conns work.conn with refreshing := false } with
          log := w.noted k a } i (.working work)) := fun a ha =>
      h.answered hi le_rfl rfl rfl (fun t ht => .inl ⟨ht, ha⟩) rfl fun _ hf => hf
    cases a with
    | granted access renews expiresIn => exact sound_granted h hi access renews expiresIn hu
    | refused =>
      have hgoal : ∀ thread : Thread, thread.apart = true → (∀ w', thread.Fits w') → Sound (App.goes
          { w.onConn work.conn { w.conns work.conn with refreshing := false, tokens := none } with
            log := w.noted k .refused } i thread) := fun thread hapart hfits =>
        h.answered hi le_rfl rfl rfl (fun t ht => by cases ht) hapart fun w' _ => hfits w'
      unfold App.answer
      rw [hi]
      cases work with
      | use caller conn =>
        cases caller with
        | pass => exact (hgoal (.ending (some conn)) rfl fun _ => trivial).unrelated false w.clock
        | listen => exact hgoal (.ending (some conn)) rfl fun _ => trivial
      | signingIn email conn => exact hgoal .idle rfl fun _ => trivial
    | lost | switchedOff | failed =>
      unfold App.answer
      rw [hi]
      exact hkeeps _ rfl
  | _ =>
    unfold App.answer
    rw [hi]
    exact h

theorem sound_step (h : Sound w) (m : Move) (hu : Undisturbed w m) : Sound (step w m) := by
  cases m with
  | tick seconds => exact h.unrelated w.running _
  | start i caller => exact sound_start h caller
  | look i => exact sound_look h
  | lookCached i => exact sound_lookCached h hu
  | readState i => exact sound_readState h
  | readToken i => exact sound_readToken h
  | install i => exact sound_install h
  | expire i => exact sound_expire h
  | refresh i stale => exact sound_refresh h stale
  | answer i a => exact sound_answer h a hu
  | logout i => exact sound_logout h
  | finish i => exact sound_finish h
  | endSession i => exact sound_endSession h
  | drop i => exact sound_drop h hu
  | signIn i server email access renews expiresIn => exact sound_signIn h server email access renews expiresIn
  | join i => exact sound_join h hu
  | startSyncing i => exact sound_startSyncing h
  | signOut i => exact sound_signOut h
  | leave i => exact sound_leave h
  | letGo i => exact sound_letGo h hu

end LockSessions

end UwuRdp
