import UwuRdp.Sync.Engine

/-!
# How a pull goes

`PullRun` is a pull with the pages it hands to the store, one after the other: a page is asked for,
the word to start over is looked at, the page goes into the store, and the cursor moves on. A pull
that comes out is such a run (`pullPages_run`), and there is one run only.
-/

namespace UwuRdp

open Lib

variable {σ : Type}

/-- The request for a page is answered, with the word to start over or without. -/
def Answered (t : Transport σ) (s : PassState σ) (page : PullResponse) (reset : Bool) (server : σ) :
    Prop :=
  ∃ sv, t.pull s.db.cursor maxBatch s.server = (.ok page, sv) ∧ t.takeReset sv = (reset, server)

def PassState.heard (s : PassState σ) (server : σ) : PassState σ :=
  { s with server, requests := s.requests + 1 }

def PassState.took (s : PassState σ) (server : σ) (page : PullResponse) (applied : ApplyReport)
    (db' : Db) : PassState σ where
  db := db'
  server := server
  asked := s.asked + 1
  requests := s.requests + 1
  report := { s.report with
    pulled := s.report.pulled + page.envelopes.countP fun env => env.kind ≠ .manifest
    apply := s.report.apply.add applied }
  events := .page s.db db' :: s.events

def MovesOn (cursor : ℕ) (page : PullResponse) (applied : ApplyReport) : Prop :=
  applied.rejected ≠ page.envelopes.length ∧ cursor < page.cursor

instance (cursor : ℕ) (page : PullResponse) (applied : ApplyReport) :
    Decidable (MovesOn cursor page applied) := inferInstanceAs (Decidable (_ ∧ _))

variable [Platform]

/-- A pull that comes out, with the pages it hands to the store. -/
inductive PullRun (cx : Session) (t : Transport σ) :
    ℕ → PassState σ → List (List Envelope) → Bool → PassState σ → Prop where
  | limit (s : PassState σ) : PullRun cx t 0 s [] false s
  /-- Told to start over from the start already. -/
  | noSense {n : ℕ} {s : PassState σ} {page : PullResponse} {sv : σ} (h : Answered t s page true sv)
      (hc : s.db.cursor = 0) : PullRun cx t (n + 1) s [] false (s.heard sv)
  | again {n : ℕ} {s s' : PassState σ} {page : PullResponse} {sv : σ} {pages : List (List Envelope)}
      {b : Bool} (h : Answered t s page true sv) (hc : s.db.cursor ≠ 0)
      (hrest : PullRun cx t n { s.heard sv with db := setSyncCursor s.db 0 } pages b s') :
      PullRun cx t (n + 1) s pages b s'
  | empty {n : ℕ} {s : PassState σ} {page : PullResponse} {sv : σ} (h : Answered t s page false sv)
      (he : page.envelopes = []) : PullRun cx t (n + 1) s [] true (s.heard sv)
  /-- A page behind which the cursor does not move ends the pull. -/
  | stay {n : ℕ} {s : PassState σ} {page : PullResponse} {sv : σ} {applied : ApplyReport} {db' : Db}
      (h : Answered t s page false sv) (he : page.envelopes ≠ [])
      (happ : applyEnvelopes cx.device cx.vault (cx.now s.asked) page.envelopes s.db =
        .ok (applied, db')) (hm : ¬MovesOn s.db.cursor page applied) :
      PullRun cx t (n + 1) s [page.envelopes] true (s.took sv page applied db')
  | last {n : ℕ} {s : PassState σ} {page : PullResponse} {sv : σ} {applied : ApplyReport} {db' : Db}
      (h : Answered t s page false sv) (he : page.envelopes ≠ [])
      (happ : applyEnvelopes cx.device cx.vault (cx.now s.asked) page.envelopes s.db =
        .ok (applied, db')) (hm : MovesOn s.db.cursor page applied) (hl : page.hasMore = false) :
      PullRun cx t (n + 1) s [page.envelopes] true
        { s.took sv page applied db' with db := setSyncCursor db' page.cursor }
  | more {n : ℕ} {s s' : PassState σ} {page : PullResponse} {sv : σ} {applied : ApplyReport}
      {db' : Db} {pages : List (List Envelope)} {b : Bool}
      (h : Answered t s page false sv) (he : page.envelopes ≠ [])
      (happ : applyEnvelopes cx.device cx.vault (cx.now s.asked) page.envelopes s.db =
        .ok (applied, db')) (hm : MovesOn s.db.cursor page applied) (hl : page.hasMore = true)
      (hrest : PullRun cx t n
        { s.took sv page applied db' with db := setSyncCursor db' page.cursor } pages b s') :
      PullRun cx t (n + 1) s (page.envelopes :: pages) b s'

/-! ## One turn -/

namespace Engine

variable {cx : Session} {t : Transport σ} {s : PassState σ} {page : PullResponse} {sv : σ}

variable {applied : ApplyReport} {db' : Db} {n : ℕ} {b : Bool} {s' : PassState σ}

theorem applyEnvelopes_ok {envelopes : List Envelope}
    (happ : UwuRdp.applyEnvelopes cx.device cx.vault (cx.now s.asked) envelopes s.db =
      .ok (applied, db')) :
    applyEnvelopes cx envelopes s = (.ok applied, { s with
      db := db', asked := s.asked + 1
      report := { s.report with apply := s.report.apply.add applied } }) := by
  have hnow : nowMs cx s = (.ok (cx.now s.asked), { s with asked := s.asked + 1 }) := rfl
  unfold applyEnvelopes
  rw [Act.bind_of_ok hnow, Act.get_bind]
  simp only [happ]
  rfl

theorem pullPages_answered {reset : Bool} (n : ℕ) (h : Answered t s page reset sv) :
    pullPages cx t (n + 1) s =
      (if reset then
        if s.db.cursor = 0 then pure false
        else do
          store fun db => setSyncCursor db 0
          pullPages cx t n
      else if page.envelopes.isEmpty then pure true
      else do
        note fun r => { r with
          pulled := r.pulled + page.envelopes.countP fun env : Envelope => env.kind ≠ .manifest }
        let before ← look id
        let applied ← applyEnvelopes cx page.envelopes
        let after ← look id
        log (.page before after)
        if applied.rejected = page.envelopes.length then pure true
        else if s.db.cursor < page.cursor then do
          store fun db => setSyncCursor db page.cursor
          if page.hasMore then pullPages cx t n else pure true
        else pure true : Pass σ Bool) (s.heard sv) := by
  obtain ⟨sv₀, hpull, hreset⟩ := h
  have hrequest : request (t.pull s.db.cursor maxBatch) s = (.ok (.ok page), s.heard sv₀) := by
    unfold request
    rw [Act.get_bind, hpull]
    rfl
  have htake : takeReset t (s.heard sv₀) = (.ok reset, s.heard sv) := by
    unfold takeReset
    rw [Act.get_bind, show (s.heard sv₀).server = sv₀ from rfl, hreset]
    rfl
  conv_lhs => unfold pullPages
  rw [Act.bind_of_ok (rfl : look Db.cursor s = (.ok s.db.cursor, s)), Act.bind_of_ok hrequest,
    Act.bind_of_ok (rfl : orStop (.ok page) _ = (.ok page, _)), Act.bind_of_ok htake]

theorem pullPages_page (n : ℕ) (h : Answered t s page false sv)
    (he : page.envelopes ≠ [])
    (happ : UwuRdp.applyEnvelopes cx.device cx.vault (cx.now s.asked) page.envelopes s.db =
      .ok (applied, db')) :
    pullPages cx t (n + 1) s =
      if MovesOn s.db.cursor page applied then
        if page.hasMore then pullPages cx t n
          { s.took sv page applied db' with db := setSyncCursor db' page.cursor }
        else (.ok true, { s.took sv page applied db' with db := setSyncCursor db' page.cursor })
      else (.ok true, s.took sv page applied db') := by
  have hempty : page.envelopes.isEmpty = false := List.isEmpty_eq_false_iff.mpr he
  have happly : ∀ s₁ : PassState σ, s₁.db = s.db → s₁.asked = s.asked →
      applyEnvelopes cx page.envelopes s₁ = (.ok applied, { s₁ with
        db := db', asked := s₁.asked + 1
        report := { s₁.report with apply := s₁.report.apply.add applied } }) := by
    intro s₁ hdb hasked
    refine applyEnvelopes_ok ?_
    rw [hdb, hasked]
    exact happ
  let s₁ : PassState σ := { s.heard sv with report := { s.report with
    pulled := s.report.pulled + page.envelopes.countP fun env => env.kind ≠ .manifest } }
  have hnote : note (fun r => { r with
      pulled := r.pulled + page.envelopes.countP fun env => env.kind ≠ .manifest }) (s.heard sv) =
      (.ok (), s₁) := rfl
  rw [pullPages_answered n h]
  simp only [Bool.false_eq_true, if_false, hempty]
  rw [Act.bind_of_ok hnote, Act.bind_of_ok (rfl : look id s₁ = (.ok s₁.db, s₁)),
    Act.bind_of_ok (happly s₁ rfl rfl), Act.bind_of_ok (rfl : look id _ = (.ok _, _)),
    Act.bind_of_ok (rfl : log _ _ = (.ok (), _))]
  by_cases hr : applied.rejected = page.envelopes.length
  · rw [if_pos hr, if_neg fun hm : MovesOn .. => hm.1 hr]
    rfl
  rw [if_neg hr]
  by_cases hc : s.db.cursor < page.cursor
  · have hm : MovesOn s.db.cursor page applied := ⟨hr, hc⟩
    rw [if_pos hc, if_pos hm, Act.bind_of_ok (rfl : store _ _ = (.ok (), _))]
    split <;> rfl
  · rw [if_neg hc, if_neg fun hm : MovesOn .. => hc hm.2]
    rfl

theorem pullPages_refused {e : TransportError} (n : ℕ) (h : t.pull s.db.cursor maxBatch s.server = (.error e, sv)) : ∃
    s', pullPages cx t (n + 1) s = (.error (.transport e), s') := by
  have hrequest : request (t.pull s.db.cursor maxBatch) s = (.ok (.error e), s.heard sv) := by
    unfold request
    rw [Act.get_bind, h]
    rfl
  unfold pullPages
  rw [Act.bind_of_ok (rfl : look Db.cursor s = (.ok s.db.cursor, s)), Act.bind_of_ok hrequest]
  exact ⟨_, rfl⟩

theorem pullPages_failed {e : StoreError} (n : ℕ) (h : Answered t s page false sv) (he : page.envelopes ≠ [])
    (happ : UwuRdp.applyEnvelopes cx.device cx.vault (cx.now s.asked) page.envelopes s.db = .error e) : ∃ s',
    pullPages cx t (n + 1) s = (.error (.ofStore e), s') := by
  have hempty : page.envelopes.isEmpty = false := List.isEmpty_eq_false_iff.mpr he
  have hfail : ∀ s₁ : PassState σ, s₁.db = s.db → s₁.asked = s.asked →
      ∃ s₂, applyEnvelopes cx page.envelopes s₁ = (.error (.ofStore e), s₂) := by
    intro s₁ hdb hasked
    have hnow : nowMs cx s₁ = (.ok (cx.now s₁.asked), { s₁ with asked := s₁.asked + 1 }) := rfl
    unfold applyEnvelopes
    rw [Act.bind_of_ok hnow, Act.get_bind, hasked, hdb]
    simp only [happ]
    exact ⟨_, rfl⟩
  let s₁ : PassState σ := { s.heard sv with report := { s.report with
    pulled := s.report.pulled + page.envelopes.countP fun env => env.kind ≠ .manifest } }
  have hnote : note (fun r => { r with
      pulled := r.pulled + page.envelopes.countP fun env => env.kind ≠ .manifest }) (s.heard sv) =
      (.ok (), s₁) := rfl
  obtain ⟨s₂, hs₂⟩ := hfail s₁ rfl rfl
  refine ⟨s₂, ?_⟩
  rw [pullPages_answered n h]
  simp only [Bool.false_eq_true, if_false, hempty]
  rw [Act.bind_of_ok hnote, Act.bind_of_ok (rfl : look id s₁ = (.ok s₁.db, s₁))]
  exact Act.bind_of_error hs₂

/-! ## Runs -/

theorem pullPages_run (h : pullPages cx t n s = (.ok b, s')) : ∃ pages, PullRun cx t n s pages b s' := by
  induction n generalizing s with
  | zero =>
    cases h
    exact ⟨[], .limit _⟩
  | succ n ih =>
    cases hpull : t.pull s.db.cursor maxBatch s.server with
    | mk answer sv₀ =>
    cases answer with
    | error e =>
      obtain ⟨s₁, hs₁⟩ := @pullPages_refused _ _ cx _ _ _ _ n hpull
      rw [hs₁] at h
      cases h
    | ok page =>
      cases hreset : t.takeReset sv₀ with
      | mk reset sv =>
      have ha : Answered t s page reset sv := ⟨sv₀, hpull, hreset⟩
      cases reset with
      | true =>
        rw [pullPages_answered n ha, if_pos rfl] at h
        by_cases hc : s.db.cursor = 0
        · rw [if_pos hc] at h
          cases h
          exact ⟨[], .noSense ha hc⟩
        · rw [if_neg hc, Act.bind_of_ok (rfl : store _ _ = (.ok (), _))] at h
          obtain ⟨pages, hrun⟩ := ih h
          exact ⟨pages, .again ha hc hrun⟩
      | false =>
        by_cases he : page.envelopes = []
        · rw [pullPages_answered n ha, if_neg Bool.false_ne_true, he] at h
          cases h
          exact ⟨[], .empty ha he⟩
        cases happ : UwuRdp.applyEnvelopes cx.device cx.vault (cx.now s.asked) page.envelopes
            s.db with
        | error e =>
          obtain ⟨s₁, hs₁⟩ := @pullPages_failed _ _ cx _ _ _ _ _ n ha he happ
          rw [hs₁] at h
          cases h
        | ok r =>
          obtain ⟨applied, db'⟩ := r
          rw [pullPages_page n ha he happ] at h
          split at h
          · next hm =>
            split at h
            · next hl =>
              obtain ⟨pages, hrun⟩ := ih h
              exact ⟨page.envelopes :: pages, .more ha he happ hm hl hrun⟩
            · next hl =>
              cases h
              exact ⟨[page.envelopes], .last ha he happ hm (by simpa using hl)⟩
          · next hm =>
            cases h
            exact ⟨[page.envelopes], .stay ha he happ hm⟩

theorem pullPages_of_run {pages : List (List Envelope)}
    (h : PullRun cx t n s pages b s') : pullPages cx t n s = (.ok b, s') := by
  induction h with
  | limit s => rfl
  | noSense h hc =>
    rw [pullPages_answered _ h, if_pos rfl, if_pos hc]
    rfl
  | again h hc _ ih =>
    rw [pullPages_answered _ h, if_pos rfl, if_neg hc, Act.bind_of_ok (rfl : store _ _ = (.ok (), _))]
    exact ih
  | empty h he =>
    rw [pullPages_answered _ h, if_neg Bool.false_ne_true, he]
    rfl
  | stay h he happ hm => rw [pullPages_page _ h he happ, if_neg hm]
  | last h he happ hm hl => rw [pullPages_page _ h he happ, if_pos hm, hl, if_neg Bool.false_ne_true]
  | more h he happ hm hl _ ih => rw [pullPages_page _ h he happ, if_pos hm, hl, if_pos rfl, ih]

end Engine

end UwuRdp
