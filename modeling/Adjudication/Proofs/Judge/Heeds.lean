import Adjudication.Proofs.Heeds
import Adjudication.Proofs.Judge.Frame
import Adjudication.Proofs.Judge.Sound

/-!
Judging with an eye on a token. A request is sent right after a look that does not find the token cancelled, a pause that
ends before the token is cancelled is the only one after which another attempt begins, and judging tells of a cancellation
only if the token is cancelled then.
-/

namespace Adjudication

open Act (Respects Leaves Throws)
open Time (TokenId Timeline)

variable {σ : Type} [Time.Seconds σ] {id : TokenId} {s t : Scene σ}

/-! ### Requests -/

namespace Scene

/-- A request that is sent right after a look that does not find the token cancelled, whatever comes of it: the time that
it takes, a cancellation by the caller, and an answer. -/
theorem heeds_sent (h : (s.timeline.isCancelled id).1 = false) (request : Judge.Request) (timeout : σ) :
    Heeds id s (s.sent request timeout) := by
  have hrequested : Heeds id s { s with trace := s.trace ++ [.requested request timeout s.timeline.now] } :=
    heeds_start h rfl fun _ => by rintro ⟨_, -, _, h⟩; cases h
  have hasked : Heeds id s (s.asked request timeout) := by
    refine IsTrans.trans _ _ _ hrequested ?_
    exact ⟨rfl, Timeline.watched_advance _ _, [], (List.append_nil _).symm, heeding_nil id _,
      fun _ he => absurd he List.not_mem_nil⟩
  have htaken : Heeds id s (s.taken request timeout) := by
    rw [taken, cancelCaller]
    split
    · split
      · exact IsTrans.trans _ _ _ hasked (heeds_cancel _ _)
      · exact hasked
    · exact hasked
  rw [sent, answered]
  split
  · exact IsTrans.trans _ _ _ htaken (heeds_record ⟨rfl, fun _ => by rintro ⟨_, -, _, h⟩; cases h⟩)
  · exact htaken

end Scene

open Scene (Heeds)

namespace Judge

variable {c : Client σ}

/-- An attempt looks at the token and then sends its request. -/
theorem heeds_ask (c : Client σ) (request : Request) (id : TokenId) (a : Nat) :
    Respects (Heeds id) (ask c request (some id) a) :=
  respects_ask_of_sent (Run.heeds_heed id) fun _ hclear => Scene.heeds_sent hclear request _

theorem parts_heeds (c : Client σ) (id : TokenId) : Parts (Heeds id) c (some id) where
  heed := Run.heeds_heed id
  ask request a := heeds_ask c request id a
  log := Run.heeds_log
  pause := Run.heeds_pause id

/-! ### Pauses -/

/-- A pause after which another attempt begins has ended before the token is cancelled. -/
theorem not_isCancelled_of_pausing {f : Finding} {code : String} {a : Nat} {d : σ} {p : Retry.Phase σ Received}
    (h : (attempts c f code (some id)).step (.pausing a d) s = (.ok p, t)) : (t.timeline.isCancelled id).1 = false := by
  obtain ⟨-, hpause⟩ := Retry.step_pausing_cases h
  have hpause : Run.pause (some id) d s = (.ok (), t) := hpause
  rw [Run.pause_run] at hpause
  cases hw : s.timeline.wait s.patience id d with
  | none => simp [hw] at hpause
  | some r =>
    obtain ⟨cancelled, timeline⟩ := r
    rw [hw] at hpause
    obtain ⟨-, hend⟩ := Timeline.wait_watched hw
    cases cancelled with
    | true => simp at hpause
    | false =>
      obtain rfl := congrArg Prod.snd hpause
      exact hend

end Judge

/-! ### Cancellations that are told of -/

def Failure.isCancelled : Failure → Bool
  | .cancelled _ => true
  | _ => false

theorem Failure.not_isCancelled_of_isOfReply {e : Failure} (h : e.isOfReply = true) : e.isCancelled = false := by
  cases e with
  | cancelled during => simp [isOfReply] at h
  | _ => rfl

/-- A failure tells of a cancellation only if the token has been cancelled. -/
def Scene.Told (id : TokenId) (e : Failure) (t : Scene σ) : Prop := e.isCancelled = true → t.timeline.Called id

open Scene (Told)

omit [Time.Seconds σ] in
theorem Act.Throws.told {α : Type} {x : Run σ α} (h : Throws (fun e => e.isCancelled = false) x) : Leaves (Told id) x :=
  h.leaves fun e t he hc => by simp [he] at hc

omit [Time.Seconds σ] in
theorem leaves_told_throw {α : Type} {e : Failure} (h : e.isCancelled = false) : Leaves (Told id) (throw e : Run σ α) :=
  Throws.told (Act.throws_throw h)

namespace Run

theorem told_heed (id : TokenId) : Leaves (Told id) (heed (some id) : Run σ Unit) := by
  intro s e t h _
  rw [heed_run] at h
  obtain rfl : _ = t := congrArg Prod.snd h
  cases hc : (s.timeline.isCancelled id).1 with
  | true => exact Timeline.called_of_isCancelled hc
  | false => simp [hc] at h

theorem told_pause (id : TokenId) (delay : σ) : Leaves (Told id) (pause (some id) delay) := by
  intro s e t h hcancelled
  rw [pause_run] at h
  cases hw : s.timeline.wait s.patience id delay with
  | none =>
    rw [hw] at h
    obtain ⟨rfl, -⟩ := Act.error_eq_error.1 h
    cases hcancelled
  | some r =>
    obtain ⟨cancelled, timeline⟩ := r
    rw [hw] at h
    obtain ⟨-, hend⟩ := Timeline.wait_watched hw
    cases cancelled with
    | false => simp at h
    | true =>
      obtain rfl : _ = t := congrArg Prod.snd h
      exact hend

end Run

namespace Judge

variable {c : Client σ}

theorem told_ask (c : Client σ) (request : Request) (id : TokenId) (a : Nat) :
    Leaves (Told id) (ask c request (some id) a) := by
  intro s e t h
  rcases hh : Run.heed (some id) s with ⟨e' | ⟨⟩, u⟩
  · rw [ask_of_heed_error request a hh] at h
    obtain ⟨rfl, rfl⟩ := Act.error_eq_error.1 h
    exact Run.told_heed id s e' u hh
  · rw [ask_of_heed_ok request a hh] at h
    cases hy : (u.service.turn request).yield c.levels with
    | ok r =>
      rw [hy] at h
      exact absurd (congrArg Prod.fst h) (by simp [Except.map])
    | error cause =>
      rw [hy] at h
      obtain rfl : cause = e := Except.error.inj (congrArg Prod.fst h)
      intro hc
      simp [Failure.not_isCancelled_of_isOfReply (isOfReply_of_yield hy)] at hc

/-- Judging a finding tells of a cancellation only if the token is cancelled then. -/
theorem told_judge (c : Client σ) (f : Finding) (code : String) (id : TokenId) :
    Leaves (Told id) (judge c f code (some id)) := by
  intro s e t h hcancelled
  have hstop : Leaves (Retry.Stop.Tells (Told id)) (attempts c f code (some id)).run := by
    refine Retry.leaves_run (fun a => told_ask c _ id a) (fun a n => ?_) (fun a e d => Throws.told (Run.throws_log _ _))
      fun d => Run.told_pause id d
    rw [attempts]
    dsimp only
    split
    · exact Throws.told (Act.throws_pure _)
    · exact leaves_told_throw rfl
  rw [judge_run] at h
  rcases hrun : (attempts c f code (some id)).run s with ⟨stop | received, u⟩
  · rw [hrun] at h
    obtain ⟨hfailure, rfl⟩ := Act.error_eq_error.1 h
    have htells := hstop s stop u hrun
    cases stop with
    | noAttempts | unreachable =>
      subst hfailure
      cases hcancelled
    | escaped cause =>
      subst hfailure
      exact htells hcancelled
    | exhausted n cause =>
      have hcause : cause.isCancelled = true := by
        cases cause with
        | cancelled during => rfl
        | _ =>
          subst hfailure
          exact hcancelled
      exact htells hcause
  · rw [hrun] at h
    have hjudgment := congrArg Prod.fst h
    simp only [judged, judgmentOf] at hjudgment
    split at hjudgment
    · cases hjudgment
    · obtain rfl := Except.error.inj hjudgment
      cases hcancelled

omit [Time.Seconds σ] in
theorem told_settle (f : Finding) {r : Except Failure Judgment} (h : ∀ e, r = .error e → Told id e s) {e : Failure}
    (hr : (settle f r s).1 = .error e) : Told id e (settle f r s).2 := by
  obtain ⟨lines, hlines⟩ := settle_state f r s
  rw [hlines]
  rw [settle_run] at hr
  cases r with
  | ok j => cases hr
  | error cause =>
    cases cause with
    | judging failure =>
      intro hc
      rw [outcomeOf] at hr
      cases hrecord : recordOf failure with
      | ok record => simp [hrecord, Except.map] at hr
      | error reason =>
        rw [hrecord] at hr
        obtain rfl := Except.error.inj hr
        rw [recordOf] at hrecord
        split at hrecord
        · cases hrecord
        · obtain rfl := Except.error.inj hrecord
          cases hc
    | _ =>
      obtain rfl := Except.error.inj hr
      exact h _ rfl

theorem told_judgeOne (c : Client σ) (code : String) (id : TokenId) (f : Finding) :
    Leaves (Told id) (judgeOne c code id f) := by
  refine (Run.told_heed id).bind fun _ s e t h => ?_
  rw [Run.outcome_bind_run] at h
  have hsettle : Told id e (settle f (judge c f code (some id) s).1 (judge c f code (some id) s).2).2 :=
    told_settle f (fun cause hcause => told_judge c f code id s cause _ (Prod.ext hcause rfl)) (congrArg Prod.fst h)
  rwa [h] at hsettle

/-- Judging one finding after the other tells of a cancellation only if the token is cancelled then. -/
theorem told_mapM (c : Client σ) (code : String) (id : TokenId) (fs : List Finding) :
    Leaves (Told id) (fs.mapM (judgeOne c code id)) := Act.leaves_mapM (told_judgeOne c code id) fs

end Judge
end Adjudication
