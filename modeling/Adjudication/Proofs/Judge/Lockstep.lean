import Adjudication.Proofs.Judge.Task
import Adjudication.Proofs.Likeness

/-!
Judging beside judging. The judge is told nothing of a fingerprint, and so findings that differ in their fingerprints only are
asked about in the same requests, at the same instants and after the same pauses, one after the other and side by side; their
outcomes differ in nothing but the findings that they are of.
-/

namespace Adjudication

/-- An outcome with a finding without its fingerprint. -/
def Outcome.unmarked (o : Outcome) : Outcome := { o with finding := o.finding.unmarked }

def Outcome.Alike (o o' : Outcome) : Prop := o.unmarked = o'.unmarked

theorem Finding.Alike.outcome {f f' : Finding} (h : f.Alike f') (ruling : Ruling) : Outcome.Alike ⟨f, ruling⟩ ⟨f', ruling⟩ :=
  congrArg (Outcome.mk · ruling) h

namespace Judge

open Act (Lockstep Blind)
open Time (TokenId)

variable {σ : Type}

theorem lockstep_settle {f f' : Finding} (h : f.Alike f') (r : Except Failure Judgment) :
    Lockstep Scene.Alike Outcome.Alike (settle f r : Run σ Outcome) (settle f' r) := by
  have hcheck : f.unmarked.checkId = f'.unmarked.checkId := congrArg Finding.checkId h
  cases r with
  | ok j => exact Act.lockstep_pure (h.outcome _)
  | error e =>
    cases e with
    | judging e =>
      rw [settle, settle, show f.checkId = f'.checkId from hcheck]
      exact .blind_bind (Run.blind_log _ _) fun _ => .blind_bind (Run.blind_ofExcept _ _) fun record =>
        Act.lockstep_pure (h.outcome _)
    | _ => exact Act.lockstep_throw _

variable [Time.Seconds σ] {c : Client σ}

/-! ### Requests -/

omit [Time.Seconds σ] in
theorem alike_cancelCaller {s t : Scene σ} (h : s.Alike t) : s.cancelCaller.Alike t.cancelCaller := by
  cases h with
  | mk hfiles hcourse =>
    simp only [Scene.cancelCaller]
    split <;> exact .mk hfiles hcourse

theorem alike_sent {s t : Scene σ} (h : s.Alike t) (request : Request) (timeout : σ) :
    (s.sent request timeout).Alike (t.sent request timeout) := by
  have hanswered : ∀ (turn : Turn σ) {s t : Scene σ}, s.Alike t → (s.answered turn).Alike (t.answered turn) := by
    intro turn s t h
    cases h with
    | mk hfiles hcourse =>
      rw [Scene.answered, Scene.answered]
      split <;> exact .mk hfiles hcourse
  cases h with
  | @mk files course hfiles hcourse =>
    have hasked : (s.asked request timeout).Alike (Scene.asked { s with files, course } request timeout) := .mk hfiles hcourse
    refine hanswered _ ?_
    rw [Scene.taken, Scene.taken]
    split
    · exact alike_cancelCaller hasked
    · exact hasked

theorem blind_requestTimeout (config : JudgeConfig σ) (token : Option TokenId) :
    Blind Scene.Alike (requestTimeout config token) := by
  refine .blind_bind (Run.blind_remaining token) fun left => ?_
  cases left <;> exact Act.blind_pure _

theorem blind_send (request : Request) (timeout : σ) : Blind Scene.Alike (send request timeout) := by
  intro s t h
  rw [send_run, send_run]
  cases h with
  | mk hfiles hcourse => exact ⟨matched_eq.2 rfl, alike_sent (.mk hfiles hcourse) request timeout⟩

theorem blind_ask (c : Client σ) (request : Request) (token : Option TokenId) (attempt : Nat) :
    Blind Scene.Alike (ask c request token attempt) :=
  .blind_bind (Run.blind_heed token) fun _ => .blind_bind (blind_requestTimeout _ token) fun timeout =>
    .blind_bind (blind_send request timeout) fun _ => .blind_bind (Run.blind_ofExcept _ _) fun _ => Act.blind_pure _

theorem blind_attempts (c : Client σ) (f : Finding) (code : String) (token : Option TokenId) :
    (attempts c f code token).Blind Scene.Alike where
  call a := blind_ask c _ token a
  backoff a n := by
    rw [attempts]
    dsimp only
    split
    · exact Act.blind_pure _
    · exact Act.blind_throw _
  note a e d := Run.blind_log _ _
  pause d := Run.blind_pause token d

theorem blind_judge (c : Client σ) (f : Finding) (code : String) (token : Option TokenId) :
    Blind Scene.Alike (judge c f code token) :=
  .blind_bind ((blind_attempts c f code token).run.adapt _) fun _ => Run.blind_ofExcept _ _

/-- What is asked about a finding is not about its fingerprint. -/
theorem attempts_congr {f f' : Finding} (h : f.Alike f') (code : String) (token : Option TokenId) :
    attempts c f code token = attempts c f' code token := by
  have hunmarked : ∀ f : Finding, attempts c f.unmarked code token = attempts c f code token := fun _ => rfl
  rw [← hunmarked f, h, hunmarked]

theorem lockstep_judgeOne (code : String) (token : TokenId) {f f' : Finding} (h : f.Alike f') :
    Lockstep Scene.Alike Outcome.Alike (judgeOne c code token f) (judgeOne c code token f') := by
  have hjudge : judge c f code (some token) = judge c f' code (some token) := by
    rw [judge, judge, attempts_congr h]
  rw [judgeOne, judgeOne, hjudge]
  exact .blind_bind (Run.blind_heed _) fun _ =>
    .blind_bind (Run.blind_outcome (blind_judge c f' code _)) fun r => lockstep_settle h r

/-! ### Side by side -/

inductive Progress.Alike : Progress σ → Progress σ → Prop
  | fresh : Alike .fresh .fresh
  | underWay (phase : Retry.Phase σ Received) : Alike (.underWay phase) (.underWay phase)
  | ended {r r' : Except Failure Outcome} (h : Matched Outcome.Alike r r') : Alike (.ended r) (.ended r')

/-- Tasks that are as far as each other with findings that are the same but for their fingerprints. -/
structure Task.Alike (t u : Task σ) : Prop where
  finding : t.finding.Alike u.finding
  progress : t.progress.Alike u.progress

omit [Time.Seconds σ] in
theorem alike_conclude {t u : Task σ} (hfinding : t.finding.Alike u.finding) (r : Except Failure Judgment)
    {s s' : Scene σ} (h : s.Alike s') :
    Task.Alike (t.conclude r s).1 (u.conclude r s').1 ∧ (t.conclude r s).2.Alike (u.conclude r s').2 := by
  obtain ⟨houtcome, hscene⟩ := lockstep_settle hfinding r s s' h
  exact ⟨⟨hfinding, .ended houtcome⟩, hscene⟩

theorem alike_step (c : Client σ) (code : String) (token : TokenId) {t u : Task σ} (htu : t.Alike u) {s s' : Scene σ}
    (h : s.Alike s') : Task.Alike (t.step c code token s).1 (u.step c code token s').1 ∧
      (t.step c code token s).2.Alike (u.step c code token s').2 := by
  obtain ⟨f, progress⟩ := t
  obtain ⟨f', progress'⟩ := u
  obtain ⟨hfinding, hprogress⟩ := htu
  simp only at hfinding hprogress
  cases hprogress with
  | fresh =>
    obtain ⟨hheed, hscene⟩ := Run.blind_heed (some token) s s' h
    rcases hs : Run.heed (some token) s with ⟨e | ⟨⟩, v⟩ <;> rcases hs' : Run.heed (some token) s' with ⟨e' | ⟨⟩, v'⟩ <;>
      rw [hs, hs'] at hheed hscene
    · obtain rfl : e = e' := Except.error.inj (matched_eq.1 hheed)
      rw [Task.step_fresh_of_heed_error hs, Task.step_fresh_of_heed_error hs']
      exact ⟨⟨hfinding, .ended (.error e)⟩, hscene⟩
    · cases hheed
    · cases hheed
    · by_cases hn : c.config.maxAttempts < 1
      · rw [Task.step_fresh_of_noAttempts hs hn, Task.step_fresh_of_noAttempts hs' hn]
        exact alike_conclude hfinding _ hscene
      · rw [Task.step_fresh_of_heed_ok code hs (Nat.not_lt.1 hn), Task.step_fresh_of_heed_ok code hs' (Nat.not_lt.1 hn)]
        exact ⟨⟨hfinding, .underWay _⟩, hscene⟩
  | ended hr => exact ⟨⟨hfinding, .ended hr⟩, h⟩
  | underWay p =>
    by_cases hp : ∃ r, p = .ended r
    · obtain ⟨r, rfl⟩ := hp
      exact alike_conclude hfinding _ h
    · have hne : ∀ r, p ≠ .ended r := fun r he => hp ⟨r, he⟩
      obtain ⟨hphase, hscene⟩ := (blind_attempts c f code (some token)).step p s s' h
      rcases hs : (attempts c f code (some token)).step p s with ⟨stop | q, v⟩ <;>
        rcases hs' : (attempts c f code (some token)).step p s' with ⟨stop' | q', v'⟩ <;> rw [hs, hs'] at hphase hscene
      · obtain rfl : stop = stop' := Except.error.inj (matched_eq.1 hphase)
        rw [attempts_congr hfinding] at hs'
        rw [Task.step_underWay_of_error hs, Task.step_underWay_of_error hs']
        exact alike_conclude hfinding _ hscene
      · cases hphase
      · cases hphase
      · obtain rfl : q = q' := Except.ok.inj (matched_eq.1 hphase)
        rw [attempts_congr hfinding] at hs'
        rw [Task.step_underWay_of_ok hne hs, Task.step_underWay_of_ok hne hs']
        exact ⟨⟨hfinding, .underWay q⟩, hscene⟩

omit [Time.Seconds σ] in
theorem rel_result? {t u : Task σ} (h : t.Alike u) : Option.Rel (Matched Outcome.Alike) t.result? u.result? := by
  obtain ⟨f, progress⟩ := t
  obtain ⟨f', progress'⟩ := u
  have hprogress : progress.Alike progress' := h.progress
  cases hprogress with
  | fresh => exact .none
  | underWay => exact .none
  | ended hr => exact .some hr

theorem lockstep_poolWork (c : Client σ) (code : String) (token : TokenId) :
    (poolWork c code token).Lockstep Scene.Alike Task.Alike Outcome.Alike where
  step htu h := alike_step c code token htu h
  result htu := rel_result? htu
  stop h := (Run.blind_cancel token _ _ h).2

/-- Findings that are the same but for their fingerprints, side by side. -/
theorem lockstep_judgeInPool (workers : Nat) (code : String) (token : TokenId) {fs fs' : List Finding}
    (h : List.Forall₂ Finding.Alike fs fs') :
    Lockstep Scene.Alike (List.Forall₂ Outcome.Alike) (judgeInPool c workers code token fs)
      (judgeInPool c workers code token fs') := fun s t hst => by
  have htasks : List.Forall₂ Task.Alike (fs.map (Task.ofFinding (σ := σ))) (fs'.map Task.ofFinding) :=
    List.rel_map (fun f f' hf => ⟨hf, .fresh⟩) h
  have hpools : Pool.Alike Task.Alike Outcome.Alike (Pool.ofTasks (min workers fs.length) (fs.map (Task.ofFinding (σ := σ))) :
      Pool (Task σ) Failure Outcome) (.ofTasks (min workers fs'.length) (fs'.map Task.ofFinding)) :=
    ⟨by rw [h.length_eq]; rfl, htasks, rfl, .nil, rfl⟩
  cases hst with
  | @mk files course hfiles hcourse =>
    have hchild : (s.withChild token).Alike (Scene.withChild { s with files, course } token) := .mk hfiles hcourse
    obtain ⟨hpool, hscene⟩ := Pool.Alike.run (lockstep_poolWork c code s.timeline.tokens.length)
      (fs.length * (Task.mostSteps c + 2)) s.schedule hpools hchild
    rw [judgeInPool_run, judgeInPool_run, pooled, pooled, ← h.length_eq]
    rw [← h.length_eq] at hpool hscene
    exact ⟨hpool.outcome, hscene⟩

theorem lockstep_judgeAll (workers : Nat) (code : String) (token : TokenId) {fs fs' : List Finding}
    (h : List.Forall₂ Finding.Alike fs fs') :
    Lockstep Scene.Alike (List.Forall₂ Outcome.Alike) (judgeAll c workers code token fs)
      (judgeAll c workers code token fs') := by
  rw [judgeAll, judgeAll, h.length_eq]
  split
  · exact Act.lockstep_mapM (fun f f' hf => lockstep_judgeOne code token hf) h
  · exact lockstep_judgeInPool workers code token h

end Judge
end Adjudication
