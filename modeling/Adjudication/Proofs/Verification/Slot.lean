import Adjudication.Proofs.Analyzer.Execution
import Adjudication.Proofs.Analyzer.Results
import Adjudication.Proofs.Judge.Failures
import Adjudication.Proofs.Judge.Onward
import Adjudication.Proofs.Staging.Failures
import Adjudication.Proofs.Verification

/-!
The part of a verification that goes on in a slot. It comes to an ending in three ways: the analyzer fails, the results
cannot be read, or the findings are judged. It never fails for want of staging, paths go on to start from where they have
started, and the clock goes forward.
-/

namespace Adjudication

open Act (Respects Throws)
open Files.Tree (SameStart)
open Time (TokenId)

variable {σ : Type}

namespace Verifier

/-- Reading findings: they are there, they cannot be read, or another failure leaves the run. -/
theorem findings_run_of_ok {d : Analyzer.Document} {s : Scene σ} {fs : List Finding}
    (h : Analyzer.findingsOfFile s.host.levels s.files d.file = .ok fs) :
    findings d s = (.ok (.ok fs), s.noting [(.info, .text ("Parsed " ++ toString fs.length ++ " finding(s)"))]) := by
  rw [findings, Act.bind_of_ok (Act.get_run s)]
  simp only [h]
  rfl

theorem findings_run_of_results {d : Analyzer.Document} {s : Scene σ} {e : ResultsError}
    (h : Analyzer.findingsOfFile s.host.levels s.files d.file = .error (.results e)) : findings d s = (.ok (.error e), s) := by
  rw [findings, Act.bind_of_ok (Act.get_run s)]
  simp only [h]
  rfl

theorem findings_run_of_error {d : Analyzer.Document} {s : Scene σ} {e : Failure}
    (h : Analyzer.findingsOfFile s.host.levels s.files d.file = .error e) (he : ∀ cause, e ≠ .results cause) :
    findings d s = (.error e, s) := by
  rw [findings, Act.bind_of_ok (Act.get_run s)]
  simp only [h]
  cases e with
  | results cause => exact absurd rfl (he cause)
  | _ => rfl

/-- Reading findings fails only with what is no failure of the results. -/
theorem throws_findings (d : Analyzer.Document) : Throws (fun e => e.isLeaving = true) (findings d : Run σ _) := by
  intro s e he
  cases hfindings : Analyzer.findingsOfFile s.host.levels s.files d.file with
  | ok fs =>
    rw [findings_run_of_ok hfindings] at he
    cases he
  | error cause =>
    have hreading := Analyzer.isOfReading_of_findingsOfFile hfindings
    cases cause with
    | results reason =>
      rw [findings_run_of_results hfindings] at he
      cases he
    | file fault =>
      rw [findings_run_of_error hfindings fun _ h => by cases h] at he
      obtain rfl := Except.error.inj he
      rfl
    | excess fault =>
      rw [findings_run_of_error hfindings fun _ h => by cases h] at he
      obtain rfl := Except.error.inj he
      rfl
    | _ => simp [Failure.isOfReading] at hreading

variable [Time.Seconds σ] {v : Verifier σ} {source : Source} {token : TokenId} {slot : Slot} {s t : Scene σ}
  {ending : Ending}

/-- What the part in the slot comes to, case by case. -/
inductive InSlot (v : Verifier σ) (source : Source) (token : TokenId) (slot : Slot) (s : Scene σ) :
    Except Failure Ending × Scene σ → Prop where
  | cancelled {e : Failure} {t : Scene σ} (hheed : Run.heed (some token) s = (.error e, t)) :
      InSlot v source token slot s (.error e, t)
  | unanalyzed {e : AnalyzerError} {t : Scene σ}
      (hrun : Analyzer.run v.command v.timeout slot.source slot.output (some token) s = (.error (.analyzer e), t)) :
      InSlot v source token slot s
        (.ok (fatal .analyzer e.kind e.message e.exitCode), t.noting [(.error, .text "Analyzer failed: " ++ e.text)])
  | interrupted {e : Failure} {t : Scene σ}
      (hrun : Analyzer.run v.command v.timeout slot.source slot.output (some token) s = (.error e, t)) :
      InSlot v source token slot s (.error e, t)
  | unread {document : Analyzer.Document} {e : ResultsError} {t : Scene σ}
      (hrun : Analyzer.run v.command v.timeout slot.source slot.output (some token) s = (.ok document, t))
      (hfindings : Analyzer.findingsOfFile t.host.levels t.files document.file = .error (.results e)) :
      InSlot v source token slot s (.ok (fatal .parser e.kind e.message (some document.exitCode)),
        t.noting [(.error, .text "Cannot parse analyzer output: " ++ e.text)])
  | broken {document : Analyzer.Document} {e : Failure} {t : Scene σ}
      (hrun : Analyzer.run v.command v.timeout slot.source slot.output (some token) s = (.ok document, t))
      (hfindings : Analyzer.findingsOfFile t.host.levels t.files document.file = .error e) :
        InSlot v source token slot s (.error e, t)
  | judged {document : Analyzer.Document} {fs : List Finding} {t u : Scene σ}
      {outcomes : Except Failure (List Outcome)} (hheed : Run.heed (some token) s = (.ok (), s))
      (hrun : Analyzer.run v.command v.timeout slot.source slot.output (some token) s = (.ok document, t))
      (hfindings : Analyzer.findingsOfFile t.host.levels t.files document.file = .ok fs)
      (hjudged : Judge.judgeAll v.judge v.workers source.text token fs
        (t.noting [(.info, .text ("Parsed " ++ toString fs.length ++ " finding(s)"))]) = (outcomes, u)) :
      InSlot v source token slot s (outcomes.map fun outcomes => ⟨some document.exitCode, outcomes, none⟩, u)

theorem inSlot_run (v : Verifier σ) (source : Source) (token : TokenId) (slot : Slot) (s : Scene σ) :
    InSlot v source token slot s (v.inSlot source token slot s) := by
  rcases hheed : Run.heed (some token) s with ⟨e | ⟨⟩, u⟩
  · rw [inSlot, Act.bind_of_error hheed]
    exact .cancelled hheed
  -- A look that does not find the token cancelled changes nothing.
  obtain ⟨-, hsame⟩ := Run.heed_eq_ok hheed
  subst u
  rcases hrun : Analyzer.run v.command v.timeout slot.source slot.output (some token) s with ⟨e | document, t⟩
  · have houtcome : Run.outcome (Analyzer.run v.command v.timeout slot.source slot.output (some token)) s =
        (.ok (.error e), t) := by rw [Run.outcome_run, hrun]
    rw [inSlot, Act.bind_of_ok hheed, Act.bind_of_ok houtcome]
    cases e with
    | analyzer e => exact .unanalyzed hrun
    | _ => exact .interrupted hrun
  have houtcome : Run.outcome (Analyzer.run v.command v.timeout slot.source slot.output (some token)) s =
      (.ok (.ok document), t) := by rw [Run.outcome_run, hrun]
  rw [inSlot, Act.bind_of_ok hheed, Act.bind_of_ok houtcome]
  dsimp only
  cases hfindings : Analyzer.findingsOfFile t.host.levels t.files document.file with
  | ok fs =>
    rw [Act.bind_of_ok (findings_run_of_ok hfindings)]
    dsimp only
    rcases hjudged : Judge.judgeAll v.judge v.workers source.text token fs
      (t.noting [(.info, .text ("Parsed " ++ toString fs.length ++ " finding(s)"))]) with ⟨e | outcomes, u⟩
    · rw [Act.bind_of_error hjudged]
      exact .judged hheed hrun hfindings hjudged
    · rw [Act.bind_of_ok hjudged]
      exact .judged hheed hrun hfindings hjudged
  | error e =>
    by_cases hcause : ∃ cause, e = .results cause
    · obtain ⟨cause, rfl⟩ := hcause
      rw [Act.bind_of_ok (findings_run_of_results hfindings)]
      exact .unread hrun hfindings
    · rw [Act.bind_of_error (findings_run_of_error hfindings fun cause he => hcause ⟨cause, he⟩)]
      exact .broken hrun hfindings

/-- The part in the slot fails only with failures that leave a verification: a failure of the analyzer or of its results is
an ending, and one of judging stays with its finding. -/
theorem throws_inSlot (v : Verifier σ) (source : Source) (token : TokenId) (slot : Slot) :
    Throws (fun e => e.isLeaving = true) (v.inSlot source token slot) := by
  have hheed : Throws (fun e => e.isLeaving = true) (Run.heed (some token) : Run σ Unit) := fun s e he => by
    obtain rfl := Judge.heed_eq_error (Prod.ext he rfl)
    rfl
  have hrun := Analyzer.throws_run (P := fun e => (∃ cause, e = .analyzer cause) ∨ e.isLeaving = true) (fun _ => .inr rfl)
    (fun _ => .inr rfl) (fun cause => .inl ⟨cause, rfl⟩) (fun _ => .inr rfl) (.inr rfl) (.inr rfl) (fun _ => .inr rfl)
    v.command v.timeout slot.source slot.output (some token)
  refine hheed.bind fun _ => Run.throws_outcome_bind hrun (fun document => ?_) fun e he => ?_
  · refine Throws.bind (throws_findings document) fun r => ?_
    cases r with
    | error e => exact (Run.throws_log _ _).bind fun _ => Act.throws_pure _
    | ok fs => exact (Judge.throws_judgeAll v.judge v.workers source.text token fs).bind fun outcomes => Act.throws_pure _
  · rcases he with ⟨cause, rfl⟩ | he
    · exact (Run.throws_log _ _).bind fun _ => Act.throws_pure _
    · cases e with
      | analyzer cause => simp [Failure.isLeaving] at he
      | _ => exact Act.throws_throw he

theorem not_isStaging_of_inSlot {e : Failure} (h : (v.inSlot source token slot s).1 = .error e) : e.isStaging = false :=
  Failure.not_isStaging_of_isLeaving (throws_inSlot v source token slot s e h)

/-- With its slot around it a run fails only with failures that leave a verification: one of staging is an ending. -/
theorem throws_staged (v : Verifier σ) (source : Source) (token : TokenId) (runId : Option String) :
    Throws (fun e => e.isLeaving = true) (v.staged source token runId) := by
  have hwithin := Staging.throws_within (P := fun e => (∃ cause, e = .staging cause) ∨ e.isLeaving = true)
    (fun cause => .inl ⟨cause, rfl⟩) (fun _ => .inr rfl)
    (fun slot s e he => .inr (throws_inSlot v source token slot s e he)) v.root source runId
  refine Run.throws_outcome_bind hwithin (fun r => Act.throws_pure r) fun e he => ?_
  rcases he with ⟨cause, rfl⟩ | he
  · exact (Run.throws_log _ _).bind fun _ => Act.throws_pure _
  · cases e with
    | staging cause => simp [Failure.isLeaving] at he
    | _ => exact Act.throws_throw he

/-- A verification fails only with failures that leave it. -/
theorem throws_verify (v : Verifier σ) (source : Source) (given : Option TokenId) (runId : Option String) :
    Throws (fun e => e.isLeaving = true) (v.verify source given runId) := by
  have hmoment : Throws (fun e => e.isLeaving = true) (Run.moment : Run σ Time.Timestamp) := by
    refine Throws.bind (Act.throws_of_ok fun s => ⟨s, congrArg Prod.fst (Act.get_run s)⟩) fun s => ?_
    exact Run.throws_ofExcept (P := fun e => e.isLeaving = true) (fun fault => rfl) _
  -- Whichever token the run has, the rest is the same.
  cases given
  case' some id => refine (Act.throws_pure id).bind fun token => ?_
  case' none =>
    refine Throws.bind (Act.throws_of_ok fun s => ⟨_, congrArg Prod.fst (Run.newToken_run none none s)⟩) fun token => ?_
  all_goals
    refine hmoment.bind fun startedAt => (Run.throws_log _ _).bind fun _ =>
      (throws_staged v source token runId).bind fun r => ?_
    obtain ⟨ending, warnings⟩ := r
    exact hmoment.bind fun finishedAt => (Run.throws_log _ _).bind fun _ => Act.throws_pure _

/-- What a verification gives that has a slot is what the part in the slot comes to. That the slot is released changes the
files and the log only, unless the slot is too deep for that. -/
theorem verify_of_slot {given : Option TokenId} {runId : Option String} {startedAt : Time.Timestamp}
    (hstarted : s.moment = .ok startedAt) {staged : Scene σ}
    (hstage : v.stage source runId (opened source given s).2 = (.ok slot, staged)) :
    ∃ x : Except Failure Unit, ∃ es files lines, v.verify source given runId s =
        (v.reported source startedAt (x.bind fun _ => (v.inSlot source (opened source given s).1 slot staged).1.map fun ending =>
            (ending, es.map StagingError.text)) (v.inSlot source (opened source given s).1 slot staged).2.moment,
          (Staging.cleaned (v.inSlot source (opened source given s).1 slot staged).2 files es).noting lines) ∧
      ∀ e, x = .error e → e = .file (.tooDeep .removing) ∧
        Staging.TooDeep slot (v.inSlot source (opened source given s).1 slot staged).2 := by
  have hplain : ∀ cause, (v.inSlot source (opened source given s).1 slot staged).1 ≠ .error (.staging cause) := by
    intro cause h
    exact Bool.noConfusion (not_isStaging_of_inSlot h)
  obtain ⟨x, es, files, lines, hverify, hfails, -⟩ := verify_of_stage_ok hstarted hstage rfl hplain
  exact ⟨x, es, files, lines, hverify, hfails⟩

/-- The part in the slot goes forward, paths go on to start from where they have started, and no client is opened or
closed. -/
theorem onward_inSlot (v : Verifier σ) (source : Source) (token : TokenId) (slot : Slot) (s : Scene σ) :
    Scene.Freely True SameStart s (v.inSlot source token slot s).2 := by
  have hrun : ∀ {r t}, Analyzer.run v.command v.timeout slot.source slot.output (some token) s = (r, t) →
      Scene.Freely True SameStart s t := fun h => by
    have honward : Respects (Scene.Freely True SameStart)
        (Analyzer.run v.command v.timeout slot.source slot.output (some token)) :=
      Analyzer.onward_run (fun _ _ _ => by rfl) (by rfl) (fun _ _ => by rfl) v.command v.timeout slot.source
        slot.output (some token)
    replace honward := honward s
    rwa [h] at honward
  have hnoting : ∀ {t : Scene σ} {lines}, Scene.Freely True SameStart s t →
      Scene.Freely True SameStart s (t.noting lines) := fun h =>
    IsTrans.trans _ _ _ h (Scene.onward_noting (fun _ _ => rfl) _)
  have hcases := inSlot_run v source token slot s
  generalize v.inSlot source token slot s = inside at hcases ⊢
  cases hcases with
  | cancelled hheed =>
    have hlook : Scene.Freely True SameStart s (Run.heed (some token) s).2 := Run.respects_heed (some token) s
    rwa [hheed] at hlook
  | interrupted hfailed => exact hrun hfailed
  | broken hdocument _ => exact hrun hdocument
  | unanalyzed hfailed => exact hnoting (hrun hfailed)
  | unread hdocument _ => exact hnoting (hrun hdocument)
  | @judged document fs t u outcomes _ hdocument _ hjudged =>
    have hjudging : Respects (Scene.Freely True SameStart) (Judge.judgeAll v.judge v.workers source.text token fs) :=
      Judge.respects_judgeAll v.judge v.workers source.text token fs
    replace hjudging := hjudging (t.noting [(.info, .text ("Parsed " ++ toString fs.length ++ " finding(s)"))])
    rw [hjudged] at hjudging
    exact IsTrans.trans _ _ _ (hnoting (hrun hdocument)) hjudging

end Verifier
end Adjudication
