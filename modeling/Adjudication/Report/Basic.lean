import Adjudication.Finding
import Adjudication.Judgment
import Adjudication.Time.Timestamp

/-!
The report of a run: one outcome for every finding, each a judgment or the record of a failure and never
both, or the error that ended the run. The counts of a report are taken from its outcomes.
-/

namespace Adjudication

open Schema

/-- What became of one finding. -/
inductive Ruling where
  | judged (judgment : Judgment)
  | failed (failure : FailureRecord)
  deriving DecidableEq, Repr

structure Outcome where
  finding : Finding
  ruling : Ruling
  deriving DecidableEq, Repr

inductive Status where
  | real
  | falsePositive
  | judgingFailed
  deriving DecidableEq, Repr

def Status.name : Status → String
  | real => "real"
  | falsePositive => "false_positive"
  | judgingFailed => "judging_failed"

namespace Outcome

def judgment? (o : Outcome) : Option Judgment :=
  match o.ruling with
  | .judged j => some j
  | .failed _ => none

def failure? (o : Outcome) : Option FailureRecord :=
  match o.ruling with
  | .judged _ => none
  | .failed f => some f

def status (o : Outcome) : Status :=
  match o.ruling with
  | .judged j => if j.isReal then .real else .falsePositive
  | .failed _ => .judgingFailed

def toJson (o : Outcome) : Json :=
  .obj [("finding", o.finding.toJson), ("judgment", .ofOption Judgment.toJson o.judgment?),
    ("failure", .ofOption FailureRecord.toJson o.failure?), ("status", .str o.status.name)]

/-- An outcome has to carry exactly one of a judgment and a failure. -/
def check {δ : Type} [Shaped δ] (d : δ) : Checked δ Outcome :=
  record "VerificationOutcome" d fun ms =>
    let parts := (fun f j r => (f, j, r)) <$> required d ms "finding" Finding.check
      <*> defaulted ms "judgment" none (nullable Judgment.check)
      <*> defaulted ms "failure" none (nullable FailureRecord.check)
    parts.bind fun
      | (f, some j, none) => .ok ⟨f, .judged j⟩
      | (f, none, some r) => .ok ⟨f, .failed r⟩
      | _ => .fault (.rule "an outcome carries exactly one of judgment or failure") d

end Outcome

/-- The stages that can end a run. -/
inductive Stage where
  | staging
  | analyzer
  | parser
  deriving DecidableEq, Repr

namespace Stage

def name : Stage → String
  | staging => "staging"
  | analyzer => "analyzer"
  | parser => "parser"

def named : List (String × Stage) :=
  [("staging", staging), ("analyzer", analyzer), ("parser", parser)]

end Stage

/-- The error that ended a run. -/
structure RunError where
  stage : Stage
  kind : Text.Wide
  message : Text.Wide
  exitCode : Option Int
  deriving DecidableEq, Repr

namespace RunError

def toJson (e : RunError) : Json :=
  .obj [("stage", .str e.stage.name), ("kind", .ofWide e.kind), ("message", .ofWide e.message),
    ("exit_code", .ofOption .int e.exitCode)]

def check {δ : Type} [Shaped δ] (d : δ) : Checked δ RunError :=
  record "PipelineError" d fun ms =>
    RunError.mk <$> required d ms "stage" (among Stage.named)
      <*> required d ms "kind" text
      <*> required d ms "message" text
      <*> defaulted ms "exit_code" none (nullable integer)

end RunError

inductive RunStatus where
  | success
  | failed
  deriving DecidableEq, Repr

namespace RunStatus

def name : RunStatus → String
  | success => "success"
  | failed => "failed"

def named : List (String × RunStatus) := [("success", success), ("failed", failed)]

end RunStatus

structure Report where
  sourceId : Text.Wide
  status : RunStatus
  startedAt : Time.Timestamp
  finishedAt : Time.Timestamp
  judgeModel : Option Text.Wide
  analyzerExitCode : Option Int
  outcomes : List Outcome
  error : Option RunError
  warnings : List Text.Wide
  deriving DecidableEq, Repr

/-- How many outcomes there are in all and of each status. -/
structure Summary where
  total : Nat
  real : Nat
  falsePositive : Nat
  judgingFailed : Nat
  deriving DecidableEq, Repr

namespace Summary

def members (s : Summary) : List (String × Nat) :=
  [("total", s.total), ("real", s.real), ("false_positive", s.falsePositive),
    ("judging_failed", s.judgingFailed)]

def toJson (s : Summary) : Json := .obj (s.members.map fun (name, n) => (name, .int n))

/-- The counts as a message shows them. -/
def text (s : Summary) : String :=
  "\x7b" ++ ", ".intercalate (s.members.map fun (name, n) => "'" ++ name ++ "': " ++ toString n) ++
    "\x7d"

end Summary

namespace Report

def count (r : Report) (s : Status) : Nat := (r.outcomes.filter fun o => o.status = s).length

def summary (r : Report) : Summary :=
  ⟨r.outcomes.length, r.count .real, r.count .falsePositive, r.count .judgingFailed⟩

def members (r : Report) : Json.Members :=
  [("source_id", .ofWide r.sourceId), ("status", .str r.status.name),
    ("started_at", .str r.startedAt.text), ("finished_at", .str r.finishedAt.text),
    ("judge_model", .ofOption .ofWide r.judgeModel),
    ("analyzer_exit_code", .ofOption .int r.analyzerExitCode),
    ("outcomes", .arr (r.outcomes.map Outcome.toJson)),
    ("error", .ofOption RunError.toJson r.error), ("warnings", .arr (r.warnings.map .ofWide))]

def toJson (r : Report) : Json := .obj r.members

def check {δ : Type} [Shaped δ] (d : δ) : Checked δ Report :=
  record "VerificationReport" d fun ms =>
    Report.mk <$> required d ms "source_id" text
      <*> required d ms "status" (among RunStatus.named)
      <*> required d ms "started_at" Time.timestamp
      <*> required d ms "finished_at" Time.timestamp
      <*> defaulted ms "judge_model" none (nullable text)
      <*> defaulted ms "analyzer_exit_code" none (nullable integer)
      <*> defaulted ms "outcomes" [] (tupleOf Outcome.check)
      <*> defaulted ms "error" none (nullable RunError.check)
      <*> defaulted ms "warnings" [] (tupleOf text)

end Report
end Adjudication
