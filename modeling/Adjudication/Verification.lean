import Adjudication.Analyzer.Execution
import Adjudication.Analyzer.Results
import Adjudication.Judge.Task
import Adjudication.Staging

/-!
Verifying a source: it is staged, the analyzer is run on it, its results are read, and every finding is judged. A
failure of staging, of the analyzer or of its results gives a report of a run that failed; a run that is
cancelled, or that meets anything else, gives no report. The slot is released in any case.
-/

namespace Adjudication

/-- Everything that a verification is made with. -/
structure Verifier (σ : Type) where
  command : List String
  timeout : σ
  judge : Judge.Client σ
  /-- The root that runs are staged below. -/
  root : Files.Path
  workers : Nat

/-- The directory of temporary files. -/
def temporaryDirectory : Files.Path := Files.Path.ofText "/tmp"

/-- The present instant. -/
def Run.moment {σ : Type} : Run σ Time.Timestamp := do
  Run.ofExcept .noInstant (← get).moment

namespace Verifier

variable {σ : Type} [Time.Seconds σ]

def ofSettings (s : Settings σ) (judge : Judge.Client σ) : Verifier σ :=
  { command := s.analyzer.command, timeout := s.analyzer.timeout, judge
    root := s.staging.root.getD temporaryDirectory, workers := max 1 s.judge.maxWorkers }

/-- What a run comes to, apart from what is the same for every run. -/
structure Ending where
  exitCode : Option Int
  outcomes : List Outcome
  error : Option RunError

/-- The end of a run at one of its stages. -/
def fatal (stage : Stage) (kind : String) (message : Text.Wide) (exitCode : Option Int) : Ending :=
  ⟨exitCode, [], some ⟨stage, .text kind, message, exitCode⟩⟩

/-- The findings of a document; failures to read it are values. -/
def findings (d : Analyzer.Document) : Run σ (Except ResultsError (List Finding)) := do
  let s ← get
  match Analyzer.findingsOfFile s.host.levels s.files d.file with
  | .ok fs =>
    Run.log .info (.text ("Parsed " ++ toString fs.length ++ " finding(s)"))
    return .ok fs
  | .error (.results e) => return .error e
  | .error e => throw e

/-- The part of a run that goes on in a slot. -/
def inSlot (v : Verifier σ) (source : Source) (token : Time.TokenId) (slot : Slot) : Run σ Ending := do
  Run.heed (some token)
  let run := Analyzer.run v.command v.timeout slot.source slot.output (some token)
  match ← Run.outcome run with
  | .error (.analyzer e) =>
    Run.log .error (.text "Analyzer failed: " ++ e.text)
    return fatal .analyzer e.kind e.message e.exitCode
  | .error e => throw e
  | .ok document =>
    match ← findings document with
    | .error e =>
      Run.log .error (.text "Cannot parse analyzer output: " ++ e.text)
      return fatal .parser e.kind e.message (some document.exitCode)
    | .ok fs =>
      let outcomes ← Judge.judgeAll v.judge v.workers source.text token fs
      return ⟨some document.exitCode, outcomes, none⟩

/-- A run with its slot around it. -/
def staged (v : Verifier σ) (source : Source) (token : Time.TokenId) (runId : Option String) :
    Run σ (Ending × List Text.Wide) := do
  match ← Run.outcome (Staging.within v.root source runId (v.inSlot source token)) with
  | .ok r => return r
  | .error (.staging e) =>
    Run.log .error (.text "Staging failed: " ++ e.text)
    return (fatal .staging e.kind e.message none, [])
  | .error e => throw e

def report (v : Verifier σ) (source : Source) (startedAt finishedAt : Time.Timestamp) (e : Ending)
    (warnings : List Text.Wide) : Report :=
  { sourceId := .text source.identifier
    status := if e.error.isSome then .failed else .success
    startedAt, finishedAt, judgeModel := some (.text v.judge.config.model)
    analyzerExitCode := e.exitCode, outcomes := e.outcomes, error := e.error, warnings }

/-- Verifies a source. A run without a token has one of its own. -/
def verify (v : Verifier σ) (source : Source) (token : Option Time.TokenId) (runId : Option String) :
    Run σ Report := do
  let token ← match token with
    | some id => pure id
    | none => Run.newToken none none
  let startedAt ← Run.moment
  Run.log .info (.text ("Verifying " ++ source.identifier))
  let (ending, warnings) ← v.staged source token runId
  let r := v.report source startedAt (← Run.moment) ending warnings
  Run.log .info (.text ("Verification of " ++ source.identifier ++ " finished: status=" ++ r.status.name ++ " " ++
    r.summary.text))
  return r

end Verifier

variable {σ : Type} [Time.Seconds σ]

/-- Verifies code with the given settings. A client that is opened for it is closed again. -/
def verify (code : Text.Wide) (identifier : String) (settings : Settings σ) (judge : Option (Judge.Client σ))
    (token : Option Time.TokenId) : Run σ Report := do
  let run (c : Judge.Client σ) : Run σ Report := do
    let source ← Run.ofExcept Failure.ofSource (Source.ofText code identifier)
    (Verifier.ofSettings settings c).verify source token none
  match judge with
  | some c => run c
  | none =>
    let c ← Judge.Client.ofConfig settings.judge
    Run.andThen (run c) c.close

end Adjudication
