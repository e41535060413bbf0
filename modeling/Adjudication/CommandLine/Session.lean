import Adjudication.CommandLine.Arguments
import Adjudication.Config.Loading
import Adjudication.Export.Delivery
import Adjudication.Verification

/-!
The command: it loads settings, verifies one file, delivers the report and says in its exit what came of it. A run
without a confirmed vulnerability is told apart by whether every finding was judged.
-/

namespace Adjudication.CommandLine

/-- How the command ends. -/
inductive Exit where
  /-- All findings were judged and none of them blocks. -/
  | clean
  /-- Some finding blocks. -/
  | confirmed
  /-- Nothing could be verified: the arguments, the settings or the run are at fault. -/
  | failed
  /-- No finding blocks, but not all could be judged. -/
  | unjudged
  | cancelled
  | helped
  | crashed (f : Failure)

def Exit.code : Exit → Nat
  | clean | helped => 0
  | confirmed | crashed _ => 1
  | failed => 2
  | unjudged => 3
  | cancelled => 130

variable {σ : Type}

/-! ### Words -/

inductive Colour where
  | red
  | yellow
  | green
  deriving DecidableEq, Repr

def Colour.name : Colour → String
  | red => "red"
  | yellow => "yellow"
  | green => "green"

/-- A text in a colour. -/
def Colour.around (colour : Colour) (text : Text.Wide) : Text.Wide :=
  .text ("[" ++ colour.name ++ "]") ++ text ++ .text "[/]"

def say (colour : Colour) (text : Text.Wide) : Run σ Unit := Run.put (.line (colour.around text))

def vulnerabilities (n : Nat) : String :=
  toString n ++ " confirmed vulnerabilit" ++ (if n = 1 then "y" else "ies")

/-! ### The end of a run -/

/-- What a report without an error comes to. -/
def Exit.ofCounts (blocking unjudged : Nat) : Exit :=
  if blocking ≠ 0 then .confirmed else if unjudged ≠ 0 then .unjudged else .clean

/-- The exit for a report. -/
def Exit.ofReport (r : Report) (onlyHigh : Bool) : Exit :=
  if r.error.isSome then .failed else .ofCounts (Export.blocking r onlyHigh) r.summary.judgingFailed

/-- The last word on a report. -/
def lastWord (r : Report) (onlyHigh : Bool) : Text.Wide :=
  match r.error with
  | some e => Colour.red.around (.text (e.stage.name ++ " failed (") ++ e.kind ++ .text "): " ++ e.message)
  | none =>
    let blocking := Export.blocking r onlyHigh
    let unjudged := r.summary.judgingFailed
    match Exit.ofCounts blocking unjudged with
    | .confirmed => Colour.red.around (.text (vulnerabilities blocking))
    | .unjudged => Colour.yellow.around (.text ("No confirmed vulnerabilities, but " ++ toString unjudged ++
        " finding(s) could not be judged"))
    | _ => Colour.green.around (.text "No confirmed vulnerabilities")

def conclude (r : Report) (onlyHigh : Bool) : Run σ Exit := do
  Run.put (.line (lastWord r onlyHigh))
  return .ofReport r onlyHigh

/-- What is said of a warning. -/
def warned (warning : Text.Wide) : Text.Wide := .text "warning: " ++ warning

/-- Delivers a report, tells its warnings, and concludes. -/
def present (r : Report) (formats : List Export.Format) (o : Options) : Run σ Exit := do
  let _ ← Export.deliver r formats o.out
  for warning in r.warnings do
    say .yellow (warned warning)
  conclude r o.failOnHigh

/-! ### The run -/

/-- Settings with what the arguments and the environment say of the judge laid over them. -/
def adjusted (s : Settings σ) (env : Environment) (o : Options) : Settings σ :=
  { s with judge := { s.judge with
      model := (spoken o.model).getD s.judge.model
      maxWorkers := o.workers.getD s.judge.maxWorkers
      apiKey := spoken env.apiKey <|> s.judge.apiKey } }

/-- The variable of the environment that holds the key. -/
def keyVariable : String := "OPENAI_API_KEY"

/-- What is said where there is no key. -/
def keyless : Text.Wide :=
  .text "Cannot create judge client: " ++ Failure.noKey.message ++ .text (". Set " ++ keyVariable ++ ".")

/-- A client for the judge; nothing if there is no key. -/
def openJudge [Time.Seconds σ] (s : Settings σ) : Run σ (Option (Judge.Client σ)) := do
  match ← Run.outcome (Judge.Client.ofConfig s.judge) with
  | .ok c => return some c
  | .error .noKey =>
    say .red keyless
    return none
  | .error e => throw e

/-- What is said of a run that is cancelled. -/
def dropped (during : Activity) : Text.Wide := .text ("Verification cancelled: " ++ during.cancelledText)

/-- The report of a run; nothing if the run is cancelled. -/
def attended [Time.Seconds σ] (v : Verifier σ) (source : Source) (deadline : Option σ) :
    Run σ (Option Report) := do
  let token ← Run.newToken deadline none
  match ← Run.outcome (v.verify source (some token) none) with
  | .ok r => return some r
  | .error (.cancelled during) =>
    say .yellow (dropped during)
    return none
  | .error e => throw e

/-- The source in a file, named for the file. -/
def sourceOf (file : Files.Path) : Run σ Source := do
  let content ← Run.ask fun t => t.read file
  Run.ofExcept (fun e => .invalid e.forget) (Source.make content file.name)

/-- What is noted of a run that begins. -/
def announcement (s : Settings σ) (o : Options) (formats : List Export.Format) : Text.Wide :=
  .text ("Starting verification: contract=" ++ o.contract.text ++ " model=" ++ s.judge.model ++ " formats=" ++
    Export.Format.shown formats)

/-- Verifies the file that the options name. The judge's client is closed before the report is delivered. -/
def verify [Time.Seconds σ] (s : Settings σ) (o : Options) (deadline : Option σ)
    (formats : List Export.Format) : Run σ Exit := do
  match ← openJudge s with
  | none => return .failed
  | some judge =>
    let source ← sourceOf o.contract
    Run.put (.note (announcement s o formats))
    match ← Run.andThen (attended (.ofSettings s judge) source deadline) judge.close with
    | none => return .cancelled
    | some r => present r formats o

/-- Loads the settings; nothing if they are at fault. -/
def loadSettings (env : Environment) (o : Options) : Run Float (Option (Settings Float)) := do
  let scene ← get
  match Settings.load scene.host.collections scene.files env o.config with
  | .ok s => return some s
  | .error (.config e) =>
    say .red e.text
    return none
  | .error e => throw e

/-- The command with arguments that have been read. -/
def perform (env : Environment) (o : Options) : Run Float Exit := do
  match Export.Format.choose o.formats with
  | .error _ => return .failed
  | .ok formats =>
    match ← loadSettings env o with
    | none => return .failed
    | some s => verify (adjusted s env o) o o.deadline formats

/-- The command. -/
def run (env : Environment) (args : List String) : Run Float Exit := do
  match Request.ofArguments? (← get).files args with
  | none => return .failed
  | some .help => return .helped
  | some (.run o) => perform env o

/-- The command with its end in any case: what nobody has taken care of is a crash. -/
def invoke (env : Environment) (args : List String) (s : Scene Float) : Exit × Scene Float :=
  match run env args s with
  | (.ok exit, s) => (exit, s)
  | (.error f, s) => (.crashed f, s)

/-- A report is clean only if nothing blocks and nothing is left unjudged. -/
theorem Exit.ofCounts_eq_clean_iff {blocking unjudged : Nat} :
    Exit.ofCounts blocking unjudged = .clean ↔ blocking = 0 ∧ unjudged = 0 := by
  by_cases hb : blocking = 0 <;> by_cases hu : unjudged = 0 <;> simp [Exit.ofCounts, hb, hu]

end Adjudication.CommandLine
