import Adjudication.Analyzer.Command
import Adjudication.Scene

/-!
Running the analyzer. An argument has to be one that a process can be given. The process is looked at every tenth of a
second; it is killed when its time is up or the run is cancelled. Whether the run was a success is told by the results that
it left and not by its exit code: an analyzer that finds something may well end with another code than zero.
-/

namespace Adjudication.Analyzer

/-- The results that a run left, with what else is known of it. -/
structure Document where
  file : Files.Path
  exitCode : Int
  stdout : String
  stderr : String

/-- How much of the end of the diagnostics is kept, in characters. -/
def diagnosticsKept : Nat := 2000

def tailOf (s : String) : String :=
  let cs := s.toList
  String.ofList (cs.drop (cs.length - diagnosticsKept))

variable {σ : Type} [Time.Seconds σ]

open Time.Seconds (add sub le lt lesser tick)

/-- Kills the process, which ends the run with a failure. What it has put out is waited for and decoded first. -/
def kill (e : Failure) : Run σ Unit := do
  Run.record .killed
  modify fun s => { s with files := s.course.disturbed s.files }
  let c := (← get).course
  match c.lingers with
  | some seconds => Run.advance seconds
  | none => pure ()
  match c.cutOff with
  | some fault => throw (.undecodable fault)
  | none => throw e

/-- Whether the run is cancelled, if it has a token. -/
def isCalledOff (token : Option Time.TokenId) : Run σ Bool :=
  match token with
  | none => return false
  | some id => Run.isCancelled id

/-- Waits until the process ends by itself, with `left` still to run, or has to be killed. -/
def await (timeout deadline : σ) (token : Option Time.TokenId) : (patience : Nat) → σ → Run σ Unit
  | 0, _ => throw .stalled
  | patience + 1, left => do
    let remaining := sub deadline (← Run.now)
    if le remaining Time.Seconds.zero then kill (.analyzer (.timedOut (Time.Seconds.brief timeout)))
    else if ← isCalledOff token then kill (.cancelled .analyzerRun)
    else
      let slice := lesser tick remaining
      if lt slice left then
        Run.advance slice
        await timeout deadline token patience (sub left slice)
      else Run.advance left

/-- What keeps arguments from being given to a process in a directory, before the system is asked for one. -/
def launchFault? (argv : List String) (directory : Files.Path) : Option LaunchFault :=
  if argv = [] then some .noProgram
  else if (directory.text :: argv).any fun arg => '\x00' ∈ arg.toList then some .nullByte
  else none

/-- Launches the process in a directory. -/
def launch (argv : List String) (directory : Files.Path) : Run σ Unit := do
  Run.record (.launched argv directory.text (← Run.now))
  match launchFault? argv directory, (← get).course.launchError with
  | some fault, _ => throw (.launch fault)
  | none, none => return
  | none, some (number, text) =>
    let program := argv.headD ""
    let reason := Files.refusalText number text (Text.quote program)
    throw (.analyzer (.notLaunched program reason))

/-- Starts the analyzer on a staged source. -/
def start (command : List String) (source output : Files.Path) : Run σ (List String) := do
  let argv ← Run.ofExcept .template (arguments command source output)
  Run.log .info ("Running analyzer: " ++ " ".intercalate argv)
  launch argv source.parent
  return argv

/-- What a process that has ended by itself comes to with the files that it has left. -/
def results (c : Course σ) (output : Files.Path) (t : Files.Tree) : Except Failure Document :=
  match c.streams with
  | .error e => .error (.undecodable e)
  | .ok (stdout, stderr) =>
    match t.hasContent output with
    | .error e => .error (.file e)
    | .ok false => .error (.analyzer (.noOutput output.name c.exitCode (tailOf stderr)))
    | .ok true => .ok ⟨output, c.exitCode, stdout, stderr⟩

/-- Runs the analyzer on a staged source. -/
def run (command : List String) (timeout : σ) (source output : Files.Path)
    (token : Option Time.TokenId) : Run σ Document := do
  let argv ← start command source output
  let s ← get
  await timeout (add s.timeline.now timeout) token s.patience s.course.takes
  Run.change fun t => .ok (s.course.finish argv source.parent t)
  Run.ofExcept id (results s.course output (← get).files)

end Adjudication.Analyzer
