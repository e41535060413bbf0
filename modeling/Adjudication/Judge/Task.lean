import Adjudication.Judge.Client
import Adjudication.Pool
import Adjudication.Report.Basic

/-!
Judging all findings of a run. Each finding gets one outcome: its judgment, or the record of the failure to judge it.
One finding is judged after the other, or several side by side in a pool.
-/

namespace Adjudication.Judge

/-- The record of a failure to judge. It holds the response only where that is text. -/
def recordOf (e : JudgeError) : Except Failure FailureRecord :=
  let rawResponse (d : Json) := (Schema.nullable Schema.text d).under (.field "raw_response")
  match Schema.validate "JudgeFailureRecord" rawResponse e.rawResponse with
  | .ok raw => .ok ⟨e.kind, e.message, e.attempts, raw⟩
  | .error e => .error (.invalid e.forget)

variable {σ : Type} [Time.Seconds σ]

/-- The outcome of a finding whose judging came to something. -/
def settle (f : Finding) : Except Failure Judgment → Run σ Outcome
  | .ok j => return ⟨f, .judged j⟩
  | .error (.judging e) => do
    Run.log .warning (.text ("Judging " ++ f.checkId ++ " failed: ") ++ e.text)
    let r ← Run.ofExcept id (recordOf e)
    return ⟨f, .failed r⟩
  | .error e => throw e

/-- Judges one finding unless the run is cancelled. -/
def judgeOne (c : Client σ) (code : String) (token : Time.TokenId) (f : Finding) : Run σ Outcome := do
  Run.heed (some token)
  settle f (← Run.outcome (judge c f code (some token)))

/-! ### Side by side -/

/-- How far the judging of a finding has come. -/
inductive Progress (σ : Type) where
  | fresh
  | underWay (phase : Retry.Phase σ Received)
  | ended (r : Except Failure Outcome)

/-- A finding that is judged in a pool. -/
structure Task (σ : Type) where
  finding : Finding
  progress : Progress σ

namespace Task

def ofFinding (f : Finding) : Task σ := ⟨f, .fresh⟩

def result? (t : Task σ) : Option (Except Failure Outcome) :=
  match t.progress with
  | .ended r => some r
  | _ => none

/-- Ends a task with what its judging came to. -/
def conclude (t : Task σ) (r : Except Failure Judgment) : StateM (Scene σ) (Task σ) := fun s =>
  let (outcome, s) := settle t.finding r s
  ({ t with progress := .ended outcome }, s)

/-- A phase of a task. The look at the token and the request that follows it are one step. -/
def step (c : Client σ) (code : String) (token : Time.TokenId) (t : Task σ) :
    StateM (Scene σ) (Task σ) := fun s =>
  let loop := attempts c t.finding code (some token)
  match t.progress with
  | .fresh =>
    match Run.heed (some token) s with
    | (.error e, s) => ({ t with progress := .ended (.error e) }, s)
    | (.ok (), s) =>
      if loop.attempts < 1 then t.conclude (.error .noAttempts) s
      else ({ t with progress := .underWay (.calling 1) }, s)
  | .underWay (.ended received) => t.conclude (judgmentOf received) s
  | .underWay phase =>
    match loop.step phase s with
    | (.ok phase, s) => ({ t with progress := .underWay phase }, s)
    | (.error stop, s) => t.conclude (.error (failureOfStop stop)) s
  | .ended _ => (t, s)

/-- How many steps a task takes at most. -/
def mostSteps (c : Client σ) : Nat := 2 * c.config.maxAttempts + 2

end Task

/-- Judges findings in a pool. The workers have a token of their own below the given one: it is cancelled when
    the pool stops, the given one is not. -/
def judgeInPool (c : Client σ) (workers : Nat) (code : String) (token : Time.TokenId)
    (fs : List Finding) : Run σ (List Outcome) := do
  let scope ← Run.newToken none (some token)
  let w : Work (Scene σ) (Task σ) Failure Outcome :=
    { step := Task.step c code scope
      result? := Task.result?
      stop := modify fun s => s.cancel scope }
  let moves := fs.length * (Task.mostSteps c + 2)
  let schedule := (← get).schedule
  let pool ← liftM (Pool.run w moves schedule (.ofTasks (min workers fs.length) (fs.map Task.ofFinding)))
  Run.ofExcept id pool.outcome

/-- Judges all findings. -/
def judgeAll (c : Client σ) (workers : Nat) (code : String) (token : Time.TokenId)
    (fs : List Finding) : Run σ (List Outcome) :=
  if workers = 1 ∨ fs.length ≤ 1 then fs.mapM (judgeOne c code token)
  else judgeInPool c workers code token fs

end Adjudication.Judge
