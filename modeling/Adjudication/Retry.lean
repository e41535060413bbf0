import Adjudication.Text.Wide

/-!
Calling again what failed. A call is made up to a number of attempts; after a failure that is worth another
attempt the delay is looked up, the failure is noted, and the delay is waited through. The loop is a machine
of phases, so that several loops can be run side by side phase by phase.
-/

namespace Adjudication

/-- A computation that changes a state and may fail; what it changed before it failed stays. -/
abbrev Act (S ε α : Type) : Type := ExceptT ε (StateM S) α

/-- A call and how it is repeated. Attempts are counted from 1. -/
structure Retry (S ε σ α : Type) where
  attempts : Nat
  call : (attempt : Nat) → Act S ε α
  retryable : ε → Bool
  backoff : (attempt attempts : Nat) → Act S ε σ
  note : (attempt : Nat) → ε → σ → Act S ε Unit
  pause : σ → Act S ε Unit

namespace Retry

/-- Where a loop stands. -/
inductive Phase (σ α : Type) where
  | calling (attempt : Nat)
  | pausing (attempt : Nat) (delay : σ)
  | ended (value : α)

/-- Why a loop ends without a value: no attempt was allowed, the last one failed too, something failed that is
    not called again, or there was no phase left to end it. -/
inductive Stop (ε : Type) where
  | noAttempts
  | exhausted (attempts : Nat) (last : ε)
  | escaped (e : ε)
  | unreachable

/-- What a stop says, given what a failure says. -/
def Stop.message {ε : Type} (text : ε → Text.Wide) : Stop ε → Text.Wide
  | noAttempts => .text "max_attempts must be >= 1"
  | exhausted attempts last =>
    .text ("gave up after " ++ toString attempts ++ " attempt(s): ") ++ text last
  | escaped e => text e
  | unreachable => .text "unreachable"

variable {S ε σ α : Type}

/-- A failure from which there is no way back. -/
def escaping (a : Act S ε α) : Act S (Stop ε) α := a.adapt .escaped

/-- What follows a failed attempt: the end, or a pause. -/
def afterFailure (r : Retry S ε σ α) (attempt : Nat) (e : ε) : Act S (Stop ε) (Phase σ α) :=
  if !r.retryable e then throw (.escaped e)
  else if attempt = r.attempts then throw (.exhausted attempt e)
  else escaping do
    let delay ← r.backoff attempt r.attempts
    r.note attempt e delay
    return .pausing attempt delay

/-- One phase of the loop. -/
def step (r : Retry S ε σ α) : Phase σ α → Act S (Stop ε) (Phase σ α)
  | .calling attempt => fun s =>
    match r.call attempt s with
    | (.ok a, s) => (.ok (.ended a), s)
    | (.error e, s) => r.afterFailure attempt e s
  | .pausing attempt delay => escaping do
    r.pause delay
    return .calling (attempt + 1)
  | .ended a => return .ended a

/-- Phase by phase to the end, within a number of phases. -/
def runFrom (r : Retry S ε σ α) : (phases : Nat) → Phase σ α → Act S (Stop ε) α
  | _, .ended a => return a
  | 0, _ => throw .unreachable
  | phases + 1, p => do
    let p ← r.step p
    r.runFrom phases p

/-- The whole loop. Every attempt but the last is followed by a pause, so twice their number of phases is
    enough. -/
def run (r : Retry S ε σ α) : Act S (Stop ε) α :=
  if r.attempts < 1 then throw .noAttempts else r.runFrom (2 * r.attempts) (.calling 1)

end Retry
end Adjudication
