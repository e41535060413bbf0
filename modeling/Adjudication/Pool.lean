/-!
A pool of workers. Tasks are submitted together and taken in the order of submission, as many at a time as there are
workers; their results are collected in the same order. The first failure collected stops the pool: what has not been
taken is dropped, what has been taken goes on to its end. Which of the possible moves comes next is left open: a
schedule says it, and laws are to hold for every schedule.
-/

namespace Adjudication

/-- What a pool needs to know of its tasks: how a task moves on, when it has a result, and what is done when the
    pool stops. -/
structure Work (S T ε α : Type) where
  step : T → StateM S T
  result? : T → Option (Except ε α)
  stop : StateM S Unit

structure Pool (T ε α : Type) where
  workers : Nat
  tasks : List T
  /-- How many tasks have been taken; they are the first ones. -/
  taken : Nat
  /-- The values of the tasks collected so far. -/
  collected : List α
  failure : Option ε

inductive Move where
  | collect
  | work (task : Nat)
  | take
  deriving DecidableEq, Repr

namespace Pool

variable {S T ε α : Type}

/-- A pool at its start. -/
def ofTasks (workers : Nat) (tasks : List T) : Pool T ε α := ⟨workers, tasks, 0, [], none⟩

def resultOf (w : Work S T ε α) (p : Pool T ε α) (task : Nat) : Option (Except ε α) :=
  (p.tasks[task]?).bind w.result?

/-- The tasks that are taken and not at their end. -/
def busy (w : Work S T ε α) (p : Pool T ε α) : List Nat :=
  (List.range p.taken).filter fun i => (p.resultOf w i).isNone

/-- Whether a worker is free and a task waits for it. -/
def canTake (w : Work S T ε α) (p : Pool T ε α) : Bool :=
  p.failure.isNone && p.taken < p.tasks.length && (p.busy w).length < p.workers

/-- The result that is collected next, once it is there. -/
def awaited (w : Work S T ε α) (p : Pool T ε α) : Option (Except ε α) :=
  if p.failure.isNone && p.collected.length < p.taken then p.resultOf w p.collected.length else none

/-- All moves that are possible. -/
def moves (w : Work S T ε α) (p : Pool T ε α) : List Move :=
  (if (p.awaited w).isSome then [.collect] else []) ++ (p.busy w).map .work ++
    (if p.canTake w then [.take] else [])

def make (w : Work S T ε α) (p : Pool T ε α) : Move → StateM S (Pool T ε α)
  | .take => return { p with taken := p.taken + 1 }
  | .work i => do
    match p.tasks[i]? with
    | none => return p
    | some t =>
      let t ← w.step t
      return { p with tasks := p.tasks.set i t }
  | .collect => do
    match p.awaited w with
    | some (.ok a) => return { p with collected := p.collected ++ [a] }
    | some (.error e) =>
      w.stop
      return { p with failure := some e }
    | none => return p

/-- Moves on until no move is possible, within a number of moves. Each entry of the schedule picks one of the
    possible moves; where it ends the first one is made. -/
def run (w : Work S T ε α) : (patience : Nat) → (schedule : List Nat) → Pool T ε α → StateM S (Pool T ε α)
  | 0, _, p => return p
  | patience + 1, schedule, p =>
    match p.moves w with
    | [] => return p
    | first :: others => do
      let choice := schedule.headD 0 % (others.length + 1)
      let p ← make w p ((first :: others).getD choice first)
      run w patience schedule.tail p

/-- What the pool has come to: the first failure, or the values in order. -/
def outcome (p : Pool T ε α) : Except ε (List α) :=
  match p.failure with
  | some e => .error e
  | none => .ok p.collected

end Pool
end Adjudication
