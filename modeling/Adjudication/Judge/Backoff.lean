import Adjudication.Time.Seconds

/-!
How long to wait between attempts: a number of base lengths that falls to one before the last attempt, or rises
from one after the first.
-/

namespace Adjudication

inductive Backoff where
  | descending
  | ascending
  deriving DecidableEq, Repr

namespace Backoff

open Time

def name : Backoff → String
  | descending => "descending"
  | ascending => "ascending"

def named : List (String × Backoff) := [("descending", descending), ("ascending", ascending)]

/-- The policy of a name, or what is said of a name that none has. -/
def ofName (name : String) : Except String Backoff :=
  match named.lookup name with
  | some policy => .ok policy
  | none => .error ("Unknown backoff policy '" ++ name ++ "'")

theorem ofName_name (policy : Backoff) : ofName policy.name = .ok policy := by
  cases policy <;> rfl

/-- How many base lengths the wait takes after a failed attempt, the first being attempt 1, of so many attempts in
    all. -/
def factor (policy : Backoff) (attempt attempts : Int) : Int :=
  match policy with
  | descending => attempts - attempt
  | ascending => attempt

def delay {σ : Type} [Multiple σ] (policy : Backoff) (base : σ) (attempt attempts : Int) : σ :=
  Multiple.times (policy.factor attempt attempts) base

/-- The wait, if the base length can be taken so many times. -/
def delay? {σ : Type} [Multiple σ] (policy : Backoff) (base : σ) (attempt attempts : Int) : Option σ :=
  if Multiple.reaches (policy.factor attempt attempts) base then some (policy.delay base attempt attempts)
  else none

end Backoff
end Adjudication
