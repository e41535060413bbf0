import Adjudication.Time.Seconds

/-!
Exact time: a whole number of microseconds. Its clock always shows the instant that it stands for, and a run in exact
time can be followed step by step.
-/

namespace Adjudication.Time

/-- The double nearest to a number of microseconds, in seconds. -/
def secondsOfMicroseconds (n : Int) : Float := Float.ofInt n / 1000000.0

/-- Numbers of seconds by their microseconds. -/
instance : Seconds Int where
  zero := 0
  add a b := a + b
  sub a b := a - b
  le a b := decide (a ≤ b)
  lt a b := decide (a < b)
  ratio n d := n * 1000000 / d
  microseconds n := .ok n
  tenths n := Decimal.fixedText 1 (secondsOfMicroseconds n)
  brief n := Decimal.generalText (secondsOfMicroseconds n)

end Adjudication.Time
