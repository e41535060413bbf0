import Adjudication.Decimal.Layout

/-!
Lengths and points of time as numbers of seconds. The clock, tokens, waits and timeouts are written for any type
of numbers with the operations here, so that a program runs on doubles while laws can be stated in exact time.
-/

namespace Adjudication.Time

/-- Numbers that can be taken an integer number of times. -/
class Multiple (σ : Type) where
  times : Int → σ → σ
  /-- Whether a number can be taken so many times. -/
  reaches : Int → σ → Bool

/-- Why a clock shows no instant of the calendar. -/
inductive ClockFault where
  | notANumber
  | infinite
  /-- More days have gone by than can be counted. -/
  | tooManyDays (days : Int)
  /-- The instant is before the year 1 or after the year 9999. -/
  | outOfRange
  deriving DecidableEq, Repr

namespace ClockFault

/-- The greatest number of days that is counted. -/
def mostDays : Nat := 999999999

def message : ClockFault → String
  | notANumber => "cannot convert float NaN to integer"
  | infinite => "cannot convert float infinity to integer"
  | tooManyDays days =>
    if -0x80000000 ≤ days ∧ days < 0x80000000 then
      "days=" ++ toString days ++ "; must have magnitude <= " ++ toString mostDays
    else "Python int too large to convert to C int"
  | outOfRange => "date value out of range"

end ClockFault

/-- Numbers of seconds. -/
class Seconds (σ : Type) extends Multiple σ where
  zero : σ
  add : σ → σ → σ
  sub : σ → σ → σ
  le : σ → σ → Bool
  lt : σ → σ → Bool
  /-- The number nearest to a fraction. -/
  ratio : (numerator denominator : Nat) → σ
  /-- Whole microseconds, a half going to the even neighbour. -/
  microseconds : σ → Except ClockFault Int
  /-- The text with one decimal place. -/
  tenths : σ → String
  /-- The text with as few digits as needed, six at most. -/
  brief : σ → String

namespace Seconds

variable {σ : Type} [Seconds σ]

/-- The greater of two, the first unless the second is greater. -/
def larger (a b : σ) : σ := if lt a b then b else a

/-- The lesser of two, the first unless the second is less. -/
def lesser (a b : σ) : σ := if lt b a then b else a

/-- A twentieth of a second: how long a wait may overlook that a parent was cancelled. -/
def slice : σ := ratio 1 20

/-- A tenth of a second: how often a running process is looked at. -/
def tick : σ := ratio 1 10

end Seconds

/-- The integer nearest to a double, a half going to the even neighbour. -/
def roundDouble (x : Float) : Int :=
  match Decimal.classify x with
  | .finite b =>
    let magnitude : Nat :=
      if 0 ≤ b.exponent then b.mantissa * Nat.pow 2 b.exponent.toNat
      else
        let unit := Nat.pow 2 (-b.exponent).toNat
        let below := b.mantissa / unit
        let twice := 2 * (b.mantissa % unit)
        if twice < unit ∨ (twice = unit ∧ below % 2 = 0) then below else below + 1
    if b.negative then -(magnitude : Int) else magnitude
  | _ => 0

/-- The integer part of a finite double. -/
def truncated (b : Decimal.Binary) : Int :=
  let magnitude : Nat :=
    if 0 ≤ b.exponent then b.mantissa * Nat.pow 2 b.exponent.toNat else b.mantissa / Nat.pow 2 (-b.exponent).toNat
  if b.negative then -(magnitude : Int) else magnitude

/-- Microseconds of a double, those of whole seconds and those of the rest of a second counted apart. -/
def microsecondsOf (x : Float) : Except ClockFault Int :=
  match Decimal.classify x with
  | .notANumber => .error .notANumber
  | .infinite _ => .error .infinite
  | .finite b =>
    let whole := truncated b
    .ok (whole * 1000000 + roundDouble ((x - Float.ofInt whole) * 1000000.0))

instance : Multiple Int where
  times n x := n * x
  reaches _ _ := true

instance : Seconds Float where
  times n x := Float.ofInt n * x
  reaches n _ := (Decimal.ofInt? n).isSome
  zero := 0.0
  add a b := a + b
  sub a b := a - b
  le a b := a ≤ b
  lt a b := a < b
  ratio n d := Float.ofNat n / Float.ofNat d
  microseconds := microsecondsOf
  tenths := Decimal.fixedText 1
  brief := Decimal.generalText

end Adjudication.Time
