/-!
A double as an integer times a power of two, and the way back from a decimal numeral to the nearest double.
-/

namespace Adjudication.Decimal

/-- A finite double `(-1)^sign * mantissa * 2^exponent`. -/
structure Binary where
  negative : Bool
  mantissa : Nat
  exponent : Int
  deriving DecidableEq, Repr

/-- The classes of doubles. -/
inductive Kind
  | finite (value : Binary)
  | infinite (negative : Bool)
  | notANumber
  deriving DecidableEq, Repr

/-- Takes the 64 bits of a double apart. -/
def classify (x : Float) : Kind :=
  let bits : Nat := x.toBits.toNat
  let negative := bits / Nat.pow 2 63 == 1
  let biased : Nat := bits / Nat.pow 2 52 % 2048
  let fraction : Nat := bits % Nat.pow 2 52
  if biased == 2047 then
    if fraction == 0 then .infinite negative else .notANumber
  else if biased == 0 then .finite ⟨negative, fraction, -1074⟩
  else .finite ⟨negative, Nat.pow 2 52 + fraction, (biased : Int) - 1075⟩

def isFinite (x : Float) : Bool :=
  match classify x with
  | .finite _ => true
  | _ => false

def isNotANumber (x : Float) : Bool :=
  match classify x with
  | .notANumber => true
  | _ => false

/-- One more than the greatest integer of 64 bits. -/
def wordBound : Int := 9223372036854775808

/-- The integer that a finite double is, if it is one. -/
def Binary.toInt? (b : Binary) : Option Int :=
  let magnitude? : Option Nat :=
    if 0 ≤ b.exponent then some (b.mantissa * Nat.pow 2 b.exponent.toNat)
    else
      let scale := Nat.pow 2 (-b.exponent).toNat
      if b.mantissa % scale == 0 then some (b.mantissa / scale) else none
  magnitude?.map fun n => if b.negative then -(n : Int) else n

def digitCount (n : Nat) : Nat := (Nat.toDigits 10 n).length

/-- The double nearest to `digits * 10^exponent`, with the sign given. Numerals far outside the range of the
    doubles are settled by their size, without the power of ten. -/
def nearest (negative : Bool) (digits : Nat) (exponent : Int) : Float :=
  let size := (digitCount digits : Int) + exponent
  let magnitude : Float :=
    if digits = 0 then 0.0
    else if 400 < size then 1.0 / 0.0
    else if size < -400 then 0.0
    else Float.ofScientific digits (exponent < 0) exponent.natAbs
  if negative then -magnitude else magnitude

/-- The double nearest to an integer, if it does not lie beyond the range. -/
def ofInt? (i : Int) : Option Float :=
  if 400 < digitCount i.natAbs then none
  else
    let x := Float.ofInt i
    if isFinite x then some x else none

end Adjudication.Decimal
