import Adjudication.Decimal.Binary

/-!
The shortest decimal that reads back as a given double. The reals that round to `m * 2^q` form an interval,
its ends included when `m` is even. For one digit, two digits and so on, the two neighbours of the value on
that decimal grid are tested in exact arithmetic; the first grid with a neighbour inside wins, and of two
the nearer one, the even one of two that are equally near. If any point of a grid lies in the interval, so does
one of the two neighbours.
-/

namespace Adjudication.Decimal

/-- A decimal `digits * 10^exponent`. -/
structure Scientific where
  digits : Nat
  exponent : Int
  deriving DecidableEq, Repr

/-- The interval of reals that round to a double, over one positive denominator. -/
structure Interval where
  low : Nat
  value : Nat
  high : Nat
  denominator : Nat
  closed : Bool
  deriving DecidableEq, Repr

/-- The interval of `m * 2^q` for `0 < m`. The gap below is half as wide where `m` is the least mantissa
    of its binade. -/
def Interval.ofBinary (m : Nat) (q : Int) : Interval :=
  let low := if m = Nat.pow 2 52 ∧ -1074 < q then 4 * m - 1 else 4 * m - 2
  let up := Nat.pow 2 q.toNat
  let down := 4 * Nat.pow 2 (-q).toNat
  ⟨low * up, 4 * m * up, (4 * m + 2) * up, down, m % 2 == 0⟩

/-- Whether `n / d` lies in the interval, `d` being positive. -/
def Interval.contains (i : Interval) (n d : Nat) : Bool :=
  if i.closed then i.low * d ≤ n * i.denominator && n * i.denominator ≤ i.high * d
  else i.low * d < n * i.denominator && n * i.denominator < i.high * d

/-- Tests the grid of the multiples of `10^exponent`. -/
def Interval.onGrid (i : Interval) (exponent : Int) : Option Scientific :=
  let up := Nat.pow 10 exponent.toNat
  let down := Nat.pow 10 (-exponent).toNat
  -- `value / denominator` in units of the grid is `scaled / unit`
  let scaled := i.value * down
  let unit := i.denominator * up
  let below := scaled / unit
  let above := below + 1
  let belowIn := 0 < below && i.contains (below * up) down
  let aboveIn := i.contains (above * up) down
  if belowIn && aboveIn then
    let twice := 2 * (scaled - below * unit)
    if twice < unit ∨ (twice = unit ∧ below % 2 = 0) then some ⟨below, exponent⟩
    else some ⟨above, exponent⟩
  else if belowIn then some ⟨below, exponent⟩
  else if aboveIn then some ⟨above, exponent⟩
  else none

/-- The exponent of the leading decimal digit of `n / d`. -/
def leadingExponent (n d : Nat) : Int :=
  let guess : Int := (digitCount n : Int) - digitCount d
  let reaches : Bool :=
    if 0 ≤ guess then d * Nat.pow 10 guess.toNat ≤ n else d ≤ n * Nat.pow 10 (-guess).toNat
  if reaches then guess else guess - 1

/-- Tries finer and finer grids. -/
def Interval.search (i : Interval) (lead : Int) : (fuel digits : Nat) → Scientific
  | 0, _ => ⟨i.value / i.denominator, 0⟩
  | fuel + 1, digits =>
    match i.onGrid (lead + 1 - digits) with
    | some s => s
    | none => i.search lead fuel (digits + 1)

/-- Moves the zeros at the end of the digits into the exponent. -/
def Scientific.stripZeros : (fuel : Nat) → Scientific → Scientific
  | 0, s => s
  | fuel + 1, s =>
    if s.digits ≠ 0 ∧ s.digits % 10 = 0 then stripZeros fuel ⟨s.digits / 10, s.exponent + 1⟩ else s

/-- The shortest decimal for `m * 2^q`; seventeen digits always suffice. -/
def shortest (m : Nat) (q : Int) : Scientific :=
  if m = 0 then ⟨0, 0⟩
  else
    let i := Interval.ofBinary m q
    (i.search (leadingExponent i.value i.denominator) 18 1).stripZeros 400

end Adjudication.Decimal
