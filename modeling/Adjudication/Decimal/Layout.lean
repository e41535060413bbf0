import Adjudication.Decimal.Shortest

/-!
How decimals are written: the layout of a shortest decimal, a fixed number of places, and a fixed number of
significant digits.
-/

namespace Adjudication.Decimal

/-- The choices of a number format. -/
structure Layout where
  /-- Least exponent of the leading digit that is written positionally. -/
  least : Int
  /-- Least exponent that is no longer written positionally. -/
  bound : Int
  /-- Whether an integer written positionally ends in a point and a zero. -/
  pointZero : Bool
  /-- Least number of digits of the exponent. -/
  exponentWidth : Nat

/-- Numbers in results and messages: positional from 1e-4 up to but not including 1e16, with a point. -/
def Layout.plain : Layout := ⟨-4, 16, true, 2⟩

/-- Numbers with six significant digits: positional from 1e-4 up to but not including 1e6. -/
def Layout.general : Layout := ⟨-4, 6, false, 2⟩

def digitsOf (n : Nat) : List Char := Nat.toDigits 10 n

def padLeft (width : Nat) (s : List Char) : List Char :=
  List.replicate (width - s.length) '0' ++ s

/-- Writes `digits * 10^exponent` with the point where its place says. -/
def positional (l : Layout) (s : Scientific) : List Char :=
  let ds := digitsOf s.digits
  if 0 ≤ s.exponent then
    ds ++ List.replicate s.exponent.toNat '0' ++ (if l.pointZero then ['.', '0'] else [])
  else
    let places := (-s.exponent).toNat
    let padded := padLeft (places + 1) ds
    padded.take (padded.length - places) ++ '.' :: padded.drop (padded.length - places)

/-- Writes a decimal as one digit, the others after a point, and the exponent. -/
def scientific (l : Layout) (s : Scientific) : List Char :=
  let ds := digitsOf s.digits
  let lead := s.exponent + (ds.length - 1 : Nat)
  let mark := if lead < 0 then '-' else '+'
  let fraction := match ds.drop 1 with
    | [] => []
    | rest => '.' :: rest
  ds.take 1 ++ fraction ++ 'e' :: mark :: padLeft l.exponentWidth (digitsOf lead.natAbs)

def Layout.magnitude (l : Layout) (s : Scientific) : List Char :=
  let lead := s.exponent + (digitCount s.digits - 1 : Nat)
  if s.digits = 0 ∨ (l.least ≤ lead ∧ lead < l.bound) then positional l s else scientific l s

/-- The text of a double: the shortest decimal that reads back, in the plain layout. -/
def textOf (x : Float) : String :=
  match classify x with
  | .notANumber => "nan"
  | .infinite negative => if negative then "-inf" else "inf"
  | .finite b =>
    let text := String.ofList (Layout.plain.magnitude (shortest b.mantissa b.exponent))
    if b.negative then "-" ++ text else text

/-- The integer nearest to `n / d`, a half going to the even neighbour. -/
def roundDiv (n d : Nat) : Nat :=
  let below := n / d
  let twice := 2 * (n % d)
  if twice < d then below
  else if d < twice then below + 1
  else if below % 2 = 0 then below else below + 1

/-- `m * 2^q * 10^p` as a fraction. -/
def scaledFraction (m : Nat) (q p : Int) : Nat × Nat :=
  (m * Nat.pow 2 q.toNat * Nat.pow 10 p.toNat, Nat.pow 2 (-q).toNat * Nat.pow 10 (-p).toNat)

def signed (negative : Bool) (text : String) : String := if negative then "-" ++ text else text

/-- A double with a fixed number of places. -/
def fixedText (places : Nat) (x : Float) : String :=
  match classify x with
  | .notANumber => "nan"
  | .infinite negative => signed negative "inf"
  | .finite b =>
    let (n, d) := scaledFraction b.mantissa b.exponent places
    signed b.negative
      (String.ofList (positional ⟨0, 0, false, 2⟩ ⟨roundDiv n d, -(places : Int)⟩))

/-- A double with six significant digits, zeros at the end left out. -/
def generalText (x : Float) : String :=
  match classify x with
  | .notANumber => "nan"
  | .infinite negative => signed negative "inf"
  | .finite b =>
    if b.mantissa = 0 then signed b.negative "0"
    else
      let (n, d) := scaledFraction b.mantissa b.exponent 0
      let places := 5 - leadingExponent n d
      let (n, d) := scaledFraction b.mantissa b.exponent places
      let rounded : Scientific := ⟨roundDiv n d, -places⟩
      signed b.negative (String.ofList (Layout.general.magnitude (rounded.stripZeros 10)))

end Adjudication.Decimal
