import Adjudication.Text.Blank
import Adjudication.Decimal.Binary

/-!
Numerals in text that stand where a number is wanted: decimal numerals with or without a point and an
exponent, and integers written with a sign, leading zeros, underscores or a fraction of zeros.
-/

namespace Adjudication.Decimal

def isDigit (c : Char) : Bool := '0' ≤ c && c ≤ '9'

/-- The number that a row of decimal digits denotes. -/
def valueOf (ds : List Char) : Nat := ds.foldl (fun n c => 10 * n + (c.toNat - '0'.toNat)) 0

/-- An optional sign: whether it is a minus, and the rest. -/
def splitSign : List Char → Bool × List Char
  | '-' :: rest => (true, rest)
  | '+' :: rest => (false, rest)
  | rest => (false, rest)

/-- An exponent `e`, `e+` or `e-` with digits up to the end of the text; no text is exponent zero. -/
def exponent? : List Char → Option Int
  | [] => some 0
  | c :: rest =>
    if c = 'e' ∨ c = 'E' then
      let (negative, ds) := splitSign rest
      if ds ≠ [] ∧ ds.all isDigit then
        some (if negative then -(valueOf ds : Int) else valueOf ds)
      else none
    else none

/-- Digits with an optional point among or beside them, then an optional exponent: the digits as one
    number and the power of ten that goes with it. -/
def decimal? (s : List Char) : Option (Nat × Int) :=
  let whole := s.takeWhile isDigit
  let rest := s.dropWhile isDigit
  let (fraction, rest) := match rest with
    | '.' :: rest => (rest.takeWhile isDigit, rest.dropWhile isDigit)
    | rest => ([], rest)
  if whole = [] ∧ fraction = [] then none
  else (exponent? rest).map fun e => (valueOf (whole ++ fraction), e - fraction.length)

/-- A signed decimal numeral, or one of the words for infinity and for no number, in any case. -/
def double? (s : List Char) : Option Float :=
  let (negative, body) := splitSign s
  let word := body.map Char.toLower
  if word = "inf".toList ∨ word = "infinity".toList then
    some (if negative then -1.0 / 0.0 else 1.0 / 0.0)
  else if word = "nan".toList then some (0.0 / 0.0)
  else (decimal? body).map fun (digits, e) => nearest negative digits e

/-- Takes single underscores between other characters out; fails if there is none, or one that stands at an
    end or beside another. -/
def withoutUnderscores? (s : List Char) : Option (List Char) :=
  let rec doubled : List Char → Bool
    | '_' :: '_' :: _ => true
    | _ :: rest => doubled rest
    | [] => false
  if s.head? = some '_' ∨ s.getLast? = some '_' ∨ '_' ∉ s ∨ doubled s then none
  else some (s.filter (· ≠ '_'))

/-- A double in a text field: blanks around it are allowed, or else single underscores within it. -/
def readDouble? (s : String) : Option Float :=
  match double? (Text.trimList Text.isWhiteSpace s.toList) with
  | some x => some x
  | none => (withoutUnderscores? s.toList).bind double?

/-- Why a text is no integer. -/
inductive IntegerFault
  | unreadable
  | tooLong
  deriving DecidableEq, Repr

/-- The greatest number of digits that a text may hold to be converted to an integer. -/
def digitLimit : Nat := 4300

/-- An integer in its canonical form: a minus or no sign, and no zero in front of other digits. -/
def canonicalInteger (s : List Char) : Except IntegerFault Int :=
  let (negative, ds) := match s with
    | '-' :: rest => (true, rest)
    | rest => (false, rest)
  match ds with
  | [] => .error .unreadable
  | ['0'] => .ok 0
  | first :: _ =>
    if !isDigit first || first == '0' then .error .unreadable
    else if digitLimit < (ds.takeWhile isDigit).length + (if negative then 1 else 0) then
      .error .tooLong
    else if !ds.all isDigit then .error .unreadable
    else .ok (if negative then -(valueOf ds : Int) else valueOf ds)

/-- Drops zeros and underscores in front of the first other digit or a minus; one zero stays in front of a point.
    `last` is what was dropped last. -/
def dropZeros? (last : Char) : List Char → Option (List Char)
  | [] => some [last]
  | c :: rest =>
    if c = '0' ∨ c = '_' then dropZeros? c rest
    else if isDigit c || c == '-' then some (c :: rest)
    else if c = '.' then some (last :: c :: rest)
    else none

/-- Drops the zeros that a number starts with, after a minus if there is one. -/
def dropLeadingZeros? : List Char → Option (List Char)
  | '0' :: rest => dropZeros? '0' rest
  | '-' :: '0' :: rest => (dropZeros? '0' rest).map ('-' :: ·)
  | c :: rest => if isDigit c || c == '-' then some (c :: rest) else none
  | [] => none

/-- Drops a point that zeros and nothing else follow. -/
def dropZeroFraction (s : List Char) : List Char :=
  match s.dropWhile (· ≠ '.') with
  | _ :: zeros => if zeros ≠ [] ∧ zeros.all (· == '0') then s.takeWhile (· ≠ '.') else s
  | [] => s

/-- Brings an integer written freely into canonical form. -/
def tidyInteger? (s : List Char) : Option (List Char) := do
  let trimmed := Text.trimList Text.isWhiteSpace s
  let unsigned ← match trimmed with
    | '+' :: '-' :: _ => none
    | '+' :: rest => some rest
    | rest => some rest
  let stripped := dropZeroFraction (← dropLeadingZeros? unsigned)
  match withoutUnderscores? stripped with
  | some cs => some cs
  | none => if stripped.length = s.length then none else some stripped

/-- An integer in a text field. -/
def readInteger (s : String) : Except IntegerFault Int :=
  match canonicalInteger s.toList with
  | .ok i => .ok i
  | .error .tooLong => .error .tooLong
  | .error .unreadable =>
    match tidyInteger? s.toList with
    | none => .error .unreadable
    | some cs => (canonicalInteger cs).mapError fun _ => .unreadable

end Adjudication.Decimal
