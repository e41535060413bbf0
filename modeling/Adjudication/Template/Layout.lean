import Adjudication.Template.Value
import Adjudication.Text.Digits

/-!
How a text is laid out: cut to a precision, and filled up to a width on the left, on the right or on both sides.
-/

namespace Adjudication.Template

def refuse {α : Type} (message : String) : Except Fault α := .error (.malformed message)

/-! ### Numbers -/

def largestNumber : Nat := 9223372036854775807

/-- The number that a whole piece denotes, if it is one. Digits in front count by themselves: they may not be too many,
    whatever follows. -/
def numberOf? (piece : List Char) : Except Fault (Option Nat) :=
  let ds := (piece.map Text.digitValue?).takeWhile Option.isSome
  let n := (ds.filterMap id).foldl (fun n d => 10 * n + d) 0
  if largestNumber < n then refuse "Too many decimal digits in format string"
  else .ok (if piece = [] ∨ ds.length < piece.length then none else some n)

/-- Takes a number off the front. -/
def splitNumber (s : List Char) : Except Fault (Option Nat × List Char) := do
  let isDigit := fun c => (Text.digitValue? c).isSome
  return (← numberOf? (s.takeWhile isDigit), s.dropWhile isDigit)

/-! ### Layouts -/

/-- How a text is laid out. -/
structure Layout where
  fill : Char
  align : Char
  width : Option Nat
  precision : Option Nat
  deriving DecidableEq, Repr

def isAlign (c : Char) : Bool := c ∈ ['<', '>', '=', '^']

/-- Takes a character off the front if it is wanted. -/
def splitIf (want : Char → Bool) : List Char → Option Char × List Char
  | c :: rest => if want c then (some c, rest) else (none, c :: rest)
  | [] => (none, [])

def shownCode (c : Char) : String :=
  if 32 < c.toNat ∧ c.toNat < 128 then String.singleton c
  else "\\x" ++ String.ofList (Nat.toDigits 16 c.toNat)

/-- Reads the layout of a text. Signs, the alternate form and the marks of thousands are known, but refused. -/
def readLayout (spec : List Char) : Except Fault Layout := do
  let (fill, align, s) := match spec with
    | f :: a :: rest =>
      if isAlign a then (some f, some a, rest)
      else if isAlign f then (none, some f, a :: rest)
      else (none, none, spec)
    | [a] => if isAlign a then (none, some a, []) else (none, none, spec)
    | [] => (none, none, [])
  let (sign, s) := splitIf (fun c => c ∈ [' ', '+', '-']) s
  let (noNegativeZero, s) := splitIf (· = 'z') s
  let (alternate, s) := splitIf (· = '#') s
  let (zero, s) := splitIf (fun c => fill.isNone ∧ c = '0') s
  let (width, s) ← splitNumber s
  let (comma, s) := splitIf (· = ',') s
  let (underscore, s) := splitIf (· = '_') s
  let both := "Cannot specify both ',' and '_'."
  if comma.isSome ∧ underscore.isSome then refuse both
  if underscore.isSome ∧ s.head? = some ',' then refuse both
  let (point, s) := splitIf (· = '.') s
  let (precision, s) ← if point.isSome then splitNumber s else pure (none, s)
  if point.isSome ∧ precision.isNone then refuse "Format specifier missing precision"
  let kind ← match s with
    | [] => pure 's'
    | [c] => pure c
    | _ =>
      refuse ("Invalid format specifier '" ++ String.ofList spec ++ "' for object of type 'str'")
  if comma.isSome ∨ underscore.isSome then
    let mark := if comma.isSome then "," else "_"
    let numeric := "deEfFgG%".toList ++ (if underscore.isSome then "boxX".toList else [])
    if kind ∉ numeric then
      refuse ("Cannot specify '" ++ mark ++ "' with '" ++ shownCode kind ++ "'.")
  if kind ≠ 's' then
    refuse ("Unknown format code '" ++ shownCode kind ++ "' for object of type 'str'")
  match sign with
  | some ' ' => refuse "Space not allowed in string format specifier"
  | some _ => refuse "Sign not allowed in string format specifier"
  | none => pure ()
  if noNegativeZero.isSome then
    refuse "Negative zero coercion (z) not allowed in string format specifier"
  if alternate.isSome then refuse "Alternate form (#) not allowed in string format specifier"
  let align := align.getD '<'
  if align = '=' then refuse "'=' alignment not allowed in string format specifier"
  return ⟨fill.getD (if zero.isSome then '0' else ' '), align, width, precision⟩

/-- The greatest width that a text is filled up to. -/
def Layout.widest : Nat := 100000000

/-- Cuts a text to the precision and fills it up to the width. -/
def Layout.apply (l : Layout) (text : List Char) : List Char :=
  let kept := match l.precision with
    | some p => text.take p
    | none => text
  let missing := l.width.getD 0 - kept.length
  let left := if l.align = '>' then missing else if l.align = '^' then missing / 2 else 0
  List.replicate left l.fill ++ kept ++ List.replicate (missing - left) l.fill

end Adjudication.Template
