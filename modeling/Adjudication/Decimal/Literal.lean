import Adjudication.Decimal.Numeral
import Adjudication.Text.Digits

/-!
Numbers as people type them: blanks around them, digits of any script, single underscores between digits. An
integer may be written to any base up to sixteen and may then show the base's letter after a zero.
-/

namespace Adjudication.Decimal

/-- Takes out the underscores, each of which has to stand between two digits; `isDigit` says what a digit is. -/
def joinDigits? (isDigit : Char → Bool) : List Char → Option (List Char)
  | [] => some []
  | '_' :: _ => none
  | a :: '_' :: b :: rest =>
    if isDigit a ∧ isDigit b then (joinDigits? isDigit (b :: rest)).map (a :: ·) else none
  | a :: rest => (joinDigits? isDigit rest).map (a :: ·)

/-- Digits of all scripts in ASCII, without the blanks at the ends. -/
def typed (s : List Char) : List Char := Text.trimList Text.isWhiteSpace (Text.asciiDigits s)

/-- A double as it is typed. -/
def typedDouble? (s : List Char) : Option Float := (joinDigits? isDigit (typed s)).bind double?

/-- The value of a digit of bases up to sixteen. -/
def digitOf? (c : Char) : Option Nat :=
  if isDigit c then some (c.toNat - '0'.toNat)
  else if 'a' ≤ c ∧ c ≤ 'f' then some (c.toNat - 'a'.toNat + 10)
  else if 'A' ≤ c ∧ c ≤ 'F' then some (c.toNat - 'A'.toNat + 10)
  else none

def isDigitTo (base : Nat) (c : Char) : Bool := (digitOf? c).any (· < base)

/-- The letter that shows a base after a zero. -/
def baseLetter? : Nat → Option Char
  | 2 => some 'b'
  | 8 => some 'o'
  | 16 => some 'x'
  | _ => none

/-- Drops a zero and the base's letter; an underscore may follow them. -/
def dropBase (base : Nat) : List Char → List Char
  | '0' :: c :: rest =>
    if baseLetter? base = some c.toLower then
      match rest with
      | '_' :: rest => rest
      | rest => rest
    else '0' :: c :: rest
  | s => s

inductive TypedFault where
  | unreadable
  /-- More digits than are read. Only a base that is no power of two has a limit. -/
  | tooLong (count : Nat)
  deriving DecidableEq, Repr

/-- The digits in front, underscores aside. -/
def leadingDigits (base : Nat) (s : List Char) : Nat :=
  ((s.takeWhile fun c => isDigitTo base c || c = '_').filter (· ≠ '_')).length

/-- A number of digits of a base. -/
def typedNat (base : Nat) (s : List Char) : Except TypedFault Nat :=
  if base = 10 ∧ digitLimit < leadingDigits base s then .error (.tooLong (leadingDigits base s))
  else
    match joinDigits? (isDigitTo base) s with
    | none => .error .unreadable
    | some ds =>
      if ds = [] ∨ !ds.all (isDigitTo base) then .error .unreadable
      else .ok (ds.foldl (fun n c => base * n + (digitOf? c).getD 0) 0)

/-- An integer as it is typed to a base. -/
def typedInt (base : Nat) (s : List Char) : Except TypedFault Int :=
  let (negative, body) := splitSign (typed s)
  (typedNat base (dropBase base body)).map fun n => if negative then -(n : Int) else n

/-- An underscore may not stand at the start. -/
theorem joinDigits?_underscore (p : Char → Bool) (s : List Char) : joinDigits? p ('_' :: s) = none := rfl

/-- Without underscores, digits are as they stand. -/
theorem joinDigits?_eq_some {p : Char → Bool} {s : List Char} (h : '_' ∉ s) :
    joinDigits? p s = some s := by
  fun_induction joinDigits? p s with
  | case1 => rfl
  | case2 => simp at h
  | case3 => simp at h
  | case4 => simp at h
  | case5 a rest _ _ ih => simp [ih (fun hm => h (List.mem_cons_of_mem _ hm))]

end Adjudication.Decimal
