import Adjudication.Json.Reader
import Adjudication.Text.Case
import Adjudication.Time.Timestamp
import Adjudication.Yaml.Fault
import Adjudication.Yaml.Tag

/-!
Reading a scalar as what its tag says. A tag may be put before any text, so that each of these can fail.
-/

namespace Adjudication.Yaml

/-- The quoted form of a text, cut short. -/
def excerpt (s : List Char) : String := String.ofList ((Text.quote (String.ofList s)).toList.take 200)

/-! ### Numbers -/

def integerTo (base : Nat) (s : List Char) : Except Fault Int :=
  (Decimal.typedInt base s).mapError fun
    | .unreadable =>
      .badValue ("invalid literal for int() with base " ++ toString base ++ ": " ++ excerpt s)
    | .tooLong n => .badValue (Json.Excess.digits n).message

/-- A number without its sign; what follows the sign says to which base it is written. -/
def magnitude : List Char → Except Fault Int
  | [] => .error (.scalar .emptyNumber)
  | ['0'] => .ok 0
  | '0' :: 'b' :: ds => integerTo 2 ds
  | '0' :: 'x' :: ds => integerTo 16 ds
  | '0' :: ds => integerTo 8 ('0' :: ds)
  | s => do return (← (partsBy ':' s).mapM (integerTo 10)).foldl (fun n d => 60 * n + d) 0

/-- A text without underscores and its sign, with whether that is a minus. -/
def unsigned (s : List Char) : Except Fault (Bool × List Char) :=
  match s.filter (· ≠ '_') with
  | [] => .error (.scalar .emptyNumber)
  | cs => .ok (Decimal.splitSign cs)

def readInt (text : String) : Except Fault Int := do
  let (negative, s) ← unsigned text.toList
  let n ← magnitude s
  return if negative then -n else n

def doubleOf (s : List Char) : Except Fault Float :=
  match Decimal.typedDouble? s with
  | some x => .ok x
  | none => .error (.badValue ("could not convert string to float: " ++ Text.quote (String.ofList s)))

/-- The sum of the digits of a number to base 60, the last digit first; `base` is the weight of the next. -/
def weigh (sum : Float) (base : Nat) : List Float → Float
  | [] => sum
  | d :: rest => weigh (sum + d * Decimal.nearest false base 0) (60 * base) rest

def readDouble (text : String) : Except Fault Float := do
  let (negative, s) ← unsigned (Text.lowerCase text).toList
  let x ←
    if String.ofList s = ".inf" then pure (1.0 / 0.0)
    else if String.ofList s = ".nan" then pure (0.0 / 0.0)
    else
      match partsBy ':' s with
      | [_] => doubleOf s
      | parts => do pure (weigh 0.0 1 (← parts.mapM doubleOf).reverse)
  return if negative then -x else x

def readBool (text : String) : Except Fault Bool :=
  let word := Text.lowerCase text
  if word ∈ trueWords then .ok true
  else if word ∈ falseWords then .ok false
  else .error (.scalar (.badWord word))

/-! ### Instants -/

/-- How far a zone is from Greenwich, in words; it has to be less than a day. -/
def offsetFault? (seconds : Int) : Option Fault :=
  if seconds.natAbs < 86400 then none
  else
    let rest := seconds.fmod 86400
    some (.badValue ("offset must be a timedelta strictly between -timedelta(hours=24) and " ++
      "timedelta(hours=24), not datetime.timedelta(days=" ++ toString (seconds.fdiv 86400) ++
      (if rest = 0 then "" else ", seconds=" ++ toString rest) ++ ")."))

def checkZone (zone : Char × List Char × List Char) : Except Fault Unit :=
  let (sign, hours, minutes) := zone
  let seconds : Int := Decimal.valueOf hours * 3600 + Decimal.valueOf minutes * 60
  match offsetFault? (if sign = '-' then -seconds else seconds) with
  | some f => .error f
  | none => .ok ()

def checkDay (year month day : Nat) : Except Fault Unit := do
  if year = 0 then throw (.badValue "year 0 is out of range")
  if month = 0 ∨ 12 < month then throw (.badValue "month must be in 1..12")
  if day = 0 ∨ Time.daysInMonth year month < day then throw (.badValue "day is out of range for month")

def checkClock (hour minute second : Nat) : Except Fault Unit := do
  if 23 < hour then throw (.badValue "hour must be in 0..23")
  if 59 < minute then throw (.badValue "minute must be in 0..59")
  if 59 < second then throw (.badValue "second must be in 0..59")

/-- Whether an instant has a time of day. It has to be one that there is; its zone is looked at first. -/
def readMoment (text : String) : Except Fault Bool := do
  match spelledMoment? (dropFinalBreak text.toList) with
  | none => throw (.scalar .notMoment)
  | some m =>
    if let some (some zone) := m.clock.bind Clock.zone then checkZone zone
    let number := Decimal.valueOf
    checkDay (number m.year) (number m.month) (number m.day)
    match m.clock with
    | none => return false
    | some c =>
      checkClock (number c.hour) (number c.minute) (number c.second)
      return true

end Adjudication.Yaml
