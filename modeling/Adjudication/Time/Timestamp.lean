import Adjudication.Schema.Scalar
import Adjudication.Time.Seconds

/-!
Points of the calendar: their text form, reading them back, and counting from the Unix epoch. Dates follow the
Gregorian calendar; a timestamp may have an offset from UTC or none.
-/

namespace Adjudication.Time

structure Timestamp where
  year : Nat
  month : Nat
  day : Nat
  hour : Nat
  minute : Nat
  second : Nat
  microsecond : Nat
  /-- Seconds east of UTC, if the zone is known. -/
  offset : Option Int
  deriving DecidableEq, Repr, Inhabited

/-! ### The calendar -/

def isLeap (y : Nat) : Bool := (y % 4 == 0 && y % 100 != 0) || y % 400 == 0

def daysInMonth (y m : Nat) : Nat :=
  if m = 2 then (if isLeap y then 29 else 28)
  else if m = 4 ∨ m = 6 ∨ m = 9 ∨ m = 11 then 30
  else 31

/-- Days from 1970-01-01 to a date: years are counted from March, in eras of 400. -/
def daysFromEpoch (y m d : Nat) : Int :=
  let y : Int := if m ≤ 2 then (y : Int) - 1 else y
  let era := y.fdiv 400
  let yearOfEra := y - era * 400
  let monthFromMarch : Int := ((m + 9) % 12 : Nat)
  let dayOfYear := (153 * monthFromMarch + 2) / 5 + (d : Int) - 1
  let dayOfEra := yearOfEra * 365 + yearOfEra / 4 - yearOfEra / 100 + dayOfYear
  era * 146097 + dayOfEra - 719468

/-- The date a number of days after 1970-01-01. -/
def dateOfDays (days : Int) : Nat × Nat × Nat :=
  let z := days + 719468
  let era := z.fdiv 146097
  let dayOfEra := z - era * 146097
  let yearOfEra := (dayOfEra - dayOfEra / 1460 + dayOfEra / 36524 - dayOfEra / 146096) / 365
  let dayOfYear := dayOfEra - (365 * yearOfEra + yearOfEra / 4 - yearOfEra / 100)
  let monthFromMarch := (5 * dayOfYear + 2) / 153
  let day := dayOfYear - (153 * monthFromMarch + 2) / 5 + 1
  let month := if monthFromMarch < 10 then monthFromMarch + 3 else monthFromMarch - 9
  let year := yearOfEra + era * 400 + (if month ≤ 2 then 1 else 0)
  (year.toNat, month.toNat, day.toNat)

namespace Timestamp

/-- The point in UTC a number of seconds and microseconds after the epoch. -/
def ofEpoch (seconds : Int) (microsecond : Nat) : Timestamp :=
  let (y, m, d) := dateOfDays (seconds.fdiv 86400)
  let rest := (seconds.fmod 86400).toNat
  ⟨y, m, d, rest / 3600, rest / 60 % 60, rest % 60, microsecond, some 0⟩

/-- The point in UTC a number of microseconds after the epoch. -/
def ofMicroseconds (n : Int) : Timestamp := ofEpoch (n.fdiv 1000000) (n.fmod 1000000).toNat

/-- The point in UTC a number of microseconds after the start of a day, which is given by its number from the
    epoch. It has to lie in the years 1 to 9999, and no more days away than can be counted. -/
def after (day microseconds : Int) : Except ClockFault Timestamp :=
  let days := microseconds.fdiv 86400000000
  if ClockFault.mostDays < days.natAbs then .error (.tooManyDays days)
  else if day + days < daysFromEpoch 1 1 1 ∨ daysFromEpoch 9999 12 31 < day + days then .error .outOfRange
  else .ok (ofMicroseconds (day * 86400000000 + microseconds))

/-- Microseconds from the epoch to a timestamp, one without an offset read as UTC. -/
def toMicroseconds (t : Timestamp) : Int :=
  ((daysFromEpoch t.year t.month t.day * 86400 + (t.hour * 3600 + t.minute * 60 + t.second : Nat)) -
    t.offset.getD 0) * 1000000 + t.microsecond

/-! ### Text -/

/-- A number with zeros in front. -/
def padded (width n : Nat) : String := String.ofList (Decimal.padLeft width (Decimal.digitsOf n))

/-- An offset as hours and minutes; that of UTC itself as the letter Z. -/
def offsetText : Option Int → String
  | none => ""
  | some seconds =>
    if seconds = 0 then "Z"
    else
      let minutes := seconds.natAbs / 60
      (if seconds < 0 then "-" else "+") ++ padded 2 (minutes / 60) ++ ":" ++ padded 2 (minutes % 60)

/-- The text form: date, `T`, time, microseconds if there are any, and the zone. -/
def text (t : Timestamp) : String :=
  padded 4 t.year ++ "-" ++ padded 2 t.month ++ "-" ++ padded 2 t.day ++ "T" ++ padded 2 t.hour ++
    ":" ++ padded 2 t.minute ++ ":" ++ padded 2 t.second ++
    (if t.microsecond = 0 then "" else "." ++ padded 6 t.microsecond) ++ offsetText t.offset

/-! ### Reading

Text is read byte by byte, each byte as the character of its number. -/

/-- The number of two digits. -/
def twoDigits? (a b : Char) : Option Nat :=
  if Decimal.isDigit a && Decimal.isDigit b then some (Decimal.valueOf [a, b]) else none

/-- Reads a date off the front, or says why there is none. -/
def readDate (s : List Char) : Except String ((Nat × Nat × Nat) × List Char) :=
  match s with
  | y1 :: y2 :: y3 :: y4 :: s1 :: m1 :: m2 :: s2 :: d1 :: d2 :: rest =>
    if !([y1, y2, y3, y4].all Decimal.isDigit) then .error "invalid character in year"
    else if s1 ≠ '-' then .error "invalid date separator, expected `-`"
    else
      match twoDigits? m1 m2 with
      | none => .error "invalid character in month"
      | some month =>
        if s2 ≠ '-' then .error "invalid date separator, expected `-`"
        else
          match twoDigits? d1 d2 with
          | none => .error "invalid character in day"
          | some day =>
            let year := Decimal.valueOf [y1, y2, y3, y4]
            if month < 1 ∨ 12 < month then .error "month value is outside expected range of 1-12"
            else if day < 1 ∨ daysInMonth year month < day then
              .error "day value is outside expected range"
            else .ok ((year, month, day), rest)
  | _ => .error "input is too short"

/-- Digits of a fraction of a second as microseconds, further digits dropped. -/
def microsecondsOf (ds : List Char) : Nat :=
  Decimal.valueOf ((ds ++ List.replicate 6 '0').take 6)

/-- Reads seconds with an optional fraction after a colon, if there are any. -/
def readSeconds? (s : List Char) : Option ((Nat × Nat) × List Char) :=
  match s with
  | ':' :: a :: b :: rest => do
    let second ← twoDigits? a b
    if 59 < second then none
    match rest with
    | c :: rest' =>
      if c = '.' ∨ c = ',' then
        let ds := rest'.takeWhile Decimal.isDigit
        if ds = [] then none else some ((second, microsecondsOf ds), rest'.dropWhile Decimal.isDigit)
      else some ((second, 0), rest)
    | [] => some ((second, 0), [])
  | ':' :: _ => none
  | rest => some ((0, 0), rest)

/-- Reads a zone up to the end of the text. -/
def readZone? (s : List Char) : Option (Option Int) :=
  match s with
  | [] => some none
  | ['Z'] | ['z'] => some (some 0)
  | c :: rest => do
    let (sign, rest) : Int × List Char ←
      match c, rest with
      | '+', rest => some (1, rest)
      | '-', rest => some (-1, rest)
      -- the bytes of U+2212, the minus sign
      | '\xe2', '\x88' :: '\x92' :: rest => some (-1, rest)
      | _, _ => none
    let (h1, h2, rest) ← match rest with
      | h1 :: h2 :: rest => some (h1, h2, rest)
      | _ => none
    let hours ← twoDigits? h1 h2
    let minutes ← match rest with
      | [':', m1, m2] => twoDigits? m1 m2
      | [m1, m2] => twoDigits? m1 m2
      | _ => none
    if 59 < minutes ∨ 24 * 60 ≤ hours * 60 + minutes then none
    else some (some (sign * (hours * 3600 + minutes * 60 : Nat)))

/-- Reads a date and a time of day with `T`, a space or an underscore between them. -/
def readFull? (s : List Char) : Option Timestamp := do
  let ((y, m, d), rest) ← (readDate s).toOption
  match rest with
  | sep :: h1 :: h2 :: ':' :: n1 :: n2 :: rest =>
    if sep ≠ 'T' ∧ sep ≠ 't' ∧ sep ≠ ' ' ∧ sep ≠ '_' then none
    let hour ← twoDigits? h1 h2
    let minute ← twoDigits? n1 n2
    if 23 < hour ∨ 59 < minute then none
    let ((second, micro), rest) ← readSeconds? rest
    let offset ← readZone? rest
    some ⟨y, m, d, hour, minute, second, micro, offset⟩
  | _ => none

/-! ### Counting from the epoch

A count of more than twenty thousand million is one of milliseconds, any other one of seconds. -/

/-- The greatest count of seconds. -/
def mostSeconds : Nat := 20000000000

/-- The point so many seconds and microseconds after the epoch. The microseconds may come to a second. -/
def counted (seconds : Int) (microseconds : Nat) : Except String Timestamp :=
  let seconds := seconds + (microseconds / 1000000 : Nat)
  if seconds < daysFromEpoch 0 1 1 * 86400 then
    .error "dates before 0000 are not supported as unix timestamps"
  else if daysFromEpoch 9999 12 31 * 86400 + 86399 < seconds then
    .error "dates after 9999 are not supported as unix timestamps"
  else .ok (ofEpoch seconds (microseconds % 1000000))

def ofCount (n : Int) : Except String Timestamp :=
  if n.natAbs ≤ mostSeconds then counted n 0 else counted (n.fdiv 1000) ((n.fmod 1000).toNat * 1000)

/-- The whole number at or below a double, kept within 64 bits. -/
def floorOf (x : Float) : Int :=
  match Decimal.classify x with
  | .notANumber => 0
  | .infinite negative => if negative then -Decimal.wordBound else Decimal.wordBound - 1
  | .finite b =>
    let n := if b.negative then -(b.mantissa : Int) else b.mantissa
    let whole := if 0 ≤ b.exponent then n * (Nat.pow 2 b.exponent.toNat : Nat)
      else n.fdiv (Nat.pow 2 (-b.exponent).toNat : Nat)
    max (-Decimal.wordBound) (min (Decimal.wordBound - 1) whole)

/-- The millionths that a double has beyond its floor, a half rounded up. -/
def millionths (x : Float) : Nat :=
  ((floorOf (2.0 * ((x - x.floor) * 1000000.0)) + 1) / 2).toNat

def ofDoubleCount (x : Float) : Except String Timestamp :=
  if Decimal.isNotANumber x then .error "NaN values not permitted"
  else
    let x := if Float.ofNat mostSeconds < x.abs then x / 1000.0 else x
    counted (floorOf x) (millionths x)

/-- A count written out: an integer within 64 bits, or digits with a point among or beside them. -/
def readCount? (s : List Char) : Option (Except String Timestamp) :=
  let (negative, body) := Decimal.splitSign s
  let whole := body.takeWhile Decimal.isDigit
  match body.dropWhile Decimal.isDigit with
  | [] =>
    let n : Int := Decimal.valueOf whole
    let n := if negative then -n else n
    if whole ≠ [] ∧ -Decimal.wordBound ≤ n ∧ n < Decimal.wordBound then some (ofCount n) else none
  | '.' :: fraction =>
    if fraction.all Decimal.isDigit then (Decimal.double? s).map ofDoubleCount else none
  | _ => none

/-- Reads a date and time, a count from the epoch, or a date alone. What is none of these is
    refused with the reason why it is no date. -/
def ofText (s : String) : Except String Timestamp :=
  let cs := (Text.Utf8.encode s).map fun b => Char.ofNat b.toNat
  match readFull? cs, readCount? cs with
  | some t, _ => .ok t
  | none, some (.ok t) => .ok t
  | none, some (.error e) => .error e
  | none, none =>
    match readDate cs with
    | .error e => .error e
    | .ok ((y, m, d), []) => .ok ⟨y, m, d, 0, 0, 0, 0, none⟩
    | .ok _ => .error "unexpected extra characters at the end of the input"

end Timestamp

section Check

open Schema

variable {δ : Type} [Shaped δ]

/-- A timestamp in a field: a text, or a count from the epoch. There is no year 0. -/
def timestamp : δ → Checked δ Timestamp := readable fun d =>
  let read (problem : String → Problem) : Except String Timestamp → Checked δ Timestamp
    | .ok t => if t.year = 0 then .fault (.unreadableMoment "year 0 is out of range") d else .ok t
    | .error e => .fault (problem e) d
  match shape d with
  | .int i =>
    if -Decimal.wordBound ≤ i ∧ i < Decimal.wordBound then read .unreadableMoment (Timestamp.ofCount i)
    else
      match Decimal.ofInt? i with
      | some x => read .unreadableMoment (Timestamp.ofDoubleCount x)
      | none => .fault .notMoment d
  | .double x => read .unreadableMoment (Timestamp.ofDoubleCount x)
  | _ =>
    match textOf? d with
    | some (some s) => read .unreadableDate (Timestamp.ofText s)
    | some none => .fault .notMoment d
    | none => .fault .notMoment d

end Check

end Adjudication.Time
