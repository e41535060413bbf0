import Adjudication.Decimal.Literal

/-!
What kind of thing a node is. A node may say so by a tag; a plain scalar without one is told by its spelling. The
forms of numbers, instants and words below are the ones that tell a scalar's kind, not all that can be read.
-/

namespace Adjudication.Yaml

inductive Tag where
  | null
  | bool
  | int
  | float
  | binary
  | moment
  | text
  | list
  | table
  | set
  /-- A list of tables of one member each, which may be told to be in order. -/
  | pairs (ordered : Bool)
  /-- A key whose value's members belong to the table that it stands in. -/
  | merge
  /-- A key whose value stands for the whole table. -/
  | content
  | unknown (name : String)
  deriving DecidableEq, Repr

namespace Tag

/-- The start of the tags that are known. -/
def start : String := "tag:yaml.org,2002:"

def named : List (String × Tag) :=
  [("null", null), ("bool", bool), ("int", int), ("float", float), ("binary", binary),
    ("timestamp", moment), ("str", text), ("seq", list), ("map", table), ("set", set),
    ("omap", pairs true), ("pairs", pairs false), ("merge", merge), ("value", content)]

def ofName (name : String) : Tag :=
  ((named.find? fun n => start ++ n.1 = name).map Prod.snd).getD (unknown name)

/-- A tag in full. -/
def full (t : Tag) : String :=
  match t, named.find? fun n => n.2 = t with
  | unknown name, _ => name
  | _, some n => start ++ n.1
  | _, none => ""

end Tag

/-! ### Spellings -/

def isNullWord (s : List Char) : Bool := String.ofList s ∈ ["", "~", "null", "Null", "NULL"]

def trueWords : List String := ["yes", "true", "on"]

def falseWords : List String := ["no", "false", "off"]

/-- A word in lower case, in upper case, or with a capital first letter. -/
def isCased (s : List Char) (word : String) : Bool :=
  let lower := word.toList
  s = lower || s = lower.map Char.toUpper || s = (lower.take 1).map Char.toUpper ++ lower.drop 1

def isBoolWord (s : List Char) : Bool := (trueWords ++ falseWords).any (isCased s)

def dropSign (s : List Char) : List Char := (Decimal.splitSign s).2

/-- A digit or an underscore. -/
def isDigitOrGap (c : Char) : Bool := Decimal.isDigit c || c = '_'

/-- Whether there is a first character of one class and the others are of another. -/
def startsAndGoesOn (p q : Char → Bool) : List Char → Bool
  | [] => false
  | c :: rest => p c && rest.all q

/-- The parts of a text between the characters that are `mark`. -/
def partsBy (mark : Char) : List Char → List (List Char)
  | [] => [[]]
  | c :: rest =>
    if c = mark then [] :: partsBy mark rest
    else
      match partsBy mark rest with
      | part :: parts => (c :: part) :: parts
      | [] => [[c]]

/-- A digit of base 60: one or two decimal digits. -/
def isSixtieth : List Char → Bool
  | [d] => Decimal.isDigit d
  | [t, d] => '0' ≤ t && t ≤ '5' && Decimal.isDigit d
  | _ => false

/-- Further digits of base 60 after the first, at least one. -/
def areSixtieths (parts : List (List Char)) : Bool := parts ≠ [] && parts.all isSixtieth

def isInteger (s : List Char) : Bool :=
  let isNonzero (c : Char) : Bool := Decimal.isDigit c && c ≠ '0'
  match dropSign s with
  | ['0'] => true
  | '0' :: 'b' :: ds => ds ≠ [] && ds.all fun c => c = '0' || c = '1' || c = '_'
  | '0' :: 'x' :: ds => ds ≠ [] && ds.all fun c => Decimal.isDigitTo 16 c || c = '_'
  | '0' :: ds => ds ≠ [] && ds.all fun c => Decimal.isDigitTo 8 c || c = '_'
  | body =>
    match partsBy ':' body with
    | [ds] => startsAndGoesOn isNonzero isDigitOrGap ds
    | ds :: parts => startsAndGoesOn isNonzero isDigitOrGap ds && areSixtieths parts
    | [] => false

/-- No exponent, or an `e` with a sign and digits. -/
def isExponent : List Char → Bool
  | [] => true
  | e :: sign :: ds =>
    (e = 'e' || e = 'E') && (sign = '+' || sign = '-') && ds ≠ [] && ds.all Decimal.isDigit
  | _ => false

/-- A fraction that ends the text or has an exponent. -/
def isFraction (s : List Char) : Bool := isExponent (s.dropWhile isDigitOrGap)

def isDouble (s : List Char) : Bool :=
  let body := dropSign s
  let whole := body.takeWhile (· ≠ '.')
  match body.dropWhile (· ≠ '.') with
  | [] => false
  | _ :: fraction =>
    if whole = [] then
      (s = body && startsAndGoesOn Decimal.isDigit (fun _ => true) fraction && isFraction fraction) ||
        isCased fraction "inf" || (s = body && String.ofList fraction ∈ ["nan", "NaN", "NAN"])
    else
      match partsBy ':' whole with
      | [ds] => startsAndGoesOn Decimal.isDigit isDigitOrGap ds && isFraction fraction
      | ds :: parts =>
        startsAndGoesOn Decimal.isDigit isDigitOrGap ds && areSixtieths parts && fraction.all isDigitOrGap
      | [] => false

/-! ### Instants -/

/-- The parts of an instant as they are spelled; a day alone has no clock. -/
structure Clock where
  hour : List Char
  minute : List Char
  second : List Char
  fraction : List Char
  /-- The sign, the hours and the minutes of a zone; a zone without a sign is the one at Greenwich. -/
  zone : Option (Option (Char × List Char × List Char))
  deriving Repr

structure MomentSpelling where
  year : List Char
  month : List Char
  day : List Char
  clock : Option Clock
  deriving Repr

/-- Between `least` and `most` digits and the rest. -/
def digits? (least most : Nat) (s : List Char) : Option (List Char × List Char) :=
  let ds := (s.take most).takeWhile Decimal.isDigit
  if ds.length < least then none else some (ds, s.drop ds.length)

/-- The rest after a character. -/
def after? (c : Char) : List Char → Option (List Char)
  | x :: rest => if x = c then some rest else none
  | [] => none

def isSpaceOrTab (c : Char) : Bool := c = ' ' || c = '\t'

/-- A zone up to the end of the text, blanks before it. -/
def spelledZone? (s : List Char) : Option (Option (Option (Char × List Char × List Char))) :=
  if s = [] then some none
  else
    match s.dropWhile isSpaceOrTab with
    | ['Z'] => some (some none)
    | sign :: rest =>
      if sign = '+' ∨ sign = '-' then do
        let (hours, rest) ← digits? 1 2 rest
        match rest with
        | [] => some (some (some (sign, hours, [])))
        | ':' :: rest => do
          let (minutes, rest) ← digits? 2 2 rest
          if rest = [] then some (some (some (sign, hours, minutes))) else none
        | _ => none
      else none
    | [] => none

def spelledClock? (s : List Char) : Option Clock := do
  let (hour, s) ← digits? 1 2 s
  let (minute, s) ← digits? 2 2 (← after? ':' s)
  let (second, s) ← digits? 2 2 (← after? ':' s)
  let (fraction, s) := match s with
    | '.' :: s => (s.takeWhile Decimal.isDigit, s.dropWhile Decimal.isDigit)
    | s => ([], s)
  return ⟨hour, minute, second, fraction, ← spelledZone? s⟩

/-- A day, or a day and a time; between them stands a `T`, or spaces and tabs. -/
def spelledMoment? (s : List Char) : Option MomentSpelling := do
  let (year, s) ← digits? 4 4 s
  let (month, s) ← digits? 1 2 (← after? '-' s)
  let (day, s) ← digits? 1 2 (← after? '-' s)
  match s with
  | [] => return ⟨year, month, day, none⟩
  | c :: rest =>
    let s := if isSpaceOrTab c then rest.dropWhile isSpaceOrTab else rest
    if c = 'T' ∨ c = 't' ∨ isSpaceOrTab c then return ⟨year, month, day, some (← spelledClock? s)⟩
    else none

/-- A day alone is told from its spelling only with two digits for the month and for the day. -/
def isMoment (s : List Char) : Bool :=
  match spelledMoment? s with
  | some m => m.clock.isSome || (m.month.length = 2 && m.day.length = 2)
  | none => false

/-! ### Scalars -/

/-- A text without a line break at its end. -/
def dropFinalBreak (s : List Char) : List Char :=
  if s.getLast? = some '\n' then s.dropLast else s

/-- The kind of a scalar by its spelling; what is nothing else is a text. -/
def Tag.ofSpelling (spelling : String) : Tag :=
  let cs := spelling.toList
  let s := dropFinalBreak cs
  if cs ≠ [] ∧ s = [] then .text
  else if isBoolWord s then .bool
  else if isDouble s then .float
  else if isInteger s then .int
  else if s = ['<', '<'] then .merge
  else if isNullWord s then .null
  else if isMoment s then .moment
  else if s = ['='] then .content
  else if s = ['!'] ∨ s = ['&'] ∨ s = ['*'] then .unknown (Tag.start ++ "yaml")
  else .text

example : ["010", "0b1", "+5", "1:30", "0x1F", "1_0"].map Tag.ofSpelling = List.replicate 6 .int := by
  decide +kernel

example : ["1e3", "0o10", "08", "y", "1,5", "0x", "1:60"].map Tag.ofSpelling = List.replicate 7 .text := by
  decide +kernel

example : ["5.", ".5", "1.0e+3", "-.inf", ".NaN", "1:30.5"].map Tag.ofSpelling =
    List.replicate 6 .float := by
  decide +kernel

end Adjudication.Yaml
