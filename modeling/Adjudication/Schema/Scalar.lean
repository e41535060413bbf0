import Adjudication.Schema.Checked
import Adjudication.Decimal.Numeral

/-!
Checks of single values. They are lenient: a number may stand in a text, an integer may be written as a double
without a fraction, and a truth value may be one of a few words or the numbers 0 and 1.
-/

namespace Adjudication.Schema

variable {δ : Type} [Shaped δ]

/-- The text of a value that is a text or the bytes of one. -/
def textOf? (d : δ) : Option (Option String) :=
  match shape d with
  | .text s => some (some s)
  | .bytes b => some (Text.Utf8.decode? b).toOption
  | _ => none

/-- A text. One that is no sequence of characters passes where nothing is asked of its characters. -/
def text (d : δ) : Checked δ Text.Wide :=
  match shape d with
  | .torn t => .ok (.torn t)
  | _ =>
    match textOf? d with
    | some (some s) => .ok (.text s)
    | some none => .fault .notUnicode d
    | none => .fault .notText d

/-- A text by its characters: of one that is torn, the nearest. -/
def plainText (d : δ) : Checked δ String := Text.Wide.nearest <$> text d

/-- A check that has to look into a text: none passes that is no sequence of characters. -/
def readable {α : Type} (check : δ → Checked δ α) (d : δ) : Checked δ α :=
  match shape d with
  | .torn _ => .fault .notUnicode d
  | _ => check d

/-- A text of at least `least` characters. -/
def textOfLength (least : Nat) (d : δ) : Checked δ String :=
  (readable plainText d).bind fun s =>
    if s.length < least then .fault (.textTooShort least) d else .ok s

/-- The integer that a double is, if it has no fraction and lies strictly within 64 bits. -/
def integerOfDouble (x : Float) : Except Problem Int :=
  match Decimal.classify x with
  | .finite b =>
    match b.toInt? with
    | none => .error .fractionalInteger
    | some i => if -Decimal.wordBound < i ∧ i < Decimal.wordBound then .ok i else .error .integerTooLong
  | _ => .error .notFinite

def integerOfText (s : String) : Except Problem Int :=
  (Decimal.readInteger s).mapError fun
    | .unreadable => .unreadableInteger
    | .tooLong => .integerTooLong

def ofExcept {α : Type} (d : δ) : Except Problem α → Checked δ α
  | .ok a => .ok a
  | .error p => .fault p d

def integer : δ → Checked δ Int := readable fun d =>
  match shape d with
  | .int i => .ok i
  | .bool b => .ok (if b then 1 else 0)
  | .double x => ofExcept d (integerOfDouble x)
  | _ =>
    match textOf? d with
    | some (some s) => ofExcept d (integerOfText s)
    | some none => .fault .unreadableInteger d
    | none => .fault .notInteger d

def number : δ → Checked δ Float := readable fun d =>
  match shape d with
  | .double x => .ok x
  | .bool b => .ok (if b then 1.0 else 0.0)
  | .int i =>
    match Decimal.ofInt? i with
    | some x => .ok x
    | none => .fault .notNumber d
  | _ =>
    match textOf? d with
    | some s? =>
      match s?.bind Decimal.readDouble? with
      | some x => .ok x
      | none => .fault .unreadableNumber d
    | none => .fault .notNumber d

def wordsForTrue : List String := ["1", "on", "t", "true", "y", "yes"]

def wordsForFalse : List String := ["0", "off", "f", "false", "n", "no"]

def truthOfWord (s : String) : Option Bool :=
  if Text.lower s ∈ wordsForTrue then some true
  else if Text.lower s ∈ wordsForFalse then some false
  else none

def truthOfInt (i : Int) : Option Bool :=
  if i = 0 then some false else if i = 1 then some true else none

/-- A truth value. Integers beyond 64 bits and doubles that are no integers are of the wrong kind
    altogether; other numbers but 0 and 1 are merely unreadable. -/
def truth : δ → Checked δ Bool := readable fun d =>
  let word : Option Bool → Checked δ Bool
    | some b => .ok b
    | none => .fault .unreadableTruth d
  match shape d with
  | .bool b => .ok b
  | .int i =>
    if -Decimal.wordBound ≤ i ∧ i < Decimal.wordBound then word (truthOfInt i) else .fault .notTruth d
  | .double x =>
    match integerOfDouble x with
    | .ok i => word (truthOfInt i)
    | .error _ => .fault .notTruth d
  | _ =>
    match textOf? d with
    | some s? => word (s?.bind truthOfWord)
    | none => .fault .notTruth d

/-- One of the texts in a table of options. -/
def among {α : Type} (options : List (String × α)) : δ → Checked δ α := readable fun d =>
  match shape d with
  | .text s =>
    match lookup s options with
    | some a => .ok a
    | none => .fault (.notAmong (options.map Prod.fst)) d
  | _ => .fault (.notAmong (options.map Prod.fst)) d

/-- An integer above a bound. -/
def integerAbove (bound : Nat) (d : δ) : Checked δ Int :=
  (integer d).bind fun i => if (bound : Int) < i then .ok i else .fault (.above bound) d

/-- An integer not below a bound. -/
def integerFrom (bound : Nat) (d : δ) : Checked δ Int :=
  (integer d).bind fun i => if (bound : Int) ≤ i then .ok i else .fault (.atLeast bound) d

/-- A number above zero. -/
def positiveNumber (d : δ) : Checked δ Float :=
  (number d).bind fun x => if 0.0 < x then .ok x else .fault (.above 0) d

/-- A number not below zero. -/
def nonnegativeNumber (d : δ) : Checked δ Float :=
  (number d).bind fun x => if 0.0 ≤ x then .ok x else .fault (.atLeast 0) d

/-- A number from zero to one. What is no number at all is neither. -/
def probability (d : δ) : Checked δ Float :=
  (number d).bind fun x =>
    if ¬ x ≤ 1.0 then .fault (.atMost 1) d
    else if ¬ 0.0 ≤ x then .fault (.atLeast 0) d
    else .ok x

end Adjudication.Schema
