import Adjudication.Schema.Shape

/-!
Checking values against a schema. A check gives a value of the domain or every fault that it found, in the
order of the fields; `Checked` is an applicative that joins the faults of its parts.
-/

namespace Adjudication.Schema

/-- A step from a record to a part of it. -/
inductive Step where
  | field (name : String)
  | index (i : Nat)
  deriving DecidableEq, Repr

/-- What can be wrong with a value. Bounds are the integers that the schema names. -/
inductive Problem where
  | missing
  | notText
  | notUnicode
  | textTooShort (least : Nat)
  | notInteger
  | unreadableInteger
  | integerTooLong
  | fractionalInteger
  | notFinite
  | notNumber
  | unreadableNumber
  | notTruth
  | unreadableTruth
  | notAmong (options : List String)
  | notList
  | listTooShort (least actual : Nat)
  | notTuple
  | notRecord (name : String)
  | notPath
  | notMoment
  | unreadableMoment (reason : String)
  | unreadableDate (reason : String)
  | atMost (bound : Nat)
  | above (bound : Nat)
  | atLeast (bound : Nat)
  | rule (message : String)
  deriving DecidableEq, Repr

/-- The name of a problem in answers. -/
def Problem.kind : Problem → String
  | .missing => "missing"
  | .notText => "string_type"
  | .notUnicode => "string_unicode"
  | .textTooShort _ => "string_too_short"
  | .notInteger => "int_type"
  | .unreadableInteger => "int_parsing"
  | .integerTooLong => "int_parsing_size"
  | .fractionalInteger => "int_from_float"
  | .notFinite => "finite_number"
  | .notNumber => "float_type"
  | .unreadableNumber => "float_parsing"
  | .notTruth => "bool_type"
  | .unreadableTruth => "bool_parsing"
  | .notAmong _ => "literal_error"
  | .notList => "list_type"
  | .listTooShort _ _ => "too_short"
  | .notTuple => "tuple_type"
  | .notRecord _ => "model_type"
  | .notPath => "path_type"
  | .notMoment => "datetime_type"
  | .unreadableMoment _ => "datetime_parsing"
  | .unreadableDate _ => "datetime_from_date_parsing"
  | .atMost _ => "less_than_equal"
  | .above _ => "greater_than"
  | .atLeast _ => "greater_than_equal"
  | .rule _ => "value_error"

/-- Options in single quotes, the last two joined by "or". -/
def alternatives : List String → String
  | [] => ""
  | [a] => "'" ++ a ++ "'"
  | [a, b] => "'" ++ a ++ "' or '" ++ b ++ "'"
  | a :: rest => "'" ++ a ++ "', " ++ alternatives rest

def plural (n : Nat) (one many : String) : String := if n = 1 then one else many

def Problem.message : Problem → String
  | .missing => "Field required"
  | .notText => "Input should be a valid string"
  | .notUnicode =>
    "Input should be a valid string, unable to parse raw data as a unicode string"
  | .textTooShort n =>
    "String should have at least " ++ toString n ++ " " ++ plural n "character" "characters"
  | .notInteger => "Input should be a valid integer"
  | .unreadableInteger =>
    "Input should be a valid integer, unable to parse string as an integer"
  | .integerTooLong => "Unable to parse input string as an integer, exceeded maximum size"
  | .fractionalInteger =>
    "Input should be a valid integer, got a number with a fractional part"
  | .notFinite => "Input should be a finite number"
  | .notNumber => "Input should be a valid number"
  | .unreadableNumber => "Input should be a valid number, unable to parse string as a number"
  | .notTruth => "Input should be a valid boolean"
  | .unreadableTruth => "Input should be a valid boolean, unable to interpret input"
  | .notAmong options => "Input should be " ++ alternatives options
  | .notList => "Input should be a valid list"
  | .listTooShort n actual =>
    "List should have at least " ++ toString n ++ " " ++ plural n "item" "items" ++
      " after validation, not " ++ toString actual
  | .notTuple => "Input should be a valid tuple"
  | .notRecord name => "Input should be a valid dictionary or instance of " ++ name
  | .notPath => "Input is not a valid path for <class 'pathlib.Path'>"
  | .notMoment => "Input should be a valid datetime"
  | .unreadableMoment reason => "Input should be a valid datetime, " ++ reason
  | .unreadableDate reason => "Input should be a valid datetime or date, " ++ reason
  | .atMost n => "Input should be less than or equal to " ++ toString n
  | .above n => "Input should be greater than " ++ toString n
  | .atLeast n => "Input should be greater than or equal to " ++ toString n
  | .rule message => "Value error, " ++ message

/-- A problem, the way to the part that has it, and the value found there. -/
structure Fault (δ : Type) where
  path : List Step
  problem : Problem
  input : δ
  deriving Repr

/-- The outcome of a check. -/
inductive Checked (δ α : Type) where
  | ok (value : α)
  | faulty (faults : List (Fault δ))

namespace Checked

variable {δ α β : Type}

/-- Applies a checked function, joining the faults of both sides. -/
def apply (f : Checked δ (α → β)) (a : Unit → Checked δ α) : Checked δ β :=
  match f, a () with
  | ok f, ok a => ok (f a)
  | ok _, faulty es => faulty es
  | faulty es, ok _ => faulty es
  | faulty es, faulty es' => faulty (es ++ es')

instance : Applicative (Checked δ) where
  pure := ok
  seq := apply

/-- A single fault at the value itself. -/
def fault (problem : Problem) (input : δ) : Checked δ α := faulty [⟨[], problem, input⟩]

/-- Puts a step in front of the way to every fault. -/
def under (step : Step) : Checked δ α → Checked δ α
  | ok a => ok a
  | faulty es => faulty (es.map fun e => { e with path := step :: e.path })

/-- A further rule on a value that passed. -/
def bind (c : Checked δ α) (f : α → Checked δ β) : Checked δ β :=
  match c with
  | ok a => f a
  | faulty es => faulty es

def toExcept : Checked δ α → Except (List (Fault δ)) α
  | ok a => .ok a
  | faulty es => .error es

end Checked

/-- The faults of a record of the named kind. -/
structure Invalid (δ : Type) where
  title : String
  faults : List (Fault δ)

/-- A way written with points between its steps. -/
def dotted (path : List Step) : String :=
  ".".intercalate (path.map fun
    | .field name => name
    | .index i => toString i)

/-- The faults as text: their number, then for each its way and its message. -/
def Invalid.message {δ : Type} (e : Invalid δ) : String :=
  let n := e.faults.length
  toString n ++ " validation " ++ plural n "error" "errors" ++ " for " ++ e.title ++
    String.join (e.faults.map fun f =>
      (if f.path = [] then "" else "\n" ++ dotted f.path) ++
        "\n  " ++ f.problem.message ++ " [type=" ++ f.problem.kind ++ "]")

/-- Runs a check for a record of the named kind. -/
def validate {δ α : Type} (title : String) (check : δ → Checked δ α) (d : δ) :
    Except (Invalid δ) α :=
  match check d with
  | .ok a => .ok a
  | .faulty es => .error ⟨title, es⟩

section Fields

variable {δ α : Type} [Shaped δ]

/-- A record's members; anything but a table is a fault. -/
def record (name : String) (d : δ) (fields : List (Text.Wide × δ) → Checked δ α) : Checked δ α :=
  match shape d with
  | .table members => fields members
  | _ => .fault (.notRecord name) d

/-- A field that has to be there; `whole` is the record that it is missing from. -/
def required (whole : δ) (members : List (Text.Wide × δ)) (name : String)
    (check : δ → Checked δ α) : Checked δ α :=
  match member? name members with
  | some v => (check v).under (.field name)
  | none => .faulty [⟨[.field name], .missing, whole⟩]

/-- A field with a value for when it is absent. -/
def defaulted (members : List (Text.Wide × δ)) (name : String) (value : α)
    (check : δ → Checked δ α) : Checked δ α :=
  match member? name members with
  | some v => (check v).under (.field name)
  | none => .ok value

/-- A field that goes by several names: the first that is there counts. -/
def firstOf (members : List (Text.Wide × δ)) (names : List String) : Option (String × δ) :=
  names.findSome? fun name => (member? name members).map (name, ·)

/-- Null or a value that passes. -/
def nullable (check : δ → Checked δ α) (d : δ) : Checked δ (Option α) :=
  match shape d with
  | .null => .ok none
  | _ => some <$> check d

/-- Every item, each under its index. -/
def each (check : δ → Checked δ α) (items : List δ) : Checked δ (List α) :=
  go 0 items
where
  go (i : Nat) : List δ → Checked δ (List α)
    | [] => .ok []
    | d :: rest => List.cons <$> (check d).under (.index i) <*> go (i + 1) rest

/-- A row of items where a tuple is wanted. -/
def tupleOf (check : δ → Checked δ α) (d : δ) : Checked δ (List α) :=
  match shape d with
  | .list items => each check items
  | _ => .fault .notTuple d

/-- A row of items where a list is wanted. -/
def listOf (check : δ → Checked δ α) (d : δ) : Checked δ (List α) :=
  match shape d with
  | .list items => each check items
  | _ => .fault .notList d

end Fields

end Adjudication.Schema
