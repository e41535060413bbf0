import Adjudication.Json.Value
import Adjudication.Decimal.Layout
import Adjudication.Text.Quoted

/-!
The text form of a value where a message or a text field shows it: words for null and the truth values, numbers,
texts in quotes except at the outermost level, and brackets.
-/

namespace Adjudication.Json

def wordOfBool (b : Bool) : String := if b then "True" else "False"

mutual

/-- The form of a value within another one. -/
def inner : Json → String
  | null => "None"
  | bool b => wordOfBool b
  | int i => toString i
  | double x => Decimal.textOf x
  | str s => Text.quote s
  | torn t => Text.quoteCodes t.codes
  | arr items => "[" ++ innerItems items ++ "]"
  | obj ms => "\x7b" ++ innerMembers ms ++ "\x7d"

def innerItems : List Json → String
  | [] => ""
  | [v] => inner v
  | v :: rest => inner v ++ ", " ++ innerItems rest

def innerMembers : Members → String
  | [] => ""
  | [(name, v)] => name.quote ++ ": " ++ inner v
  | (name, v) :: rest => name.quote ++ ": " ++ inner v ++ ", " ++ innerMembers rest

end

/-- The form of a value by itself: a text is shown as it is. -/
def display : Json → Text.Wide
  | str s => s
  | torn t => .torn t
  | v => inner v

end Adjudication.Json
