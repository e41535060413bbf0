import Adjudication.Text.Wide

/-!
JSON values. Integers are exact and apart from doubles; an object keeps its members in the order in which
their names first came. Texts and names may be torn.
-/

namespace Adjudication

inductive Json
  | null
  | bool (b : Bool)
  | int (i : Int)
  | double (x : Float)
  | str (s : String)
  | torn (t : Text.Torn)
  | arr (items : List Json)
  | obj (members : List (Text.Wide × Json))
  deriving Inhabited, Repr

namespace Json

abbrev Members := List (Text.Wide × Json)

namespace Members

/-- The value under a name. -/
def get? (name : Text.Wide) : Members → Option Json
  | [] => none
  | (key, v) :: rest => if key = name then some v else get? name rest

/-- Sets the value under a name; a name that is there keeps its place. -/
def put (name : Text.Wide) (value : Json) : Members → Members
  | [] => [(name, value)]
  | (key, v) :: rest => if key = name then (key, value) :: rest else (key, v) :: put name value rest

/-- Members as they are written, repeated names included, brought to one member a name: the last value at
    the place of the first. -/
def ofWritten (written : Members) : Members :=
  written.foldl (fun ms m => put m.1 m.2 ms) []

def names (ms : Members) : List Text.Wide := ms.map Prod.fst

theorem get?_put_self (name : Text.Wide) (value : Json) (ms : Members) :
    get? name (put name value ms) = some value := by
  induction ms with
  | nil => simp [put, get?]
  | cons m rest ih =>
    by_cases h : m.1 = name
    · simp [put, get?, h]
    · simp [put, get?, h, ih]

theorem get?_put_of_ne {name other : Text.Wide} (h : other ≠ name) (value : Json) (ms : Members) :
    get? other (put name value ms) = get? other ms := by
  induction ms with
  | nil => simp [put, get?, Ne.symm h]
  | cons m rest ih =>
    by_cases hm : m.1 = name
    · simp [put, get?, hm, Ne.symm h]
    · by_cases ho : m.1 = other
      · subst ho
        simp [put, get?, h]
      · simp [put, get?, hm, ho, ih]

end Members

/-- The value under a name, of an object that has it. -/
def get? (name : String) : Json → Option Json
  | obj ms => Members.get? name ms
  | _ => none

/-- What counts as empty: null, false, zero, and text, array or object with nothing in it. -/
def isFalsy : Json → Bool
  | null => true
  | bool b => !b
  | int i => i == 0
  | double x => x == 0.0
  | str s => s.isEmpty
  | torn _ => false
  | arr items => items.isEmpty
  | obj ms => ms.isEmpty

/-- The value of a text. -/
def ofWide : Text.Wide → Json
  | .text s => str s
  | .torn t => torn t

@[simp] theorem ofWide_text (s : String) : ofWide (.text s) = str s := rfl

/-- An optional value, nothing being null. -/
def ofOption {α : Type} (f : α → Json) : Option α → Json
  | none => null
  | some a => f a

/-! ### Signs -/

namespace Sign

@[match_pattern] abbrev lineEnd : Nat := 0x0A
@[match_pattern] abbrev space : Nat := 0x20
@[match_pattern] abbrev quotation : Nat := 0x22
@[match_pattern] abbrev plus : Nat := 0x2B
@[match_pattern] abbrev comma : Nat := 0x2C
@[match_pattern] abbrev minus : Nat := 0x2D
@[match_pattern] abbrev point : Nat := 0x2E
@[match_pattern] abbrev colon : Nat := 0x3A
@[match_pattern] abbrev openBracket : Nat := 0x5B
@[match_pattern] abbrev backslash : Nat := 0x5C
@[match_pattern] abbrev closeBracket : Nat := 0x5D
@[match_pattern] abbrev letterU : Nat := 0x75
@[match_pattern] abbrev openBrace : Nat := 0x7B
@[match_pattern] abbrev closeBrace : Nat := 0x7D
@[match_pattern] abbrev byteOrderMark : Nat := 0xFEFF

end Sign

end Json
end Adjudication
