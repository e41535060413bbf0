import Adjudication.Json.Value
import Adjudication.Text.Utf8

/-!
What a record's schema sees of a value: its outermost layer. Any type of values that shows its shape can be
checked against a schema; JSON values do.
-/

namespace Adjudication.Schema

/-- The outermost layer of a value whose parts are of type `δ`. -/
inductive Shape (δ : Type) where
  | null
  | bool (b : Bool)
  | int (i : Int)
  | double (x : Float)
  | text (s : String)
  /-- A text that is no sequence of characters. -/
  | torn (t : Text.Torn)
  | bytes (b : Text.Utf8.Bytes)
  | list (items : List δ)
  | table (members : List (Text.Wide × δ))
  | other

class Shaped (δ : Type) where
  shape : δ → Shape δ

export Shaped (shape)

instance : Shaped Json where
  shape
    | .null => .null
    | .bool b => .bool b
    | .int i => .int i
    | .double x => .double x
    | .str s => .text s
    | .torn t => .torn t
    | .arr items => .list items
    | .obj ms => .table ms

/-- The value under a key of a list of pairs. -/
def lookup {κ δ : Type} [DecidableEq κ] (key : κ) (pairs : List (κ × δ)) : Option δ :=
  (pairs.find? fun p => p.1 = key).map Prod.snd

/-- The value under a name in a table. -/
def member? {δ : Type} (name : String) (members : List (Text.Wide × δ)) : Option δ := lookup (.text name) members

theorem member?_eq_get? (name : String) (ms : Json.Members) :
    member? name ms = Json.Members.get? name ms := by
  induction ms with
  | nil => rfl
  | cons m rest ih =>
    by_cases h : m.1 = .text name
    · simp [member?, lookup, Json.Members.get?, h]
    · simpa [member?, lookup, Json.Members.get?, h] using ih

end Adjudication.Schema
