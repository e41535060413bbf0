import Adjudication.Json.Value
import Adjudication.Decimal.Layout
import Adjudication.Text.Quoted

/-!
Writing JSON text: on one line with `", "` and `": "` between the parts, or with an indent of two; code points
outside ASCII kept or escaped; members in their own order or sorted by name. A text that is written where they are
kept may be torn, for a surrogate in a value is kept as well. Main statement: the chunks that a long value is put out
in make up its text.
-/

namespace Adjudication.Json

open Text (codesOf codesOfChars)
open Sign

/-- The form of a JSON text. -/
structure Style where
  /-- Whether the parts stand on lines of their own, indented by two a level. -/
  indented : Bool
  /-- Whether code points outside ASCII are escaped. -/
  ascii : Bool
  deriving DecidableEq, Repr

/-- Everything on one line, code points kept. -/
def Style.line : Style := ⟨false, false⟩

/-- The escape of a code unit. -/
def unitEscape (n : Nat) : List Char := '\\' :: 'u' :: Text.hexDigits 4 n

/-- The escape of a character, as a surrogate pair above U+FFFF. -/
def charEscape (c : Char) : List Char :=
  let n := c.toNat
  if n < 0x10000 then unitEscape n
  else unitEscape (0xD800 + (n - 0x10000) / 0x400) ++ unitEscape (0xDC00 + (n - 0x10000) % 0x400)

def encodeChar (ascii : Bool) (c : Char) : List Char :=
  if c = '"' then ['\\', '"']
  else if c = '\\' then ['\\', '\\']
  else if c = '\n' then ['\\', 'n']
  else if c = '\r' then ['\\', 'r']
  else if c = '\t' then ['\\', 't']
  else if c = '\x0c' then ['\\', 'f']
  else if c = '\x08' then ['\\', 'b']
  else if c.toNat < 0x20 then charEscape c
  else if ascii ∧ 0x7F ≤ c.toNat then charEscape c
  else [c]

def encodeString (ascii : Bool) (s : String) : List Char :=
  '"' :: s.toList.flatMap (encodeChar ascii) ++ ['"']

/-- A code point, which may be a surrogate. -/
def encodeCode (ascii : Bool) (code : Nat) : List Nat :=
  if Text.isSurrogate code then if ascii then codesOfChars (unitEscape code) else [code]
  else codesOfChars (encodeChar ascii (Text.charOfCode code))

/-- A text that may be torn. -/
def encodeWide (ascii : Bool) : Text.Wide → List Nat
  | .text s => codesOfChars (encodeString ascii s)
  | .torn t => quotation :: t.codes.flatMap (encodeCode ascii) ++ [quotation]

def encodeInt (i : Int) : List Char :=
  if i < 0 then '-' :: Nat.toDigits 10 i.natAbs else Nat.toDigits 10 i.natAbs

/-- Doubles in their shortest form; infinities and no number by their words. -/
def encodeDouble (x : Float) : List Char :=
  match Decimal.classify x with
  | .notANumber => "NaN".toList
  | .infinite negative => if negative then "-Infinity".toList else "Infinity".toList
  | .finite _ => (Decimal.textOf x).toList

/-- The line break before a part at `level`, if the style has one. -/
def lineBreak (style : Style) (level : Nat) : List Nat :=
  if style.indented then lineEnd :: List.replicate (2 * level) space else []

/-- What separates a part from the one before it. -/
def separator (style : Style) (level : Nat) : List Nat :=
  comma :: if style.indented then lineBreak style level else [space]

mutual

/-- Writes a value that stands at `level`. -/
def write (style : Style) (level : Nat) : Json → List Nat
  | null => codesOf "null"
  | bool b => codesOf (if b then "true" else "false")
  | int i => codesOfChars (encodeInt i)
  | double x => codesOfChars (encodeDouble x)
  | str s => encodeWide style.ascii s
  | torn t => encodeWide style.ascii (.torn t)
  | arr [] => [openBracket, closeBracket]
  | arr (v :: rest) =>
    openBracket :: lineBreak style (level + 1) ++ write style (level + 1) v ++
      writeItems style (level + 1) rest ++ lineBreak style level ++ [closeBracket]
  | obj [] => [openBrace, closeBrace]
  | obj ((name, v) :: rest) =>
    openBrace :: lineBreak style (level + 1) ++ encodeWide style.ascii name ++ [colon, space] ++
      write style (level + 1) v ++ writeMembers style (level + 1) rest ++ lineBreak style level ++
      [closeBrace]

/-- Writes the items after the first. -/
def writeItems (style : Style) (level : Nat) : List Json → List Nat
  | [] => []
  | v :: rest => separator style level ++ write style level v ++ writeItems style level rest

/-- Writes the members after the first. -/
def writeMembers (style : Style) (level : Nat) : Members → List Nat
  | [] => []
  | (name, v) :: rest =>
    separator style level ++ encodeWide style.ascii name ++ [colon, space] ++ write style level v ++
      writeMembers style level rest

end

/-- The JSON text of a value. -/
def print (style : Style) (v : Json) : Text.Wide := .ofCodes (write style 0 v)

/-! ### Chunks -/

/-- The chunks of an item with what stands before it, which goes into one chunk with an item that holds no others. -/
def chunksBehind (before : List Nat) (v : Json) (chunks : List (List Nat)) : List (List Nat) :=
  match v with
  | arr _ | obj _ => before :: chunks
  | _ => [before ++ chunks.flatten]

mutual

/-- The chunks in which a value that stands at `level` is put out, one after the other. -/
def chunks (style : Style) (level : Nat) : Json → List (List Nat)
  | arr (v :: rest) =>
    chunksBehind (openBracket :: lineBreak style (level + 1)) v (chunks style (level + 1) v) ++
      itemChunks style (level + 1) rest ++ [lineBreak style level, [closeBracket]]
  | obj ((name, v) :: rest) =>
    [[openBrace], lineBreak style (level + 1), encodeWide style.ascii name, [colon, space]] ++
      chunks style (level + 1) v ++ memberChunks style (level + 1) rest ++ [lineBreak style level, [closeBrace]]
  | v => [write style level v]

/-- The chunks of the items after the first. -/
def itemChunks (style : Style) (level : Nat) : List Json → List (List Nat)
  | [] => []
  | v :: rest => chunksBehind (separator style level) v (chunks style level v) ++ itemChunks style level rest

/-- The chunks of the members after the first. -/
def memberChunks (style : Style) (level : Nat) : Members → List (List Nat)
  | [] => []
  | (name, v) :: rest =>
    [separator style level, encodeWide style.ascii name, [colon, space]] ++ chunks style level v ++
      memberChunks style level rest

end

theorem flatten_chunksBehind (before : List Nat) (v : Json) (cs : List (List Nat)) :
    (chunksBehind before v cs).flatten = before ++ cs.flatten := by
  cases v <;> simp [chunksBehind]

mutual

theorem flatten_chunks (style : Style) (level : Nat) : ∀ v : Json, (chunks style level v).flatten = write style level v
  | arr (v :: rest) => by
    simp [chunks, write, flatten_chunksBehind, flatten_chunks style _ v, flatten_itemChunks style _ rest]
  | obj ((_, v) :: rest) => by
    simp [chunks, write, flatten_chunks style _ v, flatten_memberChunks style _ rest]
  | null | bool _ | int _ | double _ | str _ | torn _ | arr [] | obj [] => by simp [chunks]

theorem flatten_itemChunks (style : Style) (level : Nat) :
    ∀ items : List Json, (itemChunks style level items).flatten = writeItems style level items
  | [] => rfl
  | v :: rest => by
    simp [itemChunks, writeItems, flatten_chunksBehind, flatten_chunks style _ v, flatten_itemChunks style _ rest]

theorem flatten_memberChunks (style : Style) (level : Nat) :
    ∀ ms : Members, (memberChunks style level ms).flatten = writeMembers style level ms
  | [] => rfl
  | (_, v) :: rest => by
    simp [memberChunks, writeMembers, flatten_chunks style _ v, flatten_memberChunks style _ rest]

end

/-! ### Order -/

/-- Whether a member comes no later than another one by the code points of their names. -/
def noLater (a b : Text.Wide × Json) : Bool := !b.1.codes.lex a.1.codes

mutual

/-- The value with the members of every object sorted by their names. -/
def sorted : Json → Json
  | arr items => arr (sortedItems items)
  | obj ms => obj ((sortedMembers ms).mergeSort noLater)
  | v => v

def sortedItems : List Json → List Json
  | [] => []
  | v :: rest => sorted v :: sortedItems rest

def sortedMembers : Members → Members
  | [] => []
  | (name, v) :: rest => (name, sorted v) :: sortedMembers rest

end

end Adjudication.Json
