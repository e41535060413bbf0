import Adjudication.Decimal.Literal
import Adjudication.Text.Utf8
import Adjudication.Yaml.Token.Basic
import Adjudication.Yaml.Token.Scalar

/-!
Reading directives, anchors and tags.
-/

namespace Adjudication.Yaml

/-- Refuses what is no character of a name. -/
def refuseName {α : Type} (a : Activity) (start : Mark) (c : Cursor) : Except Fault α :=
  c.refuse a start (.expected "alphabetic or numeric character" c.head)

/-- A name of at least one character. -/
def scanName (a : Activity) (start : Mark) (c : Cursor) : Except Fault (String × Cursor) :=
  match c.takeWhile isNameChar with
  | ([], _) => refuseName a start c
  | (name, c) => .ok (String.ofList name, c)

/-- The name of an anchor from its mark on, and what may follow it. -/
def scanAnchor (a : Activity) (c : Cursor) : Except Fault (String × Cursor) := do
  let start := c.mark
  let (name, c) ← scanName a start c.next
  if isGap c.head || c.head ∈ ['?', ':', ',', ']', '}', '%', '@', '\x60'] then return (name, c)
  else refuseName a start c

/-! ### Tags -/

def isUriChar (c : Char) : Bool := c.isAlphanum || c ∈ "-;/?:@&=+$,_.!~*'()[]%".toList

/-- The bytes of escapes, two hexadecimal digits each, as many as follow each other. -/
def scanBytes (a : Activity) (start : Mark) (c : Cursor) : (fuel : Nat) → Except Fault (Text.Utf8.Bytes × Cursor)
  | 0 => .ok ([], c)
  | fuel + 1 =>
    if c.head ≠ '%' then .ok ([], c)
    else
      let refuse (found : Char) :=
        c.next.refuse a start (.expected "URI escape sequence of 2 hexadecimal numbers" found)
      match Json.hexValue? (c.ahead 1), Json.hexValue? (c.ahead 2) with
      | some high, some low => do
        let (bytes, c) ← scanBytes a start (c.skip 3) fuel
        return (UInt8.ofNat (16 * high + low) :: bytes, c)
      | some _, none => refuse (c.ahead 2)
      | none, _ => refuse (c.ahead 1)

/-- The characters of a tag, escapes read as bytes of UTF-8. -/
def scanUriChars (a : Activity) (start : Mark) (c : Cursor) : (fuel : Nat) → Except Fault (List Char × Cursor)
  | 0 => .ok ([], c)
  | fuel + 1 =>
    if c.head = '%' then do
      let (bytes, after) ← scanBytes a start c (c.rest.length + 1)
      match Text.Utf8.decode? bytes with
      | .error e => c.refuse a start (.notText e)
      | .ok text =>
        let (more, c) ← scanUriChars a start after fuel
        return (text.toList ++ more, c)
    else if isUriChar c.head then do
      let (more, c') ← scanUriChars a start c.next fuel
      return (c.head :: more, c')
    else .ok ([], c)

/-- The part of a tag after its short form; `whole` is what it is told to be a part of where it is missing. -/
def scanUri (a whole : Activity) (start : Mark) (c : Cursor) : Except Fault (String × Cursor) := do
  match ← scanUriChars a start c (c.rest.length + 1) with
  | ([], c) => c.refuse whole start (.expected "URI" c.head)
  | (text, c) => return (String.ofList text, c)

/-- The short form that a tag starts with: an exclamation mark, or a name between two of them. -/
def scanHandle (a : Activity) (start : Mark) (c : Cursor) : Except Fault (String × Cursor) :=
  if c.head ≠ '!' then c.refuse a start (.expected "'!'" c.head)
  else if c.ahead 1 = ' ' then .ok ("!", c.next)
  else
    let (name, after) := c.next.takeWhile isNameChar
    if after.head = '!' then .ok (String.ofList ('!' :: name ++ ['!']), after.next)
    else after.refuse a start (.expected "'!'" after.head)

/-- Whether a tag has a second exclamation mark, so that a short form is used. -/
def usesHandle (c : Cursor) : Bool := '!' ∈ c.rest.takeWhile fun x => !isSpaceOrEnd x

/-- A tag from its exclamation mark on. -/
def scanTag (c : Cursor) : Except Fault (Token × Cursor) := do
  let start := c.mark
  let ((handle, suffix), c) ← (
    if c.ahead 1 = '<' then do
      let (suffix, c) ← scanUri .tag .tagPart start (c.skip 2)
      if c.head = '>' then return ((none, suffix), c.next)
      else c.refuse .tagPart start (.expected "'>'" c.head)
    else if isGap (c.ahead 1) then return ((none, "!"), c.next)
    else do
      let (handle, c) ← if usesHandle c.next then scanHandle .tag start c else pure ("!", c.next)
      let (suffix, c) ← scanUri .tag .tagPart start c
      return ((some handle, suffix), c))
  if isSpaceOrEnd c.head then return (.tag handle suffix, c)
  else c.refuse .tag start (.expected "' '" c.head)

/-! ### Directives -/

/-- A decimal number. -/
def scanNumber (start : Mark) (c : Cursor) : Except Fault (Nat × Cursor) :=
  match c.takeWhile Char.isDigit with
  | ([], _) => c.refuse .directive start (.expected "a digit" c.head)
  | (ds, after) =>
    match Decimal.typedNat 10 ds with
    | .ok n => .ok (n, after)
    | .error _ => .error (.badValue (Json.Excess.digits ds.length).message)

def scanVersion (start : Mark) (c : Cursor) : Except Fault (Directive × Cursor) := do
  let (major, c) ← scanNumber start c.skipSpaces
  if c.head ≠ '.' then c.refuse .directive start (.expected "a digit or '.'" c.head)
  else
    let (_, c) ← scanNumber start c.next
    if isSpaceOrEnd c.head then return (.version major, c)
    else c.refuse .directive start (.expected "a digit or ' '" c.head)

def scanHandleDirective (start : Mark) (c : Cursor) : Except Fault (Directive × Cursor) := do
  let (handle, c) ← scanHandle .directive start c.skipSpaces
  if c.head ≠ ' ' then c.refuse .directive start (.expected "' '" c.head)
  else
    let (tag, c) ← scanUri .directive .directivePart start c.skipSpaces
    if isSpaceOrEnd c.head then return (.handle handle tag, c)
    else c.refuse .directive start (.expected "' '" c.head)

/-- A directive from its mark on, with the rest of its line. -/
def scanDirective (c : Cursor) : Except Fault (Token × Cursor) := do
  let start := c.mark
  let (name, c) ← scanName .directive start c.next
  if !isSpaceOrEnd c.head then refuseName .directive start c
  else
    let (d, c) ← if name = "YAML" then scanVersion start c
      else if name = "TAG" then scanHandleDirective start c
      else pure (.other, c.skipLine)
    return (.directive d, ← scanEmptyLine .directive start c)

end Adjudication.Yaml
