import Adjudication.Template.Layout

/-!
Templates of command parts: literal text with doubled braces for single ones, and replacement fields in braces. A
field names a value, may pick a part of it or ask for an attribute, may ask for its quoted form, and may lay it out to
a width; the layout may itself hold fields. Values are put in as they are and never read as templates.
-/

namespace Adjudication.Template

abbrev Filled := Except Fault (List Char)

/-! ### Fields -/

/-- A replacement field: what it names, the conversion asked for, and its layout. -/
structure Field where
  name : List Char
  conversion : Option Char
  layout : List Char
  deriving DecidableEq, Repr

/-- Takes the name of a field off the front, up to and with the character that ends it. Brackets hide what
    is between them. -/
def splitName : (inBrackets : Bool) → List Char →
    Except Fault (List Char × Option Char × List Char)
  | _, [] => .ok ([], none, [])
  | true, c :: rest =>
    (splitName (c ≠ ']') rest).map fun (name, stop, rest) => (c :: name, stop, rest)
  | false, c :: rest =>
    if c = '{' then refuse "unexpected '\x7b' in field name"
    else if c = '}' ∨ c = ':' ∨ c = '!' then .ok ([], some c, rest)
    else (splitName (c = '[') rest).map fun (name, stop, rest) => (c :: name, stop, rest)

/-- Takes a layout off the front, up to and with the brace that closes its field. -/
def splitLayout : (depth : Nat) → List Char → Except Fault (List Char × List Char)
  | _, [] => refuse "unmatched '\x7b' in format spec"
  | depth, c :: rest =>
    if c = '}' ∧ depth = 0 then .ok ([], rest)
    else
      let depth := if c = '{' then depth + 1 else if c = '}' then depth - 1 else depth
      (splitLayout depth rest).map fun (spec, rest) => (c :: spec, rest)

/-- Takes a field off the front, from after its opening brace. -/
def splitField (s : List Char) : Except Fault (Field × List Char) := do
  let (name, stop, rest) ← splitName false s
  match stop with
  | some '}' => return (⟨name, none, []⟩, rest)
  | some ':' =>
    let (spec, rest) ← splitLayout 0 rest
    return (⟨name, none, spec⟩, rest)
  | some _ =>
    match rest with
    | [] => refuse "end of string while looking for conversion specifier"
    | conversion :: rest =>
      match rest with
      | '}' :: rest => return (⟨name, some conversion, []⟩, rest)
      | ':' :: rest =>
        let (spec, rest) ← splitLayout 0 rest
        return (⟨name, some conversion, spec⟩, rest)
      | [] => refuse "unmatched '\x7b' in format spec"
      | _ => refuse "expected ':' after conversion specifier"
  | none => refuse "expected '\x7d' before end of string"

/-- The values that fields can name. -/
abbrev Values := List (String × String)

/-- Follows a name from its second part on. -/
def follow (value : Value) : (fuel : Nat) → List Char → Except Fault Value
  | 0, _ => .ok value
  | _ + 1, [] => .ok value
  | fuel + 1, '.' :: rest => do
    let isName := fun c => c ≠ '.' ∧ c ≠ '['
    match rest.takeWhile isName with
    | [] => refuse "Empty attribute in format string"
    | name => follow (← value.under (String.ofList name)) fuel (rest.dropWhile isName)
  | fuel + 1, '[' :: rest => do
    let index := rest.takeWhile (· ≠ ']')
    match rest.dropWhile (· ≠ ']') with
    | [] => refuse "Missing ']' in format string"
    | _ :: rest =>
      if index = [] then refuse "Empty attribute in format string"
      follow (← value.part (← numberOf? index)) fuel rest
  | _ + 1, _ :: _ => refuse "Only '.' or '[' may follow ']' in format field specifier"

/-- The value that a field names. -/
def valueOf (values : Values) (name : List Char) : Except Fault Value := do
  let isFirst := fun c => c ≠ '.' ∧ c ≠ '['
  let first := name.takeWhile isFirst
  if first = [] then .error (.noPosition 0)
  match ← numberOf? first with
  | some i => .error (.noPosition i)
  | none =>
    let key := String.ofList first
    match (values.find? fun v => v.1 = key).map Prod.snd with
    | none => .error (.unknownName key)
    | some value => follow (.ofString value) name.length (name.dropWhile isFirst)

/-- A value after a conversion. -/
def convert (value : Value) : Option Char → Except Fault Value
  | none => .ok value
  | some 's' => .ok (.text value.shown)
  | some 'r' => .ok (.text (value.quoted Text.quote))
  | some 'a' => .ok (.text (value.quoted Text.quoteAscii))
  | some c =>
    if 32 < c.toNat ∧ c.toNat < 127 then
      refuse ("Unknown conversion specifier " ++ String.singleton c)
    else
      refuse ("Unknown conversion specifier \\x" ++ String.ofList (Nat.toDigits 16 c.toNat))

/-- Lays a value out; where nothing is said of the layout, any value will do. -/
def layOut (value : Value) (spec : List Char) : Filled :=
  if spec = [] then .ok value.shown
  else
    match value with
    | .text s => do
      let l ← readLayout spec
      if Layout.widest < l.width.getD 0 then .error .tooWide
      return l.apply s
    | v => .error (.noLayout v.kindOf)

/-- Fills a template in; `inner` fills in the layouts of its fields. -/
def fillWith (values : Values) (inner : List Char → Filled) : (fuel : Nat) → List Char → Filled
  | 0, _ => .ok []
  | _ + 1, [] => .ok []
  | fuel + 1, '{' :: rest =>
    match rest with
    | [] => refuse "Single '\x7b' encountered in format string"
    | '{' :: rest => (fillWith values inner fuel rest).map ('{' :: ·)
    | rest => do
      let (field, rest) ← splitField rest
      let value ← convert (← valueOf values field.name) field.conversion
      let spec ← if '{' ∈ field.layout then inner field.layout else pure field.layout
      return (← layOut value spec) ++ (← fillWith values inner fuel rest)
  | fuel + 1, '}' :: rest =>
    match rest with
    | '}' :: rest => (fillWith values inner fuel rest).map ('}' :: ·)
    | _ => refuse "Single '\x7d' encountered in format string"
  | fuel + 1, c :: rest => (fillWith values inner fuel rest).map (c :: ·)

/-- Fills in a template that stands within `levels` further ones at most. -/
def fillNested (values : Values) : (levels : Nat) → List Char → Filled
  | 0, _ => refuse "Max string recursion exceeded"
  | levels + 1, s => fillWith values (fillNested values levels) s.length s

/-- Fills a template in; layouts may hold fields, but not fields whose layouts hold fields. -/
def fill (values : Values) (template : String) : Except Fault String :=
  (fillNested values 2 template.toList).map String.ofList

end Adjudication.Template
