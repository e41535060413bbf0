import Adjudication.Json.Value
import Adjudication.Decimal.Numeral

/-!
Reading JSON text. Beyond the standard the words `NaN`, `Infinity` and `-Infinity` are numbers, and repeated names
are allowed. There are limits: an integer may have no more digits than `Decimal.digitLimit`, and values may lie no
deeper within each other than the stack of the caller has levels left. A text is read by its code points, for it may be
torn. Every function reads from the front of the remaining code points and gives back what it leaves; a fault carries the
code points from its place on, so that its line and column can be told.
-/

namespace Adjudication.Json

/-- What is wrong with a text that is not JSON. -/
inductive Problem
  | expectingValue
  | extraData
  | expectingName
  | expectingColon
  | expectingComma
  | unterminated
  | controlCharacter
  | badEscape
  | badUnicodeEscape
  | byteOrderMark
  deriving DecidableEq, Repr

def Problem.message : Problem → String
  | .expectingValue => "Expecting value"
  | .extraData => "Extra data"
  | .expectingName => "Expecting property name enclosed in double quotes"
  | .expectingColon => "Expecting ':' delimiter"
  | .expectingComma => "Expecting ',' delimiter"
  | .unterminated => "Unterminated string starting at"
  | .controlCharacter => "Invalid control character at"
  | .badEscape => "Invalid \\escape"
  | .badUnicodeEscape => "Invalid \\uXXXX escape"
  | .byteOrderMark => "Unexpected UTF-8 BOM (decode using utf-8-sig)"

/-- A value that holds others. -/
inductive Container
  | array
  | object
  deriving DecidableEq, Repr

def Container.noun : Container → String
  | array => "array"
  | object => "object"

/-- What goes beyond the limits: an integer by the number of its digits, or a container by how deep it lies. -/
inductive Excess
  | digits (count : Nat)
  | nesting (c : Container)
  deriving DecidableEq, Repr

def Excess.message : Excess → String
  | digits n =>
    "Exceeds the limit (" ++ toString Decimal.digitLimit ++
      " digits) for integer string conversion: value has " ++ toString n ++
      " digits; use sys.set_int_max_str_digits() to increase the limit"
  | nesting c =>
    "maximum recursion depth exceeded while decoding a JSON " ++ c.noun ++ " from a unicode string"

/-- How many containers may lie within each other where the caller's own calls are few. -/
def usualLevels : Nat := 985

/-- A fault found while reading: a problem at the head of `rest`, or what goes beyond the limits. -/
inductive Fault
  | malformed (problem : Problem) (rest : List Nat)
  | excess (e : Excess)
  deriving DecidableEq, Repr

/-- A reader takes code points from the front and gives back the others. -/
abbrev Reading (α : Type) := Except Fault (α × List Nat)

open Sign

/-- White space between tokens. -/
def isSpace (code : Nat) : Bool := code == 0x20 || code == 0x09 || code == 0x0A || code == 0x0D

def skipSpace (s : List Nat) : List Nat := s.dropWhile isSpace

/-! ### Strings -/

def hexValue? (c : Char) : Option Nat :=
  if '0' ≤ c ∧ c ≤ '9' then some (c.toNat - '0'.toNat)
  else if 'a' ≤ c ∧ c ≤ 'f' then some (c.toNat - 'a'.toNat + 10)
  else if 'A' ≤ c ∧ c ≤ 'F' then some (c.toNat - 'A'.toNat + 10)
  else none

/-- The code unit that four hexadecimal digits denote. -/
def codeUnit? (a b c d : Nat) : Option Nat :=
  [a, b, c, d].foldlM (fun n code => (hexValue? (Char.ofNat code)).map (16 * n + ·)) 0

/-- The character of a one-letter escape. -/
def simpleEscape? (c : Char) : Option Char :=
  if c = '"' ∨ c = '\\' ∨ c = '/' then some c
  else if c = 'b' then some '\x08'
  else if c = 'f' then some '\x0c'
  else if c = 'n' then some '\n'
  else if c = 'r' then some '\r'
  else if c = 't' then some '\t'
  else none

/-- A part of a string: a code point as it stands, or a code unit by its escape. -/
inductive Piece
  | plain (code : Nat)
  | escaped (unit : Nat)
  deriving DecidableEq, Repr

/-- Reads the body of a string and its closing quote; `start` is the text from the opening quote on. -/
def scanBody (start : List Nat) : List Nat → Reading (List Piece)
  | [] => .error (.malformed .unterminated start)
  | quotation :: rest => .ok ([], rest)
  | backslash :: rest =>
    match rest with
    | [] => .error (.malformed .unterminated start)
    | letterU :: after =>
      match after with
      | h1 :: h2 :: h3 :: h4 :: after =>
        match codeUnit? h1 h2 h3 h4, scanBody start after with
        | some u, .ok (pieces, rest) => .ok (.escaped u :: pieces, rest)
        | some _, .error f =>
          .error (if after = [] then .malformed .badUnicodeEscape rest else f)
        | none, _ => .error (.malformed .badUnicodeEscape rest)
      | _ => .error (.malformed .badUnicodeEscape rest)
    | e :: after =>
      match simpleEscape? (Char.ofNat e) with
      | none => .error (.malformed .badEscape (backslash :: rest))
      | some x =>
        match scanBody start after with
        | .ok (pieces, rest) => .ok (.plain x.toNat :: pieces, rest)
        | .error f => .error f
  | code :: rest =>
    if code < 0x20 then .error (.malformed .controlCharacter (code :: rest))
    else
      match scanBody start rest with
      | .ok (pieces, rest) => .ok (.plain code :: pieces, rest)
      | .error f => .error f

/-- The code points of a string. Two escapes side by side that name a high and a low surrogate name one code point
    together. -/
def codesOfPieces : List Piece → List Nat
  | [] => []
  | .plain code :: rest => code :: codesOfPieces rest
  | .escaped u :: .escaped v :: rest =>
    if 0xD800 ≤ u ∧ u < 0xDC00 ∧ 0xDC00 ≤ v ∧ v < 0xE000 then
      (0x10000 + (u - 0xD800) * 0x400 + (v - 0xDC00)) :: codesOfPieces rest
    else u :: codesOfPieces (.escaped v :: rest)
  | .escaped u :: rest => u :: codesOfPieces rest

/-- Reads a string after its opening quote; `start` is the text from that quote on. -/
def readString (start s : List Nat) : Reading Text.Wide :=
  (scanBody start s).map fun (pieces, rest) => (Text.Wide.ofCodes (codesOfPieces pieces), rest)

/-! ### Numbers -/

def isDigit (code : Nat) : Bool := 0x30 ≤ code && code ≤ 0x39

/-- The digits in front. -/
def digitRun (s : List Nat) : List Char := (s.takeWhile isDigit).map Char.ofNat

/-- A point and digits, if they stand at the front. -/
def splitFraction (s : List Nat) : List Char × List Nat :=
  match s with
  | point :: rest =>
    let ds := digitRun rest
    if ds = [] then ([], s) else (ds, rest.dropWhile isDigit)
  | _ => ([], s)

/-- An exponent with its sign and digits, if it stands at the front. -/
def splitExponent (s : List Nat) : Option Int × List Nat :=
  match s with
  | c :: rest =>
    if Char.ofNat c = 'e' ∨ Char.ofNat c = 'E' then
      let (negative, rest) : Bool × List Nat := match rest with
        | minus :: rest => (true, rest)
        | plus :: rest => (false, rest)
        | rest => (false, rest)
      let ds := digitRun rest
      if ds = [] then (none, s)
      else
        let n : Int := Decimal.valueOf ds
        (some (if negative then -n else n), rest.dropWhile isDigit)
    else (none, s)
  | [] => (none, s)

/-- Reads a number without its sign; `start` is the text from the sign on. -/
def readMagnitude (negative : Bool) (start s : List Nat) : Reading Json :=
  let run := digitRun s
  let whole := if run.head? = some '0' then ['0'] else run
  if whole = [] then .error (.malformed .expectingValue start)
  else
    let (fraction, rest) := splitFraction (s.drop whole.length)
    let (exponent, rest) := splitExponent rest
    if fraction = [] ∧ exponent = none then
      if Decimal.digitLimit < whole.length then .error (.excess (.digits whole.length))
      else
        let n : Int := Decimal.valueOf whole
        .ok (.int (if negative then -n else n), rest)
    else
      .ok (.double (Decimal.nearest negative (Decimal.valueOf (whole ++ fraction))
        (exponent.getD 0 - fraction.length)), rest)

/-- Takes a word off the front. -/
def afterWord? (word : String) (s : List Nat) : Option (List Nat) :=
  if (Text.codesOf word).isPrefixOf s then some (s.drop word.length) else none

/-- Reads null, a truth value or a number. -/
def readAtom (s : List Nat) : Reading Json :=
  match Char.ofNat (s.headD 0) with
  | 'n' => word "null" .null
  | 't' => word "true" (.bool true)
  | 'f' => word "false" (.bool false)
  | 'N' => word "NaN" (.double (0.0 / 0.0))
  | 'I' => word "Infinity" (.double (1.0 / 0.0))
  | '-' =>
    match afterWord? "Infinity" s.tail with
    | some rest => .ok (.double (-1.0 / 0.0), rest)
    | none => readMagnitude true s s.tail
  | _ => readMagnitude false s s
where
  word (w : String) (v : Json) : Reading Json :=
    match afterWord? w s with
    | some rest => .ok (v, rest)
    | none => .error (.malformed .expectingValue s)

/-! ### Values -/

mutual

/-- Reads a value from its first code point. The fuel bounds the number of values and members read; `levels` is how
    many containers may still be opened within each other. -/
def readValue (levels : Nat) : (fuel : Nat) → List Nat → Reading Json
  | 0, s => .error (.malformed .expectingValue s)
  | fuel + 1, s =>
    match s with
    | quotation :: rest => (readString s rest).map fun (t, rest) => (ofWide t, rest)
    | openBrace :: rest =>
      if levels = 0 then .error (.excess (.nesting .object))
      else
        match skipSpace rest with
        | closeBrace :: rest => .ok (.obj [], rest)
        | rest =>
          (readMembers (levels - 1) fuel rest).map fun (ms, rest) => (.obj (Members.ofWritten ms), rest)
    | openBracket :: rest =>
      if levels = 0 then .error (.excess (.nesting .array))
      else
        match skipSpace rest with
        | closeBracket :: rest => .ok (.arr [], rest)
        | rest => (readItems (levels - 1) fuel rest).map fun (items, rest) => (.arr items, rest)
    | _ => readAtom s

/-- Reads members from a name on, up to and with the closing brace. -/
def readMembers (levels : Nat) : (fuel : Nat) → List Nat → Reading Members
  | 0, s => .error (.malformed .expectingName s)
  | fuel + 1, s =>
    match s with
    | quotation :: rest =>
      match readString s rest with
      | .error f => .error f
      | .ok (name, rest) =>
        match skipSpace rest with
        | colon :: rest =>
          match readValue levels fuel (skipSpace rest) with
          | .error f => .error f
          | .ok (value, rest) =>
            match skipSpace rest with
            | closeBrace :: rest => .ok ([(name, value)], rest)
            | comma :: rest =>
              (readMembers levels fuel (skipSpace rest)).map fun (ms, rest) =>
                ((name, value) :: ms, rest)
            | rest => .error (.malformed .expectingComma rest)
        | rest => .error (.malformed .expectingColon rest)
    | _ => .error (.malformed .expectingName s)

/-- Reads items from a value on, up to and with the closing bracket. -/
def readItems (levels : Nat) : (fuel : Nat) → List Nat → Reading (List Json)
  | 0, s => .error (.malformed .expectingValue s)
  | fuel + 1, s =>
    match readValue levels fuel s with
    | .error f => .error f
    | .ok (value, rest) =>
      match skipSpace rest with
      | closeBracket :: rest => .ok ([value], rest)
      | comma :: rest =>
        (readItems levels fuel (skipSpace rest)).map fun (items, rest) => (value :: items, rest)
      | rest => .error (.malformed .expectingComma rest)

end

/-- Reads a whole text. Each value, member or item takes at least one code point, and no two calls that take
    none follow each other, so twice the length is fuel enough. -/
def readCodes (levels : Nat) (s : List Nat) : Except Fault Json :=
  if s.head? = some byteOrderMark then .error (.malformed .byteOrderMark s)
  else
    match readValue levels (2 * s.length + 2) (skipSpace s) with
    | .error f => .error f
    | .ok (value, rest) =>
      match skipSpace rest with
      | [] => .ok value
      | rest => .error (.malformed .extraData rest)

/-! ### Places -/

/-- Why a text could not be read: a problem with its line, column and index, counted in code points, or what goes
    beyond the limits. -/
inductive ReadError
  | malformed (problem : Problem) (line column index : Nat)
  | excess (e : Excess)
  deriving DecidableEq, Repr

/-- The place in `text` at which `rest` starts. -/
def ReadError.ofFault (text : List Nat) : Fault → ReadError
  | .excess e => .excess e
  | .malformed p rest =>
    let before := text.take (text.length - rest.length)
    let line := before.count 0x0A + 1
    let column := (before.reverse.takeWhile (· ≠ 0x0A)).length + 1
    .malformed p line column before.length

def ReadError.message : ReadError → String
  | .malformed p line column index =>
    p.message ++ ": line " ++ toString line ++ " column " ++ toString column ++
      " (char " ++ toString index ++ ")"
  | .excess e => e.message

/-- Decodes a JSON text that may be torn, where so many levels of containers may lie within each other. -/
def readWide (levels : Nat) (text : Text.Wide) : Except ReadError Json :=
  (readCodes levels text.codes).mapError (ReadError.ofFault text.codes)

/-- Decodes a JSON text. -/
def read (levels : Nat) (text : String) : Except ReadError Json := readWide levels text

end Adjudication.Json
