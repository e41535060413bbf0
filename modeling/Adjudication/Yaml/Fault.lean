import Adjudication.Text.Wide

/-!
What can be wrong with a YAML text, and how it is told: what was being read and since where, the problem, and the
lines that it concerns with a caret below the place.
-/

namespace Adjudication.Yaml

/-- A place in a text, lines and columns counted from 0. -/
structure Mark where
  index : Nat
  line : Nat
  column : Nat
  deriving DecidableEq, Repr

def isBreak (c : Char) : Bool := c ∈ ['\n', '\r', '\x85', '\u2028', '\u2029']

def isEnd (c : Char) : Bool := c = '\x00'

def isBreakOrEnd (c : Char) : Bool := isBreak c || isEnd c

namespace Mark

/-- The place a character further on in the same line. -/
def next (m : Mark) : Mark := ⟨m.index + 1, m.line, m.column + 1⟩

/-- How many characters before or after a place are shown of its line. -/
def reach : Nat := 36

/-- What is shown of one side of a line, going away from the place. If there is more, a few characters less are
    shown and some dots instead. -/
def side (s : List Char) : List Char × List Char :=
  let shown := s.takeWhile fun c => !isBreakOrEnd c
  if reach < shown.length then (shown.take (reach - 4), " ... ".toList) else (shown, [])

/-- The line that a place is in, and below it a caret. -/
def snippet (text : List Char) (m : Mark) : String :=
  let (before, head) := side (text.take m.index).reverse
  let (after, tail) := side (text.drop m.index)
  let indent := "    ".toList
  String.ofList (indent ++ head ++ before.reverse ++ after ++ tail ++ '\n' ::
    (indent ++ List.replicate (before.length + head.length) ' ' ++ ['^']))

def message (text : List Char) (m : Mark) : String :=
  "  in \"<unicode string>\", line " ++ toString (m.line + 1) ++ ", column " ++ toString (m.column + 1) ++
    ":\n" ++ m.snippet text

end Mark

/-! ### Flaws -/

/-- What was being read. -/
inductive Activity where
  | nextToken
  | simpleKey
  | directive
  | directivePart
  | alias
  | anchor
  | tag
  | tagPart
  | blockScalar
  | doubleQuoted
  | quoted
  | node
  | blockNode
  | flowNode
  | blockSequence
  | blockMapping
  | flowSequence
  | flowMapping
  | soleDocument
  /-- An anchor that is there already. -/
  | anchored (name : String)
  | table
  | orderedTable
  | pairs
  deriving DecidableEq, Repr

def Activity.text : Activity → String
  | nextToken => "while scanning for the next token"
  | simpleKey => "while scanning a simple key"
  | directive => "while scanning a directive"
  | directivePart => "while parsing a directive"
  | .alias => "while scanning an alias"
  | anchor => "while scanning an anchor"
  | tag => "while scanning a tag"
  | tagPart => "while parsing a tag"
  | blockScalar => "while scanning a block scalar"
  | doubleQuoted => "while scanning a double-quoted scalar"
  | quoted => "while scanning a quoted scalar"
  | node => "while parsing a node"
  | blockNode => "while parsing a block node"
  | flowNode => "while parsing a flow node"
  | blockSequence => "while parsing a block collection"
  | blockMapping => "while parsing a block mapping"
  | flowSequence => "while parsing a flow sequence"
  | flowMapping => "while parsing a flow mapping"
  | soleDocument => "expected a single document in the stream"
  | anchored name => "found duplicate anchor " ++ Text.quote name ++ "; first occurrence"
  | table => "while constructing a mapping"
  | orderedTable => "while constructing an ordered map"
  | pairs => "while constructing pairs"

/-- What is not as it should be. -/
inductive Problem where
  | strayCharacter (c : Char)
  | noColon
  /-- A mark of the structure in a place that cannot have one: what it would begin. -/
  | misplaced (what : String)
  | expected (what : String) (found : Char)
  | zeroIndent
  | notText (e : Text.Utf8.DecodeError)
  | unknownEscape (c : Char)
  | endOfText
  | documentMark
  | repeatedVersion
  | otherVersion
  | repeatedHandle (handle : String)
  | unknownHandle (handle : String)
  /-- Another token than the ones wanted, given by its name. -/
  | token (wanted found : String)
  | anotherDocument
  | unknownAnchor (name : String)
  | secondAnchor
  | unknownTag (tag : String)
  | node (wanted found : String)
  | items (count : Nat)
  | collectionAsKey
  | notAscii (shown : String)
  | notBase64 (reason : String)
  deriving DecidableEq, Repr

def Problem.text : Problem → String
  | strayCharacter c => "found character " ++ Text.quote c.toString ++ " that cannot start any token"
  | noColon => "could not find expected ':'"
  | misplaced what => what ++ " are not allowed here"
  | expected what found => "expected " ++ what ++ ", but found " ++ Text.quote found.toString
  | zeroIndent => "expected indentation indicator in the range 1-9, but found 0"
  | notText e => e.message
  | unknownEscape c => "found unknown escape character " ++ Text.quote c.toString
  | endOfText => "found unexpected end of stream"
  | documentMark => "found unexpected document separator"
  | repeatedVersion => "found duplicate YAML directive"
  | otherVersion => "found incompatible YAML document (version 1.* is required)"
  | repeatedHandle handle => "duplicate tag handle " ++ Text.quote handle
  | unknownHandle handle => "found undefined tag handle " ++ Text.quote handle
  | token wanted found => "expected " ++ wanted ++ " " ++ Text.quote found
  | anotherDocument => "but found another document"
  | unknownAnchor name => "found undefined alias " ++ Text.quote name
  | secondAnchor => "second occurrence"
  | unknownTag tag => "could not determine a constructor for the tag " ++ Text.quote tag
  | node wanted found => "expected " ++ wanted ++ ", but found " ++ found
  | items count => "expected a single mapping item, but found " ++ toString count ++ " items"
  | collectionAsKey => "found unhashable key"
  | notAscii shown => "failed to convert base64 data into ascii: " ++ shown
  | notBase64 reason => "failed to decode base64 data: " ++ reason

/-- A problem and where it shows, with what was being read at the time and where that began. -/
structure Flaw where
  during : Option (Activity × Option Mark)
  problem : Problem
  place : Mark
  deriving DecidableEq, Repr

/-- Where reading began, unless that is in the same place. -/
def Flaw.began (f : Flaw) : Option Mark :=
  (f.during.bind Prod.snd).filter fun m => m.line ≠ f.place.line || m.column ≠ f.place.column

def Flaw.message (text : List Char) (f : Flaw) : String :=
  "\n".intercalate ((f.during.map fun d => d.1.text).toList ++ (f.began.map (Mark.message text)).toList ++
    [f.problem.text, f.place.message text])

/-! ### Faults -/

/-- Why a scalar is not what its tag says. -/
inductive ScalarFault where
  /-- A number, an instant or a code that cannot be; what is said of it. -/
  | badValue (message : String)
  /-- A truth value by an unknown word. -/
  | badWord (word : Text.Wide)
  | emptyNumber
  | notMoment
  /-- An instant by a collection of the given noun. -/
  | momentOfCollection (noun : String)
  /-- A code of a character that is no small number. -/
  | codeTooLarge
  deriving DecidableEq, Repr

def ScalarFault.message : ScalarFault → String
  | badValue message => message
  | badWord word => word.quote
  | emptyNumber => "string index out of range"
  | notMoment => "'NoneType' object has no attribute 'groupdict'"
  | momentOfCollection noun => "expected string or bytes-like object, got '" ++ noun ++ "'"
  | codeTooLarge => "Python int too large to convert to C int"

/-- How many collections may lie within each other where the caller's own calls are few. -/
def usualLevels : Nat := 486

/-- Why a text has no value. -/
inductive Fault where
  | malformed (f : Flaw)
  /-- A character that no text may hold. -/
  | forbidden (c : Char) (position : Nat)
  | scalar (f : ScalarFault)
  /-- Nodes that lie too deep within each other, or a scalar that stands for itself. -/
  | tooDeep
  deriving DecidableEq, Repr

namespace Fault

def message (text : List Char) : Fault → String
  | malformed f => f.message text
  | forbidden c position =>
    "unacceptable character #x" ++ String.ofList (Text.hexDigits 4 c.toNat) ++
      ": special characters are not allowed\n  in \"<unicode string>\", position " ++ toString position
  | scalar f => f.message
  | tooDeep => "maximum recursion depth exceeded"

/-- A flaw as a fault. -/
def flaw (during : Option (Activity × Option Mark)) (problem : Problem) (place : Mark) : Fault :=
  malformed ⟨during, problem, place⟩

/-- What is said of a value that cannot be, as a fault. -/
def badValue (message : String) : Fault := scalar (.badValue message)

end Fault

end Adjudication.Yaml
