import Adjudication.Json.Reader
import Adjudication.Yaml.Cursor

/-!
Reading scalars: plain ones, quoted ones and blocks of lines. A line break within a plain or a quoted scalar is
folded into a space, and further line breaks after it are kept.
-/

namespace Adjudication.Yaml

open Cursor

/-! ### Plain scalars -/

/-- What separates two lines that are folded together: `first` is the line break between them, `others` are
    the ones of empty lines. -/
def folded (first others : List Char) : List Char :=
  if first ≠ ['\n'] then first ++ others else if others = [] then [' '] else others

/-- The line breaks of empty lines in front, spaces skipped; nothing if a document starts or ends there. -/
def plainBreaks (c : Cursor) : (fuel : Nat) → Option (List Char) × Cursor
  | 0 => (some [], c)
  | fuel + 1 =>
    if c.head = ' ' then plainBreaks c.next fuel
    else if isBreak c.head then
      let (br, c) := c.lineBreak
      if c.hasAnyMark then (none, c)
      else
        match plainBreaks c fuel with
        | (some more, c) => (some (br ++ more), c)
        | (none, c) => (none, c)
    else (some [], c)

/-- What may stand between two pieces of a plain scalar. -/
structure Between where
  text : List Char
  /-- Whether a line has ended. -/
  crossed : Bool
  cursor : Cursor

def plainSpaces (c : Cursor) : Between :=
  let (spaces, c) := c.takeWhile (· = ' ')
  if isBreak c.head then
    let (br, c) := c.lineBreak
    if c.hasAnyMark then ⟨[], true, c⟩
    else
      match plainBreaks c c.rest.length with
      | (none, c) => ⟨[], true, c⟩
      | (some others, c) => ⟨folded br others, true, c⟩
  else ⟨spaces, false, c⟩

/-- How many characters in front belong to a plain scalar. -/
def plainLength (flow : Bool) : List Char → Nat
  | [] => 0
  | c :: rest =>
    let after := rest.headD '\x00'
    if isGap c || (c = ':' && (isGap after || (flow && after ∈ [',', '[', ']', '{', '}']))) ||
        (flow && c ∈ [',', '?', '[', ']', '{', '}']) then 0
    else plainLength flow rest + 1

/-- A scalar's text, whether its last line has ended, and the place after it. -/
structure Scanned where
  text : List Char
  crossed : Bool
  cursor : Cursor

/-- A plain scalar whose further lines are indented by `indent` at least. -/
def scanPlain (flow : Bool) (indent : Int) (between : List Char) (crossed : Bool) (c : Cursor) :
    (fuel : Nat) → Scanned
  | 0 => ⟨[], crossed, c⟩
  | fuel + 1 =>
    let length := plainLength flow c.rest
    if c.head = '#' ∨ length = 0 then ⟨[], crossed, c⟩
    else
      let piece := between ++ c.rest.take length
      let b := plainSpaces (c.skip length)
      if b.text = [] ∨ b.cursor.head = '#' ∨ (!flow ∧ (b.cursor.column : Int) < indent) then
        ⟨piece, b.crossed, b.cursor⟩
      else
        let more := scanPlain flow indent b.text b.crossed b.cursor fuel
        ⟨piece ++ more.text, more.crossed, more.cursor⟩

/-! ### Quoted scalars -/

/-- The line breaks of empty lines in a quoted scalar. No document may start or end there. -/
def quotedBreaks (start : Mark) (c : Cursor) : (fuel : Nat) → Except Fault (List Char × Cursor)
  | 0 => c.refuse .quoted start .endOfText
  | fuel + 1 =>
    if c.hasAnyMark then c.refuse .quoted start .documentMark
    else
      let c := c.skipWhile fun x => x = ' ' || x = '\t'
      if isBreak c.head then do
        let (br, c) := c.lineBreak
        let (more, c) ← quotedBreaks start c fuel
        return (br ++ more, c)
      else .ok ([], c)

/-- The character that a short escape stands for. -/
def shortEscape? : Char → Option Char
  | '0' => some '\x00'
  | 'a' => some '\x07'
  | 'b' => some '\x08'
  | 't' | '\t' => some '\t'
  | 'n' => some '\n'
  | 'v' => some '\x0b'
  | 'f' => some '\x0c'
  | 'r' => some '\r'
  | 'e' => some '\x1b'
  | ' ' => some ' '
  | '"' => some '"'
  | '\\' => some '\\'
  | '/' => some '/'
  | 'N' => some '\x85'
  | '_' => some '\xa0'
  | 'L' => some '\u2028'
  | 'P' => some '\u2029'
  | _ => none

/-- How many digits the escape of a code has. -/
def codeEscape? (c : Char) : Option Nat :=
  if c = 'x' then some 2 else if c = 'u' then some 4 else if c = 'U' then some 8 else none

/-- The number that hexadecimal digits stand for. -/
def hexNumber? (ds : List Char) : Option Nat :=
  ds.foldlM (fun n d => (Json.hexValue? d).map (16 * n + ·)) 0

/-- A code that was escaped; it may be a surrogate. -/
def checkCode (code : Nat) : Except Fault Nat :=
  if 0x7FFFFFFF < code then .error (.scalar .codeTooLarge)
  else if 0x10FFFF < code then .error (.badValue "chr() arg not in range(0x110000)")
  else .ok code

def codes (s : List Char) : List Nat := s.map Char.toNat

/-- What an escape of a code wants to be followed by. -/
def hexadecimals (width : Nat) : String :=
  "escape sequence of " ++ toString width ++ " hexadecimal numbers"

/-- An escape after its backslash: its code points and the place after it. -/
def scanEscape (start : Mark) (c : Cursor) : Except Fault (List Nat × Cursor) :=
  match shortEscape? c.head with
  | some x => .ok ([x.toNat], c.next)
  | none =>
    match codeEscape? c.head with
    | some width => do
      let digits := (List.range width).map c.next.ahead
      match digits.find? fun d => (Json.hexValue? d).isNone, hexNumber? digits with
      | none, some code => return ([← checkCode code], c.next.skip width)
      | found, _ => c.next.refuse .doubleQuoted start (.expected (hexadecimals width) (found.getD c.head))
    | none =>
      if isBreak c.head then do
        let (breaks, c) ← quotedBreaks start c.lineBreak.2 (c.rest.length + 1)
        return (codes breaks, c)
      else c.refuse .doubleQuoted start (.unknownEscape c.head)

/-- Spaces in a quoted scalar, or the line breaks that they end in. -/
def scanQuotedSpaces (start : Mark) (c : Cursor) : Except Fault (List Char × Cursor) := do
  let (spaces, c) := c.takeWhile fun x => x = ' ' || x = '\t'
  if isEnd c.head then c.refuse .quoted start .endOfText
  else if isBreak c.head then
    let (br, c) := c.lineBreak
    let (others, c) ← quotedBreaks start c (c.rest.length + 1)
    return (folded br others, c)
  else return (spaces, c)

/-- Reads the code points of a quoted scalar after its opening quote, up to and with the closing one. Between single
    quotes, a quote is written twice; between double ones there are escapes. -/
def scanQuoted (double : Bool) (start : Mark) (c : Cursor) : (fuel : Nat) → Except Fault (List Nat × Cursor)
  | 0 => c.refuse .quoted start .endOfText
  | fuel + 1 => do
    let x := c.head
    if x = '"' ∧ double then return ([], c.next)
    else if x = '\'' ∧ !double ∧ c.ahead 1 ≠ '\'' then return ([], c.next)
    else
      let (piece, c) ←
        if isGap x then (scanQuotedSpaces start c).map fun (spaces, c) => (codes spaces, c)
        else if double ∧ x = '\\' then scanEscape start c.next
        else if !double ∧ x = '\'' then .ok ([x.toNat], c.skip 2)
        else .ok ([x.toNat], c.next)
      let (more, c) ← scanQuoted double start c fuel
      return (piece ++ more, c)

/-! ### Blocks of lines -/

/-- How the last line break of a block is treated: it is kept alone, it is dropped, or it is kept with the empty
    lines after it. -/
inductive Chomping where
  | clip
  | strip
  | keep
  deriving DecidableEq, Repr

def chompingOf? (c : Char) : Option Chomping :=
  if c = '+' then some .keep else if c = '-' then some .strip else none

/-- A digit from 1 to 9; a zero is refused. -/
def scanIndicator (start : Mark) (c : Cursor) : Except Fault (Option Nat × Cursor) :=
  if c.head = '0' then c.refuse .blockScalar start .zeroIndent
  else if c.head.isDigit then .ok (some (c.head.toNat - '0'.toNat), c.next)
  else .ok (none, c)

/-- What stands after the mark of a block: how it ends and how far it is indented, in any order. -/
def scanIndicators (start : Mark) (c : Cursor) : Except Fault ((Chomping × Option Nat) × Cursor) := do
  let ((chomping, increment), c) ← (
    match chompingOf? c.head with
    | some chomping => do
      let (increment, c) ← scanIndicator start c.next
      return ((chomping, increment), c)
    | none => do
      let (increment, c) ← scanIndicator start c
      match increment, chompingOf? c.head with
      | some n, some chomping => return ((chomping, some n), c.next)
      | _, _ => return ((.clip, increment), c))
  if isSpaceOrEnd c.head then return ((chomping, increment), c)
  else c.refuse .blockScalar start (.expected "chomping or indentation indicators" c.head)

/-- The rest of a line that may hold a comment and nothing else. -/
def scanEmptyLine (a : Activity) (start : Mark) (c : Cursor) : Except Fault Cursor :=
  let c := c.skipSpaces
  let c := if c.head = '#' then c.skipLine else c
  if isBreakOrEnd c.head then .ok c.lineBreak.2
  else c.refuse a start (.expected "a comment or a line break" c.head)

/-- The empty lines in front of a block, and how far the widest of them or the first other line is indented. -/
def leadingBreaks (c : Cursor) (widest : Nat) : (fuel : Nat) → (List Char × Nat) × Cursor
  | 0 => (([], widest), c)
  | fuel + 1 =>
    if c.head = ' ' then leadingBreaks c.next (max widest c.next.column) fuel
    else if isBreak c.head then
      let (br, c) := c.lineBreak
      let ((more, widest), c) := leadingBreaks c widest fuel
      ((br ++ more, widest), c)
    else (([], widest), c)

/-- Spaces up to a column. -/
def indentTo (indent : Nat) (c : Cursor) : Cursor :=
  c.skip (min (indent - c.column) (c.rest.takeWhile (· = ' ')).length)

/-- Empty lines between the lines of a block. -/
def blockBreaks (indent : Nat) (c : Cursor) : (fuel : Nat) → List Char × Cursor
  | 0 => ([], c)
  | fuel + 1 =>
    let c := indentTo indent c
    if isBreak c.head then
      let (br, c) := c.lineBreak
      let (more, c) := blockBreaks indent c fuel
      (br ++ more, c)
    else ([], c)

/-- The lines of a block from the place of the first; `breaks` are the empty lines before it. -/
def scanLines (foldLines : Bool) (indent : Nat) (chomping : Chomping) (breaks : List Char) (c : Cursor) :
    (fuel : Nat) → List Char × Cursor
  | 0 => ([], c)
  | fuel + 1 =>
    if c.column ≠ indent ∨ isEnd c.head then (if chomping = .keep then breaks else [], c)
    else
      let isWord (x : Char) : Bool := x ≠ ' ' && x ≠ '\t'
      let startsWithWord := isWord c.head
      let (line, c) := c.takeWhile fun x => !isBreakOrEnd x
      let (br, c) := c.lineBreak
      let (others, c) := blockBreaks indent c (c.rest.length + 1)
      if c.column = indent ∧ !isEnd c.head then
        let between :=
          if foldLines ∧ br = ['\n'] ∧ startsWithWord ∧ isWord c.head then
            (if others = [] then [' '] else [])
          else br
        let (more, c) := scanLines foldLines indent chomping others c fuel
        (breaks ++ line ++ between ++ more, c)
      else
        let tail := match chomping with
          | .clip => br
          | .strip => []
          | .keep => br ++ others
        (breaks ++ line ++ tail, c)

/-- Reads a block from its mark on; `parent` is the indentation of what it stands in. -/
def scanBlock (foldLines : Bool) (parent : Int) (c : Cursor) : Except Fault (List Char × Cursor) := do
  let start := c.mark
  let ((chomping, increment), c) ← scanIndicators start c.next
  let c ← scanEmptyLine .blockScalar start c
  let least := max 1 (parent + 1).toNat
  let fuel := c.rest.length + 1
  match increment with
  | none =>
    let ((breaks, widest), c) := leadingBreaks c 0 fuel
    return scanLines foldLines (max least widest) chomping breaks c fuel
  | some n =>
    let indent := least + n - 1
    let (breaks, c) := blockBreaks indent c fuel
    return scanLines foldLines indent chomping breaks c fuel

end Adjudication.Yaml
