import Adjudication.Yaml.Token.Tag

/-!
From texts to tokens. Indentation opens and closes blocks. A key is known for one only when its colon comes, so
that places where a simple key may have started are remembered; where a key was the only thing that could have
started, a missing colon is an error.
-/

namespace Adjudication.Yaml

/-- A place where a simple key may have started: before the token of a number, on a line that it cannot leave. -/
structure KeyStart where
  number : Nat
  required : Bool
  mark : Mark

structure Lexer where
  cursor : Cursor
  /-- The tokens that have been read and not yet been taken. -/
  ready : List Placed
  /-- How many tokens have been taken. -/
  taken : Nat
  /-- How many brackets are open. -/
  depth : Nat
  indent : Int
  /-- The indentations around the present one. -/
  outer : List Int
  /-- Whether a simple key may start here. -/
  allowKey : Bool
  /-- The places where simple keys may have started, one for each depth. -/
  starts : List (Nat × KeyStart)
  /-- Whether the end of the text has been read. -/
  ended : Bool

namespace Lexer

def ofText (text : List Char) : Lexer := ⟨.ofText text, [], 0, 0, -1, [], true, [], false⟩

abbrev Step := Except Fault Lexer

/-- Adds a token that starts here. -/
def push (l : Lexer) (t : Token) : Lexer := { l with ready := l.ready ++ [⟨t, l.cursor.mark⟩] }

/-- Adds a token of so many characters. -/
def pushMark (l : Lexer) (t : Token) (width : Nat) : Lexer :=
  { l.push t with cursor := l.cursor.skip width }

/-- Puts a token where a key started. -/
def insert (l : Lexer) (s : KeyStart) (t : Token) : Lexer :=
  { l with ready := l.ready.insertIdx (s.number - l.taken) ⟨t, s.mark⟩ }

def inFlow (l : Lexer) : Bool := l.depth ≠ 0

def column (l : Lexer) : Int := l.cursor.column

/-! ### Simple keys -/

def start? (l : Lexer) : Option KeyStart := (l.starts.find? fun s => s.1 = l.depth).map Prod.snd

def withoutStart (l : Lexer) : Lexer := { l with starts := l.starts.filter fun s => s.1 ≠ l.depth }

/-- No simple key has started at this depth. -/
def dropStart (l : Lexer) : Step :=
  match l.start? with
  | some s =>
    if s.required then l.cursor.refuse .simpleKey s.mark .noColon else .ok l.withoutStart
  | none => .ok l

/-- A simple key may start here. -/
def saveStart (l : Lexer) : Step :=
  if !l.allowKey then .ok l
  else do
    let required : Bool := !l.inFlow && l.indent == l.column
    let l ← l.dropStart
    return { l with
      starts := (l.depth, ⟨l.taken + l.ready.length, required, l.cursor.mark⟩) :: l.starts }

/-- How long a simple key may be. -/
def longestKey : Nat := 1024

def isStale (l : Lexer) (s : KeyStart) : Bool :=
  s.mark.line ≠ l.cursor.line || longestKey < l.cursor.index - s.mark.index

/-- Forgets the places that are too far back. -/
def dropStale (l : Lexer) : Step :=
  match l.starts.find? fun s => l.isStale s.2 && s.2.required with
  | some s => l.cursor.refuse .simpleKey s.2.mark .noColon
  | none => .ok { l with starts := l.starts.filter fun s => !l.isStale s.2 }

/-! ### Indentation -/

/-- Closes the blocks that are indented further than a column. -/
def closeBlocks (l : Lexer) (column : Int) : (fuel : Nat) → Lexer
  | 0 => l
  | fuel + 1 =>
    if l.indent ≤ column then l
    else closeBlocks { l.push .blockEnd with indent := l.outer.headD (-1), outer := l.outer.tail } column fuel

def unwind (l : Lexer) (column : Int) : Lexer :=
  if l.inFlow then l else l.closeBlocks column (l.outer.length + 1)

/-- The state with a block opened at a column, if none is open there. -/
def opened? (l : Lexer) (column : Int) : Option Lexer :=
  if l.indent < column then some { l with outer := l.indent :: l.outer, indent := column } else none

/-- Opens a block here, if none is open. -/
def openBlock (l : Lexer) (t : Token) : Lexer :=
  match l.opened? l.column with
  | some l => l.push t
  | none => l

/-! ### Tokens -/

/-- Skips spaces, comments and line ends. -/
def skipGaps (l : Lexer) : (fuel : Nat) → Lexer
  | 0 => l
  | fuel + 1 =>
    let c := l.cursor.skipSpaces
    let c := if c.head = '#' then c.skipLine else c
    if isBreak c.head then
      skipGaps { l with cursor := c.lineBreak.2, allowKey := l.allowKey || !l.inFlow } fuel
    else { l with cursor := c }

def toNext (l : Lexer) : Lexer :=
  let c := l.cursor
  let l := if c.index = 0 ∧ c.head = '\uFEFF' then { l with cursor := c.next } else l
  l.skipGaps (l.cursor.rest.length + 1)

/-- A directive or a mark of documents: everything that is open ends before it. -/
def atTop (l : Lexer) : Step := do
  let l ← (l.unwind (-1)).dropStart
  return { l with allowKey := false }

def fetchBracket (l : Lexer) (t : Token) : Step := do
  let l ← l.saveStart
  return { l.pushMark t 1 with depth := l.depth + 1, allowKey := true }

def fetchClosing (l : Lexer) (t : Token) : Step := do
  let l ← l.dropStart
  return { l.pushMark t 1 with depth := l.depth - 1, allowKey := false }

def fetchComma (l : Lexer) : Step := do
  let l ← l.dropStart
  return { l.pushMark .flowEntry 1 with allowKey := true }

/-- A dash. Within brackets it is left to the structure to refuse it. -/
def fetchDash (l : Lexer) : Step := do
  if !l.inFlow && !l.allowKey then l.cursor.flaw none (.misplaced "sequence entries")
  let l := if l.inFlow then l else l.openBlock .blockSequence
  let l ← l.dropStart
  return { l.pushMark .blockEntry 1 with allowKey := true }

def fetchQuestion (l : Lexer) : Step := do
  if !l.inFlow && !l.allowKey then l.cursor.flaw none (.misplaced "mapping keys")
  let l := if l.inFlow then l else l.openBlock .blockMapping
  let l ← l.dropStart
  return { l.pushMark .key 1 with allowKey := !l.inFlow }

/-- A colon: it makes a key of what may have been one, or stands for a value after a key of any length. -/
def fetchColon (l : Lexer) : Step :=
  match l.start? with
  | some s =>
    let l := l.withoutStart.insert s .key
    let l := if l.inFlow then l
      else
        match l.opened? s.mark.column with
        | some l => l.insert s .blockMapping
        | none => l
    .ok { l.pushMark .value 1 with allowKey := false }
  | none => do
    if !l.inFlow && !l.allowKey then l.cursor.flaw none (.misplaced "mapping values")
    let l := if l.inFlow then l else l.openBlock .blockMapping
    let l ← l.dropStart
    return { l.pushMark .value 1 with allowKey := !l.inFlow }

/-- A token that starts here and ends at a cursor. -/
def pushUntil (l : Lexer) (t : Token) (cursor : Cursor) (allowKey : Bool) : Lexer :=
  { l.push t with cursor, allowKey }

/-- A token that a simple key may start with. -/
def fetchStarting (l : Lexer) (scan : Cursor → Except Fault (Token × Cursor)) : Step := do
  let l ← l.saveStart
  let (t, cursor) ← scan l.cursor
  return l.pushUntil t cursor false

def fetchPlain (l : Lexer) : Step := do
  let l ← l.saveStart
  let s := scanPlain l.inFlow (l.indent + 1) [] false l.cursor (l.cursor.rest.length + 1)
  return l.pushUntil (.scalar (.text (String.ofList s.text)) true) s.cursor s.crossed

def fetchBlockScalar (l : Lexer) (foldLines : Bool) : Step := do
  let l ← l.dropStart
  let (text, cursor) ← scanBlock foldLines l.indent l.cursor
  return l.pushUntil (.scalar (.text (String.ofList text)) false) cursor true

def scanQuotedToken (double : Bool) (c : Cursor) : Except Fault (Token × Cursor) := do
  let (codes, c) ← scanQuoted double c.mark c.next (c.rest.length + 1)
  return (.scalar (.ofCodes codes) false, c)

def scanAnchorToken (a : Activity) (token : String → Token) (c : Cursor) : Except Fault (Token × Cursor) := do
  let (name, c) ← scanAnchor a c
  return (token name, c)

/-- Characters that no plain scalar starts with, except some of them before what is no gap. -/
def indicators : List Char := "-?:,[]\x7b\x7d#&*!|>'\"%@\x60".toList

def startsPlain (l : Lexer) : Bool :=
  let x := l.cursor.head
  (!isGap x && x ∉ indicators) ||
    (!isGap (l.cursor.ahead 1) && (x = '-' || (!l.inFlow && (x = '?' || x = ':'))))

/-- The token that the next character starts. -/
def fetch (l : Lexer) : Step :=
  let c := l.cursor
  let x := c.head
  let first : Bool := c.column = 0
  let beforeGap : Bool := isGap (c.ahead 1)
  if x = '%' ∧ first then do
    let l ← l.atTop
    let (t, cursor) ← scanDirective l.cursor
    return l.pushUntil t cursor false
  else if first ∧ c.hasMark Cursor.startMark then do return (← l.atTop).pushMark .documentStart 3
  else if first ∧ c.hasMark Cursor.endMark then do return (← l.atTop).pushMark .documentEnd 3
  else if x = '[' then l.fetchBracket .flowSequence
  else if x = '{' then l.fetchBracket .flowMapping
  else if x = ']' then l.fetchClosing .flowSequenceEnd
  else if x = '}' then l.fetchClosing .flowMappingEnd
  else if x = ',' then l.fetchComma
  else if x = '-' ∧ beforeGap then l.fetchDash
  else if x = '?' ∧ (l.inFlow ∨ beforeGap) then l.fetchQuestion
  else if x = ':' ∧ (l.inFlow ∨ beforeGap) then l.fetchColon
  else if x = '*' then l.fetchStarting (scanAnchorToken .alias .alias)
  else if x = '&' then l.fetchStarting (scanAnchorToken .anchor .anchor)
  else if x = '!' then l.fetchStarting scanTag
  else if x = '|' ∧ !l.inFlow then l.fetchBlockScalar false
  else if x = '>' ∧ !l.inFlow then l.fetchBlockScalar true
  else if x = '\'' then l.fetchStarting (scanQuotedToken false)
  else if x = '"' then l.fetchStarting (scanQuotedToken true)
  else if l.startsPlain then l.fetchPlain
  else c.flaw (some (.nextToken, none)) (.strayCharacter x)

/-- Reads a further token with what belongs to it; at the end of the text everything that is open ends. -/
def advance (l : Lexer) : Step := do
  let l ← l.toNext.dropStale
  let l := l.unwind l.column
  if isEnd l.cursor.head then
    return { (← (l.unwind (-1)).dropStart).push .streamEnd with allowKey := false, starts := [], ended := true }
  else l.fetch

/-! ### Taking tokens -/

/-- Whether the first token is a simple key's first token if a colon follows. -/
def isOpen (l : Lexer) : Bool := l.starts.any fun s => s.2.number = l.taken

/-- Reads on until it is settled what comes first. Every round takes at least one character. -/
def settle (l : Lexer) : (fuel : Nat) → Step
  | 0 => .ok l
  | fuel + 1 => do
    if l.ended then return l
    else if l.ready.isEmpty then settle (← l.advance) fuel
    else
      let l ← l.dropStale
      if l.isOpen then settle (← l.advance) fuel else return l

/-- The first token, and the state with what had to be read for it. -/
def peek (l : Lexer) : Except Fault (Placed × Lexer) := do
  let l ← l.settle (l.cursor.rest.length + 2)
  return (l.ready.headD ⟨.streamEnd, l.cursor.mark⟩, l)

/-- The state without its first token. -/
def drop (l : Lexer) : Lexer := { l with ready := l.ready.tail, taken := l.taken + 1 }

end Lexer

/-- The start of a text. One with a character that no text may hold is refused as a whole. -/
def Lexer.start (text : List Char) : Except Fault Lexer :=
  match text.find? fun c => !isAllowed c with
  | some c => .error (.forbidden c (text.takeWhile isAllowed).length)
  | none => .ok (.ofText text)

end Adjudication.Yaml
