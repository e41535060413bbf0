import Adjudication.Yaml.Fault

/-!
A place in a YAML text. Lines and columns are counted because indentation carries meaning. There are more line
breaks than the usual ones, and the end of the text reads as a null character, which no text may hold.
-/

namespace Adjudication.Yaml

structure Cursor where
  rest : List Char
  index : Nat
  line : Nat
  column : Nat
  deriving Repr

/-- A space, a line break or the end. -/
def isSpaceOrEnd (c : Char) : Bool := c = ' ' || isBreakOrEnd c

/-- A space, a tab, a line break or the end. -/
def isGap (c : Char) : Bool := c = '\t' || isSpaceOrEnd c

/-- A character that names of anchors and directives are made of. -/
def isNameChar (c : Char) : Bool := c.isAlphanum || c = '-' || c = '_'

/-- A character that a text may hold at all. -/
def isAllowed (c : Char) : Bool :=
  let n := c.toNat
  n = 0x09 || n = 0x0A || n = 0x0D || (0x20 ≤ n && n ≤ 0x7E) || n = 0x85 ||
    (0xA0 ≤ n && n ≤ 0xD7FF) || (0xE000 ≤ n && n ≤ 0xFFFD) || 0x10000 ≤ n

namespace Cursor

def ofText (s : List Char) : Cursor := ⟨s, 0, 0, 0⟩

def mark (c : Cursor) : Mark := ⟨c.index, c.line, c.column⟩

/-- A flaw in this place. -/
def flaw {α : Type} (c : Cursor) (during : Option (Activity × Option Mark)) (p : Problem) :
    Except Fault α :=
  .error (.flaw during p c.mark)

/-- A flaw in this place of what began at a mark. -/
def refuse {α : Type} (c : Cursor) (a : Activity) (start : Mark) (p : Problem) : Except Fault α :=
  c.flaw (some (a, some start)) p

/-- The character `n` places further on. -/
def ahead (c : Cursor) (n : Nat) : Char := c.rest.getD n '\x00'

def head (c : Cursor) : Char := c.ahead 0

/-- Moves on by a character. -/
def next (c : Cursor) : Cursor :=
  match c.rest with
  | [] => c
  | x :: rest =>
    let breaks : Bool := isBreak x && !(x = '\r' && rest.head? = some '\n')
    if breaks then ⟨rest, c.index + 1, c.line + 1, 0⟩
    else ⟨rest, c.index + 1, c.line, if x = '\uFEFF' then c.column else c.column + 1⟩

def skip (c : Cursor) : (count : Nat) → Cursor
  | 0 => c
  | count + 1 => c.next.skip count

/-- The characters up to the first that `p` does not hold of, and the place of that one. -/
def takeWhile (c : Cursor) (p : Char → Bool) : List Char × Cursor :=
  let taken := c.rest.takeWhile p
  (taken, c.skip taken.length)

def skipWhile (c : Cursor) (p : Char → Bool) : Cursor := (c.takeWhile p).2

def skipSpaces (c : Cursor) : Cursor := c.skipWhile (· = ' ')

/-- Moves on to the end of the line. -/
def skipLine (c : Cursor) : Cursor := c.skipWhile fun x => !isBreakOrEnd x

/-- A line break in front and the place after it. Only the two separators of Unicode are kept as they are. -/
def lineBreak (c : Cursor) : List Char × Cursor :=
  match c.rest with
  | '\r' :: '\n' :: _ => (['\n'], c.skip 2)
  | x :: _ =>
    if x = '\u2028' ∨ x = '\u2029' then ([x], c.next)
    else if isBreak x then (['\n'], c.next)
    else ([], c)
  | [] => ([], c)

/-- Whether a line that marks the start or the end of a document is in front, in the first column or where a
    line has just begun. -/
def hasMark (c : Cursor) (mark : List Char) : Bool := mark.isPrefixOf c.rest && isGap (c.ahead 3)

def startMark : List Char := ['-', '-', '-']

def endMark : List Char := ['.', '.', '.']

def hasAnyMark (c : Cursor) : Bool := c.hasMark startMark || c.hasMark endMark

end Cursor
end Adjudication.Yaml
