import Adjudication.Yaml.Tag
import Adjudication.Yaml.Token.Lexer

/-!
From tokens to nodes. A node that has an anchor is kept beside the tree under its name; in the tree stands the
name alone, in the place of the node as in every other place that refers to it, so that a collection may refer
to itself.
-/

namespace Adjudication.Yaml

/-- A node and, if it stands in the tree itself, where it starts. -/
inductive Node where
  | scalar (start : Mark) (tag : Tag) (text : Text.Wide)
  | list (start : Mark) (tag : Tag) (items : List Node)
  | table (start : Mark) (tag : Tag) (members : List (Node × Node))
  | named (anchor : String)
  deriving Repr

/-- A tree of nodes and the nodes with anchors. -/
structure Document where
  root : Node
  anchored : List (String × Node)

/-- What reading nodes goes on from. -/
structure Composer where
  lexer : Lexer
  /-- What the short forms of tags stand for. -/
  handles : List (String × String)
  /-- The anchors so far, those of unfinished nodes too. -/
  anchors : List (String × Mark)
  anchored : List (String × Node)
  /-- How many collections may still lie within each other here. -/
  levels : Nat

abbrev Compose := StateT Composer (Except Fault)

namespace Composer

def refuse {α : Type} (during : Option (Activity × Option Mark)) (p : Problem) (place : Mark) : Compose α :=
  throw (.flaw during p place)

/-- The next token. -/
def peek : Compose Placed := do
  let s ← get
  let (t, lexer) ← (s.lexer.peek : Except Fault _)
  set { s with lexer }
  return t

def skip : Compose Unit := modify fun s => { s with lexer := s.lexer.drop }

/-- Takes the next token if it is the given one. -/
def accept (t : Token) : Compose Bool := do
  if (← peek).token = t then
    skip
    return true
  else return false

/-- Takes the given token; `wanted` says what else is told to be missing, in what began at a mark. -/
def expect (t : Token) (a : Activity) (start : Mark) (wanted : String) : Compose Unit := do
  let next ← peek
  if next.token = t then skip else refuse (some (a, some start)) (.token wanted next.token.name) next.mark

/-- What is read within one more collection. -/
def within {α : Type} (part : Compose α) : Compose α := do
  let levels := (← get).levels
  if levels = 0 then throw .tooDeep
  modify fun s => { s with levels := levels - 1 }
  let a ← part
  modify fun s => { s with levels }
  return a

/-! ### Tags and anchors -/

def defaultHandles : List (String × String) := [("!", "!"), ("!!", Tag.start)]

/-- What stands in front of a node: an anchor, a tag in full, and where the first of them is. -/
structure Properties where
  anchor : Option String
  tag : Option String
  start : Option Mark

/-- The tag in full of a node that starts at a mark. -/
def fullTag (start place : Mark) (handle : Option String) (suffix : String) : Compose String := do
  match handle with
  | none => return suffix
  | some h =>
    match (← get).handles.find? fun e => e.1 = h with
    | some e => return e.2 ++ suffix
    | none => refuse (some (.node, some start)) (.unknownHandle h) place

/-- An anchor and a tag, in any order. -/
def properties : Compose Properties := do
  let first ← peek
  match first.token with
  | .anchor name =>
    skip
    let second ← peek
    match second.token with
    | .tag handle suffix =>
      skip
      return ⟨name, ← fullTag first.mark second.mark handle suffix, first.mark⟩
    | _ => return ⟨name, none, first.mark⟩
  | .tag handle suffix =>
    skip
    let second ← peek
    match second.token with
    | .anchor name =>
      skip
      return ⟨name, ← fullTag first.mark first.mark handle suffix, first.mark⟩
    | _ => return ⟨none, ← fullTag first.mark first.mark handle suffix, first.mark⟩
  | _ => return ⟨none, none, none⟩

/-- A node without a tag, or with one that says nothing, is what it looks like. -/
def isSilent (tag : Option String) : Bool := tag.all (· = "!")

def scalarTag (tag : Option String) (text : Text.Wide) (plain : Bool) : Tag :=
  match tag with
  | none => if plain then .ofSpelling text.nearest else .text
  | some name => if name = "!" then .ofSpelling text.nearest else .ofName name

def collectionTag (tag : Option String) (usual : Tag) : Tag :=
  if isSilent tag then usual else .ofName (tag.getD "")

/-- A node that is left out. -/
def empty (place : Mark) : Node := .scalar place .null ""

/-- Makes an anchor known before its node is read. No two nodes have the same. -/
def declare (anchor : Option String) (start : Mark) : Compose Unit := do
  match anchor with
  | none => return
  | some name =>
    match (← get).anchors.find? fun a => a.1 = name with
    | some a => refuse (some (.anchored name, some a.2)) .secondAnchor start
    | none => modify fun s => { s with anchors := (name, start) :: s.anchors }

/-- Keeps a node under its anchor. -/
def keep (anchor : Option String) (n : Node) : Compose Node := do
  match anchor with
  | none => return n
  | some name =>
    modify fun s => { s with anchored := (name, n) :: s.anchored }
    return .named name

/-! ### Nodes -/

/-- Where a node stands. A dash after a key starts a list that need not be indented. -/
inductive Setting where
  | flow
  | block
  | afterKey
  deriving DecidableEq

def Setting.activity : Setting → Activity
  | flow => .flowNode
  | _ => .blockNode

mutual

def node (place : Setting) : (fuel : Nat) → Compose Node
  | 0 => do refuse none .endOfText (← peek).mark
  | fuel + 1 => do
    let first ← peek
    match first.token with
    | .alias name =>
      skip
      if (← get).anchors.any fun a => a.1 = name then return .named name
      else refuse none (.unknownAnchor name) first.mark
    | _ =>
      let p ← properties
      let start := p.start.getD first.mark
      let t ← peek
      match t.token with
      | .scalar text plain =>
        skip
        declare p.anchor start
        keep p.anchor (.scalar start (scalarTag p.tag text plain) text)
      | .flowSequence =>
        declare p.anchor start
        skip
        keep p.anchor (.list start (collectionTag p.tag .list) (← within (flowItems t.mark true fuel)))
      | .flowMapping =>
        declare p.anchor start
        skip
        keep p.anchor (.table start (collectionTag p.tag .table) (← within (flowMembers t.mark true fuel)))
      | _ =>
        if t.token = .blockEntry ∧ place = .afterKey then
          declare p.anchor start
          keep p.anchor (.list start (collectionTag p.tag .list) (← within (looseItems fuel)))
        else if t.token = .blockSequence ∧ place ≠ .flow then
          declare p.anchor start
          skip
          keep p.anchor (.list start (collectionTag p.tag .list) (← within (blockItems t.mark fuel)))
        else if t.token = .blockMapping ∧ place ≠ .flow then
          declare p.anchor start
          skip
          keep p.anchor (.table start (collectionTag p.tag .table) (← within (blockMembers t.mark fuel)))
        else if p.start.isSome then
          declare p.anchor start
          keep p.anchor (.scalar start (scalarTag p.tag "" true) "")
        else
          refuse (some (place.activity, some start)) (.token "the node content, but found" t.token.name)
            t.mark

/-- A node, unless one of the given tokens follows; then nothing stands after `mark`. -/
def nodeUnless (stops : List Token) (mark : Mark) (place : Setting) : (fuel : Nat) → Compose Node
  | 0 => return empty mark
  | fuel + 1 => do if (← peek).token ∈ stops then return empty mark else node place fuel

/-- A value after its colon, or nothing. -/
def valueUnless (stops : List Token) (place : Setting) : (fuel : Nat) → Compose Node
  | 0 => do return empty (← peek).mark
  | fuel + 1 => do
    let t ← peek
    if ← accept .value then nodeUnless stops t.mark.next place fuel else return empty t.mark

def blockItems (start : Mark) : (fuel : Nat) → Compose (List Node)
  | 0 => return []
  | fuel + 1 => do
    let t ← peek
    if ← accept .blockEntry then
      let item ← nodeUnless [.blockEntry, .blockEnd] t.mark.next .block fuel
      return item :: (← blockItems start fuel)
    else
      expect .blockEnd .blockSequence start "<block end>, but found"
      return []

/-- The items of a list that is not indented further than its key. -/
def looseItems : (fuel : Nat) → Compose (List Node)
  | 0 => return []
  | fuel + 1 => do
    let t ← peek
    if ← accept .blockEntry then
      let item ← nodeUnless [.blockEntry, .key, .value, .blockEnd] t.mark.next .block fuel
      return item :: (← looseItems fuel)
    else return []

def blockMembers (start : Mark) : (fuel : Nat) → Compose (List (Node × Node))
  | 0 => return []
  | fuel + 1 => do
    let t ← peek
    if ← accept .key then
      let stops : List Token := [.key, .value, .blockEnd]
      let key ← nodeUnless stops t.mark.next .afterKey fuel
      let value ← valueUnless stops .afterKey fuel
      return (key, value) :: (← blockMembers start fuel)
    else
      expect .blockEnd .blockMapping start "<block end>, but found"
      return []

/-- The items of a list in brackets. A key makes a table of one member. -/
def flowItems (start : Mark) (first : Bool) : (fuel : Nat) → Compose (List Node)
  | 0 => return []
  | fuel + 1 => do
    if ← accept .flowSequenceEnd then return []
    if !first then expect .flowEntry .flowSequence start "',' or ']', but got"
    let t ← peek
    if ← accept .key then
      let member ← within do
        let key ← nodeUnless [.value, .flowEntry, .flowSequenceEnd] t.mark.next .flow fuel
        return (key, ← valueUnless [.flowEntry, .flowSequenceEnd] .flow fuel)
      return .table t.mark .table [member] :: (← flowItems start false fuel)
    else if ← accept .flowSequenceEnd then return []
    else
      let item ← node .flow fuel
      return item :: (← flowItems start false fuel)

/-- The members of a table in braces. A value without a key's mark is a key of nothing. -/
def flowMembers (start : Mark) (first : Bool) : (fuel : Nat) → Compose (List (Node × Node))
  | 0 => return []
  | fuel + 1 => do
    if ← accept .flowMappingEnd then return []
    if !first then expect .flowEntry .flowMapping start "',' or '\x7d', but got"
    let t ← peek
    if ← accept .key then
      let key ← nodeUnless [.value, .flowEntry, .flowMappingEnd] t.mark.next .flow fuel
      let value ← valueUnless [.flowEntry, .flowMappingEnd] .flow fuel
      return (key, value) :: (← flowMembers start false fuel)
    else if ← accept .flowMappingEnd then return []
    else
      let key ← node .flow fuel
      let next ← peek
      return (key, empty next.mark) :: (← flowMembers start false fuel)

end

/-! ### Documents -/

/-- The directives of a document: at most one version, which is some 1.x, and no short form twice. -/
def directives (versioned : Bool) (handles : List (String × String)) :
    (fuel : Nat) → Compose (List (String × String))
  | 0 => return handles
  | fuel + 1 => do
    let t ← peek
    match t.token with
    | .directive d =>
      skip
      match d with
      | .version major =>
        if versioned then refuse none .repeatedVersion t.mark
        else if major ≠ 1 then refuse none .otherVersion t.mark
        else directives true handles fuel
      | .handle name tag =>
        if handles.any fun h => h.1 = name then refuse none (.repeatedHandle name) t.mark
        else directives versioned ((name, tag) :: handles) fuel
      | .other => directives versioned handles fuel
    | _ => return handles

/-- The directives of a document and the mark of its start. -/
def documentStart (fuel : Nat) : Compose Unit := do
  let handles ← directives false [] fuel
  modify fun s => { s with handles := handles ++ defaultHandles }
  let t ← peek
  if t.token = .documentStart then skip
  else refuse none (.token "'<document start>', but found" t.token.name) t.mark

/-- Skips marks of a document's end. -/
def skipEnds : (fuel : Nat) → Compose Unit
  | 0 => return
  | fuel + 1 => do if ← accept .documentEnd then skipEnds fuel

/-- Nothing may follow the one document, which starts at a mark. -/
def finish (start : Mark) (fuel : Nat) : Compose Unit := do
  skipEnds fuel
  let t ← peek
  if t.token ≠ .streamEnd then
    documentStart fuel
    refuse (some (.soleDocument, some start)) .anotherDocument t.mark

/-- The one document of a text, if there is one. -/
def document (fuel : Nat) : Compose (Option Node) := do
  match (← peek).token with
  | .streamEnd => return none
  | .directive _ | .documentStart =>
    documentStart fuel
    let t ← peek
    let root ← match t.token with
      | .directive _ | .documentStart | .documentEnd | .streamEnd => pure (empty t.mark)
      | _ => node .block fuel
    finish t.mark fuel
    return some root
  | _ =>
    let t ← peek
    let root ← node .block fuel
    finish t.mark fuel
    return some root

end Composer

/-- The nodes of a text, so many collections within each other at most. Every second step takes a token at least, and
    there are hardly more tokens than characters: a key makes two more, and so does a block. -/
def Document.ofText (levels : Nat) (text : List Char) : Except Fault (Option Document) := do
  let (root, s) ← (Composer.document (12 * text.length + 12)).run
    ⟨← Lexer.start text, Composer.defaultHandles, [], [], levels⟩
  return root.map fun n => ⟨n, s.anchored⟩

end Adjudication.Yaml
