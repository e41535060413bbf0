import Adjudication.Files.Path
import Adjudication.Text.Utf8

/-!
A tree of files and directories and what a program does to it. A path is walked component by component: every
component but the last has to be a directory, and none may be longer than 255 bytes. What fails changes
nothing, but for what goes through directories one by one: a program makes the directories above one, and removes those
in one, by calling itself, and comes only so deep.
-/

namespace Adjudication.Files

abbrev Bytes := Text.Utf8.Bytes

inductive Node where
  | file (content : Bytes)
  | directory
  deriving DecidableEq, Repr

/-- A place in a tree: the names on the way to it from the root. -/
abbrev Place := List String

namespace Place

/-- Whether two places are the same. Most of the places in a tree start like others, so they are compared in one go. -/
def same : Place → Place → Bool
  | [], [] => true
  | a :: place, b :: other => if a = b then same place other else false
  | _, _ => false

theorem same_iff {place other : Place} : same place other = true ↔ place = other := by
  induction place generalizing other with
  | nil => cases other <;> simp [same]
  | cons a place ih => cases other <;> simp [same, ih]

scoped instance : DecidableEq Place := fun _ _ => decidable_of_iff _ same_iff

/-- Whether a place lies directly in another one. -/
def isIn : (place outer : Place) → Bool
  | [_], [] => true
  | a :: place, b :: outer => if a = b then isIn place outer else false
  | _, _ => false

theorem isIn_iff {place outer : Place} : isIn place outer = true ↔ ∃ name, place = outer ++ [name] := by
  induction place generalizing outer with
  | nil => simp [isIn]
  | cons a place ih =>
    cases outer with
    | nil => cases place <;> simp [isIn]
    | cons b outer => simp [isIn, ih]

end Place

/-- Everything in the tree but its root, which is always a directory, and the place that relative paths
    start from. -/
structure Tree where
  nodes : List (Place × Node)
  here : Place
  deriving DecidableEq, Repr

/-- The system's reasons to refuse. -/
inductive Refusal where
  | noEntry
  | exists
  | notDirectory
  | isDirectory
  | nameTooLong
  deriving DecidableEq, Repr

namespace Refusal

def number : Refusal → Nat
  | noEntry => 2
  | .exists => 17
  | notDirectory => 20
  | isDirectory => 21
  | nameTooLong => 36

def text : Refusal → String
  | noEntry => "No such file or directory"
  | .exists => "File exists"
  | notDirectory => "Not a directory"
  | isDirectory => "Is a directory"
  | nameTooLong => "File name too long"

end Refusal

/-- What the program does with directories within each other by calling itself. -/
inductive Recursion where
  | making
  | removing
  deriving DecidableEq, Repr

/-- Why something could not be done with a file: a refusal and what it was about, a path that no system can
    take, content that is no text, or directories that lie deeper within each other than the program can follow. -/
inductive Fault where
  | refused (reason : Refusal) (subject : String)
  | nullInPath
  | notText (e : Text.Utf8.DecodeError)
  | tooDeep (r : Recursion)
  deriving DecidableEq, Repr

def refusalText (number : Int) (text subject : String) : String :=
  "[Errno " ++ toString number ++ "] " ++ text ++ ": " ++ subject

def Fault.message : Fault → String
  | refused reason subject => refusalText reason.number reason.text subject
  | nullInPath => "embedded null byte"
  | notText e => e.message
  | tooDeep .making => "maximum recursion depth exceeded while calling a Python object"
  | tooDeep .removing => "maximum recursion depth exceeded"

/-- Whether it is the system that refused. -/
def Fault.isRefusal : Fault → Bool
  | refused _ _ => true
  | _ => false

namespace Tree

open scoped Place

/-- What is at a place. -/
def get? (t : Tree) (place : Place) : Option Node :=
  if place = [] then some .directory
  else (t.nodes.find? fun n => n.1 = place).map Prod.snd

/-- Puts a node at a place, in the place of what was there. -/
def put (t : Tree) (place : Place) (node : Node) : Tree :=
  { t with nodes := t.nodes.filter (fun n => n.1 ≠ place) ++ [(place, node)] }

/-- Takes a place and everything below it away. -/
def prune (t : Tree) (place : Place) : Tree :=
  { t with nodes := t.nodes.filter fun n => !place.isPrefixOf n.1 }

/-- A filter that keeps a place does not change what is found there. -/
theorem find?_filter_of_keeps {nodes : List (Place × Node)} {keep : Place × Node → Bool} {place : Place}
    (h : ∀ n, n.1 = place → keep n = true) :
    (nodes.filter keep).find? (fun n => n.1 = place) = nodes.find? fun n => n.1 = place := by
  rw [List.find?_filter]
  congr 1
  funext n
  by_cases hn : n.1 = place <;> simp [hn, h]

/-- A filter that takes a place away leaves nothing to be found there. -/
theorem find?_filter_of_drops {nodes : List (Place × Node)} {keep : Place × Node → Bool} {place : Place}
    (h : ∀ n, n.1 = place → keep n = false) :
    (nodes.filter keep).find? (fun n => n.1 = place) = none := by
  rw [List.find?_filter, List.find?_eq_none]
  intro n _
  by_cases hn : n.1 = place <;> simp [hn, h]

theorem get?_put_self {place : Place} (h : place ≠ []) (t : Tree) (node : Node) :
    (t.put place node).get? place = some node := by
  have : (t.nodes.filter fun n => n.1 ≠ place).find? (fun n => n.1 = place) = none :=
    find?_filter_of_drops fun n he => by simp [he]
  simp only [get?, put, h, if_false, List.find?_append, this]
  simp

theorem get?_put_of_ne {place other : Place} (h : other ≠ place) (t : Tree) (node : Node) :
    (t.put place node).get? other = t.get? other := by
  have : (t.nodes.filter fun n => n.1 ≠ place).find? (fun n => n.1 = other) =
      t.nodes.find? fun n => n.1 = other :=
    find?_filter_of_keeps fun n he => by simp [he, h]
  simp only [get?, put, List.find?_append, this]
  simp [Ne.symm h]

theorem get?_prune_of_isPrefixOf {place other : Place} (h : place.isPrefixOf other = true) (hne : other ≠ [])
    (t : Tree) : (t.prune place).get? other = none := by
  have : (t.nodes.filter fun n => !place.isPrefixOf n.1).find? (fun n => n.1 = other) = none :=
    find?_filter_of_drops fun n he => by simp [he, h]
  simp [get?, prune, hne, this]

theorem get?_prune_of_not_isPrefixOf {place other : Place} (h : place.isPrefixOf other = false) (t : Tree) :
    (t.prune place).get? other = t.get? other := by
  have : (t.nodes.filter fun n => !place.isPrefixOf n.1).find? (fun n => n.1 = other) =
      t.nodes.find? fun n => n.1 = other :=
    find?_filter_of_keeps fun n he => by simp [he, h]
  simp only [get?, prune, this]

def longestName : Nat := 255

def longestPath : Nat := 4095

/-- Walks from a place along names; two dots lead one place up. -/
def walk (t : Tree) (place : Place) : List String → Except Refusal Place
  | [] => .ok place
  | name :: rest =>
    match t.get? place with
    | none => .error .noEntry
    | some (.file _) => .error .notDirectory
    | some .directory =>
      if name = ".." then walk t place.dropLast rest
      else if longestName < name.utf8ByteSize then .error .nameTooLong
      else walk t (place ++ [name]) rest

/-- Where a path leads. What is there, if anything, is another matter. -/
def find (t : Tree) (p : Path) : Except Refusal Place :=
  if longestPath < p.text.utf8ByteSize then .error .nameTooLong
  else t.walk (if p.isAbsolute then [] else t.here) p.parts

/-- A refusal about a path. -/
def about (p : Path) (reason : Refusal) : Fault := .refused reason (Text.quote p.text)

/-- Where a path leads that holds no null character. -/
def reach (t : Tree) (p : Path) : Except Fault Place :=
  if p.text.toList.contains '\x00' then .error .nullInPath
  else (t.find p).mapError (about p)

/-- Whether there is something at a path. -/
def holds (t : Tree) (p : Path) : Except Fault Bool :=
  match t.reach p with
  | .ok place => .ok (t.get? place).isSome
  | .error (.refused .nameTooLong subject) => .error (.refused .nameTooLong subject)
  | .error _ => .ok false

def isDirectoryAt (t : Tree) (p : Path) : Bool :=
  match t.reach p with
  | .ok place => t.get? place = some .directory
  | .error _ => false

def makeDirectory (t : Tree) (p : Path) : Except Fault Tree := do
  let place ← t.reach p
  match t.get? place with
  | some _ => .error (about p .exists)
  | none => return t.put place .directory

/-- How many levels of directories may be missing above one that is made, where the caller's own calls are few. -/
def usualAscent : Nat := 970

/-- Makes a directory and the directories above it as far as they are missing, which may be so many levels; one that is
    there is fine. Those that have been made stay, even if others cannot be made. -/
def provideDirectory (t : Tree) (levels : Nat) (p : Path) : Except Fault Unit × Tree :=
  match t.makeDirectory p with
  | .error (.refused .noEntry subject) =>
    if p.parts = [] then (.error (.refused .noEntry subject), t)
    else
      match levels with
      | 0 => (.error (.tooDeep .making), t)
      | levels + 1 =>
        match provideDirectory t levels p.parent with
        | (.ok (), t) => settle t p (t.makeDirectory p)
        | (.error e, t) => (.error e, t)
  | r => settle t p r
where
  /-- A refusal does not matter where the directory is there. -/
  settle (t : Tree) (p : Path) : Except Fault Tree → Except Fault Unit × Tree
    | .ok t => (.ok (), t)
    | .error (.refused .noEntry subject) => (.error (.refused .noEntry subject), t)
    | .error (.refused reason subject) =>
      if t.isDirectoryAt p then (.ok (), t) else (.error (.refused reason subject), t)
    | .error e => (.error e, t)

/-- The tree with a directory and all directories above it. -/
def ensureDirectory (t : Tree) (p : Path) : Except Fault Tree :=
  match t.provideDirectory p.parts.length p with
  | (.ok (), t) => .ok t
  | (.error e, _) => .error e

/-- The tree with the directories along names below a place, made from the top as far as they are missing; nothing if
    one cannot be made. -/
def pave (t : Tree) (place : Place) : List String → Option Tree
  | [] => some t
  | name :: rest =>
    if name = ".." then pave t place.dropLast rest
    else if longestName < name.utf8ByteSize then none
    else
      match t.get? (place ++ [name]) with
      | some .directory => pave t (place ++ [name]) rest
      | some (.file _) => none
      | none => pave (t.put (place ++ [name]) .directory) (place ++ [name]) rest

/-- The tree with a directory and all directories above it, as a program makes them that has no limits of its own. -/
def paved (t : Tree) (p : Path) : Option Tree :=
  if p.text.toList.contains '\x00' ∨ longestPath < p.text.utf8ByteSize then none
  else t.pave (if p.isAbsolute then [] else t.here) p.parts

/-- Writes a file anew. -/
def write (t : Tree) (p : Path) (content : Bytes) : Except Fault Tree := do
  let place ← t.reach p
  match t.get? place with
  | some .directory => .error (about p .isDirectory)
  | _ => return t.put place (.file content)

def read (t : Tree) (p : Path) : Except Fault Bytes := do
  let place ← t.reach p
  match t.get? place with
  | none => .error (about p .noEntry)
  | some .directory => .error (about p .isDirectory)
  | some (.file content) => return content

/-- A file's content as text with its line ends unified. -/
def readText (t : Tree) (p : Path) : Except Fault String := do
  let content ← t.read p
  match Text.Utf8.decode? content with
  | .ok text => return String.ofList (Text.Utf8.unifyLineEnds text.toList)
  | .error e => .error (.notText e)

/-- Removes a file. -/
def remove (t : Tree) (p : Path) : Except Fault Tree := do
  let place ← t.reach p
  match t.get? place with
  | none => .error (about p .noEntry)
  | some .directory => .error (about p .isDirectory)
  | some (.file _) => return t.prune place

/-- How many directories may lie within each other in one that is removed, where the caller's own calls are few. -/
def usualDescent : Nat := 975

/-- The places in a directory. -/
def entries (t : Tree) (place : Place) : List Place := (t.nodes.map Prod.fst).filter fun p => p.isIn place

/-- Takes away what is at a place, a directory after everything in it, as far as `levels` levels of directories go. What
    has been taken away by then stays away. -/
def takeAway : (levels : Nat) → Place → Tree → Except Fault Unit × Tree
  | 0, place, t =>
    if t.get? place = some .directory then (.error (.tooDeep .removing), t) else (.ok (), t.prune place)
  | levels + 1, place, t =>
    if t.get? place = some .directory then
      match each (takeAway levels) (t.entries place) t with
      | (.ok (), t) => (.ok (), t.prune place)
      | (.error e, t) => (.error e, t)
    else (.ok (), t.prune place)
where
  /-- One place after the other, up to the first that fails. -/
  each (f : Place → Tree → Except Fault Unit × Tree) : List Place → Tree → Except Fault Unit × Tree
    | [], t => (.ok (), t)
    | place :: rest, t =>
      match f place t with
      | (.ok (), t) => each f rest t
      | (.error e, t) => (.error e, t)

/-- Removes a directory with everything in it, in which directories may lie `levels` deep within each other. -/
def removeAll (levels : Nat) (p : Path) (t : Tree) : Except Fault Unit × Tree :=
  match t.reach p with
  | .error e => (.error e, t)
  | .ok place =>
    match t.get? place with
    | none => (.error (about p .noEntry), t)
    | some (.file _) => (.error (.refused .notDirectory p.shown), t)
    | some .directory => takeAway (levels + 1) place t

/-- Whether there is anything in what is at a path: a directory counts as something, a file does unless it
    is empty. -/
def hasContent (t : Tree) (p : Path) : Except Fault Bool := do
  if !(← t.holds p) then return false
  let place ← t.reach p
  match t.get? place with
  | some (.file content) => return content ≠ []
  | _ => return true

end Tree
end Adjudication.Files
