import Adjudication.Files.Tree

/-!
The course of the analyzer's process as seen from outside: whether it starts, how long it runs, what it leaves behind
when it ends by itself, and what else becomes of the files on its account. What it puts out is read to its end in any
case, by itself ended or killed, and need not be text.
-/

namespace Adjudication.Analyzer

/-- What a process leaves as its results. -/
inductive Output where
  | nothing
  | file (content : Files.Bytes)
  | directory

structure Course (σ : Type) where
  /-- Why the system does not start it: its number and text. -/
  launchError : Option (Int × String)
  /-- How long it takes until it has ended and its streams are closed. -/
  takes : σ
  /-- Files that it writes into its working directory, under relative paths. -/
  files : List (String × String)
  /-- Whether it deletes the files in its working directory. -/
  removesFiles : Bool
  output : Output
  exitCode : Int
  /-- What it puts out, as it is decoded. -/
  stdout : Except Text.Utf8.DecodeError String
  stderr : Except Text.Utf8.DecodeError String
  /-- How long others hold its streams open after it has been killed. -/
  lingers : Option σ := none
  /-- Why what it has put out cannot be decoded after it has been killed, if it cannot. -/
  cutOff : Option Text.Utf8.DecodeError := none
  /-- What else has become of the files when it is over, whether it has ended by itself or has been killed. -/
  disturbs : List (Files.Place × Files.Node) → List (Files.Place × Files.Node) := id

/-- The part of a text from the first occurrence of a piece on. -/
def tailFrom? (piece : List Char) : List Char → Option (List Char)
  | [] => none
  | c :: rest => if piece.isPrefixOf (c :: rest) then some (c :: rest) else tailFrom? piece rest

/-- The path that a process writes its results to: it is read off the last argument that names something in the
    working directory. -/
def outputPath? (argv : List String) (directory : String) : Option Files.Path :=
  (argv.reverse.findSome? fun arg => tailFrom? (directory ++ "/").toList arg.toList).map
    Files.Path.ofChars

namespace Course

variable {σ : Type}

/-- A change of the tree that is left out where it fails. -/
def attempt (t : Files.Tree) : Except Files.Fault Files.Tree → Files.Tree
  | .ok t => t
  | .error _ => t

def writeFile (t : Files.Tree) (path : Files.Path) (content : Files.Bytes) : Files.Tree :=
  let t := (t.paved path.parent).getD t
  attempt t (t.write path content)

/-- Deletes the plain files in a directory. -/
def deleteFiles (t : Files.Tree) (directory : Files.Path) : Files.Tree :=
  match t.reach directory with
  | .error _ => t
  | .ok place =>
    { t with nodes := t.nodes.filter fun
      | (p, .file _) => p.dropLast ≠ place
      | (_, .directory) => true }

/-- Writes the results, if there is a path to write them to. -/
def writeOutput (output : Output) (target : Option Files.Path) (t : Files.Tree) : Files.Tree :=
  match target, output with
  | none, _ | _, .nothing => t
  | some path, .file content => attempt t (t.write path content)
  | some path, .directory =>
    let t := attempt t (t.makeDirectory path)
    attempt t (t.write (path.child "x") [])

/-- What it puts out, if all of that is text: the output before the diagnostics. -/
def streams (c : Course σ) : Except Text.Utf8.DecodeError (String × String) := do return (← c.stdout, ← c.stderr)

/-- The tree as it is when the process is over. -/
def disturbed (c : Course σ) (t : Files.Tree) : Files.Tree := { t with nodes := c.disturbs t.nodes }

/-- The tree after the process has ended by itself. -/
def finish (c : Course σ) (argv : List String) (directory : Files.Path) (t : Files.Tree) : Files.Tree :=
  let t := c.files.foldl
    (fun t (name, text) => writeFile t (directory.child name) (Text.Utf8.encode text)) t
  let t := if c.removesFiles then deleteFiles t directory else t
  c.disturbed (writeOutput c.output (outputPath? argv directory.text) t)

end Course
end Adjudication.Analyzer
