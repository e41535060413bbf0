import Adjudication.Scene

/-!
Recordings: what a run meets, written as JSON. A recording says what files there are, what the analyzer's process does
and how the judge's service answers; what it leaves out is quiet: nothing is written, nothing takes time, and every
request is answered by a finding's being real.
-/

namespace Adjudication.Recording

/-! ### Parts of values -/

def field (name : String) (j : Json) : Json := (j.get? name).getD .null

/-- A text, which may be torn. -/
def wide? (name : String) (j : Json) : Option Text.Wide :=
  match field name j with
  | .str s => some (.text s)
  | .torn t => some (.torn t)
  | _ => none

/-- A text; of one that is torn, the nearest. -/
def text? (name : String) (j : Json) : Option String := (wide? name j).map Text.Wide.nearest

def int? (name : String) (j : Json) : Option Int :=
  match field name j with
  | .int i => some i
  | _ => none

def textOr (name usual : String) (j : Json) : String := (text? name j).getD usual

def isSet (name : String) (j : Json) : Bool := !(field name j).isFalsy

def items : Json → List Json
  | .arr xs => xs
  | _ => []

def membersOf : Json → Json.Members
  | .obj ms => ms
  | _ => []

/-- A number of seconds. -/
def seconds : Json → Float
  | .int i => Float.ofInt i
  | .double x => x
  | .bool b => if b then 1.0 else 0.0
  | _ => 0.0

/-- A number of seconds, none for an integer that no double is near. -/
def seconds? : Json → Option Float
  | .int i => Decimal.ofInt? i
  | j => some (seconds j)

/-- Bytes given by pairs of hexadecimal digits. -/
def hexBytes : List Char → Files.Bytes
  | a :: b :: rest =>
    UInt8.ofNat ((Json.hexValue? a).getD 0 * 16 + (Json.hexValue? b).getD 0) :: hexBytes rest
  | _ => []

/-- Content given as a text, or else as bytes under another name. -/
def content? (textName hexName : String) (j : Json) : Option Files.Bytes :=
  match text? textName j, text? hexName j with
  | some s, _ => some (Text.Utf8.encode s)
  | none, some h => some (hexBytes h.toList)
  | none, none => none

/-! ### The files -/

/-- Adds an entry below a directory: a file, or a directory if there is no content. -/
def addEntry (base : Files.Path) (t : Files.Tree) (entry : Json) : Files.Tree :=
  let path := base.child (textOr "path" "" entry)
  match content? "text" "hex" entry with
  | some content => Analyzer.Course.writeFile t path content
  | none => Analyzer.Course.attempt t (t.ensureDirectory path)

/-- A tree that holds a directory, which paths start from, and the entries of a list below it. -/
def tree (base : Files.Path) (entries : Json) : Files.Tree :=
  let place := base.parts
  let empty : Files.Tree :=
    ⟨(List.range place.length).map fun i => (place.take (i + 1), .directory), place⟩
  (items entries).foldl (addEntry base) empty

/-! ### The analyzer's process -/

def course (j : Json) : Analyzer.Course Float :=
  { launchError := match items (field "launch_error" j) with
      | [.int n, .str s] => some (n, s)
      | _ => none
    takes := seconds (field "takes" j)
    files := (membersOf (field "files" j)).map fun (name, v) => (name.nearest, v.display.nearest)
    removesFiles := isSet "remove_source" j
    output :=
      if isSet "output_dir" j then .directory
      else match content? "output" "output_hex" j with
        | some content => .file content
        | none => .nothing
    exitCode := (int? "exit" j).getD 0
    stdout := .ok (textOr "stdout" "" j)
    stderr := .ok (textOr "stderr" "" j) }

/-! ### The judge's service -/

def reply (j : Json) : Judge.Reply :=
  match int? "http" j, wide? "api_error" j with
  | some code, _ => .status code ((wide? "message" j).getD (.text ""))
  | none, some message => .refused message
  | none, none =>
    if isSet "connection" j then .refused (.text "Connection error.")
    else if isSet "timeout" j then .refused (.text "Request timed out.")
    else if isSet "no_choices" j then .choices []
    else .choices [wide? "content" j]

def turn (j : Json) : Judge.Turn Float :=
  { takes := seconds (field "takes" j), cancels := isSet "cancel" j, crash := wide? "crash" j, reply := reply j }

/-- A step of a transport of the caller's own. -/
def ownTurn (j : Json) : Judge.Turn Float :=
  { turn j with reply := match wide? "error" j with
      | some message => .broken message (int? "status" j)
      | none => .value (field "content" j) }

/-- The scripts of checks by their names; the one under a star serves all others. -/
def service (j : Json) : Judge.Service Float :=
  let scripts := (membersOf j).map fun (name, script) => (name.nearest, (items script).map turn)
  .ofScripts 0.0 (scripts.filter fun s => s.1 ≠ "*") ((Schema.lookup "*" scripts).getD [])

/-! ### Scenes -/

/-- How many rounds a wait may take. -/
def patience : Nat := 100000000

/-- A scene at its start, without tokens. -/
def scene (files : Files.Tree) (course : Analyzer.Course Float) (service : Judge.Service Float) : Scene Float :=
  { host := .usual, timeline := Time.Timeline.start, files, course, service, caller := none, names := 0, clients := 0
    patience, schedule := [], trace := [] }

/-- The scene of a recording with its files below a directory. -/
def read (base : Files.Path) (j : Json) : Scene Float :=
  scene (tree base (field "setup" j)) (course (field "process" j)) (service (field "judges" j))

end Adjudication.Recording
