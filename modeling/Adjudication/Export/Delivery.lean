import Adjudication.Export.Records
import Adjudication.Export.Sarif
import Adjudication.Export.Table

/-!
Delivering a report in the formats asked for: files side by side under one name, told apart by their suffixes, and
a table on the console. Files are written in a fixed order, whatever the order of the formats.
-/

namespace Adjudication.Export

inductive Format where
  | json
  | jsonl
  | sarif
  | table
  deriving DecidableEq, Repr

namespace Format

def name : Format → String
  | json => "json"
  | jsonl => "jsonl"
  | sarif => "sarif"
  | table => "table"

def named : List (String × Format) :=
  [("json", json), ("jsonl", jsonl), ("sarif", sarif), ("table", table)]

/-- What is said of a format that there is none of. -/
def unsupported (value : String) : String :=
  "Unsupported format '" ++ value ++ "'. Choose from ['json', 'jsonl', 'sarif', 'table']"

/-- The formats in a list of texts, in any case of letters, without repetitions; or the first text that is
    none. -/
def ofTexts (chosen : List Format) : List String → Except String (List Format)
  | [] => .ok chosen
  | value :: rest =>
    match Schema.lookup (Text.lower value) named with
    | none => .error (unsupported value)
    | some f => ofTexts (if f ∈ chosen then chosen else chosen ++ [f]) rest

/-- The formats asked for; a table if none is. -/
def choose (values : List String) : Except String (List Format) :=
  if values = [] then .ok [table] else ofTexts [] values

/-- Formats as a message shows them. -/
def shown (fs : List Format) : String :=
  "[" ++ ", ".intercalate (fs.map fun f => Text.quote f.name) ++ "]"

end Format

/-- The version of the tool that logs name. -/
def toolVersion : String := "0.1.0"

/-- The file of a format: the JSON document takes the path itself unless its suffix belongs to another
    format. The table has no file. -/
def target (out : Files.Path) : Format → Option Files.Path
  | .json => if out.suffix = ".jsonl" ∨ out.suffix = ".sarif" then out.withSuffix? ".json" else some out
  | .jsonl => out.withSuffix? ".jsonl"
  | .sarif => out.withSuffix? ".sarif"
  | .table => none

/-- The chunks in which the file of a format is written. -/
def chunks (r : Report) : Format → List (List Nat)
  | .json => documentChunks r
  | .jsonl => lineChunks r
  | .sarif => Sarif.logChunks ⟨"scverify", toolVersion⟩ r
  | .table => []

variable {σ : Type}

/-- Writes a file chunk by chunk. Where a chunk is torn, what comes before it stays in the file. -/
def writeChunks (path : Files.Path) (chunks : List (List Nat)) : Run σ Unit := do
  Run.ofExcept .file (← Run.provideDirectory path.parent)
  let (written, bytes) := Text.Wide.encodeEach (chunks.map .ofCodes)
  Run.change fun t => t.write path bytes
  Run.ofExcept .unencodable written

/-- Writes the file of one format, if it is asked for. -/
def deliverFile (r : Report) (out : Files.Path) (asked : List Format) (f : Format) :
    Run σ (List (Format × Files.Path)) := do
  if f ∉ asked then return []
  match target out f with
  | none => throw (.unnamed out)
  | some path =>
    writeChunks path (chunks r f)
    return [(f, path)]

/-- Delivers a report and gives the files written, in order. -/
def deliver (r : Report) (asked : List Format) (out : Files.Path) :
    Run σ (List (Format × Files.Path)) := do
  let files ← [Format.json, .jsonl, .sarif].mapM (deliverFile r out asked)
  if .table ∈ asked then Run.put (.table (table r))
  for (f, path) in files.flatten do
    Run.put (.note (.text ("Wrote " ++ f.name ++ " report to " ++ path.text)))
  return files.flatten

/-- How many outcomes block: those that are real, or those of them that are of high severity. -/
def blocking (r : Report) (onlyHigh : Bool) : Nat :=
  (r.outcomes.filter fun o =>
    o.status = .real ∧ (!onlyHigh ∨ o.finding.severity = .high)).length

end Adjudication.Export
