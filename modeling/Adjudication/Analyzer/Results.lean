import Adjudication.Failure
import Adjudication.Finding
import Adjudication.Json.Reader
import Adjudication.Text.Blank

/-!
Documents of results that the analyzer writes. A document is an object; its detector entries become findings, one
each and in order, or the first entry that is wrong is named. A clean run may leave the entries out altogether.
-/

namespace Adjudication.Analyzer

/-- How severe an impact is. -/
def severityOf : List (String × Severity) :=
  [("high", .high), ("medium", .medium), ("low", .low), ("informational", .informational),
    ("optimization", .informational)]

/-- A member shown as a single lower-case word. What is torn is no word that is looked for, whatever stands for it. -/
def wordOf (member : Option Json) : String :=
  match member with
  | none => ""
  | some v => Text.lower v.display.trim.nearest

/-- The names that a file goes by, the first that is not empty counting. -/
def fileKeys : List String := ["filename_relative", "filename_short", "filename_absolute"]

/-- The member under a name, if there is something in it. -/
def filled? (name : String) (ms : Json.Members) : Option Json :=
  match Json.Members.get? name ms with
  | some v => if v.isFalsy then none else some v
  | none => none

/-- The integers among the items of a list. -/
def lineNumbers : Json → List Int
  | .arr items => items.filterMap fun
    | .int i => some i
    | _ => none
  | _ => []

/-- Where an element of an entry is: its file, whose name may be torn, and the range of its lines. -/
def locationOf? (element : Json) : Option Location :=
  match element.get? "source_mapping" with
  | some (.obj mapping) =>
    (fileKeys.findSome? fun key => filled? key mapping).map fun file =>
      let lines := lineNumbers ((Json.Members.get? "lines" mapping).getD .null)
      ⟨file.display, lines.min?, lines.max?⟩
  | _ => none

/-- The distinct locations of the elements, each at its first place. -/
def locationsOf (elements : Option Json) : List Location :=
  match elements with
  | some (.arr items) => (items.filterMap locationOf?).eraseDups
  | _ => []

/-- The member that identifies an entry: its fingerprint if it has that member at all. -/
def fingerprintOf (ms : Json.Members) : Option Text.Wide :=
  let v := ((Json.Members.get? "fingerprint" ms).or (Json.Members.get? "id" ms)).getD .null
  match v with
  | .null => none
  | v => some v.display

/-- The finding of an entry. -/
def findingOf (index : Nat) (entry : Json) : Except ResultsError Finding :=
  match entry with
  | .obj ms =>
    let get (name : String) := Json.Members.get? name ms
    match Schema.lookup (wordOf (get "impact")) severityOf with
    | none => .error (.unknownImpact index ((get "impact").getD .null))
    | some severity =>
      let checkId (d : Json) := (Schema.textOfLength 1 d).under (.field "check_id")
      match Schema.validate "Finding" checkId ((filled? "check" ms).getD (.str "")) with
      | .error e => .error (.entryInvalid index e.forget)
      | .ok checkId => .ok
        { checkId
          severity
          description := match filled? "description" ms with
            | some v => v.display.trim
            | none => .text ""
          locations := locationsOf (get "elements")
          certainty := Schema.lookup (wordOf (get "confidence")) Certainty.named
          fingerprint := fingerprintOf ms }
  | _ => .error (.entryNotObject index)

/-- The findings of entries that are counted from `index`. -/
def findingsFrom (index : Nat) : List Json → Except ResultsError (List Finding)
  | [] => .ok []
  | entry :: rest => do
    let f ← findingOf index entry
    let fs ← findingsFrom (index + 1) rest
    return f :: fs

/-- What the analyzer reported itself, if it says that it failed. -/
def reported? (document : Json.Members) : Option Json :=
  match Json.Members.get? "success" document with
  | some (.bool false) => filled? "error" document
  | _ => none

/-- The detector entries of a document. -/
def entriesOf (document : Json.Members) : Except ResultsError (List Json) :=
  let missing := .error (.detectorsMissing (reported? document))
  match Json.Members.get? "results" document with
  | some (.obj results) =>
    match Json.Members.get? "detectors" results with
    | some (.arr entries) => .ok entries
    | some _ => .error .detectorsNotArray
    | none =>
      match results, Json.Members.get? "success" document with
      | [], some (.bool true) => .ok []
      | _, _ => missing
  | _ => missing

/-- The findings of a document. -/
def findingsOf : Json → Except ResultsError (List Finding)
  | .obj document => do findingsFrom 0 (← entriesOf document)
  | _ => .error .notObject

/-- The findings of a document given as text. -/
def findingsOfText (levels : Nat) (text : Text.Wide) : Except Failure (List Finding) :=
  match Json.readWide levels text with
  | .ok d => (findingsOf d).mapError .results
  | .error (.excess e) => .error (.excess e)
  | .error e => .error (.results (.notJson e))

/-- The findings of a document in a file. -/
def findingsOfFile (levels : Nat) (t : Files.Tree) (file : Files.Path) : Except Failure (List Finding) :=
  match t.readText file with
  | .ok text => findingsOfText levels text
  | .error .nullInPath => .error (.file .nullInPath)
  | .error reason => .error (.results (.unreadable file reason))

end Adjudication.Analyzer
