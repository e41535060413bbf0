import Adjudication.Json.Writer
import Adjudication.Report.Basic

/-!
Reports in the static analysis results interchange format: one rule for each check, with the severity of its first
finding, and one result for each outcome. A false positive stays in the log but has no level.
-/

namespace Adjudication.Export.Sarif

/-- The tool that a log names. -/
structure Tool where
  name : String
  version : String

def Tool.standard : Tool := ⟨"scverify", "0.0.0"⟩

structure Rule where
  id : String
  severity : Severity
  deriving DecidableEq, Repr

def Rule.toJson (r : Rule) : Json :=
  .obj [("id", .str r.id), ("name", .str r.id),
    ("properties", .obj [("severity", .str r.severity.name)])]

/-- Adds the rule of a finding unless its check has one. -/
def addRule (rules : List Rule) (f : Finding) : List Rule :=
  if rules.any fun r => r.id = f.checkId then rules else rules ++ [⟨f.checkId, f.severity⟩]

/-- The rules of findings, in the order in which their checks first come. -/
def rulesOf (fs : List Finding) : List Rule := fs.foldl addRule []

def levelOf : Severity → String
  | .high => "error"
  | .medium => "warning"
  | .low => "note"
  | .informational => "note"

def level (o : Outcome) : String :=
  if o.status = .falsePositive then "none" else levelOf o.finding.severity

def artifact (uri : Text.Wide) : Text.Wide × Json :=
  ("artifactLocation", .obj [("uri", .ofWide uri)])

/-- The region of a location that has a first line. -/
def region (l : Location) : Json.Members :=
  match l.startLine with
  | none => []
  | some first =>
    let last := match l.endLine with
      | none => []
      | some n => [("endLine", .int n)]
    [("region", .obj (("startLine", .int first) :: last))]

def locationJson (l : Location) : Json :=
  .obj [("physicalLocation", .obj (artifact l.file :: region l))]

/-- A finding's locations, or the source where it has none. -/
def locations (sourceId : Text.Wide) (f : Finding) : List Json :=
  if f.locations = [] then [.obj [("physicalLocation", .obj [artifact sourceId])]]
  else f.locations.map locationJson

def message (f : Finding) : Text.Wide := if f.description = .text "" then .text f.checkId else f.description

def properties (o : Outcome) : Json.Members :=
  ("verdict", .str o.status.name) ::
    match o.ruling with
    | .judged j => [("confidence", .ofOption .double j.confidence), ("rationale", .ofWide j.rationale)]
    | .failed r => [("failure", .str r.kind.name)]

def result (sourceId : Text.Wide) (o : Outcome) : Json :=
  .obj [("ruleId", .str o.finding.checkId), ("level", .str (level o)),
    ("message", .obj [("text", .ofWide (message o.finding))]),
    ("locations", .arr (locations sourceId o.finding)), ("properties", .obj (properties o))]

/-- What a run that ended with an error tells of it. -/
def invocations (error : Option RunError) : Json.Members :=
  match error with
  | none => []
  | some e =>
    let notification := .obj [("level", .str "error"),
      ("message", .obj [("text", .ofWide (e.kind ++ .text ": " ++ e.message))])]
    [("invocations", .arr [.obj [("executionSuccessful", .bool false),
      ("toolExecutionNotifications", .arr [notification])]])]

/-- The log of a report. -/
def log (tool : Tool) (r : Report) : Json :=
  let rules := rulesOf (r.outcomes.map Outcome.finding)
  let driver := .obj [("name", .str tool.name), ("version", .str tool.version),
    ("rules", .arr (rules.map Rule.toJson))]
  let run : Json.Members := [("tool", .obj [("driver", driver)]),
    ("results", .arr (r.outcomes.map (result r.sourceId))),
    ("properties", .obj [("status", .str r.status.name),
      ("judgeModel", .ofOption .ofWide r.judgeModel), ("summary", r.summary.toJson)])]
  .obj [("version", .str "2.1.0"),
    ("$schema", .str "https://json.schemastore.org/sarif-2.1.0.json"),
    ("runs", .arr [.obj (run ++ invocations r.error)])]

/-- How logs are written: indented, in ASCII. -/
def style : Json.Style := ⟨true, true⟩

/-- The chunks in which a log is put out. -/
def logChunks (tool : Tool) (r : Report) : List (List Nat) :=
  Json.chunks style 0 (log tool r) ++ [[Json.Sign.lineEnd]]

def logText (tool : Tool) (r : Report) : Text.Wide := .ofCodes (logChunks tool r).flatten

end Adjudication.Export.Sarif
