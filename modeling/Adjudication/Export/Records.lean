import Adjudication.Json.Writer
import Adjudication.Report.Basic

/-!
Reports as JSON texts: one record a line for every outcome, or the whole report as one document with its counts.
Code points are kept as they are, so that the texts are torn where a text of the report is.
-/

namespace Adjudication.Export

/-- The record of an outcome. -/
def record (r : Report) (o : Outcome) : Json :=
  .obj [("source", .ofWide r.sourceId), ("finding", o.finding.toJson), ("status", .str o.status.name),
    ("judgment", .ofOption Judgment.toJson o.judgment?),
    ("failure", .ofOption FailureRecord.toJson o.failure?), ("model", .ofOption .ofWide r.judgeModel)]

/-- One line. A record has no line end of its own: within texts line ends are escaped. -/
def line (r : Report) (o : Outcome) : List Nat := Json.write .line 0 (record r o) ++ [Json.Sign.lineEnd]

/-- The chunks in which the lines are put out, each one by itself. -/
def lineChunks (r : Report) : List (List Nat) := r.outcomes.map (line r)

def lines (r : Report) : Text.Wide := .ofCodes (lineChunks r).flatten

/-- The report with its counts. -/
def document (r : Report) : Json := .obj (r.members ++ ([("summary", r.summary.toJson)] : Json.Members))

/-- How documents are written: indented, code points kept. -/
def documentStyle : Json.Style := ⟨true, false⟩

/-- The chunks in which the document is put out. -/
def documentChunks (r : Report) : List (List Nat) :=
  Json.chunks documentStyle 0 (document r) ++ [[Json.Sign.lineEnd]]

def documentText (r : Report) : Text.Wide := .ofCodes (documentChunks r).flatten

end Adjudication.Export
