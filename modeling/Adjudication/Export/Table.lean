import Adjudication.Report.Basic
import Adjudication.Scene

/-!
Reports as a table for the console, one row for each outcome.
-/

namespace Adjudication.Export

def columns : List String := ["Check", "Severity", "Verdict", "Confidence", "Location"]

/-- A status in its colour. -/
def verdict : Status → String
  | .real => "[red]real[/]"
  | .falsePositive => "[green]false positive[/]"
  | .judgingFailed => "[yellow]judging failed[/]"

/-- A file and the first line, if there is one to show. -/
def place (l : Location) : Text.Wide :=
  match l.startLine with
  | some n => if n = 0 then l.file else l.file ++ .text (":" ++ toString n)
  | none => l.file

/-- A text, or a dash for nothing. -/
def orDash (t : Text.Wide) : Text.Wide := if t = .text "" then .text "-" else t

def confidence (o : Outcome) : String :=
  match o.judgment?.bind Judgment.confidence with
  | some x => Decimal.fixedText 2 x
  | none => "-"

/-- A row shows no more than two locations. -/
def row (o : Outcome) : List Text.Wide :=
  [.text o.finding.checkId, .text o.finding.severity.name, .text (verdict o.status), .text (confidence o),
    orDash (.join (.text ", ") ((o.finding.locations.take 2).map place))]

def table (r : Report) : Table := ⟨.text "scverify: " ++ r.sourceId, columns, r.outcomes.map row⟩

end Adjudication.Export
