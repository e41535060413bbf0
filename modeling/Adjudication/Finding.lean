import Adjudication.Json.Value
import Adjudication.Schema.Scalar

/-!
Findings of a static analyzer: what was found, how severe it is, and where. A finding is told to the judge
without its fingerprint.
-/

namespace Adjudication

open Schema

inductive Severity where
  | informational
  | low
  | medium
  | high
  deriving DecidableEq, Repr

namespace Severity

def name : Severity → String
  | informational => "informational"
  | low => "low"
  | medium => "medium"
  | high => "high"

def named : List (String × Severity) :=
  [("informational", informational), ("low", low), ("medium", medium), ("high", high)]

end Severity

/-- How sure the analyzer is of a finding. -/
inductive Certainty where
  | low
  | medium
  | high
  deriving DecidableEq, Repr

namespace Certainty

def name : Certainty → String
  | low => "low"
  | medium => "medium"
  | high => "high"

def named : List (String × Certainty) := [("low", low), ("medium", medium), ("high", high)]

end Certainty

/-- A file and a range of its lines. -/
structure Location where
  file : Text.Wide
  startLine : Option Int
  endLine : Option Int
  deriving DecidableEq, Repr

structure Finding where
  checkId : String
  severity : Severity
  description : Text.Wide
  locations : List Location
  certainty : Option Certainty
  fingerprint : Option Text.Wide
  deriving DecidableEq, Repr

namespace Location

def toJson (l : Location) : Json :=
  .obj [("file", .ofWide l.file), ("start_line", .ofOption .int l.startLine),
    ("end_line", .ofOption .int l.endLine)]

def check {δ : Type} [Shaped δ] (d : δ) : Checked δ Location :=
  record "Location" d fun ms =>
    Location.mk <$> required d ms "file" text
      <*> defaulted ms "start_line" none (nullable integer)
      <*> defaulted ms "end_line" none (nullable integer)

end Location

namespace Finding

/-- What the judge is told of a finding: everything but the fingerprint. -/
def judgePayload (f : Finding) : Json.Members :=
  [("check_id", .str f.checkId), ("severity", .str f.severity.name),
    ("description", .ofWide f.description), ("locations", .arr (f.locations.map Location.toJson)),
    ("analyzer_confidence", .ofOption (fun c => .str c.name) f.certainty)]

def toJson (f : Finding) : Json :=
  .obj (f.judgePayload ++ ([("raw_fingerprint", .ofOption .ofWide f.fingerprint)] : Json.Members))

def check {δ : Type} [Shaped δ] (d : δ) : Checked δ Finding :=
  record "Finding" d fun ms =>
    Finding.mk <$> required d ms "check_id" (textOfLength 1)
      <*> required d ms "severity" (among Severity.named)
      <*> defaulted ms "description" (.text "") text
      <*> defaulted ms "locations" [] (tupleOf Location.check)
      <*> defaulted ms "analyzer_confidence" none (nullable (among Certainty.named))
      <*> defaulted ms "raw_fingerprint" none (nullable text)

end Finding
end Adjudication
