import Adjudication.Json.Reader
import Adjudication.Json.Display
import Adjudication.Schema.Scalar

/-!
Judgments on findings: the verdict that a response has to hold, the judgment made of it, and the record of a
judging that failed. A confidence is a number from 0 to 1.
-/

namespace Adjudication

open Schema

/-- What the judge is asked to answer with, and whatever else its answer held. -/
structure Verdict where
  isReal : Bool
  confidence : Option Float
  rationale : Text.Wide
  extra : Json.Members
  deriving Repr

namespace Verdict

/-- The names that the answer's truth value goes by, the first that is there counting. -/
def realNames : List String := ["is_real_vulnerability", "isRealVulnerability"]

def rationaleNames : List String := ["rationale", "reason", "explanation"]

/-- The truth value under the first of its names that is there. -/
def checkReal (whole : Json) (ms : Json.Members) : Checked Json Bool :=
  match firstOf ms realNames with
  | some (name, v) => (truth v).under (.field name)
  | none => .faulty [⟨[.field "is_real_vulnerability"], .missing, whole⟩]

/-- The rationale as text: null is no text, and what is no text is shown. -/
def rationaleText : Json → Text.Wide
  | .null => ""
  | v => v.display

def readRationale (ms : Json.Members) : Text.Wide :=
  match firstOf ms rationaleNames with
  | some (_, v) => rationaleText v
  | none => ""

/-- The members that are none of the verdict's own. -/
def extraMembers (ms : Json.Members) : Json.Members :=
  let used := "confidence" ::
    ([firstOf ms realNames, firstOf ms rationaleNames].filterMap fun m => m.map Prod.fst)
  ms.filter fun m => m.1 ∉ used.map .text

/-- The first name that is torn. -/
def tornName? (ms : Json.Members) : Option Json :=
  ms.findSome? fun m => match m.1 with
    | .torn t => some (.torn t)
    | .text _ => none

/-- Every name has to be a text, for all members are kept; of an answer with one that is torn nothing else is told. -/
def check (d : Json) : Checked Json Verdict :=
  record "JudgeVerdict" d fun ms =>
    match tornName? ms with
    | some name => .fault .notUnicode name
    | none =>
      (fun real confidence => ⟨real, confidence, readRationale ms, extraMembers ms⟩)
        <$> checkReal d ms
        <*> defaulted ms "confidence" none (nullable probability)

def toJson (v : Verdict) : Json :=
  let own : Json.Members := [("is_real_vulnerability", .bool v.isReal),
    ("confidence", .ofOption .double v.confidence), ("rationale", .ofWide v.rationale)]
  .obj (own ++ v.extra)

end Verdict

/-- A verdict on one finding with the response that it was read from. -/
structure Judgment where
  isReal : Bool
  confidence : Option Float
  rationale : Text.Wide
  rawResponse : Text.Wide
  deriving DecidableEq, Repr

namespace Judgment

/-- The response decoded again. -/
def rawPayload (levels : Nat) (j : Judgment) : Except Json.ReadError Json := Json.readWide levels j.rawResponse

def toJson (j : Judgment) : Json :=
  .obj [("is_real_vulnerability", .bool j.isReal), ("confidence", .ofOption .double j.confidence),
    ("rationale", .ofWide j.rationale), ("raw_response", .ofWide j.rawResponse)]

def check {δ : Type} [Shaped δ] (d : δ) : Checked δ Judgment :=
  record "Judgment" d fun ms =>
    Judgment.mk <$> required d ms "is_real_vulnerability" truth
      <*> defaulted ms "confidence" none (nullable probability)
      <*> defaulted ms "rationale" (.text "") text
      <*> defaulted ms "raw_response" (.text "\x7b\x7d") text

end Judgment

/-- The ways in which judging one finding fails. -/
inductive FailureKind where
  | exhaustedRetries
  | malformedResponse
  deriving DecidableEq, Repr

namespace FailureKind

def name : FailureKind → String
  | exhaustedRetries => "exhausted_retries"
  | malformedResponse => "malformed_response"

def named : List (String × FailureKind) :=
  [("exhausted_retries", exhaustedRetries), ("malformed_response", malformedResponse)]

end FailureKind

/-- What a report keeps of a judging that failed. -/
structure FailureRecord where
  kind : FailureKind
  message : Text.Wide
  attempts : Int
  rawResponse : Option Text.Wide
  deriving DecidableEq, Repr

namespace FailureRecord

def toJson (r : FailureRecord) : Json :=
  .obj [("kind", .str r.kind.name), ("message", .ofWide r.message), ("attempts", .int r.attempts),
    ("raw_response", .ofOption .ofWide r.rawResponse)]

def check {δ : Type} [Shaped δ] (d : δ) : Checked δ FailureRecord :=
  record "JudgeFailureRecord" d fun ms =>
    FailureRecord.mk <$> required d ms "kind" (among FailureKind.named)
      <*> required d ms "message" text
      <*> required d ms "attempts" integer
      <*> defaulted ms "raw_response" none (nullable text)

end FailureRecord
end Adjudication
