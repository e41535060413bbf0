import Adjudication.Json.Writer

/-!
What the judge is asked: fixed instructions, then the finding as one line of JSON with sorted names, a
separator, and the source. The line of JSON holds no line break and the texts around it are fixed, so where the
finding ends and the source begins is not in the hands of either.
-/

namespace Adjudication.Judge

def instructions : String :=
  "\n".intercalate [
    "You are an expert smart contract security auditor acting as a judge.",
    "You receive one finding reported by a static analyzer together with the full",
    "Solidity source it was reported against. Decide whether the finding is a real,",
    "exploitable vulnerability in this code or a false positive.",
    "",
    "Answer with a single JSON object and nothing else:",
    "\x7b",
    "  \"is_real_vulnerability\": true | false,",
    "  \"confidence\": <number between 0 and 1>,",
    "  \"rationale\": \"<short explanation referencing the relevant functions>\"",
    "\x7d"]

/-- What stands before the finding. -/
def heading : String := "Analyze the vulnerability and return the result as a JSON object:\n\n"

/-- What stands between the finding and the source. -/
def divider : String := "\n_______\nAgainst the smart contract code:\n\n"

/-- The finding as the judge reads it. -/
def findingText (payload : Json.Members) : Text.Wide := (Json.sorted (.obj payload)).print .line

def question (payload : Json.Members) (code : Text.Wide) : Text.Wide :=
  .text heading ++ findingText payload ++ .text divider ++ code

structure Message where
  role : String
  content : Text.Wide
  deriving DecidableEq, Repr

def messages (payload : Json.Members) (code : Text.Wide) : List Message :=
  [⟨"system", .text instructions⟩, ⟨"user", question payload code⟩]

end Adjudication.Judge
