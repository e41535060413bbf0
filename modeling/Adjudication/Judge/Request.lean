import Adjudication.Config.Basic
import Adjudication.Finding
import Adjudication.Judge.Prompt

/-!
Requests to the judge: one finding, asked about with fixed sampling, the answer wanted as a JSON object.
-/

namespace Adjudication.Judge

structure Request where
  /-- The check whose finding it is about; no part of what is sent. -/
  check : String
  model : String
  seed : Int
  maxTokens : Nat
  messages : List Message
  deriving DecidableEq, Repr

namespace Request

/-- The request that asks about a finding in a source. -/
def about {σ : Type} (config : JudgeConfig σ) (f : Finding) (code : String) : Request :=
  { check := f.checkId, model := config.model, seed := config.seed, maxTokens := config.maxTokens
    messages := Judge.messages f.judgePayload (.text code) }

def temperature : Int := 0

def topP : Int := 0

def responseFormat : Json := .obj [("type", .str "json_object")]

/-- What is sent. -/
def toJson (r : Request) : Json :=
  .obj [("model", .str r.model), ("temperature", .int temperature), ("top_p", .int topP),
    ("seed", .int r.seed), ("max_tokens", .int r.maxTokens), ("response_format", responseFormat),
    ("messages", .arr (r.messages.map fun m =>
      .obj [("role", .str m.role), ("content", .ofWide m.content)]))]

end Request
end Adjudication.Judge
