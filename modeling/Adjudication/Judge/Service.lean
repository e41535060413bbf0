import Adjudication.Failure
import Adjudication.Judge.Request

/-!
A judge's service as seen from outside. What comes back on a request may depend on all of that request and on all
requests before it. A service may go by scripts: a request takes the next step of the script for its check.
-/

namespace Adjudication.Judge

/-- What comes back on a request. -/
inductive Reply where
  /-- The contents of the choices offered, null contents among them. -/
  | choices (contents : List (Option Text.Wide))
  | status (code : Int) (message : Text.Wide)
  /-- The request failed in another way. -/
  | refused (message : Text.Wide)
  /-- The answer of a transport of the caller's own, whatever its type. -/
  | value (v : Json)
  /-- The failure of a transport of the caller's own. -/
  | broken (message : Text.Wide) (status : Option Int)

/-- What a reply comes to: the content of its first choice, null counting as empty, or the failure. -/
def Reply.content : Reply → Except TransportError Json
  | choices [] => .error .noChoices
  | choices (first :: _) => .ok (.ofWide (first.getD (.text "")))
  | .status code message => .error (.status code message)
  | refused message => .error (.request message)
  | value v => .ok v
  | broken message code => .error (.other message code)

/-- A turn of the service: how long the reply takes, whether the caller cancels meanwhile, whether the service
    breaks down, and the reply. -/
structure Turn (σ : Type) where
  takes : σ
  cancels : Bool
  crash : Option Text.Wide
  reply : Reply

structure Service (σ : Type) where
  /-- The turn on a request, by what has been asked before it, the latest first. -/
  respond : List Request → Request → Turn σ
  /-- What it has been asked so far, the latest first. -/
  asked : List Request

abbrev Script (σ : Type) := List (Turn σ)

namespace Service

variable {σ : Type}

/-- The next turn for a request. -/
def turn (service : Service σ) (request : Request) : Turn σ := service.respond service.asked request

/-- The service after a request. -/
def rest (service : Service σ) (request : Request) : Service σ :=
  { service with asked := request :: service.asked }

/-! ### Scripts -/

/-- The reply where a script has no step at all. -/
def standard (zero : σ) : Turn σ :=
  ⟨zero, false, none, .choices [some <| .text "\x7b\"is_real_vulnerability\": true\x7d"]⟩

/-- The step of a script that comes after so many others; the last step is repeated without end. -/
def step (zero : σ) (script : Script σ) (n : Nat) : Turn σ :=
  (script[min n (script.length - 1)]?).getD (standard zero)

/-- A service that goes by scripts: one for each of some checks, and one for all others together. -/
def ofScripts (zero : σ) (scripts : List (String × Script σ)) (fallback : Script σ) : Service σ where
  respond before request :=
    match Schema.lookup request.check scripts with
    | some script => step zero script (before.countP fun r => r.check = request.check)
    | none => step zero fallback (before.countP fun r => (Schema.lookup r.check scripts).isNone)
  asked := []

end Service
end Adjudication.Judge
