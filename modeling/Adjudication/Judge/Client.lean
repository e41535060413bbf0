import Adjudication.Judgment
import Adjudication.Scene

/-!
The judge's client: it asks about a finding until an attempt brings an object, within the attempts that its
configuration allows, and reads the verdict off that object. An object without a valid verdict is not asked for
again.
-/

namespace Adjudication.Judge

/-- How requests are sent: through an open client of the service, or by a transport of the caller's own. -/
inductive Transport where
  | service (client : Nat)
  | own
  deriving DecidableEq

structure Client (σ : Type) where
  config : JudgeConfig σ
  transport : Transport
  /-- How many containers may lie within each other in an answer, where the client reads it. -/
  levels : Nat

variable {σ : Type} [Time.Seconds σ]

/-- Opens a client with the key that the configuration holds. -/
def openTransport (config : JudgeConfig σ) : Run σ Transport := do
  match config.apiKey with
  | none | some "" => throw .noKey
  | some key =>
    let s ← get
    let id := s.clients
    set { s with clients := id + 1 }
    Run.record (.opened id ⟨key, config.baseUrl, config.requestTimeout⟩)
    return .service id

def Client.ofConfig (config : JudgeConfig σ) : Run σ (Client σ) :=
  return ⟨config, ← openTransport config, (← get).host.levels⟩

def Client.close (c : Client σ) : Run σ Unit :=
  match c.transport with
  | .service id => Run.record (.closed id)
  | .own => return

/-- How long a request may take: no longer than its token has left. -/
def requestTimeout (config : JudgeConfig σ) (token : Option Time.TokenId) : Run σ σ := do
  match ← Run.remaining token with
  | some r => return if Time.Seconds.lt r config.requestTimeout then r else config.requestTimeout
  | none => return config.requestTimeout

/-- Sends a request and gives the content of the answer. -/
def send (request : Request) (timeout : σ) : Run σ Json := do
  Run.record (.requested request timeout (← Run.now))
  let s ← get
  let turn := s.service.turn request
  set { s with service := s.service.rest request }
  Run.advance turn.takes
  if turn.cancels then
    match s.caller with
    | some id => Run.cancel id
    | none => pure ()
  match turn.crash with
  | some text => throw (.crash text)
  | none =>
    let content ← Run.ofExcept (fun e => .attempt (.transport e)) turn.reply.content
    Run.record (.answered content (← Run.now))
    return content

/-- The object that a text is. -/
def objectOf (levels : Nat) (content : Text.Wide) : Except Failure (Text.Wide × Json.Members) :=
  match Json.readWide levels content with
  | .ok (.obj members) => .ok (content, members)
  | .ok _ => .error (.attempt (.notObject content))
  | .error (.excess e) => .error (.excess e)
  | .error e => .error (.attempt (.notJson content e))

/-- The object that a content is the JSON text of. -/
def decodeObject (levels : Nat) : Json → Except Failure (Text.Wide × Json.Members)
  | .str content => objectOf levels (.text content)
  | .torn t => objectOf levels (.torn t)
  | other => .error (.attempt (.notText other))

/-- An object that was received, with its text and the number of the attempt. -/
structure Received where
  attempt : Nat
  content : Text.Wide
  members : Json.Members

/-- One attempt. Whether the token is cancelled is seen to before anything is sent. -/
def ask (c : Client σ) (request : Request) (token : Option Time.TokenId) (attempt : Nat) :
    Run σ Received := do
  Run.heed token
  let content ← send request (← requestTimeout c.config token)
  let (content, members) ← Run.ofExcept id (decodeObject c.levels content)
  return ⟨attempt, content, members⟩

def isAttemptFault : Failure → Bool
  | .attempt _ => true
  | _ => false

/-- What is logged before an attempt is made again. -/
def retryMessage (c : Client σ) (check : String) (attempt : Nat) (e : Failure) (delay : σ) : Text.Wide :=
  .text ("Judge call for " ++ check ++ " failed (attempt " ++ toString attempt ++ "/" ++
    toString c.config.maxAttempts ++ "): ") ++ e.message ++
    .text ("; retrying in " ++ Time.Seconds.tenths delay ++ "s")

/-- The attempts at one finding. -/
def attempts (c : Client σ) (f : Finding) (code : String) (token : Option Time.TokenId) :
    Retry (Scene σ) Failure σ Received where
  attempts := c.config.maxAttempts
  call := ask c (.about c.config f code) token
  retryable := isAttemptFault
  backoff attempt attempts :=
    match c.config.backoff.delay? c.config.backoffBase attempt attempts with
    | some delay => return delay
    | none => throw .tooLarge
  note attempt e delay := Run.log .warning (retryMessage c f.checkId attempt e delay)
  pause := Run.pause token

/-- The failure that a stop of the attempts is. -/
def failureOfStop : Retry.Stop Failure → Failure
  | .noAttempts => .noAttempts
  | .exhausted n (.attempt last) => .judging (.exhausted n last)
  | .exhausted _ other => other
  | .escaped e => e
  | .unreachable => .crash (Retry.Stop.unreachable.message Failure.message)

/-- The judgment that a received object holds. -/
def judgmentOf (r : Received) : Except Failure Judgment :=
  match Schema.validate "JudgeVerdict" Verdict.check (.obj r.members) with
  | .ok v => .ok ⟨v.isReal, v.confidence, v.rationale, r.content⟩
  | .error e => .error (.judging (.malformed r.attempt r.content e))

/-- Judges a finding in a source. -/
def judge (c : Client σ) (f : Finding) (code : String) (token : Option Time.TokenId) :
    Run σ Judgment := do
  let received ← (attempts c f code token).run.adapt failureOfStop
  Run.ofExcept id (judgmentOf received)

end Adjudication.Judge
