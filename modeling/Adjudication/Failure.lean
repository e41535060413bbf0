import Adjudication.Files.Tree
import Adjudication.Judgment
import Adjudication.Source
import Adjudication.Template
import Adjudication.Time.Seconds
import Adjudication.Yaml.Fault

/-!
Why a run, or a part of it, ends without a result. Failures are kept by cause; each cause of a named family has
a kind within the family and a message. Failures of staging, of the analyzer and of its results end a run
with a report, a failure of judging stays with its finding, and every other failure leaves the run.
-/

namespace Adjudication

/-- A kind and a message on one line. -/
def labelled (kind : String) (message : Text.Wide) : Text.Wide := .text (kind ++ ": ") ++ message

/-! ### Settings -/

inductive ConfigError where
  | absent (file : Files.Path)
  | unreadable (file : Files.Path) (reason : String)
  | notTable (file : Files.Path)
  | invalid (e : Schema.Invalid Unit)

namespace ConfigError

def kind : String := "invalid"

def message : ConfigError → String
  | absent file => "Config file missing: " ++ file.text
  | unreadable file reason => "Cannot read config " ++ file.text ++ ": " ++ reason
  | notTable file => "Config " ++ file.text ++ " must be a mapping"
  | invalid e => "Invalid settings: " ++ e.message

def text (e : ConfigError) : Text.Wide := labelled kind e.message

end ConfigError

/-! ### Staging -/

inductive StagingError where
  | rootNotCreated (root : Files.Path) (reason : Files.Fault)
  | slotInUse (slot : Files.Path)
  | slotNotCreated (slot : Files.Path) (reason : Files.Fault)
  | notWritten (file : Files.Path) (reason : Files.Fault)
  | notRemoved (path : Files.Path) (reason : Files.Fault)
  deriving DecidableEq

namespace StagingError

def kind : StagingError → String
  | rootNotCreated _ _ | slotNotCreated _ _ | notWritten _ _ => "write_failed"
  | slotInUse _ => "slot_in_use"
  | notRemoved _ _ => "cleanup_failed"

def message : StagingError → String
  | rootNotCreated root reason =>
    "cannot create staging root " ++ root.text ++ ": " ++ reason.message
  | slotInUse slot => "staging slot " ++ slot.text ++ " is already in use"
  | slotNotCreated slot reason =>
    "cannot create staging slot " ++ slot.text ++ ": " ++ reason.message
  | notWritten file reason => "cannot write " ++ file.text ++ ": " ++ reason.message
  | notRemoved path reason => "cannot remove " ++ path.text ++ ": " ++ reason.message

def text (e : StagingError) : Text.Wide := labelled e.kind e.message

end StagingError

/-! ### The analyzer -/

inductive AnalyzerError where
  | notLaunched (program reason : String)
  /-- No results were left under the given name. -/
  | noOutput (name : String) (exitCode : Int) (stderr : String)
  /-- The run took longer than the limit, given as text. -/
  | timedOut (limit : String)
  deriving DecidableEq

namespace AnalyzerError

def kind : AnalyzerError → String
  | notLaunched _ _ => "execution_failed"
  | noOutput _ _ _ => "no_output_produced"
  | timedOut _ => "timed_out"

def message : AnalyzerError → String
  | notLaunched program reason => "cannot launch '" ++ program ++ "': " ++ reason
  | noOutput name exitCode _ =>
    "analyzer produced no results at " ++ name ++ " (exit code " ++ toString exitCode ++ ")"
  | timedOut limit => "analyzer did not finish within " ++ limit ++ "s"

def exitCode : AnalyzerError → Option Int
  | noOutput _ code _ => some code
  | _ => none

def stderr : AnalyzerError → String
  | noOutput _ _ text => text
  | _ => ""

def text (e : AnalyzerError) : Text.Wide := labelled e.kind e.message

end AnalyzerError

/-- Why a process cannot be asked for. -/
inductive LaunchFault where
  /-- There is no argument that names a program. -/
  | noProgram
  | nullByte
  deriving DecidableEq

def LaunchFault.message : LaunchFault → String
  | noProgram => "list index out of range"
  | nullByte => Files.Fault.nullInPath.message

/-! ### Results -/

/-- What can be wrong with a document of results. Entries are counted from 0. -/
inductive ResultsError where
  | unreadable (file : Files.Path) (reason : Files.Fault)
  | notJson (e : Json.ReadError)
  | notObject
  | detectorsNotArray
  /-- There are no detectors; what the analyzer itself reported instead, if anything. -/
  | detectorsMissing (reported : Option Json)
  | entryNotObject (index : Nat)
  | unknownImpact (index : Nat) (impact : Json)
  | entryInvalid (index : Nat) (e : Schema.Invalid Unit)

namespace ResultsError

def kind : ResultsError → String
  | unreadable _ _ | notJson _ => "malformed"
  | _ => "schema_mismatch"

def message : ResultsError → Text.Wide
  | unreadable file reason => .text ("cannot read " ++ file.text ++ ": " ++ reason.message)
  | notJson e => .text ("results are not valid JSON: " ++ e.message)
  | notObject => .text "results document is not an object"
  | detectorsNotArray => .text "results.detectors is not an array"
  | detectorsMissing none => .text "results.detectors is missing"
  | detectorsMissing (some reported) =>
    .text "results.detectors is missing; analyzer reported: " ++ reported.display
  | entryNotObject index => .text ("detector #" ++ toString index ++ " is not an object")
  | unknownImpact index impact =>
    .text ("detector #" ++ toString index ++ " has unknown impact '") ++ impact.display ++ .text "'"
  | entryInvalid index e => .text ("detector #" ++ toString index ++ " is invalid: " ++ e.message)

def text (e : ResultsError) : Text.Wide := labelled e.kind e.message

end ResultsError

/-! ### Judging -/

/-- Why a request to the judge got no answer. -/
inductive TransportError where
  | status (code : Int) (message : Text.Wide)
  | request (message : Text.Wide)
  | noChoices
  | other (message : Text.Wide) (status : Option Int)
  deriving DecidableEq

namespace TransportError

def message : TransportError → Text.Wide
  | status code text => .text ("judge returned HTTP " ++ toString code ++ ": ") ++ text
  | request text => .text "judge request failed: " ++ text
  | noChoices => .text "judge response contained no choices"
  | other text _ => text

def statusCode : TransportError → Option Int
  | status code _ => some code
  | other _ code => code
  | _ => none

end TransportError

/-- Why an attempt at a judgment is made again: the request failed, or what came back is not text, not JSON
    or not an object. -/
inductive AttemptFault where
  | transport (e : TransportError)
  | notText (content : Json)
  | notJson (content : Text.Wide) (e : Json.ReadError)
  | notObject (content : Text.Wide)

namespace AttemptFault

/-- What a value is called that came in the place of a text. -/
def noun : Json → String
  | .null => "NoneType"
  | .bool _ => "bool"
  | .int _ => "int"
  | .double _ => "float"
  | .str _ | .torn _ => "str"
  | .arr _ => "list"
  | .obj _ => "dict"

def message : AttemptFault → Text.Wide
  | transport e => e.message
  | notText content =>
    .text ("judge response is not JSON: the JSON object must be str, bytes or bytearray, not " ++ noun content)
  | notJson _ e => .text ("judge response is not JSON: " ++ e.message)
  | notObject _ => .text "judge response is not a JSON object"

/-- The response as it came; null if none did. -/
def content : AttemptFault → Json
  | transport _ => .null
  | notText content => content
  | notJson content _ | notObject content => .ofWide content

end AttemptFault

/-- The ways in which judging a finding fails: no attempt gave an object, or an object holds no verdict. -/
inductive JudgeError where
  | exhausted (attempts : Nat) (last : AttemptFault)
  | malformed (attempts : Nat) (content : Text.Wide) (e : Schema.Invalid Json)

namespace JudgeError

/-- The bound that a value missed, where the problem is one with a bound. -/
def boundText : Schema.Problem → String
  | .atMost n => ", 'ctx': \x7b'le': " ++ toString n ++ ".0\x7d"
  | .atLeast n => ", 'ctx': \x7b'ge': " ++ toString n ++ ".0\x7d"
  | _ => ""

def stepText : Schema.Step → String
  | .field name => Text.quote name
  | .index i => toString i

def pathText (path : List Schema.Step) : String :=
  "(" ++ ", ".intercalate (path.map stepText) ++ (if path.length = 1 then "," else "") ++ ")"

def faultText (f : Schema.Fault Json) : String :=
  "\x7b'type': " ++ Text.quote f.problem.kind ++ ", 'loc': " ++ pathText f.path ++ ", 'msg': " ++
    Text.quote f.problem.message ++ ", 'input': " ++ f.input.inner ++ boundText f.problem ++ "\x7d"

def kind : JudgeError → FailureKind
  | exhausted _ _ => .exhaustedRetries
  | malformed _ _ _ => .malformedResponse

def message : JudgeError → Text.Wide
  | exhausted attempts last =>
    .text ("judge call failed after " ++ toString attempts ++ " attempt(s): ") ++ last.message
  | malformed _ _ e =>
    .text ("judge response lacks a valid verdict: [" ++ ", ".intercalate (e.faults.map faultText) ++ "]")

def attempts : JudgeError → Nat
  | exhausted n _ | malformed n _ _ => n

/-- The response that is kept: the last one, unless the last attempt got none. -/
def rawResponse : JudgeError → Json
  | exhausted _ last => last.content
  | malformed _ content _ => .ofWide content

def text (e : JudgeError) : Text.Wide := labelled e.kind.name e.message

end JudgeError

/-! ### All failures -/

/-- What was going on when a run was cancelled. -/
inductive Activity where
  | verification
  | analyzerRun
  deriving DecidableEq

def Activity.cancelledText : Activity → String
  | verification => "verification cancelled"
  | analyzerRun => "analyzer run cancelled"

inductive Failure where
  | cancelled (during : Activity)
  | config (e : ConfigError)
  | staging (e : StagingError)
  | analyzer (e : AnalyzerError)
  | results (e : ResultsError)
  | judging (e : JudgeError)
  /-- An attempt at a judgment failed. It is made again or becomes a failure of judging. -/
  | attempt (e : AttemptFault)
  /-- The judge's service broke down. -/
  | crash (message : Text.Wide)
  | invalid (e : Schema.Invalid Unit)
  | template (f : Template.Fault)
  | launch (f : LaunchFault)
  /-- What the analyzer has put out is no text. -/
  | undecodable (e : Text.Utf8.DecodeError)
  | file (f : Files.Fault)
  /-- A JSON text that goes beyond the limits. -/
  | excess (e : Json.Excess)
  /-- Nodes of a file of settings that lie too deep within each other. -/
  | tooDeep
  /-- An integer that is too large for a number of seconds. -/
  | tooLarge
  | unencodable (e : Text.Wide.EncodeError)
  | noInstant (e : Time.ClockFault)
  | noKey
  | noAttempts
  /-- A path without a name, where a name is needed. -/
  | unnamed (path : Files.Path)
  /-- The section of the settings on staging is no table but something of the given noun. -/
  | stagingSection (noun : String)
  /-- A scalar of the settings that is not what its tag says. -/
  | scalar (f : Yaml.ScalarFault)
  /-- A wait that makes no headway. -/
  | stalled
  /-- The console refuses to show something. -/
  | console (reason : String)

namespace Failure

/-- What is said of a section on staging that is no table. -/
def stagingText (noun : String) : String :=
  if noun = "list" then "list indices must be integers or slices, not str"
  else "'" ++ noun ++ "' object does not support item assignment"

def message : Failure → Text.Wide
  | cancelled during => .text during.cancelledText
  | config e => e.text
  | staging e => e.text
  | analyzer e => e.text
  | results e => e.text
  | judging e => e.text
  | attempt e => e.message
  | crash message => message
  | invalid e => .text e.message
  | template f => .text f.message
  | launch f => .text f.message
  | undecodable e => .text e.message
  | file f => .text f.message
  | excess e => .text e.message
  | tooDeep => .text (Yaml.Fault.message [] .tooDeep)
  | tooLarge => .text "int too large to convert to float"
  | unencodable e => .text e.message
  | noInstant e => .text e.message
  | noKey => .text "JudgeConfig.api_key is required for the OpenAI transport"
  | noAttempts => .text "max_attempts must be >= 1"
  | unnamed path => .text (path.shown ++ " has an empty name")
  | stagingSection noun => .text (stagingText noun)
  | scalar f => .text f.message
  | stalled => .text "no headway"
  | console reason => .text reason

end Failure

/-- The faults without the values that they were found in. -/
def Schema.Invalid.forget {δ : Type} (e : Schema.Invalid δ) : Schema.Invalid Unit :=
  ⟨e.title, e.faults.map fun f => ⟨f.path, f.problem, ()⟩⟩

/-- Why there is no source, as a failure. -/
def Failure.ofSource : Source.Fault → Failure
  | .unencodable e => .unencodable e
  | .invalid e => .invalid e.forget

end Adjudication
