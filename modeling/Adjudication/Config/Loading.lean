import Adjudication.Config.Basic
import Adjudication.Failure
import Adjudication.Yaml.Overlay

/-!
Loading settings: a file is laid over the settings that hold where nothing is said, and the environment may name
the file and the root of staging. What the result cannot be is a failure of the settings, with the exception of
files that are no text and of sections that cannot take the root.
-/

namespace Adjudication

/-- What the environment says about settings; an empty text says nothing. -/
structure Environment where
  /-- The file to be read where no other is asked for. -/
  settingsFile : Option String
  stagingRoot : Option String
  apiKey : Option String

/-- A text that says something. -/
def spoken (s : Option String) : Option String := s.filter (· ≠ "")

namespace Settings

/-- The settings where nothing is said, as a file would give them. -/
def standardTable : Yaml.Members :=
  let s := standard
  [("analyzer", .table [("command", .list (s.analyzer.command.map .text)), ("timeout", .double s.analyzer.timeout)]),
    ("judge", .table
      [("model", .text s.judge.model), ("seed", .int s.judge.seed), ("max_tokens", .int s.judge.maxTokens),
        ("max_attempts", .int s.judge.maxAttempts), ("backoff", .text s.judge.backoff.name),
        ("backoff_base", .double s.judge.backoffBase), ("request_timeout", .double s.judge.requestTimeout),
        ("max_workers", .int s.judge.maxWorkers), ("base_url", .null)]),
    ("staging", .table [("root", .null)])]

def config {α : Type} (e : ConfigError) : Except Failure α := .error (.config e)

/-- The table that a file holds; a file that says nothing holds an empty one. Its collections may lie within each other
    so many levels deep. -/
def tableOf (levels : Nat) (file : Files.Path) (text : String) : Except Failure Yaml.Members :=
  match Yaml.ofText levels text.toList with
  | .error (.scalar fault) => .error (.scalar fault)
  | .error .tooDeep => .error .tooDeep
  | .error fault => config (.unreadable file (fault.message text.toList))
  | .ok v =>
    match if v.isBlank then .table [] else v with
    | .table ms => .ok ms
    | _ => config (.notTable file)

def read (levels : Nat) (files : Files.Tree) (file : Files.Path) : Except Failure Yaml.Members :=
  match files.readText file with
  | .ok text => tableOf levels file text
  | .error fault =>
    if fault.isRefusal then config (.unreadable file fault.message) else .error (.file fault)

/-- The standard settings with a file, if there is one to be read, laid over them. -/
def layered (levels : Nat) (files : Files.Tree) (file : Option Files.Path) : Except Failure Yaml.Members :=
  match file with
  | none => .ok standardTable
  | some file =>
    match files.holds file with
    | .error fault => .error (.file fault)
    | .ok false => config (.absent file)
    | .ok true => (read levels files file).map (Yaml.overlay standardTable)

/-- Sets the root of staging in its section. -/
def withRoot (root : String) (ms : Yaml.Members) : Except Failure Yaml.Members :=
  match (Schema.lookup "staging" ms).getD (.table []) with
  | .table part => .ok (Yaml.put "staging" (.table (Yaml.put "root" (.text root) part)) ms)
  | v => .error (.stagingSection v.noun)

def ofTable (ms : Yaml.Members) : Except Failure (Settings Float) :=
  (Schema.validate "Settings" check (Yaml.table ms)).mapError fun e => .config (.invalid e.forget)

/-- The settings from a file, the given one or the one that the environment names. -/
def load (levels : Nat) (files : Files.Tree) (env : Environment) (file : Option Files.Path) :
    Except Failure (Settings Float) := do
  let file := file <|> (spoken env.settingsFile).map Files.Path.ofText
  let ms ← layered levels files file
  match spoken env.stagingRoot with
  | none => ofTable ms
  | some root => withRoot root ms >>= ofTable

/-- A root that the environment names is the root that the section on staging has. -/
theorem withRoot_of_table {root : String} {ms part : Yaml.Members}
    (h : Schema.lookup "staging" ms = some (.table part)) :
    withRoot root ms = .ok (Yaml.put "staging" (.table (Yaml.put "root" (.text root) part)) ms) := by
  simp [withRoot, h]

end Settings
end Adjudication
