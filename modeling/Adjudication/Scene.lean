import Adjudication.Analyzer.Course
import Adjudication.Judge.Request
import Adjudication.Judge.Service
import Adjudication.Retry
import Adjudication.Time.Timeline
import Adjudication.Time.Timestamp

/-!
What a run meets and what it does there. A scene has the host that the run is on, the clock with its tokens, the files,
the analyzer's process and the judge's service; its trace is everything that the run did in the order in which it did
it.
-/

namespace Adjudication

inductive Level where
  | info
  | warning
  | error
  deriving DecidableEq, Repr

namespace Level

def name : Level → String
  | info => "INFO"
  | warning => "WARNING"
  | error => "ERROR"

end Level

/-- How a client of the judge's service is opened. The service's own retries are off. -/
structure ClientOptions (σ : Type) where
  apiKey : String
  baseUrl : Option String
  timeout : σ

/-- A table to be shown. -/
structure Table where
  title : Text.Wide
  columns : List String
  rows : List (List Text.Wide)
  deriving DecidableEq, Repr

/-- What is put before the user. -/
inductive Shown where
  | line (text : Text.Wide)
  | note (text : Text.Wide)
  | table (t : Table)
  deriving DecidableEq, Repr

/-- What a run does. -/
inductive Event (σ : Type) where
  | logged (level : Level) (message : Text.Wide)
  | launched (argv : List String) (directory : String) (instant : σ)
  /-- The process that runs is killed. -/
  | killed
  | requested (request : Judge.Request) (timeout : σ) (instant : σ)
  /-- Content has come back on the last request. -/
  | answered (content : Json) (instant : σ)
  /-- A pause between two attempts, waited through on a token if there is one. -/
  | paused (delay : σ) (token : Option Time.TokenId) (instant : σ)
  /-- A token is cancelled, by the caller or by a pool that stops. -/
  | cancelled (token : Time.TokenId) (instant : σ)
  | opened (client : Nat) (options : ClientOptions σ)
  | closed (client : Nat)
  | showed (what : Shown)

/-- What a run cannot do anything about: the clock of the calendar, which may be set back, the console, and how deep its
    own recursion may go, which depends on the calls that it has been made in. -/
structure Host (σ : Type) where
  /-- How many microseconds of the year 2026 have gone by for the calendar, by what the clock of waits shows. -/
  calendar : σ → Except Time.ClockFault Int
  /-- Why the console refuses to show something, if it does. -/
  console : Shown → Option String
  /-- How many containers may lie within each other in a JSON text that is read. -/
  levels : Nat
  /-- How many collections may lie within each other in a file of settings. -/
  collections : Nat
  /-- How many levels of directories may be missing above one that is made. -/
  ascent : Nat
  /-- How many levels of directories may lie in one that is removed with everything in it. -/
  descent : Nat

/-- The instant that the calendar shows. -/
def Host.moment {σ : Type} (h : Host σ) (clock : σ) : Except Time.ClockFault Time.Timestamp := do
  Time.Timestamp.after (Time.daysFromEpoch 2026 1 1) (← h.calendar clock)

/-- A calendar that goes with the clock, a console that shows everything, and a stack with few calls on it. -/
def Host.usual {σ : Type} [Time.Seconds σ] : Host σ where
  calendar := Time.Seconds.microseconds
  console _ := none
  levels := Json.usualLevels
  collections := Yaml.usualLevels
  ascent := Files.Tree.usualAscent
  descent := Files.Tree.usualDescent

structure Scene (σ : Type) where
  host : Host σ
  timeline : Time.Timeline σ
  files : Files.Tree
  /-- What the analyzer's process would do. -/
  course : Analyzer.Course σ
  service : Judge.Service σ
  /-- The token that the caller holds. -/
  caller : Option Time.TokenId
  /-- How many names of runs have been made up. -/
  names : Nat
  /-- How many clients have been opened. -/
  clients : Nat
  /-- How many rounds a wait may take. -/
  patience : Nat
  /-- The order in which workers side by side get their turns. -/
  schedule : List Nat
  trace : List (Event σ)

/-- The present instant of the calendar. -/
def Scene.moment {σ : Type} (s : Scene σ) : Except Time.ClockFault Time.Timestamp := s.host.moment s.timeline.now

/-- Cancels a token. -/
def Scene.cancel {σ : Type} (s : Scene σ) (id : Time.TokenId) : Scene σ :=
  { s with
    timeline := s.timeline.cancel id
    trace := s.trace ++ [.cancelled id s.timeline.now] }

/-- A part of a run. -/
abbrev Run (σ α : Type) : Type := Act (Scene σ) Failure α

namespace Run

variable {σ α : Type}

def record (e : Event σ) : Run σ Unit :=
  modify fun s => { s with trace := s.trace ++ [e] }

def log (level : Level) (message : Text.Wide) : Run σ Unit := record (.logged level message)

/-- A value or the failure that stands for it. -/
def ofExcept {ε : Type} (failure : ε → Failure) : Except ε α → Run σ α
  | .ok a => return a
  | .error e => throw (failure e)

/-- The outcome of a part, as a value. -/
def outcome (part : Run σ α) : Run σ (Except Failure α) := fun s =>
  let (r, s) := part s
  (.ok r, s)

/-- A part that is followed by another whatever becomes of it. A failure of the other one comes first. -/
def andThen (part : Run σ α) (last : Run σ Unit) : Run σ α := do
  let r ← outcome part
  last
  ofExcept id r

/-- A change of the files. -/
def change (f : Files.Tree → Except Files.Fault Files.Tree) : Run σ Unit := fun s =>
  match f s.files with
  | .ok t => (.ok (), { s with files := t })
  | .error e => (.error (.file e), s)

/-- Puts something before the user, unless the console refuses it. -/
def put (what : Shown) : Run σ Unit := do
  match (← get).host.console what with
  | some reason => throw (.console reason)
  | none => record (.showed what)

/-- Something that is done to the files, or what kept it from being done to its end. What has been done by then stays. -/
def undertake (f : Host σ → Files.Tree → Except Files.Fault Unit × Files.Tree) : Run σ (Except Files.Fault Unit) :=
  fun s =>
    let (r, files) := f s.host s.files
    (.ok r, { s with files })

/-- Provides a directory with all directories above it. -/
def provideDirectory (p : Files.Path) : Run σ (Except Files.Fault Unit) :=
  undertake fun h t => t.provideDirectory h.ascent p

/-- A question about the files. -/
def ask (f : Files.Tree → Except Files.Fault α) : Run σ α := do
  ofExcept .file (f (← get).files)

/-- A new name for a run. -/
def freshName : Run σ String := do
  let s ← get
  set { s with names := s.names + 1 }
  return String.ofList (Text.hexDigits 32 s.names)

/-! ### Time and tokens -/

variable [Time.Seconds σ]

def now : Run σ σ := return (← get).timeline.now

def advance (seconds : σ) : Run σ Unit :=
  modify fun s => { s with timeline := s.timeline.advance seconds }

def newToken (deadline : Option σ) (parent : Option Time.TokenId) : Run σ Time.TokenId := fun s =>
  let (id, timeline) := s.timeline.addToken deadline parent
  (.ok id, { s with timeline })

def cancel (id : Time.TokenId) : Run σ Unit := modify fun s => s.cancel id

def isCancelled (id : Time.TokenId) : Run σ Bool := fun s =>
  let (b, timeline) := s.timeline.isCancelled id
  (.ok b, { s with timeline })

/-- Ends the run if a token counts as cancelled. -/
def heed (token : Option Time.TokenId) : Run σ Unit := do
  match token with
  | none => return
  | some id => if ← isCancelled id then throw (.cancelled .verification)

/-- The time left to a token, if its chain has a deadline. -/
def remaining (token : Option Time.TokenId) : Run σ (Option σ) := do
  let s ← get
  return token.bind s.timeline.remaining

/-- A pause: on a token it moves the clock and ends the run if the token is cancelled meanwhile; without one it
    is only recorded. -/
def pause (token : Option Time.TokenId) (delay : σ) : Run σ Unit := do
  record (.paused delay token (← now))
  match token with
  | none => return
  | some id =>
    let s ← get
    match s.timeline.wait s.patience id delay with
    | none => throw .stalled
    | some (cancelled, timeline) =>
      set { s with timeline }
      if cancelled then throw (.cancelled .verification)

end Run
end Adjudication
