import Adjudication.Decimal.Numeral
import Adjudication.Files.Tree

/-!
The arguments of the command: options and the file to be verified, in any order. An option's value follows it, or
stands behind an equals sign in the same argument. Two dashes end the options. Values are read when everything
has been told apart, numbers as they are read in the fields of a table.
-/

namespace Adjudication.CommandLine

/-! ### Telling arguments apart -/

inductive Key where
  | config
  | model
  | workers
  | deadline
  | format
  | out
  | failOnHigh
  | verbose
  | help
  deriving DecidableEq, Repr

namespace Key

def takesValue : Key → Bool
  | failOnHigh | verbose | help => false
  | _ => true

def named : List (String × Key) :=
  [("--config", config), ("--model", model), ("--workers", workers), ("--deadline", deadline),
    ("--format", format), ("--out", out), ("--fail-on-high", failOnHigh), ("--verbose", verbose),
    ("--help", help)]

def ofName? (name : List Char) : Option Key :=
  (named.find? fun n => n.1.toList = name).map Prod.snd

/-- The option that a letter after a single dash stands for. -/
def ofLetter? (c : Char) : Option Key := if c = 'v' then some verbose else none

end Key

/-- What a single argument is. -/
inductive Argument where
  /-- Two dashes alone. -/
  | ending
  | place
  /-- An option and the value that it brings along. -/
  | option (key : Key) (value : Option String)
  | letters (keys : List Key)
  | unknown
  deriving DecidableEq, Repr

/-- The text before the first equals sign and, if there is one, the text after it. -/
def splitValue (s : List Char) : List Char × Option String :=
  (s.takeWhile (· ≠ '='),
    match s.dropWhile (· ≠ '=') with
    | _ :: value => some (String.ofList value)
    | [] => none)

def Argument.ofText (s : List Char) : Argument :=
  match s with
  | ['-', '-'] => .ending
  | '-' :: c :: rest =>
    let (name, value) := splitValue s
    match Key.ofName? name with
    | some key => .option key value
    | none =>
      if c = '-' then .unknown
      else
        match (c :: rest).mapM Key.ofLetter? with
        | some keys => .letters keys
        | none => .unknown
  | _ => .place

/-- Options with their values, as they are given, and the other arguments. -/
structure Given where
  options : List (Key × String)
  places : List String
  deriving DecidableEq, Repr

def Given.withOption (key : Key) (value : String) (g : Given) : Given :=
  { g with options := (key, value) :: g.options }

/-- Tells the arguments apart; `pending` is an option whose value comes next. There is nothing to tell where an
    option is unknown, lacks its value, or has one that it does not take. -/
def Given.ofRest? : (pending : Option Key) → List String → Option Given
  | none, [] => some ⟨[], []⟩
  | some _, [] => none
  | some key, value :: rest => (ofRest? none rest).map (withOption key value)
  | none, arg :: rest =>
    match Argument.ofText arg.toList with
    | .ending => some ⟨[], rest⟩
    | .place => (ofRest? none rest).map fun g => { g with places := arg :: g.places }
    | .letters keys =>
      (ofRest? none rest).map fun g => { g with options := keys.map (·, "") ++ g.options }
    | .unknown => none
    | .option key value =>
      match key.takesValue, value with
      | false, none => (ofRest? none rest).map (withOption key "")
      | false, some _ => none
      | true, some value => (ofRest? none rest).map (withOption key value)
      | true, none => ofRest? (some key) rest

def Given.ofArguments? (args : List String) : Option Given := ofRest? none args

/-! ### Reading values -/

/-- What the command is asked to do. Formats are still the texts that were given. -/
structure Options where
  contract : Files.Path
  config : Option Files.Path
  model : Option String
  workers : Option Nat
  deadline : Option Float
  formats : List String
  out : Files.Path
  failOnHigh : Bool
  verbose : Bool

/-- What holds where nothing is said, for a file that is still to be named. -/
def Options.standard : Options :=
  { contract := Files.Path.ofText "", config := none, model := none, workers := none, deadline := none
    formats := ["table"], out := Files.Path.ofText "artifacts/scverify.json", failOnHigh := false
    verbose := false }

/-- A path that need not lead anywhere. -/
def readPath? (s : String) : Option Files.Path :=
  if '\x00' ∈ s.toList then none else some (Files.Path.ofText s)

def readWorkers? (s : String) : Option Nat :=
  match Decimal.readInteger s with
  | .ok i => if 1 ≤ i then some i.toNat else none
  | .error _ => none

/-- A number of seconds that is not below zero. -/
def readDeadline? (s : String) : Option Float := (Decimal.readDouble? s).filter (0.0 ≤ ·)

/-- Reads an option; `values` are all values that it is given, of which the last one counts. -/
def readOption? (o : Options) (key : Key) (values : List String) : Option Options := do
  let value := values.getLastD ""
  match key with
  | .config => return { o with config := ← readPath? value }
  | .model => return { o with model := value }
  | .workers => return { o with workers := ← readWorkers? value }
  | .deadline => return { o with deadline := ← readDeadline? value }
  | .format => return { o with formats := values }
  | .out => return { o with out := ← readPath? value }
  | .failOnHigh => return { o with failOnHigh := true }
  | .verbose => return { o with verbose := true }
  | .help => return o

/-- The file to be verified: it has to be there, and to be a file. -/
def readContract? (files : Files.Tree) (s : String) : Option Files.Path :=
  let path := Files.Path.ofText s
  match (files.reach path).toOption.bind files.get? with
  | some (.file _) => some path
  | _ => none

/-- Reads the values of all options, and the one other argument. -/
def Given.read? (files : Files.Tree) (g : Given) : Option Options := do
  let values (key : Key) : List String := (g.options.filter fun o => o.1 = key).map Prod.snd
  let keys := (g.options.map Prod.fst).eraseDups
  let o ← keys.foldlM (fun o key => readOption? o key (values key)) Options.standard
  match g.places with
  | [place] => return { o with contract := ← readContract? files place }
  | _ => none

/-- What arguments ask for. -/
inductive Request where
  | help
  | run (o : Options)

/-- What is asked for; nothing if the arguments are not used as they should be. Help takes precedence over values that
    cannot be read. -/
def Request.ofArguments? (files : Files.Tree) (args : List String) : Option Request := do
  let g ← Given.ofArguments? args
  if .help ∈ g.options.map Prod.fst then return .help
  return .run (← g.read? files)

example : Given.ofArguments? ["a.sol", "--out=x=y", "--model", "--help", "-vv", "--", "-b"] =
    some ⟨[(.out, "x=y"), (.model, "--help"), (.verbose, ""), (.verbose, "")], ["a.sol", "-b"]⟩ := by
  decide +kernel

example : Given.ofArguments? ["a.sol", "--verbose=1"] = none := by decide +kernel

end Adjudication.CommandLine
