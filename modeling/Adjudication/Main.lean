import Adjudication.CommandLine.Session
import Adjudication.Recording

/-!
The program: it runs the command with its arguments and its environment on a recording that it reads from standard
input, prints what the command shows, and ends with the command's code.
-/

namespace Adjudication

/-- The lines that are printed for what is shown. -/
def Shown.lines : Shown → List Text.Wide
  | line text | note text => [text]
  | table t => t.title :: (t.columns.map .text :: t.rows).map fun row => .join (.text " | ") row

/-- The lines of a run in order. -/
def shownLines (trace : List (Event Float)) : List Text.Wide :=
  trace.flatMap fun
    | .showed what => what.lines
    | _ => []

/-- The directory that the files of a recording are in. -/
def workingDirectory : Files.Path := Files.Path.ofText "/work"

def readEnvironment : IO Environment :=
  return ⟨← IO.getEnv "SCVERIFY_CONFIG", ← IO.getEnv "SCVERIFY_STAGING_DIR", ← IO.getEnv "OPENAI_API_KEY"⟩

/-- Everything up to the end of the input. -/
partial def readInput (input : IO.FS.Stream) (soFar : String) : IO String := do
  let line ← input.getLine
  if line.isEmpty then return soFar else readInput input (soFar ++ line)

/-- The message and the code that an end of the command comes with. -/
def CommandLine.Exit.report : CommandLine.Exit → List Text.Wide × UInt32
  | crashed f => ([f.message], 1)
  | exit => ([], exit.code.toUInt32)

/-- Runs the command on the text of a recording. -/
def rehearse (env : Environment) (args : List String) (recording : String) : List Text.Wide × UInt32 :=
  match Json.read Json.usualLevels recording with
  | .error e => ([.text ("recording: " ++ e.message)], 2)
  | .ok j =>
    let (exit, s) := CommandLine.invoke env args (Recording.read workingDirectory j)
    (shownLines s.trace ++ exit.report.1, exit.report.2)

end Adjudication

open Adjudication in
/-- Reads a recording, runs the command on it, and prints what it shows, U+FFFD for what is torn. -/
def main (args : List String) : IO UInt32 := do
  let (lines, code) := rehearse (← readEnvironment) args (← readInput (← IO.getStdin) "")
  for line in lines do
    IO.println line.nearest
  return code
