import Adjudication.Scene
import Adjudication.Source

/-!
Staging: every run has a directory of its own below a root, its slot, which holds the source and takes the results.
A slot is acquired for a run, and released when the run is over. What cannot be removed then is no failure but a
warning that the slot keeps.
-/

namespace Adjudication

structure Slot where
  runId : String
  workdir : Files.Path
  source : Files.Path
  /-- Where the results belong; nothing is there when the slot is acquired. -/
  output : Files.Path
  warnings : List Text.Wide

namespace Staging

def resultsName : String := "results.json"

def slotMark : String := "scverify-"

/-- The name of the results next to a source of the given name. -/
def outputName (sourceName : String) : String :=
  if sourceName = resultsName then "_" ++ resultsName else resultsName

/-- The slot of a run. -/
def slotOf (root : Files.Path) (source : Source) (runId : String) : Slot :=
  let workdir := root.child (slotMark ++ runId)
  { runId, workdir, source := workdir.child source.identifier
    output := workdir.child (outputName source.identifier), warnings := [] }

variable {σ : Type}

/-- Turns a refusal of the system into a failure of staging. Other faults stay what they are. -/
def refusedAs (error : Files.Fault → StagingError) (fault : Files.Fault) : Failure :=
  if fault.isRefusal then .staging (error fault) else .file fault

/-- A change of the files, or what kept it from being made. -/
def attempt (f : Files.Tree → Except Files.Fault Files.Tree) : Run σ (Except Files.Fault Unit) :=
  fun s =>
    match f s.files with
    | .ok t => (.ok (.ok ()), { s with files := t })
    | .error e => (.ok (.error e), s)

/-! ### Releasing a slot -/

/-- Notes that something could not be removed. -/
def warn (slot : Slot) (e : StagingError) : Run σ Slot := do
  Run.log .warning (.text "Staging cleanup failed: " ++ e.text)
  return { slot with warnings := slot.warnings ++ [e.text] }

/-- Removes a file of a slot; one that is not there is fine. -/
def removeFile (slot : Slot) (path : Files.Path) : Run σ Slot := do
  match ← attempt fun t => t.remove path with
  | .ok () => return slot
  | .error (.refused .noEntry _) => return slot
  | .error fault =>
    if fault.isRefusal then warn slot (.notRemoved path fault) else throw (.file fault)

/-- Removes what is left of the directory of a slot. -/
def removeWorkdir (slot : Slot) : Run σ Slot := do
  if ← Run.ask fun t => t.holds slot.workdir then
    match ← Run.undertake fun h t => t.removeAll h.descent slot.workdir with
    | .ok () => return slot
    | .error fault =>
      if fault.isRefusal then warn slot (.notRemoved slot.workdir fault) else throw (.file fault)
  else return slot

/-- Removes a slot as far as it can be removed. -/
def release (slot : Slot) : Run σ Slot := do
  let slot ← removeFile slot slot.source
  let slot ← removeFile slot slot.output
  removeWorkdir slot

/-! ### Acquiring a slot -/

def makeRoot (root : Files.Path) : Run σ Unit := do
  match ← Run.provideDirectory root with
  | .ok () => return
  | .error fault => throw (refusedAs (.rootNotCreated root) fault)

def makeWorkdir (slot : Slot) : Run σ Unit := do
  match ← attempt fun t => t.makeDirectory slot.workdir with
  | .ok () => return
  | .error (.refused .exists _) => throw (.staging (.slotInUse slot.workdir))
  | .error fault => throw (refusedAs (.slotNotCreated slot.workdir) fault)

/-- Writes the source. A slot whose source the system refuses is released again. -/
def writeSource (slot : Slot) (content : Files.Bytes) : Run σ Unit := do
  match ← attempt fun t => t.write slot.source content with
  | .ok () => return
  | .error fault =>
    if fault.isRefusal then
      let _ ← release slot
      throw (.staging (.notWritten slot.source fault))
    else throw (.file fault)

/-- A fresh slot with the source in it. -/
def acquire (root : Files.Path) (source : Source) (runId : String) : Run σ Slot := do
  let slot := slotOf root source runId
  makeRoot root
  makeWorkdir slot
  writeSource slot source.content
  return slot

/-- The given name of a run, or a new one. -/
def runName (given : Option String) : Run σ String :=
  match given with
  | none | some "" => Run.freshName
  | some name => return name

/-- Does something with a slot and releases the slot whatever comes of it. Gives the slot's warnings as well. -/
def within {α : Type} (root : Files.Path) (source : Source) (runId : Option String)
    (use : Slot → Run σ α) : Run σ (α × List Text.Wide) := do
  let slot ← acquire root source (← runName runId)
  let r ← Run.outcome (use slot)
  let slot ← release slot
  let a ← Run.ofExcept id r
  return (a, slot.warnings)

end Staging
end Adjudication
