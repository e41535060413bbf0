import Adjudication.Proofs.Files.Way
import Adjudication.Proofs.Staging
import Mathlib.Logic.Function.Basic
import Mathlib.Logic.Relation

/-!
Runs that share a root. Any number of runs acquire and release slots below one root, under names that may be equal, and
the steps that acquiring and releasing are made of come in any order; in between, a run's analyzer works in its own slot.
What is said here is what one step can do. The steps of a run by itself are those of `acquire` and `release`.
-/

namespace Adjudication.Staging

open Files (Tree Place)
open Files.Tree (Grows Prunes)

/-! ### Phases of a run -/

/-- A run that stages a source below a shared root, under a name that is a single component of a path. -/
structure Tenant where
  source : Source
  runId : String
  named : ∃ content given, Source.make content given = .ok source
  single : '/' ∉ runId.toList

abbrev Tenant.slot (root : Files.Path) (g : Tenant) : Slot := slotOf root g.source g.runId

/-- What is removed of a slot, in this order. -/
inductive Part where
  | source
  | output
  | workdir

/-- Where a run stands. -/
inductive Phase where
  | waiting
  /-- The root of all slots is there. -/
  | rooted
  /-- The directory of the slot has been made. -/
  | made
  /-- The slot is acquired. The source is as it was written unless the analyzer has touched it. -/
  | staged (touched : Bool)
  /-- The slot is being released, for the source could not be written or the run is over. -/
  | leaving (next : Part) (slot : Slot) (why : Option StagingError)
  | gone (slot : Slot) (why : Option StagingError)
  /-- No slot could be acquired. -/
  | refused (e : Failure)
  /-- The directory of the slot has been made, but the source has a name that cannot be given to the system, or the slot
  cannot be released. -/
  | stranded (e : Failure)

namespace Phase

/-- A run has made the directory of its slot, and has not removed it since. -/
def Holds : Phase → Prop
  | made | staged _ | leaving _ _ _ | stranded _ => True
  | _ => False

/-- A run has come to have the root of all slots there. -/
def Begun : Phase → Prop
  | waiting | refused _ => False
  | _ => True

/-- The source has been written, or the system has refused to, and the directory of the slot has not been removed since. -/
def Staged : Phase → Prop
  | staged _ | leaving _ _ _ => True
  | _ => False

instance : DecidablePred Staged
  | staged _ | leaving _ _ _ => .isTrue trivial
  | waiting | rooted | made | gone _ _ | refused _ | stranded _ => .isFalse id

/-- The slot has been released. -/
def Over : Phase → Prop
  | gone _ _ => True
  | _ => False

/-- There is nothing more to do. -/
def Ended : Phase → Prop
  | gone _ _ | refused _ | stranded _ => True
  | _ => False

/-- What acquiring a slot has come to. -/
def acquired? : Phase → Option (Except Failure Unit)
  | staged _ => some (.ok ())
  | gone _ (some e) => some (.error (.staging e))
  | refused e => some (.error e)
  | stranded e => some (.error e)
  | _ => none

def ofResult : Except Failure Phase → Phase
  | .ok p => p
  | .error e => refused e

/-- What follows on the removal of a part of a slot. -/
def ofRemoval (next : Slot → Phase) : Except Failure Slot → Phase
  | .ok slot => next slot
  | .error e => stranded e

end Phase

variable {σ ι : Type} {root : Files.Path} {g : Tenant} {s t : Scene σ}

/-- What a run does next. -/
def proceed (root : Files.Path) (g : Tenant) : Phase → Run σ Phase
  | .waiting => do
    makeRoot root
    return .rooted
  | .rooted => do
    makeWorkdir (g.slot root)
    return .made
  | .made => do
    match ← attempt fun t => t.write (g.slot root).source g.source.content with
    | .ok () => return .staged false
    | .error fault =>
      return if fault.isRefusal then .leaving .source (g.slot root) (some (.notWritten (g.slot root).source fault))
        else .stranded (.file fault)
  | .staged _ => return .leaving .source (g.slot root) none
  | .leaving .source slot why =>
    return .ofRemoval (.leaving .output · why) (← Run.outcome (removeFile slot slot.source))
  | .leaving .output slot why =>
    return .ofRemoval (.leaving .workdir · why) (← Run.outcome (removeFile slot slot.output))
  | .leaving .workdir slot why => return .ofRemoval (.gone · why) (← Run.outcome (removeWorkdir slot))
  | ended => return ended

/-- The phase after a step of a run, and the scene that it leaves. -/
def turn (root : Files.Path) (g : Tenant) (x : Phase × Scene σ) : Phase × Scene σ :=
  let (r, s) := proceed root g x.1 x.2
  (.ofResult r, s)

/-- A step that does one thing and goes on with what comes of it. -/
theorem turn_of_bind {α : Type} {p : Phase} {x : Run σ α} {f : α → Phase}
    (h : proceed root g p = do return f (← x)) (s : Scene σ) :
    turn root g (p, s) = (.ofResult ((x s).1.map f), (x s).2) := by
  rw [turn, h, Act.bind_run]
  rcases x s with ⟨_ | _, _⟩ <;> rfl

theorem turn_waiting (s : Scene σ) : turn root g (.waiting, s) =
    (.ofResult ((makeRoot root s).1.map fun _ => .rooted), (makeRoot root s).2) :=
  turn_of_bind (x := makeRoot root) (f := fun _ => .rooted) (by rw [proceed]) s

theorem turn_rooted (s : Scene σ) : turn root g (.rooted, s) =
    (.ofResult ((makeWorkdir (g.slot root) s).1.map fun _ => .made), (makeWorkdir (g.slot root) s).2) :=
  turn_of_bind (x := makeWorkdir (g.slot root)) (f := fun _ => .made) (by rw [proceed]) s

theorem turn_made_of_ok {files : Tree} (h : s.files.write (g.slot root).source g.source.content = .ok files) :
    turn root g (.made, s) = (.staged false, { s with files }) := by
  have hproceed : proceed root g .made s = (.ok (.staged false), { s with files }) := by
    rw [proceed, Act.bind_of_ok (attempt_of_ok (f := fun t => t.write (g.slot root).source g.source.content) h)]
    rfl
  rw [turn, hproceed]
  rfl

theorem turn_made_of_error {fault : Files.Fault}
    (h : s.files.write (g.slot root).source g.source.content = .error fault) :
    turn root g (.made, s) = (if fault.isRefusal then
      .leaving .source (g.slot root) (some (.notWritten (g.slot root).source fault)) else .stranded (.file fault), s) := by
  have hproceed : proceed root g .made s = (.ok (if fault.isRefusal then
      .leaving .source (g.slot root) (some (.notWritten (g.slot root).source fault)) else .stranded (.file fault)), s) := by
    rw [proceed, Act.bind_of_ok (attempt_of_error (f := fun t => t.write (g.slot root).source g.source.content) h)]
    rfl
  rw [turn, hproceed]
  rfl

theorem turn_source (slot : Slot) (why : Option StagingError) (s : Scene σ) :
    turn root g (.leaving .source slot why, s) =
      (.ofRemoval (.leaving .output · why) (removeFile slot slot.source s).1, (removeFile slot slot.source s).2) :=
  turn_of_bind (x := Run.outcome (removeFile slot slot.source)) (f := .ofRemoval (.leaving .output · why)) (by rw [proceed]) s

theorem turn_output (slot : Slot) (why : Option StagingError) (s : Scene σ) :
    turn root g (.leaving .output slot why, s) =
      (.ofRemoval (.leaving .workdir · why) (removeFile slot slot.output s).1, (removeFile slot slot.output s).2) :=
  turn_of_bind (x := Run.outcome (removeFile slot slot.output)) (f := .ofRemoval (.leaving .workdir · why)) (by rw [proceed]) s

theorem turn_workdir (slot : Slot) (why : Option StagingError) (s : Scene σ) :
    turn root g (.leaving .workdir slot why, s) =
      (.ofRemoval (.gone · why) (removeWorkdir slot s).1, (removeWorkdir slot s).2) :=
  turn_of_bind (x := Run.outcome (removeWorkdir slot)) (f := .ofRemoval (.gone · why)) (by rw [proceed]) s

/-! ### A run by itself -/

/-- The steps of a run by itself lead from one point to another. -/
def Leads (root : Files.Path) (g : Tenant) : Phase × Scene σ → Phase × Scene σ → Prop :=
  Relation.ReflTransGen fun x y => turn root g x = y

/-- The steps of a run that leaves its slot are those of a release. -/
theorem leads_release (root : Files.Path) (g : Tenant) (slot : Slot) (why : Option StagingError) (s : Scene σ) :
    Leads root g (.leaving .source slot why, s)
      (.ofRemoval (.gone · why) (release slot s).1, (release slot s).2) := by
  have hsource : Leads root g (.leaving .source slot why, s) _ := .single (turn_source slot why s)
  rw [release]
  rcases hs : removeFile slot slot.source s with ⟨e | slot₁, s₁⟩
  · rw [hs] at hsource
    rw [Act.bind_of_error hs]
    exact hsource
  rw [hs] at hsource
  rw [Act.bind_of_ok hs]
  refine hsource.trans ?_
  have houtput : Leads root g (.leaving .output slot₁ why, s₁) _ := .single (turn_output slot₁ why s₁)
  rcases ho : removeFile slot₁ slot₁.output s₁ with ⟨e | slot₂, s₂⟩
  · rw [ho] at houtput
    rw [Act.bind_of_error ho]
    exact houtput
  rw [ho] at houtput
  rw [Act.bind_of_ok ho]
  exact houtput.trans (.single (turn_workdir slot₂ why s₂))

/-- From its directory on, the steps of a run are those of writing the source, with a release where it is refused. -/
theorem leads_writeSource (root : Files.Path) (g : Tenant) (s : Scene σ) :
    ∃ p, Leads root g (.made, s) (p, (writeSource (g.slot root) g.source.content s).2) ∧
      p.acquired? = some (writeSource (g.slot root) g.source.content s).1 := by
  cases hwrite : s.files.write (g.slot root).source g.source.content with
  | ok files =>
    rw [writeSource_of_ok (g.slot root) s hwrite]
    exact ⟨.staged false, .single (turn_made_of_ok hwrite), rfl⟩
  | error fault =>
    have hmade : Leads root g (.made, s) _ := .single (turn_made_of_error hwrite)
    cases hrefusal : fault.isRefusal with
    | false =>
      rw [hrefusal] at hmade
      rw [writeSource_of_fault (g.slot root) s hwrite hrefusal]
      exact ⟨.stranded (.file fault), hmade, rfl⟩
    | true =>
      rw [hrefusal, if_pos rfl] at hmade
      have hleads := hmade.trans (leads_release root g (g.slot root) _ s)
      rcases hrelease : release (g.slot root) s with ⟨e | slot, t⟩ <;> rw [hrelease] at hleads
      · rw [writeSource_of_stuck (g.slot root) s hwrite hrefusal hrelease]
        exact ⟨_, hleads, rfl⟩
      · rw [writeSource_of_refusal (g.slot root) s hwrite hrefusal hrelease]
        exact ⟨_, hleads, rfl⟩

/-- The steps of a run that waits for its slot are those of acquiring the slot. -/
theorem leads_acquire (root : Files.Path) (g : Tenant) (s : Scene σ) :
    ∃ p, Leads root g (.waiting, s) (p, (acquire root g.source g.runId s).2) ∧
      p.acquired? = some ((acquire root g.source g.runId s).1.map fun _ => ()) := by
  have hwaiting : Leads root g (.waiting, s) _ := .single (turn_waiting s)
  rw [acquire]
  rcases hr : makeRoot root s with ⟨e | ⟨⟩, s₁⟩
  · rw [hr] at hwaiting
    rw [Act.bind_of_error hr]
    exact ⟨_, hwaiting, rfl⟩
  rw [hr] at hwaiting
  rw [Act.bind_of_ok hr]
  have hrooted : Leads root g (.rooted, s₁) _ := .single (turn_rooted s₁)
  rcases hw : makeWorkdir (g.slot root) s₁ with ⟨e | ⟨⟩, s₂⟩
  · rw [hw] at hrooted
    rw [Act.bind_of_error hw]
    exact ⟨_, hwaiting.trans hrooted, rfl⟩
  rw [hw] at hrooted
  rw [Act.bind_of_ok hw]
  obtain ⟨p, hleads, hp⟩ := leads_writeSource root g s₂
  rcases hwrite : writeSource (g.slot root) g.source.content s₂ with ⟨e | ⟨⟩, s₃⟩ <;> rw [hwrite] at hleads hp
  · rw [Act.bind_of_error hwrite]
    exact ⟨p, (hwaiting.trans hrooted).trans hleads, hp⟩
  · rw [Act.bind_of_ok hwrite]
    exact ⟨p, (hwaiting.trans hrooted).trans hleads, hp⟩

end Adjudication.Staging
