import Adjudication.Proofs.Onward
import Adjudication.Proofs.Staging

/-!
What acquiring a slot fails with: a failure of staging, or a fault of the files that is no refusal of the system. Nothing
else leaves it, whatever the scene; and what is done with a slot adds no more than its own failures.
-/

namespace Adjudication.Staging

open Act (Throws)
open Files (Tree)

variable {σ : Type} {P : Failure → Prop} (hstaging : ∀ e, P (.staging e)) (hfile : ∀ e, P (.file e))

include hstaging hfile in
theorem throws_refusedAs {α : Type} (error : Files.Fault → StagingError) (fault : Files.Fault) :
    Throws P (throw (refusedAs error fault) : Run σ α) := by
  refine Act.throws_throw ?_
  rw [refusedAs]
  split
  · exact hstaging _
  · exact hfile _

theorem throws_attempt (f : Tree → Except Files.Fault Tree) : Throws P (attempt f : Run σ (Except Files.Fault Unit)) := by
  refine Act.throws_of_ok fun s => ?_
  cases hf : f s.files with
  | ok files => exact ⟨_, congrArg Prod.fst (attempt_of_ok hf)⟩
  | error e => exact ⟨_, congrArg Prod.fst (attempt_of_error hf)⟩

theorem throws_undertake (f : Host σ → Tree → Except Files.Fault Unit × Tree) :
    Throws P (Run.undertake f : Run σ (Except Files.Fault Unit)) :=
  Act.throws_of_ok fun _ => ⟨_, rfl⟩

theorem throws_warn (slot : Slot) (e : StagingError) : Throws P (warn slot e : Run σ Slot) :=
  (Run.throws_log _ _).bind fun _ => Act.throws_pure _

include hfile in
theorem throws_removeFile (slot : Slot) (path : Files.Path) : Throws P (removeFile slot path : Run σ Slot) := by
  refine (throws_attempt _).bind fun r => ?_
  split
  · exact Act.throws_pure _
  · exact Act.throws_pure _
  · split
    · exact throws_warn slot _
    · exact Act.throws_throw (hfile _)

include hfile in
theorem throws_release (slot : Slot) : Throws P (release slot : Run σ Slot) := by
  refine (throws_removeFile hfile slot _).bind fun slot => (throws_removeFile hfile slot _).bind fun slot =>
    (Run.throws_ask hfile _).bind fun holds => ?_
  split
  · refine (throws_undertake _).bind fun r => ?_
    split
    · exact Act.throws_pure _
    · split
      · exact throws_warn slot _
      · exact Act.throws_throw (hfile _)
  · exact Act.throws_pure _

include hstaging hfile in
/-- Acquiring a slot fails for want of staging, or for a path or a text that is none. -/
theorem throws_acquire (root : Files.Path) (source : Source) (runId : String) :
    Throws P (acquire root source runId : Run σ Slot) := by
  have hroot : Throws P (makeRoot root : Run σ Unit) := by
    refine (throws_undertake _).bind fun r => ?_
    split
    · exact Act.throws_pure _
    · exact throws_refusedAs hstaging hfile _ _
  have hworkdir : ∀ slot, Throws P (makeWorkdir slot : Run σ Unit) := fun slot => by
    refine (throws_attempt _).bind fun r => ?_
    split
    · exact Act.throws_pure _
    · exact Act.throws_throw (hstaging _)
    · exact throws_refusedAs hstaging hfile _ _
  have hsource : ∀ slot content, Throws P (writeSource slot content : Run σ Unit) := fun slot content => by
    refine (throws_attempt _).bind fun r => ?_
    split
    · exact Act.throws_pure _
    · split
      · exact (throws_release hfile slot).bind fun _ => Act.throws_throw (hstaging _)
      · exact Act.throws_throw (hfile _)
  exact hroot.bind fun _ => (hworkdir _).bind fun _ => (hsource _ _).bind fun _ => Act.throws_pure _

include hstaging hfile in
/-- What is done with a slot fails with what acquiring the slot fails with, or with what it fails with itself. -/
theorem throws_within {α : Type} {use : Slot → Run σ α} (huse : ∀ slot, Throws P (use slot)) (root : Files.Path)
    (source : Source) (runId : Option String) : Throws P (within root source runId use) := by
  have hname : Throws P (runName runId : Run σ String) := Act.throws_of_ok fun s => by
    obtain ⟨name, names, hname⟩ := runName_run runId s
    exact ⟨name, congrArg Prod.fst hname⟩
  refine hname.bind fun name => (throws_acquire hstaging hfile root source name).bind fun slot =>
    Run.throws_outcome_bind (huse slot) (fun a => ?_) fun e he => ?_
  · exact (throws_release hfile slot).bind fun _ => Act.throws_pure _
  · exact (throws_release hfile slot).bind fun _ => Act.throws_throw he

end Adjudication.Staging
