import Adjudication.Proofs.Files.Path
import Adjudication.Proofs.Verification.Slot

/-!
What is left of a slot. Whatever the analyzer does to the files, and however a verification ends, its slot is released: the
directory is gone, or a warning tells that it is not, and the warnings are part of the report if there is one. A release
does not change what the verification has come to, and it touches nothing outside the slot. There is one exception: if there
are more levels of directories in the slot than can be removed, the verification ends in that, no warning tells of it, and
the directory is still there.
-/

namespace Adjudication

/-- Whether an event is a line that tells of a slot that is not released. -/
def Event.ofCleanup {σ : Type} : Event σ → Bool
  | .logged _ message => "Staging cleanup failed: ".toList.isPrefixOf message.nearest.toList
  | _ => false

namespace Verifier

open Files (Tree)
open Time (TokenId)

variable {σ : Type} [Time.Seconds σ] {v : Verifier σ} {source : Source} {given : Option TokenId} {runId : Option String}
  {s : Scene σ}

/-- How a slot below a root is left. The scene was `before` when the slot was acquired, `staged` afterwards, `inside` when
the part in the slot was over, and is `after` in the end; the release has come to `release`, and there have been `warnings`
on the way. -/
structure Cleanup (root : Files.Path) (slot : Slot) (before staged inside after : Scene σ) (release : Except Failure Unit)
    (warnings : List Text.Wide) : Prop where
  gone : release = .ok () → after.files.holds slot.workdir = .ok false ∨
    ∃ fault, (StagingError.notRemoved slot.workdir fault).text ∈ warnings
  stays : ∀ e, release = .error e → after.files.get? (before.files.place slot.workdir) = some .directory
  logged : ∃ later, after.trace = inside.trace ++ later ∧
    ∀ w ∈ warnings, .logged .warning (.text "Staging cleanup failed: " ++ w) ∈ later
  acquired : ∀ place, ¬ before.files.place slot.workdir <+: place →
    staged.files.get? place = before.files.get? place ∨
      before.files.way root place ∧ before.files.get? place = none ∧ staged.files.get? place = some .directory
  released : ∀ place, ¬ before.files.place slot.workdir <+: place →
    after.files.get? place = inside.files.get? place

omit [Time.Seconds σ] in
theorem warnings_logged (es : List StagingError) (s : Scene σ) (files : Tree) (lines : List (Level × Text.Wide)) :
    ∃ later, ((Staging.cleaned s files es).noting lines).trace = s.trace ++ later ∧
      ∀ w ∈ es.map StagingError.text, .logged .warning (.text "Staging cleanup failed: " ++ w) ∈ later := by
  refine ⟨_, by simp only [Staging.cleaned, Scene.noting, List.append_assoc]; rfl, fun w hw => ?_⟩
  obtain ⟨e, he, rfl⟩ := List.mem_map.1 hw
  exact List.mem_append_left _ (List.mem_map.2 ⟨_, List.mem_map_of_mem he, rfl⟩)

/-- A scene in which the analyzer leaves a file in the place of the directory that it has been given. -/
def wreckedScene : Scene Int :=
  { scannerScene with course := { scannerScene.course with
      disturbs := fun _ => [(["runs"], .directory), (["runs", "scverify-1"], .file [])] } }

/-- A scene in which no more than one level of directories can be removed, and the analyzer leaves two. -/
def sunkenScene : Scene Int :=
  { scannerScene with
    host := { scannerScene.host with descent := 1 }
    course := { scannerScene.course with
      disturbs := fun nodes => nodes ++
        [(["runs", "scverify-1", "d"], .directory), (["runs", "scverify-1", "d", "d"], .directory)] } }

/-- Whether a run ends with a directory that is too deep to be removed. -/
def endsTooDeep {α : Type} : Except Failure α → Bool
  | .error (.file (.tooDeep .removing)) => true
  | _ => false

theorem eq_of_endsTooDeep {α : Type} {x : Except Failure α} (h : endsTooDeep x = true) :
    x = .error (.file (.tooDeep .removing)) := by
  unfold endsTooDeep at h
  split at h
  · rfl
  · cases h

end Verifier
end Adjudication
