import Adjudication.Proofs.Analyzer.Marks
import Adjudication.Proofs.Scene
import Adjudication.Staging

/-!
Scenes that are alike: they differ in nothing but the marks of entries, in files or in what the analyzer would leave. What a
run does without the analyzer keeps step on such scenes, the staging of a source and the release of its slot among it.
-/

namespace Adjudication

open Act (Lockstep Blind)
open Files (Tree Fault)
open Time (TokenId)

variable {σ α β : Type}

/-- Scenes with files that are alike and with courses of the analyzer that are, all else being the same. -/
inductive Scene.Alike : Scene σ → Scene σ → Prop
  | mk {s : Scene σ} {files : Tree} {course : Analyzer.Course σ}
    (hfiles : s.files.Alike (Analyzer.SameButMarks s.host.levels) files)
      (hcourse : s.course.Alike s.host.levels course) : Alike s { s with files, course }

theorem Scene.Alike.files {s t : Scene σ} (h : s.Alike t) : s.files.Alike (Analyzer.SameButMarks s.host.levels) t.files := by
  cases h with
  | mk hfiles _ => exact hfiles

theorem Scene.Alike.moment {s t : Scene σ} (h : s.Alike t) : s.moment = t.moment := by
  cases h
  rfl

theorem Scene.Alike.trace {s t : Scene σ} (h : s.Alike t) : s.trace = t.trace := by
  cases h
  rfl

namespace Run

theorem blind_record (e : Event σ) : Blind Scene.Alike (record e) := fun _ _ h => by
  cases h with
  | mk hfiles hcourse => exact ⟨.ok rfl, .mk hfiles hcourse⟩

theorem blind_log (level : Level) (message : Text.Wide) : Blind Scene.Alike (log level message : Run σ Unit) :=
  blind_record _

theorem blind_ofExcept {ε : Type} (failure : ε → Failure) (r : Except ε α) :
    Blind Scene.Alike (ofExcept failure r : Run σ α) := by
  cases r with
  | ok a => exact Act.blind_pure a
  | error e => exact Act.blind_throw _

theorem lockstep_ofExcept {V : α → β → Prop} {r : Except Failure α} {r' : Except Failure β} (h : Matched V r r') :
    Lockstep Scene.Alike V (ofExcept id r : Run σ α) (ofExcept id r') := by
  cases h with
  | ok h => exact Act.lockstep_pure h
  | error e => exact Act.lockstep_throw e

theorem lockstep_outcome {V : α → β → Prop} {x : Run σ α} {y : Run σ β} (h : Lockstep Scene.Alike V x y) :
    Lockstep Scene.Alike (Matched V) (outcome x) (outcome y) := fun s t hst => ⟨.ok (h s t hst).1, (h s t hst).2⟩

theorem blind_outcome {x : Run σ α} (h : Blind Scene.Alike x) : Blind Scene.Alike (outcome x) := fun s t hst =>
  ⟨.ok (matched_eq.1 (h s t hst).1), (h s t hst).2⟩

theorem lockstep_andThen {V : α → β → Prop} {x : Run σ α} {y : Run σ β} {last : Run σ Unit}
    (h : Lockstep Scene.Alike V x y) (hlast : Blind Scene.Alike last) :
    Lockstep Scene.Alike V (andThen x last) (andThen y last) :=
  (lockstep_outcome h).bind fun _ _ hr => .blind_bind hlast fun _ => lockstep_ofExcept hr

/-! ### Files -/

theorem blind_ask {f : Tree → Except Fault α} (hf : ∀ (levels : Nat) (t u : Tree),
    t.Alike (Analyzer.SameButMarks levels) u → f t = f u) :
    Blind Scene.Alike (ask f : Run σ α) :=
  Act.lockstep_get_bind fun s t h => by
    rw [hf _ _ _ h.files]
    exact blind_ofExcept _ _ s t h

theorem blind_attempt {f : Tree → Except Fault Tree} (hf : ∀ (levels : Nat) (t u : Tree),
    t.Alike (Analyzer.SameButMarks levels) u →
    Matched (Tree.Alike (Analyzer.SameButMarks levels)) (f t) (f u)) :
    Blind Scene.Alike (Staging.attempt f : Run σ (Except Fault Unit)) := fun s t h => by
  cases h with
  | @mk files course hfiles hcourse =>
    have hchange := hf _ _ _ hfiles
    simp only [Staging.attempt]
    generalize f s.files = x at hchange ⊢
    generalize f files = y at hchange ⊢
    cases hchange with
    | ok hchanged => exact ⟨.ok rfl, .mk hchanged hcourse⟩
    | error e => exact ⟨.ok rfl, .mk hfiles hcourse⟩

theorem blind_undertake {f : Host σ → Tree → Except Fault Unit × Tree}
    (hf : ∀ (host : Host σ) (levels : Nat) (t u : Tree), t.Alike (Analyzer.SameButMarks levels) u →
      (f host t).1 = (f host u).1 ∧ (f host t).2.Alike (Analyzer.SameButMarks levels) (f host u).2) :
    Blind Scene.Alike (undertake f : Run σ (Except Fault Unit)) := fun s t h => by
  cases h with
  | mk hfiles hcourse =>
    obtain ⟨hresult, hdone⟩ := hf s.host _ _ _ hfiles
    exact ⟨.ok hresult, .mk hdone hcourse⟩

theorem blind_provideDirectory (p : Files.Path) :
    Blind Scene.Alike (provideDirectory p : Run σ (Except Fault Unit)) :=
  blind_undertake fun host _ _ _ h => h.provideDirectory host.ascent p

theorem blind_freshName : Blind Scene.Alike (freshName : Run σ String) := fun _ _ h => by
  cases h with
  | mk hfiles hcourse => exact ⟨.ok rfl, .mk hfiles hcourse⟩

/-! ### Time and tokens -/

theorem blind_now : Blind Scene.Alike (now : Run σ σ) := fun _ _ h => by
  cases h with
  | mk hfiles hcourse => exact ⟨.ok rfl, .mk hfiles hcourse⟩

theorem blind_cancel (id : TokenId) : Blind Scene.Alike (cancel id : Run σ Unit) := fun _ _ h => by
  cases h with
  | mk hfiles hcourse => exact ⟨.ok rfl, .mk hfiles hcourse⟩

section Time

variable [Time.Seconds σ]

theorem blind_advance (seconds : σ) : Blind Scene.Alike (advance seconds) := fun _ _ h => by
  cases h with
  | mk hfiles hcourse => exact ⟨.ok rfl, .mk hfiles hcourse⟩

theorem blind_newToken (deadline : Option σ) (parent : Option TokenId) :
    Blind Scene.Alike (newToken deadline parent) := fun _ _ h => by
  cases h with
  | mk hfiles hcourse => exact ⟨.ok rfl, .mk hfiles hcourse⟩

theorem blind_isCancelled (id : TokenId) : Blind Scene.Alike (isCancelled id : Run σ Bool) := fun _ _ h => by
  cases h with
  | mk hfiles hcourse => exact ⟨.ok rfl, .mk hfiles hcourse⟩

theorem blind_heed (token : Option TokenId) : Blind Scene.Alike (heed token : Run σ Unit) := by
  cases token with
  | none => exact Act.blind_pure ()
  | some id =>
    refine .blind_bind (blind_isCancelled id) fun cancelled => ?_
    cases cancelled with
    | false => exact Act.blind_pure ()
    | true => exact Act.blind_throw _

theorem blind_remaining (token : Option TokenId) : Blind Scene.Alike (remaining token : Run σ (Option σ)) := fun _ _ h => by
  cases h with
  | mk hfiles hcourse => exact ⟨.ok rfl, .mk hfiles hcourse⟩

theorem blind_pause (token : Option TokenId) (delay : σ) : Blind Scene.Alike (pause token delay) := by
  refine .blind_bind blind_now fun instant => .blind_bind (blind_record _) fun _ => ?_
  cases token with
  | none => exact Act.blind_pure ()
  | some id =>
    refine Act.lockstep_get_bind fun s t h => ?_
    cases h with
    | mk hfiles hcourse =>
      dsimp only
      rcases s.timeline.wait s.patience id delay with _ | ⟨cancelled, timeline⟩
      · exact ⟨.error _, .mk hfiles hcourse⟩
      · cases cancelled with
        | false => exact ⟨.ok rfl, .mk hfiles hcourse⟩
        | true => exact ⟨.error _, .mk hfiles hcourse⟩

end Time

end Run

/-! ### Staging -/

namespace Staging

theorem blind_removeFile (slot : Slot) (path : Files.Path) : Blind Scene.Alike (removeFile slot path : Run σ Slot) := by
  refine .blind_bind (Run.blind_attempt fun _ _ _ h => h.remove path) fun r => ?_
  split
  · exact Act.blind_pure _
  · exact Act.blind_pure _
  · split
    · exact .blind_bind (Run.blind_log _ _) fun _ => Act.blind_pure _
    · exact Act.blind_throw _

theorem blind_removeWorkdir (slot : Slot) : Blind Scene.Alike (removeWorkdir slot : Run σ Slot) := by
  refine .blind_bind (Run.blind_ask fun _ _ _ h => h.holds slot.workdir) fun held => ?_
  split
  · refine .blind_bind (Run.blind_undertake fun host _ _ _ h => h.removeAll host.descent slot.workdir) fun r => ?_
    split
    · exact Act.blind_pure _
    · split
      · exact .blind_bind (Run.blind_log _ _) fun _ => Act.blind_pure _
      · exact Act.blind_throw _
  · exact Act.blind_pure _

theorem blind_release (slot : Slot) : Blind Scene.Alike (release slot : Run σ Slot) :=
  .blind_bind (blind_removeFile slot _) fun slot => .blind_bind (blind_removeFile slot _) fun slot => blind_removeWorkdir slot

theorem blind_makeRoot (root : Files.Path) : Blind Scene.Alike (makeRoot root : Run σ Unit) := by
  refine .blind_bind (Run.blind_provideDirectory root) fun r => ?_
  split
  · exact Act.blind_pure _
  · exact Act.blind_throw _

theorem blind_makeWorkdir (slot : Slot) : Blind Scene.Alike (makeWorkdir slot : Run σ Unit) := by
  refine .blind_bind (Run.blind_attempt fun _ _ _ h => h.makeDirectory slot.workdir) fun r => ?_
  split
  · exact Act.blind_pure _
  · exact Act.blind_throw _
  · exact Act.blind_throw _

theorem blind_writeSource (slot : Slot) (content : Files.Bytes) : Blind Scene.Alike (writeSource slot content : Run σ Unit) := by
  refine .blind_bind (Run.blind_attempt fun _ _ _ h => h.write slot.source (.same content)) fun r => ?_
  split
  · exact Act.blind_pure _
  · split
    · exact .blind_bind (blind_release slot) fun _ => Act.blind_throw _
    · exact Act.blind_throw _

theorem blind_acquire (root : Files.Path) (source : Source) (runId : String) :
    Blind Scene.Alike (acquire root source runId : Run σ Slot) :=
  .blind_bind (blind_makeRoot root) fun _ => .blind_bind (blind_makeWorkdir _) fun _ =>
    .blind_bind (blind_writeSource _ _) fun _ => Act.blind_pure _

theorem blind_runName (given : Option String) : Blind Scene.Alike (runName given : Run σ String) := by
  rw [runName.eq_def]
  split
  · exact Run.blind_freshName
  · exact Run.blind_freshName
  · exact Act.blind_pure _

/-- What is done with a slot keeps step if it does so with every slot. -/
theorem lockstep_within {V : α → β → Prop} {use : Slot → Run σ α} {use' : Slot → Run σ β}
    (huse : ∀ slot, Lockstep Scene.Alike V (use slot) (use' slot)) (root : Files.Path) (source : Source)
    (runId : Option String) : Lockstep Scene.Alike (fun a b => V a.1 b.1 ∧ a.2 = b.2) (within root source runId use)
      (within root source runId use') :=
  .blind_bind (blind_runName runId) fun name => .blind_bind (blind_acquire root source name) fun slot =>
    (Run.lockstep_outcome (huse slot)).bind fun _ _ hr => .blind_bind (blind_release slot) fun _ =>
      (Run.lockstep_ofExcept hr).bind fun _ _ hab => Act.lockstep_pure ⟨hab, rfl⟩

end Staging
end Adjudication
