import Adjudication.Proofs.Frame
import Adjudication.Proofs.Judge.Service
import Adjudication.Proofs.Scene
import Adjudication.Proofs.Time.Ordered
import Adjudication.Verification

/-!
How scenes go on. A part of a run leaves the analyzer's course as it is, does to the files what it is known to do, and adds
to the trace what it may do. Where time is ordered, and nothing takes less than no time, the clock goes forward.
-/

namespace Adjudication

open Act (Respects Throws)
open Time.Seconds (Ordered le zero)

variable {σ α : Type} {R : Scene σ → Scene σ → Prop}

namespace Run

theorem respects_ofExcept [Std.Refl R] {ε : Type} (failure : ε → Failure) (r : Except ε α) :
    Respects R (ofExcept failure r : Run σ α) := by
  cases r <;> exact Std.Refl.refl

theorem respects_outcome {part : Run σ α} (h : Respects R part) : Respects R (outcome part) := h

theorem respects_now [Std.Refl R] : Respects R (now : Run σ σ) := Std.Refl.refl

theorem respects_ask [Std.Refl R] (f : Files.Tree → Except Files.Fault α) : Respects R (ask f : Run σ α) := by
  intro s
  cases hf : f s.files with
  | ok a =>
    rw [ask_run_of_ok hf]
    exact Std.Refl.refl s
  | error e =>
    rw [ask_run_of_error hf]
    exact Std.Refl.refl s

theorem respects_put [Std.Refl R] {what : Shown} (h : Respects R (record (.showed what) : Run σ Unit)) :
    Respects R (put what) := by
  intro s
  rw [put_run]
  split
  · exact Std.Refl.refl s
  · exact h s

end Run

namespace Run

variable {P : Failure → Prop}

theorem throws_ofExcept {ε : Type} {failure : ε → Failure} (h : ∀ e, P (failure e)) (r : Except ε α) :
    Throws P (ofExcept failure r : Run σ α) := by
  cases r with
  | ok a => exact Act.throws_pure a
  | error e => exact Act.throws_throw (h e)

theorem throws_record (e : Event σ) : Throws P (record e) := Act.throws_of_ok fun _ => ⟨(), rfl⟩

theorem throws_log (level : Level) (message : Text.Wide) : Throws P (log level message : Run σ Unit) := throws_record _

theorem throws_put (h : ∀ reason, P (.console reason)) (what : Shown) : Throws P (put what : Run σ Unit) := by
  intro s e he
  rw [put_run] at he
  split at he
  · obtain rfl := Except.error.inj he
    exact h _
  · cases he

theorem throws_ask (h : ∀ e, P (.file e)) (f : Files.Tree → Except Files.Fault α) : Throws P (ask f : Run σ α) := by
  intro s e he
  cases hf : f s.files with
  | ok a => simp [ask_run_of_ok hf] at he
  | error fault =>
    rw [ask_run_of_error hf] at he
    exact Except.error.inj he ▸ h fault

/-- What is done with the outcome of a part may rely on what the part fails with. -/
theorem throws_outcome_bind {β : Type} {Q : Failure → Prop} {part : Run σ α} {f : Except Failure α → Run σ β}
    (hpart : Throws Q part) (hok : ∀ a, Throws P (f (.ok a))) (herror : ∀ e, Q e → Throws P (f (.error e))) :
    Throws P (outcome part >>= f) := by
  intro s e he
  rw [outcome_bind_run] at he
  rcases hx : (part s).1 with cause | a
  · rw [hx] at he
    exact herror cause (hpart s cause hx) _ e he
  · rw [hx] at he
    exact hok a _ e he

end Run

variable [Time.Seconds σ]

/-! ### Scenes in which time goes forward -/

/-- No reply takes less than no time. -/
def Judge.Service.Forward (service : Judge.Service σ) : Prop := service.Only fun turn => le zero turn.takes = true

/-- Neither the process itself nor the wait for its streams takes less than no time. -/
structure Analyzer.Course.Forward (c : Analyzer.Course σ) : Prop where
  takes : le zero c.takes = true
  lingers : ∀ seconds ∈ c.lingers, le zero seconds = true

/-- Neither the analyzer nor a reply of the judge's service takes less than no time. -/
structure Scene.Forward (s : Scene σ) : Prop where
  course : s.course.Forward
  service : s.service.Forward

/-! ### Going on -/

/-- How a scene may go on: the host and the course stay, and so does what the service answers by; the files change as
`files` has it,
everything that is done is `allowed`, and the clock goes forward where time is ordered and the premise holds. -/
structure Scene.Onward (premise : Prop) (files : Files.Tree → Files.Tree → Prop) (allowed : Event σ → Prop)
    (s t : Scene σ) : Prop where
  host : t.host = s.host
  course : t.course = s.course
  respond : t.service.respond = s.service.respond
  files : files s.files t.files
  trace : ∃ later, t.trace = s.trace ++ later ∧ ∀ e ∈ later, allowed e
  time : Ordered σ → premise → s.Forward → le s.timeline.now t.timeline.now = true

/-- Whatever is done to the files. -/
abbrev Files.Tree.Anyhow (_ _ : Files.Tree) : Prop := True

instance : IsPreorder Files.Tree Files.Tree.Anyhow where
  refl _ := trivial
  trans _ _ _ _ _ := trivial

variable {premise : Prop} {files : Files.Tree → Files.Tree → Prop} {allowed : Event σ → Prop} {s t u : Scene σ}

namespace Scene

theorem Onward.only (h : Onward premise files allowed s t) {P : Judge.Turn σ → Prop} (hs : s.service.Only P) :
    t.service.Only P := by
  rw [Judge.Service.Only, h.respond]
  exact hs

theorem Onward.forward (h : Onward premise files allowed s t) (hs : s.Forward) : t.Forward :=
  ⟨h.course ▸ hs.course, h.only hs.service⟩

theorem Onward.mono {premise' : Prop} {files' : Files.Tree → Files.Tree → Prop} {allowed' : Event σ → Prop}
    (h : Onward premise files allowed s t) (hpremise : Ordered σ → premise' → s.Forward → premise)
    (hfiles : files s.files t.files → files' s.files t.files) (hallowed : ∀ e, allowed e → allowed' e) :
    Onward premise' files' allowed' s t := by
  obtain ⟨later, htrace, hlater⟩ := h.trace
  exact ⟨h.host, h.course, h.respond, hfiles h.files, ⟨later, htrace, fun e he => hallowed e (hlater e he)⟩,
    fun ho hp hs => h.time ho (hpremise ho hp hs) hs⟩

instance [IsPreorder Files.Tree files] : IsPreorder (Scene σ) (Onward premise files allowed) where
  refl s := ⟨rfl, rfl, rfl, Std.Refl.refl _, ⟨[], (List.append_nil _).symm, fun _ he => absurd he (List.not_mem_nil)⟩,
    fun ho _ _ => ho.le_refl _⟩
  trans s t u h h' := by
    obtain ⟨later, htrace, hlater⟩ := h.trace
    obtain ⟨last, htrace', hlast⟩ := h'.trace
    refine ⟨h'.host.trans h.host, h'.course.trans h.course, h'.respond.trans h.respond,
      IsTrans.trans _ _ _ h.files h'.files, ⟨later ++ last, ?_, ?_⟩, ?_⟩
    · rw [htrace', htrace, List.append_assoc]
    · intro e he
      exact (List.mem_append.1 he).elim (hlater e) (hlast e)
    · exact fun ho hp hs => ho.le_trans (h.time ho hp hs) (h'.time ho hp (h.forward hs))

theorem onward_files {u : Files.Tree} (h : files s.files u) : Onward premise files allowed s { s with files := u } :=
  ⟨rfl, rfl, rfl, h, ⟨[], (List.append_nil _).symm, fun _ he => absurd he (List.not_mem_nil)⟩, fun ho _ _ => ho.le_refl _⟩

variable [Std.Refl files]

theorem onward_timeline {timeline : Time.Timeline σ}
    (h : Ordered σ → premise → le s.timeline.now timeline.now = true) :
    Onward premise files allowed s { s with timeline } :=
  ⟨rfl, rfl, rfl, Std.Refl.refl _, ⟨[], (List.append_nil _).symm, fun _ he => absurd he (List.not_mem_nil)⟩,
    fun ho hp _ => h ho hp⟩

theorem onward_trace {e : Event σ} (h : allowed e) :
    Onward premise files allowed s { s with trace := s.trace ++ [e] } :=
  ⟨rfl, rfl, rfl, Std.Refl.refl _, ⟨[e], rfl, fun _ he => List.mem_singleton.1 he ▸ h⟩, fun ho _ _ => ho.le_refl _⟩

theorem onward_noting (h : ∀ level message, allowed (.logged level message)) (lines : List (Level × Text.Wide)) :
    Onward premise files allowed s (s.noting lines) where
  host := rfl
  course := rfl
  respond := rfl
  files := Std.Refl.refl _
  trace := ⟨_, rfl, fun e he => by
    obtain ⟨line, -, rfl⟩ := List.mem_map.1 he
    exact h _ _⟩
  time ho _ _ := ho.le_refl _

end Scene

namespace Run

open Scene (Onward)

variable [IsPreorder Files.Tree files]

theorem respects_record {e : Event σ} (h : allowed e) : Respects (Onward premise files allowed) (record e) :=
  fun _ => Scene.onward_trace h

theorem respects_log (h : ∀ level message, allowed (.logged level message)) (level : Level) (message : Text.Wide) :
    Respects (Onward premise files allowed) (log level message) := respects_record (h level message)

theorem respects_newToken (deadline : Option σ) (parent : Option Time.TokenId) :
    Respects (Onward premise files allowed) (newToken deadline parent) :=
  fun _ => Scene.onward_timeline fun ho _ => ho.le_refl _

theorem respects_isCancelled (id : Time.TokenId) : Respects (Onward premise files allowed) (isCancelled id) := by
  refine fun s => Scene.onward_timeline fun ho _ => ?_
  have hnow : (s.timeline.isCancelled id).2.now = s.timeline.now := Time.Timeline.now_isCancelled _ id
  exact hnow ▸ ho.le_refl _

theorem respects_heed (token : Option Time.TokenId) : Respects (Onward premise files allowed) (heed token) := by
  cases token with
  | none => exact Act.respects_pure ()
  | some id =>
    intro s
    rw [heed_run]
    exact respects_isCancelled id s

theorem respects_advance {seconds : σ} (h : Ordered σ → premise → le zero seconds = true) :
    Respects (Onward premise files allowed) (advance seconds) :=
  fun s => Scene.onward_timeline fun ho hp => Time.Timeline.le_now_advance ho s.timeline (h ho hp)

/-- A pause on a token goes forward, however it ends. -/
theorem respects_pause (h : ∀ delay token instant, allowed (.paused delay token instant)) (token : Option Time.TokenId)
    (delay : σ) : Respects (Onward premise files allowed) (pause token delay) := by
  intro s
  have hpaused : Onward premise files allowed s
      { s with trace := s.trace ++ [.paused delay token s.timeline.now] } := Scene.onward_trace (h _ _ _)
  cases token with
  | none => exact hpaused
  | some id =>
    rw [pause_run]
    cases hw : s.timeline.wait s.patience id delay with
    | none => exact hpaused
    | some r => exact IsTrans.trans _ _ _ hpaused (Scene.onward_timeline fun ho _ => Time.Timeline.le_now_wait ho hw)

end Run
end Adjudication
