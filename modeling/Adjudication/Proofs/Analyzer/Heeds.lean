import Adjudication.Proofs.Analyzer.Execution
import Adjudication.Proofs.Judge.Heeds

/-!
Running the analyzer with an eye on a token. The process is started before the clock has moved since the last look at the
token. While it runs, it is looked at again and again: it is killed when its time is up, and when the token is cancelled;
only then is the cancellation told of. When it has ended by itself, no cancellation is overdue.
-/

namespace Adjudication.Analyzer

open Act (Respects Leaves Throws)
open Scene (Heeds Told)
open Time (TokenId Timeline)
open Time.Seconds (add sub le lt lesser tick)

variable {σ : Type} [Time.Seconds σ] {id : TokenId} {s t : Scene σ}

/-! ### Looking at the process -/

/-- What a look at the process comes to: it is killed since its time is up or the token is cancelled, or the clock moves on,
by a slice, or to the end of the process. -/
inductive Look (timeout deadline : σ) (id : TokenId) (patience : Nat) (left : σ) (s : Scene σ) :
    Except Failure Unit × Scene σ → Prop where
  | late : Look timeout deadline id patience left s (kill (.analyzer (.timedOut (Time.Seconds.brief timeout))) s)
  | calledOff (h : (s.timeline.isCancelled id).1 = true) : Look timeout deadline id patience left s
      (kill (.cancelled .analyzerRun) { s with timeline := (s.timeline.isCancelled id).2 })
  | goesOn (slice rest : σ) : Look timeout deadline id patience left s
      (await timeout deadline (some id) patience rest { s with timeline := s.timeline.advance slice })
  | ends : Look timeout deadline id patience left s (.ok (), { s with timeline := s.timeline.advance left })

theorem look_await (timeout deadline : σ) (id : TokenId) (patience : Nat) (left : σ) (s : Scene σ) :
    Look timeout deadline id patience left s (await timeout deadline (some id) (patience + 1) left s) := by
  rw [await, Act.bind_of_ok (Run.now_run s)]
  dsimp only
  split
  next => exact .late
  next =>
    rw [isCalledOff, Act.bind_of_ok (Run.isCancelled_run id s)]
    cases hc : (s.timeline.isCancelled id).1 with
    | true => exact .calledOff hc
    | false =>
      rw [Timeline.isCancelled_of_fst hc]
      dsimp only
      rw [if_neg (by simp)]
      split
      · exact .goesOn _ _
      · exact .ends

theorem heeds_kill (id : TokenId) (e : Failure) (s : Scene σ) : Heeds id s (kill e s).2 := by
  rw [kill_run]
  have htrace : Heeds id s { s with trace := s.trace ++ [.killed] } :=
    Scene.heeds_record ⟨rfl, fun _ => by rintro ⟨_, -, _, h⟩; cases h⟩
  have hdrained : Timeline.Watched id s.timeline (s.course.drained s.timeline) := by
    rw [Course.drained]
    split
    · exact Timeline.watched_advance s.timeline _
    · exact Std.Refl.refl _
  refine IsTrans.trans _ _ _ htrace (IsTrans.trans _ _ _ (Scene.silent_files _ (s.course.disturbed s.files)).heeds ?_)
  exact Scene.heeds_timeline hdrained

/-- While the process runs, nothing else is started, however long it takes. -/
theorem parts_heeds (id : TokenId) : Parts (Heeds id : Scene σ → Scene σ → Prop) False (some id) where
  kill := heeds_kill id
  calledOff := Run.heeds_isCancelled id
  advance seconds _ := Run.heeds_advance seconds

/-- The run is called off only if the token is cancelled. -/
theorem told_await (timeout deadline : σ) (id : TokenId) : ∀ (patience : Nat) (left : σ),
    Leaves (Told id) (await timeout deadline (some id) patience left)
  | 0, _ => leaves_told_throw rfl
  | patience + 1, left => by
    intro s e t h
    have hlook := look_await timeout deadline id patience left s
    rw [h] at hlook
    generalize hr : (Except.error e, t) = r at hlook
    cases hlook with
    | late =>
      obtain ⟨rfl, -⟩ := Act.error_eq_error.1 (hr.trans (kill_run _ _))
      rw [Course.afterKill]
      split <;> exact fun hc => by cases hc
    | calledOff hcalled =>
      obtain rfl : t = _ := congrArg Prod.snd hr
      have hkilled := heeds_kill id (.cancelled .analyzerRun) { s with timeline := (s.timeline.isCancelled id).2 }
      exact fun _ => hkilled.timeline.called (Timeline.called_of_isCancelled hcalled)
    | goesOn slice rest => exact told_await timeout deadline id patience rest _ e t hr.symm
    | ends => exact absurd (congrArg Prod.fst hr) (by simp)

/-- When the process has ended by itself, no cancellation is overdue. -/
theorem settled_await {timeout deadline : σ} : ∀ {patience : Nat} {left : σ} {s t : Scene σ},
    await timeout deadline (some id) patience left s = (.ok (), t) → t.timeline.Settled id
  | 0, _, _, _, h => absurd h Act.error_ne_ok
  | patience + 1, left, s, t, h => by
    have hlook := look_await timeout deadline id patience left s
    rw [h] at hlook
    generalize hr : (Except.ok (), t) = r at hlook
    cases hlook with
    | late => exact absurd (congrArg Prod.fst hr) (by simp [kill_run])
    | calledOff _ => exact absurd (congrArg Prod.fst hr) (by simp [kill_run])
    | goesOn slice rest => exact settled_await hr.symm
    | ends =>
      obtain rfl : t = _ := congrArg Prod.snd hr
      exact Timeline.settled_advance s.timeline left id

/-! ### The whole run -/

/-- The process is started where the token has just been found not to be cancelled. -/
theorem heeds_start (command : List String) (source output : Files.Path) (h : (s.timeline.isCancelled id).1 = false) :
    Heeds id s (start command source output s).2 := by
  rw [start]
  cases arguments command source output with
  | error f => exact Std.Refl.refl s
  | ok argv =>
    rw [Run.ofExcept_ok, Act.bind_of_ok (Act.pure_run argv s), Act.bind_of_ok (Run.log_run _ _ s)]
    refine IsTrans.trans _ _ _ (Scene.silent_noting s _).heeds (Act.rel_bind ?_ fun _ => Act.respects_pure argv)
    generalize hnoted : s.noting _ = u
    have hclear : (u.timeline.isCancelled id).1 = false := hnoted ▸ h
    have hlaunched : Heeds id u { u with trace := u.trace ++ [.launched argv source.parent.text u.timeline.now] } :=
      Scene.heeds_start hclear rfl fun _ => by rintro ⟨_, -, _, h⟩; cases h
    rwa [snd_launch]

theorem heeds_run (command : List String) (timeout : σ) (source output : Files.Path)
    (h : (s.timeline.isCancelled id).1 = false) : Heeds id s (run command timeout source output (some id) s).2 := by
  refine rel_run (heeds_start command source output h) (fun u => ?_) fun u files _ => (Scene.silent_files u files).heeds
  exact (parts_heeds id).await timeout _ u.patience (fun _ h => h.elim) u

/-- Running the analyzer tells of a cancellation only if the token is cancelled then. -/
theorem told_run (command : List String) (timeout : σ) (source output : Files.Path) (id : TokenId) :
    Leaves (Told id) (run command timeout source output (some id)) := by
  refine (throws_start (fun _ => rfl) (fun _ => rfl) (fun _ => rfl) command source output).told.bind fun argv =>
    Leaves.bind (Throws.told (Act.throws_of_ok fun s => ⟨s, rfl⟩)) fun s => (told_await _ _ id _ _).bind fun _ =>
      Leaves.bind (Throws.told (Act.throws_of_ok fun _ => ⟨(), rfl⟩)) fun _ =>
        Leaves.bind (Throws.told (Act.throws_of_ok fun t => ⟨t, rfl⟩)) fun t => Throws.told fun u e he => ?_
  rw [Run.ofExcept_run] at he
  exact throws_results (P := fun e => e.isCancelled = false) (fun _ => rfl) (fun _ => rfl) (fun _ => rfl) s.course output
    t.files e he

/-- When the analyzer has left a document, no cancellation is overdue. -/
theorem settled_run {command : List String} {timeout : σ} {source output : Files.Path} {document : Document}
    (h : run command timeout source output (some id) s = (.ok document, t)) : t.timeline.Settled id := by
  obtain ⟨u, v, -, hawait, -, htimeline⟩ := run_eq_ok h
  rw [htimeline]
  exact settled_await hawait

end Adjudication.Analyzer
