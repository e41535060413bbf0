import Adjudication.Proofs.Judge.Task
import Adjudication.Proofs.Onward

/-!
What judging does to the scene, from what its parts do: looks at a token, attempts with the look that comes before them,
pauses, and lines in the log. A relation of scenes that these respect is respected by judging a finding, by judging one
finding after the other, and by a pool in which findings are judged, if what a pool does when it stops respects it too.
-/

namespace Adjudication.Judge

open Act (Respects)
open Time (TokenId)

variable {σ : Type} [Time.Seconds σ] {R : Scene σ → Scene σ → Prop} {c : Client σ}

/-- An attempt respects what its look at the token respects and, where that does not find it cancelled, its request. -/
theorem respects_ask_of_sent {id : TokenId} {request : Request} {a : Nat} (hheed : Respects R (Run.heed (some id)))
    (hsent : ∀ s : Scene σ, (s.timeline.isCancelled id).1 = false → R s (c.asks request (some id) s)) :
    Respects R (ask c request (some id) a) := by
  intro s
  have hlook := hheed s
  rcases hh : Run.heed (some id) s with ⟨e | ⟨⟩, t⟩
  · rw [hh] at hlook
    rw [ask_of_heed_error request a hh]
    exact hlook
  · obtain ⟨hclear, rfl⟩ := Run.heed_eq_ok hh
    rw [ask_of_heed_ok request a hh]
    exact hsent t hclear

/-- The parts that judging on a token is made of respect a relation. -/
structure Parts (R : Scene σ → Scene σ → Prop) (c : Client σ) (token : Option TokenId) : Prop where
  heed : Respects R (Run.heed token)
  ask : ∀ request attempt, Respects R (ask c request token attempt)
  log : ∀ level message, Respects R (Run.log level message)
  pause : ∀ delay, Respects R (Run.pause token delay)

variable [IsPreorder (Scene σ) R]

theorem Parts.attempts {token : Option TokenId} (h : Parts R c token) (f : Finding) (code : String) :
    (attempts c f code token).Respectful R where
  call a := h.ask _ a
  backoff a n := by
    rw [Judge.attempts]
    dsimp only
    split
    · exact Act.respects_pure _
    · exact Act.respects_throw _
  note a e d := h.log _ _
  pause d := h.pause d

theorem Parts.judge {token : Option TokenId} (h : Parts R c token) (f : Finding) (code : String) :
    Respects R (judge c f code token) :=
  ((h.attempts f code).run.adapt _).bind fun _ => Run.respects_ofExcept _ _

omit [Time.Seconds σ] in
theorem respects_settle (hlog : ∀ level message, Respects R (Run.log level message)) (f : Finding)
    (r : Except Failure Judgment) : Respects R (settle f r : Run σ Outcome) := by
  cases r with
  | ok j => exact Act.respects_pure _
  | error e =>
    cases e with
    | judging e =>
      exact (hlog _ _).bind fun _ => (Run.respects_ofExcept _ _).bind fun _ => Act.respects_pure _
    | _ => exact Act.respects_throw _

variable {token : TokenId}

theorem Parts.judgeOne (h : Parts R c (some token)) (code : String) (f : Finding) :
    Respects R (judgeOne c code token f) :=
  h.heed.bind fun _ => (Run.respects_outcome (h.judge f code)).bind fun r => respects_settle h.log f r

/-- A step of a task respects what the parts of judging respect. -/
theorem Parts.step (h : Parts R c (some token)) (code : String) (task : Task σ) (s : Scene σ) :
    R s (Task.step c code token task s).2 := by
  obtain ⟨f, progress⟩ := task
  have hsettled : ∀ (r : Except Failure Judgment) {t : Scene σ}, R s t → R s (settle f r t).2 := fun r t ht =>
    IsTrans.trans _ _ _ ht (respects_settle h.log f r t)
  have hheeded : ∀ {r t}, Run.heed (some token) s = (r, t) → R s t := fun hheed => by
    have hlook := h.heed s
    rwa [hheed] at hlook
  have hphase : ∀ {p r t}, (Judge.attempts c f code (some token)).step p s = (r, t) → R s t := fun {p _ _} hstep => by
    have hattempt := (h.attempts f code).step p s
    rwa [hstep] at hattempt
  have hstepped := Task.stepped c code token f progress s
  generalize Task.step c code token ⟨f, progress⟩ s = x at hstepped ⊢
  cases hstepped with
  | cancelled hheed => exact hheeded hheed
  | refused hheed _ => exact hsettled _ (hheeded hheed)
  | begun hheed _ => exact hheeded hheed
  | received => exact hsettled _ (Std.Refl.refl s)
  | stopped hstep => exact hsettled _ (hphase hstep)
  | moved _ hstep => exact hphase hstep
  | stayed => exact Std.Refl.refl s

/-- One finding after the other. -/
theorem Parts.mapM (h : Parts R c (some token)) (code : String) (fs : List Finding) :
    Respects R (fs.mapM (Judge.judgeOne c code token)) := Act.respects_mapM (h.judgeOne code) fs

/-- Findings side by side, taken in any order and stopped at any moments. -/
theorem Parts.races (h : Parts R c (some token)) (hstop : ∀ s, R s (s.cancel token)) {code : String}
    {x y : List (Task σ) × Scene σ} (hxy : (poolWork c code token).Races x y) : R x.2 y.2 :=
  hxy.respects (h.step code) hstop

end Adjudication.Judge
