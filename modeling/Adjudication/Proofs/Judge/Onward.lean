import Adjudication.Proofs.Judge.Frame

/-!
How scenes go on while findings are judged, one after the other or side by side: nothing is done to the files, no client is
opened or closed, and the clock goes forward.
-/

namespace Adjudication

open Act (Respects)
open Time (TokenId)

/-- What is done with a client of the judge's service. -/
inductive Use where
  | opening (client : Nat)
  | closing (client : Nat)
  deriving DecidableEq, Repr

/-- The use of a client that an event is, if it is one. -/
def Event.use? {σ : Type} : Event σ → Option Use
  | .opened client _ => some (.opening client)
  | .closed client => some (.closing client)
  | _ => none

variable {σ : Type} [Time.Seconds σ] {premise : Prop} {files : Files.Tree → Files.Tree → Prop}
  [IsPreorder Files.Tree files]

namespace Scene

variable {s : Scene σ}

/-- A scene goes on however something is done in it, as long as no client is opened or closed. -/
abbrev Freely (premise : Prop) (files : Files.Tree → Files.Tree → Prop) : Scene σ → Scene σ → Prop :=
  Onward premise files fun e => e.use? = none

theorem freely_cancel (id : TokenId) : Freely premise files s (s.cancel id) := by
  have hflag : Freely premise files s { s with timeline := s.timeline.cancel id } :=
    onward_timeline fun ho _ => ho.le_refl s.timeline.now
  exact IsTrans.trans _ _ _ hflag (onward_trace rfl)

theorem freely_asked (request : Judge.Request) (timeout : σ) : Freely premise files s (s.asked request timeout) where
  course := rfl
  respond := rfl
  host := rfl
  files := Std.Refl.refl _
  trace := ⟨[_], rfl, fun _ he => List.mem_singleton.1 he ▸ rfl⟩
  time ho _ hs := Time.Timeline.le_now_advance ho s.timeline (hs.service _ request)

theorem freely_taken (request : Judge.Request) (timeout : σ) : Freely premise files s (s.taken request timeout) := by
  have hasked : Freely premise files s (s.asked request timeout) := freely_asked request timeout
  rw [taken]
  split
  · rw [cancelCaller]
    split
    · exact IsTrans.trans _ _ _ hasked (freely_cancel _)
    · exact hasked
  · exact hasked

theorem freely_sent (request : Judge.Request) (timeout : σ) : Freely premise files s (s.sent request timeout) := by
  have htaken : Freely premise files s (s.taken request timeout) := freely_taken request timeout
  rw [sent, answered]
  split
  · exact IsTrans.trans _ _ _ htaken (onward_trace rfl)
  · exact htaken

end Scene

open Scene (Freely)

namespace Judge

theorem respects_send (request : Request) (timeout : σ) :
    Respects (Freely premise files) (send request timeout) := by
  intro s
  rw [send_run]
  exact Scene.freely_sent request timeout

theorem respects_ask (c : Client σ) (request : Request) (token : Option TokenId) (attempt : Nat) :
    Respects (Freely premise files) (ask c request token attempt) := by
  refine (Run.respects_heed token).bind fun _ => Respects.bind (fun s => ?_) fun timeout =>
    (respects_send request timeout).bind fun content => (Run.respects_ofExcept _ _).bind fun _ => Act.respects_pure _
  rw [requestTimeout_run]
  exact Std.Refl.refl s

theorem parts_freely (c : Client σ) (token : Option TokenId) : Parts (Freely premise files) c token where
  heed := Run.respects_heed token
  ask request a := respects_ask c request token a
  log _ _ := Run.respects_log (fun _ _ => rfl) _ _
  pause := Run.respects_pause (fun _ _ _ => rfl) token

theorem respects_judgeInPool (c : Client σ) (workers : Nat) (code : String) (token : TokenId) (fs : List Finding) :
    Respects (Freely premise files) (judgeInPool c workers code token fs) := by
  intro s
  have hchild : Freely premise files s (s.withChild token) := Scene.onward_timeline fun ho _ => ho.le_refl _
  rw [judgeInPool_run]
  exact IsTrans.trans _ _ _ hchild
    ((parts_freely c _).races (fun _ => Scene.freely_cancel _) (races_pooled c workers code token fs s))

/-- Judging all findings goes forward and leaves files and clients alone, however many workers there are. -/
theorem respects_judgeAll (c : Client σ) (workers : Nat) (code : String) (token : TokenId) (fs : List Finding) :
    Respects (Freely premise files) (judgeAll c workers code token fs) := by
  rw [judgeAll]
  split
  · exact (parts_freely c (some token)).mapM code fs
  · exact respects_judgeInPool c workers code token fs

end Judge
end Adjudication
