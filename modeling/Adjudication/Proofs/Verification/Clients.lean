import Adjudication.Proofs.Verification.Report

/-!
The clients of the judge's service. What is done with them is read off the trace, where each is opened and closed under its
number. A verification does nothing of the kind; the client that is opened for one is closed after it, whatever it comes to,
and a client that is given is left alone.
-/

namespace Adjudication

open Act (Respects)
open Files.Tree (Anyhow)
open Scene (Freely)
open Time (TokenId)

variable {σ α : Type} {s t u : Scene σ} {used : List Use}

/-! ### What is done with clients -/

/-- What is done with clients on the way from a scene to a later one, in order. -/
def Scene.Uses (s t : Scene σ) (used : List Use) : Prop :=
  ∃ later, t.trace = s.trace ++ later ∧ later.filterMap Event.use? = used

namespace Scene

theorem Uses.append {last : List Use} (h : s.Uses t used) (h' : t.Uses u last) : s.Uses u (used ++ last) := by
  obtain ⟨events, htrace, rfl⟩ := h
  obtain ⟨more, htrace', rfl⟩ := h'
  exact ⟨events ++ more, by rw [htrace', htrace, List.append_assoc], List.filterMap_append⟩

theorem uses_refl (s : Scene σ) : s.Uses s [] := ⟨[], (List.append_nil _).symm, rfl⟩

end Scene

section Quiet

variable [Time.Seconds σ] {premise : Prop} {files : Files.Tree → Files.Tree → Prop}

/-- On the way to a scene to which it goes on freely, nothing is done with clients. -/
theorem Scene.Onward.uses (h : Freely premise files s t) : s.Uses t [] := by
  obtain ⟨later, htrace, hlater⟩ := h.trace
  exact ⟨later, htrace, List.filterMap_eq_nil_iff.2 hlater⟩

namespace Judge

omit [Time.Seconds σ] in
theorem uses_close (config : JudgeConfig σ) (id levels : Nat) (s : Scene σ) :
    s.Uses ((Client.mk config (.service id) levels).close s).2 [.closing id] := ⟨[.closed id], rfl, rfl⟩

/-- A client is closed after a part that does nothing with clients, whatever the part comes to. -/
theorem uses_andThen_close {part : Run σ α} (h : Respects (Freely premise files) part) (config : JudgeConfig σ)
    (id levels : Nat) (s : Scene σ) : s.Uses (Run.andThen part (Client.mk config (.service id) levels).close s).2
    [.closing id] := by
  rcases hpart : part s with ⟨x, t⟩
  have hquiet := (h s).uses
  rw [hpart] at hquiet
  rw [Run.andThen_of_ok hpart (close_run _ t)]
  exact hquiet.append (uses_close config id levels t)

end Judge

/-! ### Verifications -/

theorem Run.respects_moment {allowed : Event σ → Prop} [IsPreorder Files.Tree files] :
    Respects (Scene.Onward premise files allowed) (Run.moment : Run σ Time.Timestamp) :=
  Act.respects_get_bind fun s => respects_ofExcept Failure.noInstant s.moment s

namespace Verifier

/-- With its slot around it a run does nothing with clients. -/
theorem respects_staged (v : Verifier σ) (source : Source) (token : TokenId) (runId : Option String) :
    Respects (Freely True Anyhow) (v.staged source token runId) := by
  have hwithin : Respects (Freely True Anyhow) (Staging.within v.root source runId (v.inSlot source token)) := by
    intro s
    have hstaged : Freely True Anyhow s (v.stage source runId s).2 := onward_stage (fun _ _ => rfl) v source runId s
    rcases hstage : v.stage source runId s with ⟨e | slot, t⟩
    · rw [hstage] at hstaged
      obtain ⟨name, names, hname⟩ := Staging.runName_run runId s
      rw [stage, Act.bind_of_ok hname] at hstage
      rwa [Staging.within, Act.bind_of_ok hname, Act.bind_of_error hstage]
    · rw [hstage] at hstaged
      obtain ⟨r, es, files, hwithin, -⟩ := Staging.within_run (v.inSlot source token) hstage
      have hinside : Freely True Anyhow t (v.inSlot source token slot t).2 :=
        (onward_inSlot v source token slot t).mono (fun _ h _ => h) (fun _ => trivial) fun _ h => h
      rw [hwithin]
      exact IsTrans.trans _ _ _ (IsTrans.trans _ _ _ hstaged hinside) (Staging.onward_cleaned (fun _ _ => rfl) _ files es)
  refine (Run.respects_outcome hwithin).bind fun r => ?_
  cases r with
  | ok r => exact Act.respects_pure r
  | error e =>
    cases e with
    | staging cause => exact (Run.respects_log (fun _ _ => rfl) _ _).bind fun _ => Act.respects_pure _
    | _ => exact Act.respects_throw _

/-- A verification does nothing with clients, however it ends. -/
theorem respects_verify (v : Verifier σ) (source : Source) (given : Option TokenId) (runId : Option String) :
    Respects (Freely True Anyhow) (v.verify source given runId) := by
  have hlog : ∀ level message, Respects (Freely True Anyhow) (Run.log level message : Run σ Unit) :=
    Run.respects_log fun _ _ => rfl
  -- Whichever token the run has, the rest is the same.
  cases given
  case' some id => refine (Act.respects_pure id).bind fun token => ?_
  case' none => refine (Run.respects_newToken none none).bind fun token => ?_
  all_goals
    refine Run.respects_moment.bind fun startedAt => (hlog _ _).bind fun _ =>
      (respects_staged v source token runId).bind fun r => ?_
    exact Run.respects_moment.bind fun finishedAt => (hlog _ _).bind fun _ => Act.respects_pure _

end Verifier

/-- Where no client is given and there is a key, one client is opened and closed again, whatever the verification comes to. A
client that is given is left alone. -/
theorem uses_verify (code : Text.Wide) (identifier : String) (settings : Settings σ) (given : Option (Judge.Client σ))
    (token : Option TokenId) (s : Scene σ) : s.Uses (verify code identifier settings given token s).2
      (if given.isNone && settings.judge.hasKey then [.opening s.clients, .closing s.clients] else []) := by
  have hrun : ∀ c : Judge.Client σ, Respects (Freely True Anyhow) (do
      let source ← Run.ofExcept Failure.ofSource (Source.ofText code identifier)
      (Verifier.ofSettings settings c).verify source token none : Run σ Report) := fun c =>
    (Run.respects_ofExcept _ _).bind fun source => Verifier.respects_verify _ source token none
  cases given with
  | some c => exact (hrun c s).uses
  | none =>
    cases hkey : settings.judge.hasKey with
    | false =>
      rw [verify.eq_def]
      dsimp only
      rw [Act.bind_of_error (Judge.ofConfig_run_of_keyless hkey s)]
      exact s.uses_refl
    | true =>
      obtain ⟨options, hopen⟩ := Judge.ofConfig_run_of_key hkey s
      have hopened : s.Uses { s with clients := s.clients + 1, trace := s.trace ++ [.opened s.clients options] }
          [.opening s.clients] := ⟨[_], rfl, rfl⟩
      rw [verify.eq_def]
      dsimp only
      rw [Act.bind_of_ok hopen]
      exact hopened.append (Judge.uses_andThen_close (hrun _) _ _ _ _)

end Quiet
end Adjudication
