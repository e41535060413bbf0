import Adjudication.Judge.Task
import Adjudication.Proofs.Judge.Client
import Mathlib.Data.List.Forall2

/-!
The outcome of a finding. What judging a finding comes to settles the finding if it is a judgment, or a failure of
judging whose response is text or none; the outcome then tells just that. Anything else goes on as a failure.
-/

namespace Adjudication

/-- An outcome tells what judging a finding has come to: the judgment, or the record of the failure. -/
def Outcome.Tells (o : Outcome) (f : Finding) : Except Failure Judgment → Prop
  | .ok j => o = ⟨f, .judged j⟩
  | .error (.judging e) => ∃ raw : Option Text.Wide, e.rawResponse = .ofOption .ofWide raw ∧
      o = ⟨f, .failed ⟨e.kind, e.message, e.attempts, raw⟩⟩
  | .error _ => False

namespace Judge

variable {σ : Type} {f : Finding} {r : Except Failure Judgment} {e : JudgeError}

/-- A judgment, or a failure of judging that keeps a text or nothing. -/
def Settles : Except Failure Judgment → Prop
  | .ok _ => True
  | .error (.judging e) => ∃ raw : Option Text.Wide, e.rawResponse = .ofOption .ofWide raw
  | .error _ => False

/-- Whether a response is a text or null. -/
def isTextOrNull : Json → Bool
  | .null | .str _ | .torn _ => true
  | _ => false

theorem isTextOrNull_iff (d : Json) : isTextOrNull d = true ↔ ∃ raw : Option Text.Wide, d = .ofOption .ofWide raw := by
  constructor
  · intro h
    cases d with
    | null => exact ⟨none, rfl⟩
    | str s => exact ⟨some (.text s), rfl⟩
    | torn t => exact ⟨some (.torn t), rfl⟩
    | _ => simp [isTextOrNull] at h
  · rintro ⟨_ | _ | _, rfl⟩ <;> rfl

def settles : Except Failure Judgment → Bool
  | .ok _ => true
  | .error (.judging e) => isTextOrNull e.rawResponse
  | .error _ => false

theorem settles_iff (r : Except Failure Judgment) : settles r = true ↔ Settles r := by
  cases r with
  | ok j => simp [settles, Settles]
  | error e =>
    cases e with
    | judging e => exact isTextOrNull_iff e.rawResponse
    | _ => simp [settles, Settles]

instance (r : Except Failure Judgment) : Decidable (Settles r) := decidable_of_iff _ (settles_iff r)

/-- The outcome of a finding, given what judging it comes to. -/
def outcomeOf (f : Finding) : Except Failure Judgment → Except Failure Outcome
  | .ok j => .ok ⟨f, .judged j⟩
  | .error (.judging e) => (recordOf e).map fun r => ⟨f, .failed r⟩
  | .error e => .error e

theorem recordOf_of_text {raw : Option Text.Wide} (h : e.rawResponse = .ofOption .ofWide raw) :
    recordOf e = .ok ⟨e.kind, e.message, e.attempts, raw⟩ := by
  rw [recordOf, h]
  obtain _ | _ | _ := raw <;> rfl

/-- What settles a finding is told by its outcome. -/
theorem outcomeOf_of_settles (f : Finding) (h : Settles r) : ∃ o, outcomeOf f r = .ok o ∧ o.Tells f r := by
  match r, h with
  | .ok j, _ => exact ⟨_, rfl, rfl⟩
  | .error (.judging e), ⟨raw, hraw⟩ =>
    refine ⟨_, ?_, raw, hraw, rfl⟩
    rw [outcomeOf, recordOf_of_text hraw]
    rfl

/-- Findings that are all settled have their outcomes in their order. -/
theorem mapM_outcomeOf_of_settles {res : Finding → Except Failure Judgment} : ∀ {fs : List Finding},
    (∀ f ∈ fs, Settles (res f)) → ∃ os, (fs.mapM fun f => outcomeOf f (res f)) = .ok os ∧
      List.Forall₂ (fun f o => Outcome.Tells o f (res f)) fs os
  | [], _ => ⟨[], rfl, .nil⟩
  | f :: fs, h => by
    obtain ⟨o, ho, htells⟩ := outcomeOf_of_settles f (h f (.head _))
    obtain ⟨os, hos, hall⟩ := mapM_outcomeOf_of_settles fun f hf => h f (.tail _ hf)
    refine ⟨o :: os, ?_, .cons htells hall⟩
    rw [List.mapM_cons, ho, hos]
    rfl

/-- The first finding that comes to another failure than one of judging decides. -/
theorem mapM_outcomeOf_of_error {res : Finding → Except Failure Judgment} {e : Failure}
    (he : ∀ failure, e ≠ .judging failure) : ∀ {fs : List Finding} {i : Nat} (hi : i < fs.length),
    (∀ j (hj : j < i), Settles (res fs[j])) → res fs[i] = .error e →
      (fs.mapM fun f => outcomeOf f (res f)) = .error e
  | [], _, hi, _, _ => absurd hi (Nat.not_lt_zero _)
  | f :: fs, 0, _, _, hres => by
    have hf : outcomeOf f (res f) = .error e := by
      rw [show res f = .error e from hres]
      cases e with
      | judging failure => exact absurd rfl (he failure)
      | _ => rfl
    rw [List.mapM_cons, hf]
    rfl
  | f :: fs, i + 1, hi, h, hres => by
    obtain ⟨o, ho, -⟩ : ∃ o, outcomeOf f (res f) = .ok o ∧ o.Tells f (res f) :=
      outcomeOf_of_settles f (h 0 (Nat.succ_pos _))
    have hrest := mapM_outcomeOf_of_error he (Nat.lt_of_succ_lt_succ hi)
      (fun j hj => h (j + 1) (Nat.succ_lt_succ hj)) hres
    rw [List.mapM_cons, ho, hrest]
    rfl

theorem settle_run (f : Finding) (r : Except Failure Judgment) (s : Scene σ) :
    (settle f r s).1 = outcomeOf f r := by
  cases r with
  | ok j => rfl
  | error e =>
    cases e with
    | judging e =>
      rw [settle, Act.bind_of_ok (Run.log_run _ _ s), Act.bind_run, Run.ofExcept_run, outcomeOf]
      cases recordOf e <;> rfl
    | _ => rfl

/-- Settling a finding changes nothing but the log. -/
theorem settle_state (f : Finding) (r : Except Failure Judgment) (s : Scene σ) :
    ∃ lines, (settle f r s).2 = s.noting lines := by
  cases r with
  | ok j => exact ⟨[], (Scene.noting_nil s).symm⟩
  | error e =>
    cases e with
    | judging e =>
      refine ⟨[(.warning, .text ("Judging " ++ f.checkId ++ " failed: ") ++ e.text)], ?_⟩
      rw [settle, Act.bind_of_ok (Run.log_run _ _ s), Act.bind_run, Run.ofExcept_run]
      cases recordOf e <;> rfl
    | _ => exact ⟨[], (Scene.noting_nil s).symm⟩

variable [Time.Seconds σ] {c : Client σ} {code : String} {token : Time.TokenId} {s t : Scene σ}

theorem judgeOne_of_heed_error {e : Failure} (f : Finding) (h : Run.heed (some token) s = (.error e, t)) :
    judgeOne c code token f s = (.error e, t) := Act.bind_of_error h

/-- A finding whose token is not cancelled is judged, and what comes of that is settled. -/
theorem judgeOne_of_heed_ok (f : Finding) (h : Run.heed (some token) s = (.ok (), t)) :
    judgeOne c code token f s = settle f (judge c f code (some token) t).1 (judge c f code (some token) t).2 := by
  rw [judgeOne, Act.bind_of_ok h, Run.outcome_bind_run]

end Judge
end Adjudication
