import Adjudication.Proofs.Frame
import Adjudication.Proofs.Judge.Sound

/-!
What judging fails with. A failure of judging stays with its finding, and an attempt at fault is made again; so of all
failures it is only those that the program does not answer for that leave the judging, and cancellations.
-/

namespace Adjudication

/-- A failure that leaves a verification. All others are answered for: those of the settings and of the key are told to the
user, those of staging, of the analyzer and of its results end in a report, those of judging stay with their findings, and
an attempt at fault is made again. -/
def Failure.isLeaving : Failure → Bool
  | .config _ | .staging _ | .analyzer _ | .results _ | .judging _ | .attempt _ | .noKey => false
  | _ => true

theorem Failure.not_isStaging_of_isLeaving {e : Failure} (h : e.isLeaving = true) : e.isStaging = false := by
  cases e with
  | staging cause => simp [isLeaving] at h
  | _ => rfl

theorem Failure.isLeaving_of_isOfReply {e : Failure} (h : e.isOfReply = true) (hfault : Judge.isAttemptFault e = false) :
    e.isLeaving = true := by
  cases e with
  | crash message => rfl
  | excess cause => rfl
  | attempt cause => simp [Judge.isAttemptFault] at hfault
  | _ => simp [isOfReply] at h

namespace Judge

open Time (TokenId)

variable {σ : Type} [Time.Seconds σ] {c : Client σ} {code : String} {token : TokenId} {f : Finding} {s t : Scene σ}

/-- What leaves the judging of a finding is no failure of judging: an outcome stands for that. -/
theorem isLeaving_of_outcomeOf {r : Except Failure Judgment} {e : Failure} (h : outcomeOf f r = .error e)
    (hr : ∀ cause, r = .error cause → (∃ failure, cause = .judging failure) ∨ cause.isLeaving = true) :
    e.isLeaving = true := by
  cases r with
  | ok j => cases h
  | error cause =>
    rcases hr cause rfl with ⟨failure, rfl⟩ | hcause
    · rw [outcomeOf] at h
      cases hrecord : recordOf failure with
      | ok record => simp [hrecord, Except.map] at h
      | error reason =>
        rw [hrecord] at h
        obtain rfl : reason = e := Except.error.inj h
        rw [recordOf] at hrecord
        split at hrecord
        · cases hrecord
        · obtain rfl := Except.error.inj hrecord
          rfl
    · cases cause with
      | judging failure => simp [Failure.isLeaving] at hcause
      | _ =>
        obtain rfl := Except.error.inj h
        exact hcause

/-- A task that ends with a failure in a step ends with one that leaves the judging. -/
theorem isLeaving_of_step {task : Task σ} {e : Failure} (hwithin : task.Within c.config.maxAttempts)
    (hopen : task.result? = none) (h : (Task.step c code token task s).1.result? = some (.error e)) : e.isLeaving = true := by
  obtain ⟨f, progress⟩ := task
  have hstepped := Task.stepped c code token f progress s
  generalize Task.step c code token ⟨f, progress⟩ s = x at hstepped h
  cases hstepped with
  | cancelled hheed =>
    obtain rfl := heed_eq_error hheed
    obtain rfl := Except.error.inj (Option.some.inj h)
    rfl
  | refused _ _ =>
    refine isLeaving_of_outcomeOf (Option.some.inj h) fun cause hcause => .inr ?_
    obtain rfl := Except.error.inj hcause
    rfl
  | begun _ _ => cases h
  | received =>
    refine isLeaving_of_outcomeOf (Option.some.inj h) fun cause hcause => .inl ?_
    rw [judgmentOf] at hcause
    split at hcause
    · cases hcause
    · exact ⟨_, (Except.error.inj hcause).symm⟩
  | stopped hstep =>
    refine isLeaving_of_outcomeOf (Option.some.inj h) fun cause hcause => ?_
    obtain rfl := Except.error.inj hcause
    rcases failureOfStop_of_step (P := fun e => e.isLeaving = true) rfl rfl rfl
      (fun e => Failure.isLeaving_of_isOfReply) hwithin hstep with ⟨last, hlast, -⟩ | hleaving
    · exact .inl ⟨_, hlast⟩
    · exact .inr hleaving
  | moved _ _ => cases h
  | stayed => simp [Task.result?] at hopen

/-- In whatever order findings are judged, a failure that one of them comes to leaves the judging. -/
theorem permits_leaving (c : Client σ) (code : String) (token : TokenId) (fs : List Finding) (s : Scene σ) :
    (poolWork c code token).Permits (fs.map Task.ofFinding) s fun _ r => ∀ e, r = .error e → e.isLeaving = true :=
  permits_of_step (J := fun _ task => task.Within c.config.maxAttempts ∧
      ∀ e, task.result? = some (.error e) → e.isLeaving = true)
    (fun _ _ _ => ⟨trivial, fun e he => by cases he⟩)
    (fun _ task s hopen hJ => ⟨(dwindles_poolWork c code token).keeps task s hJ.1 hopen, fun e => isLeaving_of_step hJ.1 hopen⟩)
    (fun _ _ _ hJ e he => hJ.2 e (congrArg some he))

/-- Judging fails only with failures that leave it. -/
theorem throws_judgeAll (c : Client σ) (workers : Nat) (code : String) (token : TokenId) (fs : List Finding) :
    Act.Throws (fun e => e.isLeaving = true) (judgeAll c workers code token fs) := by
  intro s e he
  have hpermitted := judgeAll_of_permits (fun token s => permits_leaving c code token fs s) workers token s
  rw [he] at hpermitted
  obtain ⟨_, hleaving⟩ := hpermitted
  exact hleaving e rfl

end Judge
end Adjudication
