import Adjudication.Proofs.Decimal.Numerals
import Adjudication.Proofs.Judge.Sound
import Adjudication.Proofs.Schema.Checks

/-!
What the records of judging can hold. An attempt after the first one has been waited for, so its number is bounded not only by
what the configuration allows but by how many times the base length of the waits can be taken; and the confidence of a
judgment is a probability, as the verdict that it was read from had to have one.
-/

namespace Adjudication

/-- The greatest factor of a wait before an attempt. -/
def Backoff.greatest (policy : Backoff) (attempt attempts : Int) : Int :=
  match policy with
  | descending => attempts - 1
  | ascending => attempt - 1

namespace Judge

open Time (TokenId Multiple)

variable {σ : Type} [Time.Seconds σ] {c : Client σ} {f : Finding} {code : String} {token : TokenId} {s t : Scene σ} {a : Nat}

/-- An attempt that can have been made: it is allowed, and the waits before it could be told. -/
structure Made (c : Client σ) (a : Nat) : Prop where
  first : 1 ≤ a
  allowed : a ≤ c.config.maxAttempts
  waited : 1 < a →
    Multiple.reaches (c.config.backoff.greatest a c.config.maxAttempts) c.config.backoffBase = true

/-- After an attempt whose wait could be told there can be another one. -/
theorem Made.next (h : Made c a) (hmore : a ≠ c.config.maxAttempts)
    (hdelay : (c.config.backoff.delay? c.config.backoffBase a c.config.maxAttempts).isSome = true) : Made c (a + 1) := by
  refine ⟨by omega, Nat.lt_of_le_of_ne h.allowed hmore, fun _ => ?_⟩
  have hreach : Multiple.reaches (c.config.backoff.factor a c.config.maxAttempts) c.config.backoffBase = true := by
    rw [Backoff.delay?] at hdelay
    split at hdelay
    next hreach => exact hreach
    next => cases hdelay
  cases hpolicy : c.config.backoff with
  | ascending =>
    rw [hpolicy] at hreach
    have hfactor : Backoff.ascending.greatest ((a + 1 : Nat) : Int) c.config.maxAttempts = a := by
      simp only [Backoff.greatest]
      omega
    rwa [hfactor]
  | descending =>
    by_cases hfirst : a = 1
    · subst hfirst
      rwa [hpolicy] at hreach
    · have hwaited := h.waited (by have := h.first; omega)
      rwa [hpolicy] at hwaited

/-- What can be taken of a double is short, and so are the attempts that can have been made. -/
theorem Made.short {c : Client Float} (h : Made c a) : Decimal.Short a := by
  have hword : ∀ n < Decimal.digitLimit, 10 ^ n < 10 ^ Decimal.digitLimit := fun n hn => Nat.pow_lt_pow_right (by decide) hn
  rw [Decimal.short_iff]
  by_cases hfirst : a = 1
  · subst hfirst
    exact Nat.one_lt_pow (by decide) (by decide)
  · have hreach := h.waited (by have := h.first; omega)
    have hfactor : (c.config.backoff.greatest a c.config.maxAttempts).natAbs < 10 ^ 400 := by
      have hsome : (Decimal.ofInt? (c.config.backoff.greatest a c.config.maxAttempts)).isSome = true := hreach
      rw [Decimal.ofInt?] at hsome
      split at hsome
      · cases hsome
      next hdigits => exact (Nat.length_toDigits_le_iff (by decide) (by decide)).1 (Nat.not_lt.1 hdigits)
    have hallowed := h.allowed
    have hbelow : (a : Int).natAbs ≤ 10 ^ 400 := by
      generalize 10 ^ 400 = bound at hfactor ⊢
      cases hpolicy : c.config.backoff with
      | ascending =>
        rw [hpolicy, Backoff.greatest] at hfactor
        omega
      | descending =>
        rw [hpolicy, Backoff.greatest] at hfactor
        omega
    exact Nat.lt_of_le_of_lt hbelow (hword 400 (by decide))

/-- The attempt that a phase is at, or comes to next, can have been made. -/
def Waited (c : Client σ) : Retry.Phase σ Received → Prop
  | .calling a => Made c a
  | .pausing a _ => Made c (a + 1)
  | .ended received => Made c received.attempt

theorem Waited.step {p q : Retry.Phase σ Received} (hp : Waited c p)
    (h : (attempts c f code (some token)).step p s = (.ok q, t)) : Waited c q := by
  have hphased := phased_step c f code (some token) p s
  rw [h] at hphased
  cases hphased with
  | received hask =>
    have hattempt := attempt_of_ask hask
    subst hattempt
    exact hp
  | failed _ hnext =>
    cases hnext with
    | pausing hmore hdelay => exact Made.next hp hmore (by rw [hdelay]; rfl)
  | waited _ => exact hp
  | ended => exact hp

/-- A failure of judging in which a phase ends counts the attempts that can have been made. -/
theorem Waited.made_of_stop {p : Retry.Phase σ Received} {stop : Retry.Stop Failure} {e : JudgeError} (hp : Waited c p)
    (h : (attempts c f code (some token)).step p s = (.error stop, t)) (hstop : failureOfStop stop = .judging e) :
    Made c e.attempts := by
  have hreply : ∀ {e' : Failure}, e' = .cancelled .verification ∨ e'.isOfReply = true → e' ≠ .judging e := by
    rintro e' (rfl | he') heq
    · cases heq
    · subst heq
      cases he'
  have hphased := phased_step c f code (some token) p s
  rw [h] at hphased
  cases hphased with
  | failed hask hnext =>
    cases hnext with
    | escaped _ => exact absurd hstop (hreply (ask_eq_error hask))
    | exhausted _ =>
      obtain rfl := Failure.judging.inj hstop
      exact hp
    | tooLarge _ _ => cases hstop
  | broken hpause => rcases pause_eq_error hpause with rfl | rfl <;> cases hstop

/-! ### Confidences -/

theorem probability_of_nullable {d : Json} {x : Float} (h : Schema.nullable Schema.probability d = .ok (some x)) :
    Schema.probability (Json.double x) = .ok x := by
  rw [Schema.nullable] at h
  split at h
  · cases h
  · cases hp : Schema.probability d with
    | faulty faults =>
      rw [hp] at h
      cases h
    | ok y =>
      rw [hp] at h
      obtain rfl := Option.some.inj (Schema.Checked.ok.inj h)
      exact Schema.probability_double hp

theorem probability_of_verdict {d : Json} {v : Verdict} (h : Verdict.check d = .ok v) :
    ∀ x ∈ v.confidence, Schema.probability (Json.double x) = .ok x := by
  intro x hx
  rw [Verdict.check, Schema.record] at h
  split at h
  next ms _ =>
    split at h
    · cases h
    · obtain ⟨build, confidence, hbuild, hconfidence, rfl⟩ := Schema.Checked.seq_eq_ok h
      obtain ⟨isReal, -, rfl⟩ := Schema.Checked.map_eq_ok hbuild
      rw [Schema.defaulted] at hconfidence
      split at hconfidence
      · obtain rfl : confidence = some x := hx
        exact probability_of_nullable (Schema.Checked.under_eq_ok hconfidence)
      · obtain rfl := Schema.Checked.ok.inj hconfidence
        cases hx
  · cases h

/-! ### Outcomes -/

/-- An outcome that tells of attempts that can have been made, and of no confidence that is not a probability. -/
structure Credible (c : Client σ) (o : Outcome) : Prop where
  attempts : ∀ record ∈ o.failure?, ∃ n : Nat, record.attempts = n ∧ Made c n
  confidence : ∀ j ∈ o.judgment?, ∀ x ∈ j.confidence, Schema.probability (Json.double x) = .ok x

theorem credible_of_judging {e : JudgeError} (h : Made c e.attempts) {o : Outcome}
    (ho : outcomeOf f (.error (.judging e)) = .ok o) : Credible c o := by
  rw [outcomeOf] at ho
  cases hrecord : recordOf e with
  | error cause =>
    rw [hrecord] at ho
    cases ho
  | ok record =>
    rw [hrecord] at ho
    obtain rfl := Except.ok.inj ho
    refine ⟨fun other hother => ⟨e.attempts, ?_, h⟩, fun _ hnone => by cases hnone⟩
    obtain rfl : record = other := Option.some.inj hother
    exact attempts_of_recordOf hrecord

theorem credible_of_received {received : Received} (h : Made c received.attempt) {o : Outcome}
    (ho : outcomeOf f (judgmentOf received) = .ok o) : Credible c o := by
  rw [judgmentOf] at ho
  split at ho
  next v hv =>
    obtain rfl := Except.ok.inj ho
    refine ⟨fun _ hnone => (by cases hnone), fun j hj => ?_⟩
    obtain rfl := Option.some.inj hj
    exact probability_of_verdict (Schema.validate_eq_ok_iff.1 hv)
  next => exact credible_of_judging h ho

theorem not_ok_of_outcomeOf {e : Failure} (h : ∀ cause, e ≠ .judging cause) {o : Outcome} :
    outcomeOf f (.error e) ≠ .ok o := by
  cases e with
  | judging cause => exact absurd rfl (h cause)
  | _ => exact nofun

/-- A task whose outcome is credible, or whose attempts can have been made up to now. -/
def Task.Credible (c : Client σ) (task : Task σ) : Prop :=
  match task.progress with
  | .fresh => True
  | .underWay p => Waited c p
  | .ended r => ∀ o, r = .ok o → Judge.Credible c o

theorem Task.Credible.step {task : Task σ} (h : task.Credible c) (s : Scene σ) :
    (Task.step c code token task s).1.Credible c := by
  obtain ⟨f, progress⟩ := task
  have hstepped := Task.stepped c code token f progress s
  generalize Task.step c code token ⟨f, progress⟩ s = x at hstepped ⊢
  cases hstepped with
  | cancelled _ => exact fun _ ho => by cases ho
  | refused _ _ => exact fun o ho => absurd ho (not_ok_of_outcomeOf (by simp))
  | begun _ hn => exact ⟨Nat.le_refl 1, hn, fun hfirst => absurd hfirst (Nat.lt_irrefl 1)⟩
  | received => exact fun o => credible_of_received h
  | @stopped p stop t hstep =>
    have hp : Waited c p := h
    intro o ho
    by_cases hjudging : ∃ e, failureOfStop stop = .judging e
    · obtain ⟨e, he⟩ := hjudging
      rw [he] at ho
      exact credible_of_judging (hp.made_of_stop hstep he) ho
    · exact absurd ho (not_ok_of_outcomeOf fun cause hcause => hjudging ⟨cause, hcause⟩)
  | @moved p q t _ hstep => exact Waited.step h hstep
  | stayed => exact h

/-- In whatever order the findings are judged, the outcome of each is credible. -/
theorem permits_credible (c : Client σ) (code : String) (token : TokenId) (fs : List Finding) (s : Scene σ) :
    (poolWork c code token).Permits (fs.map Task.ofFinding) s fun _ r => ∀ o, r = .ok o → Credible c o :=
  permits_of_step (J := fun _ task => task.Credible c) (fun _ _ _ => trivial) (fun _ _ s _ hJ => hJ.step s)
    (fun _ _ _ hJ => hJ)

/-- Judging comes to nothing but credible outcomes, however many workers there are. -/
theorem judgeAll_credible {workers : Nat} {fs : List Finding} {outcomes : List Outcome}
    (h : (judgeAll c workers code token fs s).1 = .ok outcomes) : ∀ o ∈ outcomes, Credible c o := by
  have hpermitted := judgeAll_of_permits (fun token s => permits_credible c code token fs s) workers token s
  rw [h] at hpermitted
  intro o ho
  obtain ⟨i, hi⟩ := List.getElem?_of_mem ho
  exact hpermitted i o hi o rfl

end Judge
end Adjudication
