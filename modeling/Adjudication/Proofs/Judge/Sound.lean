import Adjudication.Proofs.Judge.Task

/-!
What judging may come to. The outcome of a finding names that finding, and the attempts that the record of a failure
counts are at least one and no more than the client may make. A failure that ends the judging is none of staging.
-/

namespace Adjudication

variable {S T σ ε β : Type}

/-! ### Values and failures that are permitted -/

/-- What a row of results may come to, where `R i` tells what the one at `i` may be: values in their order, or a failure
among them. -/
def Act.Permitted (R : Nat → Except ε β → Prop) : Except ε (List β) → Prop
  | .ok bs => ∀ (i : Nat) (b : β), bs[i]? = some b → R i (.ok b)
  | .error e => ∃ i, R i (.error e)

theorem Act.Gathered.permitted {R : Nat → Except ε β → Prop} {n : Nat} {x : Except ε (List β)}
    (h : Act.Gathered R n x) : Act.Permitted R x := by
  cases x with
  | ok bs => exact h.2
  | error e =>
    obtain ⟨bs, -, -, he⟩ := h
    exact ⟨bs.length, he⟩

/-- Whatever a run of a pool comes to, its tasks may come to. -/
theorem Pool.outcome_run_permitted {w : Work S T ε β} {ts : List T} {s : S} {R : Nat → Except ε β → Prop}
    (h : w.Permits ts s R) (workers k : Nat) (schedule : List Nat) :
    Act.Permitted R (Pool.run w k schedule (.ofTasks workers ts) s).1.outcome := by
  have hx := keeps_of_steps h (run_steps k schedule _ s (sound_ofTasks workers ts))
  generalize Pool.run w k schedule (.ofTasks workers ts) s = x at hx
  rw [outcome]
  cases hf : x.1.failure with
  | some e => exact ⟨_, (hx.failed e hf).2⟩
  | none => exact hx.collected

/-- A failure that no part of a run has for its own: none of staging, and none of judging. -/
def Failure.isPlain : Failure → Bool
  | .staging _ | .judging _ => false
  | _ => true

def Failure.isStaging : Failure → Bool
  | .staging _ => true
  | _ => false

/-- A failure that comes of a reply: the service breaks down, the attempt is at fault, or a text goes beyond the limits. -/
def Failure.isOfReply : Failure → Bool
  | .crash _ | .attempt _ | .excess _ => true
  | _ => false

theorem Failure.isPlain_of_isOfReply {e : Failure} (h : e.isOfReply = true) : e.isPlain = true := by
  cases e with
  | staging cause => simp [isOfReply] at h
  | judging cause => simp [isOfReply] at h
  | _ => rfl

/-- An outcome of a finding for which no more attempts were made than there may be. -/
structure Outcome.Of (f : Finding) (n : Nat) (o : Outcome) : Prop where
  finding_eq : o.finding = f
  attempts : ∀ record, o.ruling = .failed record → 1 ≤ record.attempts ∧ record.attempts ≤ n

namespace Judge

open Time (TokenId)

variable [Time.Seconds σ] {c : Client σ} {f : Finding} {code : String} {token : TokenId} {s t : Scene σ} {n : Nat}

/-- What judging a finding may come to. -/
def Sound (f : Finding) (n : Nat) : Except Failure Outcome → Prop
  | .ok o => o.Of f n
  | .error e => e.isStaging = false

/-! ### What ends the attempts -/

theorem isOfReply_of_decodeObject {levels : Nat} {content : Json} {e : Failure} (h : decodeObject levels content = .error e) :
    e.isOfReply = true := by
  have hobject : ∀ text : Text.Wide, objectOf levels text = .error e → e.isOfReply = true := by
    intro text ht
    rw [objectOf] at ht
    split at ht <;> simp at ht <;> subst ht <;> rfl
  cases content with
  | str text => exact hobject text h
  | torn t => exact hobject _ h
  | _ =>
    obtain rfl := Except.error.inj h
    rfl

omit [Time.Seconds σ] in
theorem isOfReply_of_yield {levels : Nat} {turn : Turn σ} {e : Failure} (h : turn.yield levels = .error e) :
    e.isOfReply = true := by
  rw [Turn.yield] at h
  cases hc : turn.content with
  | ok content =>
    rw [hc] at h
    exact isOfReply_of_decodeObject h
  | error cause =>
    rw [hc] at h
    obtain rfl : cause = e := Except.error.inj h
    rw [Turn.content] at hc
    split at hc
    · obtain rfl := Except.error.inj hc
      rfl
    · cases hr : turn.reply.content with
      | ok content =>
        rw [hr] at hc
        cases hc
      | error reason =>
        rw [hr] at hc
        obtain rfl := Except.error.inj hc
        rfl

theorem heed_eq_error {token : Option TokenId} {e : Failure} (h : Run.heed token s = (.error e, t)) :
    e = .cancelled .verification := by
  cases token with
  | none => simp [Run.heed] at h
  | some id =>
    rw [Run.heed_run] at h
    have he := congrArg Prod.fst h
    dsimp only at he
    split at he
    · exact (Except.error.inj he).symm
    · simp at he

theorem pause_eq_error {token : Option TokenId} {delay : σ} {e : Failure} (h : Run.pause token delay s = (.error e, t)) :
    e = .stalled ∨ e = .cancelled .verification := by
  cases token with
  | none => simp [Run.pause_none_run] at h
  | some id =>
    rw [Run.pause_run] at h
    cases hw : s.timeline.wait s.patience id delay with
    | none =>
      rw [hw] at h
      exact .inl (Act.error_eq_error.1 h).1.symm
    | some r =>
      rw [hw] at h
      have he := congrArg Prod.fst h
      dsimp only at he
      split at he
      · exact .inr (Except.error.inj he).symm
      · simp at he

/-- An attempt fails because its token is cancelled, or for a reason that comes of the reply. -/
theorem ask_eq_error {request : Request} {token : Option TokenId} {a : Nat} {e : Failure}
    (h : ask c request token a s = (.error e, t)) : e = .cancelled .verification ∨ e.isOfReply = true := by
  rcases hh : Run.heed token s with ⟨e' | ⟨⟩, u⟩
  · rw [ask_of_heed_error request a hh] at h
    obtain rfl := (Act.error_eq_error.1 h).1
    exact .inl (heed_eq_error hh)
  · rw [ask_of_heed_ok request a hh] at h
    have he := congrArg Prod.fst h
    cases hy : (u.service.turn request).yield c.levels with
    | ok r =>
      rw [hy] at he
      cases he
    | error cause =>
      rw [hy] at he
      obtain rfl : cause = e := Except.error.inj he
      exact .inr (isOfReply_of_yield hy)

/-- What a phase of the attempts runs into: a failure of judging after the last attempt, or another one as told, if that is
told of a token that is cancelled, of waits that cannot be waited, and of replies with which no attempt is at fault. -/
theorem failureOfStop_of_step {P : Failure → Prop} (hcancelled : P (.cancelled .verification)) (hstalled : P .stalled)
    (hlarge : P .tooLarge) (hreply : ∀ e, e.isOfReply = true → isAttemptFault e = false → P e)
    {p : Retry.Phase σ Received} {stop : Retry.Stop Failure} (hp : p.Within c.config.maxAttempts)
    (h : (attempts c f code (some token)).step p s = (.error stop, t)) :
    (∃ last, failureOfStop stop = .judging (.exhausted c.config.maxAttempts last) ∧ 1 ≤ c.config.maxAttempts) ∨
      P (failureOfStop stop) := by
  have hphased := phased_step c f code (some token) p s
  rw [h] at hphased
  cases hphased with
  | failed hask hnext =>
    cases hnext with
    | escaped hfault =>
      rcases ask_eq_error hask with rfl | he
      · exact .inr hcancelled
      · exact .inr (hreply _ he hfault)
    | @exhausted last hlast =>
      have hfirst := hp.1
      subst hlast
      exact .inl ⟨last, rfl, hfirst⟩
    | tooLarge _ _ => exact .inr hlarge
  | broken hpause =>
    rcases pause_eq_error hpause with rfl | rfl
    · exact .inr hstalled
    · exact .inr hcancelled

/-! ### Tasks -/

/-- A phase in which no attempt is beyond the number of attempts, that of a received object among them. -/
def Attested (n : Nat) : Retry.Phase σ Received → Prop
  | .ended received => 1 ≤ received.attempt ∧ received.attempt ≤ n
  | p => p.Within n

omit [Time.Seconds σ] in
theorem Attested.within {p : Retry.Phase σ Received} (h : Attested n p) : p.Within n := by
  cases p with
  | ended r => trivial
  | _ => exact h

theorem attempt_of_ask {request : Request} {token : Option TokenId} {a : Nat} {received : Received}
    (h : ask c request token a s = (.ok received, t)) : received.attempt = a := by
  rcases hh : Run.heed token s with ⟨e | ⟨⟩, u⟩
  · simp [ask_of_heed_error request a hh] at h
  · rw [ask_of_heed_ok request a hh] at h
    have hr := congrArg Prod.fst h
    cases hy : (u.service.turn request).yield c.levels with
    | error e =>
      rw [hy] at hr
      cases hr
    | ok r =>
      rw [hy] at hr
      obtain rfl := Except.ok.inj hr
      rfl

theorem Attested.step {p q : Retry.Phase σ Received} (hp : Attested c.config.maxAttempts p)
    (h : (attempts c f code (some token)).step p s = (.ok q, t)) : Attested c.config.maxAttempts q := by
  have hq : q.Within c.config.maxAttempts :=
    Retry.Phase.Within.step (r := attempts c f code (some token)) hp.within h
  have hphased := phased_step c f code (some token) p s
  rw [h] at hphased
  cases hphased with
  | received hask =>
    have hattempt := attempt_of_ask hask
    subst hattempt
    exact hp
  | failed _ hnext =>
    cases hnext with
    | pausing _ _ => exact hq
  | waited _ => exact hq
  | ended => exact hp

omit [Time.Seconds σ] in
theorem attempts_of_recordOf {e : JudgeError} {record : FailureRecord} (h : recordOf e = .ok record) :
    record.attempts = e.attempts := by
  rw [recordOf] at h
  split at h
  · obtain rfl := Except.ok.inj h
    rfl
  · simp at h

/-- What becomes of a failure of judging is sound if its attempts are within their number. -/
theorem sound_of_judging {e : JudgeError} (h : 1 ≤ e.attempts ∧ e.attempts ≤ n) :
    Sound f n (outcomeOf f (.error (.judging e))) := by
  rw [outcomeOf]
  cases hr : recordOf e with
  | ok record =>
    refine ⟨rfl, fun other ho => ?_⟩
    obtain rfl : record = other := by simpa using ho
    rw [attempts_of_recordOf hr]
    exact ⟨Int.ofNat_le.2 h.1, Int.ofNat_le.2 h.2⟩
  | error cause =>
    rw [recordOf] at hr
    split at hr
    · simp at hr
    · obtain rfl := Except.error.inj hr
      rfl

theorem sound_of_isPlain {e : Failure} (h : e.isPlain = true) : Sound f n (outcomeOf f (.error e)) := by
  cases e with
  | judging e => simp [Failure.isPlain] at h
  | staging e => simp [Failure.isPlain] at h
  | _ => rfl

theorem sound_of_received {received : Received} (h : 1 ≤ received.attempt ∧ received.attempt ≤ n) :
    Sound f n (outcomeOf f (judgmentOf received)) := by
  rw [judgmentOf]
  split
  · exact ⟨rfl, fun record hr => by simp at hr⟩
  · exact sound_of_judging h

/-- A task of a finding that has come to what its finding may come to, or goes on within its attempts. -/
def Task.Sound (n : Nat) (task : Task σ) : Prop :=
  match task.progress with
  | .fresh => True
  | .underWay p => Attested n p
  | .ended r => Judge.Sound task.finding n r

/-- A step leaves a task sound. -/
theorem Task.Sound.step {task : Task σ} (h : task.Sound c.config.maxAttempts) (s : Scene σ) :
    (Task.step c code token task s).1.Sound c.config.maxAttempts := by
  obtain ⟨f, progress⟩ := task
  have hstepped := Task.stepped c code token f progress s
  generalize Task.step c code token ⟨f, progress⟩ s = x at hstepped ⊢
  cases hstepped with
  | cancelled hheed =>
    obtain rfl := heed_eq_error hheed
    rfl
  | refused _ _ => exact sound_of_isPlain (f := f) (n := c.config.maxAttempts) (e := .noAttempts) rfl
  | begun _ hn => exact ⟨Nat.le_refl 1, hn⟩
  | received => exact sound_of_received h
  | @stopped p stop t hstep =>
    have hp : Attested c.config.maxAttempts p := h
    show Judge.Sound f c.config.maxAttempts (outcomeOf f (.error (failureOfStop stop)))
    rcases failureOfStop_of_step (P := fun e => e.isPlain = true) rfl rfl rfl
      (fun e he _ => Failure.isPlain_of_isOfReply he) hp.within hstep with ⟨last, hlast, hn⟩ | hplain
    · rw [hlast]
      exact sound_of_judging ⟨hn, Nat.le_refl _⟩
    · exact sound_of_isPlain hplain
  | @moved p q t _ hstep => exact Attested.step h hstep
  | stayed => exact h

/-! ### All findings -/

/-- In whatever order the findings are judged, each comes to what it may come to. -/
theorem permits_sound (c : Client σ) (code : String) (token : TokenId) (fs : List Finding) (s : Scene σ) :
    (poolWork c code token).Permits (fs.map Task.ofFinding) s fun i r =>
      ∃ f, fs[i]? = some f ∧ Sound f c.config.maxAttempts r :=
  permits_of_step (J := fun i task => fs[i]? = some task.finding ∧ task.Sound c.config.maxAttempts)
    (fun _ _ hf => ⟨hf, trivial⟩)
    (fun _ task s _ hJ => ⟨hJ.1.trans (congrArg some (Task.finding_step task s).symm), hJ.2.step s⟩)
    (fun _ f _ hJ => ⟨f, hJ⟩)

/-- What tasks may come to, on whatever token and in whatever order they move on, is what judging may come to, however many
workers there are. -/
theorem judgeAll_of_permits {R : Nat → Except Failure Outcome → Prop} {fs : List Finding}
    (h : ∀ (token : TokenId) (s : Scene σ), (poolWork c code token).Permits (fs.map Task.ofFinding) s R) (workers : Nat)
    (token : TokenId) (s : Scene σ) : Act.Permitted R (judgeAll c workers code token fs s).1 := by
  rw [judgeAll]
  split
  · exact (mapM_judgeOne_gathered (h token s)).permitted
  · have hrun : (judgeInPool c workers code token fs s).1 =
        (Pool.run (poolWork c code s.timeline.tokens.length) (fs.length * (Task.mostSteps c + 2)) s.schedule
          (.ofTasks (min workers fs.length) (fs.map Task.ofFinding)) (s.withChild token)).1.outcome := by
      rw [judgeInPool, Act.bind_of_ok (Run.newToken_run none (some token) s)]
      exact congrArg Prod.fst (Run.ofExcept_run _ _)
    rw [hrun]
    exact Pool.outcome_run_permitted (h _ _) _ _ _

/-- Whatever judging comes to, the findings may come to. -/
theorem judgeAll_permitted (c : Client σ) (workers : Nat) (code : String) (token : TokenId) (fs : List Finding)
    (s : Scene σ) :
    Act.Permitted (fun i r => ∃ f, fs[i]? = some f ∧ Sound f c.config.maxAttempts r)
      (judgeAll c workers code token fs s).1 :=
  judgeAll_of_permits (fun token s => permits_sound c code token fs s) workers token s

end Judge
end Adjudication
