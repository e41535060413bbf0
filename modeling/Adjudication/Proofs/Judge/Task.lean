import Adjudication.Proofs.Judge.Outcome
import Adjudication.Proofs.Pool

/-!
Findings that are judged as tasks. A task goes through the phases that judging its finding in one go goes through, in
no more steps than it is given, so judging one finding after the other is one of the orders in which tasks may move
on. What findings come to in every order they come to one after the other, and in a pool.
-/

namespace Adjudication.Judge

open Time (TokenId)

variable {σ : Type} [Time.Seconds σ] {c : Client σ} {code : String} {token : TokenId} {f : Finding} {s t : Scene σ}

/-! ### The phases of a task -/

omit [Time.Seconds σ] in
theorem Task.conclude_run (task : Task σ) (r : Except Failure Judgment) (s : Scene σ) :
    task.conclude r s = (⟨task.finding, .ended (outcomeOf task.finding r)⟩, (settle task.finding r s).2) := by
  rw [← settle_run task.finding r s]
  rfl

theorem Task.step_fresh_of_heed_error {e : Failure} (h : Run.heed (some token) s = (.error e, t)) :
    Task.step c code token ⟨f, .fresh⟩ s = (⟨f, .ended (.error e)⟩, t) := by
  simp only [step, h]

theorem Task.step_fresh_of_heed_ok (code : String) (h : Run.heed (some token) s = (.ok (), t)) (hn : 1 ≤ c.config.maxAttempts) :
    Task.step c code token ⟨f, .fresh⟩ s = (⟨f, .underWay (.calling 1)⟩, t) := by
  have : ¬(attempts c f code (some token)).attempts < 1 := Nat.not_lt.2 hn
  simp only [step, h, if_neg this]

theorem Task.step_fresh_of_noAttempts (h : Run.heed (some token) s = (.ok (), t)) (hn : c.config.maxAttempts < 1) :
    Task.step c code token ⟨f, .fresh⟩ s = Task.conclude ⟨f, .fresh⟩ (.error .noAttempts) t := by
  have : (attempts c f code (some token)).attempts < 1 := hn
  simp only [step, h, if_pos this]

theorem Task.step_received (received : Received) (s : Scene σ) :
    Task.step c code token ⟨f, .underWay (.ended received)⟩ s =
      Task.conclude ⟨f, .underWay (.ended received)⟩ (judgmentOf received) s := rfl

variable {p q : Retry.Phase σ Received}

theorem Task.step_underWay_of_ok (hp : ∀ r, p ≠ .ended r)
    (h : (attempts c f code (some token)).step p s = (.ok q, t)) :
    Task.step c code token ⟨f, .underWay p⟩ s = (⟨f, .underWay q⟩, t) := by
  cases p with
  | ended r => exact absurd rfl (hp r)
  | calling a => simp only [step, h]
  | pausing a d => simp only [step, h]

theorem Task.step_underWay_of_error {stop : Retry.Stop Failure}
    (h : (attempts c f code (some token)).step p s = (.error stop, t)) :
    Task.step c code token ⟨f, .underWay p⟩ s =
      Task.conclude ⟨f, .underWay p⟩ (.error (failureOfStop stop)) t := by
  cases p with
  | ended r => simp [Retry.step_ended] at h
  | calling a => simp only [step, h]
  | pausing a d => simp only [step, h]

/-- What a step of a task of a finding comes to, case by case. -/
inductive Task.Stepped (c : Client σ) (code : String) (token : TokenId) (f : Finding) (s : Scene σ) :
    Progress σ → Task σ × Scene σ → Prop where
  | cancelled {e : Failure} {t : Scene σ} (hheed : Run.heed (some token) s = (.error e, t)) :
      Stepped c code token f s .fresh (⟨f, .ended (.error e)⟩, t)
  | refused {t : Scene σ} (hheed : Run.heed (some token) s = (.ok (), t)) (hn : c.config.maxAttempts < 1) :
      Stepped c code token f s .fresh
        (⟨f, .ended (outcomeOf f (.error .noAttempts))⟩, (settle f (.error .noAttempts) t).2)
  | begun {t : Scene σ} (hheed : Run.heed (some token) s = (.ok (), t)) (hn : 1 ≤ c.config.maxAttempts) :
      Stepped c code token f s .fresh (⟨f, .underWay (.calling 1)⟩, t)
  | received {received : Received} : Stepped c code token f s (.underWay (.ended received))
      (⟨f, .ended (outcomeOf f (judgmentOf received))⟩, (settle f (judgmentOf received) s).2)
  | stopped {p : Retry.Phase σ Received} {stop : Retry.Stop Failure} {t : Scene σ}
      (hstep : (attempts c f code (some token)).step p s = (.error stop, t)) : Stepped c code token f s (.underWay p)
        (⟨f, .ended (outcomeOf f (.error (failureOfStop stop)))⟩, (settle f (.error (failureOfStop stop)) t).2)
  | moved {p q : Retry.Phase σ Received} {t : Scene σ} (hp : ∀ r, p ≠ .ended r)
      (hstep : (attempts c f code (some token)).step p s = (.ok q, t)) :
      Stepped c code token f s (.underWay p) (⟨f, .underWay q⟩, t)
  | stayed {r : Except Failure Outcome} : Stepped c code token f s (.ended r) (⟨f, .ended r⟩, s)

theorem Task.stepped (c : Client σ) (code : String) (token : TokenId) (f : Finding) (progress : Progress σ) (s : Scene σ) :
    Stepped c code token f s progress (Task.step c code token ⟨f, progress⟩ s) := by
  cases progress with
  | fresh =>
    rcases hheed : Run.heed (some token) s with ⟨e | ⟨⟩, t⟩
    · rw [Task.step_fresh_of_heed_error hheed]
      exact .cancelled hheed
    · by_cases hn : c.config.maxAttempts < 1
      · rw [Task.step_fresh_of_noAttempts hheed hn, Task.conclude_run]
        exact .refused hheed hn
      · rw [Task.step_fresh_of_heed_ok code hheed (Nat.not_lt.1 hn)]
        exact .begun hheed (Nat.not_lt.1 hn)
  | underWay p =>
    by_cases hended : ∃ r, p = .ended r
    · obtain ⟨received, rfl⟩ := hended
      rw [Task.step_received, Task.conclude_run]
      exact .received
    · have hp : ∀ r, p ≠ .ended r := fun r he => hended ⟨r, he⟩
      rcases hstep : (attempts c f code (some token)).step p s with ⟨stop | q, t⟩
      · rw [Task.step_underWay_of_error hstep, Task.conclude_run]
        exact .stopped hstep
      · rw [Task.step_underWay_of_ok hp hstep]
        exact .moved hp hstep
  | ended r => exact .stayed

theorem Task.finding_step (task : Task σ) (s : Scene σ) : (Task.step c code token task s).1.finding = task.finding := by
  obtain ⟨f, progress⟩ := task
  have hstepped := Task.stepped c code token f progress s
  generalize Task.step c code token ⟨f, progress⟩ s = x at hstepped ⊢
  cases hstepped <;> rfl

/-! ### How long a task lasts -/

/-- The findings that are judged on a token, as work for a pool that cancels that token when it stops. -/
def poolWork (c : Client σ) (code : String) (token : TokenId) : Work (Scene σ) (Task σ) Failure Outcome :=
  { step := Task.step c code token
    result? := Task.result?
    stop := modify fun s => s.cancel token }

omit [Time.Seconds σ] in
theorem Task.result?_eq_some {task : Task σ} {r : Except Failure Outcome} :
    task.result? = some r ↔ task.progress = .ended r := by
  rw [Task.result?]
  cases task.progress with
  | ended r' => simp
  | _ => simp

/-- What fresh tasks have and a step keeps, tasks have when they have come to their ends, in whatever order they move on. -/
theorem permits_of_step {J : Nat → Task σ → Prop} {fs : List Finding} {R : Nat → Except Failure Outcome → Prop}
    (hfresh : ∀ (i : Nat) (f : Finding), fs[i]? = some f → J i (.ofFinding f))
    (hstep : ∀ (i : Nat) (task : Task σ) (s : Scene σ), task.result? = none → J i task →
      J i (Task.step c code token task s).1)
    (hended : ∀ (i : Nat) (f : Finding) (r : Except Failure Outcome), J i ⟨f, .ended r⟩ → R i r) :
    (poolWork c code token).Permits (fs.map Task.ofFinding) s R := by
  intro y hy i task r htask hr
  have hkept := Work.Reaches.invariant (I := fun _ => True) (J := J) trivial (fun i task htask => ?_)
    (fun _ u i task _ _ hopen _ hJ => ⟨trivial, hstep i task u hopen hJ⟩) hy
  · obtain ⟨f, progress⟩ := task
    obtain rfl : progress = .ended r := Task.result?_eq_some.1 hr
    exact hended i f r (hkept.2 i _ htask)
  · rw [List.getElem?_map] at htask
    obtain ⟨f, hf, rfl⟩ := Option.map_eq_some_iff.1 htask
    exact hfresh i f hf

/-- A task whose attempts are within their number. -/
def Task.Within (n : Nat) (task : Task σ) : Prop :=
  match task.progress with
  | .underWay p => p.Within n
  | _ => True

/-- How many steps a task may still take. -/
def Task.left (n : Nat) (task : Task σ) : Nat :=
  match task.progress with
  | .fresh => 2 * n + 2
  | .underWay p => p.left n + 1
  | .ended _ => 0

/-- Each step of a task leaves it with fewer steps to take. -/
theorem dwindles_poolWork (c : Client σ) (code : String) (token : TokenId) :
    (poolWork c code token).Dwindles (Task.Within c.config.maxAttempts) (Task.left c.config.maxAttempts) := by
  suffices h : ∀ (task : Task σ) (s : Scene σ), task.Within c.config.maxAttempts → task.result? = none →
      (Task.step c code token task s).1.Within c.config.maxAttempts ∧
        (Task.step c code token task s).1.left c.config.maxAttempts < task.left c.config.maxAttempts from
    ⟨fun task s hw hr => (h task s hw hr).1, fun task s hw hr => (h task s hw hr).2⟩
  rintro ⟨f, progress⟩ s hw hr
  have hstepped := Task.stepped c code token f progress s
  generalize Task.step c code token ⟨f, progress⟩ s = x at hstepped ⊢
  cases hstepped with
  | cancelled _ => exact ⟨trivial, Nat.succ_pos _⟩
  | refused _ _ => exact ⟨trivial, Nat.succ_pos _⟩
  | begun _ hn =>
    refine ⟨⟨Nat.le_refl 1, hn⟩, ?_⟩
    simp only [Task.left, Retry.Phase.left]
    omega
  | received => exact ⟨trivial, Nat.succ_pos _⟩
  | stopped _ => exact ⟨trivial, Nat.succ_pos _⟩
  | moved hp hstep =>
    exact ⟨Retry.Phase.Within.step (r := attempts c f code (some token)) hw hstep,
      Nat.succ_lt_succ (Retry.Phase.left_step (r := attempts c f code (some token)) hw hp hstep)⟩
  | stayed => simp [Task.result?] at hr

omit [Time.Seconds σ] in
theorem within_of_mem_ofFinding (fs : List Finding) (n : Nat) :
    ∀ task ∈ fs.map (Task.ofFinding (σ := σ)), task.Within n := by
  intro task htask
  obtain ⟨f, -, rfl⟩ := List.mem_map.1 htask
  trivial

omit [Time.Seconds σ] in
/-- A pool of findings is given as many moves as it may take. -/
theorem ahead_ofFindings (c : Client σ) (workers : Nat) (fs : List Finding) :
    (Pool.ofTasks workers (fs.map Task.ofFinding) : Pool (Task σ) Failure Outcome).ahead
      (Task.left c.config.maxAttempts) = fs.length * (Task.mostSteps c + 2) := by
  have hsum : ((fs.map (Task.ofFinding (σ := σ))).map (Task.left c.config.maxAttempts)).sum =
      fs.length * Task.mostSteps c := by
    rw [List.map_map]
    show (fs.map fun _ => Task.mostSteps c).sum = _
    rw [List.map_const', List.sum_replicate_nat]
  simp only [Pool.ahead, Pool.ofTasks, hsum, List.length_map]
  simp [Nat.mul_add]
  omega

/-! ### Judging in one go -/

section Reaches

variable {ts : List (Task σ)} {i : Nat} {task task' : Task σ}

/-- One turn of a task without a result. -/
theorem reaches_of_step (ht : ts[i]? = some task) (hr : task.result? = none)
    (h : Task.step c code token task s = (task', t)) :
    (poolWork c code token).Reaches (ts, s) (ts.set i task', t) := by
  have hturn : (poolWork c code token).Turn (ts, s) _ := .mk ht hr
  have hstep : (poolWork c code token).step task s = (task', t) := h
  rw [hstep] at hturn
  exact .single hturn

/-- The phases of the attempts at a finding are phases of its task. -/
theorem reaches_of_attempts (hi : i < ts.length)
    (h : Relation.ReflTransGen (attempts c f code (some token)).Passes (p, s) (q, t)) :
    (poolWork c code token).Reaches (ts.set i ⟨f, .underWay p⟩, s) (ts.set i ⟨f, .underWay q⟩, t) := by
  suffices hx : ∀ x : Retry.Phase σ Received × Scene σ,
      Relation.ReflTransGen (attempts c f code (some token)).Passes (p, s) x →
      (poolWork c code token).Reaches (ts.set i ⟨f, .underWay p⟩, s) (ts.set i ⟨f, .underWay x.1⟩, x.2) from hx _ h
  intro x hx
  induction hx with
  | refl => exact .refl
  | @tail y z _ hyz ih =>
    by_cases hy : ∃ r, y.1 = .ended r
    · obtain ⟨r, hr⟩ := hy
      simp only [Retry.Passes, hr, Retry.step_ended, Act.ok_eq_ok] at hyz
      rw [← hyz.1, ← hyz.2, ← hr]
      exact ih
    · have hne : ∀ r, y.1 ≠ .ended r := fun r he => hy ⟨r, he⟩
      have hturn := reaches_of_step (List.getElem?_set_self hi) rfl (Task.step_underWay_of_ok (f := f) hne hyz)
      rw [List.set_set] at hturn
      exact ih.trans hturn

/-- Judging a finding in one go is one of the ways in which its task may come to its end. -/
theorem reaches_judgeOne (ht : ts[i]? = some (Task.ofFinding f)) :
    (poolWork c code token).Reaches (ts, s)
      (ts.set i ⟨f, .ended (judgeOne c code token f s).1⟩, (judgeOne c code token f s).2) := by
  have hi : i < ts.length := (List.getElem?_eq_some_iff.1 ht).1
  rcases hh : Run.heed (some token) s with ⟨e | ⟨⟩, t⟩
  · rw [judgeOne_of_heed_error f hh]
    exact reaches_of_step ht rfl (Task.step_fresh_of_heed_error hh)
  · rw [judgeOne_of_heed_ok f hh, settle_run]
    by_cases hn : c.config.maxAttempts < 1
    · rw [judge_run, Retry.run_of_no_attempts (r := attempts c f code (some token)) hn]
      exact reaches_of_step ht rfl ((Task.step_fresh_of_noAttempts hh hn).trans (Task.conclude_run _ _ _))
    · have hn : 1 ≤ c.config.maxAttempts := Nat.not_lt.1 hn
      have hfirst := reaches_of_step ht rfl (Task.step_fresh_of_heed_ok code hh hn)
      rcases Retry.run_ends (r := attempts c f code (some token)) hn t with
        ⟨received, u, hu, hrun⟩ | ⟨p, u, stop, v, hu, hp, hrun⟩
      · rw [judge_run, hrun]
        have hend : Task.step c code token ⟨f, .underWay (.ended received)⟩ u = _ :=
          (Task.step_received received u).trans (Task.conclude_run _ _ _)
        have hlast := reaches_of_step (List.getElem?_set_self hi) rfl hend
        rw [List.set_set] at hlast
        exact (hfirst.trans (reaches_of_attempts hi hu)).trans hlast
      · rw [judge_run, hrun]
        have hend := (Task.step_underWay_of_error hp).trans (Task.conclude_run _ _ _)
        have hlast := reaches_of_step (List.getElem?_set_self hi) rfl hend
        rw [List.set_set] at hlast
        exact (hfirst.trans (reaches_of_attempts hi hu)).trans hlast

/-- Judging the first findings one after the other ends their tasks and leaves those of the others fresh. -/
theorem reaches_judgeOne_take (c : Client σ) (code : String) (token : TokenId) (fs : List Finding) (s : Scene σ) :
    ∀ i ≤ fs.length, ∃ ts : List (Task σ),
      (poolWork c code token).Reaches (fs.map Task.ofFinding, s)
        (ts, Act.after (judgeOne c code token) (fs.take i) s) ∧
      ∀ j, i ≤ j → ts[j]? = (fs[j]?).map Task.ofFinding
  | 0, _ => ⟨_, .refl, fun j _ => List.getElem?_map⟩
  | i + 1, hi => by
    obtain ⟨ts, hts, hfresh⟩ := reaches_judgeOne_take c code token fs s i (Nat.le_of_succ_le hi)
    have hget : fs[i]? = some fs[i] := List.getElem?_eq_getElem hi
    have hnext : Act.after (judgeOne c code token) (fs.take (i + 1)) s =
        (judgeOne c code token fs[i] (Act.after (judgeOne c code token) (fs.take i) s)).2 := by
      rw [List.take_add_one, hget, Act.after, List.foldl_append]
      rfl
    refine ⟨_, hnext ▸ hts.trans (reaches_judgeOne (by rw [hfresh i (Nat.le_refl i), hget]; rfl)), fun j hj => ?_⟩
    rw [List.getElem?_set_ne (by omega), hfresh j (Nat.le_of_succ_le hj)]

/-- When the findings before it have been judged, the task of a finding is fresh. -/
theorem exists_reaches_fresh (c : Client σ) (code : String) (token : TokenId) {fs : List Finding} (s : Scene σ)
    (hi : i < fs.length) : ∃ ts : List (Task σ),
      (poolWork c code token).Reaches (fs.map Task.ofFinding, s) (ts, Act.after (judgeOne c code token) (fs.take i) s) ∧
      ts[i]? = some (.ofFinding fs[i]) ∧ i < ts.length := by
  obtain ⟨ts, hts, hfresh⟩ := reaches_judgeOne_take c code token fs s i (Nat.le_of_lt hi)
  have hget : ts[i]? = some (.ofFinding fs[i]) := by
    rw [hfresh i (Nat.le_refl i), List.getElem?_eq_getElem hi]
    rfl
  exact ⟨ts, hts, hget, (List.getElem?_eq_some_iff.1 hget).1⟩

end Reaches

/-! ### All findings -/

variable {fs : List Finding} {R : Nat → Except Failure Outcome → Prop}

/-- The token that findings are judged on and the scene in which that begins: the given ones, or a token below and the
scene that has it. -/
def scope (workers : Nat) (token : TokenId) (fs : List Finding) (s : Scene σ) : TokenId × Scene σ :=
  if workers = 1 ∨ fs.length ≤ 1 then (token, s) else (s.timeline.tokens.length, s.withChild token)

/-- One after the other, the findings come to what they may come to in any order. -/
theorem mapM_judgeOne_gathered (h : (poolWork c code token).Permits (fs.map Task.ofFinding) s R) :
    Act.Gathered R fs.length (fs.mapM (judgeOne c code token) s).1 := by
  refine Act.mapM_gathered _ fs s R fun i hi => ?_
  obtain ⟨ts, hts, hget, hlt⟩ := exists_reaches_fresh c code token s hi
  exact h _ (hts.trans (reaches_judgeOne hget)) i _ _ (List.getElem?_set_self hlt) rfl

/-- The pool in which findings are judged side by side, on a token below the given one, when it is at its end, and the
scene that it leaves. -/
def pooled (c : Client σ) (workers : Nat) (code : String) (token : TokenId) (fs : List Finding) (s : Scene σ) :
    Pool (Task σ) Failure Outcome × Scene σ :=
  Pool.run (poolWork c code s.timeline.tokens.length) (fs.length * (Task.mostSteps c + 2)) s.schedule
    (.ofTasks (min workers fs.length) (fs.map Task.ofFinding)) (s.withChild token)

theorem judgeInPool_run (c : Client σ) (workers : Nat) (code : String) (token : TokenId) (fs : List Finding)
    (s : Scene σ) : judgeInPool c workers code token fs s =
      ((pooled c workers code token fs s).1.outcome, (pooled c workers code token fs s).2) := by
  rw [judgeInPool, Act.bind_of_ok (Run.newToken_run none (some token) s)]
  exact Run.ofExcept_run _ _

theorem steps_pooled (c : Client σ) (workers : Nat) (code : String) (token : TokenId) (fs : List Finding) (s : Scene σ) :
    Relation.ReflTransGen (Pool.Step (poolWork c code s.timeline.tokens.length))
      (.ofTasks (min workers fs.length) (fs.map Task.ofFinding), s.withChild token) (pooled c workers code token fs s) :=
  Pool.run_steps _ _ _ _ (Pool.sound_ofTasks _ _)

/-- What is done in the pool could be done if its tasks moved on in any order and were stopped at any moments. -/
theorem races_pooled (c : Client σ) (workers : Nat) (code : String) (token : TokenId) (fs : List Finding) (s : Scene σ) :
    (poolWork c code s.timeline.tokens.length).Races (fs.map Task.ofFinding, s.withChild token)
      ((pooled c workers code token fs s).1.tasks, (pooled c workers code token fs s).2) :=
  Pool.races_of_steps (steps_pooled c workers code token fs s)

/-- The pool ends where nothing is left to do. -/
theorem moves_pooled (c : Client σ) (workers : Nat) (code : String) (token : TokenId) (fs : List Finding) (s : Scene σ) :
    (pooled c workers code token fs s).1.moves (poolWork c code s.timeline.tokens.length) = [] :=
  Pool.run_moves_eq_nil (dwindles_poolWork c code s.timeline.tokens.length) _ _ _ _ (Pool.sound_ofTasks _ _)
    (within_of_mem_ofFinding fs _) (Nat.le_of_eq (ahead_ofFindings c (min workers fs.length) fs))

/-- How findings that are judged side by side are left when that is over: each has been judged to its end or has never been
begun with, and judging them has failed just if judging one of them has. -/
structure Joined (fs : List Finding) (tasks : List (Task σ)) (r : Except Failure (List Outcome)) : Prop where
  through : ∀ (i : Nat) (f : Finding), fs[i]? = some f → ∃ task, tasks[i]? = some task ∧
    (task = .ofFinding f ∨ ∃ r, task.progress = .ended r)
  raised : ∀ e, r = .error e → ∃ task ∈ tasks, task.progress = .ended (.error e)
  raises : ∀ task ∈ tasks, ∀ e, task.progress = .ended (.error e) → ∃ cause, r = .error cause

theorem joined_pooled {workers : Nat} (hw : 0 < workers) (hfs : fs ≠ []) (c : Client σ) (code : String)
    (token : TokenId) (s : Scene σ) :
    Joined fs (pooled c workers code token fs s).1.tasks (pooled c workers code token fs s).1.outcome := by
  have htracks := Pool.tracks_of_steps (steps_pooled c workers code token fs s)
  have hworkers : _ = min workers fs.length := Pool.workers_of_steps (steps_pooled c workers code token fs s)
  have hend := moves_pooled c workers code token fs s
  have hpos : 0 < min workers fs.length := Nat.lt_min.2 ⟨hw, List.length_pos_iff.2 hfs⟩
  generalize (pooled c workers code token fs s).1 = p at htracks hworkers hend
  have hended : ∀ {i : Nat} {r : Except Failure Outcome},
      p.resultOf (poolWork c code s.timeline.tokens.length) i = some r ↔
        ∃ task, p.tasks[i]? = some task ∧ task.progress = .ended r := by
    intro i r
    simp only [Pool.resultOf_eq_some, poolWork, Task.result?_eq_some]
  refine ⟨?_, ?_, ?_⟩
  · intro i f hf
    rcases htracks.ended_or_untaken hend i with ⟨r, hr⟩ | hfresh
    · obtain ⟨task, htask, hr⟩ := hended.1 hr
      exact ⟨task, htask, .inr ⟨r, hr⟩⟩
    · exact ⟨.ofFinding f, by rw [hfresh, List.getElem?_map, hf, Option.map_some], .inl rfl⟩
  · intro e he
    rw [Pool.outcome] at he
    cases hfailure : p.failure with
    | none => simp [hfailure] at he
    | some e' =>
      rw [hfailure] at he
      obtain rfl := Except.error.inj he
      obtain ⟨i, hi⟩ := htracks.failed e' hfailure
      obtain ⟨task, htask, hr⟩ := hended.1 hi
      exact ⟨task, List.mem_of_getElem? htask, hr⟩
  · intro task htask e he
    obtain ⟨i, hi⟩ := List.getElem?_of_mem htask
    have hfailed := htracks.failed_of_result (hworkers ▸ hpos) hend (hended.2 ⟨task, hi, he⟩)
    obtain ⟨cause, hcause⟩ := Option.ne_none_iff_exists'.1 hfailed
    exact ⟨cause, by rw [Pool.outcome, hcause]⟩

/-- Side by side, the findings come to what they may come to in any order. -/
theorem judgeInPool_gathered {workers : Nat} (hw : 0 < workers) (hfs : fs ≠ [])
    (h : (poolWork c code s.timeline.tokens.length).Permits (fs.map Task.ofFinding) (s.withChild token) R) :
    Act.Gathered R fs.length (judgeInPool c workers code token fs s).1 := by
  have hpos : 0 < min workers fs.length := Nat.lt_min.2 ⟨hw, List.length_pos_iff.2 hfs⟩
  have houtcome := Pool.outcome_run_gathered (dwindles_poolWork c code s.timeline.tokens.length) h
    (within_of_mem_ofFinding fs _) hpos (Nat.le_of_eq (ahead_ofFindings c (min workers fs.length) fs)) s.schedule
  rw [judgeInPool_run]
  rw [List.length_map] at houtcome
  exact houtcome

/-- All findings are gathered from what they may come to in any order, however many workers there are. -/
theorem judgeAll_gathered {workers : Nat} (hw : 1 ≤ workers)
    (h : (poolWork c code (scope workers token fs s).1).Permits (fs.map Task.ofFinding) (scope workers token fs s).2 R) :
    Act.Gathered R fs.length (judgeAll c workers code token fs s).1 := by
  rw [judgeAll]
  rw [scope] at h
  split
  next hone =>
    rw [if_pos hone] at h
    exact mapM_judgeOne_gathered h
  next hmany =>
    rw [if_neg hmany] at h
    have hfs : fs ≠ [] := fun he => hmany (.inr (by simp [he]))
    exact judgeInPool_gathered hw hfs h

end Adjudication.Judge
