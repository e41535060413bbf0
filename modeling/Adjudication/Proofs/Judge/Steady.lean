import Adjudication.Proofs.Judge.Service
import Adjudication.Proofs.Judge.Task
import Adjudication.Proofs.Time.Waiting

/-!
Services for which it makes no difference what else is asked. The turns on the request about a finding depend on how often
that request has been made, and not on what other findings are judged meanwhile; so what an attempt leads to depends on
the finding and the phase only, and not on the token, if nothing cancels it. Findings that such a service is asked about
come to the same in any order, each to what it comes to by itself.
-/

namespace Adjudication.Judge

open Time (TokenId)

variable {σ : Type} [Time.Seconds σ] {c : Client σ} {code : String} {token : TokenId} {f : Finding} {s t u : Scene σ}
  {p q : Retry.Phase σ Received}

/-! ### One phase -/

/-- A phase within the number of attempts; a pause is as long as the policy says. -/
def Client.Proper (c : Client σ) : Retry.Phase σ Received → Prop
  | .calling a => 1 ≤ a ∧ a ≤ c.config.maxAttempts
  | .pausing a d => 1 ≤ a ∧ a < c.config.maxAttempts ∧
      c.config.backoff.delay? c.config.backoffBase a c.config.maxAttempts = some d
  | .ended _ => True

/-- What a phase leads to if the next turn is the given one. -/
def Client.phaseAfter (c : Client σ) (turn : Turn σ) :
    Retry.Phase σ Received → Except (Retry.Stop Failure) (Retry.Phase σ Received)
  | .calling a =>
    match turn.yield c.levels with
    | .ok r => .ok (.ended ⟨a, r.1, r.2⟩)
    | .error e => c.next a e
  | .pausing a _ => .ok (.calling (a + 1))
  | .ended r => .ok (.ended r)

/-- How many requests have been sent before a phase. -/
def sentBefore : Retry.Phase σ Received → Nat
  | .calling a => a - 1
  | .pausing a _ => a
  | .ended r => r.attempt

/-- How many requests are sent in a phase. -/
def sentIn : Retry.Phase σ Received → Nat
  | .calling _ => 1
  | _ => 0

theorem Client.Proper.phaseAfter {turn : Turn σ} (hp : c.Proper p) (h : c.phaseAfter turn p = .ok q) :
    c.Proper q ∧ sentBefore q = sentBefore p + sentIn p := by
  cases p with
  | calling a =>
    have hsent : a = a - 1 + 1 := (Nat.sub_add_cancel hp.1).symm
    simp only [Client.phaseAfter] at h
    split at h
    next => exact (Except.ok.inj h) ▸ ⟨trivial, hsent⟩
    next e _ =>
      have hnext := c.next_cases a e
      rw [h] at hnext
      cases hnext with
      | pausing hmore hdelay => exact ⟨⟨hp.1, Nat.lt_of_le_of_ne hp.2 hmore, hdelay⟩, hsent⟩
  | pausing a d => exact (Except.ok.inj h) ▸ ⟨⟨Nat.le_add_left 1 a, hp.2.1⟩, rfl⟩
  | ended r => exact (Except.ok.inj h) ▸ ⟨trivial, rfl⟩

/-- A wait that the policy asks for comes to an end on a token that nothing cancels. -/
def Client.Waits (c : Client σ) (patience : Nat) : Prop :=
  ∀ (t : Time.Timeline σ) (id : TokenId) (a : Nat) (d : σ), (id : Nat) < t.tokens.length → t.Calm id → 1 ≤ a →
    a < c.config.maxAttempts → c.config.backoff.delay? c.config.backoffBase a c.config.maxAttempts = some d →
    (t.wait patience id d).isSome

/-- In exact time all waits come to an end if there is patience for two rounds and one for each twentieth of a second. -/
theorem waits_of_patience {value : σ → ℚ} (hv : Time.Seconds.Exact value) {patience : Nat}
    (h : ∀ a d, 1 ≤ a → a < c.config.maxAttempts →
      c.config.backoff.delay? c.config.backoffBase a c.config.maxAttempts = some d →
      20 * max 0 (value d) + 2 ≤ patience) : c.Waits patience := by
  intro t id a d hid hcalm h1 hlt hd
  have hsettled : t.Settled id := .inr fun ⟨e, he, hchain, _⟩ => (hcalm e.2 hchain).2 e he rfl
  obtain ⟨b, u, -, hwait⟩ := Time.Timeline.exists_wait hv hid hsettled d
  rw [hwait patience (h a d h1 hlt hd)]
  rfl

/-- A token that there is and that nothing cancels. -/
structure Idle (token : TokenId) (t : Scene σ) : Prop where
  known : (token : Nat) < t.timeline.tokens.length
  calm : t.timeline.Calm token

/-- On a token that nothing cancels a phase leads to what it leads to on the next turn, and nothing cancels the token
meanwhile. -/
theorem step_of_idle (code : String) (hidle : Idle token t)
    (hcancels : (t.service.turn (.about c.config f code)).cancels = false)
    (hwaits : c.Waits t.patience) (hp : c.Proper p) :
    ∃ u, (attempts c f code (some token)).step p t = (c.phaseAfter (t.service.turn (.about c.config f code)) p, u) ∧
      Idle token u ∧ u.patience = t.patience ∧ u.service = t.service.after (.about c.config f code) (sentIn p) := by
  cases p with
  | calling a =>
    let u := c.asks (.about c.config f code) (some token) t
    have hask : ask c (.about c.config f code) (some token) a t =
        (((t.service.turn (.about c.config f code)).yield c.levels).map fun r => ⟨a, r.1, r.2⟩, u) :=
      ask_of_heed_ok _ a (Run.heed_of_calm hidle.calm)
    have htimeline : u.timeline = t.timeline.advance (t.service.turn (.about c.config f code)).takes :=
      Scene.timeline_sent _ hcancels
    have hafter : Idle token u := by
      refine ⟨?_, htimeline ▸ hidle.calm.advance _⟩
      rw [htimeline, (Time.Timeline.later_advance _ _).length]
      exact hidle.known
    have hpatience : u.patience = t.patience := Scene.patience_sent _ _ _
    have hservice : u.service = t.service.rest (.about c.config f code) := Scene.service_sent _ _ _
    rw [Client.phaseAfter]
    cases hy : (t.service.turn (.about c.config f code)).yield c.levels with
    | ok r =>
      rw [hy] at hask
      exact ⟨u, Retry.step_calling_of_ok hask, hafter, hpatience, hservice⟩
    | error e =>
      rw [hy] at hask
      obtain ⟨lines, hnext⟩ := afterFailure_run c f code (some token) a e u
      exact ⟨u.noting lines, (Retry.step_calling_of_error hask).trans hnext, ⟨hafter.known, hafter.calm⟩, hpatience,
        hservice⟩
  | pausing a d =>
    obtain ⟨⟨b, timeline⟩, hwait⟩ :=
      Option.isSome_iff_exists.1 (hwaits t.timeline token a d hidle.known hidle.calm hp.1 hp.2.1 hp.2.2)
    obtain ⟨rfl, hcalm⟩ := hidle.calm.wait hwait
    have hlength := (Time.Timeline.wait_watched hwait).1.length
    have hpause := Run.pause_run token d t
    rw [hwait] at hpause
    exact ⟨_, Retry.step_pausing_of_ok hpause, ⟨hlength ▸ hidle.known, hcalm⟩, rfl, rfl⟩
  | ended r => exact ⟨t, rfl, hidle, rfl, rfl⟩

/-! ### What else is asked makes no difference -/

/-- The turns on the request about each of some findings depend on how often that request has been made, and where two
findings have the same request they are all the same; the caller cancels on none of them. A wait that the policy asks for
comes to an end. -/
structure Steady (c : Client σ) (code : String) (fs : List Finding) (s : Scene σ) : Prop where
  counts : ∀ f ∈ fs, s.service.Counts (.about c.config f code)
  apart : fs.Pairwise fun f g => Request.about c.config f code = .about c.config g code →
    s.service.Constant (.about c.config f code)
  cancels : ∀ f ∈ fs, ∀ before, (s.service.respond before (.about c.config f code)).cancels = false
  waits : c.Waits s.patience

/-- A service that answers each of the requests by itself is steady, whatever the findings have in common. -/
theorem steady_of_constant {fs : List Finding} (hconstant : ∀ f ∈ fs, s.service.Constant (.about c.config f code))
    (hcancels : ∀ f ∈ fs, ∀ before, (s.service.respond before (.about c.config f code)).cancels = false)
    (hwaits : c.Waits s.patience) : Steady c code fs s where
  counts f hf := (hconstant f hf).counts
  apart := List.pairwise_iff_getElem.2 fun i _ hi _ _ _ => hconstant _ (List.getElem_mem hi)
  cancels := hcancels
  waits := hwaits

/-- A scene with the service and the patience of a given one, whose token nothing cancels. -/
structure Quiet (s : Scene σ) (token : TokenId) (t : Scene σ) : Prop where
  respond : t.service.respond = s.service.respond
  patience : t.patience = s.patience
  idle : Idle token t

omit [Time.Seconds σ] in
theorem Quiet.noting (h : Quiet s token t) (lines : List (Level × Text.Wide)) : Quiet s token (t.noting lines) :=
  ⟨h.respond, h.patience, h.idle.known, h.idle.calm⟩

variable {fs : List Finding}

/-- A phase leads to what it leads to on the next turn for the finding's request, and all stays quiet. -/
theorem step_of_quiet (hst : Steady c code fs s) (hf : f ∈ fs) (ht : Quiet s token t) (hp : c.Proper p) :
    ∃ u, (attempts c f code (some token)).step p t = (c.phaseAfter (t.service.turn (.about c.config f code)) p, u) ∧
      Quiet s token u ∧ u.service = t.service.after (.about c.config f code) (sentIn p) := by
  have hcancels : (t.service.turn (.about c.config f code)).cancels = false := by
    rw [Service.turn, ht.respond]
    exact hst.cancels f hf _
  obtain ⟨u, hstep, hidle, hpatience, hservice⟩ := step_of_idle code ht.idle hcancels
    (by rw [ht.patience]; exact hst.waits) hp
  refine ⟨u, hstep, ⟨?_, hpatience.trans ht.patience, hidle⟩, hservice⟩
  rw [hservice, Service.after_eq]
  exact ht.respond

/-! ### A finding by itself -/

/-- Phases that follow each other if the turns are the given ones, from the first attempt on. -/
def Client.Follows (c : Client σ) (turns : Nat → Turn σ) : Retry.Phase σ Received → Prop :=
  Relation.ReflTransGen (fun p q => c.phaseAfter (turns (sentBefore p)) p = .ok q) (.calling 1)

theorem Client.Follows.proper {turns : Nat → Turn σ} (hn : 1 ≤ c.config.maxAttempts) (h : c.Follows turns p) :
    c.Proper p := by
  induction h with
  | refl => exact ⟨Nat.le_refl 1, hn⟩
  | tail _ hpq ih => exact (ih.phaseAfter hpq).1

/-- A finding that is judged by itself comes to the phases that follow each other on the turns for its request. -/
theorem reaches_of_follows (hst : Steady c code fs s) (hf : f ∈ fs) (hs : Quiet s token s)
    (hn : 1 ≤ c.config.maxAttempts) (h : c.Follows (s.service.answer (.about c.config f code)) p) :
    ∃ u, (attempts c f code (some token)).Reaches s p u ∧ Quiet s token u ∧
      u.service = s.service.after (.about c.config f code) (sentBefore p) := by
  induction h with
  | refl => exact ⟨s, .start, hs, rfl⟩
  | @tail p q hp hpq ih =>
    obtain ⟨u, hu, hquiet, hservice⟩ := ih
    have hproper := Client.Follows.proper hn hp
    obtain ⟨v, hstep, hv, hvservice⟩ := step_of_quiet hst hf hquiet hproper
    have hturn : u.service.turn (.about c.config f code) = s.service.answer (.about c.config f code) (sentBefore p) :=
      hservice ▸ rfl
    rw [hturn, hpq] at hstep
    refine ⟨v, hu.step hstep, hv, ?_⟩
    rw [hvservice, hservice, (hproper.phaseAfter hpq).2, Service.after_after]

/-- What a finding comes to by itself is read off the phase that its turns end in. -/
theorem judge_of_follows_ended (hst : Steady c code fs s) (hf : f ∈ fs) (hs : Quiet s token s)
    (hn : 1 ≤ c.config.maxAttempts) {received : Received}
    (h : c.Follows (s.service.answer (.about c.config f code)) (.ended received)) :
    (judge c f code (some token) s).1 = judgmentOf received := by
  obtain ⟨u, hu, -⟩ := reaches_of_follows hst hf hs hn h
  rw [judge_run, hu.run_of_ended hn]
  rfl

theorem judge_of_follows_stop (hst : Steady c code fs s) (hf : f ∈ fs) (hs : Quiet s token s)
    (hn : 1 ≤ c.config.maxAttempts) {stop : Retry.Stop Failure}
    (h : c.Follows (s.service.answer (.about c.config f code)) p)
    (hp : c.phaseAfter (s.service.answer (.about c.config f code) (sentBefore p)) p = .error stop) :
    (judge c f code (some token) s).1 = .error (failureOfStop stop) := by
  obtain ⟨u, hu, hquiet, hservice⟩ := reaches_of_follows hst hf hs hn h
  obtain ⟨v, hstep, -⟩ := step_of_quiet hst hf hquiet (Client.Follows.proper hn h)
  have hturn : u.service.turn (.about c.config f code) = s.service.answer (.about c.config f code) (sentBefore p) :=
    hservice ▸ rfl
  rw [hturn, hp] at hstep
  rw [judge_run, hu.run_of_stop hn hstep]
  rfl

/-! ### All tasks -/

/-- How many requests the judging of a finding has sent so far, unless it is over. -/
def Progress.sent? : Progress σ → Option Nat
  | .fresh => some 0
  | .underWay p => some (sentBefore p)
  | .ended _ => none

/-- A task goes on as its finding does by itself at a given scene. If the turns on its request are not all the same, nobody
else has made that request since. -/
structure Task.OnCourse (c : Client σ) (code : String) (token : TokenId) (s : Scene σ) (task : Task σ) (t : Scene σ) :
    Prop where
  follows : ∀ p, task.progress = .underWay p →
    1 ≤ c.config.maxAttempts ∧ c.Follows (s.service.answer (.about c.config task.finding code)) p
  ended : ∀ r, task.progress = .ended r → r = outcomeOf task.finding (judge c task.finding code (some token) s).1
  tallied : s.service.Constant (.about c.config task.finding code) ∨ ∀ n, task.progress.sent? = some n →
    t.service.asked.count (.about c.config task.finding code) =
      s.service.asked.count (.about c.config task.finding code) + n

/-- The next turn for a task under way is the one that its finding meets by itself. -/
theorem Task.OnCourse.turn (hcounts : s.service.Counts (.about c.config f code)) (ht : Quiet s token t) {own : TokenId}
    (h : Task.OnCourse c code own s ⟨f, .underWay p⟩ t) :
    t.service.turn (.about c.config f code) = s.service.answer (.about c.config f code) (sentBefore p) := by
  rw [Service.turn, ht.respond, Service.answer_eq]
  rcases h.tallied with hconstant | htally
  · exact hconstant _ _
  · refine hcounts _ _ ?_
    rw [htally _ rfl, List.count_append, List.count_replicate_self, Nat.add_comm]

/-- A step keeps a task on its course, whichever quiet token it heeds, and makes no other request than its own. -/
theorem Task.OnCourse.step {own : TokenId} (hst : Steady c code fs s) (hs : Quiet s token s) (ht : Quiet s own t)
    {task : Task σ} (hf : task.finding ∈ fs) (h : task.OnCourse c code token s t) :
    (Task.step c code own task t).1.OnCourse c code token s (Task.step c code own task t).2 ∧
      Quiet s own (Task.step c code own task t).2 ∧
      ∃ k, (Task.step c code own task t).2.service = t.service.after (.about c.config task.finding code) k := by
  -- a task that ends is settled, which is only logged
  have hend : ∀ (task : Task σ) (r : Except Failure Judgment) (u : Scene σ), Quiet s own u →
      r = (judge c task.finding code (some token) s).1 → (task.conclude r u).1.OnCourse c code token s (task.conclude r u).2 ∧
        Quiet s own (task.conclude r u).2 ∧ (task.conclude r u).2.service = u.service := by
    intro task r u hu hr
    obtain ⟨lines, hlines⟩ := settle_state task.finding r u
    rw [Task.conclude_run, hlines]
    refine ⟨⟨(fun _ hp => by cases hp), fun r' hr' => ?_, .inr nofun⟩, hu.noting lines, rfl⟩
    obtain rfl := Progress.ended.inj hr'
    exact hr ▸ rfl
  obtain ⟨f, progress⟩ := task
  cases progress with
  | fresh =>
    have hheed := Run.heed_of_calm ht.idle.calm
    by_cases hn : c.config.maxAttempts < 1
    · rw [Task.step_fresh_of_noAttempts hheed hn]
      have hnone : (.error .noAttempts : Except Failure Judgment) = (judge c f code (some token) s).1 := by
        rw [judge_run, Retry.run_of_no_attempts (r := attempts c f code (some token)) hn]
        rfl
      obtain ⟨hcourse, hquiet, hservice⟩ := hend ⟨f, .fresh⟩ _ _ ht hnone
      exact ⟨hcourse, hquiet, 0, hservice⟩
    · rw [Task.step_fresh_of_heed_ok _ hheed (Nat.not_lt.1 hn)]
      refine ⟨⟨fun p hp => ?_, (fun _ hr => by cases hr), h.tallied⟩, ht, 0, rfl⟩
      obtain rfl := Progress.underWay.inj hp
      exact ⟨Nat.not_lt.1 hn, .refl⟩
  | ended r => exact ⟨h, ht, 0, rfl⟩
  | underWay p =>
    obtain ⟨hn, hp⟩ := h.follows p rfl
    by_cases hr : ∃ received, p = .ended received
    · obtain ⟨received, rfl⟩ := hr
      rw [Task.step_received]
      obtain ⟨hcourse, hquiet, hservice⟩ := hend ⟨f, .underWay (.ended received)⟩ _ _ ht
        (judge_of_follows_ended hst hf hs hn hp).symm
      exact ⟨hcourse, hquiet, 0, hservice⟩
    · have hturn := h.turn (hst.counts f hf) ht
      have hproper := hp.proper hn
      obtain ⟨u, hstep, hu, hservice⟩ := step_of_quiet hst hf ht hproper
      rw [hturn] at hstep
      cases hq : c.phaseAfter (s.service.answer (.about c.config f code) (sentBefore p)) p with
      | ok q =>
        rw [hq] at hstep
        rw [Task.step_underWay_of_ok (fun r he => hr ⟨r, he⟩) hstep]
        refine ⟨⟨fun q' hq' => ?_, (fun _ hr => by cases hr), h.tallied.imp_right fun htally n hsent => ?_⟩, hu, _,
          hservice⟩
        · obtain rfl := Progress.underWay.inj hq'
          exact ⟨hn, hp.tail hq⟩
        · obtain rfl : sentBefore q = n := Option.some.inj hsent
          rw [hservice, Service.count_asked_after, if_pos rfl, htally _ rfl, (hproper.phaseAfter hq).2, Nat.add_assoc]
      | error stop =>
        rw [hq] at hstep
        rw [Task.step_underWay_of_error hstep]
        obtain ⟨hcourse, hquiet, hconcluded⟩ := hend ⟨f, .underWay p⟩ _ _ hu
          (judge_of_follows_stop hst hf hs hn hp hq).symm
        exact ⟨hcourse, hquiet, _, hconcluded.trans hservice⟩

/-- A task stays on its course when the request about another finding is made. -/
theorem Task.OnCourse.of_other {task : Task σ} {k : Nat} (h : task.OnCourse c code token s t)
    (hservice : u.service = t.service.after (.about c.config f code) k)
    (hapart : Request.about c.config task.finding code = .about c.config f code →
      s.service.Constant (.about c.config task.finding code)) : task.OnCourse c code token s u := by
  refine ⟨h.follows, h.ended, ?_⟩
  by_cases hsame : Request.about c.config task.finding code = .about c.config f code
  · exact .inl (hapart hsame)
  · refine h.tallied.imp_right fun htally n hn => ?_
    rw [hservice, Service.count_asked_after, if_neg (Ne.symm hsame), Nat.add_zero, htally n hn]

/-- Two findings at different places have different requests, or turns that are all the same. -/
theorem constant_of_ne (hst : Steady c code fs s) {i j : Nat} {g : Finding} (hij : j ≠ i) (hi : fs[i]? = some f)
    (hj : fs[j]? = some g) (h : Request.about c.config g code = .about c.config f code) :
    s.service.Constant (.about c.config g code) := by
  obtain ⟨hilt, rfl⟩ := List.getElem?_eq_some_iff.1 hi
  obtain ⟨hjlt, rfl⟩ := List.getElem?_eq_some_iff.1 hj
  have hapart := List.pairwise_iff_getElem.1 hst.apart
  rcases Nat.lt_or_gt_of_ne hij with hlt | hlt
  · exact hapart j i hjlt hilt hlt h
  · exact h ▸ hapart i j hilt hjlt hlt h.symm

/-- Whatever the order in which tasks move on, all of them stay on their courses. -/
theorem onCourse_of_reaches {own : TokenId} (hst : Steady c code fs s) (hs : Quiet s token s) (ht : Quiet s own t)
    (hasked : t.service = s.service) {y : List (Task σ) × Scene σ}
    (h : (poolWork c code own).Reaches (fs.map Task.ofFinding, t) y) :
    Quiet s own y.2 ∧ ∀ (i : Nat) (task : Task σ), y.1[i]? = some task →
      fs[i]? = some task.finding ∧ task.OnCourse c code token s y.2 := by
  refine Work.Reaches.shared_invariant (I := Quiet s own)
    (J := fun i task u => fs[i]? = some task.finding ∧ task.OnCourse c code token s u) ht (fun i task htask => ?_) ?_ h
  · rw [List.getElem?_map] at htask
    obtain ⟨f, hf, rfl⟩ := Option.map_eq_some_iff.1 htask
    refine ⟨hf, (fun _ hp => by cases hp), (fun _ hr => by cases hr), .inr fun n hn => ?_⟩
    obtain rfl : 0 = n := Option.some.inj hn
    rw [hasked, Nat.add_zero]
  · intro _ u i task _ _ _ hquiet ⟨hf, hcourse⟩
    obtain ⟨hcourse', hquiet', k, hservice⟩ := hcourse.step hst hs hquiet (List.mem_of_getElem? hf)
    refine ⟨hquiet', ⟨hf.trans (congrArg some (Task.finding_step task u).symm), hcourse'⟩, ?_⟩
    rintro j other hji - ⟨hother, hon⟩
    exact ⟨hother, hon.of_other hservice (constant_of_ne hst hji hf hother)⟩

theorem determined_of_steady {own : TokenId} (hst : Steady c code fs s) (hs : Quiet s token s) (ht : Quiet s own t)
    (hasked : t.service = s.service) : (poolWork c code own).Determined (fs.map Task.ofFinding) t
      (fs.map fun f => outcomeOf f (judge c f code (some token) s).1) := by
  intro y hy i task r htask hr
  obtain ⟨hf, hcourse⟩ := (onCourse_of_reaches hst hs ht hasked hy).2 i task htask
  obtain ⟨f, progress⟩ := task
  obtain rfl : progress = .ended r := Task.result?_eq_some.1 hr
  rw [List.getElem?_map, hf]
  exact congrArg some (hcourse.ended r rfl).symm

end Adjudication.Judge
