import Adjudication.Proofs.Judge.Limits
import Adjudication.Proofs.Judge.Sound
import Adjudication.Proofs.Time.Elapsed

/-!
How long the judging of a finding takes in exact time. Each attempt takes as long as its answer, and each wait as long as the
policy says, on whatever token it is made and in however many slices; so where the judging ends the clock shows the start, the
answers, and the waits between them. All waits together are the same for both policies, whose waits are those of the other in
the opposite order.
-/

namespace Adjudication.Judge

open Time (TokenId Seconds)

variable {σ : Type} [Seconds σ] {value : σ → ℚ}

/-! ### Lengths of time -/

/-- How long the first answers to a request take. -/
def Service.durations (service : Service σ) (request : Request) (k : Nat) : List σ :=
  (List.range k).map fun i => (service.answer request i).takes

/-- What some lengths of time amount to. -/
def total (value : σ → ℚ) (xs : List σ) : ℚ := (xs.map value).sum

omit [Seconds σ] in
theorem total_concat (xs : List σ) (x : σ) : total value (xs ++ [x]) = total value xs + value x := by
  simp [total]

omit [Seconds σ] in
theorem total_reverse (xs : List σ) : total value xs.reverse = total value xs := by
  rw [total, List.map_reverse, List.sum_reverse, total]

omit [Seconds σ] in
theorem durations_succ (service : Service σ) (request : Request) (k : Nat) :
    service.durations request (k + 1) = service.durations request k ++ [(service.answer request k).takes] := by
  simp [Service.durations, List.range_succ]

theorem delays_succ (c : Client σ) (k : Nat) : c.delays (k + 1) = c.delays k ++ [c.delay (k + 1)] := by
  simp [Client.delays, List.range_succ]

/-- A client with another policy. -/
def Client.withBackoff (c : Client σ) (policy : Backoff) : Client σ :=
  { c with config := { c.config with backoff := policy } }

/-- The waits of the one policy are those of the other in the opposite order. -/
theorem delays_ascending (c : Client σ) :
    (c.withBackoff .ascending).delays (c.config.maxAttempts - 1) =
      ((c.withBackoff .descending).delays (c.config.maxAttempts - 1)).reverse := by
  refine List.ext_getElem (by simp [Client.delays]) fun i hi _ => ?_
  have hi : i < c.config.maxAttempts - 1 := by simpa [Client.delays] using hi
  simp only [Client.delays, List.getElem_reverse, List.getElem_map, List.getElem_range, List.length_map, List.length_range]
  have hfactor : Backoff.ascending.factor (i + 1 : Nat) c.config.maxAttempts =
      Backoff.descending.factor (c.config.maxAttempts - 1 - 1 - i + 1 : Nat) c.config.maxAttempts := by
    simp only [Backoff.factor]
    omega
  exact congrArg (fun k => Time.Multiple.times k c.config.backoffBase) hfactor

/-- The waits that rise amount to the base length as often as the first numbers add up to. -/
theorem total_delays_ascending (hv : Seconds.Measured value) (c : Client σ) (hpolicy : c.config.backoff = .ascending) :
    ∀ k : Nat, total value (c.delays k) = value c.config.backoffBase * (k * (k + 1) / 2)
  | 0 => by simp [Client.delays, total]
  | k + 1 => by
    have hdelay : value (c.delay (k + 1)) = (k + 1) * value c.config.backoffBase := by
      rw [Client.delay, Backoff.delay, hpolicy, Backoff.factor, hv.times]
      push_cast
      ring
    rw [delays_succ, total_concat, total_delays_ascending hv c hpolicy k, hdelay]
    push_cast
    ring

/-- All waits together are the same for both policies. -/
theorem total_delays (hv : Seconds.Measured value) {c : Client σ} (hn : 1 ≤ c.config.maxAttempts) :
    total value (c.delays (c.config.maxAttempts - 1)) =
      value c.config.backoffBase * c.config.maxAttempts * (c.config.maxAttempts - 1) / 2 := by
  have hrising : total value ((c.withBackoff .ascending).delays (c.config.maxAttempts - 1)) =
      value c.config.backoffBase * c.config.maxAttempts * (c.config.maxAttempts - 1) / 2 := by
    rw [total_delays_ascending hv (c.withBackoff .ascending) rfl, Nat.cast_sub hn]
    simp only [Client.withBackoff]
    push_cast
    ring
  cases hpolicy : c.config.backoff with
  | ascending =>
    have hsame : c.withBackoff .ascending = c := by rw [Client.withBackoff, ← hpolicy]
    rwa [hsame] at hrising
  | descending =>
    have hsame : c.withBackoff .descending = c := by rw [Client.withBackoff, ← hpolicy]
    rwa [delays_ascending, total_reverse, hsame] at hrising

/-! ### The clock -/

variable {c : Client σ} {f : Finding} {code : String} {id : TokenId} {s t u : Scene σ}

/-- A request takes as long as the answer to it does, whoever cancels meanwhile. -/
theorem now_sent (s : Scene σ) (request : Request) (timeout : σ) :
    (s.sent request timeout).timeline.now = Seconds.add s.timeline.now (s.service.turn request).takes := by
  have hasked : (s.asked request timeout).timeline.now =
      Seconds.add s.timeline.now (s.service.turn request).takes := Time.Timeline.now_advance _ _
  rw [Scene.sent, Scene.answered, Scene.taken, Scene.cancelCaller]
  split <;> split <;> (try split) <;> exact hasked

/-- A pause that comes to its end takes as long as it is meant to. -/
theorem now_pause (hv : Seconds.Exact value) {delay : σ} (h : Run.pause (some id) delay s = (.ok (), t)) :
    value t.timeline.now = value s.timeline.now + max 0 (value delay) := by
  rw [Run.pause_run] at h
  cases hwait : s.timeline.wait s.patience id delay with
  | none =>
    rw [hwait] at h
    exact absurd h Act.error_ne_ok
  | some waited =>
    obtain ⟨cancelled, timeline⟩ := waited
    rw [hwait] at h
    cases cancelled with
    | true => exact absurd h Act.error_ne_ok
    | false =>
      obtain ⟨-, rfl⟩ := Act.ok_eq_ok.1 h
      exact Time.Timeline.now_wait hv hwait

theorem delay_nonneg (hv : Seconds.Measured value) (hbase : 0 ≤ value c.config.backoffBase) {a : Nat}
    (ha : a ≤ c.config.maxAttempts) : 0 ≤ value (c.delay a) := by
  have hfactor : 0 ≤ c.config.backoff.factor a c.config.maxAttempts := by
    cases c.config.backoff with
    | descending => exact Int.sub_nonneg_of_le (Int.ofNat_le.2 ha)
    | ascending => exact Int.natCast_nonneg a
  rw [Client.delay, Backoff.delay, hv.times]
  exact mul_nonneg (Int.cast_nonneg hfactor) hbase

/-- An attempt on a token is cancelled before it begins, or it comes to what the next answer yields and takes as long. -/
theorem ask_cases (c : Client σ) (id : TokenId) (request : Request) (a : Nat) (t : Scene σ) :
    (ask c request (some id) a t).1 = .error (.cancelled .verification) ∨
      ∃ u, ask c request (some id) a t = (((t.service.turn request).yield c.levels).map fun r => ⟨a, r.1, r.2⟩, u) ∧
        u.service = t.service.rest request ∧
        u.timeline.now = Seconds.add t.timeline.now (t.service.turn request).takes := by
  rcases hheed : Run.heed (some id) t with ⟨e | ⟨⟩, v⟩
  · rw [ask_of_heed_error request a hheed, heed_eq_error hheed]
    exact .inl rfl
  · obtain ⟨-, rfl⟩ := Run.heed_eq_ok hheed
    exact .inr ⟨_, ask_of_heed_ok request a hheed, Scene.service_sent _ _ _, now_sent _ _ _⟩

/-- An attempt under way is cancelled, or it takes as long as the next answer and leads to where that leads. -/
theorem step_calling (c : Client σ) (f : Finding) (code : String) (id : TokenId) (a : Nat) (t : Scene σ) :
    (∃ u, (attempts c f code (some id)).step (.calling a) t = (.error (.escaped (.cancelled .verification)), u)) ∨
      ∃ u, u.service = t.service.rest (.about c.config f code) ∧
        u.timeline.now = Seconds.add t.timeline.now (t.service.turn (.about c.config f code)).takes ∧
        ((∃ content members, (t.service.turn (.about c.config f code)).yield c.levels = .ok (content, members) ∧
            (attempts c f code (some id)).step (.calling a) t = (.ok (.ended ⟨a, content, members⟩), u)) ∨
          ∃ e, (t.service.turn (.about c.config f code)).yield c.levels = .error e ∧
            (attempts c f code (some id)).step (.calling a) t = (c.next a e, u)) := by
  rcases ask_cases c id (.about c.config f code) a t with hcancelled | ⟨v, hask, hservice, hnow⟩
  · have hask : ask c (.about c.config f code) (some id) a t = (.error (.cancelled .verification), _) :=
      Prod.ext hcancelled rfl
    obtain ⟨lines, hafter⟩ := afterFailure_run c f code (some id) a (.cancelled .verification)
      (ask c (.about c.config f code) (some id) a t).2
    exact .inl ⟨_, (Retry.step_calling_of_error hask).trans hafter⟩
  · cases hyield : (t.service.turn (.about c.config f code)).yield c.levels with
    | ok r =>
      rw [hyield] at hask
      exact .inr ⟨v, hservice, hnow, .inl ⟨r.1, r.2, rfl, Retry.step_calling_of_ok hask⟩⟩
    | error e =>
      rw [hyield] at hask
      obtain ⟨lines, hafter⟩ := afterFailure_run c f code (some id) a e v
      exact .inr ⟨v.noting lines, hservice, hnow, .inr ⟨e, rfl, (Retry.step_calling_of_error hask).trans hafter⟩⟩

/-- A failed attempt that leads to a pause was at fault, and not the last one; the pause is the one that the policy says. -/
theorem next_eq_ok {a : Nat} {e : Failure} {q : Retry.Phase σ Received} (h : c.next a e = .ok q) :
    (∃ fault, e = .attempt fault) ∧ a ≠ c.config.maxAttempts ∧ q = .pausing a (c.delay a) := by
  have hnext := c.next_cases a e
  rw [h] at hnext
  cases hnext with
  | @pausing fault d hmore hdelay =>
    rw [Backoff.delay?] at hdelay
    split at hdelay
    · obtain rfl := Option.some.inj hdelay
      exact ⟨⟨fault, rfl⟩, hmore, rfl⟩
    · cases hdelay

/-- A failed attempt that exhausts the attempts was at fault, and the last one. -/
theorem exhausted_of_next {a n : Nat} {e : Failure} {stop : Retry.Stop Failure} {last : AttemptFault}
    (he : e.isOfReply = true) (h : c.next a e = .error stop)
    (hstop : failureOfStop stop = .judging (.exhausted n last)) :
    n = a ∧ a = c.config.maxAttempts ∧ e = .attempt last := by
  have hnext := c.next_cases a e
  rw [h] at hnext
  cases hnext with
  | escaped _ =>
    obtain rfl : e = .judging (.exhausted n last) := hstop
    cases he
  | exhausted hlast =>
    obtain ⟨rfl, rfl⟩ := JudgeError.exhausted.inj (Failure.judging.inj hstop)
    exact ⟨rfl, hlast, rfl⟩
  | tooLarge _ _ => cases hstop

/-! ### From phase to phase -/

/-- After some answers and some waits, the service has given these answers, and the clock has gone on by what answers and
waits take. -/
structure Elapsed (value : σ → ℚ) (c : Client σ) (request : Request) (s t : Scene σ) (answers waits : Nat) : Prop where
  service : t.service = s.service.after request answers
  now : value t.timeline.now = value s.timeline.now + total value (s.service.durations request answers) +
    total value (c.delays waits)

/-- What is so in each phase: all answers but that to the attempt under way were faults, and so was the last one if a pause
follows it; an attempt is preceded by as many waits as answers, and a pause and an end by one wait less. -/
def Clocked (value : σ → ℚ) (c : Client σ) (f : Finding) (code : String) (s : Scene σ) :
    Retry.Phase σ Received → Scene σ → Prop
  | .calling a, t => ∃ m, a = m + 1 ∧ m < c.config.maxAttempts ∧
      (∀ i < m, (s.service.answer (.about c.config f code) i).Faulty c.levels) ∧
      Elapsed value c (.about c.config f code) s t m m
  | .pausing a d, t => ∃ m, a = m + 1 ∧ a < c.config.maxAttempts ∧ d = c.delay a ∧
      (∀ i ≤ m, (s.service.answer (.about c.config f code) i).Faulty c.levels) ∧
      Elapsed value c (.about c.config f code) s t (m + 1) m
  | .ended r, t => ∃ m, r.attempt = m + 1 ∧ m < c.config.maxAttempts ∧
      (∀ i < m, (s.service.answer (.about c.config f code) i).Faulty c.levels) ∧
      (s.service.answer (.about c.config f code) m).yield c.levels = .ok (r.content, r.members) ∧
      Elapsed value c (.about c.config f code) s t (m + 1) m

theorem Elapsed.start (value : σ → ℚ) (c : Client σ) (request : Request) (s : Scene σ) :
    Elapsed value c request s s 0 0 :=
  ⟨rfl, by simp [Service.durations, Client.delays, total]⟩

/-- The next answer is the one that comes after those that have been given. -/
theorem Elapsed.turn {request : Request} {answers waits : Nat} (h : Elapsed value c request s t answers waits) :
    t.service.turn request = s.service.answer request answers := by
  rw [h.service]
  rfl

theorem Elapsed.answer (hv : Seconds.Exact value) {request : Request} {m : Nat} (h : Elapsed value c request s t m m)
    (hservice : u.service = t.service.rest request)
    (hnow : u.timeline.now = Seconds.add t.timeline.now (t.service.turn request).takes) :
    Elapsed value c request s u (m + 1) m := by
  refine ⟨by rw [hservice, h.service]; rfl, ?_⟩
  rw [hnow, hv.add, h.now, h.turn, durations_succ, total_concat]
  ring

theorem Elapsed.wait {request : Request} {m : Nat} (h : Elapsed value c request s t (m + 1) m)
    (hservice : u.service = t.service) (hnow : value u.timeline.now = value t.timeline.now + value (c.delay (m + 1))) :
    Elapsed value c request s u (m + 1) (m + 1) := by
  refine ⟨hservice.trans h.service, ?_⟩
  rw [hnow, h.now, delays_succ, total_concat]
  ring

/-- What is so in a phase is so in the next one. -/
theorem Clocked.step (hv : Seconds.Measured value) (hbase : 0 ≤ value c.config.backoffBase) {p q : Retry.Phase σ Received}
    (h : Clocked value c f code s p t) (hstep : (attempts c f code (some id)).step p t = (.ok q, u)) :
    Clocked value c f code s q u := by
  cases p with
  | calling a =>
    obtain ⟨m, rfl, hm, hfaulty, helapsed⟩ := h
    rcases step_calling c f code id (m + 1) t with
      ⟨v, hcancelled⟩ | ⟨v, hservice, hnow, ⟨content, members, hyield, hended⟩ | ⟨e, hyield, hnext⟩⟩
    · exact absurd (hcancelled.symm.trans hstep) Act.error_ne_ok
    · obtain ⟨rfl, rfl⟩ := Act.ok_eq_ok.1 (hended.symm.trans hstep)
      exact ⟨m, rfl, hm, hfaulty, helapsed.turn ▸ hyield, helapsed.answer hv.toExact hservice hnow⟩
    · obtain ⟨hnext, rfl⟩ := Prod.mk.inj (hnext.symm.trans hstep)
      obtain ⟨⟨fault, rfl⟩, hlast, rfl⟩ := next_eq_ok hnext
      refine ⟨m, rfl, Nat.lt_of_le_of_ne hm hlast, rfl, fun i hi => ?_, helapsed.answer hv.toExact hservice hnow⟩
      rcases Nat.lt_or_eq_of_le hi with hi | rfl
      · exact hfaulty i hi
      · exact ⟨fault, helapsed.turn ▸ hyield⟩
  | pausing a d =>
    obtain ⟨m, rfl, hm, rfl, hfaulty, helapsed⟩ := h
    obtain ⟨rfl, hpause⟩ := Retry.step_pausing_cases hstep
    refine ⟨m + 1, rfl, hm, fun i hi => hfaulty i (Nat.le_of_lt_succ hi), helapsed.wait (Run.pause_frame hpause).1 ?_⟩
    rw [now_pause hv.toExact hpause, max_eq_right (delay_nonneg hv hbase (Nat.le_of_lt hm))]
  | ended r =>
    obtain ⟨rfl, rfl⟩ := Act.ok_eq_ok.1 hstep
    exact h

theorem clocked_of_reaches (hv : Seconds.Measured value) (hbase : 0 ≤ value c.config.backoffBase)
    (hn : 1 ≤ c.config.maxAttempts) {p : Retry.Phase σ Received}
    (h : (attempts c f code (some id)).Reaches s p t) : Clocked value c f code s p t := by
  suffices hx : ∀ x : Retry.Phase σ Received × Scene σ,
      Relation.ReflTransGen (attempts c f code (some id)).Passes (.calling 1, s) x → Clocked value c f code s x.1 x.2 from hx _ h
  intro x hx
  induction hx with
  | refl => exact ⟨0, rfl, hn, fun i hi => absurd hi (Nat.not_lt_zero i), .start value c (.about c.config f code) s⟩
  | tail _ hpass ih => exact ih.step hv hbase hpass

/-! ### Where the judging ends -/

/-- An attempt that exhausts the attempts is the last of them, and its answer was a fault too. -/
theorem Clocked.exhausted (hv : Seconds.Measured value) {p : Retry.Phase σ Received} {stop : Retry.Stop Failure}
    {n : Nat} {last : AttemptFault} (h : Clocked value c f code s p t)
    (hstep : (attempts c f code (some id)).step p t = (.error stop, u))
    (hstop : failureOfStop stop = .judging (.exhausted n last)) :
    n = c.config.maxAttempts ∧ (∀ i < n, (s.service.answer (.about c.config f code) i).Faulty c.levels) ∧
      Elapsed value c (.about c.config f code) s u n (n - 1) := by
  cases p with
  | calling a =>
    obtain ⟨m, rfl, hm, hfaulty, helapsed⟩ := h
    rcases step_calling c f code id (m + 1) t with
      ⟨v, hcancelled⟩ | ⟨v, hservice, hnow, ⟨content, members, -, hended⟩ | ⟨e, hyield, hnext⟩⟩
    · obtain ⟨rfl, -⟩ := Act.error_eq_error.1 (hcancelled.symm.trans hstep)
      cases hstop
    · exact absurd (hended.symm.trans hstep) Act.ok_ne_error
    · obtain ⟨hnext, rfl⟩ := Prod.mk.inj (hnext.symm.trans hstep)
      obtain ⟨rfl, hlast, rfl⟩ := exhausted_of_next (isOfReply_of_yield hyield) hnext hstop
      refine ⟨hlast, fun i hi => ?_, helapsed.answer hv.toExact hservice hnow⟩
      rcases Nat.lt_or_eq_of_le (Nat.le_of_lt_succ hi) with hi | rfl
      · exact hfaulty i hi
      · exact ⟨last, helapsed.turn ▸ hyield⟩
  | pausing a d =>
    rw [Retry.step_pausing] at hstep
    rcases hpause : (attempts c f code (some id)).pause d t with ⟨e | ⟨⟩, v⟩
    · rw [hpause] at hstep
      obtain ⟨rfl, -⟩ := Act.error_eq_error.1 hstep
      rcases pause_eq_error hpause with rfl | rfl <;> cases hstop
    · rw [hpause] at hstep
      exact absurd hstep Act.ok_ne_error
  | ended r => exact absurd hstep Act.ok_ne_error

theorem judge_cases (hn : 1 ≤ c.config.maxAttempts) (f : Finding) (code : String) (id : TokenId) (s : Scene σ) :
    (∃ r t, (attempts c f code (some id)).Reaches s (.ended r) t ∧ judge c f code (some id) s = (judgmentOf r, t)) ∨
      ∃ p t stop u, (attempts c f code (some id)).Reaches s p t ∧
        (attempts c f code (some id)).step p t = (.error stop, u) ∧
        judge c f code (some id) s = (.error (failureOfStop stop), u) := by
  rcases Retry.run_ends (r := attempts c f code (some id)) hn s with
    ⟨r, t, hreaches, hrun⟩ | ⟨p, t, stop, u, hreaches, hstep, hrun⟩
  · refine .inl ⟨r, t, hreaches, ?_⟩
    rw [judge_run, hrun]
    rfl
  · refine .inr ⟨p, t, stop, u, hreaches, hstep, ?_⟩
    rw [judge_run, hrun]
    rfl

/-- What a received object is made a judgment of is a failure of judging only if it is malformed. -/
theorem judgmentOf_ne_exhausted (r : Received) (n : Nat) (last : AttemptFault) :
    judgmentOf r ≠ .error (.judging (.exhausted n last)) := by
  intro h
  rw [judgmentOf] at h
  split at h <;> cases h

/-- How long judging takes in exact time, on any token and so on a child of one as well as on one without a parent.
* A judging that exhausts its attempts ends after all answers and all waits; these amount to the base length times
  `n * (n - 1) / 2`, whatever the policy is.
* A judging that succeeds at attempt `k`, where the first object comes, ends after `k` answers and the first `k - 1` waits.
* The waits of the one policy are those of the other in the opposite order.
* As long as the token is not cancelled, judging does exhaust its attempts if all answers are faults, and it does succeed if
  the first object holds a verdict. -/
theorem judge_budget (hv : Seconds.Measured value) (hbase : 0 ≤ value c.config.backoffBase)
    (hn : 1 ≤ c.config.maxAttempts) (f : Finding) (code : String) (id : TokenId) (s : Scene σ) :
    (∀ n last u, judge c f code (some id) s = (.error (.judging (.exhausted n last)), u) →
      n = c.config.maxAttempts ∧ (∀ i < n, (s.service.answer (.about c.config f code) i).Faulty c.levels) ∧
      value u.timeline.now = value s.timeline.now + total value (s.service.durations (.about c.config f code) n) +
        value c.config.backoffBase * n * (n - 1) / 2) ∧
    (∀ j u, judge c f code (some id) s = (.ok j, u) → ∃ k, 1 ≤ k ∧ k ≤ c.config.maxAttempts ∧
      (∀ i < k - 1, (s.service.answer (.about c.config f code) i).Faulty c.levels) ∧
      (∃ content members, (s.service.answer (.about c.config f code) (k - 1)).yield c.levels = .ok (content, members) ∧
        judgmentOf ⟨k, content, members⟩ = .ok j) ∧
      value u.timeline.now = value s.timeline.now + total value (s.service.durations (.about c.config f code) k) +
        total value (c.delays (k - 1))) ∧
    (c.withBackoff .ascending).delays (c.config.maxAttempts - 1) =
      ((c.withBackoff .descending).delays (c.config.maxAttempts - 1)).reverse ∧
    (NeverCancelled c f code (some id) s →
      ((∀ i < c.config.maxAttempts, (s.service.answer (.about c.config f code) i).Faulty c.levels) →
        ∃ last u, judge c f code (some id) s = (.error (.judging (.exhausted c.config.maxAttempts last)), u)) ∧
      ∀ m < c.config.maxAttempts, (∀ i < m, (s.service.answer (.about c.config f code) i).Faulty c.levels) →
        ∀ content members j, (s.service.answer (.about c.config f code) m).yield c.levels = .ok (content, members) →
          judgmentOf ⟨m + 1, content, members⟩ = .ok j → ∃ u, judge c f code (some id) s = (.ok j, u)) := by
  refine ⟨fun n last u h => ?_, fun j u h => ?_, delays_ascending c, fun hnc => ⟨fun hfaulty => ?_, ?_⟩⟩
  · rcases judge_cases hn f code id s with
      ⟨r, t, -, hjudge⟩ | ⟨p, t, stop, v, hreaches, hstep, hjudge⟩
    · exact absurd (congrArg Prod.fst (hjudge.symm.trans h)) (judgmentOf_ne_exhausted r n last)
    · obtain ⟨hstop, rfl⟩ := Act.error_eq_error.1 (hjudge.symm.trans h)
      obtain ⟨rfl, hfaulty, helapsed⟩ := (clocked_of_reaches hv hbase hn hreaches).exhausted hv hstep hstop
      refine ⟨rfl, hfaulty, ?_⟩
      rw [helapsed.now, total_delays hv hn]
  · rcases judge_cases hn f code id s with
      ⟨r, t, hreaches, hjudge⟩ | ⟨p, t, stop, v, -, -, hjudge⟩
    · obtain ⟨hj, rfl⟩ := Prod.mk.inj (hjudge.symm.trans h)
      obtain ⟨m, hm, hlt, hfaulty, hyield, helapsed⟩ := clocked_of_reaches hv hbase hn hreaches
      refine ⟨m + 1, Nat.le_add_left 1 m, hlt, hfaulty, ⟨r.content, r.members, hyield, ?_⟩, helapsed.now⟩
      rw [← hj, ← hm]
    · exact absurd (hjudge.symm.trans h) Act.error_ne_ok
  · obtain ⟨m, hm⟩ := Nat.exists_eq_add_of_le' hn
    have hlt : m < c.config.maxAttempts := by omega
    obtain ⟨last, hlast⟩ := hfaulty m hlt
    obtain ⟨u, hjudge, -⟩ := judge_of_stop hnc hlt (fun i hi => hfaulty i (Nat.lt_trans hi hlt))
      (fun i _ => hv.reaches _ _) hlast (hm ▸ Client.next_of_last last)
    rw [hm]
    exact ⟨last, u, hjudge⟩
  · intro m hm hfaulty content members j hyield hj
    obtain ⟨u, hjudge, -⟩ := judge_of_object hnc hm hfaulty (fun i _ => hv.reaches _ _) hyield
    exact ⟨u, hjudge.trans (by rw [hj])⟩

/-- A service that is busy for ten seconds, then for five, and then for two. -/
def slowService : Service Int :=
  .ofScripts 0 [] [⟨10000000, false, none, .refused "busy"⟩, ⟨5000000, false, none, .refused "busy"⟩,
    ⟨2000000, false, none, .refused "busy"⟩]

/-- A scene with a token and a child of it, whose waits are made in slices. -/
def childScene : Scene Int := { (Scene.ofService slowService .nothing).withChild 0 with patience := 9 }

/-- A client with three attempts and a base length of 70 milliseconds. -/
def patientClient : Client Int := .ofAttempts 3 70000

theorem faulty_slowService (levels : Nat) (request : Request) : ∀ i < 3, (slowService.answer request i).Faulty levels
  | 0, _ | 1, _ | 2, _ => ⟨.transport (.request "busy"), rfl⟩

theorem only_slowService : slowService.Only fun turn => turn.cancels = false :=
  Service.only_ofScripts rfl (by decide) (by decide)

theorem neverCancelled_child (f : Finding) (code : String) : NeverCancelled patientClient f code (some 1) childScene := by
  have hcalm : childScene.timeline.Calm 1 := by decide
  have hcancels : childScene.service.Only fun turn => turn.cancels = false := only_slowService
  refine neverCancelled_of_patience Time.exact_int (by decide) ⟨by decide, hcalm⟩ hcancels (fun a d h1 hlt hd => ?_) f code
  obtain rfl : ((3 : Nat) - (a : Int)) * 70000 = d := Option.some.inj hd
  have hle : Time.ofMicroseconds (((3 : Nat) - (a : Int)) * 70000) ≤ 14 / 100 := by
    rw [Time.ofMicroseconds, div_le_iff₀ (by norm_num)]
    have h1 : (1 : ℚ) ≤ a := by exact_mod_cast h1
    push_cast
    linarith
  have hmax : max 0 (Time.ofMicroseconds (((3 : Nat) - (a : Int)) * 70000)) ≤ 14 / 100 := max_le (by norm_num) hle
  show 20 * _ + 2 ≤ ((9 : Nat) : ℚ)
  push_cast
  linarith

/-- Three attempts are exhausted on the child, after 17.21 seconds. -/
theorem judge_budget_child : 0 ≤ Time.ofMicroseconds 70000 ∧
    NeverCancelled patientClient (.ofCheck "a") "" (some 1) childScene ∧ ∃ last u,
      judge patientClient (.ofCheck "a") "" (some 1) childScene = (.error (.judging (.exhausted 3 last)), u) ∧
        Time.ofMicroseconds u.timeline.now = 1721 / 100 := by
  have hbase : 0 ≤ Time.ofMicroseconds 70000 := by norm_num [Time.ofMicroseconds]
  have hnc := neverCancelled_child (.ofCheck "a") ""
  obtain ⟨hexhausted, -, -, hends⟩ := judge_budget (c := patientClient) Time.measured_int hbase (by decide) (.ofCheck "a") ""
    1 childScene
  obtain ⟨last, u, hjudge⟩ := (hends hnc).1 (faulty_slowService _ _)
  obtain ⟨-, -, hnow⟩ := hexhausted 3 last u hjudge
  refine ⟨hbase, hnc, last, u, hjudge, hnow.trans ?_⟩
  have hdurations : childScene.service.durations (.about patientClient.config (.ofCheck "a") "") 3 =
      [10000000, 5000000, 2000000] := rfl
  have hstart : childScene.timeline.now = 0 := rfl
  have hlength : patientClient.config.backoffBase = 70000 := rfl
  rw [hdurations, hstart, hlength, total]
  norm_num [Time.ofMicroseconds]

end Adjudication.Judge
