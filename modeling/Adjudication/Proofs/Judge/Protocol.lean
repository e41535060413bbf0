import Adjudication.Proofs.Judge.Client
import Adjudication.Proofs.Judge.Service
import Mathlib

/-!
The protocol of judging one finding. The same request is sent until an object comes back, at most as often as the
configuration allows; after every answer but the last there is one wait, as long as the policy says. The first object
decides, whether it holds a verdict or not; if no object comes back, the attempts are exhausted. A wait whose length
is no number ends the judging instead.
-/

namespace Adjudication.Judge

open Time (TokenId)

variable {σ : Type}

/-! ### What goes back and forth -/

/-- What a client does while it judges: it sends requests and waits. -/
inductive Exchange (σ : Type) where
  | request (r : Request)
  | wait (delay : σ)

def Exchange.ofEvent? : Event σ → Option (Exchange σ)
  | .requested r _ _ => some (.request r)
  | .paused delay _ _ => some (.wait delay)
  | _ => none

/-- The requests and the waits of a trace in their order. -/
def exchanges (s : Scene σ) : List (Exchange σ) := s.trace.filterMap Exchange.ofEvent?

/-- A request before each of some waits and one after them all. -/
def dialogue (r : Request) (waits : List σ) : List (Exchange σ) :=
  waits.flatMap (fun delay => [.request r, .wait delay]) ++ [.request r]

theorem exchanges_of_trace_append {s t : Scene σ} {events : List (Event σ)} (h : t.trace = s.trace ++ events) :
    exchanges t = exchanges s ++ events.filterMap Exchange.ofEvent? := by
  rw [exchanges, h, List.filterMap_append]
  rfl

/-- Lines of the log are no exchanges. -/
theorem exchanges_noting (s : Scene σ) (lines : List (Level × Text.Wide)) : exchanges (s.noting lines) = exchanges s := by
  have hnone : (lines.map fun line => Event.logged line.1 line.2).filterMap (Exchange.ofEvent? (σ := σ)) = [] := by
    induction lines with
    | nil => rfl
    | cons line lines ih => exact ih
  rw [exchanges_of_trace_append (s := s) (t := s.noting lines) rfl, hnone, List.append_nil]

variable [Time.Seconds σ]

/-- A request is one exchange, whatever comes back. -/
theorem exchanges_sent (s : Scene σ) (r : Request) (timeout : σ) :
    exchanges (s.sent r timeout) = exchanges s ++ [.request r] := by
  have htaken : exchanges (s.taken r timeout) = exchanges s ++ [.request r] := by
    rw [Scene.taken]
    split
    · simp only [Scene.cancelCaller]
      split
      next id _ =>
        have htrace : ((s.asked r timeout).cancel id).trace = s.trace ++
            [.requested r timeout s.timeline.now, .cancelled id (s.asked r timeout).timeline.now] :=
          List.append_assoc _ _ _
        exact exchanges_of_trace_append htrace
      next => exact exchanges_of_trace_append (t := s.asked r timeout) rfl
    · exact exchanges_of_trace_append (t := s.asked r timeout) rfl
  rw [Scene.sent, Scene.answered]
  split
  · rw [← htaken]
    exact (exchanges_of_trace_append (s := s.taken r timeout) rfl).trans (List.append_nil _)
  · exact htaken

/-! ### Answers -/

/-- The answer is worth another attempt: the request failed, or no object came back. -/
def Turn.Faulty (levels : Nat) (turn : Turn σ) : Prop := ∃ e, turn.yield levels = .error (.attempt e)

/-- The answer's content is the JSON text of an object. -/
structure Turn.Brings (levels : Nat) (turn : Turn σ) (content : Text.Wide) (members : Json.Members) : Prop where
  crash : turn.crash = none
  reply : turn.reply.content = .ok (.ofWide content)
  object : Json.readWide levels content = .ok (.obj members)

/-- The answer's content is a JSON text that goes beyond the limits. -/
def Turn.Exceeds (levels : Nat) (turn : Turn σ) (e : Json.Excess) : Prop :=
  ∃ content, turn.reply.content = .ok (.ofWide content) ∧ Json.readWide levels content = .error (.excess e)

/-- The service does not break down, and a content is a text. -/
structure Turn.Textual (turn : Turn σ) : Prop where
  crash : turn.crash = none
  content : ∀ d, turn.reply.content = .ok d → ∃ content, d = .ofWide content

/-- A textual answer whose content stays within the limits of JSON. -/
structure Turn.Regular (levels : Nat) (turn : Turn σ) : Prop extends turn.Textual where
  limits : ∀ e, ¬turn.Exceeds levels e

section Answers

omit [Time.Seconds σ]

variable {levels : Nat} {turn : Turn σ} {content : Text.Wide} {members : Json.Members}

theorem Turn.yield_of_content (hcrash : turn.crash = none) (h : turn.reply.content = .ok (.ofWide content)) :
    turn.yield levels = objectOf levels content := by
  rw [yield, Turn.content, hcrash, h]
  cases content <;> rfl

theorem Turn.yield_of_transport {e : TransportError} (hcrash : turn.crash = none)
    (h : turn.reply.content = .error e) : turn.yield levels = .error (.attempt (.transport e)) := by
  rw [yield, Turn.content, hcrash, h]
  rfl

theorem Turn.Brings.yield (h : turn.Brings levels content members) : turn.yield levels = .ok (content, members) := by
  rw [Turn.yield_of_content h.crash h.reply, objectOf, h.object]

theorem Turn.Exceeds.yield {e : Json.Excess} (hcrash : turn.crash = none) (h : turn.Exceeds levels e) :
    turn.yield levels = .error (.excess e) := by
  obtain ⟨content, hreply, hread⟩ := h
  rw [Turn.yield_of_content hcrash hreply, objectOf, hread]

theorem Turn.textual_of_error {e : TransportError} (hcrash : turn.crash = none)
    (h : turn.reply.content = .error e) : turn.Textual :=
  ⟨hcrash, fun d hd => by simp [h] at hd⟩

theorem Turn.textual_of_content (hcrash : turn.crash = none) (h : turn.reply.content = .ok (.ofWide content)) :
    turn.Textual :=
  ⟨hcrash, fun _ hd => ⟨content, (Except.ok.inj (h.symm.trans hd)).symm⟩⟩

theorem Turn.regular_of_error {e : TransportError} (hcrash : turn.crash = none)
    (h : turn.reply.content = .error e) : turn.Regular levels :=
  ⟨textual_of_error hcrash h, fun _ ⟨content, hreply, _⟩ => by simp [h] at hreply⟩

theorem ofWide_inj {a b : Text.Wide} (h : Json.ofWide a = .ofWide b) : a = b := by
  cases a <;> cases b <;> simp_all [Json.ofWide]

theorem Turn.regular_of_read {v : Json} (hcrash : turn.crash = none)
    (h : turn.reply.content = .ok (.ofWide content)) (hread : Json.readWide levels content = .ok v) : turn.Regular levels := by
  refine ⟨textual_of_content hcrash h, fun e ⟨other, hreply, hexcess⟩ => ?_⟩
  obtain rfl := ofWide_inj (Except.ok.inj (h.symm.trans hreply))
  simp [hread] at hexcess

/-- A textual answer is faulty, brings an object, or goes beyond the limits. What is kept of a faulty one is a text or
nothing. -/
theorem Turn.Textual.cases (h : turn.Textual) (levels : Nat) :
    (∃ e, turn.yield levels = .error (.attempt e) ∧ ∃ raw : Option Text.Wide, e.content = .ofOption .ofWide raw) ∨
      (∃ content members, turn.Brings levels content members) ∨ ∃ e, turn.Exceeds levels e := by
  cases hr : turn.reply.content with
  | error e => exact .inl ⟨.transport e, yield_of_transport h.crash hr, none, rfl⟩
  | ok d =>
    obtain ⟨content, rfl⟩ := h.content d hr
    have hyield : turn.yield levels = objectOf levels content := yield_of_content h.crash hr
    rw [objectOf] at hyield
    cases hread : Json.readWide levels content with
    | error e =>
      rw [hread] at hyield
      cases e with
      | excess e => exact .inr (.inr ⟨e, content, hr, hread⟩)
      | malformed problem line column index => exact .inl ⟨_, hyield, some content, rfl⟩
    | ok v =>
      rw [hread] at hyield
      cases v with
      | obj members => exact .inr (.inl ⟨content, members, h.crash, hr, hread⟩)
      | _ => exact .inl ⟨_, hyield, some content, rfl⟩

/-- A regular answer brings an object or is faulty. -/
theorem Turn.Regular.faulty (h : turn.Regular levels) (hnone : ∀ content members, ¬turn.Brings levels content members) :
    turn.Faulty levels := by
  rcases h.cases levels with ⟨e, he, -⟩ | ⟨content, members, hb⟩ | ⟨e, he⟩
  · exact ⟨e, he⟩
  · exact absurd hb (hnone content members)
  · exact absurd he (h.limits e)

end Answers

/-! ### Waits -/

/-- How long the client waits after a failed attempt. -/
def Client.delay (c : Client σ) (a : Nat) : σ :=
  c.config.backoff.delay c.config.backoffBase a c.config.maxAttempts

/-- The length of the wait after a failed attempt is a number. -/
def Client.Reckons (c : Client σ) (a : Nat) : Prop :=
  Time.Multiple.reaches (c.config.backoff.factor a c.config.maxAttempts) c.config.backoffBase = true

/-- The waits after the first attempts. -/
def Client.delays (c : Client σ) (k : Nat) : List σ := (List.range k).map fun i => c.delay (i + 1)

variable {c : Client σ} {f : Finding} {code : String} {token : Option TokenId} {s t : Scene σ} {a m : Nat}

theorem Client.next_of_reckons (ha : a ≠ c.config.maxAttempts) (h : c.Reckons a) (e : AttemptFault) :
    c.next a (.attempt e) = .ok (.pausing a (c.delay a)) := by
  have h : Time.Multiple.reaches (c.config.backoff.factor a c.config.maxAttempts) c.config.backoffBase = true := h
  simp [Client.next, isAttemptFault, ha, Backoff.delay?, h, Client.delay]

theorem Client.next_of_not_reckons (ha : a ≠ c.config.maxAttempts) (h : ¬c.Reckons a) (e : AttemptFault) :
    c.next a (.attempt e) = .error (.escaped .tooLarge) := by
  have h : ¬Time.Multiple.reaches (c.config.backoff.factor a c.config.maxAttempts) c.config.backoffBase = true := h
  simp [Client.next, isAttemptFault, ha, Backoff.delay?, h]

theorem Client.next_of_last (e : AttemptFault) :
    c.next c.config.maxAttempts (.attempt e) = .error (.exhausted c.config.maxAttempts (.attempt e)) := by
  simp [Client.next, isAttemptFault]

theorem Client.next_of_not_fault {e : Failure} (h : isAttemptFault e = false) (a : Nat) :
    c.next a e = .error (.escaped e) := by
  simp [Client.next, h]

/-! ### Attempts that are not cancelled -/

/-- The token is not cancelled whenever it is looked at: before an attempt, and during a pause, which also comes to its
end. -/
def NeverCancelled (c : Client σ) (f : Finding) (code : String) (token : Option TokenId) (s : Scene σ) : Prop :=
  ∀ p t, (attempts c f code token).Reaches s p t →
    match p with
    | .calling _ => (Run.heed token t).1 = .ok ()
    | .pausing _ d => (Run.pause token d t).1 = .ok ()
    | .ended _ => True

/-- Where there is no token nothing is cancelled. -/
theorem neverCancelled_none (c : Client σ) (f : Finding) (code : String) (s : Scene σ) :
    NeverCancelled c f code none s := by
  intro p t _
  cases p <;> trivial

/-- An attempt sends the request once and comes to what the next answer yields. -/
theorem ask_of_neverCancelled (hnc : NeverCancelled c f code token s)
    (h : (attempts c f code token).Reaches s (.calling a) t) :
    ∃ u, ask c (.about c.config f code) token a t =
        (((t.service.turn (.about c.config f code)).yield c.levels).map fun r => ⟨a, r.1, r.2⟩, u) ∧
      u.service = t.service.rest (.about c.config f code) ∧
      exchanges u = exchanges t ++ [.request (.about c.config f code)] := by
  have hheed : Run.heed token t = (.ok (), (Run.heed token t).2) := Prod.ext (hnc _ _ h) rfl
  obtain ⟨hservice, htrace⟩ := Run.heed_frame hheed
  refine ⟨c.asks (.about c.config f code) token (Run.heed token t).2, ?_, ?_, ?_⟩
  · rw [ask_of_heed_ok _ a hheed, hservice]
  · rw [Client.asks, Scene.service_sent, hservice]
  · rw [Client.asks, exchanges_sent, exchanges, htrace]
    rfl

/-- An attempt with an object is the last one. -/
theorem step_of_object (hnc : NeverCancelled c f code token s)
    (h : (attempts c f code token).Reaches s (.calling a) t) {content : Text.Wide} {members : Json.Members}
    (hy : (t.service.turn (.about c.config f code)).yield c.levels = .ok (content, members)) :
    ∃ u, (attempts c f code token).step (.calling a) t = (.ok (.ended ⟨a, content, members⟩), u) ∧
      exchanges u = exchanges t ++ [.request (.about c.config f code)] := by
  obtain ⟨u, hask, -, hex⟩ := ask_of_neverCancelled hnc h
  rw [hy] at hask
  exact ⟨u, Retry.step_calling_of_ok hask, hex⟩

/-- What follows an attempt without an object depends on the failure and on the number of the attempt. -/
theorem step_of_failure (hnc : NeverCancelled c f code token s)
    (h : (attempts c f code token).Reaches s (.calling a) t) {e : Failure}
    (hy : (t.service.turn (.about c.config f code)).yield c.levels = .error e) :
    ∃ u, (attempts c f code token).step (.calling a) t = (c.next a e, u) ∧
      u.service = t.service.rest (.about c.config f code) ∧
      exchanges u = exchanges t ++ [.request (.about c.config f code)] := by
  obtain ⟨u, hask, hservice, hex⟩ := ask_of_neverCancelled hnc h
  rw [hy] at hask
  obtain ⟨lines, hafter⟩ := afterFailure_run c f code token a e u
  refine ⟨u.noting lines, (Retry.step_calling_of_error hask).trans hafter, hservice, ?_⟩
  rw [exchanges_noting, hex]

/-- Faulty answers lead to the attempt after them, with a request and a wait for each. -/
theorem reaches_after_faults (hnc : NeverCancelled c f code token s) : ∀ m < c.config.maxAttempts,
    (∀ i < m, (s.service.answer (.about c.config f code) i).Faulty c.levels) → (∀ i < m, c.Reckons (i + 1)) →
    ∃ t, (attempts c f code token).Reaches s (.calling (m + 1)) t ∧ t.service = s.service.after (.about c.config f code) m ∧
      exchanges t = exchanges s ++
        (c.delays m).flatMap fun delay => [.request (.about c.config f code), .wait delay]
  | 0, _, _, _ => ⟨s, .start, rfl, (List.append_nil _).symm⟩
  | m + 1, hm, hfaulty, hreckons => by
    obtain ⟨t, ht, hservice, hex⟩ := reaches_after_faults hnc m (Nat.lt_of_succ_lt hm)
      (fun i hi => hfaulty i (Nat.lt_succ_of_lt hi)) fun i hi => hreckons i (Nat.lt_succ_of_lt hi)
    obtain ⟨e, he⟩ := hfaulty m (Nat.lt_succ_self m)
    obtain ⟨u, hcall, huservice, huex⟩ := step_of_failure hnc ht (by rw [hservice]; exact he)
    rw [Client.next_of_reckons (Nat.ne_of_lt hm) (hreckons m (Nat.lt_succ_self m))] at hcall
    have hu := ht.step hcall
    have hpause : Run.pause token (c.delay (m + 1)) u = (.ok (), (Run.pause token (c.delay (m + 1)) u).2) :=
      Prod.ext (hnc _ _ hu) rfl
    obtain ⟨hvservice, hvtrace⟩ := Run.pause_frame hpause
    refine ⟨_, hu.step (Retry.step_pausing_of_ok hpause), ?_, ?_⟩
    · rw [hvservice, huservice, hservice]
      rfl
    · rw [exchanges_of_trace_append hvtrace, huex, hex, Client.delays, Client.delays, List.range_succ,
        List.map_append, List.flatMap_append]
      simp [Exchange.ofEvent?]

/-! ### The end -/

/-- The first object decides: its verdict is the judgment, and without a verdict it is not asked for again. -/
theorem judge_of_object (hnc : NeverCancelled c f code token s) (hm : m < c.config.maxAttempts)
    (hfaulty : ∀ i < m, (s.service.answer (.about c.config f code) i).Faulty c.levels) (hreckons : ∀ i < m, c.Reckons (i + 1))
    {content : Text.Wide} {members : Json.Members}
    (hy : (s.service.answer (.about c.config f code) m).yield c.levels = .ok (content, members)) :
    ∃ t, judge c f code token s = (judgmentOf ⟨m + 1, content, members⟩, t) ∧
      exchanges t = exchanges s ++ dialogue (.about c.config f code) (c.delays m) := by
  obtain ⟨t, ht, hservice, hex⟩ := reaches_after_faults hnc m hm hfaulty hreckons
  obtain ⟨u, hstep, hu⟩ := step_of_object hnc ht (by rw [hservice]; exact hy)
  refine ⟨u, ?_, ?_⟩
  · rw [judge_run, (ht.step hstep).run_of_ended (Nat.one_le_of_lt hm)]
    rfl
  · rw [hu, hex, dialogue, List.append_assoc]

/-- A failure that an attempt ends in for good decides as well. -/
theorem judge_of_stop (hnc : NeverCancelled c f code token s) (hm : m < c.config.maxAttempts)
    (hfaulty : ∀ i < m, (s.service.answer (.about c.config f code) i).Faulty c.levels) (hreckons : ∀ i < m, c.Reckons (i + 1))
    {e : Failure} {stop : Retry.Stop Failure} (hy : (s.service.answer (.about c.config f code) m).yield c.levels = .error e)
    (hstop : c.next (m + 1) e = .error stop) :
    ∃ t, judge c f code token s = (.error (failureOfStop stop), t) ∧
      exchanges t = exchanges s ++ dialogue (.about c.config f code) (c.delays m) := by
  obtain ⟨t, ht, hservice, hex⟩ := reaches_after_faults hnc m hm hfaulty hreckons
  obtain ⟨u, hstep, -, hu⟩ := step_of_failure hnc ht (by rw [hservice]; exact hy)
  rw [hstop] at hstep
  refine ⟨u, ?_, ?_⟩
  · rw [judge_run, ht.run_of_stop (Nat.one_le_of_lt hm) hstep]
    rfl
  · rw [hu, hex, dialogue, List.append_assoc]

/-- The protocol of judging. Let the answers be regular and nothing be cancelled.
* If the first object comes with answer `m + 1`, within the attempts, that many requests are sent, all the same, with a
  wait between each two of them. The verdict of the object is the judgment; without a valid one the response is
  malformed, and it is kept.
* If no object comes within the attempts, all of them are made, with a wait between each two, and they are exhausted.
* If an answer without an object calls for a wait whose length is no number, that ends the judging. -/
theorem judge_protocol (hn : 1 ≤ c.config.maxAttempts) (hnc : NeverCancelled c f code token s)
    (hregular : ∀ i < c.config.maxAttempts, (s.service.answer (.about c.config f code) i).Regular c.levels) :
    (∀ m < c.config.maxAttempts,
      (∀ i < m, ∀ content members, ¬(s.service.answer (.about c.config f code) i).Brings c.levels content members) →
      (∀ i < m, c.Reckons (i + 1)) →
      ∀ content members, (s.service.answer (.about c.config f code) m).Brings c.levels content members →
        (∀ v, Schema.validate "JudgeVerdict" Verdict.check (.obj members) = .ok v →
          (judge c f code token s).1 = .ok ⟨v.isReal, v.confidence, v.rationale, content⟩) ∧
        (∀ e, Schema.validate "JudgeVerdict" Verdict.check (.obj members) = .error e →
          (judge c f code token s).1 = .error (.judging (.malformed (m + 1) content e))) ∧
        exchanges (judge c f code token s).2 =
          exchanges s ++ dialogue (.about c.config f code) (c.delays m)) ∧
    ((∀ i < c.config.maxAttempts, ∀ content members,
      ¬(s.service.answer (.about c.config f code) i).Brings c.levels content members) →
      (∀ i, i + 1 < c.config.maxAttempts → c.Reckons (i + 1)) →
      (∃ last, (s.service.answer (.about c.config f code) (c.config.maxAttempts - 1)).yield c.levels = .error (.attempt last) ∧
        (judge c f code token s).1 = .error (.judging (.exhausted c.config.maxAttempts last))) ∧
      exchanges (judge c f code token s).2 =
        exchanges s ++ dialogue (.about c.config f code) (c.delays (c.config.maxAttempts - 1))) ∧
    (∀ m, m + 1 < c.config.maxAttempts →
      (∀ i ≤ m, ∀ content members, ¬(s.service.answer (.about c.config f code) i).Brings c.levels content members) →
      (∀ i < m, c.Reckons (i + 1)) → ¬c.Reckons (m + 1) →
      (judge c f code token s).1 = .error .tooLarge ∧
      exchanges (judge c f code token s).2 = exchanges s ++ dialogue (.about c.config f code) (c.delays m)) := by
  refine ⟨fun m hm hnone hreckons content members hobj => ?_, fun hnone hreckons => ?_,
    fun m hm hnone hreckons hnot => ?_⟩
  · have hfaulty : ∀ i < m, (s.service.answer (.about c.config f code) i).Faulty c.levels := fun i hi =>
      (hregular i (Nat.lt_trans hi hm)).faulty (hnone i hi)
    obtain ⟨t, hjudge, hex⟩ := judge_of_object hnc hm hfaulty hreckons hobj.yield
    rw [hjudge]
    refine ⟨fun v hv => ?_, fun e he => ?_, hex⟩
    · simp only [judgmentOf, hv]
    · simp only [judgmentOf, he]
  · obtain ⟨m, hm⟩ := Nat.exists_eq_add_of_le' hn
    have hlt : m < c.config.maxAttempts := by omega
    have hfaulty : ∀ i ≤ m, (s.service.answer (.about c.config f code) i).Faulty c.levels := fun i hi =>
      (hregular i (by omega)).faulty (hnone i (by omega))
    obtain ⟨last, hlast⟩ := hfaulty m (Nat.le_refl m)
    obtain ⟨t, hjudge, hex⟩ := judge_of_stop hnc hlt (fun i hi => hfaulty i (Nat.le_of_lt hi))
      (fun i hi => hreckons i (by omega)) hlast (hm ▸ Client.next_of_last last)
    rw [hjudge, hm]
    exact ⟨⟨last, hlast, rfl⟩, hex⟩
  · have hfaulty : ∀ i ≤ m, (s.service.answer (.about c.config f code) i).Faulty c.levels := fun i hi =>
      (hregular i (by omega)).faulty (hnone i hi)
    obtain ⟨e, he⟩ := hfaulty m (Nat.le_refl m)
    obtain ⟨t, hjudge, hex⟩ := judge_of_stop hnc (by omega) (fun i hi => hfaulty i (Nat.le_of_lt hi)) hreckons he
      (Client.next_of_not_reckons (Nat.ne_of_lt hm) hnot e)
    rw [hjudge]
    exact ⟨rfl, hex⟩

/-- A service that is busy, then answers with an array, and then takes every finding for real. -/
def lateService : Service Float :=
  .ofScripts 0.0 []
    [⟨0.0, false, none, .refused "busy"⟩, ⟨0.0, false, none, .choices [some (.text "[]")]⟩, Service.standard 0.0]

theorem read_array : Json.readWide Json.usualLevels (.text "[]") = .ok (.arr []) := by cbv

theorem read_real : Json.readWide Json.usualLevels (.text "\x7b\"is_real_vulnerability\": true\x7d") =
    .ok (.obj [("is_real_vulnerability", .bool true)]) := by cbv

theorem regular_lateService (request : Request) : ∀ i < 3, (lateService.answer request i).Regular Json.usualLevels
  | 0, _ => Turn.regular_of_error (e := .request "busy") rfl rfl
  | 1, _ => Turn.regular_of_read rfl rfl read_array
  | 2, _ => Turn.regular_of_read rfl rfl read_real

/-- The first two answers bring no object. -/
theorem not_brings_lateService (request : Request) :
    ∀ i < 2, ∀ content members, ¬(lateService.answer request i).Brings Json.usualLevels content members
  | 0, _, _, _, h => by
    have hreply : (.error (.request "busy") : Except TransportError Json) = .ok _ := h.reply
    simp at hreply
  | 1, _, content, members, h => by
    have hreply : (.ok (.ofWide (.text "[]")) : Except TransportError Json) = .ok (.ofWide content) := h.reply
    have hcontent := ofWide_inj (Except.ok.inj hreply)
    have hobject := h.object
    rw [← hcontent, read_array] at hobject
    simp at hobject

theorem faulty_lateService (request : Request) (i : Nat) (hi : i < 2) : (lateService.answer request i).Faulty Json.usualLevels :=
  (regular_lateService request i (Nat.lt_succ_of_lt hi)).faulty (not_brings_lateService request i hi)

theorem reckons_ofAttempts_three : ∀ i < 2, (Client.ofAttempts 3 1.0).Reckons (i + 1)
  | 0, _ => by
    show (Decimal.ofInt? 2).isSome = true
    decide +kernel
  | 1, _ => by
    show (Decimal.ofInt? 1).isSome = true
    decide +kernel

/-- The third answer is the first with an object: there are three requests, and waits of two seconds and of one. -/
theorem judge_lateService :
    1 ≤ (Client.ofAttempts 3 1.0).config.maxAttempts ∧
      NeverCancelled (.ofAttempts 3 1.0) (.ofCheck "a") "" none (Scene.ofService lateService .nothing) ∧
      (∀ i < 3, (lateService.answer (.about (Client.ofAttempts 3 1.0).config (.ofCheck "a") "") i).Regular Json.usualLevels) ∧
      (judge (.ofAttempts 3 1.0) (.ofCheck "a") "" none (Scene.ofService lateService .nothing)).1 =
        .ok ⟨true, none, .text "", .text "\x7b\"is_real_vulnerability\": true\x7d"⟩ ∧
      exchanges (judge (.ofAttempts 3 1.0) (.ofCheck "a") "" none (Scene.ofService lateService .nothing)).2 =
        dialogue (.about (Client.ofAttempts 3 1.0).config (.ofCheck "a") "") [(Client.ofAttempts 3 1.0).delay 1,
          (Client.ofAttempts 3 1.0).delay 2] := by
  have hnc := neverCancelled_none (.ofAttempts 3 1.0) (.ofCheck "a") "" (Scene.ofService lateService .nothing)
  have h := (judge_protocol (c := .ofAttempts 3 1.0) (by decide) hnc (regular_lateService _)).1 2 (by decide)
    (not_brings_lateService _) reckons_ofAttempts_three _ _ ⟨rfl, rfl, read_real⟩
  exact ⟨by decide, hnc, regular_lateService _, h.1 ⟨true, none, .text "", []⟩ rfl, h.2.2⟩

/-- An integer of more than 400 digits is beyond the range of the doubles. -/
theorem ofInt?_of_large {i : Int} (h : 10 ^ 400 ≤ i.natAbs) : Decimal.ofInt? i = none := by
  have hcount : 400 < Decimal.digitCount i.natAbs := by
    refine Nat.not_le.1 fun hle => ?_
    have hlt := (Nat.length_toDigits_le_iff (b := 10) (k := 400) (n := i.natAbs) (by decide) (by decide)).1 hle
    exact Nat.not_le.2 hlt h
  rw [Decimal.ofInt?, if_pos hcount]

/-- With so many attempts the first wait is too long for a number. -/
theorem not_reckons_of_large {c : Client Float} (hdescending : c.config.backoff = .descending)
    (hn : 10 ^ 400 < c.config.maxAttempts) : ¬c.Reckons 1 := by
  intro h
  have h : (Decimal.ofInt? (c.config.backoff.factor (1 : Nat) c.config.maxAttempts)).isSome = true := h
  have hlarge : 10 ^ 400 ≤ (c.config.backoff.factor (1 : Nat) c.config.maxAttempts).natAbs := by
    rw [hdescending, Backoff.factor]
    generalize 10 ^ 400 = bound at hn ⊢
    omega
  rw [ofInt?_of_large hlarge] at h
  simp at h

theorem lt_ofAttempts (n : Nat) (base : σ) : n < (Client.ofAttempts (n + 1) base).config.maxAttempts := Nat.lt_succ_self n

/-- A service that is busy once. -/
def busyOnce : Service Float := .ofScripts 0.0 [] [⟨0.0, false, none, .refused "busy"⟩, Service.standard 0.0]

theorem answer_busyOnce (request : Request) (i : Nat) : busyOnce.answer request (i + 1) = Service.standard 0.0 := by
  rw [busyOnce, Service.answer_ofScripts, Service.step]
  simp

theorem regular_busyOnce (request : Request) : ∀ i, (busyOnce.answer request i).Regular Json.usualLevels
  | 0 => Turn.regular_of_error (e := .request "busy") rfl rfl
  | i + 1 => by
    rw [answer_busyOnce]
    exact Turn.regular_of_read rfl rfl read_real

/-- The second answer is the first with an object and holds a verdict, but the judging does not get to it. -/
theorem judge_busyOnce :
    (1 < (Client.ofAttempts (10 ^ 400 + 1) 0.0).config.maxAttempts ∧
      NeverCancelled (.ofAttempts (10 ^ 400 + 1) 0.0) (.ofCheck "a") "" none (Scene.ofService busyOnce .nothing) ∧
      (∀ request i, (busyOnce.answer request i).Regular Json.usualLevels) ∧
      (∀ request content members, ¬(busyOnce.answer request 0).Brings Json.usualLevels content members) ∧
      ∃ content members v, (∀ request, (busyOnce.answer request 1).Brings Json.usualLevels content members) ∧
        Schema.validate "JudgeVerdict" Verdict.check (.obj members) = .ok v) ∧
      (judge (.ofAttempts (10 ^ 400 + 1) 0.0) (.ofCheck "a") "" none (Scene.ofService busyOnce .nothing)).1 =
        .error .tooLarge := by
  have hnc := neverCancelled_none (.ofAttempts (10 ^ 400 + 1) 0.0) (.ofCheck "a") "" (Scene.ofService busyOnce .nothing)
  have hlarge : 10 ^ 400 < (Client.ofAttempts (10 ^ 400 + 1) 0.0).config.maxAttempts := lt_ofAttempts _ _
  have hmany : 1 < (Client.ofAttempts (10 ^ 400 + 1) 0.0).config.maxAttempts :=
    Nat.lt_of_le_of_lt (Nat.one_le_pow 400 10 (by decide)) hlarge
  have hnot : ¬(Client.ofAttempts (10 ^ 400 + 1) 0.0).Reckons 1 := not_reckons_of_large rfl hlarge
  have hnone : ∀ request content members, ¬(busyOnce.answer request 0).Brings Json.usualLevels content members := by
    intro request content members h
    have hreply : (.error (.request "busy") : Except TransportError Json) = .ok _ := h.reply
    simp at hreply
  obtain ⟨t, ht, -⟩ := judge_of_stop (m := 0) hnc (Nat.zero_lt_of_lt hmany) (fun i hi => absurd hi (Nat.not_lt_zero i))
    (fun i hi => absurd hi (Nat.not_lt_zero i)) (e := .attempt (.transport (.request "busy"))) rfl
    (Client.next_of_not_reckons (Nat.ne_of_lt hmany) hnot _)
  refine ⟨⟨hmany, hnc, regular_busyOnce, hnone, _, _, ⟨true, none, .text "", []⟩, fun _ => ⟨rfl, rfl, read_real⟩, rfl⟩, ?_⟩
  rw [ht]
  rfl

end Adjudication.Judge
