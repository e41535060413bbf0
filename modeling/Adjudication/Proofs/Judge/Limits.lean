import Adjudication.Proofs.Judge.Protocol
import Adjudication.Proofs.Judge.Steady
import Mathlib.Data.Nat.Find

/-!
What the answers of a service can do to judging. If every content is a text and nothing is cancelled, judging settles
a finding just if no answer that the client comes to see goes beyond the limits of JSON and no wait is too long for a
number; else the excess, or the length of the wait, is the failure. Of many findings, judged one after the other or
side by side, each is settled or comes to one of these two failures.
-/

namespace Adjudication.Judge

open Time (TokenId)

variable {σ : Type} [Time.Seconds σ] {c : Client σ} {f : Finding} {code : String} {s t : Scene σ}

/-! ### One finding -/

/-- The answers to the request about a finding leave nothing that a client cannot bear: what it comes to see keeps within
the limits of JSON, and the waits that it has to make have numbers for their lengths. -/
def Client.Bears (c : Client σ) (f : Finding) (code : String) (s : Scene σ) : Prop :=
  ∀ i < c.config.maxAttempts, (∀ j < i, (s.service.answer (.about c.config f code) j).Faulty c.levels) →
    (∀ e, ¬(s.service.answer (.about c.config f code) i).Exceeds c.levels e) ∧
      ((s.service.answer (.about c.config f code) i).Faulty c.levels → i + 1 < c.config.maxAttempts → c.Reckons (i + 1))

/-- After an answer the client waits and asks again. -/
structure Client.AsksAgain (c : Client σ) (f : Finding) (code : String) (s : Scene σ) (i : Nat) : Prop where
  faulty : (s.service.answer (.about c.config f code) i).Faulty c.levels
  more : i + 1 < c.config.maxAttempts
  reckons : c.Reckons (i + 1)

omit [Time.Seconds σ] in
theorem Turn.Exceeds.not_faulty {levels : Nat} {turn : Turn σ} {e : Json.Excess} (hcrash : turn.crash = none)
    (h : turn.Exceeds levels e) : ¬turn.Faulty levels := by
  rintro ⟨fault, hfault⟩
  rw [h.yield hcrash] at hfault
  simp at hfault

omit [Time.Seconds σ] in
theorem Turn.Brings.not_exceeds {levels : Nat} {turn : Turn σ} {content : Text.Wide} {members : Json.Members}
    (h : turn.Brings levels content members) (e : Json.Excess) : ¬turn.Exceeds levels e := by
  intro he
  have hyield := he.yield h.crash
  rw [h.yield] at hyield
  simp at hyield

omit [Time.Seconds σ] in
theorem Turn.Brings.not_faulty {levels : Nat} {turn : Turn σ} {content : Text.Wide} {members : Json.Members}
    (h : turn.Brings levels content members) : ¬turn.Faulty levels := by
  rintro ⟨fault, hfault⟩
  rw [h.yield] at hfault
  simp at hfault

theorem settles_judgmentOf (received : Received) : Settles (judgmentOf received) := by
  rw [judgmentOf]
  cases Schema.validate "JudgeVerdict" Verdict.check (.obj received.members) with
  | ok v => trivial
  | error e => exact ⟨some received.content, rfl⟩

/-- Which answer is the last one that the client sees, and what the judging comes to: the finding is settled, a wait is
too long for a number, or the answer goes beyond the limits. -/
theorem judge_ends {token : Option TokenId} (hn : 1 ≤ c.config.maxAttempts) (hnc : NeverCancelled c f code token s)
    (htextual : ∀ i < c.config.maxAttempts, (s.service.answer (.about c.config f code) i).Textual) :
    ∃ m < c.config.maxAttempts, (∀ i < m, c.AsksAgain f code s i) ∧
      ((Settles (judge c f code token s).1 ∧ (∀ e, ¬(s.service.answer (.about c.config f code) m).Exceeds c.levels e) ∧
          ((s.service.answer (.about c.config f code) m).Faulty c.levels → m + 1 = c.config.maxAttempts)) ∨
        ((judge c f code token s).1 = .error .tooLarge ∧ (s.service.answer (.about c.config f code) m).Faulty c.levels ∧
          m + 1 < c.config.maxAttempts ∧ ¬c.Reckons (m + 1)) ∨
        ∃ e, (judge c f code token s).1 = .error (.excess e) ∧
        (s.service.answer (.about c.config f code) m).Exceeds c.levels e) := by
  classical
  -- the last answer is the first one after which the client does not ask again
  have hexists : ∃ m, ¬c.AsksAgain f code s m := ⟨c.config.maxAttempts, fun h => absurd h.more (by omega)⟩
  obtain ⟨m, hm, hbefore⟩ : ∃ m, ¬c.AsksAgain f code s m ∧ ∀ i < m, c.AsksAgain f code s i :=
    ⟨Nat.find hexists, Nat.find_spec hexists, fun i hi => not_not.1 (Nat.find_min hexists hi)⟩
  have hlt : m < c.config.maxAttempts := by
    cases m with
    | zero => exact hn
    | succ m => exact (hbefore m (Nat.lt_succ_self m)).more
  refine ⟨m, hlt, hbefore, ?_⟩
  have hfaulty : ∀ i < m, (s.service.answer (.about c.config f code) i).Faulty c.levels := fun i hi => (hbefore i hi).faulty
  have hreckons : ∀ i < m, c.Reckons (i + 1) := fun i hi => (hbefore i hi).reckons
  rcases (htextual m hlt).cases c.levels with ⟨fault, hfault, raw, hraw⟩ | ⟨content, members, hbrings⟩ | ⟨e, he⟩
  · have hexceeds : ∀ e, ¬(s.service.answer (.about c.config f code) m).Exceeds c.levels e := fun e he =>
      he.not_faulty (htextual m hlt).crash ⟨fault, hfault⟩
    by_cases hlast : m + 1 = c.config.maxAttempts
    · obtain ⟨t, hjudge, -⟩ := judge_of_stop hnc hlt hfaulty hreckons hfault (hlast ▸ Client.next_of_last fault)
      refine .inl ⟨?_, hexceeds, fun _ => hlast⟩
      rw [hjudge]
      exact ⟨raw, hraw⟩
    · have hmore : m + 1 < c.config.maxAttempts := by omega
      have hnot : ¬c.Reckons (m + 1) := fun h => hm ⟨⟨fault, hfault⟩, hmore, h⟩
      obtain ⟨t, hjudge, -⟩ := judge_of_stop hnc hlt hfaulty hreckons hfault
        (Client.next_of_not_reckons hlast hnot fault)
      rw [hjudge]
      exact .inr (.inl ⟨rfl, ⟨fault, hfault⟩, hmore, hnot⟩)
  · obtain ⟨t, hjudge, -⟩ := judge_of_object hnc hlt hfaulty hreckons hbrings.yield
    refine .inl ⟨?_, hbrings.not_exceeds, fun h => absurd h hbrings.not_faulty⟩
    rw [hjudge]
    exact settles_judgmentOf _
  · obtain ⟨t, hjudge, -⟩ := judge_of_stop hnc hlt hfaulty hreckons (he.yield (htextual m hlt).crash)
      (Client.next_of_not_fault rfl (m + 1))
    rw [hjudge]
    exact .inr (.inr ⟨e, rfl, he⟩)

/-- Judging settles a finding just if the client can bear the answers to it, and otherwise fails for a wait or for an
answer. -/
theorem judge_settles_iff {token : Option TokenId} (hn : 1 ≤ c.config.maxAttempts)
    (hnc : NeverCancelled c f code token s)
    (htextual : ∀ i < c.config.maxAttempts, (s.service.answer (.about c.config f code) i).Textual) :
    (Settles (judge c f code token s).1 ↔ c.Bears f code s) ∧
      (¬c.Bears f code s → (judge c f code token s).1 = .error .tooLarge ∨
        ∃ e, (judge c f code token s).1 = .error (.excess e)) := by
  obtain ⟨m, hm, hbefore, ⟨hsettles, hexceeds, hlast⟩ | ⟨hjudge, hfaulty, hmore, hnot⟩ | ⟨e, hjudge, he⟩⟩ :=
    judge_ends hn hnc htextual
  · have hbears : c.Bears f code s := by
      intro i hi hall
      rcases Nat.lt_trichotomy i m with hlt | rfl | hgt
      · exact ⟨fun e he => he.not_faulty (htextual i hi).crash (hbefore i hlt).faulty, fun _ _ =>
          (hbefore i hlt).reckons⟩
      · exact ⟨hexceeds, fun hfaulty hmore => absurd (hlast hfaulty) (Nat.ne_of_lt hmore)⟩
      · have := hlast (hall m hgt)
        omega
    exact ⟨iff_of_true hsettles hbears, fun h => absurd hbears h⟩
  · have hbears : ¬c.Bears f code s := fun h => hnot ((h m hm fun j hj => (hbefore j hj).faulty).2 hfaulty hmore)
    refine ⟨iff_of_false (fun h => ?_) hbears, fun _ => .inl hjudge⟩
    rw [hjudge] at h
    exact h
  · have hbears : ¬c.Bears f code s := fun h => (h m hm fun j hj => (hbefore j hj).faulty).1 e he
    refine ⟨iff_of_false (fun h => ?_) hbears, fun _ => .inr ⟨e, hjudge⟩⟩
    rw [hjudge] at h
    exact h

/-! ### Services all of whose turns are of a kind -/

/-- Whether a turn is that of a failed request, or of a text within the limits of JSON. -/
def Turn.isPlain (levels : Nat) (turn : Turn σ) : Bool :=
  turn.crash.isNone && match turn.reply.content with
    | .error _ => true
    | .ok (.str content) =>
      match Json.readWide levels content with
      | .error (.excess _) => false
      | _ => true
    | .ok _ => false

omit [Time.Seconds σ] in
theorem Turn.regular_of_isPlain {levels : Nat} {turn : Turn σ} (h : turn.isPlain levels = true) : turn.Regular levels := by
  simp only [Turn.isPlain, Bool.and_eq_true, Option.isNone_iff_eq_none] at h
  obtain ⟨hcrash, h⟩ := h
  split at h
  next e he => exact regular_of_error hcrash he
  next content hcontent =>
    have htext : turn.reply.content = .ok (.ofWide (.text content)) := hcontent
    refine ⟨textual_of_content hcrash htext, fun e ⟨other, hreply, hexcess⟩ => ?_⟩
    obtain rfl : Text.Wide.text content = other := ofWide_inj (Except.ok.inj (hcontent.symm.trans hreply))
    simp [hexcess] at h
  next => simp at h

/-! ### Many findings -/

/-- What stands in a task's way is not there: its token is not cancelled, and its pause comes to an end. -/
def Task.Free (token : TokenId) (t : Scene σ) (task : Task σ) : Prop :=
  match task.progress with
  | .fresh | .underWay (.calling _) => (Run.heed (some token) t).1 = .ok ()
  | .underWay (.pausing _ d) => (Run.pause (some token) d t).1 = .ok ()
  | _ => True

/-- Nothing stands in the way of the tasks of findings, in whatever order they move on. -/
def Unhindered (c : Client σ) (code : String) (token : TokenId) (fs : List Finding) (s : Scene σ) : Prop :=
  ∀ y, (poolWork c code token).Reaches (fs.map Task.ofFinding, s) y → ∀ task ∈ y.1, task.Free token y.2

/-- A task whose phase is a proper one. -/
def Task.Proper (c : Client σ) (task : Task σ) : Prop :=
  match task.progress with
  | .underWay p => c.Proper p
  | _ => True

/-- A scene in which nothing cancels a token, now or on a later turn. -/
structure Tranquil (token : TokenId) (patience : Nat) (t : Scene σ) : Prop where
  idle : Idle token t
  patience : t.patience = patience
  cancels : t.service.Only fun turn => turn.cancels = false

section Tranquil

variable {token : TokenId} {patience : Nat}

/-- All stays tranquil when a phase leads on. -/
theorem Tranquil.step (ht : Tranquil token patience t) (hwaits : c.Waits patience) {p : Retry.Phase σ Received}
    (hp : c.Proper p) (f : Finding) (code : String) : ∃ u, Tranquil token patience u ∧
      (attempts c f code (some token)).step p t = (c.phaseAfter (t.service.turn (.about c.config f code)) p, u) := by
  obtain ⟨u, hstep, hidle, hpatience, hservice⟩ := step_of_idle code ht.idle (ht.cancels _ _)
    (ht.patience.symm ▸ hwaits) hp
  exact ⟨u, ⟨hidle, hpatience.trans ht.patience, hservice ▸ ht.cancels.after _ _⟩, hstep⟩

/-- A pause that the policy asks for comes to its end. -/
theorem Tranquil.pause (ht : Tranquil token patience t) (hwaits : c.Waits patience) {a : Nat} {d : σ}
    (hp : c.Proper (.pausing a d)) : (Run.pause (some token) d t).1 = .ok () := by
  obtain ⟨⟨b, timeline⟩, hwait⟩ :=
    Option.isSome_iff_exists.1 (hwaits t.timeline token a d ht.idle.known ht.idle.calm hp.1 hp.2.1 hp.2.2)
  obtain ⟨rfl, -⟩ := ht.idle.calm.wait hwait
  rw [← ht.patience] at hwait
  rw [Run.pause_run, hwait]
  rfl

/-- Judging is not cancelled on a token that nothing cancels, if waits come to an end. -/
theorem neverCancelled_of_idle (hn : 1 ≤ c.config.maxAttempts) (hidle : Idle token s)
    (hcancels : s.service.Only fun turn => turn.cancels = false) (hwaits : c.Waits s.patience) (f : Finding)
    (code : String) : NeverCancelled c f code (some token) s := by
  have hkept : ∀ x, Relation.ReflTransGen (attempts c f code (some token)).Passes (.calling 1, s) x →
      Tranquil token s.patience x.2 ∧ c.Proper x.1 := by
    intro x hx
    induction hx with
    | refl => exact ⟨⟨hidle, rfl, hcancels⟩, Nat.le_refl 1, hn⟩
    | @tail y z _ hyz ih =>
      obtain ⟨ht, hp⟩ := ih
      obtain ⟨u, hu, hstep⟩ := ht.step hwaits hp f code
      have hstep := hyz.symm.trans hstep
      obtain ⟨hphase, rfl⟩ := Prod.mk.inj hstep
      exact ⟨hu, (hp.phaseAfter hphase.symm).1⟩
  intro p t hreaches
  obtain ⟨ht, hproper⟩ := hkept _ hreaches
  match p with
  | .calling _ => exact congrArg Prod.fst (Run.heed_of_calm ht.idle.calm)
  | .pausing _ _ => exact ht.pause hwaits hproper
  | .ended _ => trivial

/-- In exact time judging is not cancelled on a token that nothing cancels, if there is patience for every wait: for two
rounds, and one for each twentieth of a second. -/
theorem neverCancelled_of_patience {value : σ → ℚ} (hv : Time.Seconds.Exact value) (hn : 1 ≤ c.config.maxAttempts)
    (hidle : Idle token s) (hcancels : s.service.Only fun turn => turn.cancels = false)
    (hpatience : ∀ a d, 1 ≤ a → a < c.config.maxAttempts →
      c.config.backoff.delay? c.config.backoffBase a c.config.maxAttempts = some d →
      20 * max 0 (value d) + 2 ≤ s.patience) (f : Finding) (code : String) :
    NeverCancelled c f code (some token) s :=
  neverCancelled_of_idle hn hidle hcancels (waits_of_patience hv hpatience) f code

theorem Task.Proper.step (code : String) (hn : 1 ≤ c.config.maxAttempts) (hwaits : c.Waits patience) {task : Task σ}
    (h : task.Proper c) (ht : Tranquil token patience t) :
    (Task.step c code token task t).1.Proper c ∧ Tranquil token patience (Task.step c code token task t).2 := by
  have hend : ∀ (task : Task σ) (r : Except Failure Judgment) (u : Scene σ), Tranquil token patience u →
      (task.conclude r u).1.Proper c ∧ Tranquil token patience (task.conclude r u).2 := by
    intro task r u hu
    obtain ⟨lines, hlines⟩ := settle_state task.finding r u
    rw [Task.conclude_run, hlines]
    exact ⟨trivial, ⟨hu.idle.known, hu.idle.calm⟩, hu.patience, hu.cancels⟩
  obtain ⟨f, progress⟩ := task
  cases progress with
  | fresh =>
    rw [Task.step_fresh_of_heed_ok _ (Run.heed_of_calm ht.idle.calm) hn]
    exact ⟨⟨Nat.le_refl 1, hn⟩, ht⟩
  | ended r => exact ⟨trivial, ht⟩
  | underWay p =>
    by_cases hp : ∃ received, p = .ended received
    · obtain ⟨received, rfl⟩ := hp
      rw [Task.step_received]
      exact hend _ _ _ ht
    · obtain ⟨u, hu, hstep⟩ := ht.step hwaits h f code
      cases hq : c.phaseAfter (t.service.turn (.about c.config f code)) p with
      | ok q =>
        rw [hq] at hstep
        rw [Task.step_underWay_of_ok (fun r he => hp ⟨r, he⟩) hstep]
        exact ⟨(Client.Proper.phaseAfter h hq).1, hu⟩
      | error stop =>
        rw [hq] at hstep
        rw [Task.step_underWay_of_error hstep]
        exact hend _ _ _ hu

/-- Nothing stands in the way of findings whose token nothing cancels, if waits come to an end. -/
theorem unhindered_of_idle (hn : 1 ≤ c.config.maxAttempts) (hidle : Idle token s)
    (hcancels : s.service.Only fun turn => turn.cancels = false) (hwaits : c.Waits s.patience) (fs : List Finding) :
    Unhindered c code token fs s := by
  intro y hy task htask
  obtain ⟨ht, hproper⟩ := Work.Reaches.invariant (I := Tranquil token s.patience) (J := fun _ task => task.Proper c)
    ⟨hidle, rfl, hcancels⟩ (fun i task htask => by
      rw [List.getElem?_map] at htask
      obtain ⟨f, -, rfl⟩ := Option.map_eq_some_iff.1 htask
      trivial) (fun us u i task _ _ _ hu hproper => (hproper.step code hn hwaits hu).symm) hy
  obtain ⟨i, hi⟩ := List.getElem?_of_mem htask
  have hproper := hproper i task hi
  obtain ⟨f, progress⟩ := task
  match progress with
  | .fresh | .underWay (.calling _) => exact congrArg Prod.fst (Run.heed_of_calm ht.idle.calm)
  | .underWay (.pausing _ _) => exact ht.pause hwaits hproper
  | .underWay (.ended _) => trivial
  | .ended _ => trivial

end Tranquil

/-- What the judging of a finding comes to if it sees turns of a kind only: an outcome of the finding, or the failure
of a wait that is too long or of an answer beyond the limits. -/
inductive Client.Ends (c : Client σ) (P : Turn σ → Prop) (f : Finding) : Except Failure Outcome → Prop where
  | settled {o : Outcome} (h : o.finding = f) : c.Ends P f (.ok o)
  | tooLarge {a : Nat} (ha : 1 ≤ a) (hlt : a < c.config.maxAttempts) (h : ¬c.Reckons a) : c.Ends P f (.error .tooLarge)
  | excess {turn : Turn σ} {e : Json.Excess} (hturn : P turn) (h : turn.Exceeds c.levels e) : c.Ends P f (.error (.excess e))

/-- A task that is within its attempts, or that has come to what it may come to. -/
def Task.Sane (c : Client σ) (P : Turn σ → Prop) (task : Task σ) : Prop :=
  match task.progress with
  | .fresh => True
  | .underWay p => p.Within c.config.maxAttempts
  | .ended r => c.Ends P task.finding r

variable {token : TokenId} {P : Turn σ → Prop}

theorem Client.Ends.of_settles {r : Except Failure Judgment} (h : Settles r) : c.Ends P f (outcomeOf f r) := by
  obtain ⟨o, ho, htells⟩ := outcomeOf_of_settles f h
  rw [ho]
  refine .settled ?_
  match r, htells with
  | .ok j, htells => rw [htells]
  | .error (.judging e), ⟨raw, _, htells⟩ => rw [htells]

/-- What follows an attempt at which something failed. -/
theorem Client.ends_of_next {turn : Turn σ} (hturn : P turn) (htextual : turn.Textual) {a : Nat}
    (ha : (Retry.Phase.calling a : Retry.Phase σ Received).Within c.config.maxAttempts) {e : Failure}
    (hyield : turn.yield c.levels = .error e) :
    (∃ p, c.next a e = .ok p ∧ p.Within c.config.maxAttempts) ∨
      ∃ stop, c.next a e = .error stop ∧ c.Ends P f (outcomeOf f (.error (failureOfStop stop))) := by
  rcases htextual.cases c.levels with ⟨fault, hfault, raw, hraw⟩ | ⟨content, members, hbrings⟩ | ⟨excess, hexcess⟩
  · obtain rfl : e = .attempt fault := Except.error.inj (hyield.symm.trans hfault)
    by_cases hlast : a = c.config.maxAttempts
    · subst hlast
      exact .inr ⟨_, Client.next_of_last fault, .of_settles ⟨raw, hraw⟩⟩
    · have hlt := Nat.lt_of_le_of_ne ha.2 hlast
      by_cases hreckons : c.Reckons a
      · exact .inl ⟨_, Client.next_of_reckons hlast hreckons fault, ha.1, hlt⟩
      · exact .inr ⟨_, Client.next_of_not_reckons hlast hreckons fault, .tooLarge ha.1 hlt hreckons⟩
  · rw [hbrings.yield] at hyield
    simp at hyield
  · obtain rfl : e = .excess excess := Except.error.inj (hyield.symm.trans (hexcess.yield htextual.crash))
    exact .inr ⟨_, Client.next_of_not_fault rfl a, .excess hturn hexcess⟩

/-- A task that moves on freely stays sane. -/
theorem Task.Sane.step (code : String) (hn : 1 ≤ c.config.maxAttempts) (hP : ∀ turn, P turn → turn.Textual) {task : Task σ}
    (h : task.Sane c P) (hfree : task.Free token t) (honly : t.service.Only P) :
    (Task.step c code token task t).1.finding = task.finding ∧ (Task.step c code token task t).1.Sane c P ∧
      (Task.step c code token task t).2.service.Only P := by
  -- what ends a task is only logged
  have hend : ∀ (task : Task σ) (r : Except Failure Judgment) (u : Scene σ), u.service.Only P →
      c.Ends P task.finding (outcomeOf task.finding r) → (task.conclude r u).1.finding = task.finding ∧
        (task.conclude r u).1.Sane c P ∧ (task.conclude r u).2.service.Only P := by
    intro task r u hu hr
    obtain ⟨lines, hlines⟩ := settle_state task.finding r u
    rw [Task.conclude_run, hlines]
    exact ⟨rfl, hr, hu⟩
  obtain ⟨f, progress⟩ := task
  match progress with
  | .fresh =>
    have hheed : Run.heed (some token) t = (.ok (), (Run.heed (some token) t).2) := Prod.ext hfree rfl
    rw [Task.step_fresh_of_heed_ok _ hheed hn]
    exact ⟨rfl, ⟨Nat.le_refl 1, hn⟩, (Run.heed_frame hheed).1 ▸ honly⟩
  | .ended r => exact ⟨rfl, h, honly⟩
  | .underWay (.ended received) =>
    rw [Task.step_received]
    exact hend _ _ _ honly (.of_settles (settles_judgmentOf received))
  | .underWay (.pausing a d) =>
    have hpause : Run.pause (some token) d t = (.ok (), (Run.pause (some token) d t).2) := Prod.ext hfree rfl
    rw [Task.step_underWay_of_ok (fun r => by simp) (Retry.step_pausing_of_ok hpause)]
    have hwithin : 1 ≤ a ∧ a < c.config.maxAttempts := h
    exact ⟨rfl, ⟨Nat.le_add_left 1 a, hwithin.2⟩, (Run.pause_frame hpause).1 ▸ honly⟩
  | .underWay (.calling a) =>
    have hheed : Run.heed (some token) t = (.ok (), (Run.heed (some token) t).2) := Prod.ext hfree rfl
    have hask := ask_of_heed_ok (c := c) (.about c.config f code) a hheed
    rw [(Run.heed_frame hheed).1] at hask
    have hasked : (c.asks (.about c.config f code) (some token) (Run.heed (some token) t).2).service.Only P := by
      rw [Client.asks, Scene.service_sent, (Run.heed_frame hheed).1]
      exact honly
    cases hyield : (t.service.turn (.about c.config f code)).yield c.levels with
    | ok r =>
      rw [hyield] at hask
      rw [Task.step_underWay_of_ok (fun r => by simp) (Retry.step_calling_of_ok hask)]
      exact ⟨rfl, trivial, hasked⟩
    | error e =>
      rw [hyield] at hask
      obtain ⟨lines, hafter⟩ := afterFailure_run c f code (some token) a e
        (c.asks (.about c.config f code) (some token) (Run.heed (some token) t).2)
      have hstep := (Retry.step_calling_of_error hask).trans hafter
      rcases Client.ends_of_next (f := f) (honly _ _) (hP _ (honly _ _)) h hyield with ⟨p, hnext, hp⟩ | ⟨stop, hnext, hends⟩
      · rw [hnext] at hstep
        rw [Task.step_underWay_of_ok (fun r => by simp) hstep]
        exact ⟨rfl, hp, hasked⟩
      · rw [hnext] at hstep
        rw [Task.step_underWay_of_error hstep]
        exact hend _ _ _ hasked hends

variable {fs : List Finding}

/-- Whatever the order in which tasks move on freely, all of them stay sane. -/
theorem sane_of_reaches (hn : 1 ≤ c.config.maxAttempts) (hP : ∀ turn, P turn → turn.Textual)
    (hfree : Unhindered c code token fs s) (honly : s.service.Only P) {y : List (Task σ) × Scene σ}
    (h : (poolWork c code token).Reaches (fs.map Task.ofFinding, s) y) :
    y.2.service.Only P ∧ ∀ (i : Nat) (task : Task σ), y.1[i]? = some task →
      fs[i]? = some task.finding ∧ task.Sane c P := by
  refine Work.Reaches.invariant (I := fun u : Scene σ => u.service.Only P) honly (fun i task htask => ?_) ?_ h
  · rw [List.getElem?_map] at htask
    obtain ⟨f, hf, rfl⟩ := Option.map_eq_some_iff.1 htask
    exact ⟨hf, trivial⟩
  · intro us u i task hreach htask _ hu ⟨hf, hsane⟩
    obtain ⟨hfinding, hsane', hu'⟩ :=
      hsane.step code hn hP (hfree _ hreach task (List.mem_of_getElem? htask)) hu
    exact ⟨hu', hf.trans (congrArg some hfinding.symm), hsane'⟩

/-- In whatever order tasks move on freely, each comes to what its finding may come to. -/
theorem permits_ends (hn : 1 ≤ c.config.maxAttempts) (hP : ∀ turn, P turn → turn.Textual)
    (hfree : Unhindered c code token fs s) (honly : s.service.Only P) :
    (poolWork c code token).Permits (fs.map Task.ofFinding) s fun i r => ∃ f, fs[i]? = some f ∧ c.Ends P f r := by
  intro y hy i task r htask hr
  obtain ⟨hf, hsane⟩ := (sane_of_reaches hn hP hfree honly hy).2 i task htask
  obtain ⟨f, progress⟩ := task
  obtain rfl : progress = .ended r := Task.result?_eq_some.1 hr
  exact ⟨f, hf, hsane⟩

/-- Findings judged one after the other are judged without being cancelled if nothing stands in the way of their
tasks. -/
theorem neverCancelled_of_unhindered (hn : 1 ≤ c.config.maxAttempts) (hfree : Unhindered c code token fs s) {i : Nat}
    (hi : i < fs.length) :
    NeverCancelled c fs[i] code (some token) (Act.after (judgeOne c code token) (fs.take i) s) := by
  intro p u hu
  obtain ⟨ts, hts, hget, hlt⟩ := exists_reaches_fresh c code token s hi
  have hheed := hfree _ hts _ (List.mem_of_getElem? hget)
  have hfirst := reaches_of_step hget rfl (Task.step_fresh_of_heed_ok code (Run.heed_eq_of_fst hheed) hn)
  have hreach := (hts.trans hfirst).trans (reaches_of_attempts hlt hu)
  have hlast := hfree _ hreach _ (List.mem_of_getElem? (List.getElem?_set_self hlt))
  cases p <;> exact hlast

theorem only_after_judgeOne (hn : 1 ≤ c.config.maxAttempts) (hP : ∀ turn, P turn → turn.Textual)
    (hfree : Unhindered c code token fs s) (honly : s.service.Only P) {i : Nat} (hi : i ≤ fs.length) :
    (Act.after (judgeOne c code token) (fs.take i) s).service.Only P := by
  obtain ⟨ts, hts, -⟩ := reaches_judgeOne_take c code token fs s i hi
  exact (sane_of_reaches hn hP hfree honly hts).1

/-- All findings come to one outcome each, in their order, or to a failure for a wait that is too long or for an answer
beyond the limits, however many workers there are. -/
theorem judgeAll_ends {workers : Nat} (hw : 1 ≤ workers) (hn : 1 ≤ c.config.maxAttempts)
    (hP : ∀ turn, P turn → turn.Textual)
    (hfree : Unhindered c code (scope workers token fs s).1 fs (scope workers token fs s).2)
    (honly : s.service.Only P) :
    (∃ os, (judgeAll c workers code token fs s).1 = .ok os ∧ os.map Outcome.finding = fs) ∨
      ((judgeAll c workers code token fs s).1 = .error .tooLarge ∧
        ∃ a, 1 ≤ a ∧ a < c.config.maxAttempts ∧ ¬c.Reckons a) ∨
      ∃ e, (judgeAll c workers code token fs s).1 = .error (.excess e) ∧ ∃ turn, P turn ∧ turn.Exceeds c.levels e := by
  have honly : (scope workers token fs s).2.service.Only P := by
    rw [scope]
    split <;> exact honly
  have hgathered := judgeAll_gathered hw (permits_ends hn hP hfree honly)
  cases hjudged : (judgeAll c workers code token fs s).1 with
  | ok os =>
    rw [hjudged] at hgathered
    obtain ⟨hlength, hall⟩ := hgathered
    refine .inl ⟨os, rfl, List.ext_getElem? fun i => ?_⟩
    rw [List.getElem?_map]
    cases ho : os[i]? with
    | none =>
      rw [List.getElem?_eq_none_iff] at ho
      rw [List.getElem?_eq_none (hlength ▸ ho)]
      rfl
    | some o =>
      obtain ⟨f, hf, hends⟩ := hall i o ho
      cases hends with
      | settled h => rw [hf, Option.map_some, h]
  | error e =>
    rw [hjudged] at hgathered
    obtain ⟨_, _, _, f, _, hends⟩ := hgathered
    cases hends with
    | tooLarge h1 hlt hnot => exact .inr (.inl ⟨rfl, _, h1, hlt, hnot⟩)
    | excess hturn hexceeds => exact .inr (.inr ⟨_, rfl, _, hturn, hexceeds⟩)

end Adjudication.Judge
