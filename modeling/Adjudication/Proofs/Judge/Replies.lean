import Adjudication.Proofs.Judge.Sound

/-!
What has come back on requests. A trace tells the reply to each request that was sent. While a finding is judged, the phase
of the attempts tells how many requests have been sent, and an object is received with the last reply. So what judging comes
to is told by the replies: the verdict is that of the object whose text is the last content, and exhausted attempts keep the
last content, if there is one.
-/

namespace Adjudication

open Time (TokenId)

variable {σ : Type}

/-- If it is a request, it is the given one. -/
def Event.Asks (request : Judge.Request) : Event σ → Prop
  | .requested r _ _ => r = request
  | _ => True

namespace Run

variable [Time.Seconds σ]

/-- A look at a token leaves no trace, whatever it finds. -/
theorem trace_heed (token : Option TokenId) (s : Scene σ) : (heed token s).2.trace = s.trace := by
  cases token with
  | none => rfl
  | some id => rw [heed_run]

/-- A pause is recorded, however it ends. -/
theorem trace_pause (token : Option TokenId) (delay : σ) (s : Scene σ) :
    (pause token delay s).2.trace = s.trace ++ [.paused delay token s.timeline.now] := by
  cases token with
  | none => rw [pause_none_run]
  | some id =>
    rw [pause_run]
    cases s.timeline.wait s.patience id delay <;> rfl

end Run

namespace Judge

/-! ### Replies -/

/-- The replies to requests after one more event: a request has none at first, and a content comes back on the last one. -/
def heard (rs : List (Option Json)) : Event σ → List (Option Json)
  | .requested _ _ _ => rs ++ [none]
  | .answered content _ => rs.dropLast ++ [some content]
  | _ => rs

/-- The replies to the requests among events, in their order: the content that came back, if one did. -/
def replies (events : List (Event σ)) : List (Option Json) := events.foldl heard []

/-- The content that came back on the last request, if one did. -/
def lastReply (rs : List (Option Json)) : Option Json := rs.getLast?.join

@[simp]
theorem lastReply_concat (rs : List (Option Json)) (reply : Option Json) : lastReply (rs ++ [reply]) = reply := by
  simp [lastReply]

/-- A trace goes on with no requests but the given one, and the replies go on with it. -/
def Hears (request : Request) (x y : List (Option Json) × Scene σ) : Prop :=
  ∃ events, y.2.trace = x.2.trace ++ events ∧ (∀ e ∈ events, e.Asks request) ∧ events.foldl heard x.1 = y.1

section Hears

variable {request : Request} {rs : List (Option Json)} {s t : Scene σ} {x y z : List (Option Json) × Scene σ}

theorem Hears.trans (h : Hears request x y) (h' : Hears request y z) : Hears request x z := by
  obtain ⟨events, htrace, hasks, hheard⟩ := h
  obtain ⟨later, htrace', hasks', hheard'⟩ := h'
  refine ⟨events ++ later, ?_, ?_, ?_⟩
  · rw [htrace', htrace, List.append_assoc]
  · exact fun e he => (List.mem_append.1 he).elim (hasks e) (hasks' e)
  · rw [List.foldl_append, hheard, hheard']

theorem hears_of_trace_eq (h : t.trace = s.trace) : Hears request (rs, s) (rs, t) :=
  ⟨[], h.trans (List.append_nil _).symm, fun _ he => absurd he List.not_mem_nil, rfl⟩

theorem hears_of_event {e : Event σ} (h : t.trace = s.trace ++ [e]) (hasks : e.Asks request) :
    Hears request (rs, s) (heard rs e, t) :=
  ⟨[e], h, fun _ he => List.mem_singleton.1 he ▸ hasks, rfl⟩

theorem hears_noting (lines : List (Level × Text.Wide)) : Hears request (rs, s) (rs, s.noting lines) := by
  refine ⟨_, rfl, fun e he => ?_, ?_⟩
  · obtain ⟨line, -, rfl⟩ := List.mem_map.1 he
    trivial
  · rw [List.foldl_map]
    exact List.foldl_fixed' (fun _ => rfl) lines

variable [Time.Seconds σ]

/-- A request is followed by its reply. -/
theorem hears_sent (timeout : σ) :
    Hears request (rs, s) (rs ++ [(s.service.turn request).content.toOption], s.sent request timeout) := by
  have hasked : Hears request (rs, s) (rs ++ [none], s.asked request timeout) := hears_of_event (e := .requested _ _ _) rfl rfl
  have htaken : Hears request (rs, s) (rs ++ [none], s.taken request timeout) := by
    rw [Scene.taken, Scene.cancelCaller]
    split
    · split
      · exact hasked.trans (hears_of_event (e := .cancelled _ _) rfl trivial)
      · exact hasked
    · exact hasked
  rw [Scene.sent, Scene.answered]
  cases (s.service.turn request).content with
  | error e => exact htaken
  | ok content =>
    have hanswered := htaken.trans (hears_of_event (e := .answered content (s.taken request timeout).timeline.now)
      (t := { s.taken request timeout with
        trace := (s.taken request timeout).trace ++ [.answered content (s.taken request timeout).timeline.now] }) rfl trivial)
    rwa [heard, List.dropLast_concat] at hanswered

end Hears

/-! ### Attempts -/

/-- What is kept of a reply: its content, and nothing if no content came back. -/
def kept (reply : Option Json) : Json := reply.getD .null

variable {levels : Nat}

theorem objectOf_eq_ok {content text : Text.Wide} {members : Json.Members}
    (h : objectOf levels content = .ok (text, members)) :
    text = content ∧ Json.readWide levels content = .ok (.obj members) := by
  rw [objectOf] at h
  split at h
  next other hread =>
    obtain ⟨rfl, rfl⟩ := Prod.mk.inj (Except.ok.inj h)
    exact ⟨rfl, hread⟩
  all_goals cases h

theorem content_of_objectOf {content : Text.Wide} {last : AttemptFault} (h : objectOf levels content = .error (.attempt last)) :
    last.content = .ofWide content := by
  rw [objectOf] at h
  split at h <;> cases h <;> rfl

/-- What an attempt comes to, given the reply to its request: an object whose text the content is, a fault that keeps the
content, or a failure that ends the attempts. -/
inductive Comes (levels a : Nat) : Option Json → Except Failure Received → Prop where
  | object {content : Text.Wide} {members : Json.Members} (h : Json.readWide levels content = .ok (.obj members)) :
    Comes levels a (some (.ofWide content)) (.ok ⟨a, content, members⟩)
  | fault {reply : Option Json} {last : AttemptFault} (h : last.content = kept reply) :
      Comes levels a reply (.error (.attempt last))
  | other {reply : Option Json} {e : Failure} (hreply : e.isOfReply = true) (hfault : isAttemptFault e = false) :
    Comes levels a reply (.error e)

theorem comes_of_objectOf (a : Nat) (content : Text.Wide) :
    Comes levels a (some (.ofWide content)) ((objectOf levels content).map fun r => ⟨a, r.1, r.2⟩) := by
  cases h : objectOf levels content with
  | ok r =>
    obtain ⟨htext, hread⟩ := objectOf_eq_ok h
    simp only [Except.map, htext]
    exact .object hread
  | error e =>
    cases e with
    | attempt last =>
      exact .fault (content_of_objectOf h)
    | excess e => exact Comes.other (e := .excess e) rfl rfl
    | _ =>
      rw [objectOf] at h
      split at h <;> cases h

theorem comes_of_decodeObject (a : Nat) (d : Json) :
    Comes levels a (some d) ((decodeObject levels d).map fun r => ⟨a, r.1, r.2⟩) := by
  cases d with
  | str s => exact comes_of_objectOf a (.text s)
  | torn t => exact comes_of_objectOf a (.torn t)
  | _ => exact .fault rfl

/-- What an attempt comes to on a turn. -/
theorem Turn.comes_yield (turn : Turn σ) (a : Nat) :
    Comes levels a turn.content.toOption ((turn.yield levels).map fun r => ⟨a, r.1, r.2⟩) := by
  rw [Turn.yield]
  cases hc : turn.content with
  | ok d => exact comes_of_decodeObject a d
  | error e =>
    rw [Turn.content] at hc
    split at hc
    · obtain rfl := Except.error.inj hc
      exact Comes.other (e := .crash _) rfl rfl
    · cases hr : turn.reply.content with
      | ok d =>
        rw [hr] at hc
        cases hc
      | error reason =>
        rw [hr] at hc
        obtain rfl := Except.error.inj hc
        exact .fault rfl

variable [Time.Seconds σ] {c : Client σ} {f : Finding} {code : String} {s t : Scene σ} {rs : List (Option Json)}

/-- An attempt on a token that is cancelled sends nothing; any other one sends its request and comes to what the reply to it
brings. -/
theorem hears_ask {request : Request} {token : Option TokenId} {a : Nat} {r : Except Failure Received}
    (h : ask c request token a s = (r, t)) :
    (Hears request (rs, s) (rs, t) ∧ r = .error (.cancelled .verification)) ∨
      ∃ reply, Hears request (rs, s) (rs ++ [reply], t) ∧ Comes c.levels a reply r := by
  rcases hh : Run.heed token s with ⟨e | ⟨⟩, u⟩
  · rw [ask_of_heed_error request a hh] at h
    obtain ⟨rfl, rfl⟩ := Prod.ext_iff.1 h
    obtain rfl := heed_eq_error hh
    have htrace := Run.trace_heed token s
    rw [hh] at htrace
    exact .inl ⟨hears_of_trace_eq htrace, rfl⟩
  · rw [ask_of_heed_ok request a hh] at h
    obtain ⟨rfl, rfl⟩ := Prod.ext_iff.1 h
    obtain ⟨-, htrace⟩ := Run.heed_frame hh
    exact .inr ⟨_, (hears_of_trace_eq htrace).trans (hears_sent _), Turn.comes_yield _ a⟩

/-! ### Phases -/

/-- What the replies tell of a phase: how many requests have been sent, and with which content an object has been received. -/
def Asked (levels : Nat) (rs : List (Option Json)) : Retry.Phase σ Received → Prop
  | .calling a => rs.length + 1 = a
  | .pausing a _ => rs.length = a
  | .ended received => rs.length = received.attempt ∧ ∃ content, lastReply rs = some (.ofWide content) ∧
      received.content = content ∧ Json.readWide levels content = .ok (.obj received.members)

/-- What judging comes to is told by the replies: the last content is the text of an object, off which the judgment is read
or which holds no verdict, or the attempts are exhausted and the last reply is what is kept. All requests are counted. -/
inductive Backed (levels : Nat) (rs : List (Option Json)) : Except Failure Judgment → Prop where
  | judged {content : Text.Wide} {members : Json.Members} {v : Verdict} (hlast : lastReply rs = some (.ofWide content))
      (hread : Json.readWide levels content = .ok (.obj members))
      (hcheck : Schema.validate "JudgeVerdict" Verdict.check (.obj members) = .ok v) :
      Backed levels rs (.ok ⟨v.isReal, v.confidence, v.rationale, content⟩)
  | malformed {content : Text.Wide} {members : Json.Members} {e : Schema.Invalid Json}
      (hlast : lastReply rs = some (.ofWide content)) (hread : Json.readWide levels content = .ok (.obj members))
      (hcheck : Schema.validate "JudgeVerdict" Verdict.check (.obj members) = .error e) :
      Backed levels rs (.error (.judging (.malformed rs.length content e)))
  | exhausted {last : AttemptFault} (hkept : last.content = kept (lastReply rs)) :
      Backed levels rs (.error (.judging (.exhausted rs.length last)))
  | failed {e : Failure} (h : ∀ cause, e ≠ .judging cause) : Backed levels rs (.error e)

omit [Time.Seconds σ] in
theorem Asked.backed {received : Received} (h : Asked (σ := σ) levels rs (.ended received)) :
    Backed levels rs (judgmentOf received) := by
  obtain ⟨attempt, text, members⟩ := received
  obtain ⟨rfl, content, hlast, rfl, hread⟩ := h
  rw [judgmentOf]
  split
  next v hcheck => exact .judged hlast hread hcheck
  next e hcheck => exact .malformed hlast hread hcheck

/-- What follows a phase: another one, or a stop that judging comes to. -/
def Followed (levels : Nat) (rs : List (Option Json)) : Except (Retry.Stop Failure) (Retry.Phase σ Received) → Prop
  | .ok p => Asked levels rs p
  | .error stop => Backed levels rs (.error (failureOfStop stop))

/-- What follows an attempt that has failed: its fault keeps the last reply, or it is none that judging tells of. -/
theorem followed_next {a : Nat} {e : Failure} {r : Except (Retry.Stop Failure) (Retry.Phase σ Received)}
    (hnext : c.Next a e r) (hlength : rs.length = a)
    (he : (isAttemptFault e = false ∧ ∀ cause, e ≠ .judging cause) ∨
      ∃ last, e = .attempt last ∧ last.content = kept (lastReply rs)) : Followed levels rs r := by
  rcases he with ⟨hfault, hplain⟩ | ⟨last, rfl, hkept⟩
  · cases hnext with
    | escaped _ => exact .failed hplain
    | _ => cases hfault
  · cases hnext with
    | escaped hfault => cases hfault
    | exhausted _ => exact hlength ▸ .exhausted hkept
    | pausing _ _ => exact hlength
    | tooLarge _ _ => exact .failed fun _ h => by cases h

/-- A phase sends the request at most once, and what follows it is told by the replies. -/
theorem Asked.step {p : Retry.Phase σ Received} (hp : Asked c.levels rs p) (f : Finding) (code : String)
    (token : Option TokenId) (s : Scene σ) :
    ∃ rs', Hears (.about c.config f code) (rs, s) (rs', ((attempts c f code token).step p s).2) ∧
      Followed c.levels rs' ((attempts c f code token).step p s).1 := by
  have hphased := phased_step c f code token p s
  have hlength : ∀ {a}, rs.length + 1 = a → ∀ reply, (rs ++ [reply]).length = a := fun ha _ => List.length_append.trans ha
  generalize (attempts c f code token).step p s = x at hphased ⊢
  cases hphased with
  | received hask =>
    rcases hears_ask hask with ⟨-, hcancelled⟩ | ⟨reply, hhears, hcomes⟩
    · cases hcancelled
    · refine ⟨_, hhears, ?_⟩
      cases hcomes with
      | object hread => exact ⟨hlength hp _, _, lastReply_concat _ _, rfl, hread⟩
  | @failed a e r t lines hask hnext =>
    rcases hears_ask hask with ⟨hhears, hcancelled⟩ | ⟨reply, hhears, hcomes⟩
    · obtain rfl := Except.error.inj hcancelled
      refine ⟨rs, hhears.trans (hears_noting lines), ?_⟩
      cases hnext with
      | escaped _ => exact .failed fun _ h => by cases h
    · refine ⟨_, hhears.trans (hears_noting lines), followed_next hnext (hlength hp reply) ?_⟩
      cases hcomes with
      | fault hkept => exact .inr ⟨_, rfl, by rwa [lastReply_concat]⟩
      | other hreply hfault => exact .inl ⟨hfault, by rintro cause rfl; cases hreply⟩
  | @waited a d t hpause =>
    have htrace := Run.trace_pause token d s
    rw [hpause] at htrace
    exact ⟨rs, hears_of_event htrace trivial, congrArg (· + 1) hp⟩
  | @broken a d e t hpause =>
    have htrace := Run.trace_pause token d s
    rw [hpause] at htrace
    refine ⟨rs, hears_of_event htrace trivial, .failed ?_⟩
    rcases pause_eq_error hpause with rfl | rfl <;> exact fun _ h => by cases h
  | ended => exact ⟨rs, hears_of_trace_eq rfl, hp⟩

/-! ### Runs -/

/-- The phases that the attempts come to are told by the replies. -/
theorem Asked.of_reaches {token : Option TokenId} {p : Retry.Phase σ Received} (h : (attempts c f code token).Reaches s p t) :
    ∃ rs, Hears (.about c.config f code) ([], s) (rs, t) ∧ Asked c.levels rs p := by
  suffices hx : ∀ x : Retry.Phase σ Received × Scene σ,
      Relation.ReflTransGen (attempts c f code token).Passes (.calling 1, s) x →
      ∃ rs, Hears (.about c.config f code) ([], s) (rs, x.2) ∧ Asked c.levels rs x.1 from hx _ h
  intro x hx
  induction hx with
  | refl => exact ⟨[], hears_of_trace_eq rfl, rfl⟩
  | @tail y z _ hyz ih =>
    obtain ⟨rs, hhears, hasked⟩ := ih
    obtain ⟨rs', hhears', hfollowed⟩ := hasked.step f code token y.2
    rw [show (attempts c f code token).step y.1 y.2 = (.ok z.1, z.2) from hyz] at hhears' hfollowed
    exact ⟨rs', hhears.trans hhears', hfollowed⟩

/-- What judging a finding comes to is told by the replies to the requests that it has sent. -/
theorem backed_judge (c : Client σ) (f : Finding) (code : String) (token : Option TokenId) (s : Scene σ) :
    ∃ rs, Hears (.about c.config f code) ([], s) (rs, (judge c f code token s).2) ∧
      Backed c.levels rs (judge c f code token s).1 := by
  rw [judge_run]
  by_cases hn : 1 ≤ c.config.maxAttempts
  · rcases Retry.run_ends (r := attempts c f code token) hn s with ⟨received, t, ht, hrun⟩ | ⟨p, t, stop, u, ht, hstop, hrun⟩
    · obtain ⟨rs, hhears, hasked⟩ := Asked.of_reaches ht
      rw [hrun]
      exact ⟨rs, hhears, hasked.backed⟩
    · obtain ⟨rs, hhears, hasked⟩ := Asked.of_reaches ht
      obtain ⟨rs', hhears', hfollowed⟩ := hasked.step f code token t
      rw [hstop] at hhears' hfollowed
      rw [hrun]
      exact ⟨rs', hhears.trans hhears', hfollowed⟩
  · rw [Retry.run_of_no_attempts (r := attempts c f code token) (Nat.not_le.1 hn)]
    exact ⟨[], hears_of_trace_eq rfl, .failed fun _ h => by cases h⟩

/-! ### Tasks -/

/-- A task whose phase, or what it has come to, is told by the replies. -/
def Task.Backed (levels : Nat) (rs : List (Option Json)) (task : Task σ) : Prop :=
  match task.progress with
  | .fresh => rs = []
  | .underWay p => Asked levels rs p
  | .ended r => ∃ x, Judge.Backed levels rs x ∧ r = outcomeOf task.finding x

omit [Time.Seconds σ] in
theorem backed_settle (c : Client σ) (code : String) (f : Finding) {r : Except Failure Judgment} (h : Judge.Backed levels rs r)
    (s : Scene σ) : ∃ rs', Hears (.about c.config f code) (rs, s) (rs', (settle f r s).2) ∧
      (⟨f, .ended (outcomeOf f r)⟩ : Task σ).Backed levels rs' := by
  obtain ⟨lines, hlines⟩ := settle_state f r s
  rw [hlines]
  exact ⟨rs, hears_noting lines, r, h, rfl⟩

/-- A step sends the request of the task's finding at most once, and leaves the task told by the replies. -/
theorem Task.Backed.step {task : Task σ} (h : task.Backed c.levels rs) (code : String) (token : TokenId) (s : Scene σ) :
    ∃ rs', Hears (.about c.config task.finding code) (rs, s) (rs', (Task.step c code token task s).2) ∧
      (Task.step c code token task s).1.Backed c.levels rs' := by
  obtain ⟨f, progress⟩ := task
  have hheeded : ∀ {r t}, Run.heed (some token) s = (r, t) → t.trace = s.trace := fun hheed => by
    have htrace := Run.trace_heed (some token) s
    rwa [hheed] at htrace
  have hstepped := Task.stepped c code token f progress s
  generalize Task.step c code token ⟨f, progress⟩ s = x at hstepped ⊢
  cases hstepped with
  | cancelled hheed =>
    obtain rfl : rs = [] := h
    obtain rfl := heed_eq_error hheed
    exact ⟨[], hears_of_trace_eq (hheeded hheed), _, .failed (e := .cancelled .verification) (fun _ h => by cases h), rfl⟩
  | refused hheed _ =>
    obtain rfl : rs = [] := h
    have hnone : Judge.Backed c.levels [] (.error .noAttempts) := .failed fun _ h => by cases h
    obtain ⟨rs', hhears, hbacked⟩ := backed_settle c code f hnone _
    exact ⟨rs', (hears_of_trace_eq (hheeded hheed)).trans hhears, hbacked⟩
  | begun hheed _ =>
    obtain rfl : rs = [] := h
    exact ⟨[], hears_of_trace_eq (hheeded hheed), rfl⟩
  | received =>
    have hp : Asked (σ := σ) c.levels rs (.ended _) := h
    exact backed_settle c code f hp.backed s
  | @stopped p stop t hstep =>
    obtain ⟨rs', hhears, hfollowed⟩ := Asked.step h f code (some token) s
    rw [hstep] at hhears hfollowed
    obtain ⟨last, hhears', hbacked⟩ := backed_settle c code f hfollowed t
    exact ⟨last, hhears.trans hhears', hbacked⟩
  | @moved p q t _ hstep =>
    obtain ⟨rs', hhears, hfollowed⟩ := Asked.step h f code (some token) s
    rw [hstep] at hhears hfollowed
    exact ⟨rs', hhears, hfollowed⟩
  | stayed => exact ⟨rs, hears_of_trace_eq rfl, h⟩

end Judge
end Adjudication
