import Adjudication.Proofs.Judge.Protocol
import Adjudication.Proofs.Schema.Scalars

/-!
What is read off an object that the service answers with. The verdict, the confidence and the rationale depend on the members
under six names only, as long as no name is torn: the judgment is the truth value that the first of the verdict's names stands
for, and without one the response is malformed; so it is if a confidence is given that tells no probability.
-/

namespace Adjudication

open Schema (Stands Tells)

/-! ### Members -/

namespace Verdict

variable {ms ms' : Json.Members} {b : Bool} {confidence : Option Float} {rationale : Text.Wide}

/-- No name among the members is torn. -/
def Untorn (ms : Json.Members) : Prop := ∀ t, Text.Wide.torn t ∉ ms.names

/-- The value that the verdict is read off: that under the first of its names, else that under the second. -/
def answer? (ms : Json.Members) : Option Json :=
  (ms.get? (.text "is_real_vulnerability")).or (ms.get? (.text "isRealVulnerability"))

/-- The confidence that members give: none if there is no value or null, else the probability that the value tells. -/
inductive Confides (ms : Json.Members) : Option Float → Prop
  | absent (h : ms.get? (.text "confidence") = none) : Confides ms none
  | null (h : ms.get? (.text "confidence") = some .null) : Confides ms none
  | told {d : Json} {x : Float} (h : ms.get? (.text "confidence") = some d) (hx : Tells d x) : Confides ms (some x)

/-- The rationale that members give: the text under the first of its names that is there, torn or not. Null is no text, and a
value that is no text is shown. -/
def rationaleOf (ms : Json.Members) : Text.Wide :=
  match ((ms.get? (.text "rationale")).or (ms.get? (.text "reason"))).or (ms.get? (.text "explanation")) with
  | none | some .null => .text ""
  | some (.str s) => .text s
  | some (.torn t) => .torn t
  | some d => d.display

/-- What an object answers: a truth value, a confidence and a rationale. -/
structure Answers (ms : Json.Members) (b : Bool) (confidence : Option Float) (rationale : Text.Wide) : Prop where
  untorn : Untorn ms
  real : ∃ d, answer? ms = some d ∧ Stands d b
  confidence : Confides ms confidence
  rationale : rationale = rationaleOf ms

theorem tornName?_eq_none_iff : tornName? ms = none ↔ Untorn ms := by
  rw [tornName?, List.findSome?_eq_none_iff, Untorn]
  constructor
  · intro h t hmem
    obtain ⟨m, hm, hname⟩ := List.mem_map.1 hmem
    have hnone := h m hm
    rw [hname] at hnone
    cases hnone
  · intro h m hm
    cases hname : m.1 with
    | text s => rfl
    | torn t => exact absurd (List.mem_map.2 ⟨m, hm, hname⟩) (h t)

/-- The value under the first of several names that is there. -/
theorem map_firstOf_cons (name : String) (names : List String) :
    (Schema.firstOf ms (name :: names)).map Prod.snd =
      (ms.get? (.text name)).or ((Schema.firstOf ms names).map Prod.snd) := by
  rw [Schema.firstOf, List.findSome?_cons, Schema.member?_eq_get?]
  cases ms.get? (.text name) <;> rfl

theorem map_firstOf_nil : (Schema.firstOf ms []).map Prod.snd = none := rfl

theorem checkReal_eq_ok_iff (whole : Json) : checkReal whole ms = .ok b ↔ ∃ d, answer? ms = some d ∧ Stands d b := by
  have hfirst : (Schema.firstOf ms realNames).map Prod.snd = answer? ms := by
    rw [realNames, map_firstOf_cons, map_firstOf_cons, map_firstOf_nil, Option.or_none, answer?]
  rw [← hfirst, checkReal]
  cases Schema.firstOf ms realNames with
  | none => exact iff_of_false nofun (by simp)
  | some found => simp [Schema.Checked.under_eq_ok_iff, Schema.truth_eq_ok_iff]

theorem readRationale_eq (ms : Json.Members) : readRationale ms = rationaleOf ms := by
  have hfirst : (Schema.firstOf ms rationaleNames).map Prod.snd =
      ((ms.get? (.text "rationale")).or (ms.get? (.text "reason"))).or (ms.get? (.text "explanation")) := by
    rw [rationaleNames, map_firstOf_cons, map_firstOf_cons, map_firstOf_cons, map_firstOf_nil, Option.or_none, Option.or_assoc]
  rw [rationaleOf, ← hfirst, readRationale]
  rcases Schema.firstOf ms rationaleNames with _ | ⟨name, d⟩
  · rfl
  · cases d <;> rfl

theorem confidence_eq_ok_iff :
    Schema.defaulted ms "confidence" none (Schema.nullable Schema.probability) = .ok confidence ↔ Confides ms confidence := by
  simp only [Schema.defaulted_eq_ok_iff, Schema.nullable_eq_ok_iff, Schema.probability_eq_ok_iff]
  constructor
  · rintro (⟨h, rfl⟩ | ⟨d, h, ⟨rfl, rfl⟩ | ⟨-, x, hx, rfl⟩⟩)
    · exact .absent h
    · exact .null h
    · exact .told h hx
  · intro h
    cases h with
    | absent h => exact .inl ⟨h, rfl⟩
    | null h => exact .inr ⟨_, h, .inl ⟨rfl, rfl⟩⟩
    | @told d x h hx =>
      have hnull : d ≠ .null := by
        rintro rfl
        cases hx
      exact .inr ⟨d, h, .inr ⟨hnull, x, hx, rfl⟩⟩

/-- An object passes just as what it answers. -/
theorem check_eq_ok_iff {v : Verdict} : check (.obj ms) = .ok v ↔
    Answers ms v.isReal v.confidence v.rationale ∧ v.extra = extraMembers ms := by
  rw [check, Schema.record_obj]
  constructor
  · intro h
    split at h
    · cases h
    next hname =>
      obtain ⟨build, confidence, hbuild, hconfidence, rfl⟩ := Schema.Checked.seq_eq_ok h
      obtain ⟨isReal, hreal, rfl⟩ := Schema.Checked.map_eq_ok hbuild
      exact ⟨⟨tornName?_eq_none_iff.1 hname, (checkReal_eq_ok_iff _).1 hreal, confidence_eq_ok_iff.1 hconfidence,
        readRationale_eq ms⟩, rfl⟩
  · rintro ⟨⟨huntorn, hreal, hconfidence, hrationale⟩, hextra⟩
    obtain ⟨isReal, confidence, rationale, extra⟩ := v
    dsimp only at hreal hconfidence hrationale hextra
    rw [tornName?_eq_none_iff.2 huntorn]
    dsimp only
    rw [(checkReal_eq_ok_iff (.obj ms)).2 hreal, confidence_eq_ok_iff.2 hconfidence, readRationale_eq, hrationale, hextra]
    rfl

/-- The members under the names that a verdict is read off are the same. -/
def Agree (ms ms' : Json.Members) : Prop :=
  ∀ name ∈ ["is_real_vulnerability", "isRealVulnerability", "confidence", "rationale", "reason", "explanation"],
    ms.get? (.text name) = ms'.get? (.text name)

theorem Agree.symm (h : Agree ms ms') : Agree ms' ms := fun name hname => (h name hname).symm

theorem Agree.answers (h : Agree ms ms') (huntorn : Untorn ms') (hanswers : Answers ms b confidence rationale) :
    Answers ms' b confidence rationale := by
  have hanswer : answer? ms = answer? ms' := by
    rw [answer?, answer?, h _ (by simp), h "isRealVulnerability" (by simp)]
  have hconfidence := h "confidence" (by simp)
  have hrationale : rationaleOf ms = rationaleOf ms' := by
    rw [rationaleOf, rationaleOf, h "rationale" (by simp), h "reason" (by simp), h "explanation" (by simp)]
  refine ⟨huntorn, hanswer ▸ hanswers.real, ?_, hanswers.rationale.trans hrationale⟩
  cases hanswers.confidence with
  | absent hnone => exact .absent (hconfidence ▸ hnone)
  | null hnull => exact .null (hconfidence ▸ hnull)
  | told hd hx => exact .told (hconfidence ▸ hd) hx

end Verdict

namespace Judge

open Time (TokenId)

variable {σ : Type} [Time.Seconds σ] {c : Client σ} {f : Finding} {code : String} {token : Option TokenId} {s : Scene σ}
  {received : Received} {j : Judgment} {b : Bool} {confidence : Option Float} {rationale : Text.Wide}

omit [Time.Seconds σ] in
/-- A judgment is what the object answers, with the content that the object was read from. -/
theorem judgmentOf_eq_ok_iff : judgmentOf received = .ok j ↔
    Verdict.Answers received.members j.isReal j.confidence j.rationale ∧ j.rawResponse = received.content := by
  rw [judgmentOf]
  constructor
  · intro h
    split at h
    next v hv =>
      obtain rfl := Except.ok.inj h
      exact ⟨(Verdict.check_eq_ok_iff.1 (Schema.validate_eq_ok_iff.1 hv)).1, rfl⟩
    next => cases h
  · rintro ⟨hanswers, hresponse⟩
    obtain ⟨isReal, confidence, rationale, rawResponse⟩ := j
    obtain rfl : rawResponse = received.content := hresponse
    have hcheck : Verdict.check (.obj received.members) =
        .ok ⟨isReal, confidence, rationale, Verdict.extraMembers received.members⟩ :=
      Verdict.check_eq_ok_iff.2 ⟨hanswers, rfl⟩
    rw [Schema.validate_eq_ok_iff.2 hcheck]

omit [Time.Seconds σ] in
/-- An object that answers nothing is a malformed response. -/
theorem judgmentOf_malformed (h : ∀ b confidence rationale, ¬Verdict.Answers received.members b confidence rationale) :
    ∃ e, judgmentOf received = .error (.judging (.malformed received.attempt received.content e)) := by
  have hnone : ∀ j, judgmentOf received ≠ .ok j := fun j hj => h _ _ _ (judgmentOf_eq_ok_iff.1 hj).1
  rw [judgmentOf] at hnone ⊢
  split at hnone
  next v _ => exact absurd rfl (hnone _)
  next e _ => exact ⟨e, rfl⟩

/-! ### Objects that are received -/

/-- The attempts at a finding come to an object. -/
def Receives (c : Client σ) (f : Finding) (code : String) (token : Option TokenId) (s : Scene σ) (received : Received) : Prop :=
  ((attempts c f code token).run s).1 = .ok received

/-- The response to a finding is malformed, and is kept with the number of the attempt. -/
def Malformed (c : Client σ) (f : Finding) (code : String) (token : Option TokenId) (s : Scene σ) (received : Received) : Prop :=
  ∃ e, (judge c f code token s).1 = .error (.judging (.malformed received.attempt received.content e))

theorem Receives.judge (h : Receives c f code token s received) : (judge c f code token s).1 = judgmentOf received := by
  rw [judge_run, show ((attempts c f code token).run s).1 = .ok received from h]
  rfl

theorem Receives.judge_eq_ok_iff (h : Receives c f code token s received) : (Judge.judge c f code token s).1 = .ok j ↔
    Verdict.Answers received.members j.isReal j.confidence j.rationale ∧ j.rawResponse = received.content := by
  rw [h.judge, judgmentOf_eq_ok_iff]

theorem Receives.malformed_iff (h : Receives c f code token s received) : Malformed c f code token s received ↔
    ∀ b confidence rationale, ¬Verdict.Answers received.members b confidence rationale := by
  rw [Malformed, h.judge]
  constructor
  · rintro ⟨e, he⟩ b confidence rationale hanswers
    have hok : judgmentOf received = .ok ⟨b, confidence, rationale, received.content⟩ :=
      judgmentOf_eq_ok_iff.2 ⟨hanswers, rfl⟩
    rw [he] at hok
    cases hok
  · exact judgmentOf_malformed

/-- The service's answers to a finding's check lead to the one after the first `m`: none of those brings an object, the client
can wait after each of them, and it may still ask. -/
structure Leads (c : Client σ) (f : Finding) (code : String) (token : Option TokenId) (s : Scene σ) (m : Nat) : Prop where
  uncancelled : NeverCancelled c f code token s
  allowed : m < c.config.maxAttempts
  faulty : ∀ i < m, (s.service.answer (.about c.config f code) i).Faulty c.levels
  reckons : ∀ i < m, c.Reckons (i + 1)

/-- An object that an answer brings is received. -/
theorem Leads.receives {m : Nat} (h : Leads c f code token s m) {content : Text.Wide} {members : Json.Members}
    (hbrings : (s.service.answer (.about c.config f code) m).Brings c.levels content members) :
    Receives c f code token s ⟨m + 1, content, members⟩ := by
  obtain ⟨t, ht, hservice, -⟩ := reaches_after_faults h.uncancelled m h.allowed h.faulty h.reckons
  obtain ⟨u, hstep, -⟩ := step_of_object h.uncancelled ht (by rw [hservice]; exact hbrings.yield)
  exact congrArg Prod.fst ((ht.step hstep).run_of_ended (Nat.one_le_of_lt h.allowed))

/-! ### Verdicts -/

/-- Judging a finding comes to a judgment with the given truth value, confidence and rationale. -/
def Judges (c : Client σ) (f : Finding) (code : String) (token : Option TokenId) (s : Scene σ) (b : Bool)
    (confidence : Option Float) (rationale : Text.Wide) : Prop :=
  ∃ raw, (judge c f code token s).1 = .ok ⟨b, confidence, rationale, raw⟩

theorem Receives.judges_iff (h : Receives c f code token s received) : Judges c f code token s b confidence rationale ↔
    Verdict.Answers received.members b confidence rationale := by
  constructor
  · rintro ⟨raw, hjudge⟩
    exact (h.judge_eq_ok_iff.1 hjudge).1
  · exact fun hanswers => ⟨received.content, h.judge_eq_ok_iff.2 ⟨hanswers, rfl⟩⟩

/-- The verdict is read off the object that is received, and off nothing else.
* If no name of the object is torn and the confidence is absent or valid, the judgment is the truth value that the value under
  the first of the verdict's names stands for, with that confidence and the rationale; if it stands for none, or there is no
  such value, the response is malformed.
* An object with a torn name is a malformed response.
* Objects without torn names whose members agree under the six names are both malformed, or they have the same verdict,
  confidence and rationale, whatever their other members are.
* Every object that an answer brings, where answers have led the client to it, is received. -/
theorem verdicts_read :
    (∀ (c : Client σ) (f : Finding) (code : String) (token : Option TokenId) (s : Scene σ) (received : Received),
      Receives c f code token s received → Verdict.Untorn received.members →
      ∀ confidence, Verdict.Confides received.members confidence →
        (∀ b, (judge c f code token s).1 =
            .ok ⟨b, confidence, Verdict.rationaleOf received.members, received.content⟩ ↔
          ∃ d, Verdict.answer? received.members = some d ∧ Stands d b) ∧
        (Malformed c f code token s received ↔ ∀ d b, Verdict.answer? received.members = some d → ¬Stands d b)) ∧
    (∀ (c : Client σ) (f : Finding) (code : String) (token : Option TokenId) (s : Scene σ) (received : Received),
      Receives c f code token s received → ¬Verdict.Untorn received.members → Malformed c f code token s received) ∧
    (∀ (c c' : Client σ) (f f' : Finding) (code code' : String) (token token' : Option TokenId) (s s' : Scene σ)
      (received received' : Received), Receives c f code token s received → Receives c' f' code' token' s' received' →
      Verdict.Untorn received.members → Verdict.Untorn received'.members →
      Verdict.Agree received.members received'.members →
        (Malformed c f code token s received ↔ Malformed c' f' code' token' s' received') ∧
        ∀ b confidence rationale,
          Judges c f code token s b confidence rationale ↔ Judges c' f' code' token' s' b confidence rationale) ∧
    ∀ (c : Client σ) (f : Finding) (code : String) (token : Option TokenId) (s : Scene σ) (m : Nat) (content : Text.Wide)
      (members : Json.Members), Leads c f code token s m →
      (s.service.answer (.about c.config f code) m).Brings c.levels content members →
      Receives c f code token s ⟨m + 1, content, members⟩ := by
  refine ⟨fun c f code token s received h huntorn confidence hconfidence => ⟨fun b => ?_, ?_⟩,
    fun c f code token s received h htorn => ?_,
    fun c c' f f' code code' token token' s s' received received' h h' huntorn huntorn' hagree => ?_,
    fun _ _ _ _ _ _ _ _ hleads hbrings => hleads.receives hbrings⟩
  · rw [h.judge_eq_ok_iff]
    exact ⟨fun hanswers => hanswers.1.real, fun hreal => ⟨⟨huntorn, hreal, hconfidence, rfl⟩, rfl⟩⟩
  · rw [h.malformed_iff]
    exact ⟨fun hnone d b hd hstands => hnone b confidence _ ⟨huntorn, ⟨d, hd, hstands⟩, hconfidence, rfl⟩,
      fun hnone b _ _ hanswers => hanswers.real.elim fun d hd => hnone d b hd.1 hd.2⟩
  · exact h.malformed_iff.2 fun b confidence rationale hanswers => htorn hanswers.untorn
  · have hsame : ∀ b confidence rationale, Verdict.Answers received.members b confidence rationale ↔
        Verdict.Answers received'.members b confidence rationale := fun b confidence rationale =>
      ⟨hagree.answers huntorn', hagree.symm.answers huntorn⟩
    refine ⟨?_, fun b confidence rationale => ?_⟩
    · simp only [h.malformed_iff, h'.malformed_iff, hsame]
    · rw [h.judges_iff, h'.judges_iff, hsame]

/-- A service that answers every request with a text. -/
def answering (text : String) : Service Float := .ofScripts 0.0 [] [⟨0.0, false, none, .choices [some (.text text)]⟩]

theorem leads_first (service : Service Float) :
    Leads (.ofAttempts 1 1.0) (.ofCheck "a") "" none (Scene.ofService service .nothing) 0 :=
  ⟨neverCancelled_none _ _ _ _, Nat.lt_succ_self 0, fun i hi => absurd hi (Nat.not_lt_zero i),
    fun i hi => absurd hi (Nat.not_lt_zero i)⟩

theorem receives_answering {text : String} {members : Json.Members}
    (h : Json.read Json.usualLevels text = .ok (.obj members)) :
    Receives (.ofAttempts 1 1.0) (.ofCheck "a") "" none (Scene.ofService (answering text) .nothing) ⟨1, .text text, members⟩ := by
  have hbrings : ((answering text).answer (.about (Client.ofAttempts 1 1.0).config (.ofCheck "a") "") 0).Brings
      Json.usualLevels (.text text) members := ⟨rfl, rfl, h⟩
  exact (leads_first (answering text)).receives hbrings

/-- The text of an object with a torn name. -/
def tornText : String := "\x7b\"is_real_vulnerability\": true, \"\\ud800\": 1\x7d"

def tornMembers : Json.Members := [(.text "is_real_vulnerability", .bool true), (.torn .half, .int 1)]

theorem read_tornText : Json.read Json.usualLevels tornText = .ok (.obj tornMembers) := by cbv

/-- An object is a malformed response, although its verdict is true and it gives no confidence; without the member that has a
torn name it answers that the finding is real. -/
theorem judge_tornText :
    Receives (.ofAttempts 1 1.0) (.ofCheck "a") "" none (Scene.ofService (answering tornText) .nothing)
      ⟨1, .text tornText, tornMembers⟩ ∧
    Verdict.answer? tornMembers = some (.bool true) ∧ Stands (.bool true) true ∧ Verdict.Confides tornMembers none ∧
    Verdict.Agree tornMembers tornMembers.dropLast ∧ Verdict.Answers tornMembers.dropLast true none (.text "") ∧
    Malformed (.ofAttempts 1 1.0) (.ofCheck "a") "" none (Scene.ofService (answering tornText) .nothing)
      ⟨1, .text tornText, tornMembers⟩ := by
  have hreceives := receives_answering read_tornText
  refine ⟨hreceives, rfl, .bool true, .absent rfl, ?_, ?_, hreceives.malformed_iff.2 fun b confidence rationale hanswers => ?_⟩
  · simp [Verdict.Agree, tornMembers, Json.Members.get?]
  · exact (Verdict.check_eq_ok_iff (v := ⟨true, none, .text "", []⟩)).1 rfl |>.1
  · exact hanswers.untorn .half (by decide)

/-- The text of an object with a member more than the one that it is about. -/
def notedText : String := "\x7b\"note\": 1, \"is_real_vulnerability\": true\x7d"

theorem read_notedText :
    Json.read Json.usualLevels notedText = .ok (.obj [(.text "note", .int 1),
      (.text "is_real_vulnerability", .bool true)]) := by cbv

/-- The third answer takes the finding for real, with a remark or without one; an object with a torn name is malformed. -/
theorem verdicts_read_lateService :
    (Leads (.ofAttempts 3 1.0) (.ofCheck "a") "" none (Scene.ofService lateService .nothing) 2 ∧
      (lateService.answer (.about (Client.ofAttempts 3 1.0).config (.ofCheck "a") "") 2).Brings
        Json.usualLevels (.text "\x7b\"is_real_vulnerability\": true\x7d")
        [(.text "is_real_vulnerability", .bool true)] ∧
      (judge (.ofAttempts 3 1.0) (.ofCheck "a") "" none (Scene.ofService lateService .nothing)).1 =
        .ok ⟨true, none, .text "", .text "\x7b\"is_real_vulnerability\": true\x7d"⟩) ∧
    Malformed (.ofAttempts 1 1.0) (.ofCheck "a") "" none (Scene.ofService (answering tornText) .nothing)
      ⟨1, .text tornText, tornMembers⟩ ∧
    Judges (.ofAttempts 1 1.0) (.ofCheck "a") "" none (Scene.ofService (answering notedText) .nothing) true none (.text "") := by
  obtain ⟨hread, htorn, hagree, hbrought⟩ := verdicts_read (σ := Float)
  have hleads : Leads (.ofAttempts 3 1.0) (.ofCheck "a") "" none (Scene.ofService lateService .nothing) 2 :=
    ⟨neverCancelled_none _ _ _ _, by decide, (faulty_lateService _), reckons_ofAttempts_three⟩
  have hbrings : (lateService.answer (.about (Client.ofAttempts 3 1.0).config (.ofCheck "a") "") 2).Brings
        Json.usualLevels (.text "\x7b\"is_real_vulnerability\": true\x7d")
      [(.text "is_real_vulnerability", .bool true)] := ⟨rfl, rfl, read_real⟩
  have hreceives := hbrought _ _ _ _ _ _ _ _ hleads hbrings
  have huntorn : Verdict.Untorn [(.text "is_real_vulnerability", .bool true)] := fun t => by simp [Json.Members.names]
  have hjudge := ((hread _ _ _ _ _ _ hreceives huntorn none (.absent rfl)).1 true).2 ⟨_, rfl, .bool true⟩
  have hnoted := receives_answering read_notedText
  refine ⟨⟨hleads, hbrings, hjudge⟩, htorn _ _ _ _ _ _ (receives_answering read_tornText) fun h => h .half (by decide), ?_⟩
  exact ((hagree _ _ _ _ _ _ _ _ _ _ _ _ hreceives hnoted huntorn (fun t => by simp [Json.Members.names])
    (by simp [Verdict.Agree, Json.Members.get?])).2 true none (.text "")).1 ⟨_, hjudge⟩

end Judge
end Adjudication
