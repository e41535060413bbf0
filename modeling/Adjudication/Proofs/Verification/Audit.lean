import Adjudication.Proofs.Judge.Protocol
import Adjudication.Proofs.Judge.Shares
import Adjudication.Proofs.Verification.Judged
import Adjudication.Proofs.Verification.Fitting

/-!
What a report says of the judge's answers can be checked against them. A judgment keeps the last content that came back on the
requests about its finding, and its verdict is that of the object whose text this content is. A failure of exhausted attempts
keeps what came back on the last request: the content if there was one, and nothing if there was none, whatever came back on
the requests before.
-/

namespace Adjudication

open Files.Tree (Anyhow)
open Time (TokenId)

variable {σ : Type} [Time.Seconds σ]

namespace Judge

variable {c : Client σ} {f : Finding} {code : String} {token : Option TokenId} {s t : Scene σ} {rs : List (Option Json)}

/-! ### Judgments -/

/-- A judgment that stands up to an audit: its response is the content of the last reply, code point by code point, and that
is the JSON text of an object; the object, validated again, yields just what the judgment says, with a finite confidence if
with any. -/
structure Audit (levels : Nat) (rs : List (Option Json)) (j : Judgment) (members : Json.Members) : Prop where
  response : lastReply rs = some (.ofWide j.rawResponse)
  payload : j.rawPayload levels = .ok (.obj members)
  verdict : ∃ extra, Schema.validate "JudgeVerdict" Verdict.check (.obj members) =
    .ok ⟨j.isReal, j.confidence, j.rationale, extra⟩
  finite : ∀ x ∈ j.confidence, Decimal.isFinite x = true

omit [Time.Seconds σ] in
theorem Backed.audit {levels : Nat} {j : Judgment} (h : Backed levels rs (.ok j)) : ∃ members, Audit levels rs j members := by
  cases h with
  | @judged content members v hlast hread hcheck =>
    refine ⟨members, hlast, hread, ⟨v.extra, hcheck⟩, fun x hx => ?_⟩
    obtain ⟨hzero, hone⟩ := Schema.bounds_of_probability (probability_of_verdict (Schema.validate_eq_ok_iff.1 hcheck) x hx)
    exact Decimal.isFinite_of_bounds hzero hone

/-! ### Records -/

theorem finding_of_outcomeOf {x : Except Failure Judgment} {o : Outcome} (h : outcomeOf f x = .ok o) : o.finding = f := by
  match x, h with
  | .ok _, h => exact congrArg Outcome.finding (Except.ok.inj h).symm
  | .error (.judging e), h =>
    obtain ⟨record, -, rfl⟩ := Json.map_eq_ok h
    rfl

theorem judged_of_outcomeOf {x : Except Failure Judgment} {o : Outcome} {j : Judgment} (h : outcomeOf f x = .ok o)
    (hj : j ∈ o.judgment?) : x = .ok j := by
  match x, h with
  | .ok _, h =>
    obtain rfl := Except.ok.inj h
    exact congrArg Except.ok (Option.some.inj hj)
  | .error (.judging e), h =>
    obtain ⟨record, -, rfl⟩ := Json.map_eq_ok h
    cases hj

theorem failed_of_outcomeOf {x : Except Failure Judgment} {o : Outcome} {record : FailureRecord} (h : outcomeOf f x = .ok o)
    (hrecord : record ∈ o.failure?) : ∃ e, x = .error (.judging e) ∧ recordOf e = .ok record := by
  match x, h with
  | .ok _, h =>
    obtain rfl := Except.ok.inj h
    cases hrecord
  | .error (.judging e), h =>
    obtain ⟨other, hother, rfl⟩ := Json.map_eq_ok h
    exact ⟨e, rfl, hother.trans (congrArg Except.ok (Option.some.inj hrecord))⟩

theorem kind_of_recordOf {e : JudgeError} {record : FailureRecord} (h : recordOf e = .ok record) : record.kind = e.kind := by
  rw [recordOf] at h
  split at h
  · obtain rfl := Except.ok.inj h
    rfl
  · cases h

/-- The response of a record is the text that the failure keeps, if it keeps one. -/
theorem rawResponse_of_recordOf {e : JudgeError} {record : FailureRecord} (h : recordOf e = .ok record) :
    .ofOption .ofWide record.rawResponse = e.rawResponse := by
  rw [recordOf] at h
  split at h
  next raw hraw =>
    obtain rfl := Except.ok.inj h
    have hraw := Schema.Checked.under_eq_ok (Schema.validate_eq_ok_iff.1 hraw)
    cases hd : e.rawResponse with
    | null =>
      rw [hd] at hraw
      obtain rfl := Schema.Checked.ok.inj hraw
      rfl
    | str text | torn text =>
      rw [hd] at hraw
      obtain rfl := Schema.Checked.ok.inj hraw
      rfl
    | _ =>
      rw [hd] at hraw
      cases hraw
  · cases h

end Judge

namespace Verifier

variable {v : Verifier σ} {source : Source} {given : Option TokenId} {runId : Option String} {s t : Scene σ} {r : Report}

/-- Everything that is done in a run with a report is done before the judging, after it, or for one of the findings, and every
request is about the finding that it is sent for. -/
structure Apportioned (v : Verifier σ) (source : Source) (fs : List Finding) (before : List (Event σ))
    (dealt : List (Nat × Event σ)) (after : List (Event σ)) (s t : Scene σ) : Prop where
  trace : t.trace = s.trace ++ (before ++ dealt.map Prod.snd ++ after)
  silent : ∀ e ∈ before ++ after, e.isRequest = false
  asks : Judge.Dealt v.judge source.text fs dealt

/-- Each outcome of a report is told by the replies to the requests about its finding. -/
theorem backed_of_verify (h : v.verify source given runId s = (.ok r, t)) : ∃ fs before dealt after,
    Apportioned v source fs before dealt after s t ∧ ∀ (i : Nat) (o : Outcome), r.outcomes[i]? = some o →
      ∃ f x, fs[i]? = some f ∧ Judge.Backed v.judge.levels (Judge.replies (Judge.share i dealt)) x ∧
      Judge.outcomeOf f x = .ok o := by
  obtain ⟨startedAt, finishedAt, ending, warnings, u, hreports, rfl⟩ := reports_of_verify h
  obtain ⟨files, es, lines, rfl⟩ := hreports.released
  have hreleased : Scene.Onward True Anyhow (fun e => e.isRequest = false) u ((Staging.cleaned u files es).noting lines) :=
    onward_released (fun _ _ => rfl) u files es lines
  obtain ⟨after, hafter, hsilent'⟩ := hreleased.trace
  cases herror : ending.error with
  | some e =>
    obtain ⟨hnone, honward⟩ := hreports.ends.silent herror
    obtain ⟨before, hbefore, hsilent⟩ := honward.trace
    refine ⟨[], before, [], after, ⟨?_, fun e he => ?_, fun _ hd => absurd hd List.not_mem_nil⟩, fun i o ho => ?_⟩
    · rw [hafter, hbefore, List.map_nil, List.append_nil, List.append_assoc]
    · exact (List.mem_append.1 he).elim (hsilent e) (hsilent' e)
    · rw [show (v.report source startedAt finishedAt ending warnings).outcomes = [] from hnone] at ho
      cases ho
  | none =>
    obtain ⟨p, hjudged⟩ := hreports.ends.prelude herror
    obtain ⟨before, hbefore, hsilent⟩ := p.onward_scene.trace
    obtain ⟨dealt, htrace, hasks, hbacked⟩ := Judge.dealt_of_judgeAll hjudged
    refine ⟨p.findings, before, dealt, after, ⟨?_, fun e he => ?_, hasks⟩, hbacked⟩
    · rw [hafter, htrace, hbefore]
      simp only [List.append_assoc]
    · exact (List.mem_append.1 he).elim (hsilent e) (hsilent' e)

/-! ### Judgments -/

/-- Every judgment can be audited.
* Judging a finding, whatever the service does and however many attempts it takes: the requests that are sent are all about that
  finding, and the judgment stands up to an audit by the replies to them, that is, by the last one.
* Verifying a source, with any number of workers: what is done is dealt out to the findings, every request to the one that it
  is about, and each judgment of the report stands up to an audit by the replies to the requests about its finding. -/
theorem judgments_audited :
    (∀ (c : Judge.Client σ) (f : Finding) (code : String) (token : Option TokenId) (s t : Scene σ) (j : Judgment),
      Judge.judge c f code token s = (.ok j, t) → ∃ events, t.trace = s.trace ++ events ∧
        (∀ e ∈ events, e.Asks (.about c.config f code)) ∧
        ∃ members, Judge.Audit c.levels (Judge.replies events) j members) ∧
    ∀ (v : Verifier σ) (source : Source) (given : Option TokenId) (runId : Option String) (s t : Scene σ) (r : Report),
      v.verify source given runId s = (.ok r, t) → ∃ fs before dealt after, Apportioned v source fs before dealt after s t ∧
        ∀ (i : Nat) (o : Outcome), r.outcomes[i]? = some o → fs[i]? = some o.finding ∧
          ∀ j ∈ o.judgment?, ∃ members, Judge.Audit v.judge.levels (Judge.replies (Judge.share i dealt)) j members := by
  refine ⟨fun c f code token s t j h => ?_, fun v source given runId s t r h => ?_⟩
  · obtain ⟨rs, ⟨events, htrace, hasks, rfl⟩, hbacked⟩ := Judge.backed_judge c f code token s
    rw [h] at htrace hbacked
    exact ⟨events, htrace, hasks, hbacked.audit⟩
  · obtain ⟨fs, before, dealt, after, happortioned, hbacked⟩ := backed_of_verify h
    refine ⟨fs, before, dealt, after, happortioned, fun i o ho => ?_⟩
    obtain ⟨f, x, hf, hx, houtcome⟩ := hbacked i o ho
    refine ⟨hf.trans (congrArg some (Judge.finding_of_outcomeOf houtcome).symm), fun j hj => ?_⟩
    obtain rfl := Judge.judged_of_outcomeOf houtcome hj
    exact hx.audit

/-- Two workers, on a source with two findings. -/
def recorders : Verifier Float := { recorder with workers := 2 }

theorem reports_recorders :
    ((recorders.verify ⟨[], "a.sol"⟩ (some 0) (some "1") recorderScene).1.toOption.any fun r =>
      (r.outcomes[0]?.bind Outcome.failure?).any (fun record => decide (record.kind = .exhaustedRetries)) &&
        (r.outcomes[1]?.bind Outcome.judgment?).isSome) = true := by
  decide +kernel

/-- One of the findings is judged, for the other one the attempts are exhausted. -/
theorem verify_recorders : ∃ r t, recorders.verify ⟨[], "a.sol"⟩ (some 0) (some "1") recorderScene = (.ok r, t) ∧
    (∃ o, r.outcomes[0]? = some o ∧ ∃ record ∈ o.failure?, record.kind = .exhaustedRetries) ∧
    ∃ o, r.outcomes[1]? = some o ∧ ∃ j, j ∈ o.judgment? := by
  obtain ⟨r, t, hverify, hreports⟩ := Act.eq_ok_of_any reports_recorders
  obtain ⟨hfailed, hjudged⟩ := (Bool.and_eq_true _ _).mp hreports
  obtain ⟨record, hrecord, hkind⟩ := (Option.any_eq_true _ _).1 hfailed
  obtain ⟨j, hj⟩ := Option.isSome_iff_exists.1 hjudged
  obtain ⟨first, hfirst, hrecord⟩ := Option.bind_eq_some_iff.1 hrecord
  obtain ⟨second, hsecond, hj⟩ := Option.bind_eq_some_iff.1 hj
  exact ⟨r, t, hverify, ⟨first, hfirst, record, hrecord, of_decide_eq_true hkind⟩, second, hsecond, j, hj⟩

/-- The third answer is the first with an object, and the judgment is audited by it; so is the judgment of the report that two
workers make. -/
theorem judgments_audited_recorders :
    (∃ j t, Judge.judge (.ofAttempts 3 1.0) (.ofCheck "a") "" none (Scene.ofService Judge.lateService .nothing) = (.ok j, t) ∧
      ∃ members, Judge.Audit Json.usualLevels (Judge.replies t.trace) j members) ∧
    ∃ r t, recorders.verify ⟨[], "a.sol"⟩ (some 0) (some "1") recorderScene = (.ok r, t) ∧
      ∃ fs before dealt after, Apportioned recorders ⟨[], "a.sol"⟩ fs before dealt after recorderScene t ∧
        ∃ o, r.outcomes[1]? = some o ∧ ∃ j ∈ o.judgment?, ∃ members,
          Judge.Audit Json.usualLevels (Judge.replies (Judge.share 1 dealt)) j members := by
  have hbrings : (Judge.lateService.answer (.about (Judge.Client.ofAttempts 3 1.0).config (.ofCheck "a") "") 2).Brings
    Json.usualLevels
      (.text "\x7b\"is_real_vulnerability\": true\x7d") [("is_real_vulnerability", .bool true)] := ⟨rfl, rfl, Judge.read_real⟩
  obtain ⟨u, hrun⟩ : ∃ u, Judge.judge (.ofAttempts 3 1.0) (.ofCheck "a") "" none
      (Scene.ofService Judge.lateService .nothing) =
        (.ok ⟨true, none, .text "", .text "\x7b\"is_real_vulnerability\": true\x7d"⟩, u) := by
    obtain ⟨u, hjudge, -⟩ := Judge.judge_of_object (Judge.neverCancelled_none (.ofAttempts 3 1.0) (.ofCheck "a") ""
      (Scene.ofService Judge.lateService .nothing)) (by decide) (Judge.faulty_lateService _) Judge.reckons_ofAttempts_three
      hbrings.yield
    exact ⟨u, hjudge⟩
  obtain ⟨events, htrace, -, haudit⟩ := (judgments_audited (σ := Float)).1 _ _ _ _ _ _ _ hrun
  obtain ⟨r, t, hverify, -, o, ho, j, hj⟩ := verify_recorders
  obtain ⟨fs, before, dealt, after, happortioned, hall⟩ := (judgments_audited (σ := Float)).2 _ _ _ _ _ _ _ hverify
  refine ⟨⟨_, u, hrun, ?_⟩, r, t, hverify, fs, before, dealt, after, happortioned, o, ho, j, hj, (hall 1 o ho).2 j hj⟩
  rw [htrace]
  exact haudit

end Verifier

/-! ### Exhausted attempts -/

namespace Judge

variable {c : Client σ} {f : Finding} {code : String} {token : Option TokenId} {s t : Scene σ} {rs : List (Option Json)}

/-- The latest content that came back, on whatever request. -/
def latestReply (rs : List (Option Json)) : Option Json := rs.reduceOption.getLast?

/-- What is kept of exhausted attempts: what came back on the last request. That is the latest content that came back at all
only if the last request has brought one, or none has. -/
structure Exhausted (rs : List (Option Json)) (n : Nat) (raw : Json) : Prop where
  counted : n = rs.length
  kept : raw = kept (lastReply rs)
  latest : (∀ content ∈ rs.reduceOption, ∃ text, content = .ofWide text) →
    (raw = Judge.kept (latestReply rs) ↔ (lastReply rs).isSome ∨ latestReply rs = none)

omit [Time.Seconds σ] in
theorem latestReply_of_lastReply {content : Json} (h : lastReply rs = some content) : latestReply rs = some content := by
  rcases List.eq_nil_or_concat rs with rfl | ⟨init, reply, rfl⟩
  · cases h
  · rw [List.concat_eq_append, lastReply_concat] at h
    rw [h, latestReply, List.concat_eq_append, List.reduceOption_append]
    simp

omit [Time.Seconds σ] in
theorem exhausted_kept_lastReply (rs : List (Option Json)) : Exhausted rs rs.length (kept (lastReply rs)) := by
  refine ⟨rfl, rfl, fun htexts => ?_⟩
  cases hlast : lastReply rs with
  | some content =>
    rw [latestReply_of_lastReply hlast]
    exact iff_of_true rfl (.inl rfl)
  | none =>
    refine ⟨fun h => .inr ?_, fun h => ?_⟩
    · cases hlatest : latestReply rs with
      | none => rfl
      | some content =>
        obtain ⟨text, rfl⟩ := htexts content (List.mem_of_getLast? hlatest)
        rw [hlatest] at h
        cases text <;> cases h
    · rw [h.resolve_left (by simp)]

omit [Time.Seconds σ] in
theorem Backed.exhausted_of_kind {levels : Nat} {e : JudgeError} (h : Backed levels rs (.error (.judging e)))
    (hkind : e.kind = .exhaustedRetries) :
    Exhausted rs e.attempts e.rawResponse := by
  cases h with
  | malformed _ _ _ => cases hkind
  | exhausted hkept =>
    have hexhausted := exhausted_kept_lastReply rs
    rwa [← hkept] at hexhausted
  | failed h => exact absurd rfl (h e)

omit [Time.Seconds σ] in
/-- A record of exhausted attempts keeps what the failure keeps. -/
theorem Backed.exhausted_of_record {levels : Nat} {e : JudgeError} {record : FailureRecord}
    (h : Backed levels rs (.error (.judging e)))
    (hrecord : recordOf e = .ok record) (hkind : record.kind = .exhaustedRetries) :
    ∃ n : Nat, record.attempts = n ∧ Exhausted rs n (.ofOption .ofWide record.rawResponse) := by
  have hexhausted := h.exhausted_of_kind ((kind_of_recordOf hrecord).symm.trans hkind)
  exact ⟨e.attempts, attempts_of_recordOf hrecord, rawResponse_of_recordOf hrecord ▸ hexhausted⟩

/-- Faults in all attempts exhaust them, and what came back on the last request is kept. -/
theorem judge_of_faults (hn : 1 ≤ c.config.maxAttempts) (hnc : NeverCancelled c f code token s)
    (hfaulty : ∀ i < c.config.maxAttempts, (s.service.answer (.about c.config f code) i).Faulty c.levels)
    (hreckons : ∀ i, i + 1 < c.config.maxAttempts → c.Reckons (i + 1)) :
    ∃ last, (judge c f code token s).1 = .error (.judging (.exhausted c.config.maxAttempts last)) ∧
      last.content = kept (s.service.answer (.about c.config f code) (c.config.maxAttempts - 1)).content.toOption := by
  obtain ⟨m, hm⟩ := Nat.exists_eq_add_of_le' hn
  have hlt : m < c.config.maxAttempts := by omega
  obtain ⟨last, hlast⟩ := hfaulty m hlt
  obtain ⟨t, hjudge, -⟩ := judge_of_stop hnc hlt (fun i hi => hfaulty i (by omega)) (fun i hi => hreckons i (by omega)) hlast
    (hm ▸ Client.next_of_last last)
  have hcomes : Comes c.levels 0 (s.service.answer (.about c.config f code) m).content.toOption
      (((s.service.answer (.about c.config f code) m).yield c.levels).map fun r => ⟨0, r.1, r.2⟩) := Turn.comes_yield _ 0
  rw [hlast] at hcomes
  rw [hjudge, hm, Nat.add_sub_cancel]
  refine ⟨last, rfl, ?_⟩
  generalize (s.service.answer (.about c.config f code) m).content.toOption = reply at hcomes ⊢
  cases hcomes with
  | fault hkept => exact hkept
  | other _ hfault => cases hfault

end Judge

namespace Verifier

/-- Exhausted attempts keep what came back on the last request: its content, or nothing if none came back, even where an
earlier request has brought a text.
* So does the failure that judging a finding ends in, whatever the service does; it counts the requests, which are all about
  that finding.
* Faults in all attempts that are allowed end in that failure.
* So does the record of such a failure in a report, by the requests about its finding, with any number of workers. -/
theorem exhausted_kept :
    (∀ (c : Judge.Client σ) (f : Finding) (code : String) (token : Option TokenId) (s t : Scene σ) (e : JudgeError),
      Judge.judge c f code token s = (.error (.judging e), t) → e.kind = .exhaustedRetries →
      ∃ events, t.trace = s.trace ++ events ∧ (∀ e ∈ events, e.Asks (.about c.config f code)) ∧
        Judge.Exhausted (Judge.replies events) e.attempts e.rawResponse) ∧
    (∀ (c : Judge.Client σ) (f : Finding) (code : String) (token : Option TokenId) (s : Scene σ),
      1 ≤ c.config.maxAttempts → Judge.NeverCancelled c f code token s →
      (∀ i < c.config.maxAttempts, (s.service.answer (.about c.config f code) i).Faulty c.levels) →
      (∀ i, i + 1 < c.config.maxAttempts → c.Reckons (i + 1)) →
      ∃ last, (Judge.judge c f code token s).1 = .error (.judging (.exhausted c.config.maxAttempts last)) ∧
        last.content = Judge.kept (s.service.answer (.about c.config f code) (c.config.maxAttempts - 1)).content.toOption) ∧
    ∀ (v : Verifier σ) (source : Source) (given : Option TokenId) (runId : Option String) (s t : Scene σ) (r : Report),
      v.verify source given runId s = (.ok r, t) → ∃ fs before dealt after, Apportioned v source fs before dealt after s t ∧
        ∀ (i : Nat) (o : Outcome), r.outcomes[i]? = some o → fs[i]? = some o.finding ∧
          ∀ record ∈ o.failure?, record.kind = .exhaustedRetries → ∃ n : Nat, record.attempts = n ∧
            Judge.Exhausted (Judge.replies (Judge.share i dealt)) n (.ofOption .ofWide record.rawResponse) := by
  refine ⟨fun c f code token s t e h hkind => ?_, fun _ _ _ _ _ => Judge.judge_of_faults,
    fun v source given runId s t r h => ?_⟩
  · obtain ⟨rs, ⟨events, htrace, hasks, rfl⟩, hbacked⟩ := Judge.backed_judge c f code token s
    rw [h] at htrace hbacked
    exact ⟨events, htrace, hasks, hbacked.exhausted_of_kind hkind⟩
  · obtain ⟨fs, before, dealt, after, happortioned, hbacked⟩ := backed_of_verify h
    refine ⟨fs, before, dealt, after, happortioned, fun i o ho => ?_⟩
    obtain ⟨f, x, hf, hx, houtcome⟩ := hbacked i o ho
    refine ⟨hf.trans (congrArg some (Judge.finding_of_outcomeOf houtcome).symm), fun record hrecord hkind => ?_⟩
    obtain ⟨e, rfl, he⟩ := Judge.failed_of_outcomeOf houtcome hrecord
    exact hx.exhausted_of_record he hkind

/-- A service that answers with an array and is busy from then on. -/
def fadingService : Judge.Service Float :=
  .ofScripts 0.0 [] [⟨0.0, false, none, .choices [some "[]"]⟩, ⟨0.0, false, none, .refused "busy"⟩]

theorem faulty_fadingService {request : Judge.Request} :
    ∀ i < 2, (fadingService.answer request i).Faulty Json.usualLevels
  | 0, _ => ⟨.notObject "[]", by
      have hyield : (fadingService.answer request 0).yield Json.usualLevels = Judge.objectOf Json.usualLevels (.text "[]") := rfl
      rw [hyield, Judge.objectOf, Judge.read_array]⟩
  | 1, _ => ⟨.transport (.request "busy"), rfl⟩

theorem reckons_ofAttempts_two : ∀ i, i + 1 < 2 → (Judge.Client.ofAttempts 2 (1.0 : Float)).Reckons (i + 1)
  | 0, _ => by
    show (Decimal.ofInt? 1).isSome = true
    decide +kernel

/-- Two attempts are exhausted by that service, and nothing is kept, although a text came back on the first request. -/
theorem judge_fadingService :
    (Judge.judge (.ofAttempts 2 1.0) (.ofCheck "a") "" none (Scene.ofService fadingService .nothing)).1 =
      .error (.judging (.exhausted 2 (.transport (.request "busy")))) ∧
    (JudgeError.exhausted 2 (.transport (.request "busy"))).rawResponse = .null ∧
    ∀ request, Judge.latestReply ([0, 1].map fun i => (fadingService.answer request i).content.toOption) =
      some (.str "[]") := by
  have hnc := Judge.neverCancelled_none (.ofAttempts 2 1.0) (.ofCheck "a") "" (Scene.ofService fadingService .nothing)
  obtain ⟨u, hjudge, -⟩ := Judge.judge_of_stop (m := 1) hnc (Nat.lt_succ_self 1)
    (fun i hi => faulty_fadingService i (Nat.lt_succ_of_lt hi))
    (fun i hi => reckons_ofAttempts_two i (Nat.succ_lt_succ hi)) (e := .attempt (.transport (.request "busy"))) rfl
    (Judge.Client.next_of_last _)
  rw [hjudge]
  exact ⟨rfl, rfl, fun _ => rfl⟩

/-- The failure of these attempts, and the record that a report of two workers has, keep what came back last. -/
theorem exhausted_kept_recorders :
    (∃ e t, Judge.judge (.ofAttempts 2 1.0) (.ofCheck "a") "" none (Scene.ofService fadingService .nothing) =
        (.error (.judging e), t) ∧ e.kind = .exhaustedRetries ∧
        Judge.Exhausted (Judge.replies t.trace) e.attempts e.rawResponse) ∧
    (1 ≤ (Judge.Client.ofAttempts 2 (1.0 : Float)).config.maxAttempts ∧
      Judge.NeverCancelled (.ofAttempts 2 1.0) (.ofCheck "a") "" none (Scene.ofService fadingService .nothing) ∧
      (∀ request, ∀ i < 2, (fadingService.answer request i).Faulty Json.usualLevels) ∧
      (∀ i, i + 1 < 2 → (Judge.Client.ofAttempts 2 (1.0 : Float)).Reckons (i + 1)) ∧
      ∃ last, (Judge.judge (.ofAttempts 2 1.0) (.ofCheck "a") "" none (Scene.ofService fadingService .nothing)).1 =
        .error (.judging (.exhausted 2 last)) ∧ last.content = .null) ∧
    ∃ r t, recorders.verify ⟨[], "a.sol"⟩ (some 0) (some "1") recorderScene = (.ok r, t) ∧
      ∃ fs before dealt after, Apportioned recorders ⟨[], "a.sol"⟩ fs before dealt after recorderScene t ∧
        ∃ o, r.outcomes[0]? = some o ∧ ∃ record ∈ o.failure?, record.kind = .exhaustedRetries ∧ ∃ n : Nat,
          Judge.Exhausted (Judge.replies (Judge.share 0 dealt)) n (.ofOption .ofWide record.rawResponse) := by
  have hnc := Judge.neverCancelled_none (.ofAttempts 2 1.0) (.ofCheck "a") "" (Scene.ofService fadingService .nothing)
  have hscript := (exhausted_kept (σ := Float)).2.1 _ _ _ _ _ (by decide) hnc faulty_fadingService reckons_ofAttempts_two
  obtain ⟨last, hjudge, hlast⟩ := hscript
  rcases hrun : Judge.judge (.ofAttempts 2 1.0) (.ofCheck "a") "" none (Scene.ofService fadingService .nothing) with ⟨x, u⟩
  rw [hrun] at hjudge
  obtain rfl : x = _ := hjudge
  obtain ⟨events, htrace, -, hexhausted⟩ := (exhausted_kept (σ := Float)).1 _ _ _ _ _ _ _ hrun rfl
  obtain ⟨r, t, hverify, ⟨o, ho, record, hrecord, hkind⟩, -⟩ := verify_recorders
  obtain ⟨fs, before, dealt, after, happortioned, hall⟩ := (exhausted_kept (σ := Float)).2.2 _ _ _ _ _ _ _ hverify
  obtain ⟨n, -, hkept⟩ := (hall 0 o ho).2 record hrecord hkind
  refine ⟨⟨_, u, rfl, rfl, ?_⟩, ⟨by decide, hnc, fun _ => faulty_fadingService, reckons_ofAttempts_two, last, rfl, hlast⟩, r, t,
    hverify, fs, before, dealt, after, happortioned, o, ho, record, hrecord, hkind, n, hkept⟩
  rw [htrace]
  exact hexhausted

end Verifier
end Adjudication
