import Adjudication.Proofs.Judge.Onward
import Adjudication.Proofs.Judge.Outcome
import Adjudication.Proofs.Staging
import Adjudication.Proofs.Time.Exact
import Adjudication.Verification

/-!
Verifying a source. Once a run has come to judging, that is, once its source is staged, the analyzer has left results
and findings have been read off them, the report depends on the judging alone: it has the outcomes that judging comes
to. If every finding is settled, the report is a success with one outcome for every finding, in their order, and the
outcome of a finding is the one that it has when it is judged by itself at that point. All of that needs a slot that can be
released: where the analyzer has left directories too deep within each other, there is no report.
-/

namespace Adjudication

open Time (TokenId)

variable {σ : Type}

theorem Run.moment_of_ok {s : Scene σ} {m : Time.Timestamp} (h : s.moment = .ok m) :
    Run.moment s = (.ok m, s) := by
  rw [Run.moment, Act.bind_of_ok (Act.get_run s), h]
  rfl

theorem Run.moment_of_error {s : Scene σ} {fault : Time.ClockFault} (h : s.moment = .error fault) :
    Run.moment s = (.error (.noInstant fault), s) := by
  rw [Run.moment, Act.bind_of_ok (Act.get_run s), h]
  rfl

variable [Time.Seconds σ]

namespace Verifier

variable {v : Verifier σ} {source : Source} {given : Option TokenId} {runId : Option String} {s t : Scene σ}

/-- The token of a run, a new one if none is given, and the scene in which its source is staged. -/
def opened (source : Source) (given : Option TokenId) (s : Scene σ) : TokenId × Scene σ :=
  let lines := [(Level.info, .text ("Verifying " ++ source.identifier))]
  match given with
  | some id => (id, s.noting lines)
  | none =>
    let (id, timeline) := s.timeline.addToken none none
    (id, { s with timeline }.noting lines)

/-- Staging a source under the given name of a run, or under a new one. -/
def stage (v : Verifier σ) (source : Source) (runId : Option String) : Run σ Slot := do
  Staging.acquire v.root source (← Staging.runName runId)

/-! ### Around the slot -/

/-- What a verification gives: a report of the ending that it has come to, with the warnings of its slot, if the clock
shows an instant then, or the failure that it has come to instead. -/
def reported (v : Verifier σ) (source : Source) (startedAt : Time.Timestamp)
    (r : Except Failure (Ending × List Text.Wide)) (finished : Except Time.ClockFault Time.Timestamp) :
    Except Failure Report := do
  let (ending, warnings) ← r
  let finishedAt ← finished.mapError .noInstant
  return v.report source startedAt finishedAt ending warnings

omit [Time.Seconds σ] in
theorem reported_eq_ok {startedAt : Time.Timestamp} {x : Except Failure (Ending × List Text.Wide)}
    {finished : Except Time.ClockFault Time.Timestamp} {r : Report} (h : v.reported source startedAt x finished = .ok r) :
    ∃ ending warnings finishedAt, x = .ok (ending, warnings) ∧ finished = .ok finishedAt ∧
      r = v.report source startedAt finishedAt ending warnings := by
  cases x with
  | error e => cases h
  | ok x =>
    cases finished with
    | error fault => cases h
    | ok finishedAt => exact ⟨x.1, x.2, finishedAt, rfl, rfl, (Except.ok.inj h).symm⟩

omit [Time.Seconds σ] in
theorem reported_eq_error {startedAt : Time.Timestamp} {x : Except Failure (Ending × List Text.Wide)}
    {finished : Except Time.ClockFault Time.Timestamp} {e : Failure} (h : v.reported source startedAt x finished = .error e) :
    x = .error e ∨ ∃ fault, e = .noInstant fault := by
  cases x with
  | error cause =>
    obtain rfl : cause = e := Except.error.inj h
    exact .inl rfl
  | ok x =>
    cases finished with
    | error fault => exact .inr ⟨fault, (Except.error.inj h).symm⟩
    | ok finishedAt => cases h

/-- The last line of the log. -/
def lastLine (source : Source) : Except Failure Report → List (Level × Text.Wide)
  | .ok r =>
    [(.info, .text ("Verification of " ++ source.identifier ++ " finished: status=" ++ r.status.name ++ " " ++ r.summary.text))]
  | .error _ => []

theorem verify_some_of_not_started {id : TokenId} {fault : Time.ClockFault}
    (h : s.moment = .error fault) :
    v.verify source (some id) runId s = (.error (.noInstant fault), s) := by
  rw [verify]
  dsimp only
  rw [Act.bind_of_ok (Act.pure_run id s), Act.bind_of_error (Run.moment_of_error h)]

/-- A verification does not begin where the clock shows no instant. -/
theorem verify_of_not_started {fault : Time.ClockFault} (h : s.moment = .error fault) :
    (v.verify source given runId s).1 = .error (.noInstant fault) := by
  cases given with
  | some id => exact congrArg Prod.fst (verify_some_of_not_started h)
  | none =>
    let u : Scene σ := { s with timeline := (s.timeline.addToken none none).2 }
    have hmoment : Run.moment u = (.error (.noInstant fault), u) := Run.moment_of_error h
    rw [verify]
    dsimp only
    rw [Act.bind_of_ok (Run.newToken_run none none s), Act.bind_of_error hmoment]

/-- A verification begins with its token, the time and a line in the log, and ends with the time and another line. -/
theorem verify_run {startedAt : Time.Timestamp} (hstarted : s.moment = .ok startedAt)
    {r : Except Failure (Ending × List Text.Wide)} {t : Scene σ}
    (h : v.staged source (opened source given s).1 runId (opened source given s).2 = (r, t)) :
    v.verify source given runId s = (v.reported source startedAt r t.moment,
      t.noting (lastLine source (v.reported source startedAt r t.moment))) := by
  have hopened : v.verify source given runId s =
      (do
        let (ending, warnings) ← v.staged source (opened source given s).1 runId
        let r := v.report source startedAt (← Run.moment) ending warnings
        Run.log .info (.text ("Verification of " ++ source.identifier ++ " finished: status=" ++ r.status.name ++ " " ++
          r.summary.text))
        return r : Run σ Report) (opened source given s).2 := by
    cases given with
    | some id =>
      rw [verify]
      dsimp only
      rw [Act.bind_of_ok (Act.pure_run id s), Act.bind_of_ok (Run.moment_of_ok hstarted),
        Act.bind_of_ok (Run.log_run _ _ _)]
      rfl
    | none =>
      let u : Scene σ := { s with timeline := (s.timeline.addToken none none).2 }
      have hmoment : Run.moment u = (.ok startedAt, u) := Run.moment_of_ok hstarted
      rw [verify]
      dsimp only
      rw [Act.bind_of_ok (Run.newToken_run none none s), Act.bind_of_ok hmoment, Act.bind_of_ok (Run.log_run _ _ _)]
      rfl
  rw [hopened]
  cases r with
  | error e =>
    rw [Act.bind_of_error h]
    exact Prod.ext rfl (Scene.noting_nil t).symm
  | ok r =>
    rw [Act.bind_of_ok h]
    cases hm : t.moment with
    | ok finishedAt =>
      have hmoment : Run.moment t = (.ok finishedAt, t) := Run.moment_of_ok hm
      dsimp only
      rw [Act.bind_of_ok hmoment, reported]
      rfl
    | error fault =>
      dsimp only
      rw [Act.bind_of_error (Run.moment_of_error hm), reported]
      exact Prod.ext rfl (Scene.noting_nil t).symm

/-- What the part of a verification comes to that is in its slot, unless it fails for want of staging, is what it reports:
that the slot is released changes the files and the log only, if it can be released. -/
theorem verify_of_stage_ok {startedAt : Time.Timestamp} (hstarted : s.moment = .ok startedAt)
    {slot : Slot} {staged : Scene σ} (hstage : v.stage source runId (opened source given s).2 = (.ok slot, staged))
    {inside : Except Failure Ending × Scene σ} (hin : v.inSlot source (opened source given s).1 slot staged = inside)
    (hinside : ∀ cause, inside.1 ≠ .error (.staging cause)) :
    ∃ x es files lines, v.verify source given runId s =
        (v.reported source startedAt (x.bind fun _ => inside.1.map fun ending => (ending, es.map StagingError.text))
          inside.2.moment, (Staging.cleaned inside.2 files es).noting lines) ∧
      (∀ e, x = .error e → e = .file (.tooDeep .removing) ∧ Staging.TooDeep slot inside.2) ∧
      (Staging.Nested slot inside.2.files → inside.2.files.place slot.workdir ≠ [] →
        Staging.Released slot inside.2.files files es x) := by
  subst hin
  obtain ⟨x, es, files, hwithin, hfails, hreleased⟩ :=
    Staging.within_run (v.inSlot source (opened source given s).1) hstage
  have hstaged : v.staged source (opened source given s).1 runId (opened source given s).2 =
      (x.bind fun _ => (v.inSlot source (opened source given s).1 slot staged).1.map fun ending =>
          (ending, es.map StagingError.text),
        Staging.cleaned (v.inSlot source (opened source given s).1 slot staged).2 files es) := by
    rw [Verifier.staged, Run.outcome_bind_run, hwithin]
    cases x with
    | error e =>
      obtain ⟨rfl, -⟩ := hfails e rfl
      rfl
    | ok =>
      cases hr : (v.inSlot source (opened source given s).1 slot staged).1 with
      | ok ending => rfl
      | error e =>
        cases e with
        | staging cause => exact absurd hr (hinside cause)
        | _ => rfl
  exact ⟨x, es, files, _, verify_run hstarted hstaged, hfails, hreleased⟩

/-- Where no slot can be acquired for want of staging, there is a report of that. -/
theorem verify_of_stage_error {startedAt : Time.Timestamp} (hstarted : s.moment = .ok startedAt)
    {e : Failure} {t : Scene σ} (hstage : v.stage source runId (opened source given s).2 = (.error e, t)) :
    ∃ lines, (v.verify source given runId s).2 = t.noting lines ∧
      ((∃ cause, e = .staging cause ∧ (v.verify source given runId s).1 = v.reported source startedAt
          (.ok (fatal .staging cause.kind cause.message none, [])) t.moment) ∨
        (v.verify source given runId s).1 = .error e) := by
  have hwithin : Staging.within v.root source runId (v.inSlot source (opened source given s).1) (opened source given s).2 =
      (.error e, t) := by
    obtain ⟨name, names, hname⟩ := Staging.runName_run runId (opened source given s).2
    rw [stage, Act.bind_of_ok hname] at hstage
    rw [Staging.within, Act.bind_of_ok hname, Act.bind_of_error hstage]
  by_cases hcause : ∃ cause, e = .staging cause
  · obtain ⟨cause, rfl⟩ := hcause
    have hstaged : v.staged source (opened source given s).1 runId (opened source given s).2 =
        (.ok (fatal .staging cause.kind cause.message none, []),
          t.noting [(.error, .text "Staging failed: " ++ cause.text)]) := by
      rw [Verifier.staged, Run.outcome_bind_run, hwithin]
      rfl
    rw [verify_run hstarted hstaged]
    exact ⟨_, Scene.noting_noting _ _ _, .inl ⟨cause, rfl, rfl⟩⟩
  · have hstaged : v.staged source (opened source given s).1 runId (opened source given s).2 = (.error e, t) := by
      rw [Verifier.staged, Run.outcome_bind_run, hwithin]
      cases e with
      | staging cause => exact absurd ⟨cause, rfl⟩ hcause
      | _ => rfl
    rw [verify_run hstarted hstaged]
    exact ⟨_, rfl, .inr rfl⟩

/-! ### Up to the judging -/

/-- How a run comes to judging: the source is staged, the token is not cancelled, the analyzer leaves a document, and
findings are read off it. -/
structure Prelude (v : Verifier σ) (source : Source) (given : Option TokenId) (runId : Option String)
    (s : Scene σ) where
  slot : Slot
  document : Analyzer.Document
  findings : List Finding
  staged : Scene σ
  heeded : Scene σ
  analyzed : Scene σ
  started : ∃ m, s.moment = .ok m
  stage_eq : v.stage source runId (opened source given s).2 = (.ok slot, staged)
  heed_eq : Run.heed (some (opened source given s).1) staged = (.ok (), heeded)
  run_eq : Analyzer.run v.command v.timeout slot.source slot.output (some (opened source given s).1) heeded =
    (.ok document, analyzed)
  findings_eq : Analyzer.findingsOfFile analyzed.host.levels analyzed.files document.file = .ok findings

/-- The way to judging, for a run that comes to it. -/
def prelude? (v : Verifier σ) (source : Source) (given : Option TokenId) (runId : Option String) (s : Scene σ) :
    Option (Prelude v source given runId s) :=
  match hstarted : s.moment with
  | .error _ => none
  | .ok m =>
    match hstage : v.stage source runId (opened source given s).2 with
    | (.error _, _) => none
    | (.ok slot, staged) =>
      match hheed : Run.heed (some (opened source given s).1) staged with
      | (.error _, _) => none
      | (.ok (), heeded) =>
        match hrun : Analyzer.run v.command v.timeout slot.source slot.output (some (opened source given s).1)
          heeded with
        | (.error _, _) => none
        | (.ok document, analyzed) =>
          match hfindings : Analyzer.findingsOfFile analyzed.host.levels analyzed.files document.file with
          | .error _ => none
          | .ok findings =>
            some ⟨slot, document, findings, staged, heeded, analyzed, ⟨m, hstarted⟩, hstage, hheed, hrun, hfindings⟩

namespace Prelude

/-- The token of the run. -/
def token (_ : Prelude v source given runId s) : TokenId := (opened source given s).1

/-- The scene in which judging begins. -/
def scene (p : Prelude v source given runId s) : Scene σ :=
  p.analyzed.noting [(.info, .text ("Parsed " ++ toString p.findings.length ++ " finding(s)"))]

/-- The scene in which the finding at an index is judged, if one is judged after the other. -/
def before (p : Prelude v source given runId s) (i : Nat) : Scene σ :=
  Act.after (Judge.judgeOne v.judge source.text p.token) (p.findings.take i) p.scene

/-- What the run comes to in judging. -/
def judged (p : Prelude v source given runId s) : Except Failure (List Outcome) × Scene σ :=
  Judge.judgeAll v.judge v.workers source.text p.token p.findings p.scene

/-- A run that has come to outcomes ends with them. -/
def ending (p : Prelude v source given runId s) (outcomes : List Outcome) : Ending :=
  ⟨some p.document.exitCode, outcomes, none⟩

theorem inSlot_run (p : Prelude v source given runId s) :
    v.inSlot source p.token p.slot p.staged = (p.judged.1.map p.ending, p.judged.2) := by
  have hfindings : Verifier.findings p.document p.analyzed = (.ok (.ok p.findings), p.scene) := by
    rw [Verifier.findings, Act.bind_of_ok (Act.get_run p.analyzed)]
    simp only [p.findings_eq]
    rfl
  have hheed : Run.heed (some p.token) p.staged = (.ok (), p.heeded) := p.heed_eq
  have hanalyzer : Run.outcome (Analyzer.run v.command v.timeout p.slot.source p.slot.output (some p.token)) p.heeded =
      (.ok (.ok p.document), p.analyzed) := by
    rw [Run.outcome_run, show Analyzer.run v.command v.timeout p.slot.source p.slot.output (some p.token) p.heeded = _
      from p.run_eq]
  rw [inSlot, Act.bind_of_ok hheed, Act.bind_of_ok hanalyzer]
  dsimp only
  rw [Act.bind_of_ok hfindings]
  dsimp only
  rw [Act.bind_run, judged]
  rcases Judge.judgeAll v.judge v.workers source.text p.token p.findings p.scene with ⟨_ | _, _⟩ <;> rfl

/-- The analyzer has left directories in the slot too deep within each other for the slot to be released. -/
def TooDeep (p : Prelude v source given runId s) : Prop := Staging.TooDeep p.slot p.analyzed

/-- Whether the names of every place are too few for that. -/
def isShallow (p : Prelude v source given runId s) : Bool :=
  p.analyzed.files.nodes.all fun n => n.1.length ≤ p.analyzed.host.descent

theorem not_tooDeep (p : Prelude v source given runId s) (h : p.isShallow = true) : ¬ p.TooDeep :=
  Files.Tree.not_deep_of_short h _

/-- Judging does nothing to the files. -/
theorem tooDeep_judged (p : Prelude v source given runId s) : Staging.TooDeep p.slot p.judged.2 ↔ p.TooDeep := by
  have honward : Scene.Freely True (fun t u => u = t) p.scene p.judged.2 :=
    Judge.respects_judgeAll v.judge v.workers source.text p.token p.findings p.scene
  rw [TooDeep, Staging.TooDeep, Staging.TooDeep, honward.files, honward.host]
  rfl

/-- What a run that comes to judging gives. -/
theorem verify_run (p : Prelude v source given runId s) (he : ∀ cause, p.judged.1 ≠ .error (.staging cause)) :
    ∃ startedAt, ∃ x : Except Failure Unit, ∃ warnings t, v.verify source given runId s =
      (v.reported source startedAt (x.bind fun _ => p.judged.1.map fun outcomes => (p.ending outcomes, warnings))
        p.judged.2.moment, t) ∧ ∀ e, x = .error e → e = .file (.tooDeep .removing) ∧ p.TooDeep := by
  obtain ⟨m, hm⟩ := p.started
  have hinside : v.inSlot source (opened source given s).1 p.slot p.staged = (p.judged.1.map p.ending, p.judged.2) :=
    p.inSlot_run
  have hplain : ∀ cause, p.judged.1.map p.ending ≠ .error (.staging cause) := fun cause h => by
    cases hj : p.judged.1 with
    | ok outcomes =>
      rw [hj] at h
      cases h
    | error e =>
      rw [hj] at h
      obtain rfl := Except.error.inj h
      exact he cause hj
  obtain ⟨x, es, files, lines, hverify, hfails, -⟩ := verify_of_stage_ok hm p.stage_eq hinside hplain
  refine ⟨m, x, es.map StagingError.text, (Staging.cleaned p.judged.2 files es).noting lines, ?_, fun e hx => ?_⟩
  · rw [hverify]
    cases p.judged.1 <;> rfl
  · exact (hfails e hx).imp_right p.tooDeep_judged.1

/-- A run whose judging comes to outcomes gives a report with these outcomes and no error. -/
theorem verify_of_ok (p : Prelude v source given runId s) (hshallow : ¬ p.TooDeep) {outcomes : List Outcome}
    (h : p.judged.1 = .ok outcomes) {finished : Time.Timestamp}
    (hfinished : p.judged.2.moment = .ok finished) :
    ∃ r t, v.verify source given runId s = (.ok r, t) ∧ r.status = .success ∧ r.error = none ∧
      r.outcomes = outcomes := by
  obtain ⟨startedAt, x, warnings, t, hverify, hfails⟩ := p.verify_run fun cause => by simp [h]
  refine ⟨v.report source startedAt finished (p.ending outcomes) warnings, t, hverify.trans ?_, rfl, rfl, rfl⟩
  cases x with
  | error e => exact absurd (hfails e rfl).2 hshallow
  | ok =>
    rw [h, reported, hfinished]
    rfl

/-- A run whose judging fails, as it never does for want of staging, gives no report. -/
theorem verify_of_error (p : Prelude v source given runId s) (hshallow : ¬ p.TooDeep) {e : Failure}
    (h : p.judged.1 = .error e) (he : ∀ cause, e ≠ .staging cause) :
    ∃ t, v.verify source given runId s = (.error e, t) := by
  obtain ⟨startedAt, x, warnings, t, hverify, hfails⟩ := p.verify_run fun cause hc =>
    he cause (Except.error.inj (h.symm.trans hc))
  refine ⟨t, hverify.trans ?_⟩
  cases x with
  | error cause => exact absurd (hfails cause rfl).2 hshallow
  | ok =>
    rw [h]
    rfl

end Prelude

/-! ### One finding after the other -/

/-- If each finding is settled where it is judged, the run comes to one outcome for each, in their order. -/
theorem Prelude.judged_of_settles (p : Prelude v source given runId s)
    (hsequential : v.workers = 1 ∨ p.findings.length ≤ 1)
    (hheed : ∀ i < p.findings.length, ((p.before i).timeline.isCancelled p.token).1 = false)
    (hsettles : ∀ i (hi : i < p.findings.length), Judge.Settles
      (Judge.judge v.judge p.findings[i] source.text (some p.token) (p.before i)).1) :
    ∃ outcomes, p.judged = (.ok outcomes, p.before p.findings.length) ∧ outcomes.length = p.findings.length ∧
      ∀ i (hi : i < p.findings.length), ∃ o, outcomes[i]? = some o ∧
        o.Tells p.findings[i] (Judge.judge v.judge p.findings[i] source.text (some p.token) (p.before i)).1 ∧
        (Judge.judgeOne v.judge source.text p.token p.findings[i] (p.before i)).1 = .ok o := by
  have hone : ∀ i (hi : i < p.findings.length), ∃ o,
      (Judge.judgeOne v.judge source.text p.token p.findings[i] (p.before i)).1 = .ok o ∧
      o.Tells p.findings[i] (Judge.judge v.judge p.findings[i] source.text (some p.token) (p.before i)).1 := by
    intro i hi
    obtain ⟨o, ho, htells⟩ := Judge.outcomeOf_of_settles p.findings[i] (hsettles i hi)
    refine ⟨o, ?_, htells⟩
    rw [Judge.judgeOne_of_heed_ok _ (Run.heed_of_not_cancelled (hheed i hi)), Judge.settle_run, ho]
  obtain ⟨outcomes, hmap, hlength, hall⟩ := Act.mapM_of_forall_ok (Judge.judgeOne v.judge source.text p.token)
    p.findings p.scene fun i hi => ⟨_, (hone i hi).choose_spec.1⟩
  refine ⟨outcomes, ?_, hlength, fun i hi => ?_⟩
  · rw [Prelude.judged, Judge.judgeAll, if_pos hsequential, hmap, Prelude.before, List.take_length]
  · obtain ⟨o, ho, htells⟩ := hone i hi
    refine ⟨o, ?_, htells, ho⟩
    have hget := hall i hi (hlength ▸ hi)
    rw [List.getElem?_eq_getElem (hlength ▸ hi)]
    exact congrArg some (Except.ok.inj (hget.symm.trans ho))

/-- Whether judging settles every finding of a run on a token that is not cancelled. -/
def Prelude.settled (p : Prelude v source given runId s) : Bool :=
  (List.range p.findings.length).all (fun i =>
    !((p.before i).timeline.isCancelled p.token).1 && (p.findings[i]?).all fun f =>
      Judge.settles (Judge.judge v.judge f source.text (some p.token) (p.before i)).1) &&
    ((p.before p.findings.length).moment).isOk

theorem Prelude.settled_iff (p : Prelude v source given runId s) : p.settled = true ↔
    (∀ i < p.findings.length, ((p.before i).timeline.isCancelled p.token).1 = false) ∧
      (∀ i (hi : i < p.findings.length), Judge.Settles
        (Judge.judge v.judge p.findings[i] source.text (some p.token) (p.before i)).1) ∧
      ∃ m, (p.before p.findings.length).moment = .ok m := by
  have hok : ∀ r : Except Time.ClockFault Time.Timestamp, r.isOk = true ↔ ∃ m, r = .ok m := by
    rintro (_ | m)
    · exact ⟨fun h => absurd h (by simp [Except.isOk, Except.toBool]), fun ⟨_, h⟩ => by simp at h⟩
    · exact ⟨fun _ => ⟨m, rfl⟩, fun _ => rfl⟩
  simp only [settled, Bool.and_eq_true, List.all_eq_true, List.mem_range, Bool.not_eq_true', hok]
  constructor
  · rintro ⟨hall, hend⟩
    refine ⟨fun i hi => (hall i hi).1, fun i hi => ?_, hend⟩
    have h := (hall i hi).2
    rw [List.getElem?_eq_getElem hi] at h
    exact (Judge.settles_iff _).1 h
  · rintro ⟨hheed, hsettles, hend⟩
    refine ⟨fun i hi => ⟨hheed i hi, ?_⟩, hend⟩
    rw [List.getElem?_eq_getElem hi]
    exact (Judge.settles_iff _).2 (hsettles i hi)

/-- A run with one worker that settles every finding gives a report with one outcome for each. -/
theorem Prelude.verify_of_settled (p : Prelude v source given runId s) (hshallow : ¬ p.TooDeep)
    (hsequential : v.workers = 1) (h : p.settled = true) :
    ∃ r t, v.verify source given runId s = (.ok r, t) ∧ r.outcomes.length = p.findings.length := by
  obtain ⟨hheed, hsettles, m, hm⟩ := p.settled_iff.1 h
  obtain ⟨outcomes, hjudged, hlength, -⟩ := p.judged_of_settles (.inl hsequential) hheed hsettles
  obtain ⟨r, t, hverify, -, -, rfl⟩ := p.verify_of_ok hshallow (congrArg Prod.fst hjudged) (by rw [hjudged]; exact hm)
  exact ⟨r, t, hverify, hlength⟩

/-- Results with two findings. -/
def twoFindings : String :=
  "\x7b\"results\":\x7b\"detectors\":[\x7b\"check\":\"a\",\"impact\":\"low\"\x7d,\x7b\"check\":\"b\",\"impact\":\"low\"\x7d]\x7d\x7d"

/-- A service that is busy on "a" and takes all other findings for real. -/
def busyService : Judge.Service Int :=
  .ofScripts 0 [("a", [⟨0, false, none, .refused "busy"⟩])] [Judge.Service.standard 0]

def scanner : Verifier Int :=
  { command := ["scan", "\x7boutput\x7d"], timeout := 1, judge := .ofAttempts 1 1000000, root := ⟨.root, ["runs"]⟩
    workers := 1 }

def scannerScene : Scene Int :=
  { Scene.ofService busyService (.file (Text.Utf8.encode twoFindings)) with patience := 1 }

theorem settled_scanner :
    ((scanner.prelude? ⟨[], "a.sol"⟩ (some 0) (some "1") scannerScene).any fun p =>
      p.isShallow && (p.findings.length == 2 && p.settled)) = true := by
  decide +kernel

/-- The way to judging of that run. -/
def scannerPrelude : Prelude scanner ⟨[], "a.sol"⟩ (some 0) (some "1") scannerScene :=
  (scanner.prelude? ⟨[], "a.sol"⟩ (some 0) (some "1") scannerScene).get
    ((Option.any_eq_true_iff_get _ _).1 settled_scanner).fst

theorem settled_scannerPrelude : scannerPrelude.findings.length = 2 ∧ scannerPrelude.settled = true := by
  have h := ((Option.any_eq_true_iff_get _ _).1 settled_scanner).snd
  obtain ⟨hlength, hsettled⟩ := (Bool.and_eq_true _ _).mp ((Bool.and_eq_true _ _).mp h).2
  exact ⟨eq_of_beq hlength, hsettled⟩

theorem shallow_scannerPrelude : ¬ scannerPrelude.TooDeep :=
  scannerPrelude.not_tooDeep ((Bool.and_eq_true _ _).mp ((Option.any_eq_true_iff_get _ _).1 settled_scanner).snd).1

end Verifier
end Adjudication
