import Adjudication.Export.Sarif
import Adjudication.Proofs.Judge.Lockstep
import Adjudication.Proofs.Verification.Report

/-!
The fingerprints of findings keep out of everything but the findings. Two runs on results that differ in nothing but the marks
of their entries launch and kill, ask and wait, log and fail alike; their reports differ in nothing but the fingerprints, and
the logs made of these reports do not differ at all.
-/

namespace Adjudication

open Act (Lockstep Blind)
open Time (TokenId)
open Time.Seconds (add)

variable {σ : Type}

/-! ### The analyzer -/

namespace Analyzer

theorem blind_launch (argv : List String) (directory : Files.Path) : Blind Scene.Alike (launch argv directory : Run σ Unit) := by
  refine .blind_bind Run.blind_now fun _ => .blind_bind (Run.blind_record _) fun _ => Act.lockstep_get_bind fun s t h => ?_
  cases h with
  | @mk files course hfiles hcourse =>
    have hlaunch : course.launchError = s.course.launchError := by
      cases hcourse
      rfl
    dsimp only
    rw [hlaunch]
    cases launchFault? argv directory with
    | some fault => exact ⟨.error _, .mk hfiles hcourse⟩
    | none =>
      cases s.course.launchError with
      | none => exact ⟨.ok rfl, .mk hfiles hcourse⟩
      | some reason => exact ⟨.error _, .mk hfiles hcourse⟩

theorem blind_start (command : List String) (source output : Files.Path) :
    Blind Scene.Alike (start command source output : Run σ (List String)) :=
  .blind_bind (Run.blind_ofExcept _ _) fun _ => .blind_bind (Run.blind_log _ _) fun _ =>
    .blind_bind (blind_launch _ _) fun _ => Act.blind_pure _

variable [Time.Seconds σ]

theorem blind_kill (e : Failure) : Blind Scene.Alike (kill e : Run σ Unit) := fun s t h => by
  rw [kill_run, kill_run]
  cases h with
  | mk hfiles hcourse =>
    cases hcourse with
    | mk houtput hdisturbs =>
      exact ⟨.error _, .mk ((Course.Alike.mk houtput hdisturbs).disturbed hfiles) (.mk houtput hdisturbs)⟩

theorem blind_isCalledOff (token : Option TokenId) : Blind Scene.Alike (isCalledOff token : Run σ Bool) := by
  cases token with
  | none => exact Act.blind_pure _
  | some id => exact Run.blind_isCancelled id

theorem blind_await (timeout deadline : σ) (token : Option TokenId) : ∀ (patience : Nat) (left : σ),
    Blind Scene.Alike (await timeout deadline token patience left)
  | 0, _ => Act.blind_throw _
  | patience + 1, left => by
    rw [await]
    refine .blind_bind Run.blind_now fun instant => ?_
    dsimp only
    split
    · exact blind_kill _
    · refine .blind_bind (blind_isCalledOff token) fun off => ?_
      split
      · exact blind_kill _
      · split
        · exact .blind_bind (Run.blind_advance _) fun _ => blind_await timeout deadline token patience _
        · exact Run.blind_advance _

theorem host_await (timeout deadline : σ) (token : Option TokenId) (patience : Nat) (left : σ) (s : Scene σ) :
    (await timeout deadline token patience left s).2.host = s.host :=
  ((parts_onward False (fun _ => True) trivial token).await timeout deadline patience (fun _ h => h.elim) s).host

omit [Time.Seconds σ] in
/-- What a process comes to does not show the marks in the files that it has left. -/
theorem results_of_alike {levels : Nat} {t u : Files.Tree} (h : t.Alike (SameButMarks levels) u) (c : Course σ)
    (output : Files.Path) (left : Output) : results { c with output := left } output u = results c output t := by
  rw [results, results, h.hasContent (fun _ _ hcontent => hcontent.nil_iff)]
  rfl

/-- A run of the analyzer keeps step with a run that leaves other marks. -/
theorem blind_run (command : List String) (timeout : σ) (source output : Files.Path) (token : Option TokenId) :
    Blind Scene.Alike (run command timeout source output token) := by
  refine .blind_bind (blind_start command source output) fun argv => Act.lockstep_get_bind fun s t h => ?_
  cases h with
  | mk hfiles hcourse =>
    cases hcourse with
    | @mk left houtput hdisturbs =>
      -- The process is waited for on the same host, so what it leaves is alike as seen from there.
      have hhost := host_await timeout (add s.timeline.now timeout) token s.patience s.course.takes s
      obtain ⟨hresult, hafter⟩ := blind_await timeout (add s.timeline.now timeout) token s.patience s.course.takes s _
        (.mk hfiles (.mk houtput hdisturbs))
      rw [Act.bind_run, Act.bind_run]
      dsimp only
      generalize await timeout (add s.timeline.now timeout) token s.patience s.course.takes s = i at hresult hafter hhost ⊢
      generalize await timeout (add s.timeline.now timeout) token s.patience s.course.takes _ = j at hresult hafter ⊢
      obtain ⟨r, u⟩ := i
      obtain ⟨r', u'⟩ := j
      obtain rfl : r = r' := matched_eq.1 hresult
      cases r with
      | error e => exact ⟨.error e, hafter⟩
      | ok =>
        cases hafter with
        | mk hfiles hcourse =>
          replace hfiles := (Course.Alike.mk houtput hdisturbs).finish (hhost ▸ hfiles) argv source.parent
          have hresults := results_of_alike hfiles s.course output left
          have hleft : Scene.Alike { u with files := s.course.finish argv source.parent u.files } _ :=
            .mk (hhost ▸ hfiles) hcourse
          exact Run.lockstep_ofExcept (matched_eq.2 hresults.symm) _ _ hleft

end Analyzer

/-! ### Reports -/

namespace Report

/-- A report without the fingerprints of its findings. -/
def unmarked (r : Report) : Report := { r with outcomes := r.outcomes.map Outcome.unmarked }

/-- Reports that are the same but for the fingerprints of their findings. -/
def Alike (r r' : Report) : Prop := r.unmarked = r'.unmarked

theorem summary_unmarked (r : Report) : r.unmarked.summary = r.summary := by
  have hcount : ∀ status, r.unmarked.count status = r.count status := fun status => by
    rw [count, count, unmarked, List.filter_map, List.length_map]
    rfl
  rw [summary, summary, hcount, hcount, hcount, unmarked, List.length_map]

theorem Alike.status {r r' : Report} (h : r.Alike r') : r.status = r'.status :=
  show r.unmarked.status = r'.unmarked.status from congrArg Report.status h

theorem Alike.summary {r r' : Report} (h : r.Alike r') : r.summary = r'.summary := by
  rw [← summary_unmarked r, h, summary_unmarked]

end Report

namespace Export.Sarif

theorem rulesOf_unmarked (os : List Outcome) :
    rulesOf ((os.map Outcome.unmarked).map Outcome.finding) = rulesOf (os.map Outcome.finding) := by
  rw [rulesOf, rulesOf, List.map_map, List.foldl_map, List.foldl_map]
  rfl

/-- No log shows a fingerprint. -/
theorem log_unmarked (tool : Tool) (r : Report) : log tool r.unmarked = log tool r := by
  have hresults : r.unmarked.outcomes.map (result r.unmarked.sourceId) = r.outcomes.map (result r.sourceId) := by
    rw [Report.unmarked, List.map_map]
    rfl
  rw [log, log, hresults, r.summary_unmarked, show r.unmarked.outcomes = r.outcomes.map Outcome.unmarked from rfl,
    rulesOf_unmarked]
  rfl

end Export.Sarif

theorem unmarked_of_forall₂ {os os' : List Outcome} (h : List.Forall₂ Outcome.Alike os os') :
    os.map Outcome.unmarked = os'.map Outcome.unmarked := by
  rw [← List.forall₂_eq_eq_eq, List.forall₂_map_left_iff, List.forall₂_map_right_iff]
  exact h

namespace Verifier

variable [Time.Seconds σ]

structure Ending.Alike (e e' : Ending) : Prop where
  exitCode : e.exitCode = e'.exitCode
  outcomes : List.Forall₂ Outcome.Alike e.outcomes e'.outcomes
  error : e.error = e'.error

theorem alike_fatal (stage : Stage) (kind : String) (message : Text.Wide) (exitCode : Option Int) :
    (fatal stage kind message exitCode).Alike (fatal stage kind message exitCode) := ⟨rfl, .nil, rfl⟩

omit [Time.Seconds σ] in
theorem lockstep_findings (document : Analyzer.Document) :
    Lockstep Scene.Alike (Matched (List.Forall₂ Finding.Alike))
      (findings document : Run σ (Except ResultsError (List Finding))) (findings document) := by
  refine Act.lockstep_get_bind fun s t h => ?_
  have hfindings := Analyzer.matched_findingsOfFile h.files document.file
  have hlevels : t.host.levels = s.host.levels := by
    cases h
    rfl
  rw [hlevels]
  generalize Analyzer.findingsOfFile s.host.levels s.files document.file = x at hfindings ⊢
  generalize Analyzer.findingsOfFile s.host.levels t.files document.file = y at hfindings ⊢
  cases hfindings with
  | @ok fs fs' hfs =>
    dsimp only
    rw [hfs.length_eq]
    exact Lockstep.blind_bind (Run.blind_log _ _) (fun _ => Act.lockstep_pure (.ok hfs)) s t h
  | error e =>
    cases e with
    | results e => exact ⟨.ok (.error e), h⟩
    | _ => exact ⟨.error _, h⟩

theorem lockstep_inSlot (v : Verifier σ) (source : Source) (token : TokenId) (slot : Slot) :
    Lockstep Scene.Alike Ending.Alike (v.inSlot source token slot) (v.inSlot source token slot) := by
  refine .blind_bind (Run.blind_heed _) fun _ => .blind_bind (Run.blind_outcome (Analyzer.blind_run _ _ _ _ _)) fun r => ?_
  split
  · exact .blind_bind (Run.blind_log _ _) fun _ => Act.lockstep_pure (alike_fatal _ _ _ _)
  · exact Act.lockstep_throw _
  next document =>
    refine (lockstep_findings document).bind fun x y hxy => ?_
    cases hxy with
    | error e => exact .blind_bind (Run.blind_log _ _) fun _ => Act.lockstep_pure (alike_fatal _ _ _ _)
    | ok hfs => exact (Judge.lockstep_judgeAll _ _ _ hfs).bind fun os os' hos => Act.lockstep_pure ⟨rfl, hos, rfl⟩

theorem lockstep_staged (v : Verifier σ) (source : Source) (token : TokenId) (runId : Option String) :
    Lockstep Scene.Alike (fun x y => x.1.Alike y.1 ∧ x.2 = y.2) (v.staged source token runId)
      (v.staged source token runId) := by
  refine (Run.lockstep_outcome (Staging.lockstep_within (v.lockstep_inSlot source token) _ _ _)).bind fun x y hxy => ?_
  cases hxy with
  | ok h => exact Act.lockstep_pure h
  | error e =>
    cases e with
    | staging e => exact .blind_bind (Run.blind_log _ _) fun _ => Act.lockstep_pure ⟨alike_fatal _ _ _ _, rfl⟩
    | _ => exact Act.lockstep_throw _

omit [Time.Seconds σ] in
theorem blind_moment : Blind Scene.Alike (Run.moment : Run σ Time.Timestamp) :=
  Act.lockstep_get_bind fun s t h => by
    rw [h.moment]
    exact Run.blind_ofExcept .noInstant _ s t h

omit [Time.Seconds σ] in
theorem alike_report (v : Verifier σ) (source : Source) (startedAt finishedAt : Time.Timestamp) {e e' : Ending}
    (h : e.Alike e') (warnings : List Text.Wide) :
    (v.report source startedAt finishedAt e warnings).Alike (v.report source startedAt finishedAt e' warnings) := by
  simp only [Report.Alike, report, Report.unmarked, h.exitCode, h.error, unmarked_of_forall₂ h.outcomes]

theorem lockstep_verify_some (v : Verifier σ) (source : Source) (id : TokenId) (runId : Option String) :
    Lockstep Scene.Alike Report.Alike (v.verify source (some id) runId) (v.verify source (some id) runId) := by
  refine .blind_bind (Act.blind_pure id) fun token => .blind_bind blind_moment fun startedAt =>
    .blind_bind (Run.blind_log _ _) fun _ => (v.lockstep_staged source token runId).bind fun x y hxy =>
      .blind_bind blind_moment fun finishedAt => ?_
  obtain ⟨e, warnings⟩ := x
  obtain ⟨e', warnings'⟩ := y
  obtain ⟨he, hwarnings⟩ := hxy
  obtain rfl : warnings = warnings' := hwarnings
  have hreport := v.alike_report source startedAt finishedAt he warnings
  dsimp only
  rw [hreport.status, hreport.summary]
  exact .blind_bind (Run.blind_log _ _) fun _ => Act.lockstep_pure hreport

/-- Reports that are the same but for fingerprints, from scenes that are the same but for marks. -/
theorem lockstep_verify (v : Verifier σ) (source : Source) (given : Option TokenId) (runId : Option String) :
    Lockstep Scene.Alike Report.Alike (v.verify source given runId) (v.verify source given runId) := by
  cases given with
  | some id => exact v.lockstep_verify_some source id runId
  | none =>
    have hverify : v.verify source none runId = Run.newToken none none >>= fun id => v.verify source (some id) runId := rfl
    rw [hverify]
    exact .blind_bind (Run.blind_newToken none none) fun id => v.lockstep_verify_some source id runId

end Verifier

/-! ### Runs that cannot be told apart -/

theorem Judge.blind_ofConfig (config : JudgeConfig σ) :
    Blind Scene.Alike (Judge.Client.ofConfig config : Run σ (Judge.Client σ)) := by
  have hopen : Blind Scene.Alike (Judge.openTransport config : Run σ Judge.Transport) := by
    rw [Judge.openTransport.eq_def]
    split
    · exact Act.blind_throw _
    · exact Act.blind_throw _
    next key _ _ =>
      refine Act.lockstep_get_bind fun s t h => ?_
      cases h with
      | mk hfiles hcourse => exact ⟨.ok rfl, .mk hfiles hcourse⟩
  refine .blind_bind hopen fun _ => Act.lockstep_get_bind fun s t h => ?_
  cases h with
  | mk hfiles hcourse => exact ⟨.ok rfl, .mk hfiles hcourse⟩

theorem Judge.blind_close (c : Judge.Client σ) : Blind Scene.Alike (c.close : Run σ Unit) := by
  rw [Judge.Client.close.eq_def]
  split
  · exact Run.blind_record _
  · exact Act.blind_pure _

theorem lockstep_verify [Time.Seconds σ] (code : Text.Wide) (identifier : String) (settings : Settings σ)
    (judge : Option (Judge.Client σ))
    (token : Option TokenId) : Lockstep Scene.Alike Report.Alike (verify code identifier settings judge token)
      (verify code identifier settings judge token) := by
  have hrun : ∀ c : Judge.Client σ, Lockstep Scene.Alike Report.Alike
      (do let source ← Run.ofExcept Failure.ofSource (Source.ofText code identifier)
          (Verifier.ofSettings settings c).verify source token none : Run σ Report)
      (do let source ← Run.ofExcept Failure.ofSource (Source.ofText code identifier)
          (Verifier.ofSettings settings c).verify source token none) := fun c =>
    .blind_bind (Run.blind_ofExcept _ _) fun source => Verifier.lockstep_verify _ source token none
  cases judge with
  | some c => exact hrun c
  | none => exact .blind_bind (Judge.blind_ofConfig _) fun c => Run.lockstep_andThen (hrun c) (Judge.blind_close c)

/-- A run does not tell two scenes apart: it ends with the same failure or with reports that are the same but for
fingerprints, of which the same logs are made, and whatever it does on the way it does in both of them. -/
structure Indistinct (run : Run σ Report) (s s' : Scene σ) : Prop where
  report : (run s).1.map Report.unmarked = (run s').1.map Report.unmarked
  trace : (run s).2.trace = (run s').2.trace
  log : ∀ tool, (run s).1.map (Export.Sarif.log tool) = (run s').1.map (Export.Sarif.log tool)

theorem indistinct_of_lockstep {run : Run σ Report} (h : Lockstep Scene.Alike Report.Alike run run) {s s' : Scene σ}
    (hs : s.Alike s') : Indistinct run s s' where
  report := (h s s' hs).1.map_eq fun _ _ hr => hr
  trace := (h s s' hs).2.trace
  log tool := (h s s' hs).1.map_eq fun r r' hr => by
    rw [← Export.Sarif.log_unmarked tool r, hr, Export.Sarif.log_unmarked]

/-- No verification tells scenes apart that differ in nothing but the marks in the results of the analyzer. -/
theorem verify_indistinct [Time.Seconds σ] {s s' : Scene σ} (h : s.Alike s') (token : Option TokenId) :
    (∀ (v : Verifier σ) (source : Source) (runId : Option String), Indistinct (v.verify source token runId) s s') ∧
      ∀ (code : Text.Wide) (identifier : String) (settings : Settings σ) (judge : Option (Judge.Client σ)),
        Indistinct (verify code identifier settings judge token) s s' :=
  ⟨fun v source runId => indistinct_of_lockstep (v.lockstep_verify source token runId) h,
    fun code identifier settings judge => indistinct_of_lockstep (lockstep_verify code identifier settings judge token) h⟩

/-- Two findings as they stand without marks, but with a fingerprint and with a number. -/
def twoMarkedFindings : String :=
  "\x7b\"results\":\x7b\"detectors\":[\x7b\"check\":\"a\",\"impact\":\"low\",\"fingerprint\":\"f\"\x7d,\x7b\"id\":7,\"check\":\"b\",\"impact\":\"low\"\x7d]\x7d\x7d"

open Verifier (twoFindings scanner scannerScene scannerPrelude)

def markedScene : Scene Int :=
  { scannerScene with course := { scannerScene.course with output := .file (Text.Utf8.encode twoMarkedFindings) } }

theorem alike_markedScene : scannerScene.Alike markedScene := by
  have hdecodes : ∀ {text : String} {d : Json}, '\r' ∉ text.toList → Json.read Json.usualLevels text = .ok d →
      Analyzer.Decodes Json.usualLevels (Text.Utf8.encode text) d := fun hlines hread =>
    ⟨_, Text.Utf8.decode?_encode _, by rwa [Text.Utf8.unifyLineEnds_eq_self hlines, String.ofList_toList]⟩
  have hplain : Json.read Json.usualLevels twoFindings =
      .ok (.obj [("results", .obj [("detectors", .arr [.obj [("check", .str "a"), ("impact", .str "low")],
        .obj [("check", .str "b"), ("impact", .str "low")]])])]) := by cbv
  have hmarked : Json.read Json.usualLevels twoMarkedFindings =
      .ok (.obj [("results", .obj [("detectors", .arr
        [.obj [("check", .str "a"), ("impact", .str "low"), ("fingerprint", .str "f")],
          .obj [("id", .int 7), ("check", .str "b"), ("impact", .str "low")]])])]) := by cbv
  refine .mk (Files.Tree.alike_refl _) (.mk (.file (.decoded (hdecodes ?_ hplain) (hdecodes ?_ hmarked) ?_)) fun _ _ h => h)
  · decide
  · decide
  · rfl

/-- The runs on the two results. -/
theorem verify_indistinct_marked : scannerScene.Alike markedScene ∧
    ∃ r t r' t', scanner.verify ⟨[], "a.sol"⟩ (some 0) (some "1") scannerScene = (.ok r, t) ∧ r.outcomes.length = 2 ∧
      scanner.verify ⟨[], "a.sol"⟩ (some 0) (some "1") markedScene = (.ok r', t') ∧ r'.unmarked = r.unmarked ∧
      t'.trace = t.trace := by
  obtain ⟨hreport, htrace, -⟩ := (verify_indistinct alike_markedScene (some 0)).1 scanner ⟨[], "a.sol"⟩ (some "1")
  obtain ⟨hlength, hsettled⟩ := Verifier.settled_scannerPrelude
  obtain ⟨r, t, hverify, houtcomes⟩ := scannerPrelude.verify_of_settled Verifier.shallow_scannerPrelude rfl hsettled
  rcases hmarked : scanner.verify ⟨[], "a.sol"⟩ (some 0) (some "1") markedScene with ⟨e | r', t'⟩
  · rw [hverify, hmarked] at hreport
    cases hreport
  · rw [hverify, hmarked] at hreport htrace
    exact ⟨alike_markedScene, r, t, r', t', hverify, houtcomes.trans hlength, rfl, (Except.ok.inj hreport).symm, htrace.symm⟩

end Adjudication
