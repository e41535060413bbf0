import Adjudication.Proofs.Limits
import Adjudication.Proofs.Verification.Judged

/-!
Results that cannot be read. Whatever bytes a file of results holds, and also where there is no file, reading findings comes
to findings or to a failure of the results, unless the text goes beyond the limits of JSON. Then the failure is that one,
and a verification ends without a report.
-/

namespace Adjudication

open Time (TokenId)

/-! ### Files of results -/

namespace Analyzer

variable {levels : Nat} {t : Files.Tree} {file : Files.Path} {e : Json.Excess}

/-- The text in a file goes beyond the limits of JSON. -/
def Beyond (levels : Nat) (t : Files.Tree) (file : Files.Path) (e : Json.Excess) : Prop :=
  ∃ text, t.readText file = .ok text ∧ Json.readWide levels text = .error (.excess e)

theorem findingsOfFile_of_beyond (h : Beyond levels t file e) : findingsOfFile levels t file = .error (.excess e) := by
  obtain ⟨text, htext, hread⟩ := h
  rw [findingsOfFile, htext]
  simp only [findingsOfText, hread]

/-- A file that cannot be read makes malformed results. -/
theorem findingsOfFile_of_unreadable (hnull : file.text.toList.contains '\x00' = false) {reason : Files.Fault}
    (h : t.readText file = .error reason) : findingsOfFile levels t file = .error (.results (.unreadable file reason)) := by
  rw [findingsOfFile, h]
  cases reason with
  | nullInPath => exact absurd h (Files.Tree.readText_ne_null hnull)
  | refused | notText | tooDeep => rfl

/-- Within the limits there are findings or a failure of the results. -/
theorem findingsOfFile_of_not_beyond (hnull : file.text.toList.contains '\x00' = false) (h : ∀ e, ¬Beyond levels t file e) :
    (∃ fs, findingsOfFile levels t file = .ok fs) ∨ ∃ r, findingsOfFile levels t file = .error (.results r) := by
  cases htext : t.readText file with
  | error reason => exact .inr ⟨_, findingsOfFile_of_unreadable hnull htext⟩
  | ok text =>
    rw [findingsOfFile, htext]
    cases hread : Json.readWide levels text with
    | error e =>
      cases e with
      | excess e => exact absurd ⟨text, htext, hread⟩ (h e)
      | malformed problem line column index => exact .inr ⟨_, by simp only [findingsOfText, hread]; rfl⟩
    | ok d =>
      simp only [findingsOfText, hread]
      cases findingsOf d with
      | ok fs => exact .inl ⟨fs, rfl⟩
      | error r => exact .inr ⟨r, rfl⟩

theorem findingsOfFile_iff (hnull : file.text.toList.contains '\x00' = false) :
    ((∃ fs, findingsOfFile levels t file = .ok fs) ∨ ∃ r, findingsOfFile levels t file = .error (.results r)) ↔
      ∀ e, ¬Beyond levels t file e := by
  refine ⟨fun h e he => ?_, findingsOfFile_of_not_beyond hnull⟩
  rw [findingsOfFile_of_beyond he] at h
  simp at h

end Analyzer

/-! ### Runs of the analyzer that leave results -/

namespace Verifier

variable {σ : Type} [Time.Seconds σ] {v : Verifier σ} {source : Source} {given : Option TokenId} {runId : Option String}
  {s : Scene σ}

/-- How a run comes to results: the source is staged, the token is not cancelled, and the analyzer leaves a document. -/
structure Analyzed (v : Verifier σ) (source : Source) (given : Option TokenId) (runId : Option String) (s : Scene σ) where
  slot : Slot
  document : Analyzer.Document
  staged : Scene σ
  heeded : Scene σ
  analyzed : Scene σ
  started : ∃ m, s.moment = .ok m
  stage_eq : v.stage source runId (opened source given s).2 = (.ok slot, staged)
  heed_eq : Run.heed (some (opened source given s).1) staged = (.ok (), heeded)
  run_eq : Analyzer.run v.command v.timeout slot.source slot.output (some (opened source given s).1) heeded =
    (.ok document, analyzed)

/-- A run that comes to judging has come to results. -/
def Prelude.toAnalyzed (p : Prelude v source given runId s) : Analyzed v source given runId s :=
  ⟨p.slot, p.document, p.staged, p.heeded, p.analyzed, p.started, p.stage_eq, p.heed_eq, p.run_eq⟩

namespace Analyzed

/-- What is read off the results. -/
def read (p : Analyzed v source given runId s) : Except Failure (List Finding) :=
  Analyzer.findingsOfFile p.analyzed.host.levels p.analyzed.files p.document.file

/-- A run comes to judging with the findings that are read. -/
def prelude (p : Analyzed v source given runId s) {fs : List Finding} (h : p.read = .ok fs) :
    Prelude v source given runId s :=
  ⟨p.slot, p.document, fs, p.staged, p.heeded, p.analyzed, p.started, p.stage_eq, p.heed_eq, p.run_eq, h⟩

/-- The results go beyond the limits of JSON. -/
def Exceeds (p : Analyzed v source given runId s) (e : Json.Excess) : Prop :=
  Analyzer.Beyond p.analyzed.host.levels p.analyzed.files p.document.file e

/-- There are more levels of directories in the slot then than can be removed. -/
def TooDeep (p : Analyzed v source given runId s) : Prop := Staging.TooDeep p.slot p.analyzed

variable (p : Analyzed v source given runId s)

theorem not_null : p.document.file.text.toList.contains '\x00' = false :=
  Files.Tree.not_null_of_hasContent (Analyzer.hasContent_of_run p.run_eq)

theorem outcome_run : Run.outcome (Analyzer.run v.command v.timeout p.slot.source p.slot.output
    (some (opened source given s).1)) p.heeded = (.ok (.ok p.document), p.analyzed) := by
  rw [Run.outcome_run, p.run_eq]

theorem inSlot_of_results {r : ResultsError} (h : p.read = .error (.results r)) :
    v.inSlot source (opened source given s).1 p.slot p.staged =
      (.ok (fatal .parser r.kind r.message (some p.document.exitCode)),
        p.analyzed.noting [(.error, .text "Cannot parse analyzer output: " ++ r.text)]) := by
  rw [inSlot, Act.bind_of_ok p.heed_eq, Act.bind_of_ok p.outcome_run]
  dsimp only
  rw [Act.bind_of_ok (findings_run_of_results h)]
  rfl

theorem inSlot_of_exceeds {e : Json.Excess} (h : p.Exceeds e) :
    v.inSlot source (opened source given s).1 p.slot p.staged = (.error (.excess e), p.analyzed) := by
  have hread := Analyzer.findingsOfFile_of_beyond h
  rw [inSlot, Act.bind_of_ok p.heed_eq, Act.bind_of_ok p.outcome_run]
  dsimp only
  rw [Act.bind_of_error (findings_run_of_error hread fun cause => by simp)]

/-- A slot that is not too deep is released. The files are then as the analyzer has left them. -/
theorem released (hshallow : ¬p.TooDeep) {x : Except Failure Unit} {lines : List (Level × Text.Wide)}
    (h : ∀ e, x = .error e → e = .file (.tooDeep .removing) ∧ Staging.TooDeep p.slot (p.analyzed.noting lines)) :
    x = .ok () := by
  cases x with
  | ok => rfl
  | error e => exact absurd (h e rfl).2 hshallow

/-- Results that cannot be read make a report of a run that failed. -/
theorem verify_of_results (hshallow : ¬p.TooDeep) {r : ResultsError} (h : p.read = .error (.results r)) {m : Time.Timestamp}
    (hm : p.analyzed.moment = .ok m) : ∃ report t, v.verify source given runId s = (.ok report, t) ∧
      report.status = .failed ∧ report.error = some ⟨.parser, r.kind, r.message, some p.document.exitCode⟩ := by
  obtain ⟨m₀, hstarted⟩ := p.started
  obtain ⟨x, es, files, lines, hverify, hfails⟩ := verify_of_slot hstarted p.stage_eq
  rw [p.inSlot_of_results h] at hverify hfails
  obtain rfl : x = .ok () := p.released hshallow hfails
  let ending := fatal .parser r.kind r.message (some p.document.exitCode)
  refine ⟨v.report source m₀ m ending (es.map StagingError.text), _, hverify.trans (Prod.ext ?_ rfl), rfl, rfl⟩
  show v.reported source m₀ (.ok (ending, es.map StagingError.text)) p.analyzed.moment = _
  rw [reported, hm]
  rfl

/-- Results beyond the limits leave no report. -/
theorem verify_of_exceeds (hshallow : ¬p.TooDeep) {e : Json.Excess} (h : p.Exceeds e) :
    ∃ t, v.verify source given runId s = (.error (.excess e), t) := by
  obtain ⟨m, hstarted⟩ := p.started
  obtain ⟨x, es, files, lines, hverify, hfails⟩ := verify_of_slot hstarted p.stage_eq
  rw [p.inSlot_of_exceeds h] at hverify hfails
  obtain rfl : x = .ok () := p.released hshallow (Scene.noting_nil p.analyzed ▸ hfails)
  exact ⟨_, hverify⟩

/-- The run comes to its end: if findings are read, their judging comes to outcomes, and the clock shows an instant when the
report is made. -/
structure Finishes : Prop where
  judged : ∀ fs (h : p.read = .ok fs), ∃ outcomes m, (p.prelude h).judged.1 = .ok outcomes ∧
    (p.prelude h).judged.2.moment = .ok m
  unread : ∀ r, p.read = .error (.results r) → ∃ m, p.analyzed.moment = .ok m

/-- A report that tells what the results have come to: a success with the outcomes of what is read, or a failure to read
them. -/
def Reported (report : Report) : Prop :=
  (∃ fs, ∃ h : p.read = .ok fs, report.status = .success ∧ report.error = none ∧
    (p.prelude h).judged.1 = .ok report.outcomes) ∨
  ∃ r, p.read = .error (.results r) ∧ report.status = .failed ∧
    report.error = some ⟨.parser, r.kind, r.message, some p.document.exitCode⟩

theorem reported_iff (hshallow : ¬p.TooDeep) (hfinishes : p.Finishes) :
    (∃ report t, v.verify source given runId s = (.ok report, t) ∧ p.Reported report) ↔ ∀ e, ¬p.Exceeds e := by
  constructor
  · rintro ⟨report, t, hverify, -⟩ e he
    obtain ⟨u, hfailed⟩ := p.verify_of_exceeds hshallow he
    simp [hverify] at hfailed
  · intro h
    rcases Analyzer.findingsOfFile_of_not_beyond p.not_null h with ⟨fs, hfs⟩ | ⟨r, hr⟩
    · obtain ⟨outcomes, m, hjudged, hm⟩ := hfinishes.judged fs hfs
      obtain ⟨report, t, hverify, hstatus, herror, rfl⟩ := (p.prelude hfs).verify_of_ok hshallow hjudged hm
      exact ⟨report, t, hverify, .inl ⟨fs, hfs, hstatus, herror, hjudged⟩⟩
    · obtain ⟨m, hm⟩ := hfinishes.unread r hr
      obtain ⟨report, t, hverify, hstatus, herror⟩ := p.verify_of_results hshallow hr hm
      exact ⟨report, t, hverify, .inr ⟨r, hr, hstatus, herror⟩⟩

end Analyzed

/-- What results can do, whatever bytes the analyzer has left.
* Reading the file, if its path can be a path at all, comes to findings or to a failure of the results, just if the text is
  within the limits of JSON; otherwise that is the failure. A file that cannot be read, or whose bytes are no text, makes
  malformed results.
* A run that has come to results has a report, of the outcomes of its findings or of the failure to read them, just if the
  results are within the limits; otherwise it ends in that failure. The run has to come to its end, and its slot must not
  be too deep to be released. -/
theorem results_survived :
    (∀ (levels : Nat) (t : Files.Tree) (file : Files.Path), file.text.toList.contains '\x00' = false →
      (((∃ fs, Analyzer.findingsOfFile levels t file = .ok fs) ∨ ∃ r,
        Analyzer.findingsOfFile levels t file = .error (.results r)) ↔
        ∀ e, ¬Analyzer.Beyond levels t file e) ∧
      (∀ e, Analyzer.Beyond levels t file e → Analyzer.findingsOfFile levels t file = .error (.excess e)) ∧
      ∀ reason, t.readText file = .error reason →
        ∃ r, Analyzer.findingsOfFile levels t file = .error (.results r) ∧ r.kind = "malformed") ∧
    ∀ (v : Verifier σ) (source : Source) (given : Option TokenId) (runId : Option String) (s : Scene σ)
      (p : Analyzed v source given runId s), ¬p.TooDeep → p.Finishes →
      ((∃ report t, v.verify source given runId s = (.ok report, t) ∧ p.Reported report) ↔ ∀ e, ¬p.Exceeds e) ∧
      ∀ e, p.Exceeds e → ∃ t, v.verify source given runId s = (.error (.excess e), t) :=
  ⟨fun _ _ _ hnull => ⟨Analyzer.findingsOfFile_iff hnull, fun _ => Analyzer.findingsOfFile_of_beyond,
      fun _ h => ⟨_, Analyzer.findingsOfFile_of_unreadable hnull h, rfl⟩⟩,
    fun _ _ _ _ _ p hshallow hfinishes => ⟨p.reported_iff hshallow hfinishes, fun _ => p.verify_of_exceeds hshallow⟩⟩

/-- A run that comes to judging has results within the limits. -/
theorem Prelude.not_exceeds (p : Prelude v source given runId s) (e : Json.Excess) : ¬p.toAnalyzed.Exceeds e := by
  intro h
  have hread := (Analyzer.findingsOfFile_of_beyond h).symm.trans p.findings_eq
  cases hread

theorem Prelude.not_beyond (p : Prelude v source given runId s) (e : Json.Excess) :
    ¬Analyzer.Beyond p.toAnalyzed.analyzed.host.levels p.toAnalyzed.analyzed.files p.toAnalyzed.document.file e := p.not_exceeds e

theorem Prelude.not_tooDeep_toAnalyzed (p : Prelude v source given runId s) (h : ¬p.TooDeep) : ¬p.toAnalyzed.TooDeep := h

theorem Prelude.finishes (p : Prelude v source given runId s) {outcomes : List Outcome} (h : p.judged.1 = .ok outcomes)
    (hm : ∃ m, p.judged.2.moment = .ok m) : p.toAnalyzed.Finishes := by
  have hread : p.toAnalyzed.read = .ok p.findings := p.findings_eq
  obtain ⟨m, hm⟩ := hm
  refine ⟨fun fs hfs => ?_, fun r hr => ?_⟩
  · obtain rfl := Except.ok.inj (hread.symm.trans hfs)
    exact ⟨outcomes, m, h, hm⟩
  · rw [hread] at hr
    cases hr

theorem finishes_scanner : scannerPrelude.toAnalyzed.Finishes := by
  obtain ⟨hheed, hsettles, -⟩ := scannerPrelude.settled_iff.1 settled_scannerPrelude.2
  obtain ⟨outcomes, hjudged, -⟩ := scannerPrelude.judged_of_settles (.inl rfl) hheed hsettles
  exact scannerPrelude.finishes (congrArg Prod.fst hjudged) finished_scannerPrelude

/-- The scanned source has results within the limits, which can be read, and a report of them. -/
theorem results_survived_scanner : scannerPrelude.toAnalyzed.document.file.text.toList.contains '\x00' = false ∧
    ¬scannerPrelude.toAnalyzed.TooDeep ∧ scannerPrelude.toAnalyzed.Finishes ∧
    ((∃ fs, Analyzer.findingsOfFile scannerPrelude.toAnalyzed.analyzed.host.levels scannerPrelude.toAnalyzed.analyzed.files
      scannerPrelude.toAnalyzed.document.file = .ok fs) ∨
      ∃ r, Analyzer.findingsOfFile scannerPrelude.toAnalyzed.analyzed.host.levels scannerPrelude.toAnalyzed.analyzed.files
      scannerPrelude.toAnalyzed.document.file =
        .error (.results r)) ∧
    ∃ report t, scanner.verify ⟨[], "a.sol"⟩ (some 0) (some "1") scannerScene = (.ok report, t) ∧
      scannerPrelude.toAnalyzed.Reported report := by
  have hnull := scannerPrelude.toAnalyzed.not_null
  have hshallow := scannerPrelude.not_tooDeep_toAnalyzed shallow_scannerPrelude
  have hfile := (results_survived (σ := Int)).1 scannerPrelude.toAnalyzed.analyzed.host.levels
    scannerPrelude.toAnalyzed.analyzed.files _ hnull
  have hrun := (results_survived (σ := Int)).2 _ _ _ _ _ scannerPrelude.toAnalyzed hshallow finishes_scanner
  exact ⟨hnull, hshallow, finishes_scanner, hfile.1.2 scannerPrelude.not_beyond, hrun.1.2 scannerPrelude.not_exceeds⟩

/-- A tree with a file of results that is an integer of so many ones. -/
def onesTree (n : Nat) : Files.Tree := ⟨[(["results.json"], .file (Text.Utf8.encode (ones n)))], []⟩

def resultsPath : Files.Path := ⟨.root, ["results.json"]⟩

theorem readText_onesTree (n : Nat) : (onesTree n).readText resultsPath = .ok (ones n) := by
  have hreach : (onesTree n).reach resultsPath = .ok ["results.json"] := rfl
  have hget : (onesTree n).get? ["results.json"] = some (.file (Text.Utf8.encode (ones n))) := by
    simp [Files.Tree.get?, onesTree]
  exact Files.Tree.readText_of_encoded (Files.Tree.read_of_file hreach hget) (by simp [ones])

/-- A file of an integer of too many digits brings neither findings nor a failure of the results. -/
theorem findingsOfFile_onesTree : resultsPath.text.toList.contains '\x00' = false ∧
    Analyzer.findingsOfFile Json.usualLevels (onesTree 4301) resultsPath = .error (.excess (.digits 4301)) :=
  ⟨by decide, Analyzer.findingsOfFile_of_beyond ⟨_, readText_onesTree 4301, Json.readWide_ones (by decide) _⟩⟩

end Verifier
end Adjudication
