import Adjudication.Proofs.CommandLine.Ends

/-!
What the exit of the command is worth. It is clean only for a run in which every detector entry of the results has been
judged and none that blocks has been found real; and where a report is delivered, the exit tells what the report holds. Code
1 is that of a report in which some finding blocks, but it is also that of a crash.
-/

namespace Adjudication

/-- An outcome that blocks: a finding that is real, and that counts, as all do unless only those of high severity do. -/
def Outcome.Blocks (onlyHigh : Bool) (o : Outcome) : Prop :=
  o.status = .real ∧ (onlyHigh = true → o.finding.severity = .high)

theorem Export.blocking_eq_zero_iff {r : Report} {onlyHigh : Bool} :
    blocking r onlyHigh = 0 ↔ ∀ o ∈ r.outcomes, ¬ o.Blocks onlyHigh := by
  rw [blocking, List.length_eq_zero_iff, List.filter_eq_nil_iff]
  refine forall₂_congr fun o _ => ?_
  cases onlyHigh <;> simp [Outcome.Blocks]

theorem Report.judgingFailed_eq_zero_iff {r : Report} :
    r.summary.judgingFailed = 0 ↔ ∀ o ∈ r.outcomes, o.status ≠ .judgingFailed := by
  have hcount : r.summary.judgingFailed = (r.outcomes.filter fun o => o.status = .judgingFailed).length := rfl
  rw [hcount, List.length_eq_zero_iff, List.filter_eq_nil_iff]
  simp

namespace CommandLine

variable {env : Environment} {args : List String} {s t : Scene Float}

/-! ### What a report comes to -/

theorem Exit.code_ofReport_of_error {r : Report} (onlyHigh : Bool) (h : r.error.isSome = true) :
    (Exit.ofReport r onlyHigh).code = 2 := by
  rw [ofReport, if_pos h, code]

/-- A report with a finding that blocks is told by that, whatever else could not be judged. -/
theorem Exit.code_ofReport_of_blocks {r : Report} {onlyHigh : Bool} (h : r.error = none)
    (hblocks : ∃ o ∈ r.outcomes, o.Blocks onlyHigh) : (Exit.ofReport r onlyHigh).code = 1 := by
  have hblocking : Export.blocking r onlyHigh ≠ 0 := fun hzero => by
    obtain ⟨o, ho, hblock⟩ := hblocks
    exact Export.blocking_eq_zero_iff.1 hzero o ho hblock
  rw [ofReport, h, if_neg (by simp), ofCounts, if_pos hblocking, code]

theorem Exit.code_ofReport_of_unjudged {r : Report} {onlyHigh : Bool} (h : r.error = none)
    (hclear : ∀ o ∈ r.outcomes, ¬ o.Blocks onlyHigh) (hunjudged : ∃ o ∈ r.outcomes, o.status = .judgingFailed) :
    (Exit.ofReport r onlyHigh).code = 3 := by
  have hfailed : r.summary.judgingFailed ≠ 0 := fun hzero => by
    obtain ⟨o, ho, hstatus⟩ := hunjudged
    exact Report.judgingFailed_eq_zero_iff.1 hzero o ho hstatus
  rw [ofReport, h, if_neg (by simp), Export.blocking_eq_zero_iff.2 hclear, ofCounts, if_neg (by simp), if_pos hfailed, code]

theorem Exit.code_ofReport_eq_zero_iff {r : Report} {onlyHigh : Bool} : (Exit.ofReport r onlyHigh).code = 0 ↔
    r.error = none ∧ (∀ o ∈ r.outcomes, ¬ o.Blocks onlyHigh) ∧ ∀ o ∈ r.outcomes, o.status ≠ .judgingFailed := by
  have hcode : (Exit.ofReport r onlyHigh).code = 0 ↔ Exit.ofReport r onlyHigh = .clean := by
    rw [ofReport, ofCounts]
    split_ifs <;> simp [code]
  rw [hcode, ofReport, ← Export.blocking_eq_zero_iff, ← Report.judgingFailed_eq_zero_iff, ← ofCounts_eq_clean_iff]
  cases r.error <;> simp

theorem Exit.code_ofReport_eq_one_iff {r : Report} {onlyHigh : Bool} : (Exit.ofReport r onlyHigh).code = 1 ↔
    r.error = none ∧ ∃ o ∈ r.outcomes, o.Blocks onlyHigh := by
  refine ⟨fun h => ?_, fun h => code_ofReport_of_blocks h.1 h.2⟩
  have herror : r.error = none := by
    cases herror : r.error with
    | none => rfl
    | some e =>
      rw [code_ofReport_of_error onlyHigh (by rw [herror]; rfl)] at h
      cases h
  refine ⟨herror, ?_⟩
  by_contra hclear
  have hclear : ∀ o ∈ r.outcomes, ¬o.Blocks onlyHigh := fun o ho hblocks => hclear ⟨o, ho, hblocks⟩
  by_cases hunjudged : ∃ o ∈ r.outcomes, o.status = .judgingFailed
  · rw [code_ofReport_of_unjudged herror hclear hunjudged] at h
    cases h
  · have hjudged : ∀ o ∈ r.outcomes, o.status ≠ .judgingFailed := fun o ho hstatus => hunjudged ⟨o, ho, hstatus⟩
    rw [code_ofReport_eq_zero_iff.2 ⟨herror, hclear, hjudged⟩] at h
    cases h

/-! ### An exit with nothing to object to -/

/-- Everything has been judged and nothing is against it: the analyzer has left results that can be read, each detector
entry of them has its judgment, and no judgment says real of a finding that counts. -/
def Opening.Clean (p : Opening env args s) : Prop :=
  ∃ (q : p.verifier.Prelude p.source (some p.token) none p.begun) (entries : List Json) (outcomes : List Outcome),
    Analyzer.Entries q.analyzed.host.levels q.analyzed.files q.document.file entries ∧ q.judged.1 = .ok outcomes ∧
    outcomes.length = entries.length ∧
    ∀ (i : Nat) (entry : Json), entries[i]? = some entry → ∃ f j, Analyzer.findingOf i entry = .ok f ∧
      outcomes[i]? = some ⟨f, .judged j⟩ ∧ (j.isReal = true → p.options.failOnHigh = true ∧ f.severity ≠ .high)

theorem Opening.workers_pos (p : Opening env args s) : 1 ≤ p.verifier.workers := Nat.le_max_left _ _

theorem Opening.clean_iff (p : Opening env args s) {r : Report} (h : p.verified = (.ok r, t)) :
    p.Clean ↔ (Exit.ofReport r p.options.failOnHigh).code = 0 := by
  rw [Exit.code_ofReport_eq_zero_iff]
  constructor
  · rintro ⟨q, entries, outcomes, -, hjudged, hlength, hall⟩
    obtain ⟨-, herror, rfl⟩ := q.report_of_judged hjudged h
    have hentry : ∀ o ∈ r.outcomes, ∃ f j, o = ⟨f, .judged j⟩ ∧
        (j.isReal = true → p.options.failOnHigh = true ∧ f.severity ≠ .high) := fun o ho => by
      obtain ⟨i, hi, hio⟩ := List.getElem_of_mem ho
      obtain ⟨f, j, -, hof, hreal⟩ := hall i _ (List.getElem?_eq_getElem (hlength ▸ hi))
      exact ⟨f, j, Option.some.inj ((hio ▸ List.getElem?_eq_getElem hi).symm.trans hof), hreal⟩
    refine ⟨herror, fun o ho hblocks => ?_, fun o ho => ?_⟩
    · obtain ⟨f, j, rfl, hreal⟩ := hentry o ho
      have hj : j.isReal = true := by simpa [Outcome.status] using hblocks.1
      exact (hreal hj).2 (hblocks.2 (hreal hj).1)
    · obtain ⟨f, j, rfl, -⟩ := hentry o ho
      cases hj : j.isReal <;> simp [Outcome.status, hj]
  · rintro ⟨herror, hclear, hjudged⟩
    obtain ⟨q, houtcomes⟩ := Verifier.prelude_of_verify h herror
    obtain ⟨entries, hentries, hlength, hall⟩ := q.judgment_of_entry p.workers_pos houtcomes hjudged
    refine ⟨q, entries, r.outcomes, hentries, houtcomes, hlength, fun i entry he => ?_⟩
    obtain ⟨f, j, hf, hj⟩ := hall i entry he
    refine ⟨f, j, hf, hj, fun hreal => ?_⟩
    have hnot := hclear _ (List.mem_of_getElem? hj)
    simpa [Outcome.Blocks, Outcome.status, hreal] using hnot

/-! ### The code -/

/-- Code 0, where no help is asked for, is that of a report that has been exported. -/
theorem exported_of_code (hhelp : Request.ofArguments? s.files args ≠ some .help) (hcode : (invoke env args s).1.code = 0) :
    ∃ (p : Opening env args s) (r : Report) (t : Scene Float), p.verified = (.ok r, t) ∧ p.Exported r t := by
  obtain ⟨exit, hends⟩ := exists_ends env args s
  rw [invoke_of_ends hends] at hcode
  cases hends with
  | helped h => exact absurd h hhelp
  | delivered p h hexported => exact ⟨p, _, _, h, hexported⟩
  | _ => cases hcode

/-- Unless help is asked for, code 0 is that of a clean run only. Where a report can be exported, a clean run has code 0,
a finding that blocks gives 1, one that could not be judged gives 3 if there is none, and an error gives 2. A run that
is cancelled has code 130, if the console takes what is said of that. -/
theorem code_invoke (hhelp : Request.ofArguments? s.files args ≠ some .help) :
    ((invoke env args s).1.code = 0 →
      ∃ (p : Opening env args s) (r : Report) (t : Scene Float), p.verified = (.ok r, t) ∧ p.Clean) ∧
    ∀ p : Opening env args s,
      (∀ during t, p.verified = (.error (.cancelled during), t) →
        s.host.Takes (.line (Colour.yellow.around (dropped during))) → (invoke env args s).1.code = 130) ∧
      ∀ r t, p.verified = (.ok r, t) → p.Exported r t →
        (p.Clean → (invoke env args s).1.code = 0) ∧
        (r.status = .success → (∃ o ∈ r.outcomes, o.Blocks p.options.failOnHigh) → (invoke env args s).1.code = 1) ∧
        (r.status = .success → (∀ o ∈ r.outcomes, ¬ o.Blocks p.options.failOnHigh) →
          (∃ o ∈ r.outcomes, o.status = .judgingFailed) → (invoke env args s).1.code = 3) ∧
        (r.error.isSome = true → (invoke env args s).1.code = 2) := by
  refine ⟨fun hcode => ?_, fun p => ⟨fun during t hcancelled htold => ?_, fun r t hverified hexported => ?_⟩⟩
  · obtain ⟨p, r, t, hverified, hexported⟩ := exported_of_code hhelp hcode
    rw [invoke_of_exported p hverified hexported] at hcode
    exact ⟨p, r, t, hverified, (p.clean_iff hverified).2 hcode⟩
  · rw [invoke_of_ok (run_of_cancelled p hcancelled htold), Exit.code]
  · have hsuccess : r.status = .success ↔ r.error = none := Verifier.status_of_verify hverified
    rw [invoke_of_exported p hverified hexported]
    exact ⟨(p.clean_iff hverified).1, fun h => Exit.code_ofReport_of_blocks (hsuccess.1 h),
      fun h => Exit.code_ofReport_of_unjudged (hsuccess.1 h), Exit.code_ofReport_of_error _⟩

/-- Results with a finding of low severity and one of high severity. -/
def auditResults : String :=
  "\x7b\"results\": \x7b\"detectors\": [\x7b\"check\": \"a\", \"impact\": \"Low\"\x7d, " ++
    "\x7b\"check\": \"b\", \"impact\": \"High\"\x7d]\x7d\x7d"

/-- A judge by whom the finding of low severity is real and any other one is not. -/
def auditService : Judge.Service Float :=
  .ofScripts 0.0 [("a", [Judge.Service.standard 0.0])]
    [⟨0.0, false, none, .choices [some "\x7b\"is_real_vulnerability\": false\x7d"]⟩]

/-- A scene with a file to be verified. -/
def auditScene : Scene Float :=
  { Scene.ofService auditService (.file (Text.Utf8.encode auditResults)) with
    files := ⟨[(["a.sol"], .file [])], []⟩, patience := 2 }

def auditKey : Environment := ⟨none, none, some "key"⟩

/-- Where only findings of high severity count, the command has nothing to object to in that file. -/
theorem code_invoke_audit :
    Request.ofArguments? auditScene.files ["a.sol", "--fail-on-high"] ≠ some .help ∧
      (invoke auditKey ["a.sol", "--fail-on-high"] auditScene).1.code = 0 ∧
      ∃ (p : Opening auditKey ["a.sol", "--fail-on-high"] auditScene) (r : Report) (t : Scene Float),
        p.verified = (.ok r, t) ∧ p.Clean := by
  have hgiven : (Request.ofArguments? auditScene.files ["a.sol", "--fail-on-high"]).any
      (fun request => request matches .run _) = true := by decide +kernel
  have hhelp : Request.ofArguments? auditScene.files ["a.sol", "--fail-on-high"] ≠ some .help := by
    intro hhelp
    rw [hhelp] at hgiven
    cases hgiven
  have hcode : (invoke auditKey ["a.sol", "--fail-on-high"] auditScene).1.code = 0 := by decide +kernel
  exact ⟨hhelp, hcode, (code_invoke hhelp).1 hcode⟩

/-! ### An exit with something to object to -/

/-- A scene in which a directory is in the place of the report. The analyzer finds nothing. -/
def directoryScene : Scene Float :=
  { Scene.ofService auditService (.file (Text.Utf8.encode "\x7b\"success\": true, \"results\": \x7b\x7d\x7d")) with
    files := ⟨[(["a.sol"], .file []), (["reports"], .directory)], []⟩, patience := 2 }

/-- Whether a verification is a success in which there is nothing to tell. -/
def Opening.isSpotless (p : Opening env args s) : Bool :=
  p.verified.1.toOption.any fun r => r.status == .success && r.outcomes.isEmpty

theorem Opening.of_isSpotless {p : Opening env args s} (h : p.isSpotless = true) :
    ∃ r t, p.verified = (.ok r, t) ∧ r.status = .success ∧ r.outcomes = [] := by
  obtain ⟨r, t, hverified, hspotless⟩ := Act.eq_ok_of_any h
  obtain ⟨hstatus, houtcomes⟩ := (Bool.and_eq_true _ _).mp hspotless
  exact ⟨r, t, hverified, eq_of_beq hstatus, List.isEmpty_iff.1 houtcomes⟩

end CommandLine
end Adjudication
