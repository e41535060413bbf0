import Adjudication.Proofs.Verification.Ending

/-!
Verifications that come to judging. A report without an error is the report of such a run: its outcomes are what judging
has come to, one for every detector entry of the results, in their order.
-/

namespace Adjudication.Verifier

open Time (TokenId)

variable {σ : Type} [Time.Seconds σ] {v : Verifier σ} {source : Source} {given : Option TokenId} {runId : Option String}
  {s t : Scene σ} {r : Report}

/-- A report tells of a success just if it has no error. -/
theorem status_of_verify (h : v.verify source given runId s = (.ok r, t)) : r.status = .success ↔ r.error = none := by
  obtain ⟨startedAt, finishedAt, ending, warnings, u, -, rfl⟩ := reports_of_verify h
  cases he : ending.error <;> simp [report, he]

/-- A report without an error is that of a run that has come to judging. -/
theorem prelude_of_verify (h : v.verify source given runId s = (.ok r, t)) (herror : r.error = none) :
    ∃ p : Prelude v source given runId s, p.judged.1 = .ok r.outcomes := by
  obtain ⟨startedAt, finishedAt, ending, warnings, u, hreports, rfl⟩ := reports_of_verify h
  obtain ⟨p, hjudged⟩ := hreports.ends.prelude herror
  exact ⟨p, congrArg Prod.fst hjudged⟩

namespace Prelude

/-- The report of a run that has come to outcomes holds them and no error. -/
theorem report_of_judged (p : Prelude v source given runId s) {outcomes : List Outcome}
    (h : p.judged.1 = .ok outcomes) (hverify : v.verify source given runId s = (.ok r, t)) :
    r.status = .success ∧ r.error = none ∧ r.outcomes = outcomes := by
  obtain ⟨startedAt, x, warnings, u, hrun, -⟩ := p.verify_run fun cause => by simp [h]
  rw [hverify, h] at hrun
  obtain ⟨ending, warnings, finishedAt, hending, -, rfl⟩ := reported_eq_ok (congrArg Prod.fst hrun).symm
  cases x with
  | error e => cases hending
  | ok =>
  obtain ⟨rfl, -⟩ := Prod.ext_iff.1 (Except.ok.inj hending)
  exact ⟨rfl, rfl, rfl⟩

/-- The outcomes of a run are those of its findings, in their order. -/
theorem finding_of_judged (p : Prelude v source given runId s) (hworkers : 1 ≤ v.workers) {outcomes : List Outcome}
    (h : p.judged.1 = .ok outcomes) : outcomes.length = p.findings.length ∧
      ∀ (i : Nat) (o : Outcome), outcomes[i]? = some o → p.findings[i]? = some o.finding := by
  have hgathered := Judge.judgeAll_gathered hworkers
    (Judge.permits_sound v.judge source.text (Judge.scope v.workers p.token p.findings p.scene).1 p.findings
      (Judge.scope v.workers p.token p.findings p.scene).2)
  have hjudged : (Judge.judgeAll v.judge v.workers source.text p.token p.findings p.scene).1 = .ok outcomes := h
  rw [hjudged] at hgathered
  obtain ⟨hlength, hall⟩ := hgathered
  refine ⟨hlength, fun i o ho => ?_⟩
  obtain ⟨f, hf, hof⟩ := hall i o ho
  exact hf.trans (congrArg some (Outcome.Of.finding_eq hof).symm)

/-- If every finding has been judged, every detector entry of the results has its judgment, and only they have. -/
theorem judgment_of_entry (p : Prelude v source given runId s) (hworkers : 1 ≤ v.workers) {outcomes : List Outcome}
    (h : p.judged.1 = .ok outcomes) (hjudged : ∀ o ∈ outcomes, o.status ≠ .judgingFailed) :
    ∃ entries, Analyzer.Entries p.analyzed.host.levels p.analyzed.files p.document.file entries ∧
    outcomes.length = entries.length ∧
      ∀ (i : Nat) (entry : Json), entries[i]? = some entry → ∃ f j, Analyzer.findingOf i entry = .ok f ∧
        outcomes[i]? = some ⟨f, .judged j⟩ := by
  obtain ⟨entries, hentries, hfindings⟩ := Analyzer.findingsOfFile_eq_ok p.findings_eq
  obtain ⟨hcount, hentry⟩ := Analyzer.findingsFrom_eq_ok hfindings
  obtain ⟨hlength, hfinding⟩ := p.finding_of_judged hworkers h
  refine ⟨entries, hentries, hlength.trans hcount, fun i entry he => ?_⟩
  obtain ⟨f, hf, hof⟩ := hentry i entry he
  rw [Nat.zero_add] at hof
  obtain ⟨o, ho⟩ : ∃ o, outcomes[i]? = some o := by
    obtain ⟨hi, -⟩ := List.getElem?_eq_some_iff.1 hf
    exact ⟨_, List.getElem?_eq_getElem (hlength ▸ hi)⟩
  obtain rfl : f = o.finding := Option.some.inj (hf.symm.trans (hfinding i o ho))
  obtain ⟨finding, ruling⟩ := o
  cases ruling with
  | judged j => exact ⟨finding, j, hof, ho⟩
  | failed record => exact absurd rfl (hjudged _ (List.mem_of_getElem? ho))

end Prelude
end Adjudication.Verifier
