import Adjudication.Export.Records
import Adjudication.Proofs.Verification.Fitting

/-!
The document of a report. Reading it gives back the value that was written, and that value passes for the report that it is of:
the counts, which no field holds, are left aside, and they are those of the report that is read.
-/

namespace Adjudication

open Decimal (Short)

namespace Report

theorem short_count {r : Report} (h : Short r.outcomes.length) (s : Status) : Short (r.count s) := by
  have hle : r.count s ≤ r.outcomes.length := List.length_filter_le _ _
  rw [Decimal.short_iff] at h ⊢
  omega

theorem legible_summary {levels : Nat} {r : Report} (h : Short r.outcomes.length) :
    Json.Legible (levels + 1) r.summary.toJson := by
  refine .obj (by simp [Json.Members.names, Summary.members]) ?_
  simp only [Summary.members, List.map_cons, List.map_nil, List.forall_mem_cons]
  exact ⟨.int h, .int (short_count h _), .int (short_count h _), .int (short_count h _), List.forall_mem_nil _⟩

end Report

namespace Export

variable {levels : Nat}

/-- A document is written as a text with a line end behind it. -/
theorem documentText_eq (r : Report) :
    documentText r = .ofCodes (Json.write documentStyle 0 (document r) ++ [Json.Sign.lineEnd]) := by
  rw [documentText, documentChunks, List.flatten_append, Json.flatten_chunks, List.flatten_singleton]

/-- A document is written as characters just if no text of the report is torn. -/
theorem exists_documentText_iff {r : Report} : (∃ text, documentText r = .text text) ↔ (document r).isWhole = true := by
  rw [documentText_eq]
  simp only [Text.Wide.ofCodes_eq_text_iff, exists_and_left, exists_eq, and_true, List.any_append, Json.any_isSurrogate_write]
  cases (document r).isWhole <;> decide

/-- A document is read back if neither the exit code nor the number of outcomes is too long for an integer. -/
theorem legible_document {r : Report} (h : r.Fits) (hcode : ∀ code ∈ r.analyzerExitCode, Short code)
    (hcount : Short r.outcomes.length) : Json.Legible (levels + 6) (document r) := by
  refine .obj (by simp [Json.Members.names, Report.members]) ?_
  simp only [Report.members, List.forall_mem_append, List.forall_mem_cons]
  exact ⟨⟨legible_ofWide _, .str _, .str _, .str _, legible_text _, legible_int hcode,
    legible_map fun o ho => Outcome.legible (h.outcomes o ho),
    legible_ofOption fun e he => RunError.legible fun code hmem => hcode code (h.error e he ▸ hmem),
    legible_map fun s _ => legible_ofWide s, List.forall_mem_nil _⟩, Report.legible_summary hcount, List.forall_mem_nil _⟩

theorem readWide_documentText {r : Report} (h : r.Fits) (hwhole : (document r).isWhole = true)
    (hcode : ∀ code ∈ r.analyzerExitCode, Short code) (hcount : Short r.outcomes.length) (hlevels : 6 ≤ levels) :
    Json.readWide levels (documentText r) = .ok (document r) := by
  obtain ⟨more, rfl⟩ := Nat.exists_eq_add_of_le' hlevels
  rw [documentText_eq]
  exact (legible_document h hcode hcount).readWide_write hwhole documentStyle fun _ hmem => List.mem_singleton.1 hmem

end Export

namespace Verifier

open Export

variable {v : Verifier Float} {source : Source} {given : Option Time.TokenId} {runId : Option String}
  {s t : Scene Float} {r : Report}

/-- The document of a report in which no text is torn is read back as the report in all its fields. Its counts and the
statuses of its outcomes, which are written but belong to no field, are those of the report read. -/
theorem verify_document_read (h : v.verify source given runId s = (.ok r, t)) (hwhole : (document r).isWhole = true)
    (hcode : ∀ code ∈ r.analyzerExitCode, Short code) (hcount : Short r.outcomes.length) {levels : Nat} (hlevels : 6 ≤ levels) :
    ∃ text d r', documentText r = .text text ∧ Json.read levels text = .ok d ∧
      Schema.validate "VerificationReport" Report.check d = .ok r' ∧ r' = r ∧
      d.get? "summary" = some r'.summary.toJson ∧
      ∃ entries, d.get? "outcomes" = some (.arr entries) ∧
        entries.map (fun entry => entry.get? "status") = r'.outcomes.map fun o => some (.str o.status.name) := by
  have hfits := fits_of_verify h
  obtain ⟨text, htext⟩ := exists_documentText_iff.2 hwhole
  have hread := readWide_documentText hfits hwhole hcode hcount hlevels
  rw [htext] at hread
  refine ⟨text, document r, r, htext, hread, ?_, rfl, rfl, _, rfl, ?_⟩
  · rw [Schema.validate, document, Report.check_members hfits]
  · rw [List.map_map]
    rfl

/-- The document of a run in which one finding is judged and the other one is not. -/
theorem verify_document_read_recorder :
    ∃ r t, recorder.verify ⟨[], "a.sol"⟩ (some 0) (some "1") recorderScene = (.ok r, t) ∧
      (document r).isWhole = true ∧ (∀ code ∈ r.analyzerExitCode, Short code) ∧ Short r.outcomes.length ∧
      ∃ text d r', documentText r = .text text ∧ Json.read Json.usualLevels text = .ok d ∧
        Schema.validate "VerificationReport" Report.check d = .ok r' ∧
        r'.outcomes.map (fun o => o.judgment?.bind Judgment.confidence) = [none, some 0.9] := by
  obtain ⟨r, t, hverify, houtcomes, hexit, hwhole⟩ := verify_recorder
  obtain ⟨-, hcode, hcount⟩ := short_recorder houtcomes hexit
  have hlevels : 6 ≤ Json.usualLevels := by decide
  obtain ⟨text, d, r', htext, hd, hr', heq, -⟩ := verify_document_read hverify hwhole hcode hcount hlevels
  exact ⟨r, t, hverify, hwhole, hcode, hcount, text, d, r', htext, hd, hr', heq ▸ houtcomes⟩

end Verifier
end Adjudication
