import Adjudication.Export.Records
import Adjudication.Proofs.Analyzer.Acceptance
import Adjudication.Proofs.Json.Bounds
import Adjudication.Proofs.Json.Whole
import Adjudication.Proofs.Judge.Attempts
import Adjudication.Proofs.Report.Fields
import Adjudication.Proofs.Verification.Report

/-!
What a verification reports can be written and read back: the names of its findings are not empty and their lines short, as
the results that they were read from had to have them; the confidences of its judgments are probabilities; the attempts that it
counts can have been made; and its instants are those of a clock.
-/

namespace Adjudication

open Decimal (Short)
open Json (Brief)

/-! ### Findings -/

namespace Analyzer

theorem short_of_mem_lineNumbers {v : Json} (h : Brief v) : ∀ i ∈ lineNumbers v, Short i := by
  intro i hi
  cases v with
  | arr items =>
    obtain ⟨item, hitem, heq⟩ := List.mem_filterMap.1 hi
    cases item with
    | int j =>
      obtain rfl := Option.some.inj heq
      exact (h.item _ hitem).short
    | _ => cases heq
  | _ => cases hi

theorem fits_of_locationOf? {element : Json} (h : Brief element) {l : Location} (hs : locationOf? element = some l) :
    l.Fits := by
  rw [locationOf?] at hs
  split at hs
  next mapping hmapping =>
    obtain ⟨file, -, rfl⟩ := Option.map_eq_some_iff.1 hs
    cases element with
    | obj ms =>
      have hlines : ∀ i ∈ lineNumbers ((Json.Members.get? "lines" mapping).getD .null), Short i := by
        refine short_of_mem_lineNumbers ?_
        cases hv : Json.Members.get? "lines" mapping with
        | none => exact .null
        | some v => exact (h.get? hmapping).get? hv
      exact ⟨fun i hi => hlines i (List.min?_mem hi), fun i hi => hlines i (List.max?_mem hi)⟩
    | _ => cases hmapping
  · cases hs

theorem fits_of_locationsOf {elements : Option Json} (h : ∀ v ∈ elements, Brief v) : ∀ l ∈ locationsOf elements, l.Fits := by
  intro l hl
  rw [locationsOf.eq_def] at hl
  split at hl
  next items =>
    obtain ⟨element, helement, heq⟩ := List.mem_filterMap.1 (List.mem_eraseDups.1 hl)
    exact fits_of_locationOf? ((h _ rfl).item element helement) heq
  · cases hl

theorem fits_of_detected {entry : Json} {f : Finding} (hbrief : Brief entry) (h : Detected entry f) : f.Fits := by
  cases h with
  | entry _ _ hne => exact ⟨hne, fits_of_locationsOf fun v hv => hbrief.get? hv⟩

/-- Findings that are read off a file fit. -/
theorem fits_of_findingsOfFile {levels : Nat} {t : Files.Tree} {file : Files.Path} {fs : List Finding}
    (h : findingsOfFile levels t file = .ok fs) :
    ∀ f ∈ fs, f.Fits := by
  obtain ⟨entries, ⟨text, document, -, hread, hentries⟩, hfindings⟩ := findingsOfFile_eq_ok h
  have hdocument : findingsOf (.obj document) = .ok fs := by
    rw [findingsOf, hentries]
    exact hfindings
  rcases findingsOf_eq_ok_iff.1 hdocument with ⟨others, ⟨document', results, hd, hresults, hdetectors⟩, hall⟩ | ⟨-, rfl⟩
  · obtain rfl := Json.obj.inj hd
    have hbrief : Brief (.arr others) := ((Json.brief_of_readWide hread).get? hresults).get? hdetectors
    intro f hf
    obtain ⟨i, hi, rfl⟩ := List.mem_iff_getElem.1 hf
    obtain ⟨hlength, hentry⟩ := List.forall₂_iff_get.1 hall
    exact fits_of_detected (hbrief.item _ (List.get_mem _ _)) (hentry i (hlength ▸ hi) hi)
  · exact List.forall_mem_nil _

end Analyzer

namespace Verifier

variable {v : Verifier Float} {source : Source} {given : Option Time.TokenId} {runId : Option String}
  {s t : Scene Float} {r : Report}

theorem inUtc_of_moment {host : Host Float} {clock : Float} {m : Time.Timestamp} (h : host.moment clock = .ok m) :
    m.InUtc := by
  rw [Host.moment] at h
  cases hn : host.calendar clock with
  | error fault =>
    rw [hn] at h
    cases h
  | ok n =>
    rw [hn] at h
    exact Time.Timestamp.inUtc_of_after h

theorem fits_of_judged {fs : List Finding} (hfs : ∀ f ∈ fs, f.Fits) {code : String} {token : Time.TokenId} {workers : Nat}
    {outcomes : List Outcome} (h : (Judge.judgeAll v.judge workers code token fs s).1 = .ok outcomes) :
    ∀ o ∈ outcomes, o.Fits := by
  intro o ho
  have hcredible := Judge.judgeAll_credible h o ho
  have hpermitted := Judge.judgeAll_permitted v.judge workers code token fs s
  rw [h] at hpermitted
  obtain ⟨i, hi⟩ := List.getElem?_of_mem ho
  obtain ⟨f, hf, hof⟩ := hpermitted i o hi
  refine ⟨?_, hcredible.confidence, fun record hrecord => ?_⟩
  · rw [Outcome.Of.finding_eq hof]
    exact hfs f (List.mem_of_getElem? hf)
  · obtain ⟨n, hn, hmade⟩ := hcredible.attempts record hrecord
    rw [hn]
    exact hmade.short

theorem fits_fatal {startedAt finishedAt : Time.Timestamp} (hstarted : startedAt.InUtc) (hfinished : finishedAt.InUtc)
    (stage : Stage) (kind : String) (message : Text.Wide) (exitCode : Option Int) (warnings : List Text.Wide) :
    (v.report source startedAt finishedAt (fatal stage kind message exitCode) warnings).Fits where
  startedAt := hstarted
  finishedAt := hfinished
  outcomes := List.forall_mem_nil _
  error e he := by
    obtain rfl := Option.some.inj he
    rfl

/-- The report of a verification fits. -/
theorem fits_of_verify (h : v.verify source given runId s = (.ok r, t)) : r.Fits := by
  obtain ⟨startedAt, finishedAt, ending, warnings, u, hreports, rfl⟩ := reports_of_verify h
  have hstarted : startedAt.InUtc := inUtc_of_moment hreports.started
  have hfinished : finishedAt.InUtc := inUtc_of_moment hreports.finished
  have hends := hreports.ends
  cases hends with
  | unstaged _ => exact fits_fatal hstarted hfinished _ _ _ _ _
  | unanalyzed _ _ => exact fits_fatal hstarted hfinished _ _ _ _ _
  | unread _ _ _ => exact fits_fatal hstarted hfinished _ _ _ _ _
  | judged p hjudged =>
    exact ⟨hstarted, hfinished, fits_of_judged (Analyzer.fits_of_findingsOfFile p.findings_eq) hjudged,
      fun _ hnone => by cases hnone⟩

/-! ### A run -/

/-- A service that is busy on "a" and answers with a confidence and a rationale of two lines otherwise. -/
def candidService : Judge.Service Float :=
  .ofScripts 0.0 [("a", [⟨0.0, false, none, .refused "busy"⟩])] [⟨0.0, false, none, .choices [some
    "\x7b\"is_real_vulnerability\": true, \"confidence\": 0.9, \"rationale\": \"as\\n\\\"told\\\"\"\x7d"]⟩]

def recorder : Verifier Float :=
  { command := ["scan", "\x7boutput\x7d"], timeout := 1.0, judge := .ofAttempts 1 1.0, root := ⟨.root, ["runs"]⟩
    workers := 1 }

def recorderScene : Scene Float :=
  { Scene.ofService candidService (.file (Text.Utf8.encode twoFindings)) with patience := 1 }

theorem reports_recorder :
    ((recorder.verify ⟨[], "a.sol"⟩ (some 0) (some "1") recorderScene).1.toOption.any fun r =>
      decide (r.outcomes.map (fun o => o.judgment?.bind Judgment.confidence) = [none, some 0.9] ∧
        r.analyzerExitCode = some 0 ∧ (Export.document r).isWhole = true)) = true := by
  decide +kernel

/-- That run gives a report of two outcomes, the second one judged with the confidence, in which no text is torn. -/
theorem verify_recorder : ∃ r t, recorder.verify ⟨[], "a.sol"⟩ (some 0) (some "1") recorderScene = (.ok r, t) ∧
    r.outcomes.map (fun o => o.judgment?.bind Judgment.confidence) = [none, some 0.9] ∧ r.analyzerExitCode = some 0 ∧
    (Export.document r).isWhole = true := by
  obtain ⟨r, t, hverify, hreports⟩ := Act.eq_ok_of_any reports_recorder
  exact ⟨r, t, hverify, of_decide_eq_true hreports⟩

/-- The numbers of that report are short. -/
theorem short_recorder (houtcomes : r.outcomes.map (fun o => o.judgment?.bind Judgment.confidence) = [none, some 0.9])
    (hexit : r.analyzerExitCode = some 0) :
    r.outcomes.length = 2 ∧ (∀ code ∈ r.analyzerExitCode, Short code) ∧ Short r.outcomes.length := by
  have hlength : r.outcomes.length = 2 := by
    rw [← List.length_map, houtcomes]
    rfl
  refine ⟨hlength, fun code hcode => ?_, ?_⟩
  · obtain rfl := Option.some.inj (hexit.symm.trans hcode)
    exact (by decide : Decimal.digitCount 0 ≤ Decimal.digitLimit)
  · rw [hlength]
    exact (by decide : Decimal.digitCount 2 ≤ Decimal.digitLimit)

end Verifier
end Adjudication
