import Adjudication.Proofs.Export.Lines
import Adjudication.Proofs.Export.Log
import Adjudication.Proofs.Export.Targets

/-!
The exports of a report side by side. The document, the lines and the log are written each in its own way; yet they list the
same outcomes in the same order with the same statuses, their counts are those of these statuses, and what blocks is what is
counted as real.
-/

namespace Adjudication

open Decimal (Short)
open Json.Sign (lineEnd)

/-! ### Parts of values -/

/-- The part of a value that steps lead to. -/
def Json.at? : List Schema.Step → Json → Option Json
  | [], v => some v
  | .field name :: steps, v => (v.get? name).bind (at? steps)
  | .index i :: steps, .arr items => (items[i]?).bind (at? steps)
  | .index _ :: _, _ => none

/-! ### Counts -/

theorem Status.name_inj {a b : Status} : a.name = b.name ↔ a = b := by
  cases a <;> cases b <;> decide

namespace Report

/-- The texts of the statuses of a report's outcomes. -/
def statuses (r : Report) : List String := r.outcomes.map fun o => o.status.name

theorem count_statuses (r : Report) (s : Status) : r.statuses.count s.name = r.count s := by
  rw [statuses, List.count_eq_countP, List.countP_map, count, ← List.countP_eq_length_filter]
  refine List.countP_congr fun o _ => ?_
  simp [Status.name_inj]

/-- Each outcome has one status and no other. -/
theorem length_outcomes (r : Report) :
    r.outcomes.length = r.count .real + r.count .falsePositive + r.count .judgingFailed := by
  obtain ⟨_, _, _, _, _, _, outcomes, _, _⟩ := r
  simp only [count]
  induction outcomes with
  | nil => rfl
  | cons o outcomes ih =>
    cases hstatus : o.status <;> simp [hstatus] <;> omega

end Report

/-- The counts of some statuses. -/
def Summary.ofStatuses (statuses : List String) : Summary :=
  ⟨statuses.length, statuses.count Status.real.name, statuses.count Status.falsePositive.name,
    statuses.count Status.judgingFailed.name⟩

theorem Report.summary_eq (r : Report) : r.summary = .ofStatuses r.statuses := by
  rw [summary, Summary.ofStatuses, count_statuses, count_statuses, count_statuses, statuses, List.length_map]

theorem Export.blocking_eq_real (r : Report) : Export.blocking r false = r.summary.real := by
  have hsame : (r.outcomes.filter fun o => o.status = .real ∧ (!false ∨ o.finding.severity = .high)) =
      r.outcomes.filter fun o => o.status = .real := by simp
  exact congrArg List.length hsame

namespace Export

theorem Sarif.level_eq_none_iff (o : Outcome) : level o = "none" ↔ o.status = .falsePositive := by
  rw [level]
  split
  next h => simp [h]
  next h =>
    have hlevel : ∀ severity, levelOf severity ≠ "none" := fun severity => by cases severity <;> decide
    simp [h, hlevel]

/-! ### Entries -/

theorem at_outcomes (r : Report) (i : Nat) (steps : List Schema.Step) :
    (document r).at? (.field "outcomes" :: .index i :: steps) =
      ((r.outcomes[i]?).map Outcome.toJson).bind (Json.at? steps) := by
  rw [← List.getElem?_map]
  rfl

/-- The steps to a part of a result of a log. -/
def resultSteps (i : Nat) (steps : List Schema.Step) : List Schema.Step :=
  [.field "runs", .index 0, .field "results", .index i] ++ steps

theorem at_results (tool : Sarif.Tool) (r : Report) (i : Nat) (steps : List Schema.Step) :
    (Sarif.log tool r).at? (resultSteps i steps) =
      ((r.outcomes[i]?).map (Sarif.result r.sourceId)).bind (Json.at? steps) := by
  rw [← List.getElem?_map]
  rfl

/-! ### The three exports -/

/-- A document, the records of lines, and a log agree on the outcomes with some statuses. -/
structure Agreement (statuses : List String) (document : Json) (records : List Json) (log : Json) : Prop where
  inDocument : ∀ i : Nat, document.at? [.field "outcomes", .index i, .field "status"] = (statuses[i]?).map .str
  inRecords : ∀ i : Nat, (records[i]?).bind (Json.at? [.field "status"]) = (statuses[i]?).map .str
  inLog : ∀ i, log.at? (resultSteps i [.field "properties", .field "verdict"]) = (statuses[i]?).map .str
  lengths : ∃ outcomes results, document.at? [.field "outcomes"] = some (.arr outcomes) ∧
    log.at? [.field "runs", .index 0, .field "results"] = some (.arr results) ∧
    outcomes.length = statuses.length ∧ records.length = statuses.length ∧ results.length = statuses.length
  findings : ∀ i : Nat,
    document.at? [.field "outcomes", .index i, .field "finding"] = (records[i]?).bind (Json.at? [.field "finding"]) ∧
    log.at? (resultSteps i [.field "ruleId"]) =
      document.at? [.field "outcomes", .index i, .field "finding", .field "check_id"]
  level : ∀ i, log.at? (resultSteps i [.field "level"]) = some (.str "none") ↔
    statuses[i]? = some Status.falsePositive.name
  summary : document.at? [.field "summary"] = some (Summary.ofStatuses statuses).toJson ∧
    log.at? [.field "runs", .index 0, .field "properties", .field "summary"] = some (Summary.ofStatuses statuses).toJson
  total : statuses.length = statuses.count Status.real.name + statuses.count Status.falsePositive.name +
    statuses.count Status.judgingFailed.name

theorem agreement (tool : Sarif.Tool) (r : Report) :
    Agreement r.statuses (document r) (r.outcomes.map (record r)) (Sarif.log tool r) where
  inDocument i := by
    rw [at_outcomes, Report.statuses, List.getElem?_map]
    cases r.outcomes[i]? <;> rfl
  inRecords i := by
    rw [Report.statuses, List.getElem?_map, List.getElem?_map]
    cases r.outcomes[i]? <;> rfl
  inLog i := by
    rw [at_results, Report.statuses, List.getElem?_map]
    cases r.outcomes[i]? <;> rfl
  lengths := ⟨_, _, rfl, rfl, by simp [Report.statuses], by simp [Report.statuses], by simp [Report.statuses]⟩
  findings i := by
    rw [at_outcomes, at_outcomes, at_results, List.getElem?_map]
    cases r.outcomes[i]? <;> exact ⟨rfl, rfl⟩
  level i := by
    rw [at_results, Report.statuses, List.getElem?_map]
    cases r.outcomes[i]? with
    | none => simp
    | some o =>
      have hlevel : (Sarif.result r.sourceId o).at? [.field "level"] = some (.str (Sarif.level o)) := rfl
      simp [hlevel, Sarif.level_eq_none_iff, Status.name_inj]
  summary := r.summary_eq ▸ ⟨rfl, rfl⟩
  total := by
    rw [r.count_statuses, r.count_statuses, r.count_statuses, ← r.length_outcomes, Report.statuses, List.length_map]

/-- A report of one outcome whose finding is described with half of a surrogate pair. -/
def tornReport : Report where
  sourceId := .text "a.sol"
  status := .success
  startedAt := ⟨1970, 1, 1, 0, 0, 0, 0, some 0⟩
  finishedAt := ⟨1970, 1, 1, 0, 0, 0, 0, some 0⟩
  judgeModel := none
  analyzerExitCode := some 0
  outcomes := [⟨⟨"a", .low, .torn .half, [], none, none⟩, .judged ⟨true, none, .text "", .text ""⟩⟩]
  error := none
  warnings := []

end Export
end Adjudication
