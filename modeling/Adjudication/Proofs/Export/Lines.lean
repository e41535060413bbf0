import Adjudication.Export.Records
import Adjudication.Proofs.Json.Lines
import Adjudication.Proofs.Verification.Fitting

/-!
The lines of a report. A record has no line end within it, so the line ends among all records are those that divide them, and
what stands between two of them is read as the record of one outcome.
-/

namespace Adjudication

/-! ### Lines -/

namespace Export

variable {α : Type} {f : α → List Nat} {xs : List α} {n : Nat}

theorem count_lines (h : ∀ a ∈ xs, n ∉ f a) : (xs.flatMap fun a => f a ++ [n]).count n = xs.length := by
  induction xs with
  | nil => rfl
  | cons a xs ih =>
    obtain ⟨ha, hxs⟩ := List.forall_mem_cons.1 h
    rw [List.flatMap_cons, List.count_append, List.count_append, List.count_eq_zero_of_not_mem ha, ih hxs, List.length_cons,
      List.count_singleton_self]
    omega

theorem getLast?_lines (hne : xs ≠ []) : (xs.flatMap fun a => f a ++ [n]).getLast? = some n := by
  rw [← List.dropLast_concat_getLast hne, List.flatMap_append, List.flatMap_singleton, ← List.append_assoc,
    List.getLast?_concat]

theorem splitOn_lines (h : ∀ a ∈ xs, n ∉ f a) : (xs.flatMap fun a => f a ++ [n]).splitOn n = xs.map f ++ [[]] := by
  induction xs with
  | nil => rfl
  | cons a xs ih =>
    obtain ⟨ha, hxs⟩ := List.forall_mem_cons.1 h
    rw [List.flatMap_cons, List.append_assoc, List.singleton_append, List.splitOn_append_cons_self_of_not_mem ha, ih hxs]
    rfl

theorem flatten_lineChunks (r : Report) : (lineChunks r).flatten = r.outcomes.flatMap (line r) := List.flatMap_def.symm

theorem codes_lines (r : Report) : (lines r).codes = r.outcomes.flatMap (line r) := by
  rw [lines, flatten_lineChunks]
  refine Text.Wide.codes_ofCodes fun code hcode => ?_
  obtain ⟨o, -, hcode⟩ := List.mem_flatMap.1 hcode
  obtain hcode | hcode := List.mem_append.1 hcode
  · exact Json.isValidChar_or_isSurrogate_of_mem_write hcode
  · obtain rfl := List.mem_singleton.1 hcode
    exact .inl (by decide)

/-- The lines are made of characters just if no text of a record is torn. -/
theorem exists_lines_iff {r : Report} : (∃ text, lines r = .text text) ↔ ∀ o ∈ r.outcomes, (record r o).isWhole = true := by
  simp only [lines, Text.Wide.ofCodes_eq_text_iff, exists_and_left, exists_eq, and_true, flatten_lineChunks, List.any_flatMap,
    List.any_eq_false, line, List.any_append, Json.any_isSurrogate_write]
  exact forall₂_congr fun o _ => by cases (record r o).isWhole <;> decide

/-! ### Records -/

/-- What stands in a record stands in the document. -/
theorem isWhole_record {r : Report} (h : (document r).isWhole = true) {o : Outcome} (ho : o ∈ r.outcomes) :
    (record r o).isWhole = true := by
  have hmembers : (Json.obj r.members).isWhole = true := by
    rw [document, Json.isWhole_obj, List.all_append, ← Json.isWhole_obj, Bool.and_eq_true] at h
    exact h.1
  simp only [Report.members, Json.isWhole_obj, List.all_cons, Bool.and_eq_true, Json.isWhole_arr, List.all_map,
    List.all_eq_true] at hmembers
  obtain ⟨hsource, -, -, -, hmodel, -, houtcomes, -⟩ := hmembers
  have ho := houtcomes.2 o ho
  simp only [Function.comp_apply, Outcome.toJson, Json.isWhole_obj, List.all_cons, Bool.and_eq_true] at ho
  obtain ⟨hfinding, hjudgment, hfailure, -⟩ := ho
  simp only [record, Json.isWhole_obj, List.all_cons, Bool.and_eq_true]
  exact ⟨⟨rfl, hsource.2⟩, ⟨rfl, hfinding.2⟩, ⟨rfl, rfl⟩, ⟨rfl, hjudgment.2⟩, ⟨rfl, hfailure.2⟩, ⟨rfl, hmodel.2⟩, rfl⟩

variable {levels : Nat}

theorem legible_record (r : Report) {o : Outcome} (h : o.Fits) : Json.Legible (levels + 4) (record r o) := by
  refine .obj (by simp [Json.Members.names]) ?_
  simp only [List.forall_mem_cons]
  exact ⟨legible_ofWide _, Finding.legible h.finding, .str _, legible_ofOption fun j hj => Judgment.legible (h.judgment j hj),
    legible_ofOption fun f hf => FailureRecord.legible (h.failure f hf), legible_text _, List.forall_mem_nil _⟩

/-- A value is the record of an outcome: it has the members of one and no others, exactly one of the judgment and the failure
is not null, and its finding passes for that of the outcome. -/
structure Records (r : Report) (o : Outcome) (d : Json) : Prop where
  eq : d = .obj [("source", .ofWide r.sourceId), ("finding", o.finding.toJson), ("status", .str o.status.name),
    ("judgment", .ofOption Judgment.toJson o.judgment?), ("failure", .ofOption FailureRecord.toJson o.failure?),
    ("model", .ofOption .ofWide r.judgeModel)]
  exclusive : d.get? "judgment" = some .null ↔ d.get? "failure" ≠ some .null
  finding : ∃ finding, d.get? "finding" = some finding ∧ Schema.validate "Finding" Finding.check finding = .ok o.finding

theorem records_record (r : Report) {o : Outcome} (h : o.Fits) : Records r o (record r o) where
  eq := rfl
  exclusive := by
    obtain ⟨f, ruling⟩ := o
    cases ruling with
    | judged j => exact ⟨fun hnull => (nomatch Option.some.inj hnull), fun hfailure => absurd rfl hfailure⟩
    | failed record => exact ⟨fun _ hnull => (nomatch Option.some.inj hnull), fun _ => rfl⟩
  finding := by
    refine ⟨o.finding.toJson, rfl, ?_⟩
    rw [Schema.validate, Finding.check_toJson h.finding.checkId]

end Export

namespace Verifier

open Export
open Json.Sign (lineEnd)

variable {v : Verifier Float} {source : Source} {given : Option Time.TokenId} {runId : Option String}
  {s t : Scene Float} {r : Report}

/-- The lines of a report are as many as its outcomes and each ends with a line end, whatever the texts are that the outcomes
hold; and each is read as the record of its outcome, if no text of the record is torn. Where none is in any record, the lines
are made of characters. -/
theorem verify_lines_read (h : v.verify source given runId s = (.ok r, t)) {levels : Nat} (hlevels : 4 ≤ levels) :
    (lines r).codes.count lineEnd = r.outcomes.length ∧
      ((lines r).codes ≠ [] → (lines r).codes.getLast? = some lineEnd) ∧
      (∃ texts : List (List Nat), (lines r).codes.splitOn lineEnd = texts ++ [[]] ∧ texts.length = r.outcomes.length ∧
        ∀ (i : Nat) (text : List Nat) (o : Outcome), texts[i]? = some text → r.outcomes[i]? = some o →
          (record r o).isWhole = true → ∃ d, Json.readWide levels (.ofCodes text) = .ok d ∧ Records r o d) ∧
      ((∃ text, lines r = .text text) ↔ ∀ o ∈ r.outcomes, (record r o).isWhole = true) := by
  obtain ⟨more, rfl⟩ := Nat.exists_eq_add_of_le' hlevels
  have hline : ∀ o ∈ r.outcomes, lineEnd ∉ Json.write .line 0 (record r o) := fun o _ => Json.lineEnd_not_mem_write 0 _
  rw [codes_lines]
  refine ⟨count_lines hline, fun hne => getLast?_lines fun hnone => hne (by rw [hnone]; rfl),
    ⟨_, splitOn_lines hline, List.length_map _, fun i text o htext ho hwhole => ?_⟩, exists_lines_iff⟩
  have hfits : o.Fits := (fits_of_verify h).outcomes o (List.mem_of_getElem? ho)
  refine ⟨record r o, ?_, records_record r hfits⟩
  rw [List.getElem?_map, ho] at htext
  obtain rfl := Option.some.inj htext
  have hend : ∀ code ∈ ([] : List Nat), code = lineEnd := List.forall_mem_nil _
  simpa using (legible_record r hfits).readWide_write hwhole .line hend

/-- The two lines of a run in which one finding is judged and the other one is not. -/
theorem verify_lines_read_recorder : ∃ r t, recorder.verify ⟨[], "a.sol"⟩ (some 0) (some "1") recorderScene = (.ok r, t) ∧
    4 ≤ Json.usualLevels ∧ r.outcomes.map (fun o => o.judgment?.bind Judgment.confidence) = [none, some 0.9] ∧
    (lines r).codes.count lineEnd = 2 ∧ (∃ text, lines r = .text text) ∧
    ∃ texts o d, (lines r).codes.splitOn lineEnd = texts ++ [[]] ∧ r.outcomes[1]? = some o ∧
      (record r o).isWhole = true ∧ Json.readWide Json.usualLevels (.ofCodes (texts.getD 1 [])) = .ok d ∧ Records r o d := by
  obtain ⟨r, t, hverify, houtcomes, hexit, hwhole⟩ := verify_recorder
  obtain ⟨htwo, -, -⟩ := short_recorder houtcomes hexit
  have hlevels : 4 ≤ Json.usualLevels := by decide
  obtain ⟨hcount, -, ⟨texts, hsplit, hlength, hlines⟩, htext⟩ := verify_lines_read hverify hlevels
  have hrecords : ∀ o ∈ r.outcomes, (record r o).isWhole = true := fun o => isWhole_record hwhole
  have hsecond : texts[1]? = some (texts.getD 1 []) := by
    rw [List.getD_eq_getElem?_getD, List.getElem?_eq_getElem (by omega)]
    rfl
  have ho : r.outcomes[1]? = some r.outcomes[1] := List.getElem?_eq_getElem (by omega)
  have howhole := hrecords _ (List.mem_of_getElem? ho)
  obtain ⟨d, hd, hrecord⟩ := hlines 1 _ _ hsecond ho howhole
  exact ⟨r, t, hverify, hlevels, houtcomes, hcount.trans htwo, htext.2 hrecords, texts, _, d, hsplit, ho, howhole, hd, hrecord⟩

end Verifier
end Adjudication
