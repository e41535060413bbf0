import Adjudication.Export.Sarif
import Adjudication.Proofs.Export.Document

/-!
The log of a report. Like the document, it is read back as the value that was written: its names stand once each, and its
numbers are those of the report or the lines of its locations.
-/

namespace Adjudication

open Decimal (Short)

/-- An object is legible by the texts that its names are. -/
theorem Json.Legible.ofNames {levels : Nat} {ms : Members} (names : List String) (hnames : ms.names = names.map .text)
    (hnodup : names.Nodup) (h : ∀ m ∈ ms, Legible levels m.2) : Legible (levels + 1) (.obj ms) :=
  .obj (hnames ▸ hnodup.map fun _ _ h => Text.Wide.text.inj h) h

namespace Export.Sarif

open Json (Legible)

variable {levels : Nat}

theorem legible_artifact (uri : Text.Wide) : Legible (levels + 1) (artifact uri).2 :=
  .obj (by simp [Json.Members.names]) (by simpa using legible_ofWide uri)

theorem legible_region {l : Location} (h : l.Fits) : ∀ m ∈ region l, Legible (levels + 1) m.2 := by
  rw [region]
  cases hfirst : l.startLine with
  | none => exact List.forall_mem_nil _
  | some first =>
    have hshort : Short first := h.startLine first hfirst
    refine List.forall_mem_cons.2 ⟨?_, List.forall_mem_nil _⟩
    cases hlast : l.endLine with
    | none => exact .obj (by simp [Json.Members.names]) (by simpa using .int hshort)
    | some last =>
      exact .obj (by simp [Json.Members.names]) (by simpa using ⟨.int hshort, .int (h.endLine last hlast)⟩)

theorem legible_locationJson {l : Location} (h : l.Fits) : Legible (levels + 3) (locationJson l) := by
  refine .obj (by simp [Json.Members.names]) (List.forall_mem_cons.2 ⟨?_, List.forall_mem_nil _⟩)
  refine .ofNames ("artifactLocation" :: if l.startLine.isSome then ["region"] else []) ?_ ?_
    (List.forall_mem_cons.2 ⟨legible_artifact l.file, legible_region h⟩)
  · rw [region]
    cases l.startLine <;> rfl
  · cases l.startLine <;> simp

theorem legible_locations (sourceId : Text.Wide) {f : Finding} (h : f.Fits) :
    ∀ v ∈ locations sourceId f, Legible (levels + 3) v := by
  rw [locations]
  split
  · refine List.forall_mem_cons.2 ⟨?_, List.forall_mem_nil _⟩
    refine .obj (by simp [Json.Members.names]) (List.forall_mem_cons.2 ⟨?_, List.forall_mem_nil _⟩)
    exact .obj (by simp [Json.Members.names, artifact]) (by simpa using legible_artifact sourceId)
  · exact List.forall_mem_map.2 fun l hl => legible_locationJson (h.locations l hl)

theorem legible_properties {o : Outcome} (h : o.Fits) : Legible (levels + 1) (.obj (properties o)) := by
  obtain ⟨f, ruling⟩ := o
  cases ruling with
  | judged j =>
    refine .obj (by simp [Json.Members.names, properties]) ?_
    simp only [properties, List.forall_mem_cons]
    exact ⟨.str _, legible_ofOption fun x hx => .double ((h.judgment j rfl).isFinite x hx), legible_ofWide _,
      List.forall_mem_nil _⟩
  | failed record =>
    refine .obj (by simp [Json.Members.names, properties]) ?_
    simp only [properties, List.forall_mem_cons]
    exact ⟨.str _, .str _, List.forall_mem_nil _⟩

theorem legible_result (sourceId : Text.Wide) {o : Outcome} (h : o.Fits) : Legible (levels + 5) (result sourceId o) := by
  refine .obj (by simp [Json.Members.names]) ?_
  simp only [List.forall_mem_cons]
  refine ⟨.str _, .str _, ?_, .arr (legible_locations sourceId h.finding), legible_properties h, List.forall_mem_nil _⟩
  exact .obj (by simp [Json.Members.names]) (by simpa using legible_ofWide _)

theorem legible_rule (rule : Rule) : Legible (levels + 2) rule.toJson := by
  refine .obj (by simp [Json.Members.names]) ?_
  simp only [List.forall_mem_cons]
  exact ⟨.str _, .str _, .obj (by simp [Json.Members.names]) (by simpa using .str _), List.forall_mem_nil _⟩

theorem legible_invocations (error : Option RunError) : ∀ m ∈ invocations error, Legible (levels + 6) m.2 := by
  cases error with
  | none => exact List.forall_mem_nil _
  | some e =>
    refine List.forall_mem_cons.2 ⟨.arr (List.forall_mem_cons.2 ⟨?_, List.forall_mem_nil _⟩), List.forall_mem_nil _⟩
    refine .obj (by simp [Json.Members.names]) ?_
    simp only [List.forall_mem_cons]
    refine ⟨.bool _, .arr (List.forall_mem_cons.2 ⟨?_, List.forall_mem_nil _⟩), List.forall_mem_nil _⟩
    refine .obj (by simp [Json.Members.names]) ?_
    simp only [List.forall_mem_cons]
    exact ⟨.str _, .obj (by simp [Json.Members.names]) (by simpa using legible_ofWide _), List.forall_mem_nil _⟩

/-- A log is read back if the number of outcomes is not too long for an integer. -/
theorem legible_log (tool : Tool) {r : Report} (h : ∀ o ∈ r.outcomes, o.Fits) (hcount : Short r.outcomes.length) :
    Legible (levels + 9) (log tool r) := by
  refine .obj (by simp [Json.Members.names]) ?_
  simp only [List.forall_mem_cons]
  refine ⟨.str _, .str _, .arr (List.forall_mem_cons.2 ⟨?_, List.forall_mem_nil _⟩), List.forall_mem_nil _⟩
  refine .ofNames (["tool", "results", "properties"] ++ if r.error.isSome then ["invocations"] else []) ?_ ?_
    (List.forall_mem_append.2 ⟨?_, legible_invocations r.error⟩)
  · cases r.error <;> rfl
  · cases r.error <;> simp
  simp only [List.forall_mem_cons]
  refine ⟨?_, legible_map fun o ho => legible_result r.sourceId (h o ho), ?_, List.forall_mem_nil _⟩
  · refine .obj (by simp [Json.Members.names]) (List.forall_mem_cons.2 ⟨?_, List.forall_mem_nil _⟩)
    refine .obj (by simp [Json.Members.names]) ?_
    simp only [List.forall_mem_cons]
    exact ⟨.str _, .str _, legible_map fun rule _ => legible_rule rule, List.forall_mem_nil _⟩
  · refine .obj (by simp [Json.Members.names]) ?_
    simp only [List.forall_mem_cons]
    exact ⟨.str _, legible_text _, Report.legible_summary hcount, List.forall_mem_nil _⟩

/-! ### Texts that are not torn -/

/-- What stands in a result stands in the outcome or names the source. -/
theorem isWhole_result {sourceId : Text.Wide} (hsource : sourceId.isWhole = true) {o : Outcome}
    (h : o.toJson.isWhole = true) : (result sourceId o).isWhole = true := by
  obtain ⟨f, ruling⟩ := o
  simp only [Outcome.toJson, Finding.toJson, Finding.judgePayload, Location.toJson, Json.isWhole_obj, List.all_append,
    List.all_cons, Bool.and_eq_true, Json.isWhole_arr, List.all_map, List.all_eq_true, Function.comp_apply] at h
  obtain ⟨⟨-, ⟨-, -, ⟨-, hdescription⟩, ⟨-, hlocations⟩, -⟩, -⟩, ⟨-, hjudgment⟩, -⟩ := h
  have hmessage : (message f).isWhole = true := by
    rw [message]
    split
    · rfl
    · simpa using hdescription
  have hplaces : ∀ v ∈ locations sourceId f, v.isWhole = true := by
    rw [locations]
    split
    · simpa [artifact] using hsource
    · refine List.forall_mem_map.2 fun l hl => ?_
      obtain ⟨⟨-, hfile⟩, -⟩ := hlocations l hl
      rw [Json.isWhole_ofWide] at hfile
      simp only [locationJson, artifact, region]
      cases l.startLine <;> cases l.endLine <;> simp [hfile]
  have hproperties : ∀ m ∈ properties ⟨f, ruling⟩, m.1.isWhole = true ∧ m.2.isWhole = true := by
    cases ruling with
    | judged j =>
      have hrationale : j.rationale.isWhole = true := by
        simp only [Outcome.judgment?, Json.ofOption, Judgment.toJson, Json.isWhole_obj, List.all_cons, Bool.and_eq_true,
          Json.isWhole_ofWide] at hjudgment
        exact hjudgment.2.2.1.2
      simp [properties, hrationale]
    | failed record => simp [properties]
  simpa [result, hmessage] using ⟨hplaces, fun name v hm => hproperties (name, v) hm⟩

theorem isWhole_invocations {error : Option RunError} (h : ∀ e ∈ error, e.kind.isWhole = true ∧ e.message.isWhole = true) :
    ∀ m ∈ invocations error, m.1.isWhole = true ∧ m.2.isWhole = true := by
  cases error with
  | none => exact List.forall_mem_nil _
  | some e => simpa [invocations] using h e rfl

/-- What stands in the log stands in the document. -/
theorem isWhole_log (tool : Tool) {r : Report} (h : (document r).isWhole = true) : (log tool r).isWhole = true := by
  simp only [document, Report.members, Json.isWhole_obj, List.all_append, List.all_cons, Bool.and_eq_true, Json.isWhole_arr,
    List.all_map, List.all_eq_true, Function.comp_apply, Json.isWhole_ofWide] at h
  obtain ⟨⟨⟨-, hsource⟩, -, -, -, ⟨-, hmodel⟩, -, ⟨-, houtcomes⟩, ⟨-, herror⟩, -⟩, ⟨-, hsummary⟩, -⟩ := h
  have hresults : ∀ o ∈ r.outcomes, (result r.sourceId o).isWhole = true := fun o ho =>
    isWhole_result hsource (houtcomes o ho)
  have htold : ∀ e ∈ r.error, e.kind.isWhole = true ∧ e.message.isWhole = true := fun e he => by
    have hwhole := Json.isWhole_ofOption.1 herror e he
    simpa [RunError.toJson] using hwhole
  have hrules : ∀ rule : Rule, rule.toJson.isWhole = true := fun rule => by simp [Rule.toJson]
  have hinvocations := isWhole_invocations htold
  have hjudge : ∀ t ∈ r.judgeModel, t.isWhole = true := by simpa using hmodel
  simpa [log, hrules, hsummary] using ⟨hresults, hjudge, fun name v hm => hinvocations (name, v) hm⟩

/-- A log is written as a text with a line end behind it. -/
theorem logText_eq (tool : Tool) (r : Report) :
    logText tool r = .ofCodes (Json.write style 0 (log tool r) ++ [Json.Sign.lineEnd]) := by
  rw [logText, logChunks, List.flatten_append, Json.flatten_chunks, List.flatten_singleton]

/-- What is put out of a log is made of characters: its style is ASCII. -/
theorem exists_logText (tool : Tool) (r : Report) : ∃ text, logText tool r = .text text := by
  rw [logText_eq]
  refine ⟨_, Text.Wide.ofCodes_eq_text_iff.2 ⟨?_, rfl⟩⟩
  rw [List.any_append, Json.any_isSurrogate_write]
  rfl

theorem readWide_logText (tool : Tool) {r : Report} (h : ∀ o ∈ r.outcomes, o.Fits) (hwhole : (document r).isWhole = true)
    (hcount : Short r.outcomes.length) (hlevels : 9 ≤ levels) : Json.readWide levels (logText tool r) = .ok (log tool r) := by
  obtain ⟨more, rfl⟩ := Nat.exists_eq_add_of_le' hlevels
  rw [logText_eq]
  exact (legible_log tool h hcount).readWide_write (isWhole_log tool hwhole) style fun _ hmem => List.mem_singleton.1 hmem

end Export.Sarif
end Adjudication
