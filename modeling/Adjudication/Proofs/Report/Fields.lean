import Adjudication.Proofs.Json.RoundTrip
import Adjudication.Proofs.Schema.Checks
import Adjudication.Proofs.Time.Written
import Adjudication.Report.Basic

/-!
The values that findings, outcomes and reports are written as, and what the schema makes of them again. What fits is within the
bounds of the schema, its check gives it back, and its text can be read.
-/

namespace Adjudication

open Decimal (Short)
open Schema

/-! ### Findings -/

structure Location.Fits (l : Location) : Prop where
  startLine : ∀ i ∈ l.startLine, Short i
  endLine : ∀ i ∈ l.endLine, Short i

structure Finding.Fits (f : Finding) : Prop where
  checkId : f.checkId ≠ ""
  locations : ∀ l ∈ f.locations, l.Fits

theorem Location.check_toJson (l : Location) : check l.toJson = .ok l := by
  rw [check, toJson, record_obj, required_eq_ok rfl (text_ofWide _), defaulted_eq_ok rfl (nullable_int _),
    defaulted_eq_ok rfl (nullable_int _)]
  rfl

theorem Finding.check_toJson {f : Finding} (h : f.checkId ≠ "") : check f.toJson = .ok f := by
  have hcheckId : textOfLength 1 (Json.str f.checkId) = .ok f.checkId :=
    if_neg fun hless => h (String.length_eq_zero_iff.1 (Nat.lt_one_iff.1 hless))
  have hseverity : ∀ s : Severity, among Severity.named (Json.str s.name) = .ok s := fun s => by cases s <;> rfl
  have hcertainty : ∀ c : Certainty, among Certainty.named (Json.str c.name) = .ok c := fun c => by cases c <;> rfl
  have hlocations : tupleOf Location.check (Json.arr (f.locations.map Location.toJson)) = .ok f.locations :=
    tupleOf_map fun l _ => Location.check_toJson l
  have hcertain : nullable (among Certainty.named) (Json.ofOption (fun c => .str c.name) f.certainty) = .ok f.certainty :=
    nullable_ofOption (fun _ => by simp) fun c _ => hcertainty c
  rw [check, toJson, judgePayload, record_obj, required_eq_ok rfl hcheckId, required_eq_ok rfl (hseverity _),
    defaulted_eq_ok rfl (text_ofWide _), defaulted_eq_ok rfl hlocations, defaulted_eq_ok rfl hcertain,
    defaulted_eq_ok rfl (nullable_ofWide _)]
  rfl

/-! ### Outcomes -/

def Judgment.Fits (j : Judgment) : Prop := ∀ x ∈ j.confidence, probability (Json.double x) = .ok x

theorem Judgment.check_toJson {j : Judgment} (h : j.Fits) : check j.toJson = .ok j := by
  have htruth : truth (Json.bool j.isReal) = .ok j.isReal := rfl
  have hconfidence : nullable probability (Json.ofOption .double j.confidence) = .ok j.confidence :=
    nullable_ofOption (fun _ => by simp) h
  rw [check, toJson, record_obj, required_eq_ok rfl htruth, defaulted_eq_ok rfl hconfidence, defaulted_eq_ok rfl (text_ofWide _),
    defaulted_eq_ok rfl (text_ofWide _)]
  rfl

theorem FailureRecord.check_toJson (r : FailureRecord) : check r.toJson = .ok r := by
  have hkind : ∀ k : FailureKind, among FailureKind.named (Json.str k.name) = .ok k := fun k => by cases k <;> rfl
  rw [check, toJson, record_obj, required_eq_ok rfl (hkind _), required_eq_ok rfl (text_ofWide _),
    required_eq_ok rfl (integer_int _), defaulted_eq_ok rfl (nullable_ofWide _)]
  rfl

structure Outcome.Fits (o : Outcome) : Prop where
  finding : o.finding.Fits
  judgment : ∀ j ∈ o.judgment?, j.Fits
  failure : ∀ f ∈ o.failure?, Short f.attempts

/-- The status is no field of an outcome: it follows from the others. -/
theorem Outcome.check_toJson {o : Outcome} (h : o.Fits) : check o.toJson = .ok o := by
  have hjudgment : nullable Judgment.check (Json.ofOption Judgment.toJson o.judgment?) = .ok o.judgment? :=
    nullable_ofOption (fun _ => by simp [Judgment.toJson]) fun j hj => Judgment.check_toJson (h.judgment j hj)
  have hfailure : nullable FailureRecord.check (Json.ofOption FailureRecord.toJson o.failure?) = .ok o.failure? :=
    nullable_ofOption (fun _ => by simp [FailureRecord.toJson]) fun f _ => f.check_toJson
  rw [check, toJson, record_obj]
  dsimp only
  rw [required_eq_ok rfl (Finding.check_toJson h.finding.checkId), defaulted_eq_ok rfl hjudgment,
    defaulted_eq_ok rfl hfailure]
  obtain ⟨f, ruling⟩ := o
  cases ruling <;> rfl

/-! ### Reports -/

theorem RunError.check_toJson (e : RunError) : check e.toJson = .ok e := by
  have hstage : ∀ s : Stage, among Stage.named (Json.str s.name) = .ok s := fun s => by cases s <;> rfl
  rw [check, toJson, record_obj, required_eq_ok rfl (hstage _), required_eq_ok rfl (text_ofWide _),
    required_eq_ok rfl (text_ofWide _), defaulted_eq_ok rfl (nullable_int _)]
  rfl

theorem Time.timestamp_text {t : Timestamp} (h : t.InUtc) : timestamp (Json.str t.text) = .ok t := by
  have hyear : t.year ≠ 0 := by
    have := h.date.year
    omega
  rw [timestamp, readable, shape_str]
  dsimp only
  rw [textOf?_str]
  dsimp only
  rw [Timestamp.ofText_text h]
  exact if_neg hyear

structure Report.Fits (r : Report) : Prop where
  startedAt : r.startedAt.InUtc
  finishedAt : r.finishedAt.InUtc
  outcomes : ∀ o ∈ r.outcomes, o.Fits
  error : ∀ e ∈ r.error, e.exitCode = r.analyzerExitCode

theorem Report.check_members {r : Report} (h : r.Fits) (more : Json.Members) : check (Json.obj (r.members ++ more)) = .ok r := by
  have hstatus : ∀ s : RunStatus, among RunStatus.named (Json.str s.name) = .ok s := fun s => by cases s <;> rfl
  have houtcomes : tupleOf Outcome.check (Json.arr (r.outcomes.map Outcome.toJson)) = .ok r.outcomes :=
    tupleOf_map fun o ho => Outcome.check_toJson (h.outcomes o ho)
  have herror : nullable RunError.check (Json.ofOption RunError.toJson r.error) = .ok r.error :=
    nullable_ofOption (fun _ => by simp [RunError.toJson]) fun e _ => e.check_toJson
  have hwarnings : tupleOf text (Json.arr (r.warnings.map Json.ofWide)) = .ok r.warnings := tupleOf_map fun s _ => text_ofWide s
  rw [check, members, record_obj, required_eq_ok rfl (text_ofWide _), required_eq_ok rfl (hstatus _),
    required_eq_ok rfl (Time.timestamp_text h.startedAt), required_eq_ok rfl (Time.timestamp_text h.finishedAt),
    defaulted_eq_ok rfl (nullable_ofWide _), defaulted_eq_ok rfl (nullable_int _), defaulted_eq_ok rfl houtcomes,
    defaulted_eq_ok rfl herror, defaulted_eq_ok rfl hwarnings]
  rfl

/-! ### Legibility -/

section Legibility

open Json (Legible)

variable {levels : Nat}

theorem legible_ofOption {α : Type} {f : α → Json} {o : Option α} (h : ∀ a ∈ o, Legible levels (f a)) :
    Legible levels (.ofOption f o) := by
  cases o with
  | none => exact .null
  | some a => exact h a rfl

theorem legible_ofWide (t : Text.Wide) : Legible levels (.ofWide t) := by cases t <;> constructor

theorem legible_text (o : Option Text.Wide) : Legible levels (.ofOption .ofWide o) := legible_ofOption fun t _ => legible_ofWide t

theorem legible_int {o : Option Int} (h : ∀ i ∈ o, Short i) : Legible levels (.ofOption .int o) :=
  legible_ofOption fun i hi => .int (h i hi)

theorem legible_map {α : Type} {f : α → Json} {items : List α} (h : ∀ a ∈ items, Legible levels (f a)) :
    Legible (levels + 1) (.arr (items.map f)) := .arr (List.forall_mem_map.2 h)

theorem Location.legible {l : Location} (h : l.Fits) : Legible (levels + 1) l.toJson := by
  refine .obj (by simp [Json.Members.names]) ?_
  simp only [List.forall_mem_cons]
  exact ⟨legible_ofWide _, legible_int h.startLine, legible_int h.endLine, List.forall_mem_nil _⟩

theorem Finding.legible_of_mem {f : Finding} (h : ∀ l ∈ f.locations, l.Fits) :
    ∀ m ∈ f.judgePayload, Legible (levels + 2) m.2 := by
  simp only [judgePayload, List.forall_mem_cons]
  exact ⟨.str _, .str _, legible_ofWide _, legible_map fun l hl => Location.legible (h l hl), legible_ofOption fun c _ => .str _,
    List.forall_mem_nil _⟩

theorem Finding.legible_judgePayload {f : Finding} (h : ∀ l ∈ f.locations, l.Fits) :
    Legible (levels + 3) (.obj f.judgePayload) :=
  .obj (by simp [Json.Members.names, judgePayload]) (legible_of_mem h)

theorem Finding.legible {f : Finding} (h : f.Fits) : Legible (levels + 3) f.toJson := by
  refine .obj (by simp [Json.Members.names, judgePayload]) ?_
  rw [List.forall_mem_append, List.forall_mem_singleton]
  exact ⟨legible_of_mem h.locations, legible_text _⟩

/-- A confidence is a probability, and so it is finite. -/
theorem Judgment.Fits.isFinite {j : Judgment} (h : j.Fits) : ∀ x ∈ j.confidence, Decimal.isFinite x = true := fun x hx =>
  let ⟨hzero, hone⟩ := bounds_of_probability (h x hx)
  Decimal.isFinite_of_bounds hzero hone

theorem Judgment.legible {j : Judgment} (h : j.Fits) : Legible (levels + 1) j.toJson := by
  refine .obj (by simp [Json.Members.names]) ?_
  simp only [List.forall_mem_cons]
  exact ⟨.bool _, legible_ofOption fun x hx => .double (h.isFinite x hx), legible_ofWide _, legible_ofWide _,
    List.forall_mem_nil _⟩

theorem FailureRecord.legible {r : FailureRecord} (h : Short r.attempts) : Legible (levels + 1) r.toJson := by
  refine .obj (by simp [Json.Members.names]) ?_
  simp only [List.forall_mem_cons]
  exact ⟨.str _, legible_ofWide _, .int h, legible_text _, List.forall_mem_nil _⟩

theorem Outcome.legible {o : Outcome} (h : o.Fits) : Legible (levels + 4) o.toJson := by
  refine .obj (by simp [Json.Members.names]) ?_
  simp only [List.forall_mem_cons]
  exact ⟨Finding.legible h.finding, legible_ofOption fun j hj => Judgment.legible (h.judgment j hj),
    legible_ofOption fun f hf => FailureRecord.legible (h.failure f hf), .str _, List.forall_mem_nil _⟩

theorem RunError.legible {e : RunError} (h : ∀ i ∈ e.exitCode, Short i) : Legible (levels + 1) e.toJson := by
  refine .obj (by simp [Json.Members.names]) ?_
  simp only [List.forall_mem_cons]
  exact ⟨.str _, legible_ofWide _, legible_ofWide _, legible_int h, List.forall_mem_nil _⟩

end Legibility

end Adjudication
