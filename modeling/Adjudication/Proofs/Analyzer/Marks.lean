import Adjudication.Analyzer.Course
import Adjudication.Proofs.Analyzer.Acceptance
import Adjudication.Proofs.Files.Likeness

/-!
The marks by which results identify their entries. A document without them has the same findings, one for one and in the same
order, only that these have no fingerprints, and what is wrong with it is told in the same words.
-/

namespace Adjudication

/-- A finding without its fingerprint. -/
def Finding.unmarked (f : Finding) : Finding := { f with fingerprint := none }

/-- Findings that are the same but for their fingerprints. -/
def Finding.Alike (f f' : Finding) : Prop := f.unmarked = f'.unmarked

/-! ### Documents without marks -/

namespace Json.Members

/-- Changes the value under a name. -/
def update (name : Text.Wide) (f : Json → Json) (ms : Members) : Members :=
  ms.map fun m => if m.1 = name then (m.1, f m.2) else m

theorem get?_update_self (name : Text.Wide) (f : Json → Json) (ms : Members) :
    get? name (update name f ms) = (get? name ms).map f := by
  induction ms with
  | nil => rfl
  | cons m ms ih =>
    rw [update] at ih ⊢
    by_cases h : m.1 = name
    · simp [get?, h]
    · simp [get?, h, ih]

theorem get?_update_of_ne {name other : Text.Wide} (h : other ≠ name) (f : Json → Json) (ms : Members) :
    get? other (update name f ms) = get? other ms := by
  induction ms with
  | nil => rfl
  | cons m ms ih =>
    rw [update] at ih ⊢
    by_cases hm : m.1 = name
    · simp [get?, hm, Ne.symm h, ih]
    · simp [get?, hm, ih]

theorem get?_filter {name : Text.Wide} {keep : Text.Wide → Bool} (h : keep name = true) (ms : Members) :
    get? name (ms.filter fun m => keep m.1) = get? name ms := by
  induction ms with
  | nil => rfl
  | cons m ms ih =>
    by_cases hm : m.1 = name
    · simp [get?, hm, h]
    · cases hkeep : keep m.1 <;> simp [get?, hm, hkeep, ih]

theorem get?_filter_of_not {name : Text.Wide} {keep : Text.Wide → Bool} (h : keep name = false) (ms : Members) :
    get? name (ms.filter fun m => keep m.1) = none := by
  induction ms with
  | nil => rfl
  | cons m ms ih =>
    by_cases hm : m.1 = name
    · simp [hm, h, ih]
    · cases hkeep : keep m.1 <;> simp [get?, hm, hkeep, ih]

end Json.Members

namespace Analyzer

open Json.Members (update)

/-- Whether a member is no mark of its entry. -/
def isPlain (name : Text.Wide) : Bool := name ≠ "fingerprint" && name ≠ "id"

def unmarkedEntry : Json → Json
  | .obj ms => .obj (ms.filter fun m => isPlain m.1)
  | v => v

def unmarkedEntries : Json → Json
  | .arr entries => .arr (entries.map unmarkedEntry)
  | v => v

def unmarkedResults : Json → Json
  | .obj results => .obj (update "detectors" unmarkedEntries results)
  | v => v

/-- A document without the marks of its detector entries. -/
def unmarked : Json → Json
  | .obj document => .obj (update "results" unmarkedResults document)
  | v => v

theorem fingerprintOf_filter (ms : Json.Members) : fingerprintOf (ms.filter fun m => isPlain m.1) = none := by
  rw [fingerprintOf, Json.Members.get?_filter_of_not (by decide), Json.Members.get?_filter_of_not (by decide)]
  rfl

theorem findingOf_unmarked (index : Nat) (entry : Json) :
    findingOf index (unmarkedEntry entry) = (findingOf index entry).map Finding.unmarked := by
  cases entry with
  | obj ms =>
    have hget : ∀ {name : String}, isPlain name = true →
        Json.Members.get? name (ms.filter fun m => isPlain m.1) = Json.Members.get? name ms :=
      fun h => Json.Members.get?_filter h ms
    rw [unmarkedEntry, findingOf, findingOf]
    simp only [filled?, hget (by decide : isPlain "impact" = true), hget (by decide : isPlain "check" = true),
      hget (by decide : isPlain "description" = true), hget (by decide : isPlain "elements" = true),
      hget (by decide : isPlain "confidence" = true), fingerprintOf_filter]
    split
    · rfl
    · split <;> rfl
  | _ => rfl

theorem findingsFrom_unmarked (index : Nat) (entries : List Json) :
    findingsFrom index (entries.map unmarkedEntry) = (findingsFrom index entries).map (List.map Finding.unmarked) := by
  induction entries generalizing index with
  | nil => rfl
  | cons entry entries ih =>
    rw [List.map_cons, findingsFrom, findingsFrom, findingOf_unmarked, ih]
    cases findingOf index entry with
    | error e => rfl
    | ok f => cases findingsFrom (index + 1) entries <;> rfl

theorem entriesOf_unmarked (document : Json.Members) :
    entriesOf (update "results" unmarkedResults document) = (entriesOf document).map (List.map unmarkedEntry) := by
  have hget : ∀ {name : String}, name ≠ "results" →
      Json.Members.get? name (update "results" unmarkedResults document) = Json.Members.get? name document := fun h =>
    Json.Members.get?_update_of_ne (fun he => h (Text.Wide.text.inj he)) _ _
  have hsuccess := hget (by decide : "success" ≠ "results")
  have hreported : reported? (update "results" unmarkedResults document) = reported? document := by
    simp only [reported?, filled?, hsuccess, hget (by decide : "error" ≠ "results")]
  simp only [entriesOf, Json.Members.get?_update_self, hsuccess, hreported]
  cases hresults : Json.Members.get? "results" document with
  | none => rfl
  | some v =>
    cases v with
    | obj results =>
      simp only [Option.map_some, unmarkedResults, Json.Members.get?_update_self]
      cases hdetectors : Json.Members.get? "detectors" results with
      | none =>
        cases results with
        | nil =>
          simp only [update, List.map_nil, Option.map_none]
          split <;> rfl
        | cons m results => rfl
      | some w => cases w <;> rfl
    | _ => rfl

/-- The findings of a document without marks are those of the document without their fingerprints. -/
theorem findingsOf_unmarked (d : Json) : findingsOf (unmarked d) = (findingsOf d).map (List.map Finding.unmarked) := by
  cases d with
  | obj document =>
    rw [unmarked, findingsOf, findingsOf, entriesOf_unmarked]
    cases entriesOf document with
    | error e => rfl
    | ok entries => exact findingsFrom_unmarked 0 entries
  | _ => rfl

/-! ### Contents -/

variable {levels : Nat}

/-- A content is the text of a value. -/
def Decodes (levels : Nat) (content : Files.Bytes) (d : Json) : Prop :=
  ∃ text, Text.Utf8.decode? content = .ok text ∧ Json.read levels (String.ofList (Text.Utf8.unifyLineEnds text.toList)) = .ok d

/-- Contents that are the same, or that are the texts of values which are the same but for the marks of their entries. -/
inductive SameButMarks (levels : Nat) : Files.Bytes → Files.Bytes → Prop
  | same (content : Files.Bytes) : SameButMarks levels content content
  | decoded {content content' : Files.Bytes} {d d' : Json} (h : Decodes levels content d)
      (h' : Decodes levels content' d')
      (hsame : unmarked d = unmarked d') : SameButMarks levels content content'

instance : Std.Refl (SameButMarks levels) := ⟨.same⟩

theorem Decodes.ne_nil {content : Files.Bytes} {d : Json} (h : Decodes levels content d) : content ≠ [] := by
  rintro rfl
  obtain ⟨text, htext, hread⟩ := h
  obtain rfl : "" = text := by simpa [Text.Utf8.decode?, Text.Utf8.decodeFrom, Except.map] using htext
  cases hread

theorem SameButMarks.nil_iff {content content' : Files.Bytes} (h : SameButMarks levels content content') :
    content = [] ↔ content' = [] := by
  cases h with
  | same => rfl
  | decoded h h' _ => exact ⟨fun hnil => absurd hnil h.ne_nil, fun hnil => absurd hnil h'.ne_nil⟩

theorem matched_findingsOf {d d' : Json} (h : unmarked d = unmarked d') :
    Matched (List.Forall₂ Finding.Alike) (findingsOf d) (findingsOf d') := by
  have hmap : (findingsOf d).map (List.map Finding.unmarked) = (findingsOf d').map (List.map Finding.unmarked) := by
    rw [← findingsOf_unmarked, ← findingsOf_unmarked, h]
  refine (matched_of_map_eq hmap).mono fun fs fs' hfs => ?_
  rwa [← List.forall₂_eq_eq_eq, List.forall₂_map_left_iff, List.forall₂_map_right_iff] at hfs

theorem findingsOfFile_congr {t u : Files.Tree} {file : Files.Path} (h : t.read file = u.read file) :
    findingsOfFile levels t file = findingsOfFile levels u file := by
  rw [findingsOfFile, findingsOfFile, Files.Tree.readText, Files.Tree.readText, h]

theorem findingsOfFile_of_decodes {t : Files.Tree} {file : Files.Path} {content : Files.Bytes} {d : Json}
    (h : t.read file = .ok content) (hd : Decodes levels content d) :
    findingsOfFile levels t file = (findingsOf d).mapError .results := by
  obtain ⟨text, htext, hread⟩ := hd
  have hfile : t.readText file = .ok (String.ofList (Text.Utf8.unifyLineEnds text.toList)) := by
    rw [Files.Tree.readText, h]
    simp only [bind, Except.bind, htext]
    rfl
  rw [findingsOfFile, hfile]
  exact findingsOfText_of_read hread

/-- Files of trees that are alike have the same findings but for their fingerprints, or are refused in the same words. -/
theorem matched_findingsOfFile {t u : Files.Tree} (h : t.Alike (SameButMarks levels) u) (file : Files.Path) :
    Matched (List.Forall₂ Finding.Alike) (findingsOfFile levels t file) (findingsOfFile levels u file) := by
  have hsame : ∀ fs, List.Forall₂ Finding.Alike fs fs := fun fs => List.forall₂_same.2 fun _ _ => rfl
  have hread := h.read file
  generalize hx : t.read file = x at hread
  generalize hy : u.read file = y at hread
  cases hread with
  | error e =>
    rw [findingsOfFile_congr (hx.trans hy.symm)]
    exact matched_self hsame _
  | ok hcontent =>
    cases hcontent with
    | same =>
      rw [findingsOfFile_congr (hx.trans hy.symm)]
      exact matched_self hsame _
    | decoded hd hd' hmarks =>
      rw [findingsOfFile_of_decodes hx hd, findingsOfFile_of_decodes hy hd']
      exact (matched_findingsOf hmarks).mapError _

/-! ### Courses -/

inductive Output.Alike (levels : Nat) : Output → Output → Prop
  | nothing : Alike levels .nothing .nothing
  | file {content content' : Files.Bytes} (h : SameButMarks levels content content') :
      Alike levels (.file content) (.file content')
  | directory : Alike levels .directory .directory

namespace Course

variable {σ : Type} {t u : Files.Tree}

/-- Courses that are the same but for the marks in the results that they leave, where what else becomes of the files does not
depend on these marks. -/
inductive Alike (levels : Nat) : Course σ → Course σ → Prop
  | mk {c : Course σ} {output : Output} (houtput : c.output.Alike levels output)
      (hdisturbs : ∀ nodes nodes', Files.NodesAlike (SameButMarks levels) nodes nodes' →
        Files.NodesAlike (SameButMarks levels) (c.disturbs nodes) (c.disturbs nodes')) : Alike levels c { c with output }

theorem alike_attempt (h : t.Alike (SameButMarks levels) u) {x y : Except Files.Fault Files.Tree}
    (hxy : Matched (Files.Tree.Alike (SameButMarks levels)) x y) : (attempt t x).Alike (SameButMarks levels) (attempt u y) := by
  cases hxy with
  | ok hchanged => exact hchanged
  | error => exact h

theorem alike_writeFile (h : t.Alike (SameButMarks levels) u) (path : Files.Path) (content : Files.Bytes) :
    (writeFile t path content).Alike (SameButMarks levels) (writeFile u path content) := by
  have hdirectory : ((t.paved path.parent).getD t).Alike (SameButMarks levels) ((u.paved path.parent).getD u) := by
    have hpaved := h.paved path.parent
    generalize t.paved path.parent = x at hpaved ⊢
    generalize u.paved path.parent = y at hpaved ⊢
    cases hpaved with
    | none => exact h
    | some hpaved => exact hpaved
  exact alike_attempt hdirectory (hdirectory.write path (.same content))

theorem alike_deleteFiles (h : t.Alike (SameButMarks levels) u) (directory : Files.Path) :
    (deleteFiles t directory).Alike (SameButMarks levels) (deleteFiles u directory) := by
  rw [deleteFiles, deleteFiles, h.reach]
  split
  · exact h
  · refine ⟨h.nodes.filter fun place node node' hnode => ?_, h.here⟩
    cases hnode <;> rfl

theorem alike_writeOutput (h : t.Alike (SameButMarks levels) u) {output output' : Output} (houtput : output.Alike levels output')
    (target : Option Files.Path) : (writeOutput output target t).Alike (SameButMarks levels) (writeOutput output' target u) := by
  cases target with
  | none => exact h
  | some path =>
    cases houtput with
    | nothing => exact h
    | file hcontent => exact alike_attempt h (h.write path hcontent)
    | directory =>
      have hdirectory := alike_attempt h (h.makeDirectory path)
      exact alike_attempt hdirectory (hdirectory.write (path.child "x") (.same []))

theorem alike_foldl {α : Type} {f : Files.Tree → α → Files.Tree}
    (hf : ∀ (a : α) {t u : Files.Tree}, t.Alike (SameButMarks levels) u → (f t a).Alike (SameButMarks levels) (f u a)) :
    ∀ (as : List α) {t u : Files.Tree}, t.Alike (SameButMarks levels) u →
    (as.foldl f t).Alike (SameButMarks levels) (as.foldl f u)
  | [], _, _, h => h
  | a :: as, _, _, h => alike_foldl hf as (hf a h)

theorem Alike.disturbed {c c' : Course σ} (hc : c.Alike levels c') (h : t.Alike (SameButMarks levels) u) :
    (c.disturbed t).Alike (SameButMarks levels) (c'.disturbed u) := by
  cases hc with
  | mk _ hdisturbs => exact ⟨hdisturbs _ _ h.nodes, h.here⟩

/-- Processes that end by themselves leave trees that are alike. -/
theorem Alike.finish {c c' : Course σ} (hc : c.Alike levels c') (h : t.Alike (SameButMarks levels) u) (argv : List String)
    (directory : Files.Path) : (c.finish argv directory t).Alike (SameButMarks levels) (c'.finish argv directory u) := by
  have hfiles := alike_foldl (fun (file : String × String) {_ _} h =>
    alike_writeFile h (directory.child file.1) (Text.Utf8.encode file.2)) c.files h
  cases hc with
  | mk houtput hdisturbs =>
    rw [Course.finish, Course.finish]
    refine Alike.disturbed (.mk houtput hdisturbs) (alike_writeOutput ?_ houtput _)
    dsimp only
    split
    · exact alike_deleteFiles hfiles directory
    · exact hfiles

end Course

end Analyzer
end Adjudication
