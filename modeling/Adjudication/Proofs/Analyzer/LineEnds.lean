import Adjudication.Proofs.Analyzer.Acceptance
import Adjudication.Proofs.Files.Tree
import Adjudication.Proofs.Json.Bounds
import Adjudication.Proofs.Json.LineEnds

/-!
Results in a file and as text. A file is read with its line ends unified, which changes neither whether a document is
accepted nor any value in it; so the findings of a file are those of its text, or both are refused alike. A text beyond the
limits of JSON is neither: reading it, in a file or as it is, ends in just that failure.
-/

namespace Adjudication.Analyzer

variable {levels : Nat} {t : Files.Tree} {file : Files.Path} {text : String}

/-- The same findings, or failures of the results of one kind. -/
inductive Agree : Except Failure (List Finding) → Except Failure (List Finding) → Prop
  | findings (fs : List Finding) : Agree (.ok fs) (.ok fs)
  | refused {r r' : ResultsError} (h : r.kind = r'.kind) : Agree (.error (.results r)) (.error (.results r'))

theorem not_agree_excess {e : Json.Excess} {x : Except Failure (List Finding)} : ¬Agree (.error (.excess e)) x := nofun

theorem agree_of_read (d : Json) : Agree ((findingsOf d).mapError .results) ((findingsOf d).mapError .results) := by
  cases findingsOf d with
  | ok fs => exact .findings fs
  | error r => exact .refused rfl

/-- Texts that differ in their line ends agree, unless they are beyond the limits. -/
theorem agree_unifyLineEnds (h : ∀ e, Json.readWide levels text ≠ .error (.excess e)) :
    Agree (findingsOfText levels (String.ofList (Text.Utf8.unifyLineEnds text.toList))) (findingsOfText levels text) := by
  rcases Json.readWide_unifyLineEnds text with ⟨d, hunified, hread⟩ | ⟨e, e', hunified, hread, halike⟩
  · rw [findingsOfText_of_read hunified, findingsOfText_of_read hread]
    exact agree_of_read d
  · cases halike with
    | malformed =>
      simp only [findingsOfText, hunified, hread]
      exact .refused rfl
    | excess e => exact absurd hread (h e)

theorem findingsOfText_of_excess {text : Text.Wide} {e : Json.Excess} (h : Json.readWide levels text = .error (.excess e)) :
    findingsOfText levels text = .error (.excess e) := by
  simp only [findingsOfText, h]

/-- Beyond the limits a text ends in the same failure, in a file or as it is. -/
theorem findingsOfText_unifyLineEnds_of_excess {e : Json.Excess} (h : Json.readWide levels text = .error (.excess e)) :
    findingsOfText levels (String.ofList (Text.Utf8.unifyLineEnds text.toList)) = .error (.excess e) :=
  findingsOfText_of_excess (Json.readWide_unifyLineEnds_of_excess h)

theorem readText_of_encode (h : t.read file = .ok (Text.Utf8.encode text)) :
    t.readText file = .ok (String.ofList (Text.Utf8.unifyLineEnds text.toList)) := by
  simp [Files.Tree.readText, h, Text.Utf8.decode?_encode, bind, Except.bind, pure, Except.pure]

theorem findingsOfFile_eq (h : t.read file = .ok (Text.Utf8.encode text)) :
    findingsOfFile levels t file = findingsOfText levels (String.ofList (Text.Utf8.unifyLineEnds text.toList)) := by
  rw [findingsOfFile, readText_of_encode h]

/-- What reading a file that holds a text comes to.
* It agrees with reading the text, in the findings or in the kind of the failure, just if the text is within the limits of
  JSON.
* Beyond them both end in the same failure, which is none of the results.
* The file is read with its line ends unified, and what is then read as JSON is the very value that the text is. -/
theorem findingsOfFile_of_encode (h : t.read file = .ok (Text.Utf8.encode text)) :
    (Agree (findingsOfFile levels t file) (findingsOfText levels text) ↔ ∀ e, Json.readWide levels text ≠ .error (.excess e)) ∧
      (∀ e, Json.readWide levels text = .error (.excess e) →
        findingsOfFile levels t file = .error (.excess e) ∧ findingsOfText levels text = .error (.excess e)) ∧
      ∃ shown, t.readText file = .ok shown ∧ shown.toList = Text.Utf8.unifyLineEnds text.toList ∧
        ∀ d, Json.readWide levels shown = .ok d ↔ Json.readWide levels text = .ok d := by
  rw [findingsOfFile_eq h]
  refine ⟨⟨fun hagree e he => ?_, agree_unifyLineEnds⟩,
    fun e he => ⟨findingsOfText_unifyLineEnds_of_excess he, findingsOfText_of_excess he⟩, _, readText_of_encode h,
    String.toList_ofList, fun d => Json.readWide_unifyLineEnds_eq_ok⟩
  rw [findingsOfText_unifyLineEnds_of_excess he] at hagree
  exact not_agree_excess hagree

/-! ### Two files -/

/-- A tree with a file of results that holds a text. -/
def holding (text : String) : Files.Tree := ⟨[(["results.json"], .file (Text.Utf8.encode text))], []⟩

def held : Files.Path := ⟨.root, ["results.json"]⟩

theorem read_holding (text : String) : (holding text).read held = .ok (Text.Utf8.encode text) := by
  have hreach : (holding text).reach held = .ok ["results.json"] := rfl
  exact Files.Tree.read_of_file hreach (by simp [Files.Tree.get?, holding])

/-- A document whose lines end in CR LF and in CR. -/
def returnsText : String :=
  "\x7b\"results\":\x7b\"detectors\":\r\n[\x7b\"check\":\"a\",\r\"impact\":\"low\"\x7d]\x7d\x7d"

theorem readWide_returnsText : Json.readWide Json.usualLevels returnsText = .ok (listing [rated (.str "a") "low"]) := by cbv

theorem findingsOfText_returnsText :
    findingsOfText Json.usualLevels returnsText = .ok [⟨"a", .low, .text "", [], none, none⟩] := by
  rw [findingsOfText_of_read readWide_returnsText]
  cbv

/-- The document has its finding in a file as well. -/
theorem findingsOfFile_of_encode_returns : (holding returnsText).read held = .ok (Text.Utf8.encode returnsText) ∧
    '\r' ∈ returnsText.toList ∧ Agree (findingsOfFile Json.usualLevels (holding returnsText) held)
    (findingsOfText Json.usualLevels returnsText) ∧
    findingsOfFile Json.usualLevels (holding returnsText) held = .ok [⟨"a", .low, .text "", [], none, none⟩] := by
  have hread := read_holding returnsText
  have hagree := (findingsOfFile_of_encode hread).1.2 fun e he => by
    rw [readWide_returnsText] at he
    cases he
  refine ⟨hread, by decide, hagree, ?_⟩
  rw [findingsOfText_returnsText] at hagree
  generalize findingsOfFile Json.usualLevels (holding returnsText) held = x at hagree
  cases hagree
  rfl

def brackets (n : Nat) : String := String.ofList (List.replicate n '[')

/-- Brackets that lie too deep bring neither findings nor a failure of the results, in a file or as text. -/
theorem findingsOf_brackets {n : Nat} (h : levels < n) :
    findingsOfFile levels (holding (brackets n)) held = .error (.excess (.nesting .array)) ∧
      findingsOfText levels (brackets n) = .error (.excess (.nesting .array)) := by
  have hdeep : Json.readWide levels (brackets n) = .error (.excess (.nesting .array)) := Json.readWide_brackets h
  exact ⟨(findingsOfFile_eq (read_holding _)).trans (findingsOfText_unifyLineEnds_of_excess hdeep),
    findingsOfText_of_excess hdeep⟩

/-- Five thousand of them are a text without any number, and yet do not agree with what is read of their file. -/
theorem not_agree_brackets : (holding (brackets 5000)).read held = .ok (Text.Utf8.encode (brackets 5000)) ∧
    (∀ c ∈ (brackets 5000).toList, c = '[') ∧
    findingsOfFile Json.usualLevels (holding (brackets 5000)) held = .error (.excess (.nesting .array)) ∧
    findingsOfText Json.usualLevels (brackets 5000) = .error (.excess (.nesting .array)) ∧
    ¬Agree (findingsOfFile Json.usualLevels (holding (brackets 5000)) held)
    (findingsOfText Json.usualLevels (brackets 5000)) := by
  have hdeep : Json.usualLevels < 5000 := by decide
  obtain ⟨hfile, htext⟩ := findingsOf_brackets hdeep
  refine ⟨read_holding _, fun c hc => ?_, hfile, htext, fun hagree => ?_⟩
  · rw [brackets, String.toList_ofList] at hc
    exact (List.mem_replicate.1 hc).2
  · rw [hfile] at hagree
    exact not_agree_excess hagree

end Adjudication.Analyzer
