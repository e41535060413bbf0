import Adjudication.Analyzer.Results
import Adjudication.Proofs.Judge.Sound

/-!
Documents of results and their findings: the findings of a document are those of its detector entries, one each and in
order. Reading them fails for the results, for the file, or for a text beyond the limits.
-/

namespace Adjudication

/-- A failure that comes of reading findings: of the results, of a text beyond the limits, or of the file. -/
def Failure.isOfReading : Failure → Bool
  | .results _ | .excess _ | .file _ => true
  | _ => false

namespace Analyzer

variable {levels : Nat} {t : Files.Tree} {file : Files.Path} {fs : List Finding}

/-- There is a document in a file that has just the given detector entries. -/
def Entries (levels : Nat) (t : Files.Tree) (file : Files.Path) (entries : List Json) : Prop :=
  ∃ text document, t.readText file = .ok text ∧ Json.readWide levels text = .ok (.obj document) ∧
    entriesOf document = .ok entries

/-- Entries that are read become one finding each, in order. -/
theorem findingsFrom_eq_ok : ∀ {entries : List Json} {index : Nat} {fs : List Finding},
    findingsFrom index entries = .ok fs → fs.length = entries.length ∧
      ∀ i entry, entries[i]? = some entry → ∃ f, fs[i]? = some f ∧ findingOf (index + i) entry = .ok f
  | [], index, fs, h => by
    obtain rfl := Except.ok.inj h
    exact ⟨rfl, fun i entry he => by simp at he⟩
  | entry :: entries, index, fs, h => by
    rw [findingsFrom] at h
    cases hf : findingOf index entry with
    | error e =>
      rw [hf] at h
      cases h
    | ok f =>
      cases hrest : findingsFrom (index + 1) entries with
      | error e =>
        rw [hf, hrest] at h
        cases h
      | ok rest =>
        rw [hf, hrest] at h
        obtain rfl := Except.ok.inj h
        obtain ⟨hlength, hall⟩ := findingsFrom_eq_ok hrest
        refine ⟨congrArg (· + 1) hlength, ?_⟩
        rintro (_ | i) other ho
        · obtain rfl := Option.some.inj ho
          exact ⟨f, rfl, hf⟩
        · obtain ⟨g, hg, hother⟩ := hall i other ho
          exact ⟨g, hg, by rwa [Nat.add_right_comm] at hother⟩

/-- Findings are read off a file if they are those of the entries of the document in it. -/
theorem findingsOfFile_eq_ok (h : findingsOfFile levels t file = .ok fs) :
    ∃ entries, Entries levels t file entries ∧ findingsFrom 0 entries = .ok fs := by
  rw [findingsOfFile] at h
  split at h
  next text htext =>
    rw [findingsOfText] at h
    split at h
    next d hd =>
      cases hfs : findingsOf d with
      | error e =>
        rw [hfs] at h
        cases h
      | ok other =>
        rw [hfs] at h
        obtain rfl : other = fs := Except.ok.inj h
        cases d with
        | obj document =>
          cases hentries : entriesOf document with
          | error e =>
            rw [findingsOf, hentries] at hfs
            cases hfs
          | ok entries =>
            rw [findingsOf, hentries] at hfs
            exact ⟨entries, ⟨text, document, htext, hd, hentries⟩, hfs⟩
        | _ => cases hfs
    next => cases h
    next => cases h
  next => cases h
  next => cases h

theorem isOfReading_of_findingsOfFile {e : Failure} (h : findingsOfFile levels t file = .error e) : e.isOfReading = true := by
  have htext : ∀ text, findingsOfText levels text = .error e → e.isOfReading = true := by
    intro text ht
    rw [findingsOfText] at ht
    split at ht
    next d _ =>
      cases hd : findingsOf d with
      | ok fs =>
        rw [hd] at ht
        cases ht
      | error reason =>
        rw [hd] at ht
        obtain rfl := Except.error.inj ht
        rfl
    next => exact Except.error.inj ht ▸ rfl
    next => exact Except.error.inj ht ▸ rfl
  rw [findingsOfFile] at h
  split at h
  next text _ => exact htext text h
  next => exact Except.error.inj h ▸ rfl
  next => exact Except.error.inj h ▸ rfl

end Analyzer
end Adjudication
