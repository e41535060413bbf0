import Adjudication.Proofs.Analyzer.Results
import Mathlib

/-!
Which documents of results are accepted. A document is accepted exactly if it lists detector entries each of which has an
impact that is rated and a name, or if it is the document of a clean run. What an entry becomes does not depend on where
it stands; of entries that are wrong the first one is named.
-/

namespace Adjudication.Analyzer

variable {levels index : Nat} {entry d : Json} {entries : List Json} {f g : Finding} {fs : List Finding} {e : ResultsError}

/-! ### Entries -/

/-- The words for impacts. -/
inductive Rated : String → Severity → Prop where
  | high : Rated "high" .high
  | medium : Rated "medium" .medium
  | low : Rated "low" .low
  | informational : Rated "informational" .informational
  | optimization : Rated "optimization" .informational

/-- The words that are looked up are the words for impacts. -/
theorem lookup_severityOf_iff {word : String} {severity : Severity} :
    Schema.lookup word severityOf = some severity ↔ Rated word severity := by
  constructor
  · intro h
    obtain ⟨p, hp, rfl⟩ := Option.map_eq_some_iff.1 h
    obtain rfl : p.1 = word := by simpa using List.find?_some hp
    have hmem := List.mem_of_find?_eq_some hp
    simp only [severityOf, List.mem_cons, List.not_mem_nil, or_false] at hmem
    rcases hmem with rfl | rfl | rfl | rfl | rfl
    · exact .high
    · exact .medium
    · exact .low
    · exact .informational
    · exact .optimization
  · intro h
    cases h <;> rfl

theorem Rated.unique {word : String} {a b : Severity} (ha : Rated word a) (hb : Rated word b) : a = b :=
  Option.some.inj ((lookup_severityOf_iff.2 ha).symm.trans (lookup_severityOf_iff.2 hb))

/-- A text that is not empty. -/
def IsName (v : Json) : Prop := ∃ name, v = .str name ∧ name ≠ ""

/-- A text that is not empty, whether or not all of its code points are characters. One that is torn has a surrogate, so
it is never empty. -/
def IsWideName (v : Json) : Prop := IsName v ∨ ∃ t, v = .torn t

/-- An entry of a detector: it has an impact that is rated, and a name. -/
def Detector (named : Json → Prop) (entry : Json) : Prop :=
  ∃ ms severity v, entry = .obj ms ∧ Rated (wordOf (Json.Members.get? "impact" ms)) severity ∧
    Json.Members.get? "check" ms = some v ∧ named v

/-- The finding that an entry stands for. -/
inductive Detected : Json → Finding → Prop where
  | entry {ms : Json.Members} {severity : Severity} {check : String}
      (hrated : Rated (wordOf (Json.Members.get? "impact" ms)) severity)
      (hcheck : Json.Members.get? "check" ms = some (.str check)) (hne : check ≠ "") :
      Detected (.obj ms)
        { checkId := check
          severity
          description := (filled? "description" ms).elim (.text "") fun v => v.display.trim
          locations := locationsOf (Json.Members.get? "elements" ms)
          certainty := Schema.lookup (wordOf (Json.Members.get? "confidence" ms)) Certainty.named
          fingerprint := fingerprintOf ms }

/-- An entry stands for one finding. -/
theorem Detected.unique (hf : Detected entry f) (hg : Detected entry g) : f = g := by
  cases hf with
  | entry hrated hcheck _ =>
    cases hg with
    | entry hrated' hcheck' _ =>
      obtain rfl := hrated.unique hrated'
      obtain rfl : _ = _ := Json.str.inj (Option.some.inj (hcheck.symm.trans hcheck'))
      rfl

theorem exists_detected_iff : (∃ f, Detected entry f) ↔ Detector IsName entry := by
  constructor
  · rintro ⟨f, h⟩
    cases h with
    | entry hrated hcheck hne => exact ⟨_, _, _, rfl, hrated, hcheck, _, rfl, hne⟩
  · rintro ⟨ms, severity, v, rfl, hrated, hcheck, name, rfl, hne⟩
    exact ⟨_, .entry hrated hcheck hne⟩

/-- A value that is not torn passes with its characters, if it has any. -/
theorem plainText_eq {v : Json} : Schema.plainText v =
    match Schema.text v with
    | .ok t => .ok t.nearest
    | .faulty faults => .faulty faults := by
  cases h : Schema.text v <;> simp [Schema.plainText, h, Functor.map, Schema.Checked.apply]

/-- A text of one character or more is a text of characters that is not empty. -/
theorem textOfLength_one_iff {v : Json} {name : String} :
    Schema.textOfLength 1 v = .ok name ↔ v = .str name ∧ name ≠ "" := by
  have hlength : ∀ text : String, text.length < 1 ↔ text = "" := by
    intro text
    rw [Nat.lt_one_iff, String.length_eq_zero_iff]
  cases v with
  | str text =>
    by_cases htext : text = ""
    · subst htext
      simp [Schema.textOfLength, Schema.readable, plainText_eq, Schema.text, Schema.textOf?, Schema.shape, Schema.Checked.bind,
        Schema.Checked.fault, eq_comm]
    · have hread : Schema.textOfLength 1 (.str text : Json) = .ok text := by
        simp [Schema.textOfLength, Schema.readable, plainText_eq, Schema.text, Schema.textOf?, Schema.shape, Schema.Checked.bind,
          htext]
      rw [hread]
      constructor
      · rintro ⟨rfl⟩
        exact ⟨rfl, htext⟩
      · rintro ⟨⟨rfl⟩, -⟩
        rfl
  | null | bool | int | double | torn | arr | obj =>
    simp [Schema.textOfLength, Schema.readable, plainText_eq, Schema.text, Schema.textOf?, Schema.shape, Schema.Checked.bind,
      Schema.Checked.fault]

/-- The member that names an entry passes exactly if it is a name. -/
theorem checkName_iff {ms : Json.Members} {name : String} :
    Schema.textOfLength 1 ((filled? "check" ms).getD (.str "")) = .ok name ↔
      Json.Members.get? "check" ms = some (.str name) ∧ name ≠ "" := by
  rw [textOfLength_one_iff, filled?]
  cases hcheck : Json.Members.get? "check" ms with
  | none => simp [eq_comm]
  | some v =>
    by_cases hv : v.isFalsy = true
    · have hempty : v = .str name → name = "" := by
        rintro rfl
        simpa [Json.isFalsy] using hv
      simp only [hv, if_true, Option.getD_none, Option.some.injEq, Json.str.injEq]
      constructor
      · rintro ⟨rfl, hne⟩
        exact absurd rfl hne
      · rintro ⟨hname, hne⟩
        exact absurd (hempty hname) hne
    · simp [hv]

/-- The failure of an entry names it. -/
def Names (index : Nat) (e : ResultsError) : Prop :=
  e.kind = "schema_mismatch" ∧ ∃ what, e.message = .text ("detector #" ++ toString index ++ " ") ++ what

/-- An entry becomes the finding that it stands for, wherever it is. -/
theorem findingOf_of_detected (h : Detected entry f) : findingOf index entry = .ok f := by
  cases h with
  | @entry ms severity check hrated hcheck hne =>
    have hname := checkName_iff.2 ⟨hcheck, hne⟩
    simp only [findingOf, lookup_severityOf_iff.2 hrated, Schema.validate, hname, Schema.Checked.under]
    cases filled? "description" ms <;> rfl

theorem names_of_message {words what : String} {rest : Text.Wide} (hkind : e.kind = "schema_mismatch")
    (hmessage : e.message = .text ("detector #" ++ toString index ++ words) ++ rest) (hwords : words = " " ++ what) :
    Names index e := by
  refine ⟨hkind, .text what ++ rest, hmessage.trans (Text.Wide.codes_injective ?_)⟩
  simp [hwords, Text.codesOf]

theorem names_entryNotObject (index : Nat) : Names index (.entryNotObject index) := by
  have hmessage : (ResultsError.entryNotObject index).message =
      .text ("detector #" ++ toString index ++ " is not an object") ++ .text "" :=
    congrArg Text.Wide.text String.append_empty.symm
  have hwords : " is not an object" = " " ++ "is not an object" := rfl
  exact names_of_message rfl hmessage hwords

theorem names_unknownImpact (index : Nat) (impact : Json) : Names index (.unknownImpact index impact) := by
  have hassoc : ∀ a b c : Text.Wide, a ++ b ++ c = a ++ (b ++ c) := fun a b c =>
    Text.Wide.codes_injective (by simp [List.append_assoc])
  have hwords : " has unknown impact '" = " " ++ "has unknown impact '" := rfl
  exact names_of_message rfl (hassoc _ _ _) hwords

theorem names_entryInvalid (index : Nat) (invalid : Schema.Invalid Unit) : Names index (.entryInvalid index invalid) := by
  have hmessage : (ResultsError.entryInvalid index invalid).message =
      .text ("detector #" ++ toString index ++ " is invalid: ") ++ .text invalid.message := rfl
  have hwords : " is invalid: " = " " ++ "is invalid: " := rfl
  exact names_of_message rfl hmessage hwords

/-- An entry that stands for no finding is named. -/
theorem findingOf_of_not_detector (index : Nat) (h : ¬Detector IsName entry) :
    ∃ e, findingOf index entry = .error e ∧ Names index e := by
  cases entry with
  | obj ms =>
    cases hseverity : Schema.lookup (wordOf (Json.Members.get? "impact" ms)) severityOf with
    | none => exact ⟨_, by simp only [findingOf, hseverity]; rfl, names_unknownImpact _ _⟩
    | some severity =>
      have hrated := lookup_severityOf_iff.1 hseverity
      cases hname : Schema.textOfLength 1 ((filled? "check" ms).getD (.str "")) with
      | ok name =>
        obtain ⟨hcheck, hne⟩ := checkName_iff.1 hname
        exact absurd ⟨ms, severity, _, rfl, hrated, hcheck, name, rfl, hne⟩ h
      | faulty faults =>
        have herror : ∃ invalid, findingOf index (.obj ms) = .error (.entryInvalid index invalid) :=
          ⟨_, by simp only [findingOf, hseverity, Schema.validate, hname, Schema.Checked.under]; rfl⟩
        obtain ⟨invalid, hinvalid⟩ := herror
        exact ⟨_, hinvalid, names_entryInvalid _ _⟩
  | null | bool | int | double | str | torn | arr => exact ⟨_, rfl, names_entryNotObject _⟩

theorem findingOf_eq_ok_iff : findingOf index entry = .ok f ↔ Detected entry f := by
  refine ⟨fun h => ?_, findingOf_of_detected⟩
  by_cases hentry : Detector IsName entry
  · obtain ⟨g, hg⟩ := exists_detected_iff.2 hentry
    obtain rfl := Except.ok.inj (h.symm.trans (findingOf_of_detected hg))
    exact hg
  · obtain ⟨e, he, -⟩ := findingOf_of_not_detector index hentry
    rw [h] at he
    cases he

/-! ### Rows of entries -/

/-- Entries that all stand for findings become these, one each and in order. -/
theorem findingsFrom_of_detected (h : List.Forall₂ Detected entries fs) : findingsFrom index entries = .ok fs := by
  induction h generalizing index with
  | nil => rfl
  | cons hf _ ih =>
    rw [findingsFrom, findingOf_of_detected hf, ih]
    rfl

/-- Of entries that do not all stand for findings the first that stands for none is named. -/
theorem findingsFrom_of_not_detector (index : Nat) (h : ¬∀ entry ∈ entries, Detector IsName entry) :
    ∃ e i entry, findingsFrom index entries = .error e ∧ Names (index + i) e ∧ entries[i]? = some entry ∧
      ¬Detector IsName entry ∧ ∀ j < i, ∀ other, entries[j]? = some other → Detector IsName other := by
  induction entries generalizing index with
  | nil => exact absurd (fun _ hentry => absurd hentry List.not_mem_nil) h
  | cons entry entries ih =>
    by_cases hentry : Detector IsName entry
    · obtain ⟨f, hf⟩ := exists_detected_iff.2 hentry
      have hrest : ¬∀ other ∈ entries, Detector IsName other := fun hall => h (List.forall_mem_cons.2 ⟨hentry, hall⟩)
      obtain ⟨e, i, bad, he, hnames, hbad, hnot, hbefore⟩ := ih (index + 1) hrest
      refine ⟨e, i + 1, bad, ?_, ?_, hbad, hnot, ?_⟩
      · rw [findingsFrom, findingOf_of_detected hf, he]
        rfl
      · rwa [Nat.add_right_comm] at hnames
      · rintro (_ | j) hj other hother
        · obtain rfl := Option.some.inj hother
          exact hentry
        · exact hbefore j (Nat.lt_of_succ_lt_succ hj) other hother
    · obtain ⟨e, he, hnames⟩ := findingOf_of_not_detector index hentry
      refine ⟨e, 0, entry, ?_, hnames, rfl, hentry, fun j hj => absurd hj (Nat.not_lt_zero j)⟩
      rw [findingsFrom, he]
      rfl

theorem exists_forall₂_detected_iff :
    (∃ fs, List.Forall₂ Detected entries fs) ↔ ∀ entry ∈ entries, Detector IsName entry := by
  induction entries with
  | nil => exact ⟨fun _ _ h => absurd h List.not_mem_nil, fun _ => ⟨[], .nil⟩⟩
  | cons entry entries ih =>
    rw [List.forall_mem_cons, ← ih, ← exists_detected_iff]
    constructor
    · rintro ⟨fs, h⟩
      cases h with
      | cons hf hfs => exact ⟨⟨_, hf⟩, _, hfs⟩
    · rintro ⟨⟨f, hf⟩, fs, hfs⟩
      exact ⟨f :: fs, .cons hf hfs⟩

/-! ### Documents -/

/-- A document lists entries. -/
def Listed (d : Json) (entries : List Json) : Prop :=
  ∃ document results, d = .obj document ∧ Json.Members.get? "results" document = some (.obj results) ∧
    Json.Members.get? "detectors" results = some (.arr entries)

/-- The document of a clean run. -/
def Clean (d : Json) : Prop :=
  ∃ document, d = .obj document ∧ Json.Members.get? "results" document = some (.obj []) ∧
    Json.Members.get? "success" document = some (.bool true)

/-- A document lists entries of detectors only, or it is that of a clean run. -/
def Acceptable (named : Json → Prop) (d : Json) : Prop :=
  (∃ entries, Listed d entries ∧ ∀ entry ∈ entries, Detector named entry) ∨ Clean d

theorem findingsOf_of_listed (h : Listed d entries) : findingsOf d = findingsFrom 0 entries := by
  obtain ⟨document, results, rfl, hresults, hentries⟩ := h
  simp only [findingsOf, entriesOf, hresults, hentries]
  rfl

theorem findingsOf_of_clean (h : Clean d) : findingsOf d = .ok [] := by
  obtain ⟨document, rfl, hresults, hsuccess⟩ := h
  simp only [findingsOf, entriesOf, hresults, hsuccess]
  rfl

/-- A document that neither lists entries nor is that of a clean run has none to read. -/
theorem findingsOf_of_neither (hlisted : ∀ entries, ¬Listed d entries) (hclean : ¬Clean d) :
    ∃ e, findingsOf d = .error e ∧ e.kind = "schema_mismatch" := by
  cases d with
  | obj document =>
    have hentries : ∃ e, entriesOf document = .error e ∧ e.kind = "schema_mismatch" := by
      rw [entriesOf]
      split
      next results hresults =>
        split
        next entries hentries => exact absurd ⟨document, results, rfl, hresults, hentries⟩ (hlisted entries)
        next => exact ⟨_, rfl, rfl⟩
        next =>
          split
          next hsuccess _ => exact absurd ⟨document, rfl, hresults, hsuccess⟩ hclean
          next => exact ⟨_, rfl, rfl⟩
      next => exact ⟨_, rfl, rfl⟩
    obtain ⟨e, he, hkind⟩ := hentries
    exact ⟨e, by rw [findingsOf, he]; rfl, hkind⟩
  | null | bool | int | double | str | torn | arr => exact ⟨_, rfl, rfl⟩

/-- A document lists its entries in one way, and a clean run lists none. -/
theorem Listed.unique {others : List Json} (h : Listed d entries) (h' : Listed d others) : entries = others := by
  obtain ⟨document, results, rfl, hresults, hentries⟩ := h
  obtain ⟨_, other, ⟨rfl⟩, hother, hothers⟩ := h'
  obtain rfl := Json.obj.inj (Option.some.inj (hresults.symm.trans hother))
  exact Json.arr.inj (Option.some.inj (hentries.symm.trans hothers))

theorem Listed.not_clean (h : Listed d entries) : ¬Clean d := by
  rintro ⟨_, ⟨rfl⟩, hclean, -⟩
  obtain ⟨document, results, ⟨rfl⟩, hresults, hentries⟩ := h
  obtain rfl := Json.obj.inj (Option.some.inj (hclean.symm.trans hresults))
  simp [Json.Members.get?] at hentries

/-- A document that is not acceptable has no findings; if it lists entries, the first that is wrong is named. -/
theorem findingsOf_of_not_acceptable (h : ¬Acceptable IsName d) :
    ∃ e, findingsOf d = .error e ∧ e.kind = "schema_mismatch" ∧ ∀ entries, Listed d entries →
      ∃ i entry, entries[i]? = some entry ∧ ¬Detector IsName entry ∧
        (∀ j < i, ∀ other, entries[j]? = some other → Detector IsName other) ∧ Names i e := by
  by_cases hlisted : ∃ entries, Listed d entries
  · obtain ⟨entries, hentries⟩ := hlisted
    have hwrong : ¬∀ entry ∈ entries, Detector IsName entry := fun hall => h (.inl ⟨entries, hentries, hall⟩)
    obtain ⟨e, i, entry, he, hnames, hentry, hnot, hbefore⟩ := findingsFrom_of_not_detector 0 hwrong
    rw [Nat.zero_add] at hnames
    refine ⟨e, (findingsOf_of_listed hentries).trans he, hnames.1, fun others hothers => ?_⟩
    obtain rfl := hentries.unique hothers
    exact ⟨i, entry, hentry, hnot, hbefore, hnames⟩
  · obtain ⟨e, he, hkind⟩ := findingsOf_of_neither (fun entries hentries => hlisted ⟨entries, hentries⟩) fun hc => h (.inr hc)
    exact ⟨e, he, hkind, fun entries hentries => absurd ⟨entries, hentries⟩ hlisted⟩

theorem findingsOf_eq_ok_iff :
    findingsOf d = .ok fs ↔ (∃ entries, Listed d entries ∧ List.Forall₂ Detected entries fs) ∨ Clean d ∧ fs = [] := by
  constructor
  · intro hfs
    by_cases hacceptable : Acceptable IsName d
    · rcases hacceptable with ⟨entries, hentries, hall⟩ | hclean
      · obtain ⟨others, hothers⟩ := exists_forall₂_detected_iff.2 hall
        rw [findingsOf_of_listed hentries, findingsFrom_of_detected hothers] at hfs
        obtain rfl := Except.ok.inj hfs
        exact .inl ⟨entries, hentries, hothers⟩
      · rw [findingsOf_of_clean hclean] at hfs
        exact .inr ⟨hclean, (Except.ok.inj hfs).symm⟩
    · obtain ⟨e, he, -⟩ := findingsOf_of_not_acceptable hacceptable
      rw [he] at hfs
      cases hfs
  · rintro (⟨entries, hentries, hall⟩ | ⟨hclean, rfl⟩)
    · rw [findingsOf_of_listed hentries, findingsFrom_of_detected hall]
    · exact findingsOf_of_clean hclean

theorem exists_findingsOf_iff : (∃ fs, findingsOf d = .ok fs) ↔ Acceptable IsName d := by
  simp only [findingsOf_eq_ok_iff, Acceptable, ← exists_forall₂_detected_iff]
  constructor
  · rintro ⟨fs, ⟨entries, hentries, hall⟩ | ⟨hclean, -⟩⟩
    · exact .inl ⟨entries, hentries, fs, hall⟩
    · exact .inr hclean
  · rintro (⟨entries, hentries, fs, hall⟩ | hclean)
    · exact ⟨fs, .inl ⟨entries, hentries, hall⟩⟩
    · exact ⟨[], .inr ⟨hclean, rfl⟩⟩

/-! ### Texts -/

theorem findingsOfText_of_read {text : Text.Wide} (h : Json.readWide levels text = .ok d) :
    findingsOfText levels text = (findingsOf d).mapError .results := by
  rw [findingsOfText, h]

/-- What is read off a text. If it is JSON, its findings are read exactly if the document is acceptable, and then they are
those that its entries stand for, one each and in order; if the document is not acceptable, it does not match the schema,
and the first of the entries that is wrong is named. What an entry stands for depends on the entry only. A text that is not
JSON is malformed. -/
theorem findingsOfText_exact (text : Text.Wide) :
    (∀ d, Json.readWide levels text = .ok d →
      ((∃ fs, findingsOfText levels text = .ok fs) ↔ Acceptable IsName d) ∧
      (∀ fs, findingsOfText levels text = .ok fs ↔
        (∃ entries, Listed d entries ∧ List.Forall₂ Detected entries fs) ∨ Clean d ∧ fs = []) ∧
      (¬Acceptable IsName d → ∃ r, findingsOfText levels text = .error (.results r) ∧ r.kind = "schema_mismatch" ∧
        ∀ entries, Listed d entries → ∃ i entry, entries[i]? = some entry ∧ ¬Detector IsName entry ∧
          (∀ j < i, ∀ other, entries[j]? = some other → Detector IsName other) ∧ Names i r)) ∧
    (∀ entry f g, Detected entry f → Detected entry g → f = g) ∧
    (∀ problem line column index, Json.readWide levels text = .error (.malformed problem line column index) →
      ∃ r, findingsOfText levels text = .error (.results r) ∧ r.kind = "malformed") := by
  refine ⟨fun d hd => ?_, fun _ _ _ => Detected.unique, fun problem line column index hbad => ?_⟩
  · have hread := findingsOfText_of_read hd
    have hok : ∀ fs, findingsOfText levels text = .ok fs ↔ findingsOf d = .ok fs := by
      intro fs
      rw [hread]
      cases findingsOf d <;> simp [Except.mapError]
    refine ⟨?_, fun fs => (hok fs).trans findingsOf_eq_ok_iff, fun hnot => ?_⟩
    · simp only [hok]
      exact exists_findingsOf_iff
    · obtain ⟨e, he, hnamed⟩ := findingsOf_of_not_acceptable hnot
      exact ⟨e, by rw [hread, he]; rfl, hnamed⟩
  · exact ⟨_, by rw [findingsOfText, hbad], rfl⟩

/-- An entry with a check and an impact. -/
def rated (check : Json) (impact : String) : Json := .obj [("check", check), ("impact", .str impact)]

/-- A document with the given entries. -/
def listing (entries : List Json) : Json := .obj [("results", .obj [("detectors", .arr entries)])]

theorem listed_listing (entries : List Json) : Listed (listing entries) entries := ⟨_, _, rfl, rfl, rfl⟩

theorem acceptable_listing {named : Json → Prop} :
    Acceptable named (listing entries) ↔ ∀ entry ∈ entries, Detector named entry := by
  constructor
  · rintro (⟨others, hothers, hall⟩ | hclean)
    · exact (listed_listing entries).unique hothers ▸ hall
    · exact absurd hclean (listed_listing entries).not_clean
  · exact fun hall => .inl ⟨entries, listed_listing entries, hall⟩

/-- A text with two entries, the second of which has an impact that is not rated. -/
def halfRatedText : Text.Wide :=
  "\x7b\"results\":\x7b\"detectors\":[\x7b\"check\":\"a\",\"impact\":\" High \"\x7d,\x7b\"check\":\"b\",\"impact\":\"huge\"\x7d]\x7d\x7d"

theorem read_halfRated :
    Json.readWide Json.usualLevels halfRatedText = .ok (listing [rated (.str "a") " High ", rated (.str "b") "huge"]) := by cbv

theorem detector_rated {named : Json → Prop} {check : Json} (hcheck : named check) {impact : String} {severity : Severity}
    (h : Rated (Text.lower (Text.trim impact)) severity) : Detector named (rated check impact) :=
  ⟨_, severity, check, rfl, h, rfl, hcheck⟩

theorem not_detector_rated {named : Json → Prop} {check : Json} {impact : String}
    (h : Schema.lookup (Text.lower (Text.trim impact)) severityOf = none) : ¬Detector named (rated check impact) := by
  rintro ⟨_, severity, _, ⟨rfl⟩, hrated, -⟩
  have hlookup := lookup_severityOf_iff.2 hrated
  rw [show wordOf _ = Text.lower (Text.trim impact) from rfl, h] at hlookup
  cases hlookup

/-- The text with the impact that is not rated is refused on account of its second entry. -/
theorem findingsOfText_halfRated : ∃ r, findingsOfText Json.usualLevels halfRatedText = .error (.results r) ∧ Names 1 r := by
  have hhigh : Rated (Text.lower (Text.trim " High ")) .high := lookup_severityOf_iff.1 (by decide +kernel)
  have hfirst : Detector IsName (rated (.str "a") " High ") := detector_rated ⟨"a", rfl, by decide⟩ hhigh
  have hsecond : ¬Detector IsName (rated (.str "b") "huge") := not_detector_rated (by decide +kernel)
  have hnot : ¬Acceptable IsName (listing [rated (.str "a") " High ", rated (.str "b") "huge"]) := fun h =>
    hsecond (acceptable_listing.1 h _ (.tail _ (.head _)))
  obtain ⟨r, hr, -, hnamed⟩ := ((findingsOfText_exact halfRatedText).1 _ read_halfRated).2.2 hnot
  obtain ⟨i, entry, hentry, hwrong, hbefore, hnames⟩ := hnamed _ (listed_listing _)
  rcases i with _ | _ | i
  · obtain rfl := Option.some.inj hentry
    exact absurd hfirst hwrong
  · exact ⟨r, hr, hnames⟩
  · exact absurd (hbefore 1 (by omega) _ rfl) hsecond

/-- A text with an entry whose name is a surrogate that stands alone. -/
def tornNameText : Text.Wide :=
  "\x7b\"results\":\x7b\"detectors\":[\x7b\"check\":\"\\ud800\",\"impact\":\"high\"\x7d]\x7d\x7d"

/-- A name that is a text, but not one of characters, is not enough. -/
theorem findingsOfText_tornName :
    Json.readWide Json.usualLevels tornNameText = .ok (listing [rated (.torn .half) "high"]) ∧
      Acceptable IsWideName (listing [rated (.torn .half) "high"]) ∧
      ∃ r, findingsOfText Json.usualLevels tornNameText = .error (.results r) ∧ r.kind = "schema_mismatch" := by
  have hread : Json.readWide Json.usualLevels tornNameText = .ok (listing [rated (.torn .half) "high"]) := by cbv
  have hhigh : Rated (Text.lower (Text.trim "high")) .high := lookup_severityOf_iff.1 (by decide +kernel)
  have hwide : Detector IsWideName (rated (.torn .half) "high") := detector_rated (.inr ⟨_, rfl⟩) hhigh
  have hnot : ¬Detector IsName (rated (.torn .half) "high") := by
    rintro ⟨_, _, _, ⟨rfl⟩, -, hcheck, name, rfl, -⟩
    cases hcheck
  have hwrong : ¬Acceptable IsName (listing [rated (.torn .half) "high"]) := fun h =>
    hnot (acceptable_listing.1 h _ (.head _))
  obtain ⟨r, hr, hkind, -⟩ := findingsOf_of_not_acceptable hwrong
  refine ⟨hread, acceptable_listing.2 (by simpa using hwide), r, ?_, hkind⟩
  rw [findingsOfText_of_read hread, hr]
  rfl

end Adjudication.Analyzer
