import Adjudication.Proofs.Analyzer.Acceptance
import Adjudication.Proofs.Analyzer.Locations
import Adjudication.Proofs.Export.Rules

/-!
The regions of a log. A location has a region if it has lines, and the region reaches from its first line to its last one. The
lines are the integers that the analyzer's document tells, whatever they are, while lines are counted from one: the regions of a
log are valid just if no line of a usable element of the document is below one.
-/

namespace Adjudication

open Schema (Step)

/-! ### Lines of a document -/

namespace Analyzer

variable {element entry d : Json} {entries : List Json} {f : Finding} {fs : List Finding} {l : Location} {n : Int}

/-- An element that says where it is has a line. -/
def OnElement (element : Json) (n : Int) : Prop :=
  ∃ ms mapping v, element = .obj ms ∧ Json.Members.get? "source_mapping" ms = some (.obj mapping) ∧ FileNamed mapping v ∧
    OnLine mapping n

/-- An element of an entry has a line. -/
def OnEntry (entry : Json) (n : Int) : Prop := ∃ ms, entry = .obj ms ∧ ∃ element ∈ elementsOf ms, OnElement element n

/-- An entry that a document lists has a line. -/
def OnDocument (d : Json) (n : Int) : Prop := ∃ entries, Listed d entries ∧ ∃ entry ∈ entries, OnEntry entry n

/-- A location has no lines, or it reaches from one that is told to one that is not before it. -/
inductive Ranged (told : Int → Prop) : Location → Prop where
  | nowhere (file : Text.Wide) : Ranged told ⟨file, none, none⟩
  | lines (file : Text.Wide) {first last : Int} (hfirst : told first) (hle : first ≤ last) :
      Ranged told ⟨file, some first, some last⟩

theorem Seen.ranged (h : Seen element l) : Ranged (OnElement element) l := by
  cases h with
  | element hmapping hnamed hspanned =>
    cases hspanned with
    | nowhere => exact .nowhere _
    | lines hstart _ hle _ => exact .lines _ ⟨_, _, _, rfl, hmapping, hnamed, hstart⟩ hle

theorem Seen.startLine_le (h : Seen element l) (hn : OnElement element n) : ∃ first, l.startLine = some first ∧ first ≤ n := by
  obtain ⟨_, _, _, rfl, hmapping, -, hline⟩ := hn
  cases h with
  | element hmapping' _ hspanned =>
    obtain rfl := Json.obj.inj (Option.some.inj (hmapping.symm.trans hmapping'))
    cases hspanned with
    | nowhere h => exact absurd hline (h n)
    | lines _ _ _ h => exact ⟨_, rfl, (h n hline).1⟩

theorem OnElement.usable (h : OnElement element n) : Usable element := by
  obtain ⟨_, _, _, rfl, hmapping, hnamed, -⟩ := h
  exact (Seen.element hmapping hnamed ((spanned_iff fun i => mem_lineNumbers_iff).2 ⟨rfl, rfl⟩)).usable

theorem Ranged.mono {told told' : Int → Prop} (h : Ranged told l) (himp : ∀ n, told n → told' n) : Ranged told' l := by
  cases h with
  | nowhere => exact .nowhere _
  | lines _ hfirst hle => exact .lines _ (himp _ hfirst) hle

/-- The locations of a finding are those of its entry. -/
theorem Detected.exists_surveyed (h : Detected entry f) : ∃ ms, entry = .obj ms ∧ Surveyed (elementsOf ms) f.locations := by
  cases h with
  | @entry ms => exact ⟨ms, rfl, locationsOf_elements ms ▸ surveyed (elementsOf ms)⟩

theorem Detected.ranged (h : Detected entry f) (hl : l ∈ f.locations) : Ranged (OnEntry entry) l := by
  obtain ⟨ms, rfl, hsurveyed⟩ := h.exists_surveyed
  obtain ⟨element, helement, hseen⟩ := hsurveyed.sound l hl
  exact hseen.ranged.mono fun n hn => ⟨ms, rfl, element, helement, hn⟩

theorem Detected.startLine_le (h : Detected entry f) (hn : OnEntry entry n) :
    ∃ l ∈ f.locations, ∃ first, l.startLine = some first ∧ first ≤ n := by
  obtain ⟨ms, rfl, hsurveyed⟩ := h.exists_surveyed
  obtain ⟨_, ⟨rfl⟩, element, helement, hn⟩ := hn
  obtain ⟨l, hl, hseen⟩ := hsurveyed.complete element helement hn.usable
  exact ⟨l, hl, hseen.startLine_le hn⟩

theorem ranged_of_findingsOf (h : findingsOf d = .ok fs) (hf : f ∈ fs) (hl : l ∈ f.locations) : Ranged (OnDocument d) l := by
  rcases findingsOf_eq_ok_iff.1 h with ⟨entries, hentries, hall⟩ | ⟨-, rfl⟩
  · obtain ⟨i, rfl⟩ := List.get_of_mem hf
    have hlt : i.1 < entries.length := hall.length_eq.symm ▸ i.2
    have hdetected := hall.get hlt i.2
    exact (hdetected.ranged hl).mono fun n hn => ⟨entries, hentries, _, List.get_mem entries _, hn⟩
  · cases hf

theorem startLine_le_of_findingsOf (h : findingsOf d = .ok fs) (hn : OnDocument d n) :
    ∃ f ∈ fs, ∃ l ∈ f.locations, ∃ first, l.startLine = some first ∧ first ≤ n := by
  obtain ⟨entries, hentries, entry, hentry, hn⟩ := hn
  rcases findingsOf_eq_ok_iff.1 h with ⟨others, hothers, hall⟩ | ⟨hclean, -⟩
  · obtain rfl := hentries.unique hothers
    obtain ⟨i, rfl⟩ := List.get_of_mem hentry
    have hdetected := hall.get i.2 (hall.length_eq ▸ i.2)
    exact ⟨_, List.get_mem fs _, hdetected.startLine_le hn⟩
  · exact absurd hclean hentries.not_clean

end Analyzer

/-! ### Regions -/

namespace Export.Sarif

variable {r : Report} {d : Json}

/-- The location of a report at a place among those of an outcome. -/
def locationAt? (r : Report) (i j : Nat) : Option Location := (r.outcomes[i]?).bind fun o => o.finding.locations[j]?

theorem locationAt?_eq_some_iff {i j : Nat} {l : Location} : locationAt? r i j = some l ↔
    ∃ f, (r.outcomes.map Outcome.finding)[i]? = some f ∧ f.locations[j]? = some l := by
  rw [locationAt?, List.getElem?_map]
  cases r.outcomes[i]? <;> simp

/-- The steps to the region of a location of a result of a log. -/
def regionSteps (i j : Nat) : List Step :=
  resultSteps i [.field "locations", .index j, .field "physicalLocation", .field "region"]

theorem at_region (tool : Tool) (r : Report) (i j : Nat) : (log tool r).at? (regionSteps i j) =
    (locationAt? r i j).bind fun l => (locationJson l).at? [.field "physicalLocation", .field "region"] := by
  rw [regionSteps, at_results, locationAt?]
  cases r.outcomes[i]? with
  | none => rfl
  | some o =>
    have hitem : (result r.sourceId o).at? [.field "locations", .index j, .field "physicalLocation", .field "region"] =
        ((locations r.sourceId o.finding)[j]?).bind (Json.at? [.field "physicalLocation", .field "region"]) := rfl
    rw [Option.map_some, Option.bind_some, hitem, locations]
    split
    next hempty =>
      -- The source stands in for the locations, and it has no lines.
      rw [Option.bind_some, hempty]
      cases j <;> rfl
    next =>
      rw [List.getElem?_map, Option.bind_some]
      cases o.finding.locations[j]? <;> rfl

/-- Just the locations with lines have regions. -/
theorem isSome_at_region_iff (tool : Tool) (r : Report) (i j : Nat) :
    ((log tool r).at? (regionSteps i j)).isSome ↔ ∃ l, locationAt? r i j = some l ∧ l.startLine.isSome := by
  have hsome : ∀ l : Location, ((locationJson l).at? [.field "physicalLocation", .field "region"]).isSome ↔
      l.startLine.isSome := fun ⟨_, start, _⟩ => by cases start <;> exact Iff.rfl
  rw [at_region]
  cases locationAt? r i j with
  | none => simp
  | some l => simpa using hsome l

/-- A region with a first line and a last one. -/
def span (first last : Int) : Json := .obj [("startLine", .int first), ("endLine", .int last)]

/-- A region reaches from a line to one that is not before it; lines are counted from one. -/
def ValidRegion (region : Json) : Prop :=
  ∃ first last : Int, region.at? [.field "startLine"] = some (.int first) ∧
    region.at? [.field "endLine"] = some (.int last) ∧ 1 ≤ first ∧ first ≤ last

theorem validRegion_span_iff {first last : Int} : ValidRegion (span first last) ↔ 1 ≤ first ∧ first ≤ last := by
  constructor
  · rintro ⟨_, _, ⟨rfl⟩, ⟨rfl⟩, h⟩
    exact h
  · exact fun h => ⟨first, last, rfl, rfl, h⟩

/-- Where the findings of a report are those of a document, a region spans lines from one that the document tells. -/
theorem span_of_findings {tool : Tool} (h : Analyzer.findingsOf d = .ok (r.outcomes.map Outcome.finding)) {i j : Nat}
    {region : Json} (hregion : (log tool r).at? (regionSteps i j) = some region) : ∃ file, ∃ first last : Int,
      locationAt? r i j = some ⟨file, some first, some last⟩ ∧ region = span first last ∧
      Analyzer.OnDocument d first ∧ first ≤ last := by
  rw [at_region] at hregion
  obtain ⟨l, hl, hregion⟩ := Option.bind_eq_some_iff.1 hregion
  obtain ⟨f, hf, hmem⟩ := locationAt?_eq_some_iff.1 hl
  cases Analyzer.ranged_of_findingsOf h (List.mem_of_getElem? hf) (List.mem_of_getElem? hmem) with
  | nowhere => cases hregion
  | lines file hfirst hle => exact ⟨file, _, _, hl, (Option.some.inj hregion).symm, hfirst, hle⟩

/-- No line that the document tells comes before all regions. -/
theorem exists_span_of_findings (tool : Tool) (h : Analyzer.findingsOf d = .ok (r.outcomes.map Outcome.finding)) {n : Int}
    (hn : Analyzer.OnDocument d n) : ∃ i j, ∃ first last : Int,
      (log tool r).at? (regionSteps i j) = some (span first last) ∧ first ≤ n := by
  obtain ⟨f, hf, l, hl, first, hfirst, hle⟩ := Analyzer.startLine_le_of_findingsOf h hn
  obtain ⟨i, hi⟩ := List.mem_iff_getElem?.1 hf
  obtain ⟨j, hj⟩ := List.mem_iff_getElem?.1 hl
  have hat : locationAt? r i j = some l := locationAt?_eq_some_iff.2 ⟨f, hi, hj⟩
  obtain ⟨region, hregion⟩ := Option.isSome_iff_exists.1 ((isSome_at_region_iff tool r i j).2 ⟨l, hat, hfirst ▸ rfl⟩)
  obtain ⟨file, start, last, hat', rfl, -, -⟩ := span_of_findings h hregion
  obtain rfl := Option.some.inj (hat.symm.trans hat')
  obtain rfl := Option.some.inj hfirst
  exact ⟨i, j, start, last, hregion, hle⟩

/-- The regions of the log of a report whose findings are those of a document. -/
structure Regions (d : Json) (r : Report) (log : Json) : Prop where
  present : ∀ i j, (log.at? (regionSteps i j)).isSome ↔ ∃ l, locationAt? r i j = some l ∧ l.startLine.isSome
  ordered : ∀ i j region, log.at? (regionSteps i j) = some region → ∃ file, ∃ first last : Int,
    locationAt? r i j = some ⟨file, some first, some last⟩ ∧ region = span first last ∧ first ≤ last
  valid : (∀ i j region, log.at? (regionSteps i j) = some region → ValidRegion region) ↔ ∀ n, Analyzer.OnDocument d n → 1 ≤ n

/-- In the log of a report whose findings are those of a document, however they were judged, just the locations with lines have
regions, and a region reaches from the first line of its location to the last one, which is not before it. All regions are valid
just if no line of a usable element of the document is below one. -/
theorem regions_of_findings (tool : Tool) (h : Analyzer.findingsOf d = .ok (r.outcomes.map Outcome.finding)) :
    Regions d r (log tool r) where
  present := isSome_at_region_iff tool r
  ordered i j region hregion := by
    obtain ⟨file, first, last, hat, hspan, -, hle⟩ := span_of_findings h hregion
    exact ⟨file, first, last, hat, hspan, hle⟩
  valid := by
    constructor
    · intro hvalid n hn
      obtain ⟨i, j, first, last, hregion, hle⟩ := exists_span_of_findings tool h hn
      exact (validRegion_span_iff.1 (hvalid i j _ hregion)).1.trans hle
    · intro hpositive i j region hregion
      obtain ⟨file, first, last, -, rfl, hfirst, hle⟩ := span_of_findings h hregion
      exact validRegion_span_iff.2 ⟨hpositive first hfirst, hle⟩

/-- A document of one entry, with an element at the given lines of a file. -/
def lined (lines : List Int) : Json :=
  Analyzer.listing [.obj [("check", .str "a"), ("impact", .str "High"),
    ("elements", .arr [Analyzer.relatively "A.sol" (.arr (lines.map .int))])]]

/-- A finding at some lines of a file. -/
def lying (first last : Int) : Finding := ⟨"a", .high, .text "", [⟨.text "A.sol", some first, some last⟩], none, none⟩

theorem regions_of_findings_lined :
    Analyzer.findingsOf (lined [4, 3]) = .ok ((unjudged [lying 3 4]).outcomes.map Outcome.finding) ∧
    Regions (lined [4, 3]) (unjudged [lying 3 4]) (log Tool.standard (unjudged [lying 3 4])) := by
  have h : Analyzer.findingsOf (lined [4, 3]) = .ok ((unjudged [lying 3 4]).outcomes.map Outcome.finding) := by cbv
  exact ⟨h, regions_of_findings Tool.standard h⟩

/-- A document that tells the line zero is accepted, and its region starts at no line. -/
theorem region_from_zero :
    Analyzer.findingsOf (lined [0, 3]) = .ok ((unjudged [lying 0 3]).outcomes.map Outcome.finding) ∧
    (log Tool.standard (unjudged [lying 0 3])).at? (regionSteps 0 0) = some (span 0 3) ∧ ¬ValidRegion (span 0 3) := by
  have h : Analyzer.findingsOf (lined [0, 3]) = .ok ((unjudged [lying 0 3]).outcomes.map Outcome.finding) := by cbv
  exact ⟨h, rfl, fun hvalid => absurd (validRegion_span_iff.1 hvalid).1 (by decide)⟩

end Export.Sarif
end Adjudication
