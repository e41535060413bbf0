import Adjudication.Analyzer.Results
import Mathlib

/-!
Where a finding is. An element of an entry says where it is if it maps to a source that has a name: the first of three
names in which there is something. Its lines reach from the least to the greatest integer among them. The locations of a
finding are those of its elements, each once and in the order in which they first come.
-/

namespace Adjudication.Analyzer

variable {element v : Json} {items : List Json} {ms mapping : Json.Members} {l : Location} {ls : List Location}

/-! ### One element -/

/-- There is something in the member under a name. -/
def Holds (ms : Json.Members) (name : String) (v : Json) : Prop :=
  Json.Members.get? name ms = some v ∧ v.isFalsy = false

theorem filled?_eq_some_iff {name : String} : filled? name ms = some v ↔ Holds ms name v := by
  rw [filled?, Holds]
  cases Json.Members.get? name ms with
  | none => simp
  | some w =>
    cases hw : w.isFalsy with
    | true =>
      refine ⟨fun h => by simp [hw] at h, fun ⟨heq, hv⟩ => ?_⟩
      obtain rfl := Option.some.inj heq
      exact absurd (hw.symm.trans hv) (by decide)
    | false =>
      refine ⟨fun h => ?_, fun ⟨heq, _⟩ => by simpa [hw] using heq⟩
      obtain rfl : w = v := by simpa [hw] using h
      exact ⟨rfl, hw⟩

theorem filled?_eq_none_iff {name : String} : filled? name ms = none ↔ ∀ v, ¬Holds ms name v := by
  rw [Option.eq_none_iff_forall_ne_some]
  exact forall_congr' fun v => not_congr filled?_eq_some_iff

/-- What a mapping names its file: the relative name, the short one if that is empty, the absolute one if both are. -/
inductive FileNamed (mapping : Json.Members) : Json → Prop where
  | relative {v : Json} (h : Holds mapping "filename_relative" v) : FileNamed mapping v
  | short {v : Json} (hrelative : ∀ w, ¬Holds mapping "filename_relative" w) (h : Holds mapping "filename_short" v) :
      FileNamed mapping v
  | absolute {v : Json} (hrelative : ∀ w, ¬Holds mapping "filename_relative" w)
      (hshort : ∀ w, ¬Holds mapping "filename_short" w) (h : Holds mapping "filename_absolute" v) : FileNamed mapping v

theorem findSome?_fileKeys_iff : (fileKeys.findSome? fun key => filled? key mapping) = some v ↔ FileNamed mapping v := by
  simp only [fileKeys, List.findSome?_cons, List.findSome?_nil]
  constructor
  · intro h
    cases hrelative : filled? "filename_relative" mapping with
    | some w =>
      obtain rfl : w = v := by simpa [hrelative] using h
      exact .relative (filled?_eq_some_iff.1 hrelative)
    | none =>
      rw [hrelative] at h
      cases hshort : filled? "filename_short" mapping with
      | some w =>
        obtain rfl : w = v := by simpa [hshort] using h
        exact .short (filled?_eq_none_iff.1 hrelative) (filled?_eq_some_iff.1 hshort)
      | none =>
        rw [hshort] at h
        cases habsolute : filled? "filename_absolute" mapping with
        | some w =>
          obtain rfl : w = v := by simpa [habsolute] using h
          exact .absolute (filled?_eq_none_iff.1 hrelative) (filled?_eq_none_iff.1 hshort) (filled?_eq_some_iff.1 habsolute)
        | none => simp [habsolute] at h
  · intro h
    cases h with
    | relative h => rw [filled?_eq_some_iff.2 h]
    | short hrelative h => rw [filled?_eq_none_iff.2 hrelative, filled?_eq_some_iff.2 h]
    | absolute hrelative hshort h =>
      rw [filled?_eq_none_iff.2 hrelative, filled?_eq_none_iff.2 hshort, filled?_eq_some_iff.2 h]

/-- An integer is among the lines of a mapping. Truth values are no integers, and what is no list has no lines. -/
def OnLine (mapping : Json.Members) (i : Int) : Prop :=
  ∃ lines, Json.Members.get? "lines" mapping = some (.arr lines) ∧ .int i ∈ lines

theorem mem_lineNumbers_iff {i : Int} :
    i ∈ lineNumbers ((Json.Members.get? "lines" mapping).getD .null) ↔ OnLine mapping i := by
  rw [OnLine]
  cases Json.Members.get? "lines" mapping with
  | none => simp [lineNumbers]
  | some v =>
    cases v with
    | arr lines =>
      simp only [Option.getD_some, lineNumbers, List.mem_filterMap, Option.some.injEq, Json.arr.injEq, exists_eq_left']
      constructor
      · rintro ⟨line, hline, heq⟩
        cases line with
        | int j =>
          obtain rfl := Option.some.inj heq
          exact hline
        | _ => cases heq
      · exact fun h => ⟨.int i, h, rfl⟩
    | _ => simp [lineNumbers]

/-- The lines of a mapping lie between two of them, or there are none. -/
inductive Spanned (mapping : Json.Members) : Option Int → Option Int → Prop where
  | nowhere (h : ∀ i, ¬OnLine mapping i) : Spanned mapping none none
  | lines {start finish : Int} (hstart : OnLine mapping start) (hfinish : OnLine mapping finish) (hle : start ≤ finish)
      (h : ∀ i, OnLine mapping i → start ≤ i ∧ i ≤ finish) : Spanned mapping (some start) (some finish)

theorem spanned_iff {start finish : Option Int} {lines : List Int} (hlines : ∀ i, i ∈ lines ↔ OnLine mapping i) :
    Spanned mapping start finish ↔ start = lines.min? ∧ finish = lines.max? := by
  constructor
  · intro h
    cases h with
    | nowhere h =>
      obtain rfl : lines = [] := List.eq_nil_iff_forall_not_mem.2 fun i hi => h i ((hlines i).1 hi)
      exact ⟨rfl, rfl⟩
    | lines hstart hfinish _ h =>
      refine ⟨(List.min?_eq_some_iff.2 ⟨(hlines _).2 hstart, fun i hi => ?_⟩).symm,
        (List.max?_eq_some_iff.2 ⟨(hlines _).2 hfinish, fun i hi => ?_⟩).symm⟩
      · exact (h i ((hlines i).1 hi)).1
      · exact (h i ((hlines i).1 hi)).2
  · rintro ⟨rfl, rfl⟩
    cases hmin : lines.min? with
    | none =>
      obtain rfl := List.min?_eq_none_iff.1 hmin
      exact .nowhere fun i hi => absurd ((hlines i).2 hi) List.not_mem_nil
    | some start =>
      cases hmax : lines.max? with
      | none =>
        obtain rfl := List.max?_eq_none_iff.1 hmax
        cases hmin
      | some finish =>
        obtain ⟨hstart, hleast⟩ := List.min?_eq_some_iff.1 hmin
        obtain ⟨hfinish, hgreatest⟩ := List.max?_eq_some_iff.1 hmax
        exact .lines ((hlines _).1 hstart) ((hlines _).1 hfinish) (hleast _ hfinish) fun i hi =>
          ⟨hleast i ((hlines i).2 hi), hgreatest i ((hlines i).2 hi)⟩

/-- Where an element is seen. -/
inductive Seen : Json → Location → Prop where
  | element {ms mapping : Json.Members} {v : Json} {start finish : Option Int}
      (hmapping : Json.Members.get? "source_mapping" ms = some (.obj mapping)) (hnamed : FileNamed mapping v)
      (hspanned : Spanned mapping start finish) : Seen (.obj ms) ⟨v.display, start, finish⟩

/-- An element is an object with a mapping in which there is something under one of the names of a file. -/
def Usable (element : Json) : Prop :=
  ∃ ms mapping name v, element = .obj ms ∧ Json.Members.get? "source_mapping" ms = some (.obj mapping) ∧
    name ∈ fileKeys ∧ Holds mapping name v

theorem locationOf?_eq_some_iff : locationOf? element = some l ↔ Seen element l := by
  constructor
  · intro h
    rw [locationOf?] at h
    split at h
    next mapping hmapping =>
      obtain ⟨v, hv, rfl⟩ := Option.map_eq_some_iff.1 h
      cases element with
      | obj ms =>
        exact .element hmapping (findSome?_fileKeys_iff.1 hv) ((spanned_iff fun i => mem_lineNumbers_iff).2 ⟨rfl, rfl⟩)
      | _ => cases hmapping
    next => cases h
  · intro h
    cases h with
    | @element ms mapping v start finish hmapping hnamed hspanned =>
      obtain ⟨rfl, rfl⟩ := (spanned_iff fun i => mem_lineNumbers_iff).1 hspanned
      rw [locationOf?, Json.get?, hmapping]
      dsimp only
      rw [findSome?_fileKeys_iff.2 hnamed]
      rfl

/-- An element is seen at one place. -/
theorem Seen.unique {a b : Location} (ha : Seen element a) (hb : Seen element b) : a = b :=
  Option.some.inj ((locationOf?_eq_some_iff.2 ha).symm.trans (locationOf?_eq_some_iff.2 hb))

theorem Seen.usable (h : Seen element l) : Usable element := by
  cases h with
  | element hmapping hnamed _ =>
    cases hnamed with
    | relative h => exact ⟨_, _, _, _, rfl, hmapping, by simp [fileKeys], h⟩
    | short _ h => exact ⟨_, _, _, _, rfl, hmapping, by simp [fileKeys], h⟩
    | absolute _ _ h => exact ⟨_, _, _, _, rfl, hmapping, by simp [fileKeys], h⟩

/-- Whatever is usable is seen somewhere. -/
theorem Usable.exists_seen (h : Usable element) : ∃ l, Seen element l := by
  obtain ⟨ms, mapping, name, v, rfl, hmapping, hname, hv⟩ := h
  have hsome : (fileKeys.findSome? fun key => filled? key mapping).isSome := by
    rw [List.findSome?_isSome_iff]
    exact ⟨name, hname, by rw [filled?_eq_some_iff.2 hv]; rfl⟩
  obtain ⟨w, hw⟩ := Option.isSome_iff_exists.1 hsome
  exact ⟨_, .element hmapping (findSome?_fileKeys_iff.1 hw) ((spanned_iff fun i => mem_lineNumbers_iff).2 ⟨rfl, rfl⟩)⟩

/-! ### All elements -/

/-- Some element at the first place comes before all elements at the second one. -/
def Precedes (items : List Json) (a b : Location) : Prop :=
  ∃ front element back, items = front ++ element :: back ∧ Seen element a ∧ ∀ other ∈ front ++ [element], ¬Seen other b

theorem Precedes.append {a b : Location} (h : Precedes items a b) (more : List Json) : Precedes (items ++ more) a b := by
  obtain ⟨front, element, back, rfl, ha, hb⟩ := h
  exact ⟨front, element, back ++ more, by simp, ha, hb⟩

/-- Where elements are seen: every place once, in the order in which they first come, and none lost. -/
structure Surveyed (items : List Json) (ls : List Location) : Prop where
  distinct : ls.Nodup
  sound : ∀ l ∈ ls, ∃ element ∈ items, Seen element l
  complete : ∀ element ∈ items, Usable element → ∃ l ∈ ls, Seen element l
  inOrder : ls.Pairwise (Precedes items)

/-- An element is passed over if it is seen nowhere, or at a place that is there. -/
theorem Surveyed.pass (h : Surveyed items ls) (hl : Usable element → ∃ l ∈ ls, Seen element l) :
    Surveyed (items ++ [element]) ls where
  distinct := h.distinct
  sound l hmem := by
    obtain ⟨other, hother, hseen⟩ := h.sound l hmem
    exact ⟨other, List.mem_append_left _ hother, hseen⟩
  complete other hother husable := by
    rcases List.mem_append.1 hother with hother | hother
    · exact h.complete other hother husable
    · obtain rfl := List.mem_singleton.1 hother
      exact hl husable
  inOrder := h.inOrder.imp fun hab => hab.append _

/-- A place that is new comes after all that are there. -/
theorem Surveyed.add (h : Surveyed items ls) (hseen : Seen element l) (hl : l ∉ ls) :
    Surveyed (items ++ [element]) (ls ++ [l]) where
  distinct := List.nodup_append.2 ⟨h.distinct, List.pairwise_singleton _ _, fun a ha b hb hab =>
    hl (List.mem_singleton.1 hb ▸ hab ▸ ha)⟩
  sound a ha := by
    rcases List.mem_append.1 ha with ha | ha
    · obtain ⟨other, hother, hseen⟩ := h.sound a ha
      exact ⟨other, List.mem_append_left _ hother, hseen⟩
    · obtain rfl := List.mem_singleton.1 ha
      exact ⟨element, by simp, hseen⟩
  complete other hother husable := by
    rcases List.mem_append.1 hother with hother | hother
    · obtain ⟨a, ha, hseen⟩ := h.complete other hother husable
      exact ⟨a, List.mem_append_left _ ha, hseen⟩
    · obtain rfl := List.mem_singleton.1 hother
      exact ⟨l, by simp, hseen⟩
  inOrder := by
    refine List.pairwise_append.2 ⟨h.inOrder.imp fun hab => hab.append _, List.pairwise_singleton _ _, fun a ha b hb => ?_⟩
    obtain rfl := List.mem_singleton.1 hb
    obtain ⟨first, hfirst, hseen⟩ := h.sound a ha
    obtain ⟨front, back, rfl⟩ := List.append_of_mem hfirst
    refine ⟨front, first, back ++ [element], by simp, hseen, fun other hother hb => hl ?_⟩
    -- Whatever came before is seen at a place that is there, and this one is not.
    have hbefore : other ∈ front ++ first :: back := by
      rw [List.append_cons]
      exact List.mem_append_left _ hother
    obtain ⟨c, hc, hother⟩ := h.complete other hbefore hb.usable
    exact hother.unique hb ▸ hc

theorem eraseDups_concat {α : Type} [BEq α] [LawfulBEq α] [DecidableEq α] (l : List α) (a : α) :
    (l ++ [a]).eraseDups = if a ∈ l then l.eraseDups else l.eraseDups ++ [a] := by
  rw [List.eraseDups_append]
  split
  next h => rw [show [a].removeAll l = [] by simpa [List.removeAll] using h, List.eraseDups_nil, List.append_nil]
  next h => rw [show [a].removeAll l = [a] by simpa [List.removeAll] using h, List.eraseDups_cons]; rfl

theorem surveyed (items : List Json) : Surveyed items (items.filterMap locationOf?).eraseDups := by
  induction items using List.reverseRecOn with
  | nil => exact ⟨.nil, fun _ h => absurd h List.not_mem_nil, fun _ h => absurd h List.not_mem_nil, .nil⟩
  | append_singleton items element ih =>
    rw [List.filterMap_append]
    cases hl : locationOf? element with
    | none =>
      rw [List.filterMap_cons_none hl, List.filterMap_nil, List.append_nil]
      refine ih.pass fun husable => ?_
      obtain ⟨l, hseen⟩ := husable.exists_seen
      exact absurd (hl.symm.trans (locationOf?_eq_some_iff.2 hseen)) (by simp)
    | some l =>
      have hseen : Seen element l := locationOf?_eq_some_iff.1 hl
      rw [List.filterMap_cons_some hl, List.filterMap_nil, eraseDups_concat]
      split
      next hmem => exact ih.pass fun _ => ⟨l, List.mem_eraseDups.2 hmem, hseen⟩
      next hmem => exact ih.add hseen (mt List.mem_eraseDups.1 hmem)

/-! ### Findings -/

/-- The elements of an entry, if they are a list. -/
def elementsOf (ms : Json.Members) : List Json :=
  match Json.Members.get? "elements" ms with
  | some (.arr items) => items
  | _ => []

theorem locations_of_findingOf {index : Nat} {entry : Json} {f : Finding} (h : findingOf index entry = .ok f) :
    ∃ ms, entry = .obj ms ∧ f.locations = locationsOf (Json.Members.get? "elements" ms) := by
  rw [findingOf.eq_def] at h
  split at h
  next ms =>
    refine ⟨ms, rfl, ?_⟩
    dsimp only at h
    split at h
    next => cases h
    next =>
      split at h
      next => cases h
      next => exact Except.ok.inj h ▸ rfl
  next => cases h

theorem locationsOf_elements (ms : Json.Members) :
    locationsOf (Json.Members.get? "elements" ms) = ((elementsOf ms).filterMap locationOf?).eraseDups := by
  rw [elementsOf]
  cases Json.Members.get? "elements" ms with
  | none => rfl
  | some v => cases v <;> rfl

/-- The locations of a finding are those of the elements of its entry. -/
theorem locations_surveyed {index : Nat} {ms : Json.Members} {f : Finding} (h : findingOf index (.obj ms) = .ok f) :
    Surveyed (elementsOf ms) f.locations := by
  obtain ⟨ms', heq, hlocations⟩ := locations_of_findingOf h
  obtain rfl := Json.obj.inj heq
  rw [hlocations, locationsOf_elements]
  exact surveyed (elementsOf ms)

/-- An element of a file with a relative name. -/
def relatively (name : Text.Wide) (lines : Json) : Json :=
  .obj [("source_mapping", .obj [("filename_relative", .ofWide name), ("filename_short", .str "S.sol"), ("lines", lines)])]

/-- An entry with elements in four files, one of which is named twice and two of which differ in a surrogate only, and
    with one that is nowhere. -/
def scattered : Json.Members :=
  [("check", .str "a"), ("impact", .str "High"),
    ("elements", .arr [relatively "B.sol" (.arr [.int 3, .bool true, .int 2]), .null, relatively "" (.str "7"),
      relatively (.torn .half) .null, relatively "B.sol" (.arr [.int 2, .int 3]),
      relatively (.torn .otherHalf) .null])]

theorem locations_surveyed_scattered :
    findingOf 0 (.obj scattered) =
        .ok ⟨"a", .high, .text "", [⟨"B.sol", some 2, some 3⟩, ⟨"S.sol", none, none⟩, ⟨.torn .half, none, none⟩,
          ⟨.torn .otherHalf, none, none⟩], none, none⟩ ∧
      Surveyed (elementsOf scattered) [⟨"B.sol", some 2, some 3⟩, ⟨"S.sol", none, none⟩,
        ⟨.torn .half, none, none⟩, ⟨.torn .otherHalf, none, none⟩] := by
  have h : findingOf 0 (.obj scattered) =
      .ok ⟨"a", .high, .text "", [⟨"B.sol", some 2, some 3⟩, ⟨"S.sol", none, none⟩, ⟨.torn .half, none, none⟩,
        ⟨.torn .otherHalf, none, none⟩], none, none⟩ := by cbv
  exact ⟨h, locations_surveyed h⟩

end Adjudication.Analyzer
