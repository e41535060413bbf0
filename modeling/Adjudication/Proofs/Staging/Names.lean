import Adjudication.Proofs.Analyzer.Paths

/-!
The names that sources go by. A text that is given for a name is cut at its separators, and the last piece that names
something is kept, unless it leads upwards. So a source that is accepted has a name that lies in the directory of its slot
and nowhere else, and the results, whose name gives way to that of the source, lie beside it.
-/

namespace Adjudication

open Files (Path Tree)

namespace Files.Path

theorem splitSlashes_eq_splitOn : ∀ s : List Char, splitSlashes s = s.splitOn '/'
  | [] => rfl
  | c :: rest => by
    have hrest := splitSlashes_eq_splitOn rest
    rw [List.splitOn_eq_splitOnP] at hrest ⊢
    rw [List.splitOnP_cons_eq_if_modifyHead, splitSlashes, hrest]
    obtain ⟨piece, pieces, hpieces⟩ := List.exists_cons_of_ne_nil (List.splitOnP_ne_nil (fun x => x == '/') rest)
    by_cases hc : c = '/'
    · simp [hc]
    · simp [hc, hpieces]

/-- A piece of a text has no characters but those of the text, and no slash. -/
theorem mem_of_mem_splitOn {s piece : List Char} {c : Char} (hpiece : piece ∈ s.splitOn '/') (hc : c ∈ piece) :
    c ∈ s ∧ c ≠ '/' := by
  have hslash : c ≠ '/' := by
    rintro rfl
    rw [← splitSlashes_eq_splitOn] at hpiece
    exact slash_not_mem_of_mem_splitSlashes hpiece hc
  have hsep : c ∉ ['/'] := fun hmem => hslash (List.mem_singleton.1 hmem)
  refine ⟨?_, hslash⟩
  have hmem : c ∈ ['/'].intercalate (s.splitOn '/') := (mem_intercalate hsep).2 ⟨piece, hpiece, hc⟩
  rwa [List.intercalate_splitOn] at hmem

/-- The name of a path that is read from a text is the last piece of the text that names something. -/
theorem name_ofChars (s : List Char) :
    (ofChars s).name = (((s.splitOn '/').filter isPart).getLast?.map String.ofList).getD "" := by
  rw [name, ofChars, splitSlashes_eq_splitOn, List.getLast?_map]

end Files.Path

namespace Source

variable {content : Text.Utf8.Bytes} {given name : String} {source : Source}

/-- A text cut at its separators, backslashes read as slashes. -/
def pieces (given : String) : List (List Char) := (given.toList.map fun c => if c = '\\' then '/' else c).splitOn '/'

/-- A name is what a text comes down to: it names something, has no separator, leads nowhere upwards, and all that comes
after it in the text is empty or a single dot. -/
structure Reduced (given name : String) : Prop where
  nonempty : name ≠ ""
  slash : '/' ∉ name.toList
  backslash : '\\' ∉ name.toList
  here : name ≠ "."
  up : name ≠ ".."
  last : ∃ before after, pieces given = before ++ name.toList :: after ∧ ∀ piece ∈ after, piece = [] ∨ piece = ['.']

theorem isPart_iff {piece : List Char} : Path.isPart piece = true ↔ piece ≠ [] ∧ piece ≠ ['.'] := by
  simp [Path.isPart]

theorem not_isPart_iff {piece : List Char} : (!Path.isPart piece) = true ↔ piece = [] ∨ piece = ['.'] := by
  simp only [Bool.not_eq_true', ← Bool.not_eq_true, isPart_iff]
  tauto

/-- The last piece that names something. -/
theorem getLast?_pieces_iff {piece : List Char} : ((pieces given).filter Path.isPart).getLast? = some piece ↔
    (piece ≠ [] ∧ piece ≠ ['.']) ∧ ∃ before after, pieces given = before ++ piece :: after ∧
      ∀ other ∈ after, other = [] ∨ other = ['.'] := by
  rw [List.getLast?_filter, List.find?_eq_some_iff_append, isPart_iff]
  refine and_congr_right fun _ => ?_
  constructor
  · rintro ⟨after, before, hpieces, hafter⟩
    refine ⟨before.reverse, after.reverse, ?_, fun other hother => not_isPart_iff.1 (hafter other (List.mem_reverse.1 hother))⟩
    rw [← List.reverse_reverse (pieces given), hpieces]
    simp
  · rintro ⟨before, after, hpieces, hafter⟩
    refine ⟨after.reverse, before.reverse, ?_, fun other hother => not_isPart_iff.2 (hafter other (List.mem_reverse.1 hother))⟩
    rw [hpieces]
    simp

/-- No piece has a separator. -/
theorem not_separator_of_mem_pieces {piece : List Char} (h : piece ∈ pieces given) : '/' ∉ piece ∧ '\\' ∉ piece := by
  refine ⟨fun hslash => (Path.mem_of_mem_splitOn h hslash).2 rfl, fun hback => ?_⟩
  obtain ⟨c, -, hc⟩ := List.mem_map.1 (Path.mem_of_mem_splitOn h hback).1
  split at hc
  next => exact absurd hc (by decide)
  next hne => exact hne hc

theorem toList_eq_iff {name : String} {chars : List Char} : name.toList = chars ↔ name = String.ofList chars := by
  constructor
  · rintro rfl
    exact String.ofList_toList.symm
  · rintro rfl
    exact String.toList_ofList

/-- A text passes for a name just if it comes down to one, and then it is that name that it passes for. -/
theorem safeName?_eq_some_iff : safeName? given = some name ↔ Reduced given name := by
  rw [safeName?, Path.name_ofChars, ← pieces]
  constructor
  · intro h
    cases hlast : ((pieces given).filter Path.isPart).getLast? with
    | none => simp [hlast] at h
    | some piece =>
      rw [hlast] at h
      dsimp only [Option.map_some, Option.getD_some] at h
      split at h
      next => simp at h
      next hbad =>
        obtain rfl := Option.some.inj h
        obtain ⟨hempty, hhere, hup⟩ := by simpa only [not_or] using hbad
        obtain ⟨-, before, after, hpieces, hafter⟩ := getLast?_pieces_iff.1 hlast
        have hpiece : piece ∈ pieces given := by simp [hpieces]
        obtain ⟨hslash, hback⟩ := not_separator_of_mem_pieces hpiece
        have hchars : (String.ofList piece).toList = piece := String.toList_ofList
        exact ⟨hempty, by rwa [hchars], by rwa [hchars], hhere, hup, before, after, by rwa [hchars], hafter⟩
  · intro h
    have hpart : name.toList ≠ [] ∧ name.toList ≠ ['.'] :=
      ⟨fun he => h.nonempty (toList_eq_iff.1 he), fun he => h.here (toList_eq_iff.1 he)⟩
    rw [getLast?_pieces_iff.2 ⟨hpart, h.last⟩]
    simp [h.nonempty, h.here, h.up]

/-- A source is accepted under the name that the given text comes down to, and under no other. -/
theorem make_eq_ok_iff : make content given = .ok source ↔ source.content = content ∧ Reduced given source.identifier := by
  rw [← safeName?_eq_some_iff, make]
  cases safeName? given with
  | none => simp
  | some name =>
    constructor
    · intro h
      obtain rfl := Except.ok.inj h
      exact ⟨rfl, rfl⟩
    · rintro ⟨rfl, hname⟩
      obtain rfl := Option.some.inj hname
      rfl

/-- A name that a text comes down to comes down to itself. -/
theorem Reduced.make (h : Reduced given name) (content : Text.Utf8.Bytes) : Source.make content name = .ok ⟨content, name⟩ :=
  Path.make_of_isPart content (fun he => h.nonempty (toList_eq_iff.1 he)) (fun he => h.here (toList_eq_iff.1 he)) h.up h.slash
    h.backslash

end Source

namespace Staging

variable {content : Files.Bytes} {given : String} {source : Source}

/-- The results give way to the source. -/
theorem outputName_ne (name : String) : outputName name ≠ name := by
  rw [outputName]
  split
  next hname =>
    rw [hname]
    decide
  next hname => exact Ne.symm hname

/-- The source and the results have two paths, and each lies directly in the directory of the slot, both as the path has it
and in whatever tree it is walked. -/
structure Beside (slot : Slot) : Prop where
  source : slot.source.parent = slot.workdir
  output : slot.output.parent = slot.workdir
  differ : slot.source ≠ slot.output
  placed : ∀ t : Tree, ∃ name other, name ≠ other ∧ t.place slot.source = t.place slot.workdir ++ [name] ∧
    t.place slot.output = t.place slot.workdir ++ [other]

theorem beside_slotOf (h : Source.make content given = .ok source) (root : Path) (runId : String) :
    Beside (slotOf root source runId) := by
  have hdiffer := outputName_ne source.identifier
  constructor
  case source => exact Analyzer.parent_source h root runId
  case output => rw [Analyzer.output_eq, Path.parent, List.dropLast_concat]
  case differ =>
    rw [Analyzer.source_eq h, Analyzer.output_eq]
    simpa using hdiffer.symm
  case placed =>
    intro t
    obtain ⟨hname, hup⟩ := Path.ofText_of_make h
    refine ⟨source.identifier, outputName source.identifier, hdiffer.symm, ?_, Analyzer.place_output root source runId t⟩
    rw [source_slotOf, place_child t _ hname hup]

/-- A text that is accepted for a name has come down to one, which stays as it is when it is given again, and a source of that
name keeps to the directory of its slot, whichever the root and the run. -/
theorem identifier_confined (h : Source.make content given = .ok source) :
    Source.Reduced given source.identifier ∧ Source.make content source.identifier = .ok source ∧
      ∀ (root : Path) (runId : String), Beside (slotOf root source runId) := by
  obtain ⟨rfl, hreduced⟩ := Source.make_eq_ok_iff.1 h
  exact ⟨hreduced, hreduced.make source.content, beside_slotOf h⟩

/-- A text that is full of separators comes down to the name of the results, which give way. -/
theorem identifier_confined_results :
    Source.make [] "..\\x//./results.json\\.//" = .ok ⟨[], "results.json"⟩ ∧
      Source.Reduced "..\\x//./results.json\\.//" "results.json" ∧
      Source.make [] "results.json" = .ok ⟨[], "results.json"⟩ ∧ Beside (slotOf runs ⟨[], "results.json"⟩ "r1") ∧
      (slotOf runs ⟨[], "results.json"⟩ "r1").output = ⟨.none, ["runs", "scverify-r1", "_results.json"]⟩ := by
  have hgiven : Source.make [] "..\\x//./results.json\\.//" = .ok ⟨[], "results.json"⟩ := by rfl
  obtain ⟨hreduced, hagain, hbeside⟩ := identifier_confined hgiven
  exact ⟨hgiven, hreduced, hagain, hbeside runs "r1", rfl⟩

end Staging
end Adjudication
