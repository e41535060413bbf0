import Adjudication.Proofs.Json.Fuel

/-!
Line ends. A text and the one that has LF for its line ends CR LF and CR are read in the same way: between tokens each of
them is white space, and within a string, an escape, a word or a number each is refused. Every reader is held to this: what
it reads from the one text it reads from the other, or it finds the same fault there, and what it leaves differs but in the
line ends.
-/

namespace Adjudication.Json

open Text (codesOfChars)
open Sign

/-! ### Unified line ends -/

/-- Code points with the line ends CR LF and CR as LF. -/
def unified : List Nat → List Nat
  | [] => []
  | 0x0D :: 0x0A :: s => 0x0A :: unified s
  | 0x0D :: s => 0x0A :: unified s
  | c :: s => c :: unified s

variable {α β : Type} {c : Nat} {s t start rest : List Nat}

theorem unified_cons (h : c ≠ 0x0D) (s : List Nat) : unified (c :: s) = c :: unified s :=
  unified.eq_4 c s (fun _ hc _ => h hc) h

theorem unified_return_of_alone (h : ∀ t, s ≠ 0x0A :: t) : unified (0x0D :: s) = 0x0A :: unified s := unified.eq_3 s h

/-- Of a CR a LF is left, whatever follows. -/
theorem unified_return (s : List Nat) : ∃ t, unified (0x0D :: s) = 0x0A :: t := by
  by_cases h : ∃ t, s = 0x0A :: t
  · obtain ⟨t, rfl⟩ := h
    exact ⟨unified t, rfl⟩
  · exact ⟨unified s, unified_return_of_alone fun t hs => h ⟨t, hs⟩⟩

theorem codesOfChars_unifyLineEnds (cs : List Char) : codesOfChars (Text.Utf8.unifyLineEnds cs) = unified (codesOfChars cs) := by
  fun_induction Text.Utf8.unifyLineEnds cs with
  | case1 => rfl
  | case2 rest ih => exact congrArg (0x0A :: ·) ih
  | case3 rest hfeed ih =>
    rw [Text.codesOfChars_cons, Text.codesOfChars_cons, ih]
    refine (unified_return_of_alone fun s hs => ?_).symm
    cases rest with
    | nil => cases hs
    | cons c rest =>
      obtain rfl : c = '\n' := Char.toNat_inj.1 (List.cons.inj hs).1
      exact hfeed rest rfl
  | case4 c rest _ hreturn ih =>
    rw [Text.codesOfChars_cons, Text.codesOfChars_cons, ih, unified_cons fun hc => hreturn (Char.toNat_inj.1 hc)]

/-- A code point that is no line end stands in the one text where it stands in the other. -/
theorem unified_eq_cons (hreturn : c ≠ 0x0D) (hfeed : c ≠ 0x0A) : unified s = c :: t ↔ ∃ u, s = c :: u ∧ t = unified u := by
  constructor
  · intro h
    rcases s with _ | ⟨d, s⟩
    · cases h
    · by_cases hd : d = 0x0D
      · subst hd
        obtain ⟨u, hu⟩ := unified_return s
        exact absurd (List.cons.inj (hu.symm.trans h)).1.symm hfeed
      · rw [unified_cons hd] at h
        obtain ⟨rfl, rfl⟩ := List.cons.inj h
        exact ⟨s, rfl, rfl⟩
  · rintro ⟨u, rfl, rfl⟩
    exact unified_cons hreturn u

theorem head?_unified (s : List Nat) : (unified s).head? = s.head?.map fun c => if c = 0x0D then 0x0A else c := by
  rcases s with _ | ⟨c, s⟩
  · rfl
  by_cases hc : c = 0x0D
  · subst hc
    obtain ⟨t, ht⟩ := unified_return s
    rw [ht]
    rfl
  · simp [unified_cons hc, hc]

theorem unified_eq_nil : unified s = [] ↔ s = [] := by
  rw [← List.head?_eq_none_iff, head?_unified, Option.map_eq_none_iff, List.head?_eq_none_iff]

theorem unified_append {w : List Nat} (h : 0x0D ∉ w) (s : List Nat) : unified (w ++ s) = w ++ unified s := by
  induction w with
  | nil => rfl
  | cons c w ih =>
    obtain ⟨hc, hw⟩ := not_or.1 (List.mem_cons.not.1 h)
    rw [List.cons_append, unified_cons (Ne.symm hc), ih hw, List.cons_append]

theorem length_unified_le (s : List Nat) : (unified s).length ≤ s.length := by
  fun_induction unified s <;> simp only [List.length_nil, List.length_cons] <;> omega

/-! ### White space, runs and words -/

theorem skipSpace_unified (s : List Nat) : skipSpace (unified s) = unified (skipSpace s) := by
  fun_induction unified s with
  | case1 => rfl
  | case2 s ih => exact ih
  | case3 s _ ih => exact ih
  | case4 c s _ hreturn ih =>
    by_cases hc : isSpace c
    · simpa [skipSpace, hc] using ih
    · simp [skipSpace, hc, unified_cons hreturn]

section Runs

variable {p : Nat → Bool}

/-- A run without line ends stands in both texts, and what follows it is unified. -/
theorem unified_eq_takeWhile_append (hreturn : p 0x0D = false) (s : List Nat) :
    unified s = s.takeWhile p ++ unified (s.dropWhile p) := by
  have hrun : 0x0D ∉ s.takeWhile p := fun hmem => by simpa [hreturn] using List.mem_takeWhile_imp hmem
  rw [← unified_append hrun, List.takeWhile_append_dropWhile]

theorem not_head_unified (hfeed : p 0x0A = false) (s : List Nat) :
    ∀ code ∈ (unified (s.dropWhile p)).head?, p code = false := by
  intro code hcode
  rw [head?_unified] at hcode
  obtain ⟨c, hc, rfl⟩ := Option.map_eq_some_iff.1 hcode
  split
  · exact hfeed
  · have hnot := List.head?_dropWhile_not p s
    rwa [hc] at hnot

theorem takeWhile_unified (hreturn : p 0x0D = false) (hfeed : p 0x0A = false) (s : List Nat) :
    (unified s).takeWhile p = s.takeWhile p := by
  rw [unified_eq_takeWhile_append hreturn s, takeWhile_append_of_head (not_head_unified hfeed s), List.takeWhile_idem]

theorem dropWhile_unified (hreturn : p 0x0D = false) (hfeed : p 0x0A = false) (s : List Nat) :
    (unified s).dropWhile p = unified (s.dropWhile p) := by
  have hrun : (s.takeWhile p).dropWhile p = [] := List.dropWhile_eq_nil_iff.2 fun _ => List.mem_takeWhile_imp
  rw [unified_eq_takeWhile_append hreturn s, dropWhile_append_of_head (not_head_unified hfeed s), hrun, List.nil_append]

end Runs

theorem digitRun_unified (s : List Nat) : digitRun (unified s) = digitRun s :=
  congrArg (List.map Char.ofNat) (takeWhile_unified rfl rfl s)

/-- Line ends count only where they are passed over. -/
theorem drop_unified {n : Nat} (h : 0x0D ∉ s.take n) : (unified s).drop n = unified (s.drop n) := by
  induction n generalizing s with
  | zero => rfl
  | succ n ih =>
    cases s with
    | nil => rfl
    | cons c s =>
      obtain ⟨hc, hs⟩ := not_or.1 (List.mem_cons.not.1 h)
      rw [unified_cons (Ne.symm hc)]
      exact ih hs

theorem isPrefixOf_unified {w : List Nat} (hreturn : 0x0D ∉ w) (hfeed : 0x0A ∉ w) (s : List Nat) :
    w.isPrefixOf (unified s) = w.isPrefixOf s := by
  induction w generalizing s with
  | nil => simp
  | cons d w ih =>
    obtain ⟨hd, hw⟩ := not_or.1 (List.mem_cons.not.1 hreturn)
    obtain ⟨hd', hw'⟩ := not_or.1 (List.mem_cons.not.1 hfeed)
    rcases s with _ | ⟨c, s⟩
    · rfl
    · by_cases hc : c = 0x0D
      · subst hc
        obtain ⟨t, ht⟩ := unified_return s
        rw [ht, List.isPrefixOf, List.isPrefixOf, beq_false_of_ne (Ne.symm hd), beq_false_of_ne (Ne.symm hd'), Bool.false_and,
          Bool.false_and]
      · rw [unified_cons hc, List.isPrefixOf, List.isPrefixOf, ih hw hw']

theorem afterWord?_unified {word : String} (hreturn : 0x0D ∉ Text.codesOf word) (hfeed : 0x0A ∉ Text.codesOf word)
    (s : List Nat) : afterWord? word (unified s) = (afterWord? word s).map unified := by
  rw [afterWord?, afterWord?, isPrefixOf_unified hreturn hfeed]
  split
  next h =>
    obtain ⟨t, rfl⟩ := List.isPrefixOf_iff_prefix.1 h
    have hlength : word.length = (Text.codesOf word).length := by
      rw [Text.codesOf, Text.length_codesOfChars, String.length_toList]
    rw [drop_unified (by rwa [hlength, List.take_left])]
    rfl
  next => rfl

/-! ### Readings -/

def Fault.unified : Fault → Fault
  | malformed p rest => malformed p (Json.unified rest)
  | excess e => excess e

/-- What is read of a text with unified line ends. -/
def Reading.unified : Reading α → Reading α
  | .ok (a, rest) => .ok (a, Json.unified rest)
  | .error f => .error f.unified

theorem Reading.unified_ok (a : α) (rest : List Nat) : Reading.unified (.ok (a, rest)) = .ok (a, Json.unified rest) := rfl

theorem Reading.unified_map (f : α → β) (r : Reading α) :
    Reading.unified (r.map fun p => (f p.1, p.2)) = r.unified.map fun p => (f p.1, p.2) := by
  cases r <;> rfl

/-- A reader for which line ends are all the same. -/
def Unifies (read : List Nat → Reading α) : Prop := ∀ s, read (unified s) = (read s).unified

/-! ### Strings -/

theorem hexValue?_ne_none {u : Nat} {a b d : Nat} (h : codeUnit? a b c d = some u) :
    ∀ code ∈ [a, b, c, d], hexValue? (Char.ofNat code) ≠ none := by
  simp only [codeUnit?, List.foldlM_cons, List.foldlM_nil, Option.bind_eq_bind, Option.bind_eq_some_iff,
    Option.map_eq_some_iff] at h
  obtain ⟨_, ⟨_, ha, -⟩, _, ⟨_, hb, -⟩, _, ⟨_, hc, -⟩, _, ⟨_, hd, -⟩, -⟩ := h
  simp [ha, hb, hc, hd]

/-- Four digits of a code unit stand in the one text where they stand in the other. -/
theorem unified_eq_unit {u a b d : Nat} (h : codeUnit? a b c d = some u) :
    unified s = a :: b :: c :: d :: t ↔ ∃ v, s = a :: b :: c :: d :: v ∧ t = unified v := by
  have hdigits := hexValue?_ne_none h
  have hends : ∀ code ∈ [a, b, c, d], code ≠ 0x0D ∧ code ≠ 0x0A := fun code hcode =>
    ⟨fun he => hdigits code hcode (he ▸ rfl), fun he => hdigits code hcode (he ▸ rfl)⟩
  simp only [List.forall_mem_cons, List.not_mem_nil] at hends
  obtain ⟨⟨ha, ha'⟩, ⟨hb, hb'⟩, ⟨hc, hc'⟩, ⟨hd, hd'⟩, -⟩ := hends
  rw [unified_eq_cons ha ha']
  constructor
  · rintro ⟨s₁, rfl, h₁⟩
    obtain ⟨s₂, rfl, h₂⟩ := (unified_eq_cons hb hb').1 h₁.symm
    obtain ⟨s₃, rfl, h₃⟩ := (unified_eq_cons hc hc').1 h₂.symm
    obtain ⟨s₄, rfl, h₄⟩ := (unified_eq_cons hd hd').1 h₃.symm
    exact ⟨s₄, rfl, h₄⟩
  · rintro ⟨v, rfl, rfl⟩
    exact ⟨_, rfl, by rw [unified_cons hb, unified_cons hc, unified_cons hd]⟩

theorem scanBody_unit {u a b d : Nat} (h : codeUnit? a b c d = some u) (start s : List Nat) :
    scanBody start (backslash :: letterU :: a :: b :: c :: d :: s) =
      match scanBody start s with
      | .ok (pieces, rest) => .ok (.escaped u :: pieces, rest)
      | .error f => .error (if s = [] then .malformed .badUnicodeEscape (letterU :: a :: b :: c :: d :: s) else f) := by
  rw [scanBody, h]
  cases scanBody start s <;> rfl

theorem scanBody_badUnit (h : ∀ a b c d u t, s = a :: b :: c :: d :: t → codeUnit? a b c d ≠ some u) (start : List Nat) :
    scanBody start (backslash :: letterU :: s) = .error (.malformed .badUnicodeEscape (letterU :: s)) := by
  rcases s with _ | ⟨a, _ | ⟨b, _ | ⟨c, _ | ⟨d, s⟩⟩⟩⟩
  · rfl
  · rfl
  · rfl
  · rfl
  · have hunit : codeUnit? a b c d = none := Option.eq_none_iff_forall_ne_some.2 fun u => h a b c d u s rfl
    rw [scanBody, hunit]

theorem scanBody_escape (h : c ≠ letterU) (start s : List Nat) :
    scanBody start (backslash :: c :: s) =
      match simpleEscape? (Char.ofNat c) with
      | none => .error (.malformed .badEscape (backslash :: c :: s))
      | some x => (scanBody start s).map fun p => (.plain x.toNat :: p.1, p.2) := by
  rw [scanBody]
  · cases simpleEscape? (Char.ofNat c) with
    | none => rfl
    | some x => cases scanBody start s <;> rfl
  · exact h

theorem scanBody_code (hquote : c ≠ quotation) (hslash : c ≠ backslash) (start s : List Nat) :
    scanBody start (c :: s) =
      if c < 0x20 then .error (.malformed .controlCharacter (c :: s))
      else (scanBody start s).map fun p => (.plain c :: p.1, p.2) := by
  rw [scanBody]
  · split
    · rfl
    · cases scanBody start s <;> rfl
  · exact hquote
  · exact hslash

/-- The body of a string. A line end in it is a control character, and after a backslash none of the escapes. -/
theorem scanBody_unified (start : List Nat) (s : List Nat) :
    scanBody (unified start) (unified s) = (scanBody start s).unified := by
  induction hn : s.length using Nat.strong_induction_on generalizing s with
  | _ n ih =>
  subst hn
  rcases s with _ | ⟨c, s⟩
  · rfl
  by_cases hquote : c = quotation
  · subst hquote
    rfl
  by_cases hslash : c = backslash
  · subst hslash
    rcases s with _ | ⟨e, s⟩
    · rfl
    by_cases hletter : e = letterU
    · subst hletter
      rw [unified_cons (by decide), unified_cons (by decide)]
      by_cases hunit : ∃ a b c d u t, s = a :: b :: c :: d :: t ∧ codeUnit? a b c d = some u
      · obtain ⟨a, b, c, d, u, t, rfl, hu⟩ := hunit
        rw [(unified_eq_unit hu).2 ⟨t, rfl, rfl⟩, scanBody_unit hu, scanBody_unit hu,
          ih t.length (by simp only [List.length_cons]; omega) t rfl]
        cases scanBody start t with
        | ok r => rfl
        | error f =>
          simp only [Reading.unified, unified_eq_nil]
          split
          · rw [← (unified_eq_unit hu).2 ⟨t, rfl, rfl⟩, ← unified_cons (by decide)]
            rfl
          · rfl
      · rw [scanBody_badUnit fun a b c d u t hs hu => hunit ⟨a, b, c, d, u, t, hs, hu⟩, scanBody_badUnit]
        · rfl
        · intro a b c d u t hs hu
          obtain ⟨v, hv, -⟩ := (unified_eq_unit hu).1 hs
          exact hunit ⟨a, b, c, d, u, v, hv, hu⟩
    · by_cases hreturn : e = 0x0D
      · subst hreturn
        obtain ⟨t, ht⟩ := unified_return s
        rw [unified_cons (by decide), ht, scanBody_escape (by decide), scanBody_escape (by decide)]
        show Except.error (Fault.malformed .badEscape (backslash :: 0x0A :: t)) = _
        rw [← ht, ← unified_cons (by decide)]
        rfl
      · rw [unified_cons (by decide), unified_cons hreturn, scanBody_escape hletter, scanBody_escape hletter,
          ih s.length (by simp only [List.length_cons]; omega) s rfl]
        cases simpleEscape? (Char.ofNat e) with
        | none =>
          dsimp only
          rw [← unified_cons hreturn, ← unified_cons (by decide)]
          rfl
        | some x => exact (Reading.unified_map (Piece.plain x.toNat :: ·) _).symm
  by_cases hreturn : c = 0x0D
  · subst hreturn
    obtain ⟨t, ht⟩ := unified_return s
    rw [ht, scanBody_code (by decide) (by decide), scanBody_code (by decide) (by decide), if_pos (by decide),
      if_pos (by decide), ← ht]
    rfl
  · rw [unified_cons hreturn, scanBody_code hquote hslash, scanBody_code hquote hslash, ih s.length (by simp) s rfl]
    split
    · rw [← unified_cons hreturn]
      rfl
    · exact (Reading.unified_map (Piece.plain c :: ·) _).symm

theorem readString_unified (start s : List Nat) : readString (unified start) (unified s) = (readString start s).unified := by
  rw [readString, scanBody_unified]
  exact (Reading.unified_map (fun pieces => Text.Wide.ofCodes (codesOfPieces pieces)) _).symm

/-! ### Numbers and words -/

theorem splitFraction_unified (s : List Nat) :
    splitFraction (unified s) = ((splitFraction s).1, unified (splitFraction s).2) := by
  by_cases hpoint : ∃ tail, s = point :: tail
  · obtain ⟨tail, rfl⟩ := hpoint
    rw [unified_cons (by decide), splitFraction, splitFraction]
    simp only [digitRun_unified, dropWhile_unified (p := isDigit) rfl rfl]
    split
    · rw [unified_cons (by decide)]
    · rfl
  · rw [splitFraction_of_not_point fun tail hs => hpoint ⟨tail, hs⟩, splitFraction_of_not_point]
    intro tail hs
    obtain ⟨u, hu, -⟩ := (unified_eq_cons (by decide) (by decide)).1 hs
    exact hpoint ⟨u, hu⟩

theorem splitExponentSign_unified (s : List Nat) :
    splitExponentSign (unified s) = ((splitExponentSign s).1, unified (splitExponentSign s).2) := by
  by_cases hs : ∀ code ∈ s.head?, code ≠ minus ∧ code ≠ plus
  · rw [splitExponentSign_of_unsigned hs, splitExponentSign_of_unsigned]
    intro code hcode
    rw [head?_unified] at hcode
    obtain ⟨c, hc, rfl⟩ := Option.map_eq_some_iff.1 hcode
    split
    · decide
    · exact hs c hc
  · rcases s with _ | ⟨c, s⟩
    · exact absurd (fun _ hc => by cases hc) hs
    · have hsign : c = minus ∨ c = plus := by simpa [or_iff_not_imp_left] using hs
      rcases hsign with rfl | rfl
      · rw [unified_cons (by decide)]
        rfl
      · rw [unified_cons (by decide)]
        rfl

theorem splitExponent_unified (s : List Nat) :
    splitExponent (unified s) = ((splitExponent s).1, unified (splitExponent s).2) := by
  rcases s with _ | ⟨c, s⟩
  · rfl
  by_cases hreturn : c = 0x0D
  · subst hreturn
    obtain ⟨t, ht⟩ := unified_return s
    rw [ht, splitExponent_cons, splitExponent_cons, if_neg (by decide), if_neg (by decide), ← ht]
  · rw [unified_cons hreturn, splitExponent_cons, splitExponent_cons, splitExponentSign_unified]
    simp only [digitRun_unified, dropWhile_unified (p := isDigit) rfl rfl]
    split
    · split
      · rw [unified_cons hreturn]
      · rfl
    · rw [unified_cons hreturn]

theorem wholeOf_unified (s : List Nat) : wholeOf (unified s) = wholeOf s := by
  rw [wholeOf, wholeOf, digitRun_unified]

/-- The whole part of a number is passed over in the same way. -/
theorem drop_wholeOf_unified (s : List Nat) :
    (unified s).drop (wholeOf s).length = unified (s.drop (wholeOf s).length) := by
  refine drop_unified fun hmem => ?_
  have hlength : (s.take (wholeOf s).length).length ≤ (s.takeWhile isDigit).length := by
    have hle := length_wholeOf_le_digitRun s
    rw [digitRun, List.length_map] at hle
    exact Nat.le_trans (List.length_take_le _ _) hle
  have hrun : s.take (wholeOf s).length <+: s.takeWhile isDigit :=
    List.prefix_of_prefix_length_le (List.take_prefix _ _) (List.takeWhile_prefix _) hlength
  exact absurd (List.mem_takeWhile_imp (hrun.subset hmem)) (by decide)

theorem readMagnitude_unified (negative : Bool) (start s : List Nat) :
    readMagnitude negative (unified start) (unified s) = (readMagnitude negative start s).unified := by
  rw [readMagnitude_eq, readMagnitude_eq]
  simp only [wholeOf_unified, drop_wholeOf_unified, splitFraction_unified, splitExponent_unified]
  split
  · rfl
  · split
    · split <;> rfl
    · rfl

theorem word_unified {w : String} (hreturn : 0x0D ∉ Text.codesOf w) (hfeed : 0x0A ∉ Text.codesOf w) (v : Json) (s : List Nat) :
    readAtom.word (unified s) w v = (readAtom.word s w v).unified := by
  rw [readAtom.word, readAtom.word, afterWord?_unified hreturn hfeed]
  cases afterWord? w s <;> rfl

theorem readAtom_unified (s : List Nat) : readAtom (unified s) = (readAtom s).unified := by
  rcases s with _ | ⟨c, s⟩
  · rfl
  by_cases hreturn : c = 0x0D
  · subst hreturn
    obtain ⟨t, ht⟩ := unified_return s
    rw [ht]
    show Except.error (Fault.malformed .expectingValue (0x0A :: t)) =
      Except.error (Fault.malformed .expectingValue (unified (0x0D :: s)))
    rw [ht]
  · have hcons := unified_cons hreturn s
    rw [hcons, readAtom_cons, readAtom_cons, ← hcons]
    split
    · exact word_unified (by decide) (by decide) _ _
    · exact word_unified (by decide) (by decide) _ _
    · exact word_unified (by decide) (by decide) _ _
    · exact word_unified (by decide) (by decide) _ _
    · exact word_unified (by decide) (by decide) _ _
    · rw [afterWord?_unified (by decide) (by decide)]
      cases afterWord? "Infinity" s with
      | some rest => rfl
      | none => exact readMagnitude_unified _ _ _
    · exact readMagnitude_unified _ _ _

/-! ### Values -/

variable {levels fuel : Nat}

/-- A value by its first code point: a string, an object, an array or an atom. -/
theorem unifies_readValue_succ (hmembers : Unifies (readMembers (levels - 1) fuel))
    (hitems : Unifies (readItems (levels - 1) fuel)) : Unifies (readValue levels (fuel + 1)) := by
  intro s
  by_cases hquote : ∃ tail, s = quotation :: tail
  · obtain ⟨tail, rfl⟩ := hquote
    rw [unified_cons (by decide), readValue, readValue, ← unified_cons (by decide), readString_unified]
    exact (Reading.unified_map ofWide _).symm
  by_cases hbrace : ∃ tail, s = openBrace :: tail
  · obtain ⟨tail, rfl⟩ := hbrace
    rw [unified_cons (by decide), readValue, readValue, skipSpace_unified]
    split
    · rfl
    · generalize skipSpace tail = rest
      split
      next left hclose =>
        obtain ⟨left, rfl, rfl⟩ := (unified_eq_cons (by decide) (by decide)).1 hclose
        rfl
      next hclose =>
        rw [hmembers]
        split
        next left => exact (hclose _ (unified_cons (c := closeBrace) (by decide) left)).elim
        next => exact (Reading.unified_map (fun ms => Json.obj (Members.ofWritten ms)) _).symm
  by_cases hbracket : ∃ tail, s = openBracket :: tail
  · obtain ⟨tail, rfl⟩ := hbracket
    rw [unified_cons (by decide), readValue, readValue, skipSpace_unified]
    split
    · rfl
    · generalize skipSpace tail = rest
      split
      next left hclose =>
        obtain ⟨left, rfl, rfl⟩ := (unified_eq_cons (by decide) (by decide)).1 hclose
        rfl
      next hclose =>
        rw [hitems]
        split
        next left => exact (hclose _ (unified_cons (c := closeBracket) (by decide) left)).elim
        next => exact (Reading.unified_map Json.arr _).symm
  · have hatom : ∀ {c : Nat}, c ≠ 0x0D → c ≠ 0x0A → (¬∃ tail, s = c :: tail) → ∀ t, unified s ≠ c :: t :=
      fun hreturn hfeed hs t ht => hs (((unified_eq_cons hreturn hfeed).1 ht).imp fun _ => And.left)
    rw [readValue.eq_5 levels s fuel (fun _ h => hquote ⟨_, h⟩) (fun _ h => hbrace ⟨_, h⟩) fun _ h => hbracket ⟨_, h⟩,
      readValue.eq_5 levels (unified s) fuel (hatom (by decide) (by decide) hquote) (hatom (by decide) (by decide) hbrace)
        (hatom (by decide) (by decide) hbracket), readAtom_unified]

theorem unifies_readMembers_succ (hvalue : Unifies (readValue levels fuel)) (hmembers : Unifies (readMembers levels fuel)) :
    Unifies (readMembers levels (fuel + 1)) := by
  intro s
  by_cases hquote : ∃ tail, s = quotation :: tail
  · obtain ⟨tail, rfl⟩ := hquote
    rw [unified_cons (by decide), readMembers, readMembers, ← unified_cons (by decide), readString_unified]
    cases readString (quotation :: tail) tail with
    | error f => rfl
    | ok r =>
      obtain ⟨name, named⟩ := r
      rw [Reading.unified_ok]
      dsimp only
      rw [skipSpace_unified]
      generalize skipSpace named = named
      split
      next before hcolon =>
        obtain ⟨before, rfl, rfl⟩ := (unified_eq_cons (by decide) (by decide)).1 hcolon
        rw [skipSpace_unified, hvalue]
        -- The colon is a numeral here, which keeps simp from seeing that it is the one looked for.
        conv_rhs => arg 1; whnf
        cases readValue levels fuel (skipSpace before) with
        | error f => rfl
        | ok r =>
          obtain ⟨value, left⟩ := r
          rw [Reading.unified_ok]
          dsimp only
          rw [skipSpace_unified]
          generalize skipSpace left = left
          split
          next rest hclose =>
            obtain ⟨rest, rfl, rfl⟩ := (unified_eq_cons (by decide) (by decide)).1 hclose
            rfl
          next after hcomma =>
            obtain ⟨after, rfl, rfl⟩ := (unified_eq_cons (by decide) (by decide)).1 hcomma
            rw [skipSpace_unified, hmembers]
            exact (Reading.unified_map ((name, value) :: ·) _).symm
          next hclose hcomma =>
            split
            next rest => exact (hclose _ (unified_cons (c := closeBrace) (by decide) rest)).elim
            next after => exact (hcomma _ (unified_cons (c := comma) (by decide) after)).elim
            next => rfl
      next hcolon =>
        split
        next before => exact (hcolon _ (unified_cons (c := colon) (by decide) before)).elim
        next => rfl
  · rw [readMembers.eq_3 levels s fuel fun _ h => hquote ⟨_, h⟩, readMembers.eq_3 levels (unified s) fuel fun t ht =>
      hquote (((unified_eq_cons (by decide) (by decide)).1 ht).imp fun _ => And.left)]
    rfl

theorem unifies_readItems_succ (hvalue : Unifies (readValue levels fuel)) (hitems : Unifies (readItems levels fuel)) :
    Unifies (readItems levels (fuel + 1)) := by
  intro s
  rw [readItems, readItems, hvalue]
  cases readValue levels fuel s with
  | error f => rfl
  | ok r =>
    obtain ⟨value, left⟩ := r
    rw [Reading.unified_ok]
    dsimp only
    rw [skipSpace_unified]
    generalize skipSpace left = left
    split
    next rest hclose =>
      obtain ⟨rest, rfl, rfl⟩ := (unified_eq_cons (by decide) (by decide)).1 hclose
      rfl
    next after hcomma =>
      obtain ⟨after, rfl, rfl⟩ := (unified_eq_cons (by decide) (by decide)).1 hcomma
      rw [skipSpace_unified, hitems]
      exact (Reading.unified_map (value :: ·) _).symm
    next hclose hcomma =>
      split
      next rest => exact (hclose _ (unified_cons (c := closeBracket) (by decide) rest)).elim
      next after => exact (hcomma _ (unified_cons (c := comma) (by decide) after)).elim
      next => rfl

/-- Whatever the fuel and the levels, line ends are all the same to values, members and items. -/
theorem unifies_reading (fuel : Nat) : ∀ levels : Nat, Unifies (readValue levels fuel) ∧ Unifies (readMembers levels fuel) ∧
    Unifies (readItems levels fuel) := by
  induction fuel with
  | zero => exact fun levels => ⟨fun _ => rfl, fun _ => rfl, fun _ => rfl⟩
  | succ fuel ih =>
    exact fun levels => ⟨unifies_readValue_succ (ih _).2.1 (ih _).2.2, unifies_readMembers_succ (ih _).1 (ih _).2.1,
      unifies_readItems_succ (ih _).1 (ih _).2.2⟩

/-! ### Texts -/

theorem readCodes_unified (s : List Nat) : readCodes levels (unified s) = (readCodes levels s).mapError Fault.unified := by
  have hmark : (unified s).head? = some byteOrderMark ↔ s.head? = some byteOrderMark := by
    rw [List.head?_eq_some_iff, List.head?_eq_some_iff]
    exact ⟨fun ⟨_, h⟩ => ((unified_eq_cons (by decide) (by decide)).1 h).imp fun _ => And.left,
      fun ⟨t, h⟩ => ⟨unified t, h ▸ unified_cons (by decide) t⟩⟩
  have hleft : (unified (skipSpace s)).length ≤ (unified s).length := by
    rw [← skipSpace_unified]
    exact (skipSpace_suffix _).length_le
  have hlength := length_unified_le s
  have hvalue : readValue levels (2 * (unified s).length + 2) (unified (skipSpace s)) =
      (readValue levels (2 * s.length + 2) (skipSpace s)).unified := calc
    _ = readValue levels (2 * s.length + 2) (unified (skipSpace s)) := readValue_fuel (by omega) (by omega)
    _ = _ := (unifies_reading _ _).1 _
  rw [readCodes, readCodes, skipSpace_unified, hvalue]
  simp only [hmark]
  split
  · rfl
  · cases readValue levels (2 * s.length + 2) (skipSpace s) with
    | error f => rfl
    | ok r =>
      obtain ⟨value, rest⟩ := r
      rw [Reading.unified_ok]
      dsimp only
      rw [skipSpace_unified]
      generalize skipSpace rest = rest
      cases rest with
      | nil => rfl
      | cons c rest =>
        show _ = Except.error (Fault.malformed .extraData (unified (c :: rest)))
        cases hrest : unified (c :: rest) with
        | nil => exact absurd (unified_eq_nil.1 hrest) (List.cons_ne_nil _ _)
        | cons d left => rfl

/-- The same but for the place. -/
inductive ReadError.Alike : ReadError → ReadError → Prop
  | malformed (problem : Problem) (line column index line' column' index' : Nat) :
    Alike (.malformed problem line column index) (.malformed problem line' column' index')
  | excess (e : Excess) : Alike (.excess e) (.excess e)

theorem ReadError.alike_ofFault (s t : List Nat) (f : Fault) : Alike (ofFault s f.unified) (ofFault t f) := by
  cases f with
  | malformed p rest => exact .malformed p _ _ _ _ _ _
  | excess e => exact .excess e

/-- A text with unified line ends is read as the same value, or is refused for the same problem. -/
theorem readWide_unifyLineEnds (text : String) :
    (∃ d, readWide levels (String.ofList (Text.Utf8.unifyLineEnds text.toList)) = .ok d ∧ readWide levels text = .ok d) ∨
      ∃ e e', readWide levels (String.ofList (Text.Utf8.unifyLineEnds text.toList)) = .error e ∧
      readWide levels text = .error e' ∧ e.Alike e' := by
  have hcodes : Text.Wide.codes (String.ofList (Text.Utf8.unifyLineEnds text.toList)) = unified (Text.Wide.codes text) :=
    (Text.codesOf_ofList _).trans (codesOfChars_unifyLineEnds _)
  rw [readWide, readWide, hcodes, readCodes_unified]
  cases readCodes levels (Text.Wide.codes text) with
  | ok d => exact .inl ⟨d, rfl, rfl⟩
  | error f => exact .inr ⟨_, _, rfl, rfl, ReadError.alike_ofFault _ _ f⟩

theorem readWide_unifyLineEnds_eq_ok {text : String} {d : Json} :
    readWide levels (String.ofList (Text.Utf8.unifyLineEnds text.toList)) = .ok d ↔ readWide levels text = .ok d := by
  rcases readWide_unifyLineEnds text with ⟨d', hunified, hread⟩ | ⟨e, e', hunified, hread, -⟩
  · rw [hunified, hread]
  · simp [hunified, hread]

theorem readWide_unifyLineEnds_of_excess {text : String} {e : Excess} (h : readWide levels text = .error (.excess e)) :
    readWide levels (String.ofList (Text.Utf8.unifyLineEnds text.toList)) = .error (.excess e) := by
  rcases readWide_unifyLineEnds text with ⟨d, -, hread⟩ | ⟨e₁, e₂, hunified, hread, halike⟩
  · cases h.symm.trans hread
  · obtain rfl := Except.error.inj (h.symm.trans hread)
    cases halike
    exact hunified

end Adjudication.Json
