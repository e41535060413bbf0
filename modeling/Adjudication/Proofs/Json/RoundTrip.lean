import Mathlib.Data.List.Induction
import Adjudication.Proofs.Json.Doubles
import Adjudication.Proofs.Json.Whole

/-!
Reading gives back what was written, in either style: first the rows of items and of members, given that each value
among them is read back, then by induction every legible value. A whole text may have a line end behind it.
-/

namespace Adjudication.Json

open Text (codesOfChars)
open Decimal (IsNumeral)
open Sign

namespace Members

theorem put_of_not_mem_names {name : Text.Wide} {ms : Members} (h : name ∉ ms.names) (v : Json) :
    ms.put name v = ms ++ [(name, v)] := by
  induction ms with
  | nil => rfl
  | cons m rest ih =>
    obtain ⟨hm, hrest⟩ := not_or.1 (mt List.mem_cons.2 h)
    rw [put, if_neg (Ne.symm hm), ih hrest, List.cons_append]

/-- Members of different names stay as they are written. -/
theorem ofWritten_of_nodup {ms : Members} (h : ms.names.Nodup) : ofWritten ms = ms := by
  induction ms using List.reverseRecOn with
  | nil => rfl
  | append_singleton ms m ih =>
    rw [names, List.map_append] at h
    obtain ⟨hms, -, hapart⟩ := List.nodup_append.1 h
    have hfold : ofWritten (ms ++ [m]) = (ofWritten ms).put m.1 m.2 := List.foldl_append ..
    rw [hfold, ih hms, put_of_not_mem_names fun hm => hapart _ hm _ (List.mem_singleton_self _) rfl]

end Members

/-- A value whose text is read back as the value when so many levels are left and nothing in it is torn: names stand once
    each, integers and nesting keep to their limits, and doubles are finite. -/
inductive Legible : Nat → Json → Prop
  | null {levels : Nat} : Legible levels null
  | bool {levels : Nat} (b : Bool) : Legible levels (bool b)
  | int {levels : Nat} {i : Int} (h : Decimal.Short i) : Legible levels (int i)
  | double {levels : Nat} {x : Float} (h : Decimal.isFinite x = true) : Legible levels (double x)
  | str {levels : Nat} (s : String) : Legible levels (str s)
  | torn {levels : Nat} (t : Text.Torn) : Legible levels (torn t)
  | arr {levels : Nat} {items : List Json} (h : ∀ v ∈ items, Legible levels v) : Legible (levels + 1) (arr items)
  | obj {levels : Nat} {ms : Members} (hnames : ms.names.Nodup) (h : ∀ m ∈ ms, Legible levels m.2) :
    Legible (levels + 1) (obj ms)

variable {style : Style} {levels level : Nat} {v : Json} {rest : List Nat}

theorem head_of_numerals {cs : List Char} (hread : readAtom (codesOfChars cs) = .ok (v, rest)) (h : ∀ c ∈ cs, IsNumeral c) :
    ∃ c tail, cs = c :: tail ∧ IsNumeral c := by
  cases cs with
  | nil => cases hread
  | cons c tail => exact ⟨c, tail, rfl, h c List.mem_cons_self⟩

/-- A text begins with a code point that is neither white space nor the end of an array, nor a mark of the byte order. -/
theorem Legible.head (h : Legible levels v) (style : Style) (level : Nat) : ∃ code tail, write style level v = code :: tail ∧
    isSpace code = false ∧ code ≠ closeBracket ∧ code ≠ byteOrderMark := by
  cases h with
  | null => exact ⟨_, _, rfl, rfl, by decide, by decide⟩
  | bool b => cases b <;> exact ⟨_, _, rfl, rfl, by decide, by decide⟩
  | int hi =>
    obtain ⟨c, tail, hwrite, hc⟩ := head_of_numerals (readAtom_encodeInt hi) fun c => isNumeral_of_mem_encodeInt
    exact ⟨_, _, congrArg codesOfChars hwrite, (plain_of_isNumeral hc).1, (plain_of_isNumeral hc).2.2.2.2⟩
  | double hx =>
    obtain ⟨c, tail, hwrite, hc⟩ := head_of_numerals (readAtom_encodeDouble hx) fun c => isNumeral_of_mem_encodeDouble hx
    exact ⟨_, _, congrArg codesOfChars hwrite, (plain_of_isNumeral hc).1, (plain_of_isNumeral hc).2.2.2.2⟩
  | str _ | torn _ => exact ⟨_, _, rfl, rfl, by decide, by decide⟩
  | @arr _ items _ => cases items <;> exact ⟨_, _, rfl, rfl, by decide, by decide⟩
  | @obj _ ms _ _ => cases ms <;> exact ⟨_, _, rfl, rfl, by decide, by decide⟩

/-! ### White space between the parts -/

/-- What stands behind a comma. -/
def gap (style : Style) (level : Nat) : List Nat := if style.indented then lineBreak style level else [space]

theorem separator_eq (style : Style) (level : Nat) : separator style level = comma :: gap style level := rfl

theorem isSpace_of_mem_lineBreak : ∀ code ∈ lineBreak style level, isSpace code = true := by
  intro code hcode
  rw [lineBreak] at hcode
  split at hcode
  · rcases List.mem_cons.1 hcode with rfl | hcode
    · rfl
    · obtain rfl := (List.mem_replicate.1 hcode).2
      rfl
  · cases hcode

theorem isSpace_of_mem_gap : ∀ code ∈ gap style level, isSpace code = true := by
  rw [gap]
  split
  · exact isSpace_of_mem_lineBreak
  · decide

theorem skipSpace_append {blank : List Nat} (hblank : ∀ code ∈ blank, isSpace code = true)
    (hrest : ∀ code ∈ rest.head?, isSpace code = false) : skipSpace (blank ++ rest) = rest := by
  rw [skipSpace, List.dropWhile_append_of_pos hblank]
  exact skipSpace_of_head hrest

theorem Legible.head_append (h : Legible levels v) (style : Style) (level : Nat) (rest : List Nat) :
    ∀ code ∈ (write style level v ++ rest).head?,
      isSpace code = false ∧ code ≠ closeBracket ∧ code ≠ byteOrderMark := by
  obtain ⟨c, tail, hwrite, hc⟩ := h.head style level
  rw [hwrite]
  intro code hcode
  obtain rfl := Option.some.inj hcode
  exact hc

theorem Legible.skipSpace_append (h : Legible levels v) {blank : List Nat} (hblank : ∀ code ∈ blank, isSpace code = true)
    (style : Style) (level : Nat) (rest : List Nat) :
    skipSpace (blank ++ (write style level v ++ rest)) = write style level v ++ rest :=
  Json.skipSpace_append hblank fun code hcode => (h.head_append style level rest code hcode).1

theorem ends_lineBreak {code : Nat} (h : code = closeBracket ∨ code = closeBrace) :
    Ends (lineBreak style level ++ code :: rest) := by
  rw [lineBreak]
  split
  · exact ends_cons (.inr (.inr (.inr rfl))) _
  · exact ends_cons (.inr (h.imp_right .inl)) _

/-! ### Rows of parts -/

/-- A value is read back from its text, whatever ends it. -/
def Reads (style : Style) (levels level : Nat) (v : Json) : Prop :=
  ∀ fuel rest, Ends rest → (write style level v).length ≤ fuel →
    readValue levels fuel (write style level v ++ rest) = .ok (v, rest)

theorem skipSpace_closing {code : Nat} (h : isSpace code = false) (style : Style) (level : Nat) (rest : List Nat) :
    skipSpace (lineBreak style level ++ code :: rest) = code :: rest :=
  skipSpace_append isSpace_of_mem_lineBreak fun other ho => by
    obtain rfl := Option.some.inj ho
    exact h

theorem readItems_of_closing {fuel : Nat} {s left : List Nat} (hv : readValue levels fuel s = .ok (v, left))
    (hleft : skipSpace left = closeBracket :: rest) : readItems levels (fuel + 1) s = .ok ([v], rest) := by
  rw [readItems, hv]
  dsimp only
  rw [hleft]
  rfl

theorem readItems_of_comma {fuel : Nat} {s left : List Nat} (hv : readValue levels fuel s = .ok (v, comma :: left)) :
    readItems levels (fuel + 1) s =
      (readItems levels fuel (skipSpace left)).map fun (items, rest) => (v :: items, rest) := by
  rw [readItems, hv]
  rfl

variable (style level) in
/-- A row of items is read back up to its end. -/
theorem readItems_write {items : List Json} (hitems : ∀ w ∈ items, Legible levels w ∧ Reads style levels level w)
    (closing : Nat) (rest : List Nat) : ∀ {v : Json}, Reads style levels level v → ∀ fuel : Nat,
      (write style level v).length + (writeItems style level items).length < fuel →
      readItems levels fuel (write style level v ++ (writeItems style level items ++
        (lineBreak style closing ++ closeBracket :: rest))) = .ok (v :: items, rest) := by
  induction items with
  | nil =>
    intro v hv fuel hfuel
    obtain ⟨fuel, rfl⟩ : ∃ n, fuel = n + 1 := ⟨fuel - 1, by omega⟩
    exact readItems_of_closing (hv _ _ (ends_lineBreak (.inl rfl)) (by omega)) (skipSpace_closing rfl _ _ _)
  | cons w items ih =>
    intro v hv fuel hfuel
    obtain ⟨fuel, rfl⟩ : ∃ n, fuel = n + 1 := ⟨fuel - 1, by omega⟩
    obtain ⟨hlegible, hw⟩ := hitems w List.mem_cons_self
    rw [writeItems, separator_eq] at hfuel
    simp only [List.length_append, List.length_cons] at hfuel
    simp only [writeItems, List.append_assoc]
    rw [separator_eq, List.cons_append, readItems_of_comma (hv _ _ (ends_cons (.inl rfl) _) (by omega)),
      hlegible.skipSpace_append isSpace_of_mem_gap,
      ih (fun u hu => hitems u (List.mem_cons_of_mem _ hu)) hw _ (by omega)]
    rfl

/-! ### Rows of members -/

/-- A text as it is written, its opening quote apart. -/
theorem codesOfChars_encodeString (ascii : Bool) (s : String) :
    codesOfChars (encodeString ascii s) = quotation :: codesOfChars (encodeString ascii s).tail := rfl

theorem readMembers_of_closing {fuel : Nat} {s after left : List Nat} {name : Text.Wide}
    (hname : readString (quotation :: s) s = .ok (name, colon :: after))
    (hv : readValue levels fuel (skipSpace after) = .ok (v, left)) (hleft : skipSpace left = closeBrace :: rest) :
    readMembers levels (fuel + 1) (quotation :: s) = .ok ([(name, v)], rest) := by
  have hcolon : skipSpace (colon :: after) = colon :: after := rfl
  rw [readMembers, hname]
  simp only [hcolon, hv, hleft]

theorem readMembers_of_comma {fuel : Nat} {s after left : List Nat} {name : Text.Wide}
    (hname : readString (quotation :: s) s = .ok (name, colon :: after))
    (hv : readValue levels fuel (skipSpace after) = .ok (v, comma :: left)) :
    readMembers levels (fuel + 1) (quotation :: s) =
      (readMembers levels fuel (skipSpace left)).map fun (ms, rest) => ((name, v) :: ms, rest) := by
  have hcolon : skipSpace (colon :: after) = colon :: after := rfl
  have hcomma : skipSpace (comma :: left) = comma :: left := rfl
  rw [readMembers, hname]
  simp only [hcolon, hv, hcomma]

/-- A member whose value goes beyond the limits. -/
theorem readMembers_of_excess {fuel : Nat} {s after : List Nat} {name : Text.Wide} {e : Excess}
    (hname : readString (quotation :: s) s = .ok (name, colon :: after))
    (hv : readValue levels fuel (skipSpace after) = .error (.excess e)) :
    readMembers levels (fuel + 1) (quotation :: s) = .error (.excess e) := by
  have hcolon : skipSpace (colon :: after) = colon :: after := rfl
  rw [readMembers, hname]
  simp only [hcolon, hv]

/-- The code points of a member, and what follows it. -/
def member (style : Style) (level : Nat) (s : String) (v : Json) (rest : List Nat) : List Nat :=
  codesOfChars (encodeString style.ascii s) ++ colon :: space :: (write style level v ++ rest)

theorem writeMembers_append (style : Style) (level : Nat) (s : String) (v : Json) (ms : Members) (rest : List Nat) :
    writeMembers style level ((.text s, v) :: ms) ++ rest =
      comma :: (gap style level ++ member style level s v (writeMembers style level ms ++ rest)) := by
  rw [writeMembers, separator_eq, member]
  simp [encodeWide]

theorem skipSpace_member {blank : List Nat} (hblank : ∀ code ∈ blank, isSpace code = true) (style : Style) (level : Nat)
    (s : String) (v : Json) (rest : List Nat) :
    skipSpace (blank ++ member style level s v rest) = member style level s v rest :=
  skipSpace_append hblank fun code hcode => by
    obtain rfl := Option.some.inj hcode
    rfl

variable (style level) in
/-- A row of members is read back up to its end. -/
theorem readMembers_write {ms : Members}
    (hms : ∀ m ∈ ms, (∃ s, m.1 = .text s) ∧ Legible levels m.2 ∧ Reads style levels level m.2)
    (closing : Nat) (rest : List Nat) : ∀ (s : String) {v : Json}, Legible levels v → Reads style levels level v →
      ∀ fuel : Nat, (write style level v).length + (writeMembers style level ms).length < fuel →
      readMembers levels fuel (member style level s v (writeMembers style level ms ++
        (lineBreak style closing ++ closeBrace :: rest))) = .ok ((.text s, v) :: ms, rest) := by
  have hblank : ∀ code ∈ [0x20], isSpace code = true := by decide
  induction ms with
  | nil =>
    intro s v hlegible hv fuel hfuel
    obtain ⟨fuel, rfl⟩ : ∃ n, fuel = n + 1 := ⟨fuel - 1, by omega⟩
    refine readMembers_of_closing (readString_encodeString _ _ _ _) ?_ (skipSpace_closing rfl style closing rest)
    rw [← List.singleton_append, hlegible.skipSpace_append hblank]
    exact hv _ _ (ends_lineBreak (.inr rfl)) (by omega)
  | cons m ms ih =>
    intro s v hlegible hv fuel hfuel
    obtain ⟨fuel, rfl⟩ : ∃ n, fuel = n + 1 := ⟨fuel - 1, by omega⟩
    obtain ⟨name, w⟩ := m
    obtain ⟨⟨t, rfl⟩, hwLegible, hw⟩ := hms _ List.mem_cons_self
    rw [writeMembers, separator_eq] at hfuel
    simp only [List.length_append, List.length_cons] at hfuel hwLegible hw
    have hends : Ends (comma :: (gap style level ++ member style level t w
        (writeMembers style level ms ++ (lineBreak style closing ++ closeBrace :: rest)))) :=
      ends_cons (.inl rfl) _
    have hvalue := hv fuel _ hends (by omega)
    rw [← hlegible.skipSpace_append hblank] at hvalue
    rw [writeMembers_append]
    refine (readMembers_of_comma (readString_encodeString _ _ _ _) hvalue).trans ?_
    rw [skipSpace_member isSpace_of_mem_gap,
      ih (fun u hu => hms u (List.mem_cons_of_mem _ hu)) _ hwLegible hw _ (by omega)]
    rfl

/-! ### Values -/

/-- A text that is read as an atom up to its end is read back. -/
theorem reads_of_readAtom {c : Char} {tail : List Char} (hwrite : write style level v = codesOfChars (c :: tail))
    (hread : readAtom (codesOfChars (c :: tail)) = .ok (v, []))
    (hc : c.toNat ≠ quotation ∧ c.toNat ≠ openBrace ∧ c.toNat ≠ openBracket) : Reads style levels level v := by
  intro fuel rest hends hfuel
  rw [hwrite] at hfuel ⊢
  obtain ⟨fuel, rfl⟩ : ∃ n, fuel = n + 1 := ⟨fuel - 1, by rw [Text.codesOfChars_cons, List.length_cons] at hfuel; omega⟩
  rw [readValue_eq_readAtom, hends.readAtom_append hread, List.nil_append]
  intro code hcode
  obtain rfl := Option.some.inj hcode
  exact hc

theorem reads_of_numerals {cs : List Char} (hwrite : write style level v = codesOfChars cs)
    (hread : readAtom (codesOfChars cs) = .ok (v, [])) (h : ∀ c ∈ cs, IsNumeral c) : Reads style levels level v := by
  obtain ⟨c, tail, rfl, hc⟩ := head_of_numerals hread h
  exact reads_of_readAtom hwrite hread ⟨(plain_of_isNumeral hc).2.1, (plain_of_isNumeral hc).2.2.1,
    (plain_of_isNumeral hc).2.2.2.1⟩

theorem Legible.exists_fuel (h : Legible levels v) {fuel : Nat} (hfuel : (write style level v).length ≤ fuel) :
    ∃ n, fuel = n + 1 := by
  obtain ⟨c, tail, hwrite, -⟩ := h.head style level
  rw [hwrite, List.length_cons] at hfuel
  exact ⟨fuel - 1, by omega⟩

theorem readValue_items {fuel : Nat} {s : List Nat} {items : List Json}
    (hrow : readItems levels fuel (skipSpace s) = .ok (items, rest)) (hs : (skipSpace s).head? ≠ some closeBracket) :
    readValue (levels + 1) (fuel + 1) (openBracket :: s) = .ok (.arr items, rest) := by
  rw [readValue, if_neg (Nat.succ_ne_zero _)]
  split
  next heq =>
    rw [heq] at hs
    exact absurd rfl hs
  next =>
    rw [Nat.add_sub_cancel, hrow]
    rfl

theorem readValue_members {fuel : Nat} {s : List Nat} {ms : Members}
    (hrow : readMembers levels fuel (skipSpace s) = .ok (ms, rest)) (hs : (skipSpace s).head? ≠ some closeBrace) :
    readValue (levels + 1) (fuel + 1) (openBrace :: s) = .ok (.obj (Members.ofWritten ms), rest) := by
  rw [readValue, if_neg (Nat.succ_ne_zero _)]
  split
  next heq =>
    rw [heq] at hs
    exact absurd rfl hs
  next =>
    rw [Nat.add_sub_cancel, hrow]
    rfl

theorem readValue_of_excess {fuel : Nat} {s : List Nat} {e : Excess}
    (hrow : readMembers levels fuel (quotation :: s) = .error (.excess e)) :
    readValue (levels + 1) (fuel + 1) (openBrace :: quotation :: s) = .error (.excess e) := by
  have hskip : skipSpace (quotation :: s) = quotation :: s := rfl
  rw [readValue, if_neg (Nat.succ_ne_zero _), hskip, Nat.add_sub_cancel]
  exact congrArg (Except.map _) hrow

/-- A legible value in which nothing is torn is read back from its text. -/
theorem Legible.reads (h : Legible levels v) (hwhole : v.isWhole = true) (style : Style) (level : Nat) :
    Reads style levels level v := by
  induction h generalizing level with
  | null => exact reads_of_readAtom rfl rfl (by decide)
  | bool b => cases b <;> exact reads_of_readAtom rfl rfl (by decide)
  | int hi => exact reads_of_numerals rfl (readAtom_encodeInt hi) fun c => isNumeral_of_mem_encodeInt
  | double hx => exact reads_of_numerals rfl (readAtom_encodeDouble hx) fun c => isNumeral_of_mem_encodeDouble hx
  | str s =>
    intro fuel rest hends hfuel
    have hlegible : Legible levels (.str s) := .str s
    obtain ⟨fuel, rfl⟩ := hlegible.exists_fuel hfuel
    rw [write, encodeWide, codesOfChars_encodeString, List.cons_append, readValue, readString_encodeString]
    rfl
  | torn t => cases hwhole
  | @arr levels items h ih =>
    intro fuel rest hends hfuel
    obtain ⟨fuel, rfl⟩ := (Legible.arr h).exists_fuel hfuel
    rw [isWhole_arr, List.all_eq_true] at hwhole
    cases items with
    | nil => rfl
    | cons v items =>
      rw [write] at hfuel ⊢
      simp only [List.length_append, List.length_cons] at hfuel
      have hv := h v List.mem_cons_self
      have hrow := readItems_write style (level + 1)
        (fun w hw => ⟨h w (List.mem_cons_of_mem _ hw),
          ih w (List.mem_cons_of_mem _ hw) (hwhole w (List.mem_cons_of_mem _ hw)) (level + 1)⟩)
        level rest (ih v List.mem_cons_self (hwhole v List.mem_cons_self) (level + 1)) fuel (by omega)
      rw [← hv.skipSpace_append isSpace_of_mem_lineBreak] at hrow
      simp only [List.cons_append, List.append_assoc]
      refine readValue_items hrow fun hclose => ?_
      rw [hv.skipSpace_append isSpace_of_mem_lineBreak] at hclose
      exact (hv.head_append style (level + 1) _ _ hclose).2.1 rfl
  | @obj levels ms hnames h ih =>
    intro fuel rest hends hfuel
    obtain ⟨fuel, rfl⟩ := (Legible.obj hnames h).exists_fuel hfuel
    have hparts : ∀ m ∈ ms, (∃ s, m.1 = .text s) ∧ m.2.isWhole = true := fun m hm => by
      rw [isWhole_obj, List.all_eq_true] at hwhole
      obtain ⟨hname, hvalue⟩ := Bool.and_eq_true_iff.1 (hwhole m hm)
      exact ⟨Text.Wide.isWhole_iff.1 hname, hvalue⟩
    cases ms with
    | nil => rfl
    | cons m ms =>
      obtain ⟨name, v⟩ := m
      obtain ⟨⟨s, rfl⟩, hvWhole⟩ : (∃ s, name = .text s) ∧ v.isWhole = true := hparts _ List.mem_cons_self
      rw [write] at hfuel ⊢
      simp only [List.length_append, List.length_cons] at hfuel
      have hv : Legible levels v := h _ List.mem_cons_self
      have hreads : Reads style levels (level + 1) v := ih _ List.mem_cons_self hvWhole (level + 1)
      have hrow := readMembers_write style (level + 1)
        (fun m hm =>
          have hmem := List.mem_cons_of_mem _ hm
          ⟨(hparts m hmem).1, h m hmem, ih m hmem (hparts m hmem).2 (level + 1)⟩)
        level rest s hv hreads fuel (by omega)
      have hhead : (skipSpace (lineBreak style (level + 1) ++ member style (level + 1) s v
          (writeMembers style (level + 1) ms ++
            (lineBreak style level ++ closeBrace :: rest)))).head? ≠ some closeBrace := by
        rw [skipSpace_member isSpace_of_mem_lineBreak]
        exact fun hclose => by cases hclose
      rw [← skipSpace_member isSpace_of_mem_lineBreak] at hrow
      rw [← Members.ofWritten_of_nodup hnames]
      simp only [encodeWide, List.cons_append, List.append_assoc]
      exact readValue_members hrow hhead

/-- The text of a legible value in which nothing is torn, with or without line ends behind it, is read as the value. -/
theorem Legible.readCodes_write (h : Legible levels v) (hwhole : v.isWhole = true) (style : Style) {rest : List Nat}
    (hrest : ∀ code ∈ rest, code = 0x0A) : readCodes levels (write style 0 v ++ rest) = .ok v := by
  have hhead := h.head_append style 0 rest
  have hends : Ends rest := fun code hcode => .inr (.inr (.inr (hrest code (List.mem_of_mem_head? hcode))))
  have hblank : ∀ code ∈ rest, isSpace code = true := fun code hcode => by
    rw [hrest code hcode]
    rfl
  have hspace : skipSpace (rest ++ []) = [] := Json.skipSpace_append hblank (by simp)
  rw [List.append_nil] at hspace
  have hmark : (write style 0 v ++ rest).head? ≠ some byteOrderMark := fun hb => (hhead _ hb).2.2 rfl
  have hfuel : (write style 0 v).length ≤ 2 * (write style 0 v ++ rest).length + 2 := by
    rw [List.length_append]
    omega
  rw [readCodes, if_neg hmark, skipSpace_of_head fun code hcode => (hhead code hcode).1, h.reads hwhole style 0 _ _ hends hfuel]
  dsimp only
  rw [hspace]

/-- What is written of a legible value in which nothing is torn is read as the value, with line ends behind it or
    without. -/
theorem Legible.readWide_write (h : Legible levels v) (hwhole : v.isWhole = true) (style : Style) {more : List Nat}
    (hmore : ∀ code ∈ more, code = lineEnd) : readWide levels (.ofCodes (write style 0 v ++ more)) = .ok v := by
  refine mapError_eq_ok.2 ?_
  have hvalid : ∀ code ∈ write style 0 v ++ more, code.isValidChar := fun code hcode => by
    obtain hcode | hcode := List.mem_append.1 hcode
    · exact isValidChar_of_mem_write (.inl hwhole) 0 hcode
    · rw [hmore code hcode]
      decide
  rw [Text.Wide.codes_ofCodes fun code hcode => .inl (hvalid code hcode)]
  exact h.readCodes_write hwhole style hmore

end Adjudication.Json
