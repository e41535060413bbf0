import Adjudication.Template

/-!
Templates that are put together of literal texts and plain fields. A literal text is written with its braces doubled, and a
plain field holds nothing but a name. Filling such a template in goes through it once and puts what the pieces stand for one
behind the other; what a field stands for is not looked at again.
-/

namespace Adjudication.Template

variable {values : Values} {inner : List Char → Filled} {s filled text name : List Char} {c : Char}

/-! ### Literal texts -/

/-- A text as a template writes it: braces are doubled. -/
def doubled (text : List Char) : List Char := text.flatMap fun c => if c = '{' ∨ c = '}' then [c, c] else [c]

theorem doubled_cons_brace (h : c = '{' ∨ c = '}') (text : List Char) : doubled (c :: text) = c :: c :: doubled text := by
  rw [doubled, List.flatMap_cons, if_pos h]
  rfl

theorem doubled_cons (h : ¬(c = '{' ∨ c = '}')) (text : List Char) : doubled (c :: text) = c :: doubled text := by
  rw [doubled, List.flatMap_cons, if_neg h]
  rfl

/-! ### Filling in -/

/-- A template is filled in as a text, whatever fuel there is as long as it lasts for the template. -/
def Fills (values : Values) (inner : List Char → Filled) (s filled : List Char) : Prop :=
  ∀ fuel, s.length ≤ fuel → fillWith values inner fuel s = .ok filled

theorem Fills.nil : Fills values inner [] [] := by
  intro fuel _
  cases fuel <;> rfl

theorem Fills.character (hc : ¬(c = '{' ∨ c = '}')) (h : Fills values inner s filled) :
    Fills values inner (c :: s) (c :: filled) := by
  rintro (_ | fuel) hfuel
  · cases hfuel
  · obtain ⟨hopen, hclose⟩ := not_or.1 hc
    rw [fillWith]
    · rw [h fuel (Nat.le_of_succ_le_succ hfuel)]
      rfl
    · exact hopen
    · exact hclose

theorem Fills.brace (hc : c = '{' ∨ c = '}') (h : Fills values inner s filled) :
    Fills values inner (c :: c :: s) (c :: filled) := by
  rintro (_ | fuel) hfuel
  · cases hfuel
  · have hrest := h fuel (Nat.le_of_succ_le (Nat.le_of_succ_le_succ hfuel))
    rcases hc with rfl | rfl
    · rw [fillWith, hrest]
      rfl
    · rw [fillWith, hrest]
      rfl

/-- A literal text stands for itself. -/
theorem Fills.literal (text : List Char) (h : Fills values inner s filled) :
    Fills values inner (doubled text ++ s) (text ++ filled) := by
  induction text with
  | nil => exact h
  | cons c text ih =>
    by_cases hc : c = '{' ∨ c = '}'
    · rw [doubled_cons_brace hc]
      exact ih.brace hc
    · rw [doubled_cons hc]
      exact ih.character hc

/-! ### Plain fields -/

/-- What does not start with a digit is no number. -/
theorem numberOf?_of_not_digit {c : Char} {name : List Char} (h : Text.digitValue? c = none) :
    numberOf? (c :: name) = .ok none := by
  simp [numberOf?, h]

/-- A name by which a field asks for a value as a whole. -/
structure IsPlain (name : List Char) : Prop where
  nonempty : name ≠ []
  /-- No character of it ends the name or asks for a part of the value. -/
  unmarked : ∀ c ∈ name, c ∉ ['{', '}', ':', '!', '.', '[']
  /-- It does not ask for a value by its place. -/
  unnumbered : numberOf? name = .ok none

/-- A plain field as a template writes it. -/
def field (name : List Char) : List Char := '{' :: (name ++ ['}'])

theorem field_append (name s : List Char) : field name ++ s = '{' :: (name ++ '}' :: s) := by
  rw [field, List.cons_append, List.append_assoc]
  rfl

theorem splitName_of_unmarked (h : ∀ c ∈ name, c ∉ ['{', '}', ':', '!', '.', '[']) (s : List Char) :
    splitName false (name ++ '}' :: s) = .ok (name, some '}', s) := by
  induction name with
  | nil => rfl
  | cons c name ih =>
    obtain ⟨hc, hname⟩ := List.forall_mem_cons.1 h
    simp only [List.mem_cons, List.not_mem_nil, or_false, not_or] at hc
    obtain ⟨hopen, hclose, hcolon, hmark, hdot, hbracket⟩ := hc
    rw [List.cons_append, splitName, if_neg hopen, if_neg (by simp [hclose, hcolon, hmark]), decide_eq_false hbracket, ih hname]
    rfl

theorem splitField_plain (h : IsPlain name) (s : List Char) :
    splitField (name ++ '}' :: s) = .ok (⟨name, none, []⟩, s) := by
  rw [splitField, splitName_of_unmarked h.unmarked]
  rfl

/-- A plain name stands for the value that has it. -/
theorem valueOf_plain (h : IsPlain name) {value : String}
    (hvalue : (values.find? fun v => v.1 = String.ofList name).map Prod.snd = some value) :
    valueOf values name = .ok (.text value.toList) := by
  have hfirst : ∀ c ∈ name, decide (c ≠ '.' ∧ c ≠ '[') = true := fun c hc => by
    have hmarks := h.unmarked c hc
    simp only [List.mem_cons, List.not_mem_nil, or_false, not_or] at hmarks
    exact decide_eq_true ⟨hmarks.2.2.2.2.1, hmarks.2.2.2.2.2⟩
  have htake : name.takeWhile (fun c => decide (c ≠ '.' ∧ c ≠ '[')) = name := by
    simpa using @List.takeWhile_append_of_pos _ _ name [] hfirst
  have hdrop : name.dropWhile (fun c => decide (c ≠ '.' ∧ c ≠ '[')) = [] := by
    simpa using @List.dropWhile_append_of_pos _ _ name [] hfirst
  have hfollow : follow (.ofString value) name.length [] = .ok (.text value.toList) := by cases name <;> rfl
  rw [valueOf]
  simp only [htake, hdrop]
  rw [if_neg h.nonempty, h.unnumbered]
  simp only [bind, Except.bind, hvalue, hfollow]

/-- A plain field stands for its value, and the value is put in as it is. -/
theorem Fills.field (hname : IsPlain name) {value : String}
    (hvalue : (values.find? fun v => v.1 = String.ofList name).map Prod.snd = some value)
    (h : Fills values inner s filled) : Fills values inner (field name ++ s) (value.toList ++ filled) := by
  rintro (_ | fuel) hfuel
  · cases hfuel
  · have hopen : ∀ rest, name ++ '}' :: s ≠ '{' :: rest := by
      intro rest heq
      obtain ⟨c, name, rfl⟩ := List.exists_cons_of_ne_nil hname.nonempty
      exact hname.unmarked c (.head _) (by simp [(List.cons.inj heq).1])
    rw [field_append] at hfuel ⊢
    have hrest : s.length ≤ fuel := by
      simp only [List.length_append, List.length_cons] at hfuel
      omega
    rw [fillWith]
    · rw [splitField_plain hname]
      simp only [bind, Except.bind, valueOf_plain hname hvalue, convert, layOut, h fuel hrest]
      rfl
    · simp
    · exact hopen

/-! ### Pieces -/

/-- A piece of a template: a literal text, or a plain field of one of the names in `ν`. -/
inductive Piece (ν : Type) where
  | literal (text : String)
  | field (name : ν)

variable {ν : Type} {spell value : ν → String} {n : ν} {pieces : List (Piece ν)}

/-- How a piece is written. -/
def Piece.written (spell : ν → String) : Piece ν → List Char
  | literal text => doubled text.toList
  | field name => Template.field (spell name).toList

/-- What a piece stands for. -/
def Piece.meant (value : ν → String) : Piece ν → List Char
  | literal text => text.toList
  | field name => (value name).toList

/-- The template that pieces are written as. -/
def written (spell : ν → String) (pieces : List (Piece ν)) : String := String.ofList (pieces.flatMap (Piece.written spell))

/-- The text that pieces stand for. -/
def meant (value : ν → String) (pieces : List (Piece ν)) : String := String.ofList (pieces.flatMap (Piece.meant value))

theorem fills_written (hplain : ∀ n, IsPlain (spell n).toList)
    (hvalue : ∀ n, (values.find? fun v => v.1 = spell n).map Prod.snd = some (value n)) (pieces : List (Piece ν)) :
    Fills values inner (pieces.flatMap (Piece.written spell)) (pieces.flatMap (Piece.meant value)) := by
  induction pieces with
  | nil => exact .nil
  | cons piece pieces ih =>
    rw [List.flatMap_cons, List.flatMap_cons]
    cases piece with
    | literal text => exact ih.literal text.toList
    | field n => exact ih.field (hplain n) (by rw [String.ofList_toList]; exact hvalue n)

/-- A template that pieces are written as is filled in with what they stand for. -/
theorem fill_written (hplain : ∀ n, IsPlain (spell n).toList)
    (hvalue : ∀ n, (values.find? fun v => v.1 = spell n).map Prod.snd = some (value n)) (pieces : List (Piece ν)) :
    fill values (written spell pieces) = .ok (meant value pieces) := by
  rw [fill, written, fillNested, String.toList_ofList, fills_written hplain hvalue pieces _ (Nat.le_refl _)]
  rfl

/-! ### Occurrences of fields -/

/-- What begins with a character passes by a text without that character. -/
theorem infix_of_infix_append {u v : List Char} (hc : c ∉ u) (h : c :: s <:+: u ++ v) : c :: s <:+: v := by
  induction u with
  | nil => exact h
  | cons d u ih =>
    rw [List.mem_cons, not_or] at hc
    rcases List.infix_cons_iff.1 h with h | h
    · exact absurd (List.cons_prefix_cons.1 h).1 hc.1
    · exact ih hc.2 h

/-- Where a template begins with a name and a closing brace, so does what it stands for. -/
def Closes (s filled : List Char) : Prop :=
  ∀ name : List Char, (∀ c ∈ name, ¬(c = '{' ∨ c = '}')) → name ++ ['}'] <+: s → name ++ ['}'] <+: filled

theorem Closes.nil : Closes [] [] := fun _ _ h => h

theorem Closes.character (hc : ¬(c = '{' ∨ c = '}')) (h : Closes s filled) : Closes (c :: s) (c :: filled) := by
  rintro (_ | ⟨d, name⟩) hname hbegins
  · exact absurd (.inr (List.cons_prefix_cons.1 hbegins).1.symm) hc
  · obtain ⟨rfl, hrest⟩ := List.cons_prefix_cons.1 hbegins
    exact List.cons_prefix_cons.2 ⟨rfl, h name (fun e he => hname e (.tail _ he)) hrest⟩

theorem Closes.brace (hc : c = '{' ∨ c = '}') (s filled : List Char) : Closes (c :: s) (c :: filled) := by
  rintro (_ | ⟨d, name⟩) hname hbegins
  · exact List.cons_prefix_cons.2 ⟨(List.cons_prefix_cons.1 hbegins).1, List.nil_prefix⟩
  · exact absurd ((List.cons_prefix_cons.1 hbegins).1 ▸ hc) (hname d (.head _))

theorem Closes.literal (text : List Char) (h : Closes s filled) : Closes (doubled text ++ s) (text ++ filled) := by
  induction text with
  | nil => exact h
  | cons c text ih =>
    by_cases hc : c = '{' ∨ c = '}'
    · rw [doubled_cons_brace hc]
      exact .brace hc _ _
    · rw [doubled_cons hc]
      exact ih.character hc

theorem Closes.field (name s filled : List Char) : Closes (field name ++ s) filled := by
  rintro (_ | ⟨d, other⟩) hother hbegins
  · exact absurd (List.cons_prefix_cons.1 hbegins).1 (by decide)
  · exact absurd (.inl (List.cons_prefix_cons.1 hbegins).1) (hother d (.head _))

theorem closes_written (pieces : List (Piece ν)) :
    Closes (pieces.flatMap (Piece.written spell)) (pieces.flatMap (Piece.meant value)) := by
  induction pieces with
  | nil => exact .nil
  | cons piece pieces ih =>
    cases piece with
    | literal text => exact ih.literal text.toList
    | field n => exact .field _ _ _

theorem IsPlain.not_brace (h : IsPlain name) : ∀ c ∈ name, ¬(c = '{' ∨ c = '}') := by
  rintro c hc (rfl | rfl)
  · exact h.unmarked _ hc (by decide)
  · exact h.unmarked _ hc (by decide)

/-- What looks like a field in a literal text as it is written is in the text itself, or in what comes after it. -/
theorem infix_literal (hname : IsPlain name) (hs : Closes s filled) (h : field name <:+: s → field name <:+: filled)
    (text : List Char) : field name <:+: doubled text ++ s → field name <:+: text ++ filled := by
  induction text with
  | nil => exact h
  | cons c text ih =>
    by_cases hc : c = '{' ∨ c = '}'
    · rw [doubled_cons_brace hc, List.cons_append, List.cons_append]
      intro hinfix
      rcases List.infix_cons_iff.1 hinfix with hfirst | hinfix
      · -- A doubled brace has a brace behind it, and a field has its name there.
        obtain ⟨d, name, rfl⟩ := List.exists_cons_of_ne_nil hname.nonempty
        exact absurd ((List.cons_prefix_cons.1 (List.cons_prefix_cons.1 hfirst).2).1 ▸ hc) (hname.not_brace d (.head _))
      · rcases List.infix_cons_iff.1 hinfix with hsecond | hinfix
        · obtain ⟨rfl, hrest⟩ := List.cons_prefix_cons.1 hsecond
          exact (List.cons_prefix_cons.2 ⟨rfl, hs.literal text name hname.not_brace hrest⟩).isInfix
        · exact List.infix_cons (ih hinfix)
    · rw [doubled_cons hc, List.cons_append]
      intro hinfix
      rcases List.infix_cons_iff.1 hinfix with hfirst | hinfix
      · exact absurd (.inl (List.cons_prefix_cons.1 hfirst).1.symm) hc
      · exact List.infix_cons (ih hinfix)

theorem eq_of_prefix_close : ∀ {u v : List Char}, '}' ∉ u → '}' ∉ v → u ++ ['}'] <+: v ++ '}' :: s → u = v
  | [], [], _, _, _ => rfl
  | [], d :: v, _, hv, h => absurd ((List.cons_prefix_cons.1 h).1 ▸ .head _) hv
  | c :: u, [], hu, _, h => absurd ((List.cons_prefix_cons.1 h).1 ▸ .head _) hu
  | c :: u, d :: v, hu, hv, h => by
    obtain ⟨rfl, hrest⟩ := List.cons_prefix_cons.1 h
    rw [eq_of_prefix_close (fun hm => hu (.tail _ hm)) (fun hm => hv (.tail _ hm)) hrest]

/-- Where something looks like a field in a template, there is that field, or the text that the pieces stand for looks
like it as well. -/
theorem mem_or_infix_meant (hplain : ∀ n, IsPlain (spell n).toList) (hspell : Function.Injective spell)
    (pieces : List (Piece ν)) (h : field (spell n).toList <:+: pieces.flatMap (Piece.written spell)) :
    .field n ∈ pieces ∨ field (spell n).toList <:+: pieces.flatMap (Piece.meant value) := by
  induction pieces with
  | nil => exact .inr h
  | cons piece pieces ih =>
    by_cases hmem : .field n ∈ pieces
    · exact .inl (.tail _ hmem)
    have hrest := fun hinfix => (ih hinfix).resolve_left hmem
    cases piece with
    | literal text => exact .inr (infix_literal (hplain n) (closes_written pieces) hrest text.toList h)
    | field m =>
      have hclose : ∀ k, '}' ∉ (spell k).toList := fun k hk => (hplain k).not_brace _ hk (.inr rfl)
      have hopen : '{' ∉ (spell m).toList := fun hm => (hplain m).not_brace _ hm (.inl rfl)
      rw [List.flatMap_cons, Piece.written, field_append] at h
      rcases List.infix_cons_iff.1 h with hfirst | hinfix
      · have hnames := eq_of_prefix_close (hclose n) (hclose m) (List.cons_prefix_cons.1 hfirst).2
        rw [hspell (String.toList_inj.1 hnames)]
        exact .inl (.head _)
      · rcases List.infix_cons_iff.1 (infix_of_infix_append hopen hinfix) with hfirst | hinfix
        · exact absurd (List.cons_prefix_cons.1 hfirst).1 (by decide)
        · exact .inr ((hrest hinfix).trans (List.suffix_append _ _).isInfix)

end Adjudication.Template
