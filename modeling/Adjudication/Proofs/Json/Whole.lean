import Adjudication.Json.Writer

/-!
Values without torn texts. What is written of a value is made of characters, but for the surrogates of torn texts within
the value, and those are kept only where code points outside ASCII are. So what is written is torn exactly where a text
within the value is torn and the style is not ASCII.
-/

namespace Adjudication

namespace Text

theorem isValidChar_toNat (c : Char) : c.toNat.isValidChar := c.valid

theorem toNat_ofNat {code : Nat} (h : code.isValidChar) : (Char.ofNat code).toNat = code := by
  rw [Char.ofNat, dif_pos h]
  rfl

theorem isValidChar_of_mem_codesOfChars {cs : List Char} {code : Nat} (h : code ∈ codesOfChars cs) : code.isValidChar := by
  obtain ⟨c, -, rfl⟩ := List.mem_map.1 h
  exact isValidChar_toNat c

theorem isSurrogate_of_isValidChar {code : Nat} (h : code.isValidChar) : isSurrogate code = false := by
  rw [← toNat_ofNat h]
  exact isSurrogate_toNat _

/-- Code points that are characters, one and all, are those of the characters. -/
theorem codesOfChars_ofNat {codes : List Nat} (h : ∀ code ∈ codes, code.isValidChar) :
    codesOfChars (codes.map Char.ofNat) = codes := by
  rw [codesOfChars, List.map_map]
  exact (List.map_congr_left fun code hcode => toNat_ofNat (h code hcode)).trans (List.map_id codes)

namespace Wide

theorem ofCodes_of_isValidChar {codes : List Nat} (h : ∀ code ∈ codes, code.isValidChar) :
    ofCodes codes = text (String.ofList (codes.map Char.ofNat)) := by
  rw [← ofCodes_codesOfChars, codesOfChars_ofNat h]

/-- A text that is made of code points has these code points, where each is a character or a surrogate. -/
theorem codes_ofCodes {codes : List Nat} (h : ∀ code ∈ codes, code.isValidChar ∨ isSurrogate code = true) :
    (ofCodes codes).codes = codes := by
  by_cases htorn : codes.any isSurrogate = true
  · rw [ofCodes, dif_pos htorn]
    rfl
  · have hvalid : ∀ code ∈ codes, code.isValidChar := fun code hcode =>
      (h code hcode).resolve_right fun hs => htorn (List.any_eq_true.2 ⟨code, hcode, hs⟩)
    rw [ofCodes_of_isValidChar hvalid, codes_text, codesOf_ofList, codesOfChars_ofNat hvalid]

theorem ofCodes_eq_text_iff {codes : List Nat} {s : String} :
    ofCodes codes = text s ↔ codes.any isSurrogate = false ∧ s = textOfCodes codes := by
  by_cases h : codes.any isSurrogate = true
  · rw [ofCodes, dif_pos h, h]
    simp
  · rw [ofCodes, dif_neg h, text.injEq, eq_comm]
    simp [Bool.eq_false_iff.2 h]

/-- Chunks can be put out one after the other just if none is torn, and what is put out is then the text that they make. -/
theorem encodeEach_eq_ok_iff {chunks : List (List Nat)} {bytes : Utf8.Bytes} :
    encodeEach (chunks.map ofCodes) = (.ok (), bytes) ↔
      ∃ s, ofCodes chunks.flatten = text s ∧ bytes = Utf8.encode s := by
  simp only [ofCodes_eq_text_iff, and_assoc, exists_eq_left, exists_and_left]
  induction chunks generalizing bytes with
  | nil => simp [encodeEach, textOfCodes, Utf8.encode, Utf8.encodeList, eq_comm]
  | cons chunk rest ih =>
    rw [List.map_cons, List.flatten_cons, List.any_append]
    by_cases h : chunk.any isSurrogate = true
    · rw [ofCodes, dif_pos h, encodeEach]
      simp [encode, h]
    · have htext : ofCodes chunk = text (textOfCodes chunk) := ofCodes_eq_text_iff.2 ⟨Bool.eq_false_iff.2 h, rfl⟩
      have hbytes : Utf8.encode (textOfCodes (chunk ++ rest.flatten)) =
          Utf8.encode (textOfCodes chunk) ++ Utf8.encode (textOfCodes rest.flatten) := by
        simp [textOfCodes, Utf8.encode, Utf8.encodeList]
      rcases hrest : encodeEach (rest.map ofCodes) with ⟨r, more⟩
      rw [htext, encodeEach, encode_text, hrest, Bool.eq_false_iff.2 h, Bool.false_or, hbytes]
      have hmore := fun bytes => hrest ▸ @ih bytes
      cases r with
      | error e =>
        have htorn : ¬rest.flatten.any isSurrogate = false := fun h => by cases congrArg Prod.fst ((hmore _).2 ⟨h, rfl⟩)
        simp [htorn]
      | ok =>
        obtain ⟨hwhole, rfl⟩ := (hmore more).1 rfl
        simp [hwhole, eq_comm]

end Wide
end Text

namespace Json

open Text (codesOf codesOfChars isSurrogate)
open Sign

mutual

/-- The texts within a value, the names of members among them. -/
def texts : Json → List Text.Wide
  | str s => [.text s]
  | torn t => [.torn t]
  | arr items => itemTexts items
  | obj ms => memberTexts ms
  | _ => []

def itemTexts : List Json → List Text.Wide
  | [] => []
  | v :: rest => texts v ++ itemTexts rest

def memberTexts : Members → List Text.Wide
  | [] => []
  | (name, v) :: rest => name :: (texts v ++ memberTexts rest)

end

/-- Whether no text within a value is torn. -/
def isWhole (v : Json) : Bool := v.texts.all Text.Wide.isWhole

@[simp] theorem isWhole_ofWide (t : Text.Wide) : (ofWide t).isWhole = t.isWhole := by cases t <;> rfl

@[simp] theorem isWhole_null : null.isWhole = true := rfl

@[simp] theorem isWhole_bool (b : Bool) : (bool b).isWhole = true := rfl

@[simp] theorem isWhole_int (i : Int) : (int i).isWhole = true := rfl

@[simp] theorem isWhole_double (x : Float) : (double x).isWhole = true := rfl

@[simp] theorem isWhole_str (s : String) : (str s).isWhole = true := rfl

@[simp] theorem isWhole_ofOption {α : Type} {f : α → Json} {o : Option α} :
    (ofOption f o).isWhole = true ↔ ∀ a ∈ o, (f a).isWhole = true := by cases o <;> simp [ofOption]

@[simp] theorem isWhole_arr (items : List Json) : (arr items).isWhole = items.all isWhole := by
  induction items with
  | nil => rfl
  | cons v rest ih =>
    rw [List.all_cons, ← ih]
    exact List.all_append

@[simp] theorem isWhole_obj (ms : Members) : (obj ms).isWhole = ms.all fun m => m.1.isWhole && m.2.isWhole := by
  induction ms with
  | nil => rfl
  | cons m rest ih =>
    have hcons : (obj (m :: rest)).texts = m.1 :: (m.2.texts ++ (obj rest).texts) := rfl
    rw [List.all_cons, ← ih, isWhole, hcons, List.all_cons, List.all_append, Bool.and_assoc]
    rfl

/-! ### The code points of a text as it is written -/

theorem mem_encodeWide {ascii : Bool} {t : Text.Wide} {code : Nat} (h : code ∈ encodeWide ascii t) :
    code.isValidChar ∨ (isSurrogate code = true ∧ ascii = false ∧ t.isWhole = false) := by
  cases t with
  | text s => exact .inl (Text.isValidChar_of_mem_codesOfChars h)
  | torn t =>
    have hquote : quotation.isValidChar := by decide
    rw [encodeWide, List.mem_append, List.mem_cons, List.mem_singleton, List.mem_flatMap] at h
    obtain (rfl | ⟨other, -, h⟩) | rfl := h
    · exact .inl hquote
    · rw [encodeCode] at h
      split at h
      next hother =>
        split at h
        · exact .inl (Text.isValidChar_of_mem_codesOfChars h)
        next hascii =>
          obtain rfl := List.mem_singleton.1 h
          exact .inr ⟨hother, by simpa using hascii, rfl⟩
      · exact .inl (Text.isValidChar_of_mem_codesOfChars h)
    · exact .inl hquote

/-- A torn text keeps its surrogates where code points are kept. -/
theorem exists_mem_encodeWide {t : Text.Wide} (h : t.isWhole = false) :
    ∃ code ∈ encodeWide false t, isSurrogate code = true := by
  cases t with
  | text s => cases h
  | torn t =>
    obtain ⟨code, hmem, hcode⟩ := List.any_eq_true.1 t.isTorn
    have hkept : code ∈ encodeCode false code := by simp [encodeCode, hcode]
    exact ⟨code, by simpa [encodeWide] using .inr (.inl ⟨code, hmem, hkept⟩), hcode⟩

/-! ### The code points of a value as it is written -/

variable {style : Style}

theorem isValidChar_of_mem_lineBreak {level code : Nat} (h : code ∈ lineBreak style level) : code.isValidChar := by
  rw [lineBreak] at h
  split at h
  · obtain rfl | h := List.mem_cons.1 h
    · decide
    · obtain rfl := (List.mem_replicate.1 h).2
      decide
  · cases h

theorem isValidChar_of_mem_separator {level code : Nat} (h : code ∈ separator style level) : code.isValidChar := by
  rw [separator] at h
  obtain rfl | h := List.mem_cons.1 h
  · decide
  · split at h
    · exact isValidChar_of_mem_lineBreak h
    · obtain rfl := List.mem_singleton.1 h
      decide

/-- Whether a code point of what is written is a character, or one of a text within the value as it is written. -/
def Spelled (style : Style) (texts : List Text.Wide) (code : Nat) : Prop :=
  code.isValidChar ∨ ∃ t ∈ texts, code ∈ encodeWide style.ascii t

theorem Spelled.mono {texts others : List Text.Wide} {code : Nat} (h : Spelled style texts code) (hsub : texts ⊆ others) :
    Spelled style others code :=
  h.imp_right fun ⟨t, ht, hcode⟩ => ⟨t, hsub ht, hcode⟩

mutual

theorem spelled_write : ∀ (level : Nat) (v : Json), ∀ code ∈ write style level v, Spelled style v.texts code
  | _, null, _, h | _, bool _, _, h | _, int _, _, h | _, double _, _, h => .inl (Text.isValidChar_of_mem_codesOfChars h)
  | _, str s, _, h => .inr ⟨.text s, List.mem_singleton_self _, h⟩
  | _, torn t, _, h => .inr ⟨.torn t, List.mem_singleton_self _, h⟩
  | _, arr [], _, h => by
    simp only [write, List.mem_cons, List.not_mem_nil, or_false] at h
    obtain rfl | rfl := h <;> exact .inl (by decide)
  | level, arr (v :: rest), code, h => by
    have hsub : itemTexts rest ⊆ (arr (v :: rest)).texts := List.subset_append_right _ _
    simp only [write, List.cons_append, List.append_assoc, List.mem_cons, List.mem_append, List.not_mem_nil, or_false] at h
    obtain rfl | h | h | h | h | rfl := h
    · exact .inl (by decide)
    · exact .inl (isValidChar_of_mem_lineBreak h)
    · exact (spelled_write _ v code h).mono (List.subset_append_left _ _)
    · exact (spelled_writeItems _ rest code h).mono hsub
    · exact .inl (isValidChar_of_mem_lineBreak h)
    · exact .inl (by decide)
  | _, obj [], _, h => by
    simp only [write, List.mem_cons, List.not_mem_nil, or_false] at h
    obtain rfl | rfl := h <;> exact .inl (by decide)
  | level, obj ((name, v) :: rest), code, h => by
    have hsub : v.texts ⊆ (obj ((name, v) :: rest)).texts ∧ memberTexts rest ⊆ (obj ((name, v) :: rest)).texts :=
      ⟨fun t ht => List.mem_cons_of_mem _ (List.mem_append_left _ ht),
        fun t ht => List.mem_cons_of_mem _ (List.mem_append_right _ ht)⟩
    simp only [write, List.cons_append, List.append_assoc, List.nil_append, List.mem_cons, List.mem_append,
      List.not_mem_nil, or_false] at h
    obtain rfl | h | h | rfl | rfl | h | h | h | rfl := h
    · exact .inl (by decide)
    · exact .inl (isValidChar_of_mem_lineBreak h)
    · exact .inr ⟨name, List.mem_cons_self, h⟩
    · exact .inl (by decide)
    · exact .inl (by decide)
    · exact (spelled_write _ v code h).mono hsub.1
    · exact (spelled_writeMembers _ rest code h).mono hsub.2
    · exact .inl (isValidChar_of_mem_lineBreak h)
    · exact .inl (by decide)

theorem spelled_writeItems :
    ∀ (level : Nat) (items : List Json), ∀ code ∈ writeItems style level items, Spelled style (itemTexts items) code
  | _, [], _, h => by cases h
  | level, v :: rest, code, h => by
    simp only [writeItems, List.mem_append] at h
    obtain (h | h) | h := h
    · exact .inl (isValidChar_of_mem_separator h)
    · exact (spelled_write _ v code h).mono (List.subset_append_left _ _)
    · exact (spelled_writeItems _ rest code h).mono (List.subset_append_right _ _)

theorem spelled_writeMembers :
    ∀ (level : Nat) (ms : Members), ∀ code ∈ writeMembers style level ms, Spelled style (memberTexts ms) code
  | _, [], _, h => by cases h
  | level, (name, v) :: rest, code, h => by
    simp only [writeMembers, List.append_assoc, List.cons_append, List.nil_append, List.mem_cons, List.mem_append] at h
    obtain h | h | rfl | rfl | h | h := h
    · exact .inl (isValidChar_of_mem_separator h)
    · exact .inr ⟨name, List.mem_cons_self, h⟩
    · exact .inl (by decide)
    · exact .inl (by decide)
    · exact (spelled_write _ v code h).mono fun t ht => List.mem_cons_of_mem _ (List.mem_append_left _ ht)
    · exact (spelled_writeMembers _ rest code h).mono fun t ht => List.mem_cons_of_mem _ (List.mem_append_right _ ht)

end

mutual

/-- Every text within a value stands in what is written of it. -/
theorem mem_write_of_mem_texts {t : Text.Wide} {code : Nat} (hcode : code ∈ encodeWide style.ascii t) :
    ∀ (level : Nat) (v : Json), t ∈ v.texts → code ∈ write style level v
  | _, str _, h | _, torn _, h => by
    obtain rfl := List.mem_singleton.1 h
    exact hcode
  | level, arr (v :: rest), h => by
    obtain h | h := List.mem_append.1 h
    · have hv := mem_write_of_mem_texts hcode (level + 1) v h
      simp [write, hv]
    · have hrest := mem_writeItems_of_mem_texts hcode (level + 1) rest h
      simp [write, hrest]
  | level, obj ((name, v) :: rest), h => by
    obtain rfl | h := List.mem_cons.1 h
    · simp [write, hcode]
    obtain h | h := List.mem_append.1 h
    · have hv := mem_write_of_mem_texts hcode (level + 1) v h
      simp [write, hv]
    · have hrest := mem_writeMembers_of_mem_texts hcode (level + 1) rest h
      simp [write, hrest]
  | _, null, h | _, bool _, h | _, int _, h | _, double _, h | _, arr [], h | _, obj [], h => by cases h

theorem mem_writeItems_of_mem_texts {t : Text.Wide} {code : Nat} (hcode : code ∈ encodeWide style.ascii t) :
    ∀ (level : Nat) (items : List Json), t ∈ itemTexts items → code ∈ writeItems style level items
  | _, [], h => by cases h
  | level, v :: rest, h => by
    obtain h | h := List.mem_append.1 h
    · have hv := mem_write_of_mem_texts hcode level v h
      simp [writeItems, hv]
    · have hrest := mem_writeItems_of_mem_texts hcode level rest h
      simp [writeItems, hrest]

theorem mem_writeMembers_of_mem_texts {t : Text.Wide} {code : Nat} (hcode : code ∈ encodeWide style.ascii t) :
    ∀ (level : Nat) (ms : Members), t ∈ memberTexts ms → code ∈ writeMembers style level ms
  | _, [], h => by cases h
  | level, (name, v) :: rest, h => by
    obtain rfl | h := List.mem_cons.1 h
    · simp [writeMembers, hcode]
    obtain h | h := List.mem_append.1 h
    · have hv := mem_write_of_mem_texts hcode level v h
      simp [writeMembers, hv]
    · have hrest := mem_writeMembers_of_mem_texts hcode level rest h
      simp [writeMembers, hrest]

end

/-! ### What is written as a text -/

theorem isValidChar_or_isSurrogate_of_mem_write {level : Nat} {v : Json} {code : Nat} (h : code ∈ write style level v) :
    code.isValidChar ∨ isSurrogate code = true :=
  (spelled_write level v code h).elim .inl fun ⟨_, _, ht⟩ => (mem_encodeWide ht).imp_right And.left

/-- The code points of what is written are those of the text that they make. -/
theorem codes_print (style : Style) (v : Json) : (print style v).codes = write style 0 v :=
  Text.Wide.codes_ofCodes fun _ => isValidChar_or_isSurrogate_of_mem_write

/-- What is written of a value without torn texts is made of characters, and so is what is written in ASCII of any value. -/
theorem isValidChar_of_mem_write {v : Json} (h : v.isWhole = true ∨ style.ascii = true) (level : Nat) {code : Nat}
    (hcode : code ∈ write style level v) : code.isValidChar := by
  obtain hvalid | ⟨t, ht, hcode⟩ := spelled_write level v code hcode
  · exact hvalid
  · obtain hvalid | ⟨-, hascii, htorn⟩ := mem_encodeWide hcode
    · exact hvalid
    · obtain h | h := h
      · rw [List.all_eq_true.1 h t ht] at htorn
        cases htorn
      · rw [h] at hascii
        cases hascii

/-- What is written is torn exactly where a text within the value is torn and code points are kept. -/
theorem any_isSurrogate_write (style : Style) (level : Nat) (v : Json) :
    (write style level v).any isSurrogate = (!style.ascii && !v.isWhole) := by
  by_cases h : v.isWhole = true ∨ style.ascii = true
  · have hnone : (write style level v).any isSurrogate = false := by
      rw [List.any_eq_false]
      exact fun code hcode => by simp [Text.isSurrogate_of_isValidChar (isValidChar_of_mem_write h level hcode)]
    rw [hnone]
    obtain h | h := h <;> simp [h]
  · obtain ⟨hwhole, hascii⟩ := not_or.1 h
    have htorn : ∃ t ∈ v.texts, t.isWhole = false := by simpa [isWhole] using hwhole
    obtain ⟨t, ht, htorn⟩ := htorn
    obtain ⟨code, hmem, hcode⟩ := exists_mem_encodeWide htorn
    have hkept : code ∈ encodeWide style.ascii t := by rwa [Bool.eq_false_iff.2 hascii]
    rw [List.any_eq_true.2 ⟨code, mem_write_of_mem_texts hkept level v ht, hcode⟩]
    simp [hwhole, hascii]

end Json
end Adjudication
