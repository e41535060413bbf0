import Adjudication.Text.Blank
import Adjudication.Text.Quoted
import Adjudication.Text.Utf8

/-!
Texts as escapes can spell them. The escapes of a text may name halves of surrogate pairs that stand alone; such a
text is torn: it is no sequence of characters, has no bytes in UTF-8, and is kept as its code points. The main
statements: code points without surrogates are those of the text that they make, texts are joined code point by code
point, and a text that is not torn always has its bytes.
-/

namespace Adjudication.Text

def isSurrogate (code : Nat) : Bool := 0xD800 ≤ code && code < 0xE000

/-- The character of a code point, U+FFFD for a surrogate. -/
def charOfCode (code : Nat) : Char := if isSurrogate code then '\uFFFD' else Char.ofNat code

/-- The code points of characters. -/
def codesOfChars (cs : List Char) : List Nat := cs.map Char.toNat

def codesOf (s : String) : List Nat := codesOfChars s.toList

/-- The text of code points, U+FFFD for each surrogate. -/
def textOfCodes (codes : List Nat) : String := String.ofList (codes.map charOfCode)

theorem isSurrogate_toNat (c : Char) : isSurrogate c.toNat = false := by
  have h : c.toNat < 0xD800 ∨ (0xDFFF < c.toNat ∧ c.toNat < 0x110000) := c.valid
  simp only [isSurrogate, Bool.and_eq_false_iff, decide_eq_false_iff_not]
  omega

theorem charOfCode_toNat (c : Char) : charOfCode c.toNat = c := by
  simp [charOfCode, isSurrogate_toNat]

@[simp] theorem codesOfChars_nil : codesOfChars [] = [] := rfl

@[simp] theorem codesOfChars_cons (c : Char) (cs : List Char) : codesOfChars (c :: cs) = c.toNat :: codesOfChars cs := rfl

@[simp] theorem codesOfChars_append (cs ds : List Char) : codesOfChars (cs ++ ds) = codesOfChars cs ++ codesOfChars ds :=
  List.map_append

@[simp] theorem length_codesOfChars (cs : List Char) : (codesOfChars cs).length = cs.length := List.length_map _

theorem codesOf_ofList (cs : List Char) : codesOf (String.ofList cs) = codesOfChars cs := by simp [codesOf]

theorem textOfCodes_codesOfChars (cs : List Char) : textOfCodes (codesOfChars cs) = String.ofList cs := by
  simp [textOfCodes, codesOfChars, charOfCode_toNat, Function.comp_def]

theorem textOfCodes_codesOf (s : String) : textOfCodes (codesOf s) = s := by
  simp [codesOf, textOfCodes_codesOfChars]

theorem isSurrogate_of_mem_codesOfChars {cs : List Char} {code : Nat} (h : code ∈ codesOfChars cs) :
    isSurrogate code = false := by
  obtain ⟨c, -, rfl⟩ := List.mem_map.1 h
  exact isSurrogate_toNat c

/-- Code points that are no sequence of characters. -/
structure Torn where
  codes : List Nat
  isTorn : codes.any isSurrogate = true
  deriving DecidableEq, Repr

/-- The first half of a surrogate pair, alone. -/
def Torn.half : Torn := ⟨[0xD800], rfl⟩

/-- Another first half. -/
def Torn.otherHalf : Torn := ⟨[0xD801], rfl⟩

/-- A text that may be torn. -/
inductive Wide where
  | text (s : String)
  | torn (t : Torn)
  deriving DecidableEq, Inhabited, Repr

namespace Wide

instance : Coe String Wide := ⟨text⟩

def ofCodes (codes : List Nat) : Wide :=
  if h : codes.any isSurrogate then torn ⟨codes, h⟩ else text (textOfCodes codes)

def codes : Wide → List Nat
  | text s => codesOf s
  | torn t => t.codes

/-- The text itself, or the one with U+FFFD for each surrogate. -/
def nearest : Wide → String
  | text s => s
  | torn t => textOfCodes t.codes

/-- The quoted form; surrogates are escaped. -/
def quote : Wide → String
  | text s => Text.quote s
  | torn t => quoteCodes t.codes

/-- Whether a text is a sequence of characters. -/
def isWhole : Wide → Bool
  | text _ => true
  | torn _ => false

@[simp] theorem isWhole_text (s : String) : (text s).isWhole = true := rfl

theorem isWhole_iff {t : Wide} : t.isWhole = true ↔ ∃ s, t = text s := by
  cases t <;> simp [isWhole]

theorem ofCodes_codesOfChars (cs : List Char) : ofCodes (codesOfChars cs) = text (String.ofList cs) := by
  have h : ¬ (codesOfChars cs).any isSurrogate = true := by
    simpa using fun code => isSurrogate_of_mem_codesOfChars
  rw [ofCodes, dif_neg h, textOfCodes_codesOfChars]

theorem ofCodes_codesOf (s : String) : ofCodes (codesOf s) = text s := by
  simp [codesOf, ofCodes_codesOfChars]

/-- A text is given by its code points. -/
theorem ofCodes_codes (t : Wide) : ofCodes t.codes = t := by
  cases t with
  | text s => exact ofCodes_codesOf s
  | torn t => exact dif_pos t.isTorn

theorem codes_injective {s t : Wide} (h : s.codes = t.codes) : s = t := by
  rw [← ofCodes_codes s, h, ofCodes_codes]

@[simp] theorem nearest_text (s : String) : (text s).nearest = s := rfl

@[simp] theorem codes_text (s : String) : (text s).codes = codesOf s := rfl

/-! ### Trimming -/

/-- The text without the blanks at its ends. No surrogate is blank. -/
def trim : Wide → Wide
  | text s => text (Text.trim s)
  | torn t => torn ⟨trimList (isBlank ∘ charOfCode) t.codes, by
      obtain ⟨code, hmem, hcode⟩ := List.any_eq_true.1 t.isTorn
      have hblank : (isBlank ∘ charOfCode) code = false := by
        rw [Function.comp_apply, charOfCode, if_pos hcode]
        decide
      exact List.any_eq_true.2 ⟨code, mem_trimList hmem hblank, hcode⟩⟩

/-! ### Joining -/

/-- One text behind another. Where both are whole, so is what they make; halves that come to stand side by side stay
    apart. -/
def append : Wide → Wide → Wide
  | text s, text t => text (s ++ t)
  | text s, torn t => torn ⟨codesOf s ++ t.codes, by simp [t.isTorn]⟩
  | torn s, t => torn ⟨s.codes ++ t.codes, by simp [s.isTorn]⟩

instance : Append Wide := ⟨append⟩

@[simp] theorem text_append_text (s t : String) : text s ++ text t = text (s ++ t) := rfl

@[simp] theorem isWhole_append (s t : Wide) : (s ++ t).isWhole = (s.isWhole && t.isWhole) := by cases s <;> cases t <;> rfl

@[simp] theorem codes_append (s t : Wide) : (s ++ t).codes = s.codes ++ t.codes := by
  cases s <;> cases t <;> first | rfl | simp [codesOf]

/-- Texts in a row with another one between them. -/
def join (between : Wide) : List Wide → Wide
  | [] => text ""
  | [t] => t
  | t :: rest => t ++ between ++ join between rest

/-! ### Bytes -/

/-- The surrogates that a text has no bytes for: the position and the code of the first, and how many stand there
    side by side. -/
structure EncodeError where
  position : Nat
  code : Nat
  count : Nat
  deriving DecidableEq, Repr

def EncodeError.message (e : EncodeError) : String :=
  "'utf-8' codec can't encode character" ++
    (if e.count = 1 then " '" ++ String.ofList ('\\' :: 'u' :: hexDigits 4 e.code) ++ "' in position " ++
        toString e.position
      else "s in position " ++ toString e.position ++ "-" ++ toString (e.position + e.count - 1)) ++
    ": surrogates not allowed"

/-- The bytes in UTF-8. -/
def encode : Wide → Except EncodeError Utf8.Bytes
  | text s => .ok (Utf8.encode s)
  | torn t =>
    let rest := t.codes.dropWhile (!isSurrogate ·)
    .error ⟨t.codes.length - rest.length, rest.headD 0, (rest.takeWhile isSurrogate).length⟩

theorem encode_text (s : String) : encode (text s) = .ok (Utf8.encode s) := rfl

/-- The bytes of texts that are put out one after the other, up to the first that has none; and what is wrong with that
    one. -/
def encodeEach : List Wide → Except EncodeError Unit × Utf8.Bytes
  | [] => (.ok (), [])
  | t :: rest =>
    match t.encode with
    | .error e => (.error e, [])
    | .ok bytes =>
      let (r, more) := encodeEach rest
      (r, bytes ++ more)

end Wide
end Adjudication.Text
