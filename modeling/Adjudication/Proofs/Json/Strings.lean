import Adjudication.Json.Reader
import Adjudication.Json.Writer

/-!
Strings are read back as they were written, in either style, whatever follows them. A character is written as itself, as
an escape of one letter, or as the escape of one code unit or of two; what is read is a list of such pieces, and the pieces
of a character come together to its code point again.
-/

namespace Adjudication

namespace Json

open Text (codesOfChars hexDigits)
open Sign

/-! ### Code units -/

theorem hexValue?_hexDigit : ∀ d < 16, hexValue? (Char.ofNat (Text.hexDigit d).toNat) = some d := by decide

theorem hexDigit_mod (n : Nat) : Text.hexDigit (n % 16) = Text.hexDigit n := by
  rw [Text.hexDigit, Text.hexDigit, Nat.mod_mod]

theorem hexValue?_of_hexDigit (n : Nat) : hexValue? (Char.ofNat (Text.hexDigit n).toNat) = some (n % 16) := by
  rw [← hexDigit_mod]
  exact hexValue?_hexDigit _ (Nat.mod_lt _ (by decide))

theorem hexDigits_four (n : Nat) : hexDigits 4 n =
    [Text.hexDigit (n / 4096), Text.hexDigit (n / 256), Text.hexDigit (n / 16), Text.hexDigit n] := by
  simp [hexDigits, List.range_succ]

/-- The four digits of a code unit denote it. -/
theorem codeUnit?_hexDigits {n : Nat} (h : n < 0x10000) :
    codeUnit? (Text.hexDigit (n / 4096)).toNat (Text.hexDigit (n / 256)).toNat (Text.hexDigit (n / 16)).toNat
      (Text.hexDigit n).toNat = some n := by
  have hvalue : 16 * (16 * (16 * (16 * 0 + n / 4096 % 16) + n / 256 % 16) + n / 16 % 16) + n % 16 = n := by omega
  simp only [codeUnit?, List.foldlM_cons, List.foldlM_nil, hexValue?_of_hexDigit, Option.map_some, Option.bind_eq_bind,
    Option.bind_some, hvalue]
  rfl

/-! ### Pieces -/

/-- The pieces that a character is written in. -/
def piecesOf (ascii : Bool) (c : Char) : List Piece :=
  let n := c.toNat
  if c = '"' ∨ c = '\\' ∨ c = '\n' ∨ c = '\r' ∨ c = '\t' ∨ c = '\x0c' ∨ c = '\x08' then [.plain n]
  else if n < 0x20 ∨ (ascii ∧ 0x7F ≤ n) then
    if n < 0x10000 then [.escaped n]
    else [.escaped (0xD800 + (n - 0x10000) / 0x400), .escaped (0xDC00 + (n - 0x10000) % 0x400)]
  else [.plain n]

theorem toNat_cases (c : Char) : c.toNat < 0xD800 ∨ (0xDFFF < c.toNat ∧ c.toNat < 0x110000) := c.valid

theorem scanBody_unitEscape (start : List Nat) {n : Nat} (h : n < 0x10000) {rest left : List Nat} {ps : List Piece}
    (hrest : scanBody start rest = .ok (ps, left)) :
    scanBody start (codesOfChars (unitEscape n) ++ rest) = .ok (.escaped n :: ps, left) := by
  rw [unitEscape, hexDigits_four]
  show scanBody start (backslash :: letterU :: (Text.hexDigit (n / 4096)).toNat :: (Text.hexDigit (n / 256)).toNat ::
    (Text.hexDigit (n / 16)).toNat :: (Text.hexDigit n).toNat :: rest) = _
  rw [scanBody]
  simp only [codeUnit?_hexDigits h, hrest]

theorem scanBody_charEscape (start : List Nat) (c : Char) {rest left : List Nat} {ps : List Piece}
    (hrest : scanBody start rest = .ok (ps, left)) :
    scanBody start (codesOfChars (charEscape c) ++ rest) =
      .ok ((if c.toNat < 0x10000 then [.escaped c.toNat]
        else [.escaped (0xD800 + (c.toNat - 0x10000) / 0x400), .escaped (0xDC00 + (c.toNat - 0x10000) % 0x400)]) ++ ps,
        left) := by
  have hvalid := toNat_cases c
  rw [charEscape]
  by_cases h : c.toNat < 0x10000
  · simp only [if_pos h]
    exact scanBody_unitEscape start h hrest
  · simp only [if_neg h, Text.codesOfChars_append, List.append_assoc]
    exact scanBody_unitEscape start (by omega) (scanBody_unitEscape start (by omega) hrest)

/-- A character that is not escaped is read as it stands. -/
theorem scanBody_plain (start : List Nat) {c : Char} (hquote : c ≠ '"') (hslash : c ≠ '\\') (h : ¬c.toNat < 0x20)
    {rest left : List Nat} {ps : List Piece} (hrest : scanBody start rest = .ok (ps, left)) :
    scanBody start (c.toNat :: rest) = .ok (.plain c.toNat :: ps, left) := by
  have hq : c.toNat ≠ quotation := fun he => hquote (Char.toNat_inj.1 he)
  have hs : c.toNat ≠ backslash := fun he => hslash (Char.toNat_inj.1 he)
  rw [scanBody.eq_def]
  split
  next he => cases he
  next he => exact absurd (List.cons.inj he).1 hq
  next he => exact absurd (List.cons.inj he).1 hs
  next code tail _ _ he =>
    obtain ⟨rfl, rfl⟩ := List.cons.inj he
    rw [if_neg h, hrest]

/-- A character is read as its pieces. -/
theorem scanBody_encodeChar (start : List Nat) (ascii : Bool) (c : Char) {rest left : List Nat} {ps : List Piece}
    (hrest : scanBody start rest = .ok (ps, left)) :
    scanBody start (codesOfChars (encodeChar ascii c) ++ rest) = .ok (piecesOf ascii c ++ ps, left) := by
  have hsimple : ∀ e : Char, ∀ x : Char, e ≠ 'u' → simpleEscape? (Char.ofNat e.toNat) = some x →
      scanBody start (backslash :: e.toNat :: rest) = .ok (.plain x.toNat :: ps, left) := by
    intro e x hu hx
    have hne : e.toNat ≠ letterU := fun he => hu (Char.toNat_inj.1 he)
    rw [scanBody]
    · simp only [hx, hrest]
    · exact hne
  by_cases hspecial : c = '"' ∨ c = '\\' ∨ c = '\n' ∨ c = '\r' ∨ c = '\t' ∨ c = '\x0c' ∨ c = '\x08'
  · have hpieces : piecesOf ascii c = [.plain c.toNat] := if_pos hspecial
    rw [hpieces]
    rcases hspecial with rfl | rfl | rfl | rfl | rfl | rfl | rfl
    · exact hsimple '"' _ (by decide) rfl
    · exact hsimple '\\' _ (by decide) rfl
    · exact hsimple 'n' _ (by decide) rfl
    · exact hsimple 'r' _ (by decide) rfl
    · exact hsimple 't' _ (by decide) rfl
    · exact hsimple 'f' _ (by decide) rfl
    · exact hsimple 'b' _ (by decide) rfl
  · obtain ⟨h1, h2, h3, h4, h5, h6, h7⟩ : c ≠ '"' ∧ c ≠ '\\' ∧ c ≠ '\n' ∧ c ≠ '\r' ∧ c ≠ '\t' ∧ c ≠ '\x0c' ∧ c ≠ '\x08' := by
      simpa [not_or] using hspecial
    rw [piecesOf, if_neg hspecial, encodeChar, if_neg h1, if_neg h2, if_neg h3, if_neg h4, if_neg h5, if_neg h6, if_neg h7]
    by_cases hlow : c.toNat < 0x20
    · rw [if_pos hlow, if_pos (.inl hlow)]
      exact scanBody_charEscape start c hrest
    · rw [if_neg hlow]
      by_cases hhigh : ascii ∧ 0x7F ≤ c.toNat
      · rw [if_pos hhigh, if_pos (.inr hhigh)]
        exact scanBody_charEscape start c hrest
      · rw [if_neg hhigh, if_neg (not_or.2 ⟨hlow, hhigh⟩)]
        exact scanBody_plain start h1 h2 hlow hrest

/-- The body of a string is read as the pieces of its characters, up to its closing quote. -/
theorem scanBody_encoded (start : List Nat) (ascii : Bool) (rest : List Nat) : ∀ cs : List Char,
    scanBody start (codesOfChars (cs.flatMap (encodeChar ascii)) ++ quotation :: rest) =
      .ok (cs.flatMap (piecesOf ascii), rest)
  | [] => rfl
  | c :: cs => by
    rw [List.flatMap_cons, Text.codesOfChars_append, List.append_assoc, List.flatMap_cons]
    exact scanBody_encodeChar start ascii c (scanBody_encoded start ascii rest cs)

/-! ### Code points -/

theorem codesOfPieces_unit {n : Nat} (h : n < 0xD800 ∨ 0xDFFF < n) (ps : List Piece) :
    codesOfPieces (.escaped n :: ps) = n :: codesOfPieces ps := by
  rcases ps with _ | ⟨_ | v, ps⟩
  · rfl
  · rfl
  · rw [codesOfPieces, if_neg (by omega)]

theorem codesOfPieces_pair {n : Nat} (h : 0x10000 ≤ n) (hlt : n < 0x110000) (ps : List Piece) :
    codesOfPieces (.escaped (0xD800 + (n - 0x10000) / 0x400) :: .escaped (0xDC00 + (n - 0x10000) % 0x400) :: ps) =
      n :: codesOfPieces ps := by
  have hunits : 0xD800 ≤ 0xD800 + (n - 0x10000) / 0x400 ∧ 0xD800 + (n - 0x10000) / 0x400 < 0xDC00 ∧
      0xDC00 ≤ 0xDC00 + (n - 0x10000) % 0x400 ∧ 0xDC00 + (n - 0x10000) % 0x400 < 0xE000 := by omega
  have hcode : 0x10000 + (0xD800 + (n - 0x10000) / 0x400 - 0xD800) * 0x400 +
      (0xDC00 + (n - 0x10000) % 0x400 - 0xDC00) = n := by omega
  rw [codesOfPieces, if_pos hunits, hcode]

/-- The pieces of a character come together to its code point, whatever pieces follow. -/
theorem codesOfPieces_piecesOf (ascii : Bool) (c : Char) (ps : List Piece) :
    codesOfPieces (piecesOf ascii c ++ ps) = c.toNat :: codesOfPieces ps := by
  have hscalar := toNat_cases c
  rw [piecesOf]
  split
  · rfl
  · split
    · split
      · exact codesOfPieces_unit (hscalar.imp_right And.left) ps
      next h => exact codesOfPieces_pair (Nat.not_lt.1 h) (by omega) ps
    · rfl

theorem codesOfPieces_flatMap (ascii : Bool) : ∀ cs : List Char,
    codesOfPieces (cs.flatMap (piecesOf ascii)) = codesOfChars cs
  | [] => rfl
  | c :: cs => by
    rw [List.flatMap_cons, codesOfPieces_piecesOf, codesOfPieces_flatMap ascii cs]
    rfl

/-- A string is read back as it was written, whatever follows. -/
theorem readString_encodeString (start : List Nat) (ascii : Bool) (s : String) (rest : List Nat) :
    readString start (codesOfChars (encodeString ascii s).tail ++ rest) = .ok (.text s, rest) := by
  have hbody : codesOfChars (encodeString ascii s).tail ++ rest =
      codesOfChars (s.toList.flatMap (encodeChar ascii)) ++ quotation :: rest := by
    simp [encodeString]
  rw [readString, hbody, scanBody_encoded]
  show Except.ok (Text.Wide.ofCodes (codesOfPieces (s.toList.flatMap (piecesOf ascii))), rest) = _
  rw [codesOfPieces_flatMap]
  exact congrArg (fun t => Except.ok (t, rest)) (Text.Wide.ofCodes_codesOf s)

end Json
end Adjudication
