import Adjudication.Proofs.Json.Doubles

/-!
Texts on one line. Line ends are escaped in strings and stand nowhere else, so that a text on one line has no line end within
it, whatever it is the text of.
-/

namespace Adjudication.Json

open Decimal (IsNumeral)
open Text (codesOfChars)
open Sign

theorem not_lineEnd_of_isNumeral {cs : List Char} (h : ∀ c ∈ cs, IsNumeral c) : '\n' ∉ cs := fun hmem => by
  rcases h _ hmem with hdigit | heq | heq | heq | heq
  · cases hdigit
  all_goals cases heq

theorem lineEnd_not_mem_hexDigits (width n : Nat) : '\n' ∉ Text.hexDigits width n := by
  intro hmem
  obtain ⟨i, -, hdigit⟩ := List.mem_map.1 hmem
  have hall : ∀ n < 16, Text.hexDigit n ≠ '\n' := by decide
  have hmod : Text.hexDigit (n / Nat.pow 16 i) = Text.hexDigit (n / Nat.pow 16 i % 16) := by
    rw [Text.hexDigit, Text.hexDigit, Nat.mod_mod]
  exact hall _ (Nat.mod_lt _ (by decide)) (hmod ▸ hdigit)

theorem lineEnd_not_mem_unitEscape (n : Nat) : '\n' ∉ unitEscape n := by
  intro hmem
  rcases List.mem_cons.1 hmem with heq | hmem
  · cases heq
  · rcases List.mem_cons.1 hmem with heq | hmem
    · cases heq
    · exact lineEnd_not_mem_hexDigits 4 n hmem

theorem lineEnd_not_mem_charEscape (c : Char) : '\n' ∉ charEscape c := by
  rw [charEscape]
  split
  · exact lineEnd_not_mem_unitEscape _
  · exact fun hmem => (List.mem_append.1 hmem).elim (lineEnd_not_mem_unitEscape _) (lineEnd_not_mem_unitEscape _)

theorem lineEnd_not_mem_encodeChar (ascii : Bool) (c : Char) : '\n' ∉ encodeChar ascii c := by
  rw [encodeChar]
  split
  · decide
  split
  · decide
  split
  · decide
  next hc =>
    split
    · decide
    split
    · decide
    split
    · decide
    split
    · decide
    split
    · exact lineEnd_not_mem_charEscape c
    split
    · exact lineEnd_not_mem_charEscape c
    · exact fun hmem => hc (List.mem_singleton.1 hmem).symm

theorem lineEnd_not_mem_encodeString (ascii : Bool) (s : String) : '\n' ∉ encodeString ascii s := by
  intro hmem
  rcases List.mem_append.1 hmem with hmem | hmem
  · rcases List.mem_cons.1 hmem with heq | hmem
    · cases heq
    · obtain ⟨c, -, hc⟩ := List.mem_flatMap.1 hmem
      exact lineEnd_not_mem_encodeChar ascii c hc
  · cases List.mem_singleton.1 hmem

/-- Characters without a line end have no code point of one. -/
theorem lineEnd_not_mem_codesOfChars {cs : List Char} (h : '\n' ∉ cs) : lineEnd ∉ codesOfChars cs := fun hmem => by
  obtain ⟨c, hc, hcode⟩ := List.mem_map.1 hmem
  obtain rfl : c = '\n' := Char.toNat_inj.1 hcode
  exact h hc

theorem lineEnd_not_mem_encodeWide (ascii : Bool) (t : Text.Wide) : lineEnd ∉ encodeWide ascii t := by
  cases t with
  | text s => exact lineEnd_not_mem_codesOfChars (lineEnd_not_mem_encodeString ascii s)
  | torn t =>
    intro hmem
    rcases List.mem_append.1 hmem with hmem | hmem
    · rcases List.mem_cons.1 hmem with heq | hmem
      · cases heq
      · obtain ⟨code, -, hcode⟩ := List.mem_flatMap.1 hmem
        rw [encodeCode] at hcode
        split at hcode
        next hsurrogate =>
          split at hcode
          · exact lineEnd_not_mem_codesOfChars (lineEnd_not_mem_unitEscape code) hcode
          · obtain rfl := List.mem_singleton.1 hcode
            cases hsurrogate
        · exact lineEnd_not_mem_codesOfChars (lineEnd_not_mem_encodeChar ascii _) hcode
    · cases List.mem_singleton.1 hmem

theorem lineEnd_not_mem_encodeDouble (x : Float) : '\n' ∉ encodeDouble x := by
  rw [encodeDouble]
  split
  · decide
  next negative _ => cases negative <;> decide
  next b hb =>
    have hfinite : Decimal.isFinite x = true := by rw [Decimal.isFinite, hb]
    exact not_lineEnd_of_isNumeral fun c => Decimal.isNumeral_of_mem_textOf hfinite

@[simp] theorem lineBreak_line (level : Nat) : lineBreak .line level = [] := rfl

@[simp] theorem separator_line (level : Nat) : separator .line level = [comma, space] := rfl

mutual

/-- A text on one line has no line end, whatever it is the text of. -/
theorem lineEnd_not_mem_write : ∀ (level : Nat) (v : Json), lineEnd ∉ write .line level v
  | _, .null => (by decide : lineEnd ∉ Text.codesOf "null")
  | _, .bool false => (by decide : lineEnd ∉ Text.codesOf "false")
  | _, .bool true => (by decide : lineEnd ∉ Text.codesOf "true")
  | _, .int _ => lineEnd_not_mem_codesOfChars (not_lineEnd_of_isNumeral fun _ => isNumeral_of_mem_encodeInt)
  | _, .double x => lineEnd_not_mem_codesOfChars (lineEnd_not_mem_encodeDouble x)
  | _, .str s => lineEnd_not_mem_encodeWide _ s
  | _, .torn t => lineEnd_not_mem_encodeWide _ (.torn t)
  | _, .arr [] => (by decide : lineEnd ∉ [openBracket, closeBracket])
  | level, .arr (v :: items) => by
    have hv := lineEnd_not_mem_write (level + 1) v
    have hitems := lineEnd_not_mem_writeItems (level + 1) items
    simp [write, hv, hitems]
  | _, .obj [] => (by decide : lineEnd ∉ [openBrace, closeBrace])
  | level, .obj ((name, v) :: ms) => by
    have hname := lineEnd_not_mem_encodeWide Style.line.ascii name
    have hv := lineEnd_not_mem_write (level + 1) v
    have hms := lineEnd_not_mem_writeMembers (level + 1) ms
    simp [write, hname, hv, hms]

theorem lineEnd_not_mem_writeItems : ∀ (level : Nat) (items : List Json), lineEnd ∉ writeItems .line level items
  | _, [] => List.not_mem_nil
  | level, v :: items => by
    have hv := lineEnd_not_mem_write level v
    have hitems := lineEnd_not_mem_writeItems level items
    simp [writeItems, hv, hitems]

theorem lineEnd_not_mem_writeMembers : ∀ (level : Nat) (ms : Members), lineEnd ∉ writeMembers .line level ms
  | _, [] => List.not_mem_nil
  | level, (name, v) :: ms => by
    have hname := lineEnd_not_mem_encodeWide Style.line.ascii name
    have hv := lineEnd_not_mem_write level v
    have hms := lineEnd_not_mem_writeMembers level ms
    simp [writeMembers, hname, hv, hms]

end

end Adjudication.Json
