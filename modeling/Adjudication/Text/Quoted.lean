import Adjudication.Text.Printable

/-!
The quoted form of a text: between single quotes, or between double ones where the text holds a single
quote and no double one; a backslash, the quote in use, and what has no printed form are escaped.
-/

namespace Adjudication.Text

def hexDigit (n : Nat) : Char := "0123456789abcdef".toList.getD (n % 16) '0'

/-- The number `n` in lower-case hexadecimal, the last `width` digits of it. -/
def hexDigits (width n : Nat) : List Char :=
  (List.range width).reverse.map fun i => hexDigit (n / Nat.pow 16 i)

/-- The escape of a code point by its size: two, four or eight digits. -/
def codeEscape (c : Char) : List Char :=
  let n := c.toNat
  if n < 0x100 then '\\' :: 'x' :: hexDigits 2 n
  else if n < 0x10000 then '\\' :: 'u' :: hexDigits 4 n
  else '\\' :: 'U' :: hexDigits 8 n

/-- How one character stands between quotes, where `plain` says which characters stand for themselves. -/
def quoteChar (plain : Char → Bool) (mark c : Char) : List Char :=
  if c = mark ∨ c = '\\' then ['\\', c]
  else if c = '\t' then ['\\', 't']
  else if c = '\n' then ['\\', 'n']
  else if c = '\r' then ['\\', 'r']
  else if plain c then [c]
  else codeEscape c

/-- The quote that a text is set in. -/
def quoteMark (s : List Char) : Char :=
  if '\'' ∈ s ∧ '"' ∉ s then '"' else '\''

def quoteWith (plain : Char → Bool) (s : String) : String :=
  let cs := s.toList
  let mark := quoteMark cs
  String.ofList (mark :: cs.flatMap (quoteChar plain mark) ++ [mark])

/-- The quoted form of a text, printable characters kept. -/
def quote (s : String) : String := quoteWith isPrintable s

/-- The quoted form of a text given by its code points; those that are no characters are escaped. -/
def quoteCodes (codes : List Nat) : String :=
  let mark := quoteMark (codes.map Char.ofNat)
  String.ofList (mark :: codes.flatMap (fun n =>
    if n.isValidChar then quoteChar isPrintable mark (Char.ofNat n)
    else '\\' :: 'u' :: hexDigits 4 n) ++ [mark])

/-- The quoted form of a text in ASCII. -/
def quoteAscii (s : String) : String := quoteWith (fun c => isPrintable c && c.toNat < 0x80) s

end Adjudication.Text
