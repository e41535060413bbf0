import Adjudication.Text.Utf8

/-!
Bytes written in base 64. Reading is lenient: characters that are no digits are skipped, and after the padding of
a group nothing more is read. A group that is neither full nor padded is refused.
-/

namespace Adjudication.Text.Base64

/-- The value of a digit. -/
def value? (c : Char) : Option Nat :=
  if 'A' ≤ c ∧ c ≤ 'Z' then some (c.toNat - 'A'.toNat)
  else if 'a' ≤ c ∧ c ≤ 'z' then some (c.toNat - 'a'.toNat + 26)
  else if '0' ≤ c ∧ c ≤ '9' then some (c.toNat - '0'.toNat + 52)
  else if c = '+' then some 62
  else if c = '/' then some 63
  else none

/-- Why digits are refused: a single one is left over, after so many bytes, or a group is not padded. -/
inductive Defect where
  | singleDigit (bytes : Nat)
  | notPadded
  deriving DecidableEq, Repr

def Defect.message : Defect → String
  | singleDigit bytes =>
    "Invalid base64-encoded string: number of data characters (" ++ toString (bytes / 3 * 4 + 1) ++
      ") cannot be 1 more than a multiple of 4"
  | notPadded => "Incorrect padding"

/-- Reads on within a group of which `count` digits have come; `left` are the bits that are not yet part of a
    byte, `pads` the marks of padding since the last digit, and `bytes` the bytes so far, the last one first. -/
def decodeFrom (count left pads : Nat) (bytes : Utf8.Bytes) : List Char → Except Defect Utf8.Bytes
  | [] =>
    if count = 0 then .ok bytes.reverse
    else .error (if count = 1 then .singleDigit bytes.length else .notPadded)
  | c :: rest =>
    if c = '=' then
      if count < 2 then decodeFrom count left pads bytes rest
      else if 4 ≤ count + pads + 1 then .ok bytes.reverse
      else decodeFrom count left (pads + 1) bytes rest
    else
      match value? c with
      | none => decodeFrom count left pads bytes rest
      | some v =>
        match count with
        | 0 => decodeFrom 1 v 0 bytes rest
        | 1 => decodeFrom 2 (v % 16) 0 (UInt8.ofNat (4 * left + v / 16) :: bytes) rest
        | 2 => decodeFrom 3 (v % 4) 0 (UInt8.ofNat (16 * left + v / 4) :: bytes) rest
        | _ => decodeFrom 0 0 0 (UInt8.ofNat (64 * left + v) :: bytes) rest

def decode (s : List Char) : Except Defect Utf8.Bytes := decodeFrom 0 0 0 [] s

/-- What is no digit and no padding counts for nothing. -/
theorem decodeFrom_skip {c : Char} (h : value? c = none) (hp : c ≠ '=') (count left pads : Nat)
    (bytes : Utf8.Bytes) (s : List Char) :
    decodeFrom count left pads bytes (c :: s) = decodeFrom count left pads bytes s := by
  simp [decodeFrom, h, hp]

example : decode "TWFu".toList = .ok [77, 97, 110] := rfl
example : decode "TW E".toList = .error .notPadded := rfl
example : decode "TWFuT".toList = .error (.singleDigit 3) := rfl
example : decode "TW==E".toList = .ok [77] := rfl

end Adjudication.Text.Base64
