import Adjudication.Text.Utf8
import Mathlib.Data.List.Basic

/-!
What the decoders read is what an encoder wrote. Every form that an encoder never writes, be it overlong, a surrogate or
above U+10FFFF, is ruled out when it is scanned, so a character that is read is encoded by just the bytes that it was read
from. The strict decoder thus takes the encodings of texts and nothing else, and the other one differs from it only from the
first invalid part on.
-/

namespace Adjudication.Text.Utf8

variable {b c d e : UInt8} {bytes tail rest : Bytes}

/-- A byte is told by its number. -/
theorem ofNat_eq {n : Nat} (h : n = b.toNat) : UInt8.ofNat n = b := by
  rw [h, UInt8.ofNat_toNat]

/-- A continuation byte is the mark and six bits. -/
theorem toNat_of_isContinuation (h : isContinuation b = true) : b.toNat = 0x80 + bits b := by
  simp only [isContinuation, Bool.and_eq_true, decide_eq_true_eq] at h
  rw [bits]
  omega

theorem bits_lt (b : UInt8) : bits b < 0x40 := Nat.mod_lt _ (by omega)

/-- What a second byte may be, by its start byte. -/
theorem of_secondOk (h : secondOk b c = true) : isContinuation c = true ∧
    (b.toNat = 0xE0 → 0x20 ≤ bits c) ∧ (b.toNat = 0xED → bits c < 0x20) ∧
    (b.toNat = 0xF0 → 0x10 ≤ bits c) ∧ (b.toNat = 0xF4 → bits c < 0x10) := by
  simp only [secondOk, beq_iff_eq] at h
  simp only [isContinuation, bits, Bool.and_eq_true, decide_eq_true_eq]
  split at h
  next => simp only [Bool.and_eq_true, decide_eq_true_eq] at h; omega
  next =>
    split at h
    next => simp only [Bool.and_eq_true, decide_eq_true_eq] at h; omega
    next =>
      split at h
      next => simp only [Bool.and_eq_true, decide_eq_true_eq] at h; omega
      next =>
        split at h
        next => simp only [Bool.and_eq_true, decide_eq_true_eq] at h; omega
        next => simp only [isContinuation, Bool.and_eq_true, decide_eq_true_eq] at h; omega

theorem encodeChar_ofNat {n : Nat} (h : n.isValidChar) : encodeChar (Char.ofNat n) = (encodeNat n).map UInt8.ofNat := by
  have hnumber : (Char.ofNat n).toNat = n := by
    rw [Char.ofNat, dif_pos h]
    rfl
  rw [encodeChar, hnumber]

/-! ### The forms of a character -/

theorem encodeChar_one (h : b.toNat < 0x80) : encodeChar (Char.ofNat b.toNat) = [b] := by
  rw [encodeChar_ofNat (.inl (by omega)), encodeNat, if_pos h, List.map_singleton, UInt8.ofNat_toNat]

theorem encodeChar_two (low : 0xC2 ≤ b.toNat) (high : b.toNat < 0xE0) (hc : isContinuation c = true) :
    encodeChar (Char.ofNat ((b.toNat - 0xC0) * 0x40 + bits c)) = [b, c] := by
  have hbits := bits_lt c
  generalize hn : (b.toNat - 0xC0) * 0x40 + bits c = n
  have hb : 0xC0 + n / 0x40 = b.toNat := by omega
  have hc' : 0x80 + n % 0x40 = c.toNat := by rw [toNat_of_isContinuation hc]; omega
  rw [encodeChar_ofNat (.inl (by omega)), encodeNat, if_neg (by omega), if_pos (by omega)]
  simp only [List.map_cons, List.map_nil, ofNat_eq hb, ofNat_eq hc']

theorem encodeChar_three (low : 0xE0 ≤ b.toNat) (high : b.toNat < 0xF0) (hc : secondOk b c = true)
    (hd : isContinuation d = true) :
    encodeChar (Char.ofNat ((b.toNat - 0xE0) * 0x1000 + bits c * 0x40 + bits d)) = [b, c, d] := by
  obtain ⟨hcontinues, hlow, hsurrogate, -, -⟩ := of_secondOk hc
  have hbits := bits_lt c
  have hbits' := bits_lt d
  generalize hn : (b.toNat - 0xE0) * 0x1000 + bits c * 0x40 + bits d = n
  have hb : 0xE0 + n / 0x1000 = b.toNat := by omega
  have hc' : 0x80 + n / 0x40 % 0x40 = c.toNat := by rw [toNat_of_isContinuation hcontinues]; omega
  have hd' : 0x80 + n % 0x40 = d.toNat := by rw [toNat_of_isContinuation hd]; omega
  have hvalid : n.isValidChar := by
    rw [Nat.isValidChar]
    omega
  rw [encodeChar_ofNat hvalid, encodeNat, if_neg (by omega), if_neg (by omega), if_pos (by omega)]
  simp only [List.map_cons, List.map_nil, ofNat_eq hb, ofNat_eq hc', ofNat_eq hd']

theorem encodeChar_four (low : 0xF0 ≤ b.toNat) (high : b.toNat < 0xF5) (hc : secondOk b c = true)
    (hd : isContinuation d = true) (he : isContinuation e = true) :
    encodeChar (Char.ofNat ((b.toNat - 0xF0) * 0x40000 + bits c * 0x1000 + bits d * 0x40 + bits e)) = [b, c, d, e] := by
  obtain ⟨hcontinues, -, -, hlow, hhigh⟩ := of_secondOk hc
  have hbits := bits_lt c
  have hbits' := bits_lt d
  have hbits'' := bits_lt e
  generalize hn : (b.toNat - 0xF0) * 0x40000 + bits c * 0x1000 + bits d * 0x40 + bits e = n
  have hb : 0xF0 + n / 0x40000 = b.toNat := by omega
  have hc' : 0x80 + n / 0x1000 % 0x40 = c.toNat := by rw [toNat_of_isContinuation hcontinues]; omega
  have hd' : 0x80 + n / 0x40 % 0x40 = d.toNat := by rw [toNat_of_isContinuation hd]; omega
  have he' : 0x80 + n % 0x40 = e.toNat := by rw [toNat_of_isContinuation he]; omega
  rw [encodeChar_ofNat (.inr (by omega)), encodeNat, if_neg (by omega), if_neg (by omega), if_neg (by omega)]
  simp only [List.map_cons, List.map_nil, ofNat_eq hb, ofNat_eq hc', ofNat_eq hd', ofNat_eq he']

/-- A character that is read is encoded by the bytes that it has been read from. -/
theorem eq_encodeChar_of_scan {x : Char} (h : scan b tail = .char x rest) : b :: tail = encodeChar x ++ rest := by
  revert h
  fun_cases scan b tail with
  | case1 _ n one =>
    rintro ⟨⟩
    rw [encodeChar_one one, List.singleton_append]
  | case4 n low _ high c r hc =>
    rintro ⟨⟩
    rw [encodeChar_two (by omega) high hc]
    rfl
  | case8 n _ _ low high c hc d r hd =>
    rintro ⟨⟩
    rw [encodeChar_three (by omega) high hc hd]
    rfl
  | case14 n _ _ _ low high c hc d hd e r he =>
    rintro ⟨⟩
    rw [encodeChar_four (by omega) high hc hd he]
    rfl
  | _ => exact fun h => by cases h

/-! ### Strict decoding -/

/-- Bytes that are decoded are the encoding of what they are decoded to. -/
theorem eq_encodeList_of_decodeFrom {position : Nat} {s : List Char} (h : decodeFrom position bytes = .ok s) :
    bytes = encodeList s := by
  fun_induction decodeFrom position bytes generalizing s with
  | case1 position =>
    obtain rfl := Except.ok.inj h
    rfl
  | case2 position b tail x rest hscan ih =>
    cases hrest : decodeFrom (position + x.utf8Size) rest with
    | error e => simp [hrest, Except.map] at h
    | ok s' =>
      obtain rfl : x :: s' = s := by simpa [hrest, Except.map] using h
      rw [eq_encodeChar_of_scan hscan, ih hrest, encodeList, encodeList, List.flatMap_cons]
  | case3 => cases h

/-- The strict decoder takes the encodings of texts and nothing else. -/
theorem decode?_eq_ok_iff {text : String} : decode? bytes = .ok text ↔ bytes = encode text := by
  constructor
  · intro h
    rw [decode?] at h
    cases hs : decodeFrom 0 bytes with
    | error e => simp [hs, Except.map] at h
    | ok s =>
      obtain rfl : String.ofList s = text := by simpa [hs, Except.map] using h
      rw [encode, String.toList_ofList]
      exact eq_encodeList_of_decodeFrom hs
  · rintro rfl
    exact decode?_encode text

/-! ### Replacing decoding -/

/-- The text before the first invalid part is the same whatever comes after it. -/
theorem decodeLossy_encode_append (text : String) (bytes : Bytes) :
    decodeLossy (encode text ++ bytes) = text ++ decodeLossy bytes := by
  rw [decodeLossy, encode, decodeReplacing_encodeList_append, String.ofList_append, String.ofList_toList, decodeLossy]

theorem decodeLossy_encode (text : String) : decodeLossy (encode text) = text := by
  have h := decodeLossy_encode_append text []
  rw [List.append_nil] at h
  rw [h, decodeLossy, decodeReplacing]
  exact String.append_empty

/-! ### The encoding of the standard library -/

theorem encodeChar_eq_utf8EncodeChar (x : Char) : encodeChar x = String.utf8EncodeChar x := by
  have hvalid : x.toNat < 0xD800 ∨ (0xDFFF < x.toNat ∧ x.toNat < 0x110000) := x.valid
  have hnumber : x.val.toNat = x.toNat := rfl
  rw [encodeChar, encodeNat, String.utf8EncodeChar, hnumber]
  generalize x.toNat = n at hvalid
  have hlast : 0x80 + n % 0x40 = n % 64 + 128 := by omega
  have hsecond : 0x80 + n / 0x40 % 0x40 = n / 64 % 64 + 128 := by omega
  have hthird : 0x80 + n / 0x1000 % 0x40 = n / 4096 % 64 + 128 := by omega
  -- Each form is written for the same numbers, and has the same bytes.
  by_cases h1 : n < 0x80
  · rw [if_pos h1, if_pos (by omega), List.map_singleton]
  by_cases h2 : n < 0x800
  · have hfirst : 0xC0 + n / 0x40 = n / 64 % 32 + 192 := by omega
    rw [if_neg h1, if_pos h2, if_neg (by omega), if_pos (by omega), hfirst, hlast]
    rfl
  by_cases h3 : n < 0x10000
  · have hfirst : 0xE0 + n / 0x1000 = n / 4096 % 16 + 224 := by omega
    rw [if_neg h1, if_neg h2, if_pos h3, if_neg (by omega), if_neg (by omega), if_pos (by omega), hfirst, hsecond, hlast]
    rfl
  · have hfirst : 0xF0 + n / 0x40000 = n / 262144 % 8 + 240 := by omega
    rw [if_neg h1, if_neg h2, if_neg h3, if_neg (by omega), if_neg (by omega), if_neg (by omega), hfirst, hthird, hsecond,
      hlast]
    rfl

/-- The bytes that the strict decoder takes are those that the standard library holds valid. -/
theorem isValidUTF8_iff : bytes.toByteArray.IsValidUTF8 ↔ ∃ text, decode? bytes = .ok text := by
  have hencode : ∀ s : List Char, s.utf8Encode = (encodeList s).toByteArray := fun s => by
    rw [List.utf8Encode, encodeList, funext encodeChar_eq_utf8EncodeChar]
  constructor
  · rintro ⟨s, hs⟩
    refine ⟨String.ofList s, decode?_eq_ok_iff.2 ?_⟩
    rw [hencode] at hs
    rw [encode, String.toList_ofList]
    exact List.toByteArray_inj.1 hs
  · rintro ⟨text, h⟩
    rw [decode?_eq_ok_iff.1 h]
    exact ⟨text.toList, (hencode _).symm⟩

end Adjudication.Text.Utf8
