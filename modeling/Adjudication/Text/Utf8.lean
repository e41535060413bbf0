/-!
UTF-8 as lists of bytes: the encoder, the strict decoder, and the decoder that puts U+FFFD in the place of
each maximal invalid part. Both decoders are built on `scan`, which reads one character or says how many
bytes the invalid part has and what is wrong with it. The main statements: scanning an encoded character
gives it back, so both decoders invert the encoder, and the second one does whatever bytes follow.
-/

namespace Adjudication.Text.Utf8

abbrev Bytes := List UInt8

/-- The bytes of one code point below 0x110000. -/
def encodeNat (n : Nat) : List Nat :=
  if n < 0x80 then [n]
  else if n < 0x800 then [0xC0 + n / 0x40, 0x80 + n % 0x40]
  else if n < 0x10000 then [0xE0 + n / 0x1000, 0x80 + n / 0x40 % 0x40, 0x80 + n % 0x40]
  else [0xF0 + n / 0x40000, 0x80 + n / 0x1000 % 0x40, 0x80 + n / 0x40 % 0x40, 0x80 + n % 0x40]

def encodeChar (c : Char) : Bytes := (encodeNat c.toNat).map UInt8.ofNat

def encodeList (s : List Char) : Bytes := s.flatMap encodeChar

def encode (s : String) : Bytes := encodeList s.toList

/-- What can be wrong at a byte. -/
inductive Defect
  | badStart
  | badContinuation
  | unexpectedEnd
  deriving DecidableEq, Repr

def Defect.message : Defect → String
  | .badStart => "invalid start byte"
  | .badContinuation => "invalid continuation byte"
  | .unexpectedEnd => "unexpected end of data"

/-- One step of reading: a character and the bytes after it, or an invalid part of `width` bytes. -/
inductive Step
  | char (c : Char) (rest : Bytes)
  | bad (defect : Defect) (width : Nat)
  deriving DecidableEq, Repr

/-- A continuation byte carries six bits. -/
def isContinuation (b : UInt8) : Bool := 0x80 ≤ b.toNat && b.toNat ≤ 0xBF

def bits (b : UInt8) : Nat := b.toNat % 0x40

/-- The range that the second byte must lie in after the start byte `b`: overlong forms, surrogates and
    what is above U+10FFFF are ruled out there. -/
def secondOk (b c : UInt8) : Bool :=
  let n := c.toNat
  if b.toNat == 0xE0 then 0xA0 ≤ n && n ≤ 0xBF
  else if b.toNat == 0xED then 0x80 ≤ n && n ≤ 0x9F
  else if b.toNat == 0xF0 then 0x90 ≤ n && n ≤ 0xBF
  else if b.toNat == 0xF4 then 0x80 ≤ n && n ≤ 0x8F
  else isContinuation c

/-- Reads the first character of bytes that start with `b`. -/
def scan (b : UInt8) (rest : Bytes) : Step :=
  let n := b.toNat
  if n < 0x80 then .char (Char.ofNat n) rest
  else if n < 0xC2 then .bad .badStart 1
  else if n < 0xE0 then
    match rest with
    | [] => .bad .unexpectedEnd 1
    | c :: r =>
      if isContinuation c then .char (Char.ofNat ((n - 0xC0) * 0x40 + bits c)) r
      else .bad .badContinuation 1
  else if n < 0xF0 then
    match rest with
    | [] => .bad .unexpectedEnd 1
    | c :: r =>
      if secondOk b c then
        match r with
        | [] => .bad .unexpectedEnd 2
        | d :: r =>
          if isContinuation d then
            .char (Char.ofNat ((n - 0xE0) * 0x1000 + bits c * 0x40 + bits d)) r
          else .bad .badContinuation 2
      else .bad .badContinuation 1
  else if n < 0xF5 then
    match rest with
    | [] => .bad .unexpectedEnd 1
    | c :: r =>
      if secondOk b c then
        match r with
        | [] => .bad .unexpectedEnd 2
        | d :: r =>
          if isContinuation d then
            match r with
            | [] => .bad .unexpectedEnd 3
            | e :: r =>
              if isContinuation e then
                .char (Char.ofNat
                  ((n - 0xF0) * 0x40000 + bits c * 0x1000 + bits d * 0x40 + bits e)) r
              else .bad .badContinuation 3
          else .bad .badContinuation 2
      else .bad .badContinuation 1
  else .bad .badStart 1

/-- The bytes left after a character, or after the invalid part. -/
def Step.rest (tail : Bytes) : Step → Bytes
  | .char _ r => r
  | .bad _ w => tail.drop (w - 1)

theorem Step.rest_scan_length (b : UInt8) (tail : Bytes) :
    ((scan b tail).rest tail).length ≤ tail.length := by
  fun_cases scan b tail <;> simp only [Step.rest, List.length_drop, List.length_cons] <;> omega

/-- Where and why strict decoding stopped: the byte found, how many bytes the part has, and its place. -/
structure DecodeError where
  byte : UInt8
  width : Nat
  position : Nat
  defect : Defect
  deriving DecidableEq, Repr

def DecodeError.message (e : DecodeError) : String :=
  let place :=
    if e.width = 1 then
      "byte 0x" ++ String.ofList (Nat.toDigits 16 e.byte.toNat) ++ " in position " ++ toString e.position
    else
      "bytes in position " ++ toString e.position ++ "-" ++ toString (e.position + e.width - 1)
  "'utf-8' codec can't decode " ++ place ++ ": " ++ e.defect.message

/-- Strict decoding, counting bytes from `position`. -/
def decodeFrom (position : Nat) : Bytes → Except DecodeError (List Char)
  | [] => .ok []
  | b :: tail =>
    match _h : scan b tail with
    | .char c rest =>
      (decodeFrom (position + c.utf8Size) rest).map (c :: ·)
    | .bad defect width => .error ⟨b, width, position, defect⟩
  termination_by bytes => bytes.length
  decreasing_by
    have := Step.rest_scan_length b tail
    rw [_h] at this
    simp only [Step.rest] at this
    simp only [List.length_cons]
    omega

/-- Decoding with U+FFFD for each maximal invalid part. -/
def decodeReplacing : Bytes → List Char
  | [] => []
  | b :: tail =>
    match scan b tail with
    | .char c _ => c :: decodeReplacing ((scan b tail).rest tail)
    | .bad _ _ => '\uFFFD' :: decodeReplacing ((scan b tail).rest tail)
  termination_by bytes => bytes.length
  decreasing_by
    all_goals
      have := Step.rest_scan_length b tail
      simp only [List.length_cons]
      omega

def decode? (bytes : Bytes) : Except DecodeError String := (decodeFrom 0 bytes).map String.ofList

def decodeLossy (bytes : Bytes) : String := String.ofList (decodeReplacing bytes)

/-- The line ends CR LF and CR as LF, which is how a text file is read. -/
def unifyLineEnds : List Char → List Char
  | [] => []
  | '\r' :: '\n' :: rest => '\n' :: unifyLineEnds rest
  | '\r' :: rest => '\n' :: unifyLineEnds rest
  | c :: rest => c :: unifyLineEnds rest

/-- A text without CR is as it stands. -/
theorem unifyLineEnds_eq_self {s : List Char} (h : '\r' ∉ s) : unifyLineEnds s = s := by
  fun_induction unifyLineEnds s with
  | case1 => rfl
  | case2 => simp at h
  | case3 => simp at h
  | case4 c rest _ _ ih => rw [ih fun hm => h (List.mem_cons_of_mem _ hm)]

/-! ### What is written is read back -/

theorem toNat_ofNat {n : Nat} (h : n < 256) : (UInt8.ofNat n).toNat = n := UInt8.toNat_ofNat_of_lt' h

theorem isContinuation_six {n : Nat} (h : n < 0x40) : isContinuation (UInt8.ofNat (0x80 + n)) = true := by
  simp only [isContinuation, toNat_ofNat (show 0x80 + n < 256 by omega), Bool.and_eq_true, decide_eq_true_eq]
  omega

theorem bits_six {n : Nat} (h : n < 0x40) : bits (UInt8.ofNat (0x80 + n)) = n := by
  simp only [bits, toNat_ofNat (show 0x80 + n < 256 by omega)]
  omega

theorem scan_one {n : Nat} (high : n < 0x80) (rest : Bytes) :
    scan (UInt8.ofNat n) rest = .char (Char.ofNat n) rest := by
  simp only [scan, toNat_ofNat (show n < 256 by omega), high, if_true]

theorem scan_two {n : Nat} (low : 0x80 ≤ n) (high : n < 0x800) (rest : Bytes) :
    scan (UInt8.ofNat (0xC0 + n / 0x40)) (UInt8.ofNat (0x80 + n % 0x40) :: rest) =
      .char (Char.ofNat n) rest := by
  have hb : (UInt8.ofNat (0xC0 + n / 0x40)).toNat = 0xC0 + n / 0x40 := toNat_ofNat (by omega)
  have h1 : ¬ 0xC0 + n / 0x40 < 0x80 := by omega
  have h2 : ¬ 0xC0 + n / 0x40 < 0xC2 := by omega
  have h3 : 0xC0 + n / 0x40 < 0xE0 := by omega
  have hc := isContinuation_six (Nat.mod_lt n (show 0 < 0x40 by omega))
  have hn : (0xC0 + n / 0x40 - 0xC0) * 0x40 + n % 0x40 = n := by omega
  simp only [scan, hb, h1, h2, h3, hc, bits_six (Nat.mod_lt n (show 0 < 0x40 by omega)), hn, if_true, if_false]

theorem scan_three {n : Nat} (low : 0x800 ≤ n) (high : n < 0x10000) (whole : n < 0xD800 ∨ 0xDFFF < n)
    (rest : Bytes) :
    scan (UInt8.ofNat (0xE0 + n / 0x1000))
        (UInt8.ofNat (0x80 + n / 0x40 % 0x40) :: UInt8.ofNat (0x80 + n % 0x40) :: rest) =
      .char (Char.ofNat n) rest := by
  have hb : (UInt8.ofNat (0xE0 + n / 0x1000)).toNat = 0xE0 + n / 0x1000 := toNat_ofNat (by omega)
  have hc : (UInt8.ofNat (0x80 + n / 0x40 % 0x40)).toNat = 0x80 + n / 0x40 % 0x40 := toNat_ofNat (by omega)
  have h1 : ¬ 0xE0 + n / 0x1000 < 0x80 := by omega
  have h2 : ¬ 0xE0 + n / 0x1000 < 0xC2 := by omega
  have h3 : ¬ 0xE0 + n / 0x1000 < 0xE0 := by omega
  have h4 : 0xE0 + n / 0x1000 < 0xF0 := by omega
  have second : secondOk (UInt8.ofNat (0xE0 + n / 0x1000)) (UInt8.ofNat (0x80 + n / 0x40 % 0x40)) = true := by
    simp only [secondOk, isContinuation, hb, hc, beq_iff_eq]
    split
    · simp only [Bool.and_eq_true, decide_eq_true_eq]; omega
    · split
      · simp only [Bool.and_eq_true, decide_eq_true_eq]; omega
      · split
        · omega
        · split
          · omega
          · simp only [Bool.and_eq_true, decide_eq_true_eq]; omega
  have hd := isContinuation_six (Nat.mod_lt n (show 0 < 0x40 by omega))
  have hn : (0xE0 + n / 0x1000 - 0xE0) * 0x1000 + n / 0x40 % 0x40 * 0x40 + n % 0x40 = n := by omega
  simp only [scan, hb, h1, h2, h3, h4, second, hd, bits_six (Nat.mod_lt n (show 0 < 0x40 by omega)),
    bits_six (Nat.mod_lt (n / 0x40) (show 0 < 0x40 by omega)), hn, if_true, if_false]

theorem scan_four {n : Nat} (low : 0x10000 ≤ n) (high : n < 0x110000) (rest : Bytes) :
    scan (UInt8.ofNat (0xF0 + n / 0x40000))
        (UInt8.ofNat (0x80 + n / 0x1000 % 0x40) :: UInt8.ofNat (0x80 + n / 0x40 % 0x40) ::
          UInt8.ofNat (0x80 + n % 0x40) :: rest) =
      .char (Char.ofNat n) rest := by
  have hb : (UInt8.ofNat (0xF0 + n / 0x40000)).toNat = 0xF0 + n / 0x40000 := toNat_ofNat (by omega)
  have hc : (UInt8.ofNat (0x80 + n / 0x1000 % 0x40)).toNat = 0x80 + n / 0x1000 % 0x40 := toNat_ofNat (by omega)
  have h1 : ¬ 0xF0 + n / 0x40000 < 0x80 := by omega
  have h2 : ¬ 0xF0 + n / 0x40000 < 0xC2 := by omega
  have h3 : ¬ 0xF0 + n / 0x40000 < 0xE0 := by omega
  have h4 : ¬ 0xF0 + n / 0x40000 < 0xF0 := by omega
  have h5 : 0xF0 + n / 0x40000 < 0xF5 := by omega
  have second : secondOk (UInt8.ofNat (0xF0 + n / 0x40000)) (UInt8.ofNat (0x80 + n / 0x1000 % 0x40)) = true := by
    simp only [secondOk, isContinuation, hb, hc, beq_iff_eq]
    split
    · omega
    · split
      · omega
      · split
        · simp only [Bool.and_eq_true, decide_eq_true_eq]; omega
        · split
          · simp only [Bool.and_eq_true, decide_eq_true_eq]; omega
          · simp only [Bool.and_eq_true, decide_eq_true_eq]; omega
  have hd := isContinuation_six (Nat.mod_lt (n / 0x40) (show 0 < 0x40 by omega))
  have he := isContinuation_six (Nat.mod_lt n (show 0 < 0x40 by omega))
  have hn : (0xF0 + n / 0x40000 - 0xF0) * 0x40000 + n / 0x1000 % 0x40 * 0x1000 + n / 0x40 % 0x40 * 0x40 +
      n % 0x40 = n := by omega
  simp only [scan, hb, h1, h2, h3, h4, h5, second, hd, he, bits_six (Nat.mod_lt n (show 0 < 0x40 by omega)),
    bits_six (Nat.mod_lt (n / 0x40) (show 0 < 0x40 by omega)),
    bits_six (Nat.mod_lt (n / 0x1000) (show 0 < 0x40 by omega)), hn, if_true, if_false]

/-- An encoded character is read back, whatever follows it. -/
theorem scan_encodeChar (c : Char) (rest : Bytes) :
    ∃ b tail, encodeChar c = b :: tail ∧ scan b (tail ++ rest) = .char c rest := by
  have whole : c.toNat < 0xD800 ∨ (0xDFFF < c.toNat ∧ c.toNat < 0x110000) := c.valid
  have hc : Char.ofNat c.toNat = c := Char.ofNat_toNat c
  by_cases h1 : c.toNat < 0x80
  · have e : encodeChar c = [UInt8.ofNat c.toNat] := by simp only [encodeChar, encodeNat, h1, if_true, List.map]
    have h := scan_one h1 rest
    rw [hc] at h
    exact ⟨_, _, e, h⟩
  by_cases h2 : c.toNat < 0x800
  · have e : encodeChar c = [UInt8.ofNat (0xC0 + c.toNat / 0x40), UInt8.ofNat (0x80 + c.toNat % 0x40)] := by
      simp only [encodeChar, encodeNat, h1, h2, if_true, if_false, List.map]
    have h := scan_two (Nat.le_of_not_lt h1) h2 rest
    rw [hc] at h
    exact ⟨_, _, e, h⟩
  by_cases h3 : c.toNat < 0x10000
  · have e : encodeChar c = [UInt8.ofNat (0xE0 + c.toNat / 0x1000), UInt8.ofNat (0x80 + c.toNat / 0x40 % 0x40),
        UInt8.ofNat (0x80 + c.toNat % 0x40)] := by
      simp only [encodeChar, encodeNat, h1, h2, h3, if_true, if_false, List.map]
    have h := scan_three (Nat.le_of_not_lt h2) h3 (whole.imp id And.left) rest
    rw [hc] at h
    exact ⟨_, _, e, h⟩
  · have e : encodeChar c = [UInt8.ofNat (0xF0 + c.toNat / 0x40000), UInt8.ofNat (0x80 + c.toNat / 0x1000 % 0x40),
        UInt8.ofNat (0x80 + c.toNat / 0x40 % 0x40), UInt8.ofNat (0x80 + c.toNat % 0x40)] := by
      simp only [encodeChar, encodeNat, h1, h2, h3, if_false, List.map]
    have h := scan_four (Nat.le_of_not_lt h3) (by omega) rest
    rw [hc] at h
    exact ⟨_, _, e, h⟩

/-- Replacing decoding gives encoded characters back, whatever bytes follow. -/
theorem decodeReplacing_encodeList_append (s : List Char) (rest : Bytes) :
    decodeReplacing (encodeList s ++ rest) = s ++ decodeReplacing rest := by
  induction s with
  | nil => rfl
  | cons c s ih =>
    obtain ⟨b, tail, henc, hscan⟩ := scan_encodeChar c (encodeList s ++ rest)
    have : encodeList (c :: s) ++ rest = b :: (tail ++ (encodeList s ++ rest)) := by
      simp [encodeList, henc]
    rw [this, decodeReplacing, hscan]
    simp [Step.rest, ih]

/-- Strict decoding gives encoded characters back. -/
theorem decodeFrom_encodeList (position : Nat) (s : List Char) :
    decodeFrom position (encodeList s) = .ok s := by
  induction s generalizing position with
  | nil => rw [encodeList, List.flatMap_nil, decodeFrom]
  | cons c s ih =>
    obtain ⟨b, tail, henc, hscan⟩ := scan_encodeChar c (encodeList s)
    have : encodeList (c :: s) = b :: (tail ++ encodeList s) := by simp [encodeList, henc]
    rw [this, decodeFrom]
    split
    · rename_i c' rest h
      rw [hscan] at h
      cases h
      simp [ih, Except.map]
    · rename_i d w h
      rw [hscan] at h
      cases h

theorem decode?_encode (s : String) : decode? (encode s) = .ok s := by
  rw [decode?, encode, decodeFrom_encodeList]
  exact congrArg Except.ok String.ofList_toList

end Adjudication.Text.Utf8
