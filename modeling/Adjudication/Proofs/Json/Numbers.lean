import Adjudication.Proofs.Decimal.Numerals
import Adjudication.Proofs.Json.Strings
import Mathlib.Data.List.TakeWhile

/-!
Numbers are read up to their end, whatever ends them, and an integer is read back from the digits that it was written in.
-/

namespace Adjudication.Json

open Text (codesOfChars)
open Decimal (IsNumeral)
open Sign

/-! ### Where a value ends -/

/-- What may stand behind a value in a text: nothing, a comma, the end of an array or object, or a line end. -/
def Ends (rest : List Nat) : Prop :=
  ∀ code ∈ rest.head?, code = comma ∨ code = closeBracket ∨ code = closeBrace ∨ code = 0x0A

theorem ends_nil : Ends [] := fun _ h => by cases h

theorem ends_cons {code : Nat} (h : code = comma ∨ code = closeBracket ∨ code = closeBrace ∨ code = 0x0A) (rest : List Nat) :
    Ends (code :: rest) := fun other ho => by
  obtain rfl := Option.some.inj ho
  exact h

variable {s rest left : List Nat} {v : Json}

theorem Ends.not_digit (h : Ends rest) : ∀ code ∈ rest.head?, isDigit code = false := fun code hcode => by
  rcases h code hcode with rfl | rfl | rfl | rfl <;> rfl

theorem takeWhile_append_of_head {p : Nat → Bool} (h : ∀ code ∈ rest.head?, p code = false) :
    ∀ s : List Nat, (s ++ rest).takeWhile p = s.takeWhile p
  | [] => by
    cases rest with
    | nil => rfl
    | cons code rest => simp [h code rfl]
  | c :: s => by
    by_cases hc : p c <;> simp [hc, takeWhile_append_of_head h s]

theorem dropWhile_append_of_head {p : Nat → Bool} (h : ∀ code ∈ rest.head?, p code = false) :
    ∀ s : List Nat, (s ++ rest).dropWhile p = s.dropWhile p ++ rest
  | [] => by
    cases rest with
    | nil => rfl
    | cons code rest => simp [h code rfl]
  | c :: s => by
    by_cases hc : p c <;> simp [hc, dropWhile_append_of_head h s]

theorem Ends.digitRun_append (h : Ends rest) (s : List Nat) : digitRun (s ++ rest) = digitRun s := by
  rw [digitRun, digitRun, takeWhile_append_of_head h.not_digit]

/-! ### The parts of a number -/

theorem splitFraction_of_not_point (h : ∀ tail, s ≠ point :: tail) : splitFraction s = ([], s) := by
  rw [splitFraction]
  exact h

theorem Ends.splitFraction_append (h : Ends rest) (s : List Nat) :
    splitFraction (s ++ rest) = ((splitFraction s).1, (splitFraction s).2 ++ rest) := by
  by_cases hpoint : ∃ tail, s = point :: tail
  · obtain ⟨tail, rfl⟩ := hpoint
    rw [List.cons_append, splitFraction, splitFraction]
    simp only [h.digitRun_append, dropWhile_append_of_head h.not_digit]
    split <;> rfl
  · have hs : ∀ tail, s ≠ point :: tail := fun tail he => hpoint ⟨tail, he⟩
    rw [splitFraction_of_not_point hs, splitFraction_of_not_point]
    intro tail he
    cases s with
    | nil =>
      have hcode := h point (by rw [List.nil_append] at he; rw [he]; rfl)
      revert hcode
      decide
    | cons c s => exact hs s (congrArg (· :: s) (List.cons.inj he).1)

/-- An exponent's sign and what follows it. -/
def splitExponentSign : List Nat → Bool × List Nat
  | minus :: rest => (true, rest)
  | plus :: rest => (false, rest)
  | rest => (false, rest)

theorem splitExponent_cons (c : Nat) (s : List Nat) : splitExponent (c :: s) =
    if Char.ofNat c = 'e' ∨ Char.ofNat c = 'E' then
      if digitRun (splitExponentSign s).2 = [] then (none, c :: s)
      else (some (if (splitExponentSign s).1 then -(Decimal.valueOf (digitRun (splitExponentSign s).2) : Int)
        else (Decimal.valueOf (digitRun (splitExponentSign s).2) : Int)), (splitExponentSign s).2.dropWhile isDigit)
    else (none, c :: s) := rfl

theorem splitExponentSign_of_unsigned (h : ∀ code ∈ s.head?, code ≠ minus ∧ code ≠ plus) :
    splitExponentSign s = (false, s) := by
  rw [splitExponentSign.eq_def]
  split
  · exact absurd rfl (h _ rfl).1
  · exact absurd rfl (h _ rfl).2
  · rfl

theorem Ends.splitExponentSign_append (h : Ends rest) (s : List Nat) :
    splitExponentSign (s ++ rest) = ((splitExponentSign s).1, (splitExponentSign s).2 ++ rest) := by
  have hrest : splitExponentSign rest = (false, rest) := splitExponentSign_of_unsigned fun code hcode => by
    rcases h code hcode with rfl | rfl | rfl | rfl <;> decide
  cases s with
  | nil => exact hrest
  | cons c s =>
    by_cases hminus : c = minus
    · subst hminus
      rfl
    · by_cases hplus : c = plus
      · subst hplus
        rfl
      · have hc : ∀ tail : List Nat, ∀ code ∈ (c :: tail).head?, code ≠ minus ∧ code ≠ plus := fun tail code hcode => by
          obtain rfl := Option.some.inj hcode
          exact ⟨hminus, hplus⟩
        rw [List.cons_append, splitExponentSign_of_unsigned (hc _), splitExponentSign_of_unsigned (hc _)]
        rfl

theorem Ends.splitExponent_append (h : Ends rest) (s : List Nat) :
    splitExponent (s ++ rest) = ((splitExponent s).1, (splitExponent s).2 ++ rest) := by
  cases s with
  | nil =>
    cases rest with
    | nil => rfl
    | cons code rest =>
      have hletter : ¬(Char.ofNat code = 'e' ∨ Char.ofNat code = 'E') := by
        rcases h code rfl with rfl | rfl | rfl | rfl <;> decide
      rw [List.nil_append, splitExponent_cons, if_neg hletter]
      rfl
  | cons c s =>
    rw [List.cons_append, splitExponent_cons, splitExponent_cons, h.splitExponentSign_append]
    simp only [h.digitRun_append, dropWhile_append_of_head h.not_digit]
    split
    · split <;> rfl
    · rfl

/-! ### Magnitudes -/

theorem length_digitRun_le (s : List Nat) : (digitRun s).length ≤ s.length := by
  rw [digitRun, List.length_map]
  exact (List.takeWhile_prefix _).length_le

/-- The digits before the point: of several digits the first is not zero. -/
def wholeOf (s : List Nat) : List Char := if (digitRun s).head? = some '0' then ['0'] else digitRun s

theorem length_wholeOf_le_digitRun (s : List Nat) : (wholeOf s).length ≤ (digitRun s).length := by
  rw [wholeOf]
  split
  next h =>
    cases hrun : digitRun s with
    | nil => simp [hrun] at h
    | cons c run => simp
  next => exact Nat.le_refl _

theorem length_wholeOf_le (s : List Nat) : (wholeOf s).length ≤ s.length :=
  Nat.le_trans (length_wholeOf_le_digitRun s) (length_digitRun_le s)

/-- What is left of a number after its whole part is its fraction and its exponent. -/
theorem readMagnitude_eq (negative : Bool) (start s : List Nat) : readMagnitude negative start s =
    let fraction := splitFraction (s.drop (wholeOf s).length)
    let exponent := splitExponent fraction.2
    if wholeOf s = [] then .error (.malformed .expectingValue start)
    else if fraction.1 = [] ∧ exponent.1 = none then
      if Decimal.digitLimit < (wholeOf s).length then .error (.excess (.digits (wholeOf s).length))
      else .ok (.int (if negative then -(Decimal.valueOf (wholeOf s) : Int) else (Decimal.valueOf (wholeOf s) : Int)), exponent.2)
    else .ok (.double (Decimal.nearest negative (Decimal.valueOf (wholeOf s ++ fraction.1))
      (exponent.1.getD 0 - fraction.1.length)), exponent.2) := rfl

/-- A number is read in the same way whatever ends it. -/
theorem Ends.readMagnitude_append (h : Ends rest) {negative : Bool} {start start' : List Nat}
    (hs : readMagnitude negative start s = .ok (v, left)) :
    readMagnitude negative start' (s ++ rest) = .ok (v, left ++ rest) := by
  have hwhole : wholeOf (s ++ rest) = wholeOf s := by rw [wholeOf, wholeOf, h.digitRun_append]
  rw [readMagnitude_eq] at hs ⊢
  simp only [hwhole, List.drop_append_of_le_length (length_wholeOf_le s), h.splitFraction_append,
    h.splitExponent_append] at hs ⊢
  split at hs
  · cases hs
  next hne =>
    rw [if_neg hne]
    split at hs
    next hint =>
      rw [if_pos hint]
      split at hs
      · cases hs
      next hlimit =>
        rw [if_neg hlimit]
        obtain ⟨rfl, rfl⟩ := Prod.mk.inj (Except.ok.inj hs)
        rfl
    next hdouble =>
      rw [if_neg hdouble]
      obtain ⟨rfl, rfl⟩ := Prod.mk.inj (Except.ok.inj hs)
      rfl

/-! ### Atoms -/

theorem afterWord?_append {word : String} (h : afterWord? word s = some left) (rest : List Nat) :
    afterWord? word (s ++ rest) = some (left ++ rest) := by
  rw [afterWord?] at h ⊢
  split at h
  next hprefix =>
    obtain rfl := Option.some.inj h
    have hs : Text.codesOf word <+: s := List.isPrefixOf_iff_prefix.1 hprefix
    have hlength : word.length ≤ s.length := by
      rw [← String.length_toList]
      simpa [Text.codesOf] using hs.length_le
    rw [if_pos (List.isPrefixOf_iff_prefix.2 (hs.trans (List.prefix_append s rest))),
      List.drop_append_of_le_length hlength]
  · cases h

theorem readAtom_cons (c : Nat) (tail : List Nat) : readAtom (c :: tail) =
    match Char.ofNat c with
    | 'n' => readAtom.word (c :: tail) "null" .null
    | 't' => readAtom.word (c :: tail) "true" (.bool true)
    | 'f' => readAtom.word (c :: tail) "false" (.bool false)
    | 'N' => readAtom.word (c :: tail) "NaN" (.double (0.0 / 0.0))
    | 'I' => readAtom.word (c :: tail) "Infinity" (.double (1.0 / 0.0))
    | '-' =>
      match afterWord? "Infinity" tail with
      | some rest => .ok (.double (-1.0 / 0.0), rest)
      | none => readMagnitude true (c :: tail) tail
    | _ => readMagnitude false (c :: tail) (c :: tail) := rfl

theorem word_eq_ok {w : String} {u : Json} : readAtom.word s w u = .ok (v, left) ↔ afterWord? w s = some left ∧ u = v := by
  rw [readAtom.word]
  cases afterWord? w s <;> simp [and_comm]

/-- A number begins with a digit, and so it is none of the words. -/
theorem afterWord?_of_readMagnitude {negative : Bool} {start : List Nat} (hs : readMagnitude negative start s = .ok (v, left))
    (rest : List Nat) : afterWord? "Infinity" (s ++ rest) = none := by
  cases s with
  | nil => cases hs
  | cons c tail =>
    by_cases hc : c = 0x49
    · subst hc
      cases hs
    · simp [afterWord?, Text.codesOf, Ne.symm hc]

/-- An atom is read in the same way whatever ends it. -/
theorem Ends.readAtom_append (h : Ends rest) (hs : readAtom s = .ok (v, left)) :
    readAtom (s ++ rest) = .ok (v, left ++ rest) := by
  have hword : ∀ {w u s}, readAtom.word s w u = .ok (v, left) → readAtom.word (s ++ rest) w u = .ok (v, left ++ rest) :=
    fun hw => word_eq_ok.2 ((word_eq_ok.1 hw).imp_left (afterWord?_append · rest))
  cases s with
  | nil => cases hs
  | cons c tail =>
    rw [readAtom_cons] at hs
    rw [List.cons_append, readAtom_cons, ← List.cons_append]
    split at hs
    · exact hword hs
    · exact hword hs
    · exact hword hs
    · exact hword hs
    · exact hword hs
    · split at hs
      next hw =>
        rw [afterWord?_append hw]
        obtain ⟨rfl, rfl⟩ := Prod.mk.inj (Except.ok.inj hs)
        rfl
      next =>
        rw [afterWord?_of_readMagnitude hs]
        exact h.readMagnitude_append hs
    · exact h.readMagnitude_append hs

/-! ### Integers -/

theorem isDigit_iff_of_char {c : Char} : isDigit c.toNat = c.isDigit := by
  simp only [isDigit, Char.isDigit, Char.toNat, UInt32.le_iff_toNat_le]
  rfl

theorem digitRun_of_digits {ds : List Char} (h : ∀ c ∈ ds, c.isDigit = true) : digitRun (codesOfChars ds) = ds := by
  have hall : (codesOfChars ds).takeWhile isDigit = codesOfChars ds := by
    have hdigits : ∀ code ∈ codesOfChars ds, isDigit code = true := fun code hcode => by
      obtain ⟨c, hc, rfl⟩ := List.mem_map.1 hcode
      exact isDigit_iff_of_char.trans (h c hc)
    exact List.takeWhile_eq_self_iff.2 hdigits
  rw [digitRun, hall, codesOfChars, List.map_map]
  simp [Function.comp_def]

/-- An integer within the limit is read back from its digits. -/
theorem readMagnitude_toDigits (negative : Bool) (start : List Nat) {n : Nat}
    (h : Decimal.digitCount n ≤ Decimal.digitLimit) :
    readMagnitude negative start (codesOfChars (Nat.toDigits 10 n)) = .ok (.int (if negative then -(n : Int) else n), []) := by
  have hrun : digitRun (codesOfChars (Nat.toDigits 10 n)) = Nat.toDigits 10 n :=
    digitRun_of_digits fun c hc => Nat.isDigit_of_mem_toDigits (by decide) (by decide) hc
  have hwhole : wholeOf (codesOfChars (Nat.toDigits 10 n)) = Nat.toDigits 10 n := by
    rw [wholeOf, hrun]
    cases n with
    | zero => rfl
    | succ n => exact if_neg (Decimal.head_digitsOf (Nat.succ_pos n))
  have hdrop : (codesOfChars (Nat.toDigits 10 n)).drop (Nat.toDigits 10 n).length = [] := by
    rw [List.drop_eq_nil_iff, Text.length_codesOfChars]
  have hlimit : ¬Decimal.digitLimit < (Nat.toDigits 10 n).length := Nat.not_lt.2 h
  have hvalue : Decimal.valueOf (Nat.toDigits 10 n) = n := Decimal.valueOf_digitsOf n
  rw [readMagnitude_eq, hwhole, hdrop]
  simp [splitFraction, splitExponent, Nat.toDigits_ne_nil, hlimit, hvalue]

theorem readAtom_of_digit {c : Nat} (h : isDigit c = true) (tail : List Nat) :
    readAtom (c :: tail) = readMagnitude false (c :: tail) (c :: tail) := by
  obtain ⟨hleast, hgreatest⟩ : 0x30 ≤ c ∧ c ≤ 0x39 := by simpa [isDigit] using h
  obtain rfl | rfl | rfl | rfl | rfl | rfl | rfl | rfl | rfl | rfl : c = 0x30 ∨ c = 0x31 ∨ c = 0x32 ∨ c = 0x33 ∨
      c = 0x34 ∨ c = 0x35 ∨ c = 0x36 ∨ c = 0x37 ∨ c = 0x38 ∨ c = 0x39 := by omega
  all_goals rfl

/-- A number of too many digits goes beyond the limits, whatever ends it. -/
theorem readMagnitude_of_long {ds : List Char} (hdigits : ∀ c ∈ ds, c.isDigit = true) (hhead : ds.head? ≠ some '0')
    (hlong : Decimal.digitLimit < ds.length) (start : List Nat) {rest : List Nat} (hrest : Ends rest) :
    readMagnitude false start (codesOfChars ds ++ rest) = .error (.excess (.digits ds.length)) := by
  have hrun : digitRun (codesOfChars ds ++ rest) = ds := by rw [hrest.digitRun_append, digitRun_of_digits hdigits]
  have hwhole : wholeOf (codesOfChars ds ++ rest) = ds := by rw [wholeOf, hrun, if_neg hhead]
  have hdrop : (codesOfChars ds ++ rest).drop ds.length = rest := List.drop_left' (Text.length_codesOfChars ds)
  have hfraction : splitFraction rest = ([], rest) := hrest.splitFraction_append []
  have hexponent : splitExponent rest = (none, rest) := hrest.splitExponent_append []
  have hne : ds ≠ [] := by
    rintro rfl
    simp at hlong
  simp only [readMagnitude_eq, hwhole, hdrop, hfraction, hexponent, if_neg hne]
  rw [if_pos ⟨trivial, trivial⟩, if_pos hlong]

def signText (negative : Bool) : List Char := if negative then ['-'] else []

/-- A number is read as an atom by its sign and its magnitude. -/
theorem readAtom_signed {negative : Bool} {cs : List Char} (hdigit : ∀ c ∈ cs.head?, c.isDigit = true)
    (h : ∀ start, readMagnitude negative start (codesOfChars cs) = .ok (v, [])) :
    readAtom (codesOfChars (signText negative ++ cs)) = .ok (v, []) := by
  cases negative with
  | true =>
    have hword := afterWord?_of_readMagnitude (h []) []
    rw [List.append_nil] at hword
    refine (readAtom_cons '-'.toNat (codesOfChars cs)).trans ?_
    rw [hword, h]
    rfl
  | false =>
    cases cs with
    | nil => cases h []
    | cons c cs => exact (readAtom_of_digit (isDigit_iff_of_char.trans (hdigit c rfl)) _).trans (h _)

/-- An integer within the limit is read back as it was written. -/
theorem readAtom_encodeInt {i : Int} (h : Decimal.Short i) :
    readAtom (codesOfChars (encodeInt i)) = .ok (.int i, []) := by
  have hread := fun negative start => readMagnitude_toDigits negative start h
  have hdigit : ∀ c ∈ (Nat.toDigits 10 i.natAbs).head?, c.isDigit = true := fun c hc =>
    Nat.isDigit_of_mem_toDigits (by decide) (by decide) (List.mem_of_mem_head? hc)
  rw [encodeInt]
  split
  next hneg =>
    refine (readAtom_signed hdigit (hread true)).trans ?_
    rw [if_pos rfl, Int.ofNat_natAbs_of_nonpos (Int.le_of_lt hneg), Int.neg_neg]
  next hneg =>
    refine (readAtom_signed hdigit (hread false)).trans ?_
    rw [if_neg (by decide), Int.natAbs_of_nonneg (Int.not_lt.1 hneg)]

/-! ### Characters of numbers -/

theorem isNumeral_of_mem_encodeInt {i : Int} {c : Char} (h : c ∈ encodeInt i) : IsNumeral c := by
  rw [encodeInt] at h
  split at h
  · rcases List.mem_cons.1 h with rfl | h
    · exact .inr (.inr (.inl rfl))
    · exact Decimal.isNumeral_of_mem_digitsOf h
  · exact Decimal.isNumeral_of_mem_digitsOf h

/-- No character of a number is white space or has a meaning of its own. -/
theorem plain_of_isNumeral {c : Char} (h : IsNumeral c) :
    isSpace c.toNat = false ∧ c.toNat ≠ quotation ∧ c.toNat ≠ openBrace ∧ c.toNat ≠ openBracket ∧
      c.toNat ≠ closeBracket ∧ c.toNat ≠ byteOrderMark := by
  rcases h with h | rfl | rfl | rfl | rfl
  · rw [← isDigit_iff_of_char] at h
    obtain ⟨hleast, hgreatest⟩ : 0x30 ≤ c.toNat ∧ c.toNat ≤ 0x39 := by simpa [isDigit] using h
    simp only [isSpace, quotation, openBrace, openBracket, closeBracket, byteOrderMark, Bool.or_eq_false_iff, beq_eq_false_iff_ne]
    omega
  all_goals decide

/-- What begins neither a string nor a container is read as an atom. -/
theorem readValue_eq_readAtom {levels fuel : Nat}
    (h : ∀ code ∈ s.head?, code ≠ quotation ∧ code ≠ openBrace ∧ code ≠ openBracket) :
    readValue levels (fuel + 1) s = readAtom s := by
  rw [readValue.eq_def]
  dsimp only
  split
  · exact absurd rfl (h _ rfl).1
  · exact absurd rfl (h _ rfl).2.1
  · exact absurd rfl (h _ rfl).2.2
  · rfl

theorem skipSpace_of_head (h : ∀ code ∈ s.head?, isSpace code = false) : skipSpace s = s := by
  cases s with
  | nil => rfl
  | cons c s => simp [skipSpace, h c rfl]

theorem not_isSpace_of_isDigit {code : Nat} (h : isDigit code = true) : isSpace code = false := by
  simp only [isDigit, isSpace, Bool.and_eq_true, decide_eq_true_eq, Bool.or_eq_false_iff, beq_eq_false_iff_ne] at h ⊢
  omega

/-- So does a value that is such a number. -/
theorem readValue_of_long {ds : List Char} (hdigits : ∀ c ∈ ds, c.isDigit = true) (hhead : ds.head? ≠ some '0')
    (hlong : Decimal.digitLimit < ds.length) (levels fuel : Nat) {rest : List Nat} (hrest : Ends rest) :
    readValue levels (fuel + 1) (codesOfChars ds ++ rest) = .error (.excess (.digits ds.length)) := by
  cases ds with
  | nil => simp at hlong
  | cons c ds =>
    have hc : isDigit c.toNat = true := isDigit_iff_of_char.trans (hdigits c List.mem_cons_self)
    have hbounds : 0x30 ≤ c.toNat ∧ c.toNat ≤ 0x39 := by simpa [isDigit] using hc
    rw [readValue_eq_readAtom fun code hcode => by
      obtain rfl := Option.some.inj hcode
      simp only [quotation, openBrace, openBracket]
      omega]
    exact (readAtom_of_digit hc _).trans (readMagnitude_of_long hdigits hhead hlong _ hrest)

theorem mapError_eq_ok {ε ε' α : Type} {f : ε → ε'} {x : Except ε α} {a : α} : x.mapError f = .ok a ↔ x = .ok a := by
  cases x <;> simp [Except.mapError]

end Adjudication.Json
