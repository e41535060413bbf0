import Mathlib.Algebra.Group.Nat.Defs
import Mathlib.Data.List.Induction
import Adjudication.Decimal.Layout
import Adjudication.Decimal.Numeral

/-!
Numbers as they are written: the digits of a number have its value, with zeros in front of them too, and the text of a
finite double is of the few characters that numbers are made of.
-/

namespace Adjudication.Decimal

/-! ### Digits -/

theorem valueOf_digitsOf (n : Nat) : valueOf (digitsOf n) = n := by
  have h := Nat.ofDigitChars_ten_toDigits (n := n)
  rw [Nat.ofDigitChars_eq_foldl] at h
  exact h

/-- The first of several digits of a number is not zero. -/
theorem head_digitsOf {n : Nat} (h : 0 < n) : (digitsOf n).head? ≠ some '0' := by
  induction n using Nat.strongRecOn with
  | ind n ih =>
    rw [digitsOf, Nat.toDigits_eq_if (by decide)]
    split
    next hlt =>
      have hall : ∀ m < 10, 0 < m → [m.digitChar].head? ≠ some '0' := by decide
      exact hall n hlt h
    next hge =>
      have hquotient := ih (n / 10) (by omega) (by omega)
      rw [digitsOf] at hquotient
      cases hd : Nat.toDigits 10 (n / 10) with
      | nil => exact absurd hd Nat.toDigits_ne_nil
      | cons c ds =>
        rw [hd] at hquotient
        simpa using hquotient

/-- Zeros in front of digits do not count. -/
theorem valueOf_zeros_append (k : Nat) (ds : List Char) : valueOf (List.replicate k '0' ++ ds) = valueOf ds := by
  induction k with
  | zero => rfl
  | succ k ih => exact ih

theorem valueOf_padLeft (width n : Nat) : valueOf (padLeft width (digitsOf n)) = n :=
  (valueOf_zeros_append _ _).trans (valueOf_digitsOf n)

theorem isDigit_of_mem_padLeft {width n : Nat} {c : Char} (h : c ∈ padLeft width (digitsOf n)) : c.isDigit = true := by
  rcases List.mem_append.1 h with h | h
  · rw [(List.mem_replicate.1 h).2]
    rfl
  · exact Nat.isDigit_of_mem_toDigits (by decide) (by decide) h

/-- A number that has no more digits than there is room for fills the room with zeros in front. -/
theorem padLeft_digitsOf (width : Nat) {n : Nat} (hwidth : 0 < width) (h : n < 10 ^ width) :
    (padLeft width (digitsOf n)).length = width ∧ (∀ c ∈ padLeft width (digitsOf n), isDigit c = true) ∧
      valueOf (padLeft width (digitsOf n)) = n := by
  have hlength : (digitsOf n).length ≤ width := (Nat.length_toDigits_le_iff (by decide) hwidth).2 h
  refine ⟨?_, fun c => isDigit_of_mem_padLeft, valueOf_padLeft width n⟩
  rw [padLeft, List.length_append, List.length_replicate]
  omega

/-- An integer that has no more digits than are read. -/
def Short (i : Int) : Prop := digitCount i.natAbs ≤ digitLimit

theorem digitCount_pos (n : Nat) : 0 < digitCount n := List.length_pos_iff.2 Nat.toDigits_ne_nil

theorem lt_pow_digitCount (n : Nat) : n < 10 ^ digitCount n :=
  (Nat.length_toDigits_le_iff (by decide) (digitCount_pos n)).1 Nat.le.refl

theorem pow_digitCount_le {n : Nat} (h : 0 < n) : 10 ^ (digitCount n - 1) ≤ n := by
  refine Nat.le_of_not_lt fun hlt => ?_
  rcases Nat.eq_zero_or_pos (digitCount n - 1) with hzero | hpos
  · rw [hzero] at hlt
    exact Nat.not_lt.2 h hlt
  · have hcount : digitCount n ≤ digitCount n - 1 := (Nat.length_toDigits_le_iff (by decide) hpos).2 hlt
    omega

theorem short_iff {i : Int} : Short i ↔ i.natAbs < 10 ^ digitLimit := Nat.length_toDigits_le_iff (by decide) (by decide)

theorem valueOf_append (ds : List Char) (c : Char) : valueOf (ds ++ [c]) = 10 * valueOf ds + (c.toNat - '0'.toNat) :=
  List.foldl_append ..

theorem valueOf_lt {ds : List Char} (h : ∀ c ∈ ds, isDigit c = true) : valueOf ds < 10 ^ ds.length := by
  induction ds using List.reverseRecOn with
  | nil => decide
  | append_singleton ds c ih =>
    have hvalue := ih fun d hd => h d (List.mem_append_left _ hd)
    have hc : c.toNat ≤ '9'.toNat := by
      have hdigit := h c (by simp)
      rw [isDigit, Bool.and_eq_true] at hdigit
      exact UInt32.le_iff_toNat_le.1 (of_decide_eq_true hdigit.2)
    have hdigit : c.toNat - '0'.toNat ≤ 9 := Nat.sub_le_sub_right hc _
    rw [valueOf_append, List.length_append, List.length_singleton, Nat.pow_succ]
    omega

/-! ### Characters -/

/-- The characters of numbers. -/
def IsNumeral (c : Char) : Prop := c.isDigit = true ∨ c = '.' ∨ c = '-' ∨ c = '+' ∨ c = 'e'

theorem isNumeral_of_mem_digitsOf {n : Nat} {c : Char} (h : c ∈ digitsOf n) : IsNumeral c :=
  .inl (Nat.isDigit_of_mem_toDigits (by decide) (by decide) h)

theorem isNumeral_of_mem_padLeft {width n : Nat} {c : Char} (h : c ∈ padLeft width (digitsOf n)) :
    IsNumeral c := .inl (isDigit_of_mem_padLeft h)

theorem isNumeral_of_mem_positional {l : Layout} {d : Scientific} {c : Char}
    (h : c ∈ positional l d) : IsNumeral c := by
  rw [positional] at h
  split at h
  · rcases List.mem_append.1 h with h | h
    · rcases List.mem_append.1 h with h | h
      · exact isNumeral_of_mem_digitsOf h
      · obtain rfl := (List.mem_replicate.1 h).2
        exact .inl rfl
    · split at h
      · obtain rfl | rfl : c = '.' ∨ c = '0' := by simpa using h
        · exact .inr (.inl rfl)
        · exact .inl rfl
      · cases h
  · rcases List.mem_append.1 h with h | h
    · exact isNumeral_of_mem_padLeft (List.mem_of_mem_take h)
    · rcases List.mem_cons.1 h with rfl | h
      · exact .inr (.inl rfl)
      · exact isNumeral_of_mem_padLeft (List.mem_of_mem_drop h)

theorem isNumeral_of_mem_scientific {l : Layout} {d : Scientific} {c : Char}
    (h : c ∈ scientific l d) : IsNumeral c := by
  rw [scientific] at h
  rcases List.mem_append.1 h with h | h
  · rcases List.mem_append.1 h with h | h
    · exact isNumeral_of_mem_digitsOf (List.mem_of_mem_take h)
    · split at h
      · cases h
      · rcases List.mem_cons.1 h with rfl | h
        · exact .inr (.inl rfl)
        · exact isNumeral_of_mem_digitsOf (List.mem_of_mem_drop h)
  · rcases List.mem_cons.1 h with rfl | h
    · exact .inr (.inr (.inr (.inr rfl)))
    · rcases List.mem_cons.1 h with rfl | h
      · split
        · exact .inr (.inr (.inl rfl))
        · exact .inr (.inr (.inr (.inl rfl)))
      · exact isNumeral_of_mem_padLeft h

/-- The text of a finite double has only the characters of numbers. -/
theorem isNumeral_of_mem_textOf {x : Float} (hx : isFinite x = true) {c : Char}
    (h : c ∈ (textOf x).toList) : IsNumeral c := by
  rw [isFinite] at hx
  rw [textOf] at h
  split at hx
  next b hb =>
    rw [hb] at h
    have hmagnitude : c ∈ Layout.plain.magnitude (shortest b.mantissa b.exponent) → IsNumeral c := fun hc => by
      rw [Layout.magnitude] at hc
      split at hc
      · exact isNumeral_of_mem_positional hc
      · exact isNumeral_of_mem_scientific hc
    dsimp only at h
    split at h
    · rw [String.toList_append] at h
      rcases List.mem_append.1 h with h | h
      · obtain rfl := List.mem_singleton.1 h
        exact .inr (.inr (.inl rfl))
      · rw [String.toList_ofList] at h
        exact hmagnitude h
    · rw [String.toList_ofList] at h
      exact hmagnitude h
  · cases hx

end Adjudication.Decimal
