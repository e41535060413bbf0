import Adjudication.Proofs.Decimal.Shortest
import Adjudication.Proofs.Decimal.Spelling
import Adjudication.Proofs.Json.Numbers

/-!
A double is read back from its text: the text spells the shortest decimal of the double, reading finds the digits and the
exponent that it is spelled of, and the double is the one that lies nearest to them.
-/

namespace Adjudication

open Text (codesOfChars)
open Decimal (Spells fractionText exponentText padLeft digitsOf)

namespace Json

open Sign

/-! ### Reading what is spelled -/

variable {rest : List Nat}

theorem digitRun_digits_append {ds : List Char} (h : ∀ c ∈ ds, c.isDigit = true)
    (hrest : ∀ code ∈ rest.head?, isDigit code = false) : digitRun (codesOfChars ds ++ rest) = ds := by
  rw [digitRun, takeWhile_append_of_head hrest]
  exact digitRun_of_digits h

theorem dropWhile_digits_append {ds : List Char} (h : ∀ c ∈ ds, c.isDigit = true)
    (hrest : ∀ code ∈ rest.head?, isDigit code = false) : (codesOfChars ds ++ rest).dropWhile isDigit = rest := by
  have hall : ∀ code ∈ codesOfChars ds, isDigit code = true := fun code hcode => by
    obtain ⟨c, hc, rfl⟩ := List.mem_map.1 hcode
    exact isDigit_iff_of_char.trans (h c hc)
  rw [dropWhile_append_of_head hrest, List.dropWhile_eq_nil_iff.2 hall, List.nil_append]

theorem splitExponent_exponentText (exponent : Option Int) :
    splitExponent (codesOfChars (exponentText exponent)) = (exponent, []) := by
  cases exponent with
  | none => rfl
  | some e =>
    have hdigits : ∀ c ∈ padLeft 2 (digitsOf e.natAbs), c.isDigit = true := fun c => Decimal.isDigit_of_mem_padLeft
    have hvalue : Decimal.valueOf (padLeft 2 (digitsOf e.natAbs)) = e.natAbs := Decimal.valueOf_padLeft 2 _
    have hne : padLeft 2 (digitsOf e.natAbs) ≠ [] :=
      List.append_ne_nil_of_right_ne_nil _ Nat.toDigits_ne_nil
    rw [exponentText]
    generalize padLeft 2 (digitsOf e.natAbs) = ds at hdigits hvalue hne ⊢
    have hsign : splitExponentSign (codesOfChars ((if e < 0 then '-' else '+') :: ds)) =
        (decide (e < 0), codesOfChars ds) := by
      by_cases he : e < 0 <;> simp only [he, if_true, if_false] <;> rfl
    have hrun := digitRun_of_digits hdigits
    have hdrop : (codesOfChars ds ++ []).dropWhile isDigit = [] := dropWhile_digits_append hdigits fun _ h => by cases h
    rw [List.append_nil] at hdrop
    rw [Text.codesOfChars_cons, splitExponent_cons, hsign]
    dsimp only
    rw [hrun, hdrop, hvalue, if_pos (by decide), if_neg hne]
    by_cases he : e < 0
    · rw [if_pos (decide_eq_true he), Int.ofNat_natAbs_of_nonpos he.le, Int.neg_neg]
    · rw [if_neg (by simpa using he), Int.natAbs_of_nonneg (Int.not_lt.1 he)]

theorem head_exponentText (exponent : Option Int) :
    ∀ code ∈ (codesOfChars (exponentText exponent)).head?, isDigit code = false ∧ code ≠ point := by
  intro code hcode
  cases exponent with
  | none => cases hcode
  | some e =>
    obtain rfl := Option.some.inj hcode
    decide

theorem splitFraction_point (s : List Nat) :
    splitFraction (point :: s) = if digitRun s = [] then ([], point :: s) else (digitRun s, s.dropWhile isDigit) := rfl

theorem splitFraction_fractionText {fraction : List Char} (h : ∀ c ∈ fraction, c.isDigit = true) (exponent : Option Int) :
    splitFraction (codesOfChars (fractionText fraction ++ exponentText exponent)) =
      (fraction, codesOfChars (exponentText exponent)) := by
  have hhead := head_exponentText exponent
  rw [Text.codesOfChars_append]
  generalize codesOfChars (exponentText exponent) = rest at hhead ⊢
  cases fraction with
  | nil => exact splitFraction_of_not_point fun tail heq => (hhead point (congrArg List.head? heq)).2 rfl
  | cons c ds =>
    have hdigit := fun code hcode => (hhead code hcode).1
    refine (splitFraction_point (codesOfChars (c :: ds) ++ rest)).trans ?_
    rw [digitRun_digits_append h hdigit, dropWhile_digits_append h hdigit, if_neg (List.cons_ne_nil _ _)]

/-- A spelled magnitude is read as the double nearest to its digits and exponent. -/
theorem readMagnitude_of_spells {text whole fraction : List Char} {exponent : Option Int}
    (h : Spells text whole fraction exponent) (negative : Bool) (start : List Nat) :
    readMagnitude negative start (codesOfChars text) = .ok (.double (Decimal.nearest negative
      (Decimal.valueOf (whole ++ fraction)) (exponent.getD 0 - fraction.length)), []) := by
  have hrest : ∀ code ∈ (codesOfChars (fractionText fraction ++ exponentText exponent)).head?, isDigit code = false := by
    intro code hcode
    cases hf : fraction with
    | nil =>
      rw [hf] at hcode
      exact (head_exponentText exponent code hcode).1
    | cons c ds =>
      rw [hf] at hcode
      obtain rfl := Option.some.inj hcode
      rfl
  have hrun : digitRun (codesOfChars text) = whole := by
    rw [h.text_eq, Text.codesOfChars_append]
    exact digitRun_digits_append h.isDigit_whole hrest
  have hwhole : wholeOf (codesOfChars text) = whole := by
    rw [wholeOf, hrun]
    split
    next hzero => exact (h.whole_of_zero hzero).symm
    · rfl
  have hdrop : (codesOfChars text).drop whole.length = codesOfChars (fractionText fraction ++ exponentText exponent) := by
    rw [h.text_eq, Text.codesOfChars_append, ← Text.length_codesOfChars whole, List.drop_left]
  have hmarked : ¬(fraction = [] ∧ exponent = none) := fun hnone => h.marked.elim (· hnone.1) (· hnone.2)
  rw [readMagnitude_eq, hwhole, hdrop, splitFraction_fractionText h.isDigit_fraction]
  dsimp only
  rw [splitExponent_exponentText, if_neg h.whole_ne_nil, if_neg hmarked]

/-! ### Doubles -/

theorem exists_class {x : Float} (h : Decimal.isFinite x = true) : ∃ b, Decimal.classify x = .finite b := by
  rw [Decimal.isFinite] at h
  split at h
  next b hb => exact ⟨b, hb⟩
  · cases h

theorem encodeDouble_eq {x : Float} {b : Decimal.Binary} (hb : Decimal.classify x = .finite b) :
    encodeDouble x = signText b.negative ++ Decimal.Layout.plain.magnitude (Decimal.shortest b.mantissa b.exponent) := by
  rw [encodeDouble, hb]
  dsimp only
  rw [Decimal.textOf, hb]
  cases hnegative : b.negative <;> simp [hnegative, signText]

theorem isNumeral_of_mem_encodeDouble {x : Float} (h : Decimal.isFinite x = true) {c : Char} (hc : c ∈ encodeDouble x) :
    Decimal.IsNumeral c := by
  obtain ⟨b, hb⟩ := exists_class h
  rw [encodeDouble, hb] at hc
  exact Decimal.isNumeral_of_mem_textOf h hc

theorem head_of_spells {text whole fraction : List Char} {exponent : Option Int} (h : Spells text whole fraction exponent) :
    ∀ c ∈ text.head?, c.isDigit = true := by
  intro c hc
  obtain ⟨d, ds, rfl⟩ := List.exists_cons_of_ne_nil h.whole_ne_nil
  rw [h.text_eq] at hc
  obtain rfl := Option.some.inj hc
  exact h.isDigit_whole d List.mem_cons_self

theorem spells_zero : Spells (Decimal.Layout.plain.magnitude ⟨0, 0⟩) ['0'] ['0'] none :=
  ⟨rfl, List.forall_mem_singleton.2 rfl, List.forall_mem_singleton.2 rfl, List.cons_ne_nil _ _, fun _ => rfl,
    .inl (List.cons_ne_nil _ _)⟩

/-- A finite double is read back as it was written. -/
theorem readAtom_encodeDouble {x : Float} (h : Decimal.isFinite x = true) :
    readAtom (codesOfChars (encodeDouble x)) = .ok (.double x, []) := by
  obtain ⟨b, hb⟩ := exists_class h
  have hread {text whole fraction exponent} (hspells : Spells text whole fraction exponent)
      (hx : Decimal.nearest b.negative (Decimal.valueOf (whole ++ fraction)) (exponent.getD 0 - fraction.length) = x) :
      readAtom (codesOfChars (signText b.negative ++ text)) = .ok (.double x, []) := by
    rw [← hx]
    exact readAtom_signed (head_of_spells hspells) fun start => readMagnitude_of_spells hspells b.negative start
  rw [encodeDouble_eq hb]
  by_cases hzero : b.mantissa = 0
  · rw [hzero, Decimal.shortest, if_pos rfl]
    exact hread spells_zero (Decimal.nearest_zero hb hzero _)
  · obtain ⟨hc, -⟩ := (Decimal.unpack_of_classify hb).resolve_left fun hand => hzero hand.1
    obtain ⟨hpos, hnear⟩ := Decimal.shortest_near hc
    obtain ⟨whole, fraction, exponent, k, hspells, hvalue, hexponent⟩ := Decimal.spells_magnitude hpos
    refine hread hspells (Decimal.nearest_of_near hb hzero ?_ ?_)
    · rw [hvalue]
      exact Nat.mul_pos hpos (Nat.pow_pos (by decide))
    · have heq : (Decimal.valueOf (whole ++ fraction) : ℚ) * 10 ^ (exponent.getD 0 - fraction.length) =
          (Decimal.shortest b.mantissa b.exponent).value := by
        rw [Decimal.Scientific.value, ← hexponent, hvalue, zpow_add₀ (by norm_num), zpow_natCast]
        push_cast
        ring
      exact heq ▸ hnear

end Json

end Adjudication
