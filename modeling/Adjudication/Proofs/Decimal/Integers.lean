import Adjudication.Proofs.Decimal.Nearest
import Adjudication.Proofs.Decimal.Rounded

/-!
Integers as doubles. A positive integer is taken for a positive double or for infinity, and one from two on for a double above
one, however it is rounded; so no integer but zero and one is taken for a double between zero and one.
-/

namespace Adjudication.Decimal

open Float.Model Float.Model.UnpackedFloat

/-! ### Positive integers -/

/-- A mantissa of 53 bits makes less than the next power of two. -/
theorem mul_two_zpow_lt {m : ℕ} {q t : ℤ} (hm : m < 2 ^ 53) (hq : q ≤ t) : (m * 2 ^ q : ℚ) < 2 ^ (t + 53) :=
  calc (m * 2 ^ q : ℚ) ≤ m * 2 ^ t := mul_le_mul_of_nonneg_left (zpow_le_zpow_right₀ (by norm_num) hq) (Nat.cast_nonneg m)
    _ < 2 ^ 53 * 2 ^ t := mul_lt_mul_of_pos_right (by exact_mod_cast hm) (two_zpow_pos t)
    _ = 2 ^ (t + 53) := (two_zpow_add t 53).symm

/-- A positive double, which is above one if `above` is the case, or infinity. -/
inductive Positive (above : Prop) : UnpackedFloat → Prop
  | finite {m : ℕ} {q : ℤ} (hc : Canonical m q) (hlong : 2 ^ 52 ≤ m) (habove : above → -52 < q) :
    Positive above (.finite .positive m q hc.pos)
  | infinite : Positive above (.infinity .positive)

/-- What is packed of a mantissa of 53 bits is infinity if the exponent is too great. -/
theorem positive_pack {above : Prop} {m : ℕ} {q : ℤ} (h : Rounded m q) (hlong : 2 ^ 52 ≤ m) (habove : above → -52 < q) :
    Positive above (Float.Model.pack (.finite .positive m q h.pos)).unpack := by
  rcases unpack_pack_rounded .positive h with ⟨hc, hpack⟩ | hpack <;> rw [hpack]
  · exact .finite hc hlong habove
  · exact .infinite

theorem positive_ofNat {d : ℕ} (hd : 0 < d) : Positive (2 ≤ d) (Float.ofNat d).toModel.unpack := by
  change Positive _ (Float.ofScientific d (decide ((0 : ℤ) < 0)) (0 : ℤ).natAbs).toModel.unpack
  rcases Nat.lt_or_ge d (2 ^ 53) with hsmall | hlarge
  · obtain ⟨m, q, hc, -, hlong, hvalue⟩ := ofUInt64_eq hd hsmall
    have hnear : Near m q (d * 10 ^ (0 : ℤ)) := by
      rw [zpow_zero, mul_one, ← hvalue]
      exact near_self hc
    rw [float_ofScientific_of_near hd (by omega) (by norm_num) hc hnear]
    refine positive_pack ⟨hc.pos, hc.lt, hc.least, hc.normal⟩ hlong fun htwo => ?_
    by_contra hle
    have htwo : (2 : ℚ) ≤ m * 2 ^ q := hvalue ▸ (by exact_mod_cast htwo)
    have hless : (m * 2 ^ q : ℚ) < 2 ^ (1 : ℤ) := mul_two_zpow_lt hc.lt (not_lt.1 hle)
    rw [zpow_one] at hless
    exact not_lt.2 htwo hless
  · rw [Float.ofScientific, dif_neg fun hand => Nat.not_lt.2 hlarge hand.1]
    change Positive _ (Float.Model.pack (UnpackedFloat.ofScientific Format.binary64 d 0)).unpack
    have hlong : 2 ^ 106 ≤ d <<< 53 * 10 ^ (0 : ℤ).toNat := by
      rw [Nat.shiftLeft_eq, show 10 ^ (0 : ℤ).toNat = 1 from rfl]
      omega
    have hlog := (Nat.le_log2 (by omega : d <<< 53 * 10 ^ (0 : ℤ).toNat ≠ 0)).2 hlong
    obtain ⟨m, q, h, hround, hq⟩ := roundWithAccuracy_rounded (.positive * .positive) (n := d <<< 53 * 10 ^ (0 : ℤ).toNat)
      (e := -53 + 0) (by omega) (by norm_num) rfl (by rw [targetExponent_eq, totalExponent]; omega)
    rw [targetExponent_eq, totalExponent] at hq
    have hread : UnpackedFloat.ofScientific Format.binary64 d 0 = .finite .positive m q h.pos := by
      rw [UnpackedFloat.ofScientific, dif_neg hd.ne', if_neg (by norm_num), if_neg (by norm_num), if_pos le_rfl]
      exact hround
    rw [hread]
    exact positive_pack h (h.normal (by omega)) fun _ => by omega

/-! ### Bounds -/

theorem unpack_zero_double : (Float.toModel 0.0).unpack = .zero .positive := rfl

theorem unpack_one_double : (Float.toModel 1.0).unpack = .finite .positive (2 ^ 52) (-52) (by norm_num) := rfl

/-- An integer from two on is taken for a double above one. -/
theorem not_ofNat_le_one {d : ℕ} (h : 2 ≤ d) : ¬ Float.ofNat d ≤ 1.0 := by
  intro hle
  have hle : (Float.ofNat d).toModel.unpack.le (Float.toModel 1.0).unpack = true := of_decide_eq_true hle
  have hpositive := positive_ofNat (by omega : 0 < d)
  rw [unpack_one_double] at hle
  generalize (Float.ofNat d).toModel.unpack = u at hle hpositive
  cases hpositive with
  | @finite m q hc hlong habove =>
    rw [UnpackedFloat.le, UnpackedFloat.compare, Option.any_some, Int.compare_eq_gt.2 (habove h)] at hle
    cases hle
  | infinite => cases hle

/-- A negative integer is taken for a double below zero. -/
theorem not_zero_le_ofInt_negSucc (n : ℕ) : ¬ 0.0 ≤ Float.ofInt (.negSucc n) := by
  intro hle
  have hle : (Float.toModel 0.0).unpack.le (Float.Model.pack (Float.ofNat (n + 1)).toModel.unpack.neg).unpack = true :=
    of_decide_eq_true hle
  have hpositive := positive_ofNat n.succ_pos
  rw [unpack_zero_double] at hle
  generalize (Float.ofNat (n + 1)).toModel.unpack = u at hle hpositive
  cases hpositive with
  | finite hc =>
    rw [UnpackedFloat.neg, unpack_pack hc] at hle
    cases hle
  | infinite => cases hle

/-- Of the integers just zero and one are taken for doubles between zero and one. -/
theorem bounds_ofInt_iff (i : ℤ) : 0.0 ≤ Float.ofInt i ∧ Float.ofInt i ≤ 1.0 ↔ i = 0 ∨ i = 1 := by
  constructor
  · rintro ⟨hzero, hone⟩
    cases i with
    | ofNat d =>
      by_contra hne
      rw [Int.ofNat_eq_natCast] at hne
      exact not_ofNat_le_one (by omega) hone
    | negSucc n => exact absurd hzero (not_zero_le_ofInt_negSucc n)
  · rintro (rfl | rfl) <;> decide +kernel

theorem ofInt_zero : Float.ofInt 0 = 0.0 := by decide +kernel

theorem ofInt_one : Float.ofInt 1 = 1.0 := by decide +kernel

theorem eq_ofInt_of_ofInt? {i : ℤ} {x : Float} (h : ofInt? i = some x) : x = Float.ofInt i := by
  rw [ofInt?] at h
  split at h
  · cases h
  · dsimp only at h
    split at h
    · exact (Option.some.inj h).symm
    · cases h

/-! ### Doubles that are integers -/

namespace Binary

theorem toInt?_zero (negative : Bool) (q : ℤ) : (⟨negative, 0, q⟩ : Binary).toInt? = some 0 := by
  cases negative <;> simp [toInt?]

/-- An integer that a double is has its sign and its magnitude. -/
theorem toInt?_cases {b : Binary} {i : ℤ} (h : b.toInt? = some i) :
    ∃ n : ℕ, (b.mantissa * 2 ^ b.exponent : ℚ) = n ∧ i = if b.negative then -(n : ℤ) else n := by
  obtain ⟨negative, m, q⟩ := b
  rw [toInt?] at h
  obtain ⟨k, hk, rfl⟩ := Option.map_eq_some_iff.1 h
  obtain ⟨n, hn, hkn⟩ := Option.bind_eq_some_iff.1 hk
  obtain rfl := Option.some.inj hkn
  refine ⟨n, ?_, rfl⟩
  dsimp only at hn ⊢
  rw [zpow_eq_div two_ne_zero, ← mul_div_assoc, div_eq_iff (pow_ne_zero _ two_ne_zero)]
  split at hn
  next hq =>
    obtain rfl := Option.some.inj hn
    rw [show (-q).toNat = 0 by omega, Nat.pow_eq]
    push_cast
    ring
  next hq =>
    split at hn
    next hmod =>
      obtain rfl := Option.some.inj hn
      have hdiv := Nat.div_mul_cancel (Nat.dvd_of_mod_eq_zero (beq_iff_eq.1 hmod))
      rw [show q.toNat = 0 by omega, pow_zero, mul_one]
      exact_mod_cast hdiv.symm
    next => cases hn

variable {negative : Bool} {m : ℕ} {q : ℤ}

theorem toInt?_ne_zero (hc : Canonical m q) : (⟨negative, m, q⟩ : Binary).toInt? ≠ some 0 := by
  intro h
  obtain ⟨n, hn, hi⟩ := toInt?_cases h
  have hpos : (0 : ℚ) < m * 2 ^ q := mul_pos (by exact_mod_cast hc.pos) (two_zpow_pos q)
  obtain rfl : n = 0 := by split at hi <;> omega
  exact hpos.ne' (by exact_mod_cast hn)

/-- A canonical mantissa and exponent that make one are those of one. -/
theorem toInt?_eq_one_iff (hc : Canonical m q) :
    (⟨negative, m, q⟩ : Binary).toInt? = some 1 ↔ negative = false ∧ m = 2 ^ 52 ∧ q = -52 := by
  constructor
  · intro h
    obtain ⟨n, hn, hi⟩ := toInt?_cases h
    dsimp only at hn hi
    have hpositive : negative = false := by
      cases negative
      · rfl
      · rw [if_pos rfl] at hi
        omega
    obtain rfl : n = 1 := by
      rw [hpositive, if_neg Bool.false_ne_true] at hi
      omega
    rw [Nat.cast_one] at hn
    have hge : -52 ≤ q := by
      by_contra hlt
      have hless : (m * 2 ^ q : ℚ) < 2 ^ (0 : ℤ) := mul_two_zpow_lt hc.lt (by omega : q ≤ -53)
      exact hless.ne hn
    have hlong : (2 : ℚ) ^ 52 ≤ m := by exact_mod_cast hc.normal (by omega)
    have hle : q ≤ -52 := by
      by_contra hgt
      have hpow : (2 : ℚ) ^ (-51 : ℤ) ≤ 2 ^ q := zpow_le_zpow_right₀ (by norm_num) (by omega)
      have hmore : (1 : ℚ) < m * 2 ^ q := calc
        (1 : ℚ) < 2 ^ 52 * 2 ^ (-51 : ℤ) := by norm_num
        _ ≤ m * 2 ^ q := mul_le_mul hlong hpow (two_zpow_pos _).le (Nat.cast_nonneg m)
      exact hmore.ne' hn
    obtain rfl : q = -52 := le_antisymm hle hge
    have hvalue : (m : ℚ) = 2 ^ 52 := by
      rw [zpow_neg, mul_inv_eq_one₀ (two_zpow_pos 52).ne'] at hn
      exact_mod_cast hn
    exact ⟨hpositive, by exact_mod_cast hvalue, rfl⟩
  · rintro ⟨rfl, rfl, rfl⟩
    decide +kernel

end Binary

end Adjudication.Decimal
