import Adjudication.Proofs.Decimal.Bits
import Adjudication.Proofs.Decimal.Numerals

/-!
The nearest double. A decimal that lies nearest to a double is read as that double: whole numbers and powers of ten that are
doubles themselves are multiplied and divided as doubles, others as they are, and what is far too great or too small for a
double lies nearest to none.
-/

namespace Adjudication.Decimal

open Float.Model Float.Model.UnpackedFloat

/-! ### Whole numbers and powers of ten -/

theorem near_self {m : ℕ} {q : ℤ} (hc : Canonical m q) : Near m q (m * 2 ^ q) := by
  have hcancel : (m : ℚ) * 2 ^ q / 2 ^ q = m := mul_div_cancel_right₀ _ (two_zpow_pos q).ne'
  refine ⟨.inl ?_, .inl ?_⟩ <;> rw [hcancel]
  · rw [lowEnd_cast hc.pos]
    split <;> linarith
  · linarith

/-- A whole number of at most 53 bits is a double. -/
theorem ofUInt64_eq {d : ℕ} (hd : 0 < d) (hlt : d < 2 ^ 53) : ∃ (m : ℕ) (q : ℤ) (hc : Canonical m q),
    (Float.Model.ofUInt64 d.toUInt64).unpack = .finite .positive m q hc.pos ∧ 2 ^ 52 ≤ m ∧ (m * 2 ^ q : ℚ) = d := by
  have hlog : d.log2 ≤ 52 := Nat.le_of_lt_succ ((Nat.log2_lt hd.ne').2 hlt)
  obtain ⟨k, hk⟩ : ∃ k, k + d.log2 = 52 := ⟨52 - d.log2, by omega⟩
  have hlow : 2 ^ 52 ≤ d * 2 ^ k := by
    rw [← hk, add_comm, pow_add]
    exact Nat.mul_le_mul_right _ (Nat.log2_self_le hd.ne')
  have hhigh : d * 2 ^ k < 2 ^ 53 := by
    rw [show 53 = d.log2 + 1 + k by omega, pow_add]
    exact Nat.mul_lt_mul_of_pos_right Nat.lt_log2_self (Nat.two_pow_pos k)
  have hc : Canonical (d * 2 ^ k) (-k) := ⟨by omega, hhigh, by omega, by omega, fun _ => hlow⟩
  refine ⟨_, _, hc, ?_, hlow, ?_⟩
  · have hround : UnpackedFloat.ofNat Format.binary64 d = .finite .positive (d * 2 ^ k) (-k) hc.pos := by
      have hshift : (-Format.binary64.targetExponent (totalExponent d 0)).toNat = k := by
        rw [targetExponent_eq, totalExponent]
        omega
      rw [UnpackedFloat.ofNat, UnpackedFloat.ofInt, UnpackedFloat.normalize, Int.compare_eq_gt.2 (by omega : (0 : ℤ) < d)]
      simp only [UnpackedFloat.round, decreaseExponent, hshift, Int.toNat_natCast, Nat.shiftLeft_eq, zero_sub]
      refine roundWithAccuracy_of_near _ ?_ ?_ hc (near_self hc)
      · exact mul_div_cancel_right₀ _ (two_zpow_pos _).ne'
      · have hlog2 := (Nat.le_log2 hc.pos.ne').2 hlow
        rw [targetExponent_eq, totalExponent]
        omega
    have hsize : d < UInt64.size := hlt.trans (by norm_num [UInt64.size])
    rw [Float.Model.ofUInt64, UnpackedFloat.ofUInt64, Nat.toUInt64, UInt64.toNat_ofNat_of_lt' hsize, hround, unpack_pack hc]
  · push_cast
    rw [zpow_neg, zpow_natCast, mul_assoc, mul_inv_cancel₀ (by positivity), mul_one]

/-- A double that is a power of ten. -/
def isPowerOfTen (k : ℕ) : UnpackedFloat → Bool
  | .finite .positive m e _ => 2 ^ 52 ≤ m && m * 2 ^ e.toNat == 10 ^ k * 2 ^ (-e).toNat
  | _ => false

theorem isPowerOfTen_powers : ∀ k : Fin 23, isPowerOfTen k Float.exactlyRepresentablePowersOfTen[k].toModel.unpack = true := by
  decide +kernel

theorem unpack_powers {k : ℕ} (hk : k < Float.exactlyRepresentablePowersOfTen.size) : ∃ (m : ℕ) (e : ℤ) (h : 0 < m),
    Float.exactlyRepresentablePowersOfTen[k].toModel.unpack = .finite .positive m e h ∧ 2 ^ 52 ≤ m ∧
      (m * 2 ^ e : ℚ) = 10 ^ k := by
  have hpower : isPowerOfTen k Float.exactlyRepresentablePowersOfTen[k].toModel.unpack = true := isPowerOfTen_powers ⟨k, hk⟩
  generalize Float.exactlyRepresentablePowersOfTen[k].toModel.unpack = u at hpower ⊢
  match u, hpower with
  | .finite .positive m e h, hpower =>
    rw [isPowerOfTen, Bool.and_eq_true, beq_iff_eq] at hpower
    obtain ⟨hlong, hvalue⟩ := hpower
    refine ⟨m, e, h, rfl, of_decide_eq_true hlong, ?_⟩
    have hcast : (m : ℚ) * 2 ^ e.toNat = 10 ^ k * 2 ^ (-e).toNat := by exact_mod_cast hvalue
    rw [zpow_eq_div two_ne_zero, ← mul_div_assoc, hcast, mul_div_cancel_right₀ _ (pow_ne_zero _ two_ne_zero)]

/-! ### Products and quotients of doubles -/

variable {m : ℕ} {q : ℤ}

section Operations

variable {a b : Float} {m₁ m₂ : ℕ} {e₁ e₂ : ℤ} {h₁ : 0 < m₁} {h₂ : 0 < m₂}
  (ha : a.toModel.unpack = .finite .positive m₁ e₁ h₁) (hb : b.toModel.unpack = .finite .positive m₂ e₂ h₂)
  (hc : Canonical m q)

include ha hb

theorem float_mul_of_near (hlong : 2 ^ 52 ≤ m₁) (h : Near m q (m₁ * 2 ^ e₁ * (m₂ * 2 ^ e₂))) :
    a * b = ⟨Float.Model.pack (.finite .positive m q hc.pos)⟩ := by
  change (⟨Float.Model.pack (UnpackedFloat.mul Format.binary64 a.toModel.unpack b.toModel.unpack)⟩ : Float) = _
  rw [ha, hb, mul_of_near _ _ (hlong.trans (Nat.le_mul_of_pos_right _ h₂)) hc h]
  rfl

theorem float_div_of_near (h : Near m q (m₁ * 2 ^ e₁ / (m₂ * 2 ^ e₂))) :
    a / b = ⟨Float.Model.pack (.finite .positive m q hc.pos)⟩ := by
  change (⟨Float.Model.pack (UnpackedFloat.div Format.binary64 a.toModel.unpack b.toModel.unpack)⟩ : Float) = _
  rw [ha, hb, div_of_near _ _ hc h]
  rfl

end Operations

/-- A decimal within bounds that lies nearest to a double is read as it, by one product or quotient of doubles where both
its parts are doubles. -/
theorem float_ofScientific_of_near {d : ℕ} {e : ℤ} (hd : 0 < d) (hlow : -2048 - d.log2 ≤ e) (hhigh : e ≤ 2048)
    (hc : Canonical m q) (h : Near m q (d * 10 ^ e)) :
    Float.ofScientific d (decide (e < 0)) e.natAbs = ⟨Float.Model.pack (.finite .positive m q hc.pos)⟩ := by
  rw [Float.ofScientific]
  split
  next hsmall =>
    obtain ⟨m₁, e₁, hc₁, hwhole, hlong, hvalue⟩ := ofUInt64_eq hd hsmall.1
    obtain ⟨m₂, e₂, h₂, hpower, hlong₂, hvalue₂⟩ := unpack_powers (Nat.lt_succ_of_le hsmall.2)
    dsimp only
    split
    next he =>
      have hten : (d : ℚ) * 10 ^ e = m₁ * 2 ^ e₁ / (m₂ * 2 ^ e₂) := by
        have hneg : (10 : ℚ) ^ e = (10 ^ e.natAbs)⁻¹ := by
          have he := of_decide_eq_true he
          rw [← zpow_natCast, ← zpow_neg]
          congr 1
          omega
        rw [hvalue, hvalue₂, hneg, div_eq_mul_inv]
      exact float_div_of_near hwhole hpower hc (hten ▸ h)
    next he =>
      have hten : (d : ℚ) * 10 ^ e = m₁ * 2 ^ e₁ * (m₂ * 2 ^ e₂) := by
        have hpos : (10 : ℚ) ^ e = 10 ^ e.natAbs := by
          have he : ¬e < 0 := fun hlt => he (decide_eq_true hlt)
          rw [← zpow_natCast]
          congr 1
          omega
        rw [hvalue, hvalue₂, hpos]
      exact float_mul_of_near hwhole hpower hc hlong (hten ▸ h)
  next hlarge =>
    have hexponent : (if decide (e < 0) = true then Int.negOfNat e.natAbs else Int.ofNat e.natAbs) = e := by
      split
      next he => rw [Int.negOfNat_eq, Int.ofNat_eq_natCast, Int.ofNat_natAbs_of_nonpos (of_decide_eq_true he).le, Int.neg_neg]
      next he => exact Int.natAbs_of_nonneg (not_lt.1 fun hlt => he (decide_eq_true hlt))
    dsimp only
    rw [hexponent, Float.Model.ofScientific, ofScientific_of_near hd hlow hhigh hc h]

/-! ### Sizes -/

theorem ten_zpow_pos (e : ℤ) : (0 : ℚ) < 10 ^ e := zpow_pos (by norm_num) e

/-- The size of a decimal is that of its number. -/
theorem decimal_bounds {d : ℕ} (hd : 0 < d) (e : ℤ) :
    (10 : ℚ) ^ (digitCount d + e - 1) ≤ d * 10 ^ e ∧ (d * 10 ^ e : ℚ) < 10 ^ (digitCount d + e) := by
  have hlow : (10 : ℚ) ^ (digitCount d - 1) ≤ d := by exact_mod_cast pow_digitCount_le hd
  have hhigh : (d : ℚ) < 10 ^ digitCount d := by exact_mod_cast lt_pow_digitCount d
  constructor
  · rw [show (digitCount d + e - 1 : ℤ) = (digitCount d - 1 : ℕ) + e by have := digitCount_pos d; omega,
      zpow_add₀ (by norm_num), zpow_natCast]
    exact mul_le_mul_of_nonneg_right hlow (ten_zpow_pos e).le
  · rw [zpow_add₀ (by norm_num), zpow_natCast]
    exact mul_lt_mul_of_pos_right hhigh (ten_zpow_pos e)

theorem ten_zpow_lt_iff {s t : ℤ} : (10 : ℚ) ^ s < 10 ^ t ↔ s < t := zpow_lt_zpow_iff_right₀ (by norm_num)

theorem Near.lt_two_zpow {x : ℚ} (hc : Canonical m q) (h : Near m q x) : x < 2 ^ (1024 : ℤ) := by
  have hm : (m : ℚ) + 1 ≤ 2 ^ 53 := by exact_mod_cast hc.lt
  have hle := h.le
  have hscaled : x / 2 ^ q < 2 ^ 53 := by linarith
  rw [div_lt_iff₀ (two_zpow_pos q), ← two_zpow_add] at hscaled
  exact hscaled.trans_le (zpow_le_zpow_right₀ (by norm_num) (by have := hc.greatest; omega))

theorem Near.two_zpow_le {x : ℚ} (hc : Canonical m q) (h : Near m q x) : 2 ^ (-1075 : ℤ) ≤ x := by
  have hm : (1 : ℚ) ≤ m := by exact_mod_cast hc.pos
  have hscaled : 1 / 2 ≤ x / 2 ^ q := by
    have hge := h.ge
    rw [lowEnd_cast hc.pos] at hge
    split at hge <;> linarith
  have hle : (2 : ℚ) ^ (-1074 : ℤ) ≤ 2 ^ q := zpow_le_zpow_right₀ (by norm_num) hc.least
  rw [le_div_iff₀ (two_zpow_pos q)] at hscaled
  calc (2 : ℚ) ^ (-1075 : ℤ) = 1 / 2 * 2 ^ (-1074 : ℤ) := by
        rw [show (-1075 : ℤ) = -1074 - 1 by norm_num, zpow_sub_one₀ two_ne_zero, mul_comm, one_div]
    _ ≤ 1 / 2 * 2 ^ q := by linarith
    _ ≤ x := hscaled

theorem two_pow_lt_ten_pow : (2 : ℚ) ^ (1100 : ℤ) < 10 ^ (400 : ℤ) := by
  have hpow : ((2 : ℚ) ^ 11) ^ 100 < (10 ^ 4) ^ 100 := pow_lt_pow_left₀ (by norm_num) (by norm_num) (by norm_num)
  rwa [← pow_mul, ← pow_mul] at hpow

/-- A decimal that lies nearest to a double is neither far too great nor far too small for one. -/
theorem size_bounds {d : ℕ} {e : ℤ} (hd : 0 < d) (hc : Canonical m q) (h : Near m q (d * 10 ^ e)) :
    -400 ≤ (digitCount d : ℤ) + e ∧ (digitCount d : ℤ) + e ≤ 400 := by
  obtain ⟨hlow, hhigh⟩ := decimal_bounds hd e
  constructor
  · have hlt : (10 : ℚ) ^ (-401 : ℤ) < 10 ^ (digitCount d + e) :=
      calc (10 : ℚ) ^ (-401 : ℤ) < 10 ^ (-400 : ℤ) := ten_zpow_lt_iff.2 (by norm_num)
        _ < 2 ^ (-1100 : ℤ) := by
          rw [zpow_neg, zpow_neg]
          exact inv_strictAnti₀ (two_zpow_pos _) two_pow_lt_ten_pow
        _ ≤ 2 ^ (-1075 : ℤ) := zpow_le_zpow_right₀ (by norm_num) (by norm_num)
        _ ≤ d * 10 ^ e := h.two_zpow_le hc
        _ < 10 ^ (digitCount d + e) := hhigh
    have := ten_zpow_lt_iff.1 hlt
    omega
  · have hlt : (10 : ℚ) ^ (digitCount d + e - 1) < 10 ^ (400 : ℤ) :=
      calc (10 : ℚ) ^ (digitCount d + e - 1) ≤ d * 10 ^ e := hlow
        _ < 2 ^ (1024 : ℤ) := h.lt_two_zpow hc
        _ ≤ 2 ^ (1100 : ℤ) := zpow_le_zpow_right₀ (by norm_num) (by norm_num)
        _ < 10 ^ (400 : ℤ) := two_pow_lt_ten_pow
    have := ten_zpow_lt_iff.1 hlt
    omega

theorem digitCount_le_log2 (d : ℕ) : digitCount d ≤ d.log2 + 1 :=
  (Nat.length_toDigits_le_iff (by decide) (Nat.succ_pos _)).2
    (Nat.lt_log2_self.trans_le (Nat.pow_le_pow_left (by decide) _))

/-! ### Reading -/

/-- A decimal that lies nearest to a double that is not zero is read as that double. -/
theorem nearest_of_near {x : Float} {b : Binary} (hx : classify x = .finite b) (hb : b.mantissa ≠ 0) {d : ℕ} {e : ℤ}
    (hd : 0 < d) (h : Near b.mantissa b.exponent (d * 10 ^ e)) : nearest b.negative d e = x := by
  obtain ⟨hc, hunpack⟩ := (unpack_of_classify hx).resolve_left fun hzero => hb hzero.1
  obtain ⟨hlow, hhigh⟩ := size_bounds hd hc h
  have hlog := digitCount_le_log2 d
  rw [nearest, if_neg hd.ne', if_neg (not_lt.2 hhigh), if_neg (not_lt.2 hlow),
    float_ofScientific_of_near hd (by omega) (by omega) hc h, ← ofModel_pack_unpack x, hunpack]
  cases b.negative with
  | false => rfl
  | true =>
    change (⟨Float.Model.pack (UnpackedFloat.neg (Float.Model.pack _).unpack)⟩ : Float) = _
    rw [unpack_pack hc]
    rfl

/-- Zero is read as the zero of its sign. -/
theorem nearest_zero {x : Float} {b : Binary} (hx : classify x = .finite b) (hb : b.mantissa = 0) (e : ℤ) :
    nearest b.negative 0 e = x := by
  have hunpack := ((unpack_of_classify hx).resolve_right fun ⟨hc, _⟩ => hc.pos.ne' hb).2
  rw [← ofModel_pack_unpack x, hunpack, nearest, if_pos rfl]
  cases b.negative <;> decide +kernel

end Adjudication.Decimal
