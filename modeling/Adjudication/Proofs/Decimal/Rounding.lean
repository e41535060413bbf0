import Mathlib
import Adjudication.Decimal.Binary

/-!
Rounding to a double. A number that lies nearest to a double is rounded to it, whatever mantissa, exponent and remainder it
is given by: a shift to the exponent of the result keeps, with the bits that are lost, on which side of a half the number
lies; and the nearest whole mantissa is that of the double, or one that is carried over into its binade.
-/

namespace Adjudication.Decimal

open Float.Model Float.Model.UnpackedFloat

/-! ### Mantissas with a remainder -/

/-- A mantissa stands for a number, its bits telling on which side of a half the rest lies. -/
def Represents (em : ExtendedMantissa) (z : ℚ) : Prop :=
  match em with
  | ⟨n, false, false⟩ => z = n
  | ⟨n, false, true⟩ => n < z ∧ z < n + 1 / 2
  | ⟨n, true, false⟩ => z = n + 1 / 2
  | ⟨n, true, true⟩ => n + 1 / 2 < z ∧ z < n + 1

variable {em : ExtendedMantissa} {z : ℚ}

theorem Represents.bounds (h : Represents em z) : (em.mantissa : ℚ) ≤ z ∧ z < em.mantissa + 1 := by
  rcases em with ⟨n, _ | _, _ | _⟩ <;> simp only [Represents] at h ⊢ <;> constructor <;> linarith

/-- Half of the number loses a bit to the remainder. -/
theorem Represents.shiftRightOne (h : Represents em z) : Represents em.shiftRightOne (z / 2) := by
  obtain ⟨n, roundBit, stickyBit⟩ := em
  have hsplit : (n : ℚ) = 2 * ((n / 2 : ℕ) : ℚ) + ((n % 2 : ℕ) : ℚ) := by exact_mod_cast (Nat.div_add_mod n 2).symm
  rcases Nat.mod_two_eq_zero_or_one n with hn | hn <;> rw [hn] at hsplit <;> push_cast at hsplit <;>
    cases roundBit <;> cases stickyBit <;> simp [Represents, ExtendedMantissa.shiftRightOne, hn] at h ⊢
  all_goals first | linarith | constructor <;> linarith

theorem Represents.shiftRight (h : Represents em z) (k : ℕ) : Represents (em >>> k) (z / 2 ^ k) := by
  change Represents (Nat.repeat ExtendedMantissa.shiftRightOne k em) _
  induction k with
  | zero => simpa [Nat.repeat] using h
  | succ k ih =>
    rw [Nat.repeat, pow_succ, ← div_div]
    exact ih.shiftRightOne

/-- A number rounds to a whole one, a half to the even neighbour. -/
structure RoundsTo (z : ℚ) (n : ℕ) : Prop where
  low : (n : ℚ) - 1 / 2 < z ∨ n % 2 = 0 ∧ (n : ℚ) - 1 / 2 = z
  high : z < n + 1 / 2 ∨ n % 2 = 0 ∧ z = n + 1 / 2

theorem Represents.roundedMantissa (h : Represents em z) {n : ℕ} (hn : RoundsTo z n) : em.roundedMantissa = n := by
  obtain ⟨k, roundBit, stickyBit⟩ := em
  have hlow : (n : ℚ) - 1 / 2 ≤ z := hn.low.elim le_of_lt fun hmid => hmid.2.le
  have hhigh : z ≤ n + 1 / 2 := hn.high.elim le_of_lt fun hmid => hmid.2.le
  obtain ⟨hfloor, hceil⟩ := h.bounds
  have hle : k ≤ n := by
    by_contra hlt
    have hcast : (n : ℚ) + 1 ≤ k := by exact_mod_cast Nat.lt_of_not_le hlt
    linarith
  have hge : n ≤ k + 1 := by
    by_contra hlt
    have hcast : (k : ℚ) + 2 ≤ n := by exact_mod_cast Nat.lt_of_not_le hlt
    linarith
  obtain rfl | rfl : n = k ∨ n = k + 1 := by omega
  · cases roundBit <;> cases stickyBit <;> simp only [Represents] at h
    · rfl
    · rfl
    · -- a half goes down to the even neighbour
      have heven : n % 2 = 0 := (hn.high.resolve_left (by linarith)).1
      simp [ExtendedMantissa.roundedMantissa, ExtendedMantissa.accuracy, Accuracy.roundToNearestEven, heven]
    · linarith
  · push_cast at hlow
    cases roundBit <;> cases stickyBit <;> simp only [Represents] at h
    · linarith
    · linarith
    · -- a half goes up to the even neighbour
      have heven : (k + 1) % 2 = 0 := (hn.low.resolve_left (by push_cast; linarith)).1
      simp only [ExtendedMantissa.roundedMantissa, ExtendedMantissa.accuracy, Accuracy.roundToNearestEven]
      omega
    · rfl

/-! ### The numbers nearest to a double -/

/-- The mantissa and exponent of a finite double that is not zero: the mantissa has 53 bits unless the exponent is least. -/
structure Canonical (m : ℕ) (q : ℤ) : Prop where
  pos : 0 < m
  lt : m < 2 ^ 53
  least : -1074 ≤ q
  greatest : q ≤ 971
  normal : -1074 < q → 2 ^ 52 ≤ m

/-- Where the numbers nearest to `m * 2^q` begin, in quarters of `2^q`. The gap below is half as wide where `m` is the least
mantissa of its binade. -/
def lowEnd (m : ℕ) (q : ℤ) : ℕ := if m = 2 ^ 52 ∧ -1074 < q then 4 * m - 1 else 4 * m - 2

/-- A number lies nearest to `m * 2^q`, or as near to it as to another double and `m` is even. -/
structure Near (m : ℕ) (q : ℤ) (x : ℚ) : Prop where
  low : (lowEnd m q : ℚ) < 4 * (x / 2 ^ q) ∨ m % 2 = 0 ∧ (lowEnd m q : ℚ) = 4 * (x / 2 ^ q)
  high : 4 * (x / 2 ^ q) < 4 * m + 2 ∨ m % 2 = 0 ∧ 4 * (x / 2 ^ q) = 4 * m + 2

/-- The exponent to which a number is rounded: the number has no more than 53 bits there, and it has as many unless the
exponent is least. -/
structure Placed (t : ℤ) (x : ℚ) : Prop where
  least : -1074 ≤ t
  lt : x < 2 ^ (t + 53)
  le : t = -1074 ∨ 2 ^ (t + 52) ≤ x

variable {m : ℕ} {q t : ℤ} {x : ℚ}

theorem two_zpow_pos (t : ℤ) : (0 : ℚ) < 2 ^ t := zpow_pos (by norm_num) t

theorem zpow_eq_div {b : ℚ} (hb : b ≠ 0) (e : ℤ) : b ^ e = b ^ e.toNat / b ^ (-e).toNat := by
  rw [eq_div_iff (pow_ne_zero _ hb), ← zpow_natCast, ← zpow_natCast, ← zpow_add₀ hb]
  congr 1
  omega

theorem two_zpow_add (t : ℤ) (k : ℕ) : (2 : ℚ) ^ (t + k) = 2 ^ k * 2 ^ t := by
  rw [zpow_add₀ (by norm_num), zpow_natCast, mul_comm]

theorem Near.le (h : Near m q x) : x / 2 ^ q ≤ m + 1 / 2 := by
  rcases h.high with hlt | ⟨-, heq⟩ <;> linarith

theorem Near.ge (h : Near m q x) : (lowEnd m q : ℚ) / 4 ≤ x / 2 ^ q := by
  rcases h.low with hlt | ⟨-, heq⟩ <;> linarith

theorem lowEnd_cast (hm : 0 < m) :
    (lowEnd m q : ℚ) = if m = 2 ^ 52 ∧ -1074 < q then (4 * m - 1 : ℚ) else (4 * m - 2 : ℚ) := by
  rw [lowEnd]
  split <;> push_cast [show 1 ≤ 4 * m by omega, show 2 ≤ 4 * m by omega] <;> rfl

theorem scaled_lt (h : x < 2 ^ t) {k : ℕ} (hle : t ≤ q + k) : x / 2 ^ q < 2 ^ k := by
  rw [div_lt_iff₀ (two_zpow_pos q), ← two_zpow_add]
  exact h.trans_le (zpow_le_zpow_right₀ (by norm_num) hle)

theorem le_scaled (h : 2 ^ t ≤ x) {k : ℕ} (hle : q + k ≤ t) : 2 ^ k ≤ x / 2 ^ q := by
  rw [le_div_iff₀ (two_zpow_pos q), ← two_zpow_add]
  exact (zpow_le_zpow_right₀ (by norm_num) hle).trans h

/-- A number nearest to a double is rounded to its mantissa, or just below it to one that is carried over. -/
theorem Near.roundsTo (hc : Canonical m q) (h : Near m q x) (ht : Placed t x) :
    (t = q ∧ RoundsTo (x / 2 ^ t) m) ∨ (t + 1 = q ∧ m = 2 ^ 52 ∧ RoundsTo (x / 2 ^ t) (2 ^ 53)) := by
  have hm : (m : ℚ) + 1 ≤ 2 ^ 53 := by exact_mod_cast hc.lt
  have hge := h.ge
  have hlow := h.low
  rw [lowEnd_cast hc.pos] at hge hlow
  rcases lt_trichotomy t q with hlt | rfl | hgt
  · have hleast : -1074 < q := ht.least.trans_lt hlt
    have hz : x / 2 ^ q < 2 ^ 52 := scaled_lt ht.lt (by omega)
    have hm52 : m = 2 ^ 52 := by
      by_contra hne
      rw [if_neg fun hand => hne hand.1] at hge
      have hcast : (2 : ℚ) ^ 52 + 1 ≤ m := by exact_mod_cast Nat.lt_of_le_of_ne (hc.normal hleast) (Ne.symm hne)
      linarith
    rw [if_pos ⟨hm52, hleast⟩, hm52] at hge
    push_cast at hge
    obtain rfl : q = t + 1 := by
      by_contra hne
      have hz51 : x / 2 ^ q < 2 ^ 51 := scaled_lt ht.lt (by omega)
      linarith
    have htwice : x / 2 ^ t = 2 * (x / 2 ^ (t + 1)) := by
      rw [zpow_add_one₀ (by norm_num)]
      field_simp
    refine .inr ⟨rfl, hm52, ?_, .inl ?_⟩
    · rcases eq_or_lt_of_le hge with heq | hgt
      · exact .inr ⟨by norm_num, by rw [htwice, ← heq]; norm_num⟩
      · exact .inl (by rw [htwice]; push_cast; linarith)
    · rw [htwice]
      push_cast
      linarith
  · refine .inl ⟨rfl, ?_, ?_⟩
    · split at hlow
      · exact .inl (by rcases hlow with hlt | ⟨-, heq⟩ <;> linarith)
      · exact hlow.imp (fun hlt => by linarith) fun htie => ⟨htie.1, by linarith [htie.2]⟩
    · exact h.high.imp (fun hlt => by linarith) fun htie => ⟨htie.1, by linarith [htie.2]⟩
  · have hz : 2 ^ 53 ≤ x / 2 ^ q := le_scaled (ht.le.resolve_left (by have := hc.least; omega)) (by omega)
    have hle := h.le
    linarith

/-! ### Rounding -/

theorem targetExponent_eq (t : ℤ) : Format.binary64.targetExponent t = max (t - 53) (-1074) := rfl

theorem accuracy_mantissa (n : ℕ) (acc : Accuracy) : (ExtendedMantissa.ofMantissaAndAccuracy n acc).mantissa = n := by
  rcases acc with _ | _ | _ | _ <;> rfl

/-- A number is placed by the length of its mantissa, if the mantissa is long enough. -/
theorem placed_of_represents {n : ℕ} {e : ℤ} {acc : Accuracy}
    (h : Represents (.ofMantissaAndAccuracy n acc) (x / 2 ^ e))
    (he : e ≤ Format.binary64.targetExponent (totalExponent n e)) :
    Placed (Format.binary64.targetExponent (totalExponent n e)) x := by
  obtain ⟨hfloor, hceil⟩ := h.bounds
  rw [accuracy_mantissa] at hfloor hceil
  have hlt : x < 2 ^ totalExponent n e := by
    have hn : (n : ℚ) + 1 ≤ 2 ^ (n.log2 + 1) := by exact_mod_cast Nat.lt_log2_self
    rw [totalExponent, add_comm, ← Nat.cast_succ, two_zpow_add, ← div_lt_iff₀ (two_zpow_pos e)]
    exact hceil.trans_le hn
  rw [targetExponent_eq] at he ⊢
  refine ⟨le_max_right _ _, hlt.trans_le (zpow_le_zpow_right₀ (by norm_num) (by omega)), ?_⟩
  by_cases hleast : totalExponent n e - 53 ≤ -1074
  · exact .inl (max_eq_right hleast)
  · have hpos : n ≠ 0 := by
      rintro rfl
      simp only [totalExponent, Nat.log2_zero] at he hleast
      omega
    have hn : (2 : ℚ) ^ n.log2 ≤ n := by exact_mod_cast Nat.log2_self_le hpos
    refine .inr ?_
    rw [max_eq_left (by omega), show totalExponent n e - 53 + 52 = e + (n.log2 : ℕ) by rw [totalExponent]; ring, two_zpow_add,
      ← le_div_iff₀ (two_zpow_pos e)]
    exact hn.trans hfloor

theorem shiftToExponent_eq {n : ℕ} {e t : ℤ} (acc : Accuracy) (he : e ≤ t) :
    shiftToExponent n e acc t = (ExtendedMantissa.ofMantissaAndAccuracy n acc >>> (t - e).toNat, t) := by
  rw [shiftToExponent, Int.toNat_of_nonneg (by omega)]
  simp

/-- A mantissa of 53 bits stays as it is. -/
theorem shiftToTargetExponent_of_lt {n : ℕ} (hn : n < 2 ^ 53) (ht : -1074 ≤ t) :
    shiftToTargetExponent Format.binary64 n t .exact = (⟨n, false, false⟩, t) := by
  have hlog : n.log2 ≤ 52 := by
    rcases Nat.eq_zero_or_pos n with rfl | hpos
    · simp
    · exact Nat.le_of_lt_succ ((Nat.log2_lt hpos.ne').2 hn)
  have hshift : (Format.binary64.targetExponent (totalExponent n t) - t).toNat = 0 := by
    rw [targetExponent_eq, totalExponent]
    omega
  simp only [shiftToTargetExponent, shiftToExponent, hshift]
  simp [ExtendedMantissa.ofMantissaAndAccuracy, HShiftRight.hShiftRight, Nat.repeat]

/-- The mantissa that is one too great for 53 bits is carried over. -/
theorem shiftToTargetExponent_carry (ht : -1074 ≤ t) :
    shiftToTargetExponent Format.binary64 (2 ^ 53) t .exact = (⟨2 ^ 52, false, false⟩, t + 1) := by
  have htarget : Format.binary64.targetExponent (totalExponent (2 ^ 53) t) = t + 1 := by
    rw [targetExponent_eq, totalExponent, Nat.log2_two_pow]
    omega
  rw [shiftToTargetExponent, htarget, shiftToExponent_eq _ (by omega), show (t + 1 - t).toNat = 1 by omega]
  rfl

/-- A number nearest to a double is rounded to it. -/
theorem roundWithAccuracy_of_near {n : ℕ} {e : ℤ} {acc : Accuracy} (s : Sign)
    (hrep : Represents (.ofMantissaAndAccuracy n acc) (x / 2 ^ e))
    (he : e ≤ Format.binary64.targetExponent (totalExponent n e)) (hc : Canonical m q) (h : Near m q x) :
    roundWithAccuracy Format.binary64 s n e acc = .finite s m q hc.pos := by
  have hplaced := placed_of_represents hrep he
  rw [roundWithAccuracy, shiftToTargetExponent]
  generalize Format.binary64.targetExponent (totalExponent n e) = t at he hplaced ⊢
  have hshifted : Represents (ExtendedMantissa.ofMantissaAndAccuracy n acc >>> (t - e).toNat) (x / 2 ^ t) := by
    have hpow : (2 : ℚ) ^ t = 2 ^ e * 2 ^ (t - e).toNat := by
      rw [← zpow_natCast, ← zpow_add₀ (by norm_num), Int.toNat_of_nonneg (by omega), add_sub_cancel]
    rw [hpow, ← div_div]
    exact hrep.shiftRight _
  rw [shiftToExponent_eq acc he]
  dsimp only
  rcases h.roundsTo hc hplaced with ⟨rfl, hrounds⟩ | ⟨rfl, rfl, hrounds⟩
  · rw [hshifted.roundedMantissa hrounds, shiftToTargetExponent_of_lt hc.lt hplaced.least]
    exact dif_neg hc.pos.ne'
  · rw [hshifted.roundedMantissa hrounds, shiftToTargetExponent_carry hplaced.least]
    rfl

/-! ### Products and quotients -/

theorem mul_of_near {s₁ s₂ : Sign} {m₁ m₂ : ℕ} {e₁ e₂ : ℤ} (h₁ : 0 < m₁) (h₂ : 0 < m₂) (hlong : 2 ^ 52 ≤ m₁ * m₂)
    (hc : Canonical m q) (h : Near m q (m₁ * 2 ^ e₁ * (m₂ * 2 ^ e₂))) :
    UnpackedFloat.mul Format.binary64 (.finite s₁ m₁ e₁ h₁) (.finite s₂ m₂ e₂ h₂) = .finite (s₁ * s₂) m q hc.pos := by
  refine roundWithAccuracy_of_near _ ?_ ?_ hc h
  · have hp := two_zpow_pos
    have hquotient : (m₁ * 2 ^ e₁ * (m₂ * 2 ^ e₂) : ℚ) / 2 ^ (e₁ + e₂) = (m₁ * m₂ : ℕ) := by
      rw [zpow_add₀ (by norm_num), div_eq_iff (mul_pos (hp e₁) (hp e₂)).ne']
      push_cast
      ring
    exact hquotient
  · have hlog := (Nat.le_log2 (Nat.mul_pos h₁ h₂).ne').2 hlong
    rw [targetExponent_eq, totalExponent]
    omega

/-- A quotient and its remainder stand for the fraction. -/
theorem represents_fraction (n : ℕ) {d : ℕ} (hd : 0 < d) :
    Represents (.ofMantissaAndAccuracy (n / d) (accuracyOfFraction (n % d) d)) ((n : ℚ) / d) := by
  have hdq : (0 : ℚ) < d := by exact_mod_cast hd
  have hsplit : (n : ℚ) / d = (n / d : ℕ) + ((n % d : ℕ) : ℚ) / d := by
    rw [div_eq_iff hdq.ne', add_mul, div_mul_cancel₀ _ hdq.ne']
    exact_mod_cast (Nat.div_add_mod' n d).symm
  have hlt : ((n % d : ℕ) : ℚ) < d := by exact_mod_cast Nat.mod_lt n hd
  rw [hsplit]
  generalize n % d = r at hlt ⊢
  generalize n / d = k
  have hone : (r : ℚ) / d < 1 := (div_lt_one hdq).2 hlt
  rw [accuracyOfFraction]
  split
  next hr => simp [hr, ExtendedMantissa.ofMantissaAndAccuracy, Represents]
  next hr =>
    have hpos : 0 < (r : ℚ) / d := div_pos (by exact_mod_cast Nat.pos_of_ne_zero hr) hdq
    cases hcompare : compare (2 * r) d with
    | lt =>
      have hhalf : (r : ℚ) / d < 1 / 2 := by
        rw [div_lt_div_iff₀ hdq two_pos]
        exact_mod_cast (by linarith [Nat.compare_eq_lt.1 hcompare] : r * 2 < 1 * d)
      exact ⟨by linarith, by linarith⟩
    | eq =>
      have hhalf : (r : ℚ) / d = 1 / 2 := by
        rw [div_eq_div_iff hdq.ne' two_ne_zero]
        exact_mod_cast (by linarith [Nat.compare_eq_eq.1 hcompare] : r * 2 = 1 * d)
      exact congrArg _ hhalf
    | gt =>
      have hhalf : 1 / 2 < (r : ℚ) / d := by
        rw [div_lt_div_iff₀ two_pos hdq]
        exact_mod_cast (by linarith [Nat.compare_eq_gt.1 hcompare] : 1 * d < r * 2)
      exact ⟨by linarith, by linarith⟩

/-- A quotient is taken to an exponent that is not too great for it. -/
theorem divCore_exponent {n d : ℕ} {e : ℤ} (hn : 0 < n) (hd : 0 < d) {t : ℤ} (k : ℕ) (hk : e - t = k)
    (ht : t ≤ Format.binary64.targetExponent (n.log2 + 1 + e - (d.log2 + 1))) :
    t ≤ Format.binary64.targetExponent (totalExponent (n <<< k / d) t) := by
  rw [targetExponent_eq] at ht ⊢
  rw [totalExponent, Nat.shiftLeft_eq]
  by_cases hlog : d.log2 + 1 ≤ n.log2 + k
  · have hquotient : 2 ^ (n.log2 + k - (d.log2 + 1)) ≤ n * 2 ^ k / d := by
      rw [Nat.le_div_iff_mul_le hd]
      calc 2 ^ (n.log2 + k - (d.log2 + 1)) * d
          ≤ 2 ^ (n.log2 + k - (d.log2 + 1)) * 2 ^ (d.log2 + 1) := Nat.mul_le_mul_left _ Nat.lt_log2_self.le
        _ = 2 ^ n.log2 * 2 ^ k := by rw [← pow_add, ← pow_add, Nat.sub_add_cancel hlog]
        _ ≤ n * 2 ^ k := Nat.mul_le_mul_right _ (Nat.log2_self_le hn.ne')
    have hlog2 := (Nat.le_log2 (Nat.two_pow_pos _ |>.trans_le hquotient).ne').2 hquotient
    omega
  · omega

theorem div_of_near {s₁ s₂ : Sign} {m₁ m₂ : ℕ} {e₁ e₂ : ℤ} (h₁ : 0 < m₁) (h₂ : 0 < m₂)
    (hc : Canonical m q) (h : Near m q (m₁ * 2 ^ e₁ / (m₂ * 2 ^ e₂))) :
    UnpackedFloat.div Format.binary64 (.finite s₁ m₁ e₁ h₁) (.finite s₂ m₂ e₂ h₂) = .finite (s₁ / s₂) m q hc.pos := by
  change roundWithAccuracy Format.binary64 _ _ _ _ = _
  generalize ht : min (e₁ - e₂) (Format.binary64.targetExponent (totalExponent m₁ e₁ - totalExponent m₂ e₂)) = t
  have hk : e₁ - e₂ - t = (e₁ - e₂ - t).toNat := by omega
  generalize (e₁ - e₂ - t).toNat = k at hk ⊢
  refine roundWithAccuracy_of_near _ ?_ ?_ hc h
  · have hp := two_zpow_pos
    have hd : (0 : ℚ) < m₂ := by exact_mod_cast h₂
    have hquotient : (m₁ * 2 ^ e₁ / (m₂ * 2 ^ e₂) : ℚ) / 2 ^ t = (m₁ <<< k : ℕ) / m₂ := by
      rw [Nat.shiftLeft_eq, show e₁ = t + k + e₂ by omega, zpow_add₀ (by norm_num), two_zpow_add]
      have := (hp t).ne'
      have := (hp e₂).ne'
      field_simp
      push_cast
      ring
    rw [hquotient]
    exact represents_fraction _ h₂
  · refine divCore_exponent h₁ h₂ k hk ?_
    rw [show (m₁.log2 : ℤ) + 1 + (e₁ - e₂) - (m₂.log2 + 1) = totalExponent m₁ e₁ - totalExponent m₂ e₂ by
      rw [totalExponent, totalExponent]; ring]
    omega

/-- A decimal within bounds that lies nearest to a double is read as it. -/
theorem ofScientific_of_near {d : ℕ} {e : ℤ} (hd : 0 < d) (hlow : -2048 - d.log2 ≤ e) (hhigh : e ≤ 2048)
    (hc : Canonical m q) (h : Near m q (d * 10 ^ e)) :
    UnpackedFloat.ofScientific Format.binary64 d e = .finite .positive m q hc.pos := by
  rw [UnpackedFloat.ofScientific, dif_neg hd.ne', if_neg (by norm_num; omega), if_neg (by norm_num; omega)]
  have hten (k : ℕ) : 0 < 10 ^ k := Nat.pow_pos (by decide)
  split
  next he =>
    have hvalue : (d * 10 ^ e : ℚ) = (d <<< Format.binary64.mantissaBits : ℕ) * 2 ^ (-(53 : ℤ)) *
        ((10 ^ e.toNat : ℕ) * 2 ^ (0 : ℤ)) := by
      rw [Nat.shiftLeft_eq, show Format.binary64.mantissaBits = 53 from rfl]
      push_cast
      rw [← zpow_natCast (10 : ℚ), Int.toNat_of_nonneg he, zpow_neg, zpow_ofNat]
      ring
    refine mul_of_near _ (hten _) ?_ hc (hvalue ▸ h)
    calc 2 ^ 52 ≤ 2 ^ 53 := by norm_num
      _ ≤ d * 2 ^ 53 := Nat.le_mul_of_pos_left _ hd
      _ = d <<< Format.binary64.mantissaBits := (Nat.shiftLeft_eq d 53).symm
      _ ≤ d <<< Format.binary64.mantissaBits * 10 ^ e.toNat := Nat.le_mul_of_pos_right _ (hten _)
  next he =>
    have hvalue : (d * 10 ^ e : ℚ) = d * 2 ^ (0 : ℤ) / ((10 ^ (-e).toNat : ℕ) * 2 ^ (0 : ℤ)) := by
      push_cast
      rw [← zpow_natCast (10 : ℚ), Int.toNat_of_nonneg (by omega), zpow_neg]
      field_simp
    exact div_of_near _ (hten _) hc (hvalue ▸ h)

end Adjudication.Decimal
