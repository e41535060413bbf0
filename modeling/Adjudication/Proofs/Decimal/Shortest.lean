import Adjudication.Decimal.Shortest
import Adjudication.Proofs.Decimal.Nearest

/-!
The shortest decimal of a double lies nearest to it. A grid is accepted only for a point in the interval of the double, and
among the multiples of a power of ten that the double holds ten to the sixteenth times there always is one: the interval is
wider than a step of that grid.
-/

namespace Adjudication.Decimal

variable {m : ℕ} {q : ℤ}

/-! ### The interval -/

/-- A fraction in quarters of `2^q`, over the denominator of the interval. -/
theorem quarters_eq (q : ℤ) (n : ℕ) {d : ℕ} (hd : 0 < d) :
    4 * ((n : ℚ) / d / 2 ^ q) = (n * (4 * 2 ^ (-q).toNat) : ℕ) / ((2 ^ q.toNat * d : ℕ) : ℚ) := by
  have hdq : (d : ℚ) ≠ 0 := by exact_mod_cast hd.ne'
  rw [zpow_eq_div two_ne_zero]
  push_cast
  field_simp

section Interval

variable {n d : ℕ} (hd : 0 < d)

include hd

theorem lt_quarters_iff (k : ℕ) :
    (k : ℚ) < 4 * ((n : ℚ) / d / 2 ^ q) ↔ k * 2 ^ q.toNat * d < n * (4 * 2 ^ (-q).toNat) := by
  have hpos : (0 : ℚ) < (2 ^ q.toNat * d : ℕ) := by exact_mod_cast Nat.mul_pos (Nat.two_pow_pos _) hd
  rw [quarters_eq q n hd, lt_div_iff₀ hpos, mul_assoc]
  exact_mod_cast Iff.rfl

theorem quarters_lt_iff (k : ℕ) :
    4 * ((n : ℚ) / d / 2 ^ q) < k ↔ n * (4 * 2 ^ (-q).toNat) < k * 2 ^ q.toNat * d := by
  have hpos : (0 : ℚ) < (2 ^ q.toNat * d : ℕ) := by exact_mod_cast Nat.mul_pos (Nat.two_pow_pos _) hd
  rw [quarters_eq q n hd, div_lt_iff₀ hpos, mul_assoc]
  exact_mod_cast Iff.rfl

theorem near_of_contains (h : (Interval.ofBinary m q).contains n d = true) : Near m q (n / d) := by
  have hcast : ((4 * m + 2 : ℕ) : ℚ) = 4 * m + 2 := by push_cast; rfl
  rw [Interval.contains] at h
  split at h
  next hclosed =>
    have heven : m % 2 = 0 := beq_iff_eq.1 hclosed
    rw [Bool.and_eq_true, decide_eq_true_iff, decide_eq_true_iff] at h
    have hlow : (lowEnd m q : ℚ) ≤ 4 * ((n : ℚ) / d / 2 ^ q) :=
      not_lt.1 fun hlt => ((quarters_lt_iff hd _).1 hlt).not_ge h.1
    have hhigh : 4 * ((n : ℚ) / d / 2 ^ q) ≤ (4 * m + 2 : ℕ) := not_lt.1 fun hlt => ((lt_quarters_iff hd _).1 hlt).not_ge h.2
    rw [hcast] at hhigh
    exact ⟨hlow.lt_or_eq.imp_right fun heq => ⟨heven, heq⟩, hhigh.lt_or_eq.imp_right fun heq => ⟨heven, heq⟩⟩
  next =>
    rw [Bool.and_eq_true, decide_eq_true_iff, decide_eq_true_iff] at h
    exact ⟨.inl ((lt_quarters_iff hd _).2 h.1), .inl (hcast ▸ (quarters_lt_iff hd _).2 h.2)⟩

theorem contains_of_lt (hlow : (lowEnd m q : ℚ) < 4 * ((n : ℚ) / d / 2 ^ q)) (hhigh : 4 * ((n : ℚ) / d / 2 ^ q) < 4 * m + 2) :
    (Interval.ofBinary m q).contains n d = true := by
  have hcast : ((4 * m + 2 : ℕ) : ℚ) = 4 * m + 2 := by push_cast; rfl
  have hbelow := (lt_quarters_iff hd _).1 hlow
  have habove := (quarters_lt_iff hd _).1 (hcast ▸ hhigh)
  rw [Interval.contains]
  split <;> rw [Bool.and_eq_true, decide_eq_true_iff, decide_eq_true_iff]
  · exact ⟨hbelow.le, habove.le⟩
  · exact ⟨hbelow, habove⟩

end Interval

/-! ### Grids -/

/-- The number that a decimal denotes. -/
def Scientific.value (s : Scientific) : ℚ := s.digits * 10 ^ s.exponent

theorem grid_eq (k : ℕ) (e : ℤ) : ((k * Nat.pow 10 e.toNat : ℕ) : ℚ) / (Nat.pow 10 (-e).toNat : ℕ) = k * 10 ^ e := by
  rw [zpow_eq_div (show (10 : ℚ) ≠ 0 by norm_num), Nat.pow_eq, Nat.pow_eq, ← mul_div_assoc]
  push_cast
  rfl

/-- What a grid is accepted for lies in the interval. -/
theorem near_of_onGrid {e : ℤ} {s : Scientific} (h : (Interval.ofBinary m q).onGrid e = some s) :
    0 < s.digits ∧ Near m q s.value := by
  have hdown : 0 < Nat.pow 10 (-e).toNat := Nat.pow_pos (by decide)
  have hpoint {k : ℕ} (hk : (Interval.ofBinary m q).contains (k * Nat.pow 10 e.toNat) (Nat.pow 10 (-e).toNat) = true) :
      Near m q (Scientific.value ⟨k, e⟩) := by
    have hnear := near_of_contains hdown hk
    rwa [grid_eq] at hnear
  rw [Interval.onGrid] at h
  dsimp only at h
  split at h
  next hboth =>
    simp only [Bool.and_eq_true, decide_eq_true_iff] at hboth
    split at h
    · obtain rfl := Option.some.inj h
      exact ⟨hboth.1.1, hpoint hboth.1.2⟩
    · obtain rfl := Option.some.inj h
      exact ⟨Nat.succ_pos _, hpoint hboth.2⟩
  split at h
  next hbelow =>
    simp only [Bool.and_eq_true, decide_eq_true_iff] at hbelow
    obtain rfl := Option.some.inj h
    exact ⟨hbelow.1, hpoint hbelow.2⟩
  split at h
  next habove =>
    obtain rfl := Option.some.inj h
    exact ⟨Nat.succ_pos _, hpoint habove⟩
  · cases h

theorem ofBinary_value (m : ℕ) (q : ℤ) :
    ((Interval.ofBinary m q).value : ℚ) / (Interval.ofBinary m q).denominator = m * 2 ^ q := by
  rw [zpow_eq_div two_ne_zero]
  simp only [Interval.ofBinary, Nat.pow_eq]
  push_cast
  rw [← mul_div_assoc, mul_assoc, mul_div_mul_left _ _ (by norm_num)]

/-- The whole steps of a grid below a number. -/
theorem floor_bounds (m : ℕ) (q e : ℤ) {below : ℕ} (h : (Interval.ofBinary m q).value * Nat.pow 10 (-e).toNat /
      ((Interval.ofBinary m q).denominator * Nat.pow 10 e.toNat) = below) :
    (below : ℚ) * 10 ^ e ≤ m * 2 ^ q ∧ (m * 2 ^ q : ℚ) < (below + 1 : ℕ) * 10 ^ e := by
  have hunit : 0 < (Interval.ofBinary m q).denominator * Nat.pow 10 e.toNat :=
    Nat.mul_pos (Nat.mul_pos (by decide) (Nat.two_pow_pos _)) (Nat.pow_pos (by decide))
  have hquotient : (((Interval.ofBinary m q).value * Nat.pow 10 (-e).toNat : ℕ) : ℚ) /
      ((Interval.ofBinary m q).denominator * Nat.pow 10 e.toNat : ℕ) = m * 2 ^ q / 10 ^ e := by
    rw [← ofBinary_value, zpow_eq_div (show (10 : ℚ) ≠ 0 by norm_num) e, Nat.pow_eq, Nat.pow_eq]
    push_cast
    field_simp
  rw [← le_div_iff₀ (ten_zpow_pos e), ← div_lt_iff₀ (ten_zpow_pos e), ← hquotient, ← h,
    le_div_iff₀ (by exact_mod_cast hunit), div_lt_iff₀ (by exact_mod_cast hunit)]
  constructor
  · exact_mod_cast Nat.div_mul_le_self _ _
  · exact_mod_cast (Nat.div_lt_iff_lt_mul hunit).1 (Nat.lt_succ_self _)

/-- Quarters of a multiple of a power of ten. -/
theorem contains_grid {k : ℕ} {e : ℤ} (hlow : (lowEnd m q : ℚ) < 4 * (k * 10 ^ e / 2 ^ q))
    (hhigh : 4 * (k * 10 ^ e / 2 ^ q) < (4 * m + 2 : ℚ)) :
    (Interval.ofBinary m q).contains (k * Nat.pow 10 e.toNat) (Nat.pow 10 (-e).toNat) = true := by
  rw [← grid_eq] at hlow hhigh
  exact contains_of_lt (Nat.pow_pos (by decide)) hlow hhigh

/-- A grid that the number holds ten to the sixteenth times is accepted. -/
theorem onGrid_ne_none (hc : Canonical m q) {e : ℤ} (h : (10 : ℚ) ^ 16 * 10 ^ e ≤ m * 2 ^ q) :
    (Interval.ofBinary m q).onGrid e ≠ none := by
  intro hnone
  rw [Interval.onGrid] at hnone
  dsimp only at hnone
  generalize hfloor : (Interval.ofBinary m q).value * Nat.pow 10 (-e).toNat /
    ((Interval.ofBinary m q).denominator * Nat.pow 10 e.toNat) = below at hnone
  obtain ⟨hbelow, habove⟩ := floor_bounds m q e hfloor
  have hpos : 0 < below := by
    rcases Nat.eq_zero_or_pos below with rfl | hpos
    · have := ten_zpow_pos e
      norm_num at habove
      linarith
    · exact hpos
  split at hnone
  · split at hnone <;> cases hnone
  split at hnone
  · cases hnone
  next hout =>
  split at hnone
  · cases hnone
  next hover =>
  have hm : (m : ℚ) + 1 ≤ 2 ^ 53 := by exact_mod_cast hc.lt
  have hq := two_zpow_pos q
  -- all in quarters of `2^q`
  have hstep : 4 * ((10 : ℚ) ^ e / 2 ^ q) ≤ 4 * m / 10 ^ 16 := by
    rw [← mul_div_assoc, div_le_div_iff₀ hq (by norm_num)]
    linarith
  have hvalue : (m : ℚ) * 2 ^ q / 2 ^ q = m := mul_div_cancel_right₀ _ hq.ne'
  have hbelow' : below * 10 ^ e / 2 ^ q ≤ (m : ℚ) := hvalue ▸ div_le_div_of_nonneg_right hbelow hq.le
  have habove' : (m : ℚ) < (below + 1 : ℕ) * 10 ^ e / 2 ^ q := by
    have hdiv := div_lt_div_of_pos_right habove hq
    rwa [hvalue] at hdiv
  have hnext : ((below + 1 : ℕ) : ℚ) * 10 ^ e / 2 ^ q = below * 10 ^ e / 2 ^ q + 10 ^ e / 2 ^ q := by
    push_cast
    ring
  have hbelowOut : 4 * (below * 10 ^ e / 2 ^ q) ≤ (lowEnd m q : ℚ) := by
    refine not_lt.1 fun hlt => hout ?_
    rw [Bool.and_eq_true]
    exact ⟨decide_eq_true hpos, contains_grid hlt (by linarith)⟩
  have hlow := lowEnd_cast (q := q) hc.pos
  refine hover (contains_grid ?_ ?_)
  · rw [hlow]
    split <;> linarith
  · rw [hnext]
    rw [hlow] at hbelowOut
    split at hbelowOut
    next hleast =>
      have hcast : (m : ℚ) = 2 ^ 52 := by exact_mod_cast hleast.1
      linarith
    · linarith

/-! ### The search -/

/-- The exponent of the leading digit is not too great. -/
theorem leadingExponent_le {n d : ℕ} (hn : 0 < n) (hd : 0 < d) : (10 : ℚ) ^ leadingExponent n d ≤ n / d := by
  have hdq : (0 : ℚ) < d := by exact_mod_cast hd
  rw [leadingExponent]
  generalize hguess : (digitCount n : ℤ) - digitCount d = guess
  by_cases hreaches : (if 0 ≤ guess then decide (d * Nat.pow 10 guess.toNat ≤ n)
      else decide (d ≤ n * Nat.pow 10 (-guess).toNat)) = true
  · have hnat : 10 ^ guess.toNat * d ≤ n * 10 ^ (-guess).toNat := by
      split at hreaches
      next hguess =>
        rw [show (-guess).toNat = 0 by omega, mul_comm]
        simpa using hreaches
      next hguess =>
        rw [show guess.toNat = 0 by omega]
        simpa using hreaches
    rw [if_pos hreaches, zpow_eq_div (show (10 : ℚ) ≠ 0 by norm_num), div_le_div_iff₀ (by positivity) hdq]
    exact_mod_cast hnat
  · rw [if_neg hreaches]
    subst hguess
    have hlow : (10 : ℚ) ^ (digitCount n - 1) ≤ n := by exact_mod_cast pow_digitCount_le hn
    have hhigh : (d : ℚ) ≤ 10 ^ digitCount d := by exact_mod_cast (lt_pow_digitCount d).le
    rw [le_div_iff₀ hdq]
    calc (10 : ℚ) ^ ((digitCount n : ℤ) - digitCount d - 1) * d
        ≤ 10 ^ ((digitCount n : ℤ) - digitCount d - 1) * 10 ^ digitCount d :=
          mul_le_mul_of_nonneg_left hhigh (ten_zpow_pos _).le
      _ = 10 ^ (digitCount n - 1) := by
        rw [← zpow_natCast, ← zpow_natCast, ← zpow_add₀ (by norm_num)]
        congr 1
        have := digitCount_pos n
        omega
      _ ≤ n := hlow

/-- The search ends at a decimal in the interval, at the latest with seventeen digits. -/
theorem near_of_search (hc : Canonical m q) {lead : ℤ} (hlead : (10 : ℚ) ^ lead ≤ m * 2 ^ q) {fuel digits : ℕ}
    (hdigits : digits ≤ 17) (hfuel : 17 < fuel + digits) :
    0 < ((Interval.ofBinary m q).search lead fuel digits).digits ∧
      Near m q ((Interval.ofBinary m q).search lead fuel digits).value := by
  induction fuel generalizing digits with
  | zero => omega
  | succ fuel ih =>
    rw [Interval.search]
    split
    next s hs => exact near_of_onGrid hs
    next hnone =>
      refine ih ?_ (by omega)
      rcases Nat.lt_or_eq_of_le hdigits with hlt | rfl
      · exact hlt
      · refine absurd hnone (onGrid_ne_none hc ?_)
        rw [← zpow_ofNat, ← zpow_add₀ (by norm_num)]
        exact le_of_eq_of_le (congrArg _ (by omega)) hlead

theorem stripZeros_spec (fuel : ℕ) {s : Scientific} (h : 0 < s.digits) :
    0 < (s.stripZeros fuel).digits ∧ (s.stripZeros fuel).value = s.value := by
  induction fuel generalizing s with
  | zero => exact ⟨h, rfl⟩
  | succ fuel ih =>
    rw [Scientific.stripZeros]
    split
    next hten =>
      obtain ⟨hpos, hvalue⟩ := ih (s := ⟨s.digits / 10, s.exponent + 1⟩) (by dsimp only; omega)
      refine ⟨hpos, hvalue.trans ?_⟩
      have hsplit : (s.digits : ℚ) = (s.digits / 10 : ℕ) * 10 := by
        exact_mod_cast (Nat.div_mul_cancel (Nat.dvd_of_mod_eq_zero hten.2)).symm
      rw [Scientific.value, Scientific.value, zpow_add_one₀ (by norm_num), hsplit]
      ring
    · exact ⟨h, rfl⟩

/-- The shortest decimal of a double that is not zero lies nearest to it. -/
theorem shortest_near (hc : Canonical m q) : 0 < (shortest m q).digits ∧ Near m q (shortest m q).value := by
  have hlead : (10 : ℚ) ^ leadingExponent (Interval.ofBinary m q).value (Interval.ofBinary m q).denominator ≤ m * 2 ^ q := by
    rw [← ofBinary_value]
    exact leadingExponent_le (Nat.mul_pos (Nat.mul_pos (by decide) hc.pos) (Nat.two_pow_pos _))
      (Nat.mul_pos (by decide) (Nat.two_pow_pos _))
  obtain ⟨hpos, hnear⟩ := near_of_search hc hlead (by norm_num : 1 ≤ 17) (by norm_num : 17 < 18 + 1)
  obtain ⟨hpos', hvalue⟩ := stripZeros_spec 400 hpos
  rw [shortest, if_neg hc.pos.ne']
  exact ⟨hpos', hvalue ▸ hnear⟩

end Adjudication.Decimal
