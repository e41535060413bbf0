import Adjudication.Proofs.Decimal.Bits

/-!
Mantissas and exponents as they are rounded. What is not zero, at an exponent that is not below the least one, is rounded to a
mantissa of 53 bits, or to a shorter one at the least exponent; and that is packed into the bits of a double, or of infinity.
-/

namespace Adjudication.Decimal

open Float.Model Float.Model.UnpackedFloat

variable {m n : ℕ} {q e : ℤ}

/-- A mantissa and an exponent as they are rounded. Canonical ones are those whose exponent is not too great. -/
structure Rounded (m : ℕ) (q : ℤ) : Prop where
  pos : 0 < m
  lt : m < 2 ^ 53
  least : -1074 ≤ q
  normal : -1074 < q → 2 ^ 52 ≤ m

theorem Rounded.canonical (h : Rounded m q) (hgreatest : q ≤ 971) : Canonical m q :=
  ⟨h.pos, h.lt, h.least, hgreatest, h.normal⟩

/-! ### Rounding -/

theorem roundedMantissa_bounds (em : ExtendedMantissa) :
    em.mantissa ≤ em.roundedMantissa ∧ em.roundedMantissa ≤ em.mantissa + 1 := by
  rw [ExtendedMantissa.roundedMantissa]
  generalize em.accuracy = acc
  rcases acc with _ | _ | _ | _ <;> simp only [Accuracy.roundToNearestEven] <;> omega

theorem mantissa_shiftRight (em : ExtendedMantissa) (k : ℕ) : (em >>> k).mantissa = em.mantissa / 2 ^ k := by
  change (Nat.repeat ExtendedMantissa.shiftRightOne k em).mantissa = _
  induction k with
  | zero => simp [Nat.repeat]
  | succ k ih => rw [Nat.repeat, ExtendedMantissa.shiftRightOne, ih, Nat.div_div_eq_div_mul, pow_succ]

/-- A mantissa is cut to 53 bits, or to those that the least exponent leaves it. -/
theorem rounded_cut (hn : 0 < n) (he : -1074 ≤ e) (htarget : e ≤ Format.binary64.targetExponent (totalExponent n e)) :
    Rounded (n / 2 ^ (Format.binary64.targetExponent (totalExponent n e) - e).toNat)
      (Format.binary64.targetExponent (totalExponent n e)) := by
  have hlow := Nat.log2_self_le hn.ne'
  have hhigh : n < 2 ^ (n.log2 + 1) := Nat.lt_log2_self
  rw [targetExponent_eq, totalExponent] at htarget ⊢
  by_cases hlong : 52 ≤ n.log2
  · obtain ⟨k, hk⟩ := Nat.exists_eq_add_of_le hlong
    rw [show (max ((n.log2 : ℤ) + 1 + e - 53) (-1074) - e).toNat = k by omega]
    rw [hk] at hlow hhigh
    have hcut : 2 ^ 52 ≤ n / 2 ^ k := (Nat.le_div_iff_mul_le (Nat.two_pow_pos k)).2 (by rwa [← pow_add])
    refine ⟨lt_of_lt_of_le (by norm_num) hcut, ?_, le_max_right _ _, fun _ => hcut⟩
    rw [Nat.div_lt_iff_lt_mul (Nat.two_pow_pos k), ← pow_add]
    rwa [show 52 + k + 1 = 53 + k by omega] at hhigh
  · have hleast : e = -1074 := by omega
    rw [show (max ((n.log2 : ℤ) + 1 + e - 53) (-1074) - e).toNat = 0 by omega, pow_zero, Nat.div_one]
    exact ⟨hn, hhigh.trans_le (Nat.pow_le_pow_right (by norm_num) (by omega)), le_max_right _ _, fun hlt => by omega⟩

/-- A mantissa of 53 bits that is rounded up may be carried over to the next exponent. -/
theorem roundWithAccuracy_rounded (s : Sign) (hn : 0 < n) (he : -1074 ≤ e) {t : ℤ}
    (ht : Format.binary64.targetExponent (totalExponent n e) = t) (hle : e ≤ t) :
    ∃ (m : ℕ) (q : ℤ) (h : Rounded m q), roundWithAccuracy Format.binary64 s n e .exact = .finite s m q h.pos ∧
      (t < q ∨ t = q ∧ n / 2 ^ (t - e).toNat ≤ m) := by
  have hcut := rounded_cut hn he (ht.symm ▸ hle)
  rw [roundWithAccuracy, shiftToTargetExponent, ht, shiftToExponent_eq _ hle]
  rw [ht] at hcut
  have hmantissa : (ExtendedMantissa.ofMantissaAndAccuracy n .exact >>> (t - e).toNat).mantissa = n / 2 ^ (t - e).toNat :=
    mantissa_shiftRight _ _
  generalize ExtendedMantissa.ofMantissaAndAccuracy n .exact >>> (t - e).toNat = em at hmantissa
  rw [← hmantissa] at hcut ⊢
  obtain ⟨hdown, hup⟩ := roundedMantissa_bounds em
  dsimp only
  generalize em.roundedMantissa = r at hdown hup
  have hpos := hcut.pos
  have hlt := hcut.lt
  rcases Nat.lt_or_ge r (2 ^ 53) with hshort | hcarry
  · have hr : Rounded r t := ⟨by omega, hshort, hcut.least, fun h => (hcut.normal h).trans hdown⟩
    rw [shiftToTargetExponent_of_lt hshort hcut.least]
    exact ⟨r, t, hr, dif_neg hr.pos.ne', .inr ⟨rfl, hdown⟩⟩
  · obtain rfl : r = 2 ^ 53 := by omega
    have hleast := hcut.least
    have hr : Rounded (2 ^ 52) (t + 1) := ⟨by norm_num, by norm_num, by omega, fun _ => le_rfl⟩
    rw [shiftToTargetExponent_carry hcut.least]
    exact ⟨2 ^ 52, t + 1, hr, rfl, .inl (by omega)⟩

theorem log2_shiftLeft (hn : 0 < n) (k : ℕ) : (n <<< k).log2 = n.log2 + k := by
  rw [Nat.shiftLeft_eq, Nat.log2_eq_iff (Nat.mul_pos hn (Nat.two_pow_pos k)).ne', pow_add, Nat.add_right_comm, pow_add]
  exact ⟨Nat.mul_le_mul_right _ (Nat.log2_self_le hn.ne'), Nat.mul_lt_mul_of_pos_right Nat.lt_log2_self (Nat.two_pow_pos k)⟩

/-- What is not zero is rounded to the exponent at which it has 53 bits, or to the least one, or just above. -/
theorem round_rounded (s : Sign) (hn : 0 < n) (he : -1074 ≤ e) {t : ℤ}
    (ht : Format.binary64.targetExponent (totalExponent n e) = t) :
    ∃ (m : ℕ) (q : ℤ) (h : Rounded m q), UnpackedFloat.round Format.binary64 s n e = .finite s m q h.pos ∧
      (t < q ∨ t = q ∧ n <<< (e - t).toNat / 2 ^ (t - e).toNat ≤ m) := by
  rw [UnpackedFloat.round, decreaseExponent, ht]
  dsimp only
  have hsame : totalExponent (n <<< (e - t).toNat) (e - ((e - t).toNat : ℕ)) = totalExponent n e := by
    rw [totalExponent, totalExponent, log2_shiftLeft hn]
    push_cast
    ring
  have hleast : -1074 ≤ t := by
    rw [← ht, targetExponent_eq]
    exact le_max_right _ _
  have hpos : 0 < n <<< (e - t).toNat := by
    rw [Nat.shiftLeft_eq]
    exact Nat.mul_pos hn (Nat.two_pow_pos _)
  obtain ⟨m, q, h, hround, hm⟩ := roundWithAccuracy_rounded s hpos (by omega) (hsame.symm ▸ ht) (by omega)
  refine ⟨m, q, h, hround, ?_⟩
  rwa [show (t - (e - ((e - t).toNat : ℕ))).toNat = (t - e).toNat by omega] at hm

/-! ### Packing -/

theorem unpack_pack_infinity (s : Sign) : (Float.Model.pack (.infinity s)).unpack = .infinity s := by cases s <;> rfl

/-- What is packed of a mantissa and an exponent is infinity if the exponent is too great. -/
theorem unpack_pack_rounded (s : Sign) (h : Rounded m q) :
    (∃ hc : Canonical m q, (Float.Model.pack (.finite s m q h.pos)).unpack = .finite s m q hc.pos) ∨
      (Float.Model.pack (.finite s m q h.pos)).unpack = .infinity s := by
  by_cases hgreatest : q ≤ 971
  · exact .inl ⟨h.canonical hgreatest, unpack_pack (h.canonical hgreatest) s⟩
  · have hbiased : 2 ^ Format.binary64.exponentBits ≤
        (q + Format.binary64.exponentBias + Format.binary64.mantissaBitsWithoutImplicit).toNat + 1 := by
      rw [show Format.binary64.exponentBits = 11 from rfl, show (Format.binary64.exponentBias : ℤ) = 1023 from rfl,
        show Format.binary64.mantissaBitsWithoutImplicit = 52 from rfl]
      omega
    have hbits : UnpackedFloat.pack Format.binary64 (.finite s m q h.pos) =
        UnpackedFloat.pack Format.binary64 (.infinity s) := by
      rw [UnpackedFloat.pack, UnpackedFloat.pack]
      exact if_pos hbiased
    have hpack : Float.Model.pack (.finite s m q h.pos) = Float.Model.pack (.infinity s) := by
      simp only [Float.Model.pack, hbits]
    exact .inr (hpack ▸ unpack_pack_infinity s)

end Adjudication.Decimal
