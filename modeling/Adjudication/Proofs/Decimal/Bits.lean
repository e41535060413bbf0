import Adjudication.Proofs.Decimal.Rounding

/-!
Doubles by their bits. The class of a double tells what its bits are unpacked to, and they are packed again to the same double;
of what is canonical there are bits that it is unpacked from.
-/

namespace Adjudication.Decimal

open Float.Model Float.Model.UnpackedFloat

def signOf (negative : Bool) : Sign := if negative then .negative else .positive

/-! ### The parts of the bits -/

theorem unpackMantissa_toNat (v : BitVec Format.binary64.numBits) : (unpackMantissa v).toNat = v.toNat % 2 ^ 52 := by
  rw [unpackMantissa_def, BitVec.extractLsb'_toNat, Nat.shiftRight_zero]

theorem unpackExponent_toNat (v : BitVec Format.binary64.numBits) :
    (unpackExponent v).toNat = v.toNat / 2 ^ 52 % 2048 := by
  rw [unpackExponent_def, BitVec.extractLsb'_toNat, Nat.shiftRight_eq_div_pow]
  rfl

theorem ofBitVec_unpackSign (v : BitVec Format.binary64.numBits) :
    Sign.ofBitVec (unpackSign v) = signOf (v.toNat / 2 ^ 63 == 1) := by
  have hbit : (unpackSign v).toNat = v.toNat / 2 ^ 63 := by
    have hlt : v.toNat / 2 ^ 63 < 2 := Nat.div_lt_of_lt_mul v.isLt
    rw [unpackSign_def, BitVec.extractLsb'_toNat, Nat.shiftRight_eq_div_pow]
    exact Nat.mod_eq_of_lt hlt
  rw [← hbit]
  rcases BitVec.eq_zero_or_eq_one (unpackSign v) with hu | hu <;> rw [hu] <;> rfl

theorem toNat_implicit (v : BitVec 52) : (1#1 ++ v).toNat = 2 ^ 52 + v.toNat := by
  rw [BitVec.toNat_append, ← Nat.shiftLeft_add_eq_or_of_lt v.isLt]
  rfl

variable {v : BitVec Format.binary64.numBits}

theorem unpackExponent_eq_iff {e : BitVec Format.binary64.exponentBits} :
    unpackExponent v = e ↔ v.toNat / 2 ^ 52 % 2048 = e.toNat := by
  rw [← BitVec.toNat_inj, unpackExponent_toNat]

theorem unpackMantissa_eq_zero_iff :
    unpackMantissa v = BitVec.ofNat Format.binary64.mantissaBitsWithoutImplicit 0 ↔ v.toNat % 2 ^ 52 = 0 := by
  rw [← BitVec.toNat_inj, unpackMantissa_toNat]
  rfl

theorem unpackExponent_ne (h : v.toNat / 2 ^ 52 % 2048 ≠ 2047) :
    unpackExponent v ≠ -BitVec.ofNat Format.binary64.exponentBits 1 :=
  mt unpackExponent_eq_iff.1 h

theorem unpack_zero (he : v.toNat / 2 ^ 52 % 2048 = 0) (hm : v.toNat % 2 ^ 52 = 0) :
    UnpackedFloat.unpack Format.binary64 v = .zero (signOf (v.toNat / 2 ^ 63 == 1)) := by
  rw [UnpackedFloat.unpack.eq_def]
  dsimp only
  rw [if_neg (unpackExponent_ne (by omega)), if_pos (unpackExponent_eq_iff.2 he), dif_pos (unpackMantissa_eq_zero_iff.2 hm),
    ofBitVec_unpackSign]

theorem unpack_subnormal (he : v.toNat / 2 ^ 52 % 2048 = 0) (hm : 0 < v.toNat % 2 ^ 52) :
    UnpackedFloat.unpack Format.binary64 v =
      .finite (signOf (v.toNat / 2 ^ 63 == 1)) (v.toNat % 2 ^ 52) (-1074) hm := by
  rw [UnpackedFloat.unpack.eq_def]
  dsimp only
  rw [if_neg (unpackExponent_ne (by omega)), if_pos (unpackExponent_eq_iff.2 he),
    dif_neg (mt unpackMantissa_eq_zero_iff.1 hm.ne')]
  simp only [finite.injEq, ofBitVec_unpackSign, unpackMantissa_toNat, unpackExponent_toNat, he, true_and]
  rfl

theorem unpack_normal (hleast : v.toNat / 2 ^ 52 % 2048 ≠ 0) (hgreatest : v.toNat / 2 ^ 52 % 2048 ≠ 2047) :
    UnpackedFloat.unpack Format.binary64 v = .finite (signOf (v.toNat / 2 ^ 63 == 1)) (2 ^ 52 + v.toNat % 2 ^ 52)
      ((v.toNat / 2 ^ 52 % 2048 : ℕ) - 1075) (Nat.add_pos_left (by norm_num) _) := by
  rw [UnpackedFloat.unpack.eq_def]
  dsimp only
  rw [if_neg (unpackExponent_ne hgreatest), if_neg (mt unpackExponent_eq_iff.1 hleast)]
  simp only [finite.injEq, ofBitVec_unpackSign, toNat_implicit, unpackMantissa_toNat, unpackExponent_toNat, true_and]
  rfl

theorem unpack_infinite (he : v.toNat / 2 ^ 52 % 2048 = 2047) (hm : v.toNat % 2 ^ 52 = 0) :
    UnpackedFloat.unpack Format.binary64 v = .infinity (signOf (v.toNat / 2 ^ 63 == 1)) := by
  rw [UnpackedFloat.unpack.eq_def]
  dsimp only
  rw [if_pos (unpackExponent_eq_iff.2 he), if_pos (unpackMantissa_eq_zero_iff.2 hm), ofBitVec_unpackSign]

theorem unpack_notANumber (he : v.toNat / 2 ^ 52 % 2048 = 2047) (hm : v.toNat % 2 ^ 52 ≠ 0) :
    UnpackedFloat.unpack Format.binary64 v = .notANumber := by
  rw [UnpackedFloat.unpack.eq_def]
  dsimp only
  rw [if_pos (unpackExponent_eq_iff.2 he), if_neg (mt unpackMantissa_eq_zero_iff.1 hm)]

/-! ### Classes -/

/-- What the bits of a double of a class are unpacked to. -/
inductive Unpacks : Kind → UnpackedFloat → Prop
  | notANumber : Unpacks .notANumber .notANumber
  | infinite (negative : Bool) : Unpacks (.infinite negative) (.infinity (signOf negative))
  | zero (negative : Bool) (q : ℤ) : Unpacks (.finite ⟨negative, 0, q⟩) (.zero (signOf negative))
  | finite (negative : Bool) {m : ℕ} {q : ℤ} (hc : Canonical m q) :
    Unpacks (.finite ⟨negative, m, q⟩) (.finite (signOf negative) m q hc.pos)

theorem unpacks_classify (x : Float) : Unpacks (classify x) x.toModel.unpack := by
  rw [classify]
  simp only [beq_iff_eq, Nat.pow_eq, show x.toBits.toNat = x.toModel.toBits.toBitVec.toNat from rfl]
  rw [Float.Model.unpack]
  generalize x.toModel.toBits.toBitVec = v
  have hmantissa : v.toNat % 2 ^ 52 < 2 ^ 52 := Nat.mod_lt _ (by norm_num)
  have hbiased : v.toNat / 2 ^ 52 % 2048 < 2048 := Nat.mod_lt _ (by norm_num)
  split
  next hgreatest =>
    split
    next hzero => exact unpack_infinite hgreatest hzero ▸ .infinite _
    next hpos => exact unpack_notANumber hgreatest hpos ▸ .notANumber
  next hgreatest =>
    split
    next hleast =>
      rcases Nat.eq_zero_or_pos (v.toNat % 2 ^ 52) with hzero | hpos
      · rw [unpack_zero hleast hzero, hzero]
        exact .zero _ _
      · rw [unpack_subnormal hleast hpos]
        exact .finite _ ⟨hpos, by omega, le_rfl, by norm_num, fun hlt => absurd hlt (lt_irrefl _)⟩
    next hleast =>
      rw [unpack_normal hleast hgreatest]
      exact .finite _ ⟨by omega, by omega, by omega, by omega, fun _ => by omega⟩

/-- A finite double is zero or has a canonical mantissa and exponent, which are those of its class. -/
theorem unpack_of_classify {x : Float} {b : Binary} (h : classify x = .finite b) :
    (b.mantissa = 0 ∧ x.toModel.unpack = .zero (signOf b.negative)) ∨
      ∃ hc : Canonical b.mantissa b.exponent, x.toModel.unpack = .finite (signOf b.negative) b.mantissa b.exponent hc.pos := by
  have hunpacks := unpacks_classify x
  rw [h] at hunpacks
  generalize x.toModel.unpack = u at hunpacks ⊢
  cases hunpacks with
  | zero negative q => exact .inl ⟨rfl, rfl⟩
  | finite negative hc => exact .inr ⟨hc, rfl⟩

/-- A double between zero and one is finite. -/
theorem isFinite_of_bounds {x : Float} (hzero : 0.0 ≤ x) (hone : x ≤ 1.0) : isFinite x = true := by
  have hzero : (Float.toModel 0.0).unpack.le x.toModel.unpack = true := of_decide_eq_true hzero
  have hone : x.toModel.unpack.le (Float.toModel 1.0).unpack = true := of_decide_eq_true hone
  have hleft := unpacks_classify 0.0
  have hright := unpacks_classify 1.0
  have hunpacks := unpacks_classify x
  rw [show classify 0.0 = .finite ⟨false, 0, -1074⟩ by decide +kernel] at hleft
  rw [show classify 1.0 = .finite ⟨false, 2 ^ 52, -52⟩ by decide +kernel] at hright
  rw [isFinite]
  generalize (Float.toModel 0.0).unpack = left at hzero hleft
  generalize (Float.toModel 1.0).unpack = right at hone hright
  generalize x.toModel.unpack = u at hzero hone hunpacks
  generalize classify x = kind at hunpacks ⊢
  cases hunpacks with
  | notANumber => cases hone
  | infinite negative =>
    cases hright
    cases hleft with
    | zero =>
      cases negative with
      | false => cases hone
      | true => cases hzero
    | finite _ hc => exact absurd hc.pos (lt_irrefl 0)
  | zero => rfl
  | finite => rfl

/-! ### Packing -/

/-- A double is packed from what its bits are unpacked to. -/
theorem ofModel_pack_unpack (x : Float) : (⟨Float.Model.pack x.toModel.unpack⟩ : Float) = x := by
  obtain ⟨⟨⟨v⟩, hvalid⟩⟩ := x
  simp only [Float.Model.pack, Float.Model.unpack, pack_unpack_of_valid hvalid]

theorem valid_of_exponent_ne {v : BitVec 64} (h : v.toNat / 2 ^ 52 % 2048 ≠ 2047) : Format.binary64.Valid v :=
  ⟨fun hexponent => absurd hexponent (unpackExponent_ne h)⟩

/-- A canonical mantissa and exponent have bits. -/
theorem exists_bits {m : ℕ} {q : ℤ} (hc : Canonical m q) (s : Sign) :
    ∃ v : BitVec 64, Format.binary64.Valid v ∧ UnpackedFloat.unpack Format.binary64 v = .finite s m q hc.pos := by
  obtain ⟨sign, hsign, rfl⟩ : ∃ sign < 2, signOf (sign == 1) = s := by
    cases s
    · exact ⟨1, by norm_num, rfl⟩
    · exact ⟨0, by norm_num, rfl⟩
  have hlt := hc.lt
  have hleast := hc.least
  have hgreatest := hc.greatest
  have hfields : ∀ biased < 2047, ∀ fraction < 2 ^ 52, ∃ v : BitVec 64, v.toNat / 2 ^ 63 = sign ∧
      v.toNat / 2 ^ 52 % 2048 = biased ∧ v.toNat % 2 ^ 52 = fraction := by
    intro biased hbiased fraction hfraction
    have hbits : (BitVec.ofNat 64 (sign * 2 ^ 63 + biased * 2 ^ 52 + fraction)).toNat =
        sign * 2 ^ 63 + biased * 2 ^ 52 + fraction := by
      rw [BitVec.toNat_ofNat]
      exact Nat.mod_eq_of_lt (by omega)
    refine ⟨.ofNat 64 (sign * 2 ^ 63 + biased * 2 ^ 52 + fraction), ?_, ?_, ?_⟩ <;> rw [hbits] <;> omega
  by_cases hm : m < 2 ^ 52
  · obtain rfl : q = -1074 := by
      by_contra hne
      exact absurd (hc.normal (by omega)) (by omega)
    obtain ⟨v, hsign, hbiased, hfraction⟩ := hfields 0 (by norm_num) m hm
    refine ⟨v, valid_of_exponent_ne (by omega), ?_⟩
    simp only [unpack_subnormal hbiased (hfraction ▸ hc.pos), hsign, hfraction]
  · obtain ⟨v, hsign, hbiased, hfraction⟩ := hfields (q + 1075).toNat (by omega) (m - 2 ^ 52) (by omega)
    refine ⟨v, valid_of_exponent_ne (by omega), ?_⟩
    rw [unpack_normal (by omega) (by omega)]
    simp only [finite.injEq, hsign, hbiased, hfraction, true_and]
    omega

theorem unpack_pack {m : ℕ} {q : ℤ} (hc : Canonical m q) (s : Sign) :
    (Float.Model.pack (.finite s m q hc.pos)).unpack = .finite s m q hc.pos := by
  obtain ⟨v, hvalid, hunpack⟩ := exists_bits hc s
  rw [← hunpack]
  change UnpackedFloat.unpack _ (UnpackedFloat.pack _ (UnpackedFloat.unpack Format.binary64 v)) = _
  rw [pack_unpack_of_valid hvalid]

end Adjudication.Decimal
