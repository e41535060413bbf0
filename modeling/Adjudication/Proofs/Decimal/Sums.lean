import Adjudication.Proofs.Decimal.Differences

/-!
Sums that go up. What is at least the unit of a double's last place takes it up to a greater one, however the sum is rounded; and
the way from a double to any greater one is as long as that. As the doubles can be numbered in their order, what goes up again and
again comes to an end.
-/

namespace Adjudication.Decimal

open Float.Model Float.Model.UnpackedFloat

variable {m n k : ℕ} {q e : ℤ} {u : UnpackedFloat}

/-! ### Rounding from below -/

/-- What is no less than a mantissa of 53 bits at an exponent, or than one at the least exponent, is not rounded below it. -/
theorem le_round (s : Sign) (hn : 0 < n) (he : -1074 ≤ e) (hq : -1074 ≤ q) (hlong : -1074 < q → 2 ^ 52 ≤ k)
    (hle : k * 2 ^ (q - e).toNat ≤ n * 2 ^ (e - q).toNat) :
    ∃ (m : ℕ) (q' : ℤ) (h : Rounded m q'), UnpackedFloat.round Format.binary64 s n e = .finite s m q' h.pos ∧
      (q < q' ∨ q = q' ∧ k ≤ m) := by
  obtain ⟨m, q', h, hround, hm⟩ := round_rounded s hn he rfl
  refine ⟨m, q', h, hround, ?_⟩
  rw [targetExponent_eq, totalExponent] at hm
  rcases lt_trichotomy (max ((n.log2 : ℤ) + 1 + e - 53) (-1074)) q with hlt | heq | hgt
  · exfalso
    have hbits : n < 2 ^ (n.log2 + 1) := Nat.lt_log2_self
    have hless : 2 ^ (52 + (q - e).toNat) < 2 ^ (n.log2 + 1 + (e - q).toNat) := by
      rw [pow_add, pow_add]
      calc 2 ^ 52 * 2 ^ (q - e).toNat ≤ k * 2 ^ (q - e).toNat := Nat.mul_le_mul_right _ (hlong (by omega))
        _ ≤ n * 2 ^ (e - q).toNat := hle
        _ < 2 ^ (n.log2 + 1) * 2 ^ (e - q).toNat := Nat.mul_lt_mul_of_pos_right hbits (Nat.two_pow_pos _)
    have hexponents := (Nat.pow_lt_pow_iff_right (by norm_num)).1 hless
    omega
  · rw [heq] at hm
    rcases hm with hless | ⟨hsame, hcut⟩
    · exact .inl hless
    · refine .inr ⟨hsame, le_trans ?_ hcut⟩
      rwa [Nat.le_div_iff_mul_le (Nat.two_pow_pos _), Nat.shiftLeft_eq]
  · exact .inl (by omega)

/-- A positive double that is at least a power of two, or infinity. -/
inductive Reaches (q : ℤ) : UnpackedFloat → Prop
  | finite {m : ℕ} {q' : ℤ} (hc : Canonical m q') (hle : 2 ^ (q - q').toNat ≤ m * 2 ^ (q' - q).toNat) :
    Reaches q (.finite .positive m q' hc.pos)
  | infinite : Reaches q (.infinity .positive)

theorem reaches_round (hn : 0 < n) (he : -1074 ≤ e) :
    Reaches e (Float.Model.pack (UnpackedFloat.round Format.binary64 .positive n e)).unpack := by
  obtain ⟨m, q, h, hround, hm⟩ := round_rounded .positive hn he rfl
  rw [hround]
  rcases unpack_pack_rounded .positive h with ⟨hc, hpack⟩ | hpack <;> rw [hpack]
  · refine .finite hc ?_
    rw [targetExponent_eq, totalExponent] at hm
    rcases le_or_gt e q with hle | hlt
    · rw [show (e - q).toNat = 0 by omega, pow_zero]
      exact Nat.mul_pos h.pos (Nat.two_pow_pos _)
    · rw [show (q - e).toNat = 0 by omega, pow_zero, mul_one]
      rcases hm with hless | ⟨heq, hcut⟩
      · calc 2 ^ (e - q).toNat ≤ 2 ^ 52 := Nat.pow_le_pow_right (by norm_num) (by omega)
          _ ≤ m := h.normal (by omega)
      · rw [heq, show (q - e).toNat = 0 by omega, pow_zero, Nat.div_one, Nat.shiftLeft_eq] at hcut
        exact (Nat.le_mul_of_pos_left _ hn).trans hcut
  · exact .infinite

/-! ### Doubles from zero on -/

/-- A number that is not below zero. -/
inductive FromZero : UnpackedFloat → Prop
  | zero (s : Sign) : FromZero (.zero s)
  | finite {m : ℕ} {q : ℤ} (hc : Canonical m q) : FromZero (.finite .positive m q hc.pos)
  | infinite : FromZero (.infinity .positive)

theorem isFinite_iff {x : Float} :
    isFinite x = true ↔ x.toModel.unpack ≠ .notANumber ∧ ∀ s, x.toModel.unpack ≠ .infinity s := by
  have hunpacks := unpacks_classify x
  rw [isFinite]
  generalize classify x = kind at hunpacks ⊢
  generalize x.toModel.unpack = u at hunpacks ⊢
  cases hunpacks <;> simp

theorem fromZero {x : Float} (h : 0.0 ≤ x) : FromZero x.toModel.unpack := by
  have hle : (UnpackedFloat.zero .positive).le x.toModel.unpack = true := of_decide_eq_true h
  have hunpacks := unpacks_classify x
  generalize classify x = kind at hunpacks
  generalize x.toModel.unpack = u at hle hunpacks ⊢
  cases hunpacks with
  | notANumber => cases hle
  | zero => exact .zero _
  | infinite negative => cases negative with
    | true => cases hle
    | false => exact .infinite
  | finite negative hc => cases negative with
    | true => cases hle
    | false => exact .finite hc

theorem FromZero.le (h : FromZero u) : (UnpackedFloat.zero .positive).le u = true := by cases h <;> rfl

/-- What is greater than a number from zero on is a positive number. -/
theorem FromZero.of_lt {a : UnpackedFloat} (ha : FromZero a) {x : Float} (h : a.lt x.toModel.unpack = true) :
    FromZero x.toModel.unpack := by
  have hunpacks := unpacks_classify x
  generalize classify x = kind at hunpacks
  generalize x.toModel.unpack = u at h hunpacks ⊢
  cases hunpacks with
  | notANumber => cases ha <;> cases h
  | zero => exact .zero _
  | infinite negative => cases negative with
    | true => cases ha <;> cases h
    | false => exact .infinite
  | finite negative hc => cases negative with
    | true => cases ha <;> cases h
    | false => exact .finite hc

theorem positive_lt_iff {m m' : ℕ} {q q' : ℤ} {h : 0 < m} {h' : 0 < m'} :
    (UnpackedFloat.finite .positive m q h).lt (.finite .positive m' q' h') = true ↔ q < q' ∨ q = q' ∧ m < m' := by
  rw [UnpackedFloat.lt, UnpackedFloat.compare]
  rcases lt_trichotomy q q' with hq | rfl | hq
  · simp [Int.compare_eq_lt.2 hq, hq]
  · rcases lt_trichotomy m m' with hm | rfl | hm
    · simp [Nat.compare_eq_lt.2 hm, hm]
    · simp
    · simp [Nat.compare_eq_gt.2 hm, hm.le]
  · simp [Int.compare_eq_gt.2 hq, hq.ne', hq.le]

/-! ### Going up -/

/-- A positive double is at least the unit of another one's last place. -/
def Lifts (u : UnpackedFloat) : UnpackedFloat → Prop
  | .zero _ => Signed .positive u
  | .finite .positive _ q _ => Reaches q u
  | _ => False

theorem normalize_natCast (hn : 0 < n) (e : ℤ) (s : Sign) :
    UnpackedFloat.normalize Format.binary64 n e s = UnpackedFloat.round Format.binary64 .positive n e := by
  rw [UnpackedFloat.normalize, Int.compare_eq_gt.2 (by exact_mod_cast hn)]
  rfl

theorem lt_add_finite {s : UnpackedFloat} (hc : Canonical m q) (hs : Reaches q s) :
    (UnpackedFloat.finite .positive m q hc.pos).lt
      (Float.Model.pack (UnpackedFloat.add Format.binary64 (.finite .positive m q hc.pos) s)).unpack = true := by
  cases hs with
  | infinite =>
    rw [UnpackedFloat.add, unpack_pack_infinity]
    · rfl
    all_goals simp
  | @finite m' q' hc' hle =>
    have hleast := le_min hc.least hc'.least
    have hunit : 2 ^ (q - min q q').toNat ≤ m' * 2 ^ (q' - min q q').toNat := by
      rcases le_total q q' with h | h
      · rw [min_eq_left h, sub_self, Int.toNat_zero, pow_zero]
        exact Nat.mul_pos hc'.pos (Nat.two_pow_pos _)
      · rwa [min_eq_right h, sub_self, Int.toNat_zero, pow_zero, mul_one, ← mul_one m',
          ← pow_zero 2, ← Int.toNat_of_nonpos (sub_nonpos.2 h)]
    change (UnpackedFloat.finite .positive m q hc.pos).lt (Float.Model.pack (UnpackedFloat.normalize Format.binary64
      ((m <<< (q - min q q').toNat : ℕ) + (m' <<< (q' - min q q').toNat : ℕ)) (min q q') .positive)).unpack = true
    have hle : min q q' ≤ q := min_le_left q q'
    generalize min q q' = e at hleast hunit hle ⊢
    have hsum : (m + 1) * 2 ^ (q - e).toNat ≤ (m <<< (q - e).toNat + m' <<< (q' - e).toNat) * 2 ^ (e - q).toNat := by
      rw [show (e - q).toNat = 0 by omega, pow_zero, mul_one, Nat.shiftLeft_eq, Nat.shiftLeft_eq, add_mul, one_mul]
      exact Nat.add_le_add_left hunit _
    have hpos : 0 < m <<< (q - e).toNat + m' <<< (q' - e).toNat := by
      rw [Nat.shiftLeft_eq]
      exact Nat.add_pos_left (Nat.mul_pos hc.pos (Nat.two_pow_pos _)) _
    rw [← Nat.cast_add, normalize_natCast hpos]
    obtain ⟨m₁, q₁, h, hround, habove⟩ :=
      le_round .positive hpos hleast hc.least (fun h => (hc.normal h).trans (Nat.le_succ m)) hsum
    rw [hround]
    rcases unpack_pack_rounded .positive h with ⟨hc₁, hpack⟩ | hpack <;> rw [hpack]
    · exact positive_lt_iff.2 habove
    · rfl

/-- A sum with what is at least the unit of the last place goes up. -/
theorem lt_add_of_lifts {x y : Float} (h : Lifts y.toModel.unpack x.toModel.unpack) : x < x + y := by
  refine decide_eq_true ?_
  change x.toModel.unpack.lt
    (Float.Model.pack (UnpackedFloat.add Format.binary64 x.toModel.unpack y.toModel.unpack)).unpack = true
  have hunpacks := unpacks_classify x
  have hunpacks' := unpacks_classify y
  generalize classify x = kind at hunpacks
  generalize classify y = kind' at hunpacks'
  generalize x.toModel.unpack = a at h hunpacks
  generalize y.toModel.unpack = u at h hunpacks'
  cases hunpacks with
  | notANumber => cases h
  | infinite negative => cases h
  | zero negative q =>
    cases hunpacks' with
    | notANumber => cases h
    | zero => cases h
    | infinite negative' =>
      rw [UnpackedFloat.add, unpack_pack_infinity]
      · cases negative' with
        | true => cases h
        | false => rfl
      all_goals simp
    | finite negative' hc =>
      rw [UnpackedFloat.add, unpack_pack hc]
      · cases negative' with
        | true => cases h
        | false => rfl
      all_goals simp
  | finite negative hc =>
    cases negative with
    | true => cases h
    | false => exact lt_add_finite hc h

/-- The way from a positive double to a greater one is at least the unit of its last place. -/
theorem lifts_sub_finite {s : Sign} {m' : ℕ} {q' : ℤ} (hc : Canonical m q) (hc' : Canonical m' q')
    (h : (UnpackedFloat.finite s m' q' hc'.pos).le (.finite .positive m q hc.pos) = false) :
    Reaches q (Float.Model.pack (UnpackedFloat.sub Format.binary64 (.finite s m' q' hc'.pos)
      (.finite .positive m q hc.pos))).unpack := by
  cases s with
  | negative => cases h
  | positive =>
    have hcompare := compare_finite .positive .positive hc' hc
    change Reaches q (Float.Model.pack (UnpackedFloat.normalize Format.binary64
      (scaled .positive m' q' (min q' q) - scaled .positive m q (min q' q)) (min q' q) .positive)).unpack
    have hle : q ≤ q' := by
      by_contra hlt
      rw [UnpackedFloat.le, UnpackedFloat.compare, Int.compare_eq_lt.2 (not_le.1 hlt)] at h
      cases h
    rw [min_eq_right hle] at hcompare ⊢
    have hgreater : scaled .positive m q q < scaled .positive m' q' q := by
      by_contra hnot
      rw [UnpackedFloat.le, hcompare, Option.any_some, Int.isLE_compare.2 (not_lt.1 hnot)] at h
      cases h
    obtain ⟨k, hk⟩ := Int.eq_ofNat_of_zero_le (sub_nonneg.2 hgreater.le)
    rw [hk, normalize_natCast (by omega)]
    exact reaches_round (by omega) hc.least

theorem signed_of_zero_lt {s : Sign} {u : UnpackedFloat} (h : (UnpackedFloat.zero s).lt u = true) : Signed .positive u := by
  cases u with
  | notANumber => cases h
  | zero => cases h
  | infinity s' =>
    cases s' with
    | negative => cases h
    | positive => exact .infinite
  | finite s' m q hm =>
    cases s' with
    | negative => cases h
    | positive => exact .finite hm

/-- The way from a double that is not below zero to a greater number takes it up. -/
theorem lifts_sub {x y : Float} (hx : isFinite x = true) (hzero : 0.0 ≤ x) (hy : isNotANumber y = false) (h : ¬y ≤ x) :
    Lifts (y - x).toModel.unpack x.toModel.unpack := by
  have hdifference : (UnpackedFloat.zero .positive).lt (y - x).toModel.unpack = true := by
    rcases sub_pos_or_le hx hy with ⟨hle, -⟩ | ⟨-, hlt⟩
    · exact absurd hle h
    · exact of_decide_eq_true hlt
  have hle : y.toModel.unpack.le x.toModel.unpack = false := Bool.eq_false_iff.2 fun hle => h (decide_eq_true hle)
  have ha := fromZero hzero
  have hinfinite : ∀ s, x.toModel.unpack ≠ .infinity s := (isFinite_iff.1 hx).2
  change Lifts (Float.Model.pack (UnpackedFloat.sub Format.binary64 y.toModel.unpack x.toModel.unpack)).unpack _
  change (UnpackedFloat.zero .positive).lt
    (Float.Model.pack (UnpackedFloat.sub Format.binary64 y.toModel.unpack x.toModel.unpack)).unpack = true at hdifference
  have hunpacks := unpacks_classify y
  rw [isNotANumber_eq_false_iff] at hy
  generalize classify y = kind at hunpacks
  generalize x.toModel.unpack = a at hle hdifference ha hinfinite ⊢
  generalize y.toModel.unpack = d at hy hle hdifference hunpacks ⊢
  cases ha with
  | infinite => exact absurd rfl (hinfinite _)
  | zero s => exact signed_of_zero_lt hdifference
  | finite hc =>
    cases hunpacks with
    | notANumber => exact absurd rfl hy
    | zero => cases hle
    | infinite negative =>
      cases negative with
      | true => cases hle
      | false =>
        rw [UnpackedFloat.sub, unpack_pack_infinity]
        · exact Reaches.infinite
        all_goals simp
    | finite negative hc' => exact lifts_sub_finite hc hc' hle

/-- A twentieth takes up every double from zero on below two to the power of 48. -/
theorem lifts_twentieth {x : Float} (hzero : 0.0 ≤ x) (hlate : x < 281474976710656.0) :
    Lifts (Float.ofNat 1 / Float.ofNat 20).toModel.unpack x.toModel.unpack := by
  have htwentieth : (Float.ofNat 1 / Float.ofNat 20).toModel.unpack =
      .finite .positive 7205759403792794 (-57) (by norm_num) := by rfl
  have hlate : x.toModel.unpack.lt (.finite .positive (2 ^ 52) (-4) (by norm_num)) = true := of_decide_eq_true hlate
  have hx := fromZero hzero
  rw [htwentieth]
  generalize x.toModel.unpack = u at hlate hx ⊢
  cases hx with
  | infinite => cases hlate
  | zero s => exact Signed.finite _
  | @finite m q hc =>
    have hq : q ≤ -5 := by
      rcases positive_lt_iff.1 hlate with hless | ⟨rfl, hshort⟩
      · omega
      · exact absurd (hc.normal (by norm_num)) (not_le.2 hshort)
    have hc' : Canonical 7205759403792794 (-57) := ⟨by norm_num, by norm_num, by norm_num, by norm_num, fun _ => by norm_num⟩
    refine Reaches.finite hc' ?_
    calc 2 ^ (q - -57).toNat ≤ 2 ^ 52 := Nat.pow_le_pow_right (by norm_num) (by omega)
      _ ≤ 7205759403792794 * 1 := by norm_num
      _ ≤ 7205759403792794 * 2 ^ (-57 - q).toNat := Nat.mul_le_mul_left _ (Nat.two_pow_pos _)

theorem isFinite_of_lt {x y : Float} (hzero : 0.0 ≤ x) (h : x < y) : isFinite x = true := by
  have hlt : x.toModel.unpack.lt y.toModel.unpack = true := of_decide_eq_true h
  have hx := fromZero hzero
  have hy := hx.of_lt hlt
  rw [isFinite_iff]
  generalize x.toModel.unpack = a at hlt hx ⊢
  generalize y.toModel.unpack = u at hlt hy
  cases hx with
  | zero s => simp
  | finite hc => simp
  | infinite => cases hy <;> cases hlt

/-! ### The doubles in their order -/

/-- The place of a double among those from zero on. -/
def rank : UnpackedFloat → ℕ
  | .finite .positive m q _ => (q + 1074).toNat * 2 ^ 53 + m
  | .infinity .positive => 2 ^ 64
  | _ => 0

theorem rank_lt_infinite (hc : Canonical m q) : (q + 1074).toNat * 2 ^ 53 + m < 2 ^ 64 := by
  have hlt := hc.lt
  have hgreatest := hc.greatest
  omega

theorem FromZero.rank_le (h : FromZero u) : rank u ≤ 2 ^ 64 := by
  cases h with
  | zero s => exact Nat.zero_le _
  | finite hc => exact (rank_lt_infinite hc).le
  | infinite => exact le_rfl

theorem rank_lt {a : UnpackedFloat} (ha : FromZero a) (hu : FromZero u) (h : a.lt u = true) : rank a < rank u := by
  cases ha with
  | zero s => cases hu with
    | zero => cases h
    | finite hc => exact Nat.add_pos_right _ hc.pos
    | infinite => exact Nat.two_pow_pos 64
  | @finite m q hc => cases hu with
    | zero => cases h
    | @finite m' q' hc' =>
      change (q + 1074).toNat * 2 ^ 53 + m < (q' + 1074).toNat * 2 ^ 53 + m'
      have hlt := hc.lt
      have hleast := hc.least
      rcases positive_lt_iff.1 h with hq | ⟨rfl, hm⟩ <;> omega
    | infinite => exact rank_lt_infinite hc
  | infinite => cases hu <;> cases h

/-- What is greater than a double from zero on comes after it. -/
theorem rank_lt_of_lt {x y : Float} (hzero : 0.0 ≤ x) (h : x < y) :
    0.0 ≤ y ∧ rank x.toModel.unpack < rank y.toModel.unpack := by
  have hlt : x.toModel.unpack.lt y.toModel.unpack = true := of_decide_eq_true h
  have hx := fromZero hzero
  have hy := hx.of_lt hlt
  exact ⟨decide_eq_true hy.le, rank_lt hx hy hlt⟩

end Adjudication.Decimal
