import Adjudication.Proofs.Decimal.Rounded

/-!
Differences of doubles. What is not zero is rounded to a double of its sign or to infinity, and never to zero, unless it is
too small to be a sum or a difference of doubles. So a difference tells the order: the clock's reading taken from a deadline
leaves something above zero exactly where the deadline is still to come.
-/

namespace Adjudication.Decimal

open Float.Model Float.Model.UnpackedFloat

/-! ### Rounding keeps the sign -/

variable {m n : ℕ} {q e : ℤ}

/-- A double of a sign that is not zero, or infinity. -/
inductive Signed (s : Sign) : UnpackedFloat → Prop
  | finite {m : ℕ} {q : ℤ} (h : 0 < m) : Signed s (.finite s m q h)
  | infinite : Signed s (.infinity s)

theorem unpack_pack_zero (s : Sign) : (Float.Model.pack (.zero s)).unpack = .zero s := by cases s <;> rfl

theorem signed_pack (s : Sign) (h : Rounded m q) : Signed s (Float.Model.pack (.finite s m q h.pos)).unpack := by
  rcases unpack_pack_rounded s h with ⟨hc, hpack⟩ | hpack <;> rw [hpack]
  · exact .finite hc.pos
  · exact .infinite

/-- An integer is rounded to a double of its sign. -/
inductive OfSign : ℤ → UnpackedFloat → Prop
  | negative {i : ℤ} {u : UnpackedFloat} (h : i < 0) (hu : Signed .negative u) : OfSign i u
  | zero (s : Sign) : OfSign 0 (.zero s)
  | positive {i : ℤ} {u : UnpackedFloat} (h : 0 < i) (hu : Signed .positive u) : OfSign i u

theorem ofSign_normalize (i : ℤ) (he : -1074 ≤ e) (s : Sign) :
    OfSign i (Float.Model.pack (UnpackedFloat.normalize Format.binary64 i e s)).unpack := by
  have hround : ∀ (s : Sign) {k : ℕ}, 0 < k → Signed s (Float.Model.pack (UnpackedFloat.round Format.binary64 s k e)).unpack := by
    intro s k hk
    obtain ⟨m, q, h, hround, -⟩ := round_rounded s hk he rfl
    rw [hround]
    exact signed_pack s h
  rw [UnpackedFloat.normalize]
  rcases lt_trichotomy i 0 with hlt | rfl | hgt
  · rw [Int.compare_eq_lt.2 hlt]
    exact .negative hlt (hround _ (by omega))
  · rw [Int.compare_eq_eq.2 rfl, unpack_pack_zero]
    exact .zero s
  · rw [Int.compare_eq_gt.2 hgt]
    exact .positive hgt (hround _ (by omega))

/-! ### Comparing -/

/-- Doubles are compared by their exponents first, which is to compare them as integers at the lesser exponent. -/
theorem compare_canonical {m₁ m₂ : ℕ} {q₁ q₂ : ℤ} (h₁ : Canonical m₁ q₁) (h₂ : Canonical m₂ q₂) :
    (compare q₁ q₂).then (compare m₁ m₂) =
      compare ((m₁ <<< (q₁ - min q₁ q₂).toNat : ℕ) : ℤ) (m₂ <<< (q₂ - min q₁ q₂).toNat : ℕ) := by
  have hless : ∀ {m n : ℕ} {q t : ℤ}, Canonical m q → Canonical n t → q < t → m < n <<< (t - q).toNat := by
    intro m n q t hm hn hlt
    rw [Nat.shiftLeft_eq]
    have hlong : 2 ^ 52 ≤ n := hn.normal (by have := hm.least; omega)
    have htwice : 2 ^ 1 ≤ 2 ^ (t - q).toNat := Nat.pow_le_pow_right (by norm_num) (by omega)
    calc m < 2 ^ 52 * 2 ^ 1 := hm.lt
      _ ≤ n * 2 ^ (t - q).toNat := Nat.mul_le_mul hlong htwice
  rcases lt_trichotomy q₁ q₂ with hlt | rfl | hgt
  · rw [Int.compare_eq_lt.2 hlt, min_eq_left hlt.le, sub_self, Int.toNat_zero, Nat.shiftLeft_zero,
      Int.compare_eq_lt.2 (by exact_mod_cast hless h₁ h₂ hlt)]
    rfl
  · rw [Int.compare_eq_eq.2 rfl, min_self, sub_self, Int.toNat_zero, Nat.shiftLeft_zero, Nat.shiftLeft_zero]
    rcases lt_trichotomy m₁ m₂ with hm | rfl | hm
    · rw [Int.compare_eq_lt.2 (by exact_mod_cast hm), Nat.compare_eq_lt.2 hm]
      rfl
    · rw [Int.compare_eq_eq.2 rfl, Nat.compare_eq_eq.2 rfl]
      rfl
    · rw [Int.compare_eq_gt.2 (by exact_mod_cast hm), Nat.compare_eq_gt.2 hm]
      rfl
  · rw [Int.compare_eq_gt.2 hgt, min_eq_right hgt.le, sub_self, Int.toNat_zero, Nat.shiftLeft_zero,
      Int.compare_eq_gt.2 (by exact_mod_cast hless h₂ h₁ hgt)]
    rfl

/-- The integer that a finite double is at an exponent no greater than its own. -/
def scaled (s : Sign) (m : ℕ) (q t : ℤ) : ℤ := s.apply (m <<< (q - t).toNat : ℕ)

theorem compare_finite (s₁ s₂ : Sign) {m₁ m₂ : ℕ} {q₁ q₂ : ℤ} (h₁ : Canonical m₁ q₁) (h₂ : Canonical m₂ q₂) :
    (UnpackedFloat.finite s₁ m₁ q₁ h₁.pos).compare (.finite s₂ m₂ q₂ h₂.pos) =
      some (compare (scaled s₁ m₁ q₁ (min q₁ q₂)) (scaled s₂ m₂ q₂ (min q₁ q₂))) := by
  have hpos : ∀ {m : ℕ} (k : ℕ), 0 < m → (0 : ℤ) < (m <<< k : ℕ) := fun k hm => by
    rw [Nat.shiftLeft_eq]
    exact_mod_cast Nat.mul_pos hm (Nat.two_pow_pos k)
  have hpos₁ := hpos (q₁ - min q₁ q₂).toNat h₁.pos
  have hpos₂ := hpos (q₂ - min q₁ q₂).toNat h₂.pos
  cases s₁ <;> cases s₂ <;> simp only [UnpackedFloat.compare, scaled, Sign.apply, compare_canonical h₁ h₂]
  · rw [Int.compare_swap]
    simp only [Int.compare_eq_ite_lt, neg_lt_neg_iff]
  · rw [Int.compare_eq_lt.2 (by omega)]
  · rw [Int.compare_eq_gt.2 (by omega)]

/-! ### Differences -/

/-- What a difference tells of the two doubles that it is made of. -/
inductive Tells (d a u : UnpackedFloat) : Prop
  | reached (hle : d.le a = true) (hu : u.le (.zero .positive) = true)
  | ahead (hle : d.le a = false) (hu : (UnpackedFloat.zero .positive).lt u = true)

variable {d a u : UnpackedFloat}

theorem Tells.of_negative (hle : d.le a = true) (hu : Signed .negative u) : Tells d a u :=
  .reached hle (by cases hu <;> rfl)

theorem Tells.of_positive (hle : d.le a = false) (hu : Signed .positive u) : Tells d a u :=
  .ahead hle (by cases hu <;> rfl)

theorem Tells.of_zero (hle : d.le a = true) (s : Sign) : Tells d a (.zero s) := .reached hle rfl

theorem tells_sub_finite (s₁ s₂ : Sign) {m₁ m₂ : ℕ} {q₁ q₂ : ℤ} (h₁ : Canonical m₁ q₁) (h₂ : Canonical m₂ q₂) :
    Tells (.finite s₁ m₁ q₁ h₁.pos) (.finite s₂ m₂ q₂ h₂.pos)
      (Float.Model.pack (UnpackedFloat.sub Format.binary64 (.finite s₁ m₁ q₁ h₁.pos) (.finite s₂ m₂ q₂ h₂.pos))).unpack := by
  have hcompare := compare_finite s₁ s₂ h₁ h₂
  have hsign := ofSign_normalize (scaled s₁ m₁ q₁ (min q₁ q₂) - scaled s₂ m₂ q₂ (min q₁ q₂))
    (le_min h₁.least h₂.least) .positive
  change Tells _ _ (Float.Model.pack (UnpackedFloat.normalize Format.binary64
    (scaled s₁ m₁ q₁ (min q₁ q₂) - scaled s₂ m₂ q₂ (min q₁ q₂)) (min q₁ q₂) .positive)).unpack
  generalize (Float.Model.pack (UnpackedFloat.normalize Format.binary64 _ (min q₁ q₂) .positive)).unpack = u at hsign
  generalize scaled s₁ m₁ q₁ (min q₁ q₂) = i at hcompare hsign
  generalize scaled s₂ m₂ q₂ (min q₁ q₂) = j at hcompare hsign
  generalize hk : i - j = k at hsign
  cases hsign with
  | negative hlt hu =>
    rw [Int.compare_eq_lt.2 (by omega)] at hcompare
    exact .of_negative (by rw [UnpackedFloat.le, hcompare]; rfl) hu
  | zero s =>
    rw [Int.compare_eq_eq.2 (by omega)] at hcompare
    exact .of_zero (by rw [UnpackedFloat.le, hcompare]; rfl) s
  | positive hgt hu =>
    rw [Int.compare_eq_gt.2 (by omega)] at hcompare
    exact .of_positive (by rw [UnpackedFloat.le, hcompare]; rfl) hu

/-- A number of which a finite one is taken leaves something above zero unless it is no greater. -/
theorem tells_sub {b : Binary} {kind : Kind} (ha : Unpacks (.finite b) a) (hd : Unpacks kind d) (hkind : kind ≠ .notANumber) :
    Tells d a (Float.Model.pack (UnpackedFloat.sub Format.binary64 d a)).unpack := by
  cases hd with
  | notANumber => exact absurd rfl hkind
  | infinite negative =>
    have hsub : UnpackedFloat.sub Format.binary64 (.infinity (signOf negative)) a = .infinity (signOf negative) := by
      cases ha <;> rfl
    rw [hsub, unpack_pack_infinity]
    cases negative with
    | true => exact .of_negative (by cases ha <;> rfl) .infinite
    | false => exact .of_positive (by cases ha <;> rfl) .infinite
  | zero negative q =>
    cases ha with
    | zero negative' q' =>
      have hsub : ∃ s, UnpackedFloat.sub Format.binary64 (.zero (signOf negative)) (.zero (signOf negative')) = .zero s := by
        rw [UnpackedFloat.sub]
        split <;> exact ⟨_, rfl⟩
      obtain ⟨s, hs⟩ := hsub
      rw [hs, unpack_pack_zero]
      exact .of_zero rfl s
    | finite negative' hc =>
      rw [UnpackedFloat.sub, unpack_pack hc]
      cases negative' with
      | true => exact .of_positive rfl (.finite hc.pos)
      | false => exact .of_negative rfl (.finite hc.pos)
  | finite negative hc =>
    cases ha with
    | zero negative' q =>
      rw [UnpackedFloat.sub, unpack_pack hc]
      · cases negative with
        | true => exact .of_negative rfl (.finite hc.pos)
        | false => exact .of_positive rfl (.finite hc.pos)
      all_goals simp
    | finite negative' hc' => exact tells_sub_finite _ _ hc hc'

/-- A finite double taken from a number leaves something above zero, or the number is no greater and nothing is left. -/
theorem sub_pos_or_le {x y : Float} (hx : isFinite x = true) (hy : isNotANumber y = false) :
    y ≤ x ∧ y - x ≤ 0.0 ∨ ¬y ≤ x ∧ 0.0 < y - x := by
  have ha := unpacks_classify x
  have hd := unpacks_classify y
  rw [isFinite] at hx
  rw [isNotANumber] at hy
  generalize classify x = kx at hx ha
  generalize classify y = ky at hy hd
  cases kx with
  | infinite => cases hx
  | notANumber => cases hx
  | finite b =>
    have htells : Tells y.toModel.unpack x.toModel.unpack (y - x).toModel.unpack :=
      tells_sub ha hd (by rintro rfl; cases hy)
    cases htells with
    | reached hle hu => exact .inl ⟨decide_eq_true hle, decide_eq_true hu⟩
    | ahead hle hu =>
      have hnot : ¬y.toModel.unpack.le x.toModel.unpack = true := by simp [hle]
      exact .inr ⟨fun h => hnot (of_decide_eq_true h), decide_eq_true hu⟩

/-! ### Sums -/

theorem isNotANumber_eq_false_iff {x : Float} : isNotANumber x = false ↔ x.toModel.unpack ≠ .notANumber := by
  have hunpacks := unpacks_classify x
  rw [isNotANumber]
  generalize classify x = kind at hunpacks ⊢
  generalize x.toModel.unpack = u at hunpacks ⊢
  cases hunpacks <;> simp

theorem OfSign.ne_notANumber {i : ℤ} (h : OfSign i u) : u ≠ .notANumber := by
  cases h with
  | negative _ hu => cases hu <;> simp
  | zero => simp
  | positive _ hu => cases hu <;> simp

/-- A finite double and a number make a number. -/
theorem isNotANumber_add {x y : Float} (hx : isFinite x = true) (hy : isNotANumber y = false) :
    isNotANumber (x + y) = false := by
  have ha := unpacks_classify x
  have hd := unpacks_classify y
  rw [isNotANumber_eq_false_iff] at hy ⊢
  rw [isFinite] at hx
  change (Float.Model.pack (UnpackedFloat.add Format.binary64 x.toModel.unpack y.toModel.unpack)).unpack ≠ _
  generalize classify x = kx at hx ha
  generalize classify y = ky at hd
  generalize x.toModel.unpack = a at ha
  generalize y.toModel.unpack = d at hy hd
  cases kx with
  | infinite => cases hx
  | notANumber => cases hx
  | finite b =>
    cases hd with
    | notANumber => exact absurd rfl hy
    | infinite negative =>
      have hadd : UnpackedFloat.add Format.binary64 a (.infinity (signOf negative)) = .infinity (signOf negative) := by
        cases ha <;> rfl
      rw [hadd, unpack_pack_infinity]
      simp
    | zero negative q =>
      cases ha with
      | zero negative' q' =>
        rw [UnpackedFloat.add]
        split <;> rw [unpack_pack_zero] <;> simp
      | finite negative' hc =>
        rw [UnpackedFloat.add, unpack_pack hc] <;> simp
    | finite negative hc =>
      cases ha with
      | zero negative' q =>
        rw [UnpackedFloat.add, unpack_pack hc] <;> simp
      | finite negative' hc' => exact (ofSign_normalize _ (le_min hc'.least hc.least) .positive).ne_notANumber

end Adjudication.Decimal
