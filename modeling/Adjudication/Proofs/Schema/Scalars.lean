import Adjudication.Proofs.Decimal.Integers
import Adjudication.Proofs.Schema.Checks

/-!
What single values are taken for. A value stands for a truth value if it is one, one of the numbers zero and one, or one of
twelve words in capitals or small letters; it tells a probability if it is a truth value, one of the integers zero and one, or
a double between zero and one, which may stand in a text. The checks pass just these.
-/

namespace Adjudication

/-! ### Words -/

namespace Text

/-- A text is a word letter for letter, a capital standing for its small letter. -/
def Caseless (s word : String) : Prop := List.Forall₂ (fun c d => c = d ∨ c = d.toUpper) s.toList word.toList

theorem toNat_toLower (c : Char) :
    c.toLower.toNat = if 65 ≤ c.toNat ∧ c.toNat ≤ 90 then c.toNat + 32 else c.toNat := by
  rw [Char.toLower]
  simp only [Char.toNat, UInt32.le_iff_toNat_le, ge_iff_le]
  split
  next h =>
    have h : 65 ≤ c.val.toNat ∧ c.val.toNat ≤ 90 := h
    have hadd : (c.val + 32).toNat = (c.val.toNat + 32) % 2 ^ 32 := UInt32.toNat_add _ _
    rw [if_pos h]
    exact hadd.trans (Nat.mod_eq_of_lt (by omega))
  next h => exact (if_neg h).symm

theorem toNat_toUpper (c : Char) :
    c.toUpper.toNat = if 97 ≤ c.toNat ∧ c.toNat ≤ 122 then c.toNat - 32 else c.toNat := by
  rw [Char.toUpper]
  simp only [Char.toNat, UInt32.le_iff_toNat_le]
  split
  next h =>
    have h : 97 ≤ c.val.toNat ∧ c.val.toNat ≤ 122 := h
    have hadd : (c.val + 4294967264).toNat = (c.val.toNat + 4294967264) % 2 ^ 32 := UInt32.toNat_add _ _
    rw [if_pos h]
    exact hadd.trans (by omega)
  next h => exact (if_neg h).symm

theorem toLower_eq_iff {c d : Char} (hd : d.isUpper = false) : c.toLower = d ↔ c = d ∨ c = d.toUpper := by
  have hd : ¬(65 ≤ d.toNat ∧ d.toNat ≤ 90) := of_decide_eq_false hd
  simp only [← Char.toNat_inj, toNat_toLower, toNat_toUpper]
  split <;> split <;> omega

theorem map_toLower_eq_iff : ∀ {cs ds : List Char}, ds.all (!·.isUpper) = true →
    (cs.map Char.toLower = ds ↔ List.Forall₂ (fun c d => c = d ∨ c = d.toUpper) cs ds)
  | [], [], _ => iff_of_true rfl .nil
  | [], _ :: _, _ => iff_of_false nofun nofun
  | _ :: _, [], _ => iff_of_false nofun nofun
  | c :: cs, d :: ds, h => by
    obtain ⟨hd, hds⟩ := Bool.and_eq_true_iff.1 ((List.all_cons).symm.trans h)
    rw [List.map_cons, List.cons.injEq, List.forall₂_cons, toLower_eq_iff (by simpa using hd), map_toLower_eq_iff hds]

/-- Of a word without capitals the lower case is just that of the texts which are the word letter for letter. -/
theorem lower_eq_iff {s word : String} (h : word.toList.all (!·.isUpper) = true) : lower s = word ↔ Caseless s word := by
  rw [Caseless, ← map_toLower_eq_iff h, ← String.toList_inj, lower, String.toList_map]

end Text

namespace Schema

/-! ### Doubles that are zero or one -/

section Doubles

open Decimal Float.Model Float.Model.UnpackedFloat

theorem beq_eq_true_iff {x y : Float} {u : UnpackedFloat} (hy : y.toModel.unpack = u) :
    (x == y) = true ↔ x.toModel.unpack.compare u = some .eq := by
  rw [← hy]
  exact beq_iff_eq (a := x.toModel.unpack.compare y.toModel.unpack)

theorem integerOfDouble_eq_ok_iff {x : Float} {i : Int} (hlow : -wordBound < i) (hhigh : i < wordBound) :
    integerOfDouble x = .ok i ↔ ∃ b, classify x = .finite b ∧ b.toInt? = some i := by
  rw [integerOfDouble]
  constructor
  · intro h
    split at h
    next b hb =>
      split at h
      next => cases h
      next j hj =>
        split at h
        next =>
          obtain rfl := Except.ok.inj h
          exact ⟨b, hb, hj⟩
        next => cases h
    next => cases h
  · rintro ⟨b, hb, hi⟩
    rw [hb]
    dsimp only
    rw [hi]
    exact if_pos ⟨hlow, hhigh⟩

theorem exists_finite_iff {x : Binary} {i : Int} :
    (∃ b, Kind.finite x = .finite b ∧ b.toInt? = some i) ↔ x.toInt? = some i := by
  constructor
  · rintro ⟨b, hb, hi⟩
    obtain rfl := Kind.finite.inj hb
    exact hi
  · exact fun hi => ⟨x, rfl, hi⟩

/-- The doubles that are zero as an integer are the two zeros. -/
theorem integerOfDouble_eq_zero_iff (x : Float) : integerOfDouble x = .ok 0 ↔ (x == 0.0) = true := by
  rw [integerOfDouble_eq_ok_iff (by decide) (by decide), beq_eq_true_iff unpack_zero_double]
  have hunpacks := unpacks_classify x
  generalize x.toModel.unpack = u at hunpacks
  generalize classify x = kind at hunpacks
  cases hunpacks with
  | notANumber => exact iff_of_false nofun nofun
  | infinite negative => exact iff_of_false nofun (by cases negative <;> nofun)
  | zero negative q => exact iff_of_true (exists_finite_iff.2 (Binary.toInt?_zero negative q)) rfl
  | finite negative hc =>
    rw [exists_finite_iff]
    exact iff_of_false (Binary.toInt?_ne_zero hc) (by cases negative <;> nofun)

/-- The double that is one as an integer is one. -/
theorem integerOfDouble_eq_one_iff (x : Float) : integerOfDouble x = .ok 1 ↔ (x == 1.0) = true := by
  rw [integerOfDouble_eq_ok_iff (by decide) (by decide), beq_eq_true_iff unpack_one_double]
  have hunpacks := unpacks_classify x
  generalize x.toModel.unpack = u at hunpacks
  generalize classify x = kind at hunpacks
  cases hunpacks with
  | notANumber => exact iff_of_false nofun nofun
  | infinite negative => exact iff_of_false nofun (by cases negative <;> nofun)
  | zero negative q =>
    rw [exists_finite_iff, Binary.toInt?_zero]
    exact iff_of_false nofun nofun
  | @finite negative m q hc =>
    rw [exists_finite_iff, Binary.toInt?_eq_one_iff hc]
    cases negative with
    | true => exact iff_of_false nofun nofun
    | false =>
      have hcompare : UnpackedFloat.compare (.finite (signOf false) m q hc.pos) (.finite .positive (2 ^ 52) (-52) (by norm_num)) =
          some ((compare q (-52)).then (compare m (2 ^ 52))) := rfl
      rw [hcompare, Option.some.injEq, Ordering.then_eq_eq, Int.compare_eq_eq, Nat.compare_eq_eq]
      simp only [true_and, and_comm]

end Doubles

/-! ### Truth values -/

/-- A value stands for a truth value. -/
inductive Stands : Json → Bool → Prop
  | bool (b : Bool) : Stands (.bool b) b
  | zero : Stands (.int 0) false
  | one : Stands (.int 1) true
  | zeroDouble {x : Float} (h : (x == 0.0) = true) : Stands (.double x) false
  | oneDouble {x : Float} (h : (x == 1.0) = true) : Stands (.double x) true
  | no {s word : String} (hword : word ∈ ["0", "off", "f", "false", "n", "no"]) (h : Text.Caseless s word) :
    Stands (.str s) false
  | yes {s word : String} (hword : word ∈ ["1", "on", "t", "true", "y", "yes"]) (h : Text.Caseless s word) :
    Stands (.str s) true

theorem lower_mem_iff {s : String} {words : List String} (h : ∀ word ∈ words, word.toList.all (!·.isUpper) = true) :
    Text.lower s ∈ words ↔ ∃ word ∈ words, Text.Caseless s word := by
  constructor
  · exact fun hmem => ⟨_, hmem, (Text.lower_eq_iff (h _ hmem)).1 rfl⟩
  · rintro ⟨word, hword, hcaseless⟩
    exact (Text.lower_eq_iff (h word hword)).2 hcaseless ▸ hword

theorem truthOfWord_eq_some_iff (s : String) (b : Bool) : truthOfWord s = some b ↔ Stands (.str s) b := by
  have htrue : Text.lower s ∈ wordsForTrue ↔ ∃ word ∈ wordsForTrue, Text.Caseless s word := lower_mem_iff (by decide)
  have hfalse : Text.lower s ∈ wordsForFalse ↔ ∃ word ∈ wordsForFalse, Text.Caseless s word := lower_mem_iff (by decide)
  have hapart : ∀ word ∈ wordsForTrue, word ∉ wordsForFalse := by decide
  rw [truthOfWord]
  constructor
  · intro h
    split at h
    next hmem =>
      obtain rfl := Option.some.inj h
      obtain ⟨word, hword, hcaseless⟩ := htrue.1 hmem
      exact .yes hword hcaseless
    next =>
      split at h
      next hmem =>
        obtain rfl := Option.some.inj h
        obtain ⟨word, hword, hcaseless⟩ := hfalse.1 hmem
        exact .no hword hcaseless
      next => cases h
  · intro h
    cases h with
    | no hword hcaseless =>
      have hmem := hfalse.2 ⟨_, hword, hcaseless⟩
      rw [if_neg fun h => hapart _ h hmem, if_pos hmem]
    | yes hword hcaseless => rw [if_pos (htrue.2 ⟨_, hword, hcaseless⟩)]

theorem truthOfInt_eq_some_iff (i : Int) (b : Bool) : truthOfInt i = some b ↔ i = 0 ∧ b = false ∨ i = 1 ∧ b = true := by
  rw [truthOfInt]
  split
  next h => simp [h, eq_comm]
  next h =>
    split
    next h' => simp [h', eq_comm]
    next h' => simp [h, h']

theorem truth_int_eq_ok_iff (i : Int) (b : Bool) : truth (Json.int i) = .ok b ↔ truthOfInt i = some b := by
  have hfar : ¬(-Decimal.wordBound ≤ i ∧ i < Decimal.wordBound) → truthOfInt i = none := fun hi => by
    rw [Decimal.wordBound] at hi
    rw [truthOfInt, if_neg (by omega), if_neg (by omega)]
  simp only [truth, readable, shape]
  split
  · cases truthOfInt i <;> simp [Checked.fault]
  next hi =>
    rw [hfar hi]
    simp [Checked.fault]

theorem truth_double_eq_ok_iff (x : Float) (b : Bool) :
    truth (Json.double x) = .ok b ↔ ∃ i, integerOfDouble x = .ok i ∧ truthOfInt i = some b := by
  simp only [truth, readable, shape]
  cases integerOfDouble x with
  | error problem => simp [Checked.fault]
  | ok i => cases hi : truthOfInt i <;> simp [Checked.fault, hi]

theorem truth_str_eq_ok_iff (s : String) (b : Bool) : truth (Json.str s) = .ok b ↔ truthOfWord s = some b := by
  simp only [truth, readable, shape, textOf?, Option.bind_some]
  cases truthOfWord s <;> simp [Checked.fault]

/-- A value passes for a truth value just if it stands for it. -/
theorem truth_eq_ok_iff (d : Json) (b : Bool) : truth d = .ok b ↔ Stands d b := by
  cases d with
  | bool c =>
    constructor
    · intro h
      obtain rfl := Checked.ok.inj h
      exact .bool _
    · intro h
      cases h
      rfl
  | int i =>
    rw [truth_int_eq_ok_iff, truthOfInt_eq_some_iff]
    constructor
    · rintro (⟨rfl, rfl⟩ | ⟨rfl, rfl⟩)
      · exact .zero
      · exact .one
    · intro h
      cases h <;> simp
  | double x =>
    simp only [truth_double_eq_ok_iff, truthOfInt_eq_some_iff]
    constructor
    · rintro ⟨i, hx, ⟨rfl, rfl⟩ | ⟨rfl, rfl⟩⟩
      · exact .zeroDouble ((integerOfDouble_eq_zero_iff x).1 hx)
      · exact .oneDouble ((integerOfDouble_eq_one_iff x).1 hx)
    · intro h
      cases h with
      | zeroDouble h => exact ⟨0, (integerOfDouble_eq_zero_iff x).2 h, .inl ⟨rfl, rfl⟩⟩
      | oneDouble h => exact ⟨1, (integerOfDouble_eq_one_iff x).2 h, .inr ⟨rfl, rfl⟩⟩
  | str s => rw [truth_str_eq_ok_iff, truthOfWord_eq_some_iff]
  | _ => exact iff_of_false nofun nofun

/-! ### Probabilities -/

/-- A value tells a number from zero to one: the truth values and the integers that are one of the two ends, and the doubles
between them, which may stand in a text. -/
inductive Tells : Json → Float → Prop
  | bool (b : Bool) : Tells (.bool b) (if b then 1.0 else 0.0)
  | zero : Tells (.int 0) 0.0
  | one : Tells (.int 1) 1.0
  | double {x : Float} (hzero : 0.0 ≤ x) (hone : x ≤ 1.0) : Tells (.double x) x
  | text {s : String} {x : Float} (hread : Decimal.readDouble? s = some x) (hzero : 0.0 ≤ x) (hone : x ≤ 1.0) : Tells (.str s) x

theorem probability_eq_ok_iff_number (d : Json) (x : Float) :
    probability d = .ok x ↔ number d = .ok x ∧ 0.0 ≤ x ∧ x ≤ 1.0 := by
  constructor
  · intro h
    refine ⟨?_, bounds_of_probability h⟩
    rw [probability] at h
    cases hn : number d with
    | faulty faults =>
      rw [hn] at h
      cases h
    | ok y =>
      rw [hn] at h
      simp only [Checked.bind] at h
      split at h
      · cases h
      · split at h
        · cases h
        · exact h
  · rintro ⟨hn, hzero, hone⟩
    rw [probability, hn]
    simp only [Checked.bind]
    rw [if_neg (not_not_intro hone), if_neg (not_not_intro hzero)]

theorem number_int_eq_ok_iff (i : Int) (x : Float) : number (Json.int i) = .ok x ↔ Decimal.ofInt? i = some x := by
  simp only [number, readable, shape]
  cases Decimal.ofInt? i <;> simp [Checked.fault]

theorem number_str_eq_ok_iff (s : String) (x : Float) : number (Json.str s) = .ok x ↔ Decimal.readDouble? s = some x := by
  simp only [number, readable, shape, textOf?, Option.bind_some]
  cases Decimal.readDouble? s <;> simp [Checked.fault]

/-- A value passes for a probability just if it tells it. -/
theorem probability_eq_ok_iff (d : Json) (x : Float) : probability d = .ok x ↔ Tells d x := by
  rw [probability_eq_ok_iff_number]
  cases d with
  | bool b =>
    constructor
    · rintro ⟨h, -⟩
      obtain rfl := Checked.ok.inj h
      exact .bool b
    · intro h
      cases h
      exact ⟨rfl, by cases b <;> decide +kernel⟩
  | int i =>
    rw [number_int_eq_ok_iff]
    constructor
    · rintro ⟨hi, hbounds⟩
      obtain rfl := Decimal.eq_ofInt_of_ofInt? hi
      rcases (Decimal.bounds_ofInt_iff i).1 hbounds with rfl | rfl
      · exact Decimal.ofInt_zero ▸ .zero
      · exact Decimal.ofInt_one ▸ .one
    · intro h
      cases h <;> decide +kernel
  | double y =>
    constructor
    · rintro ⟨h, hzero, hone⟩
      obtain rfl := Checked.ok.inj h
      exact .double hzero hone
    · intro h
      cases h with
      | double hzero hone => exact ⟨rfl, hzero, hone⟩
  | str s =>
    rw [number_str_eq_ok_iff]
    constructor
    · rintro ⟨hread, hzero, hone⟩
      exact .text hread hzero hone
    · intro h
      cases h with
      | text hread hzero hone => exact ⟨hread, hzero, hone⟩
  | _ => exact iff_of_false (by rintro ⟨h, -⟩; cases h) nofun

end Schema
end Adjudication
