import Adjudication.Proofs.Decimal.Numerals

/-!
How a decimal is spelled in the plain layout: digits before and after a point and an exponent, at least one of which is
written, and the digits together, with the place of the point and the exponent, are the decimal again.
-/

namespace Adjudication.Decimal

def fractionText : List Char → List Char
  | [] => []
  | ds => '.' :: ds

def exponentText : Option Int → List Char
  | none => []
  | some e => 'e' :: (if e < 0 then '-' else '+') :: padLeft 2 (digitsOf e.natAbs)

/-- A text is spelled of the digits before the point, those after it, and the exponent. -/
structure Spells (text whole fraction : List Char) (exponent : Option Int) : Prop where
  text_eq : text = whole ++ (fractionText fraction ++ exponentText exponent)
  isDigit_whole : ∀ c ∈ whole, c.isDigit = true
  isDigit_fraction : ∀ c ∈ fraction, c.isDigit = true
  whole_ne_nil : whole ≠ []
  whole_of_zero : whole.head? = some '0' → whole = ['0']
  marked : fraction ≠ [] ∨ exponent ≠ none

theorem valueOf_append_zeros (ds : List Char) (k : Nat) : valueOf (ds ++ List.replicate k '0') = valueOf ds * 10 ^ k := by
  induction k with
  | zero => simp
  | succ k ih =>
    rw [List.replicate_succ', ← List.append_assoc, valueOf_append, ih, Nat.sub_self, Nat.add_zero, Nat.pow_succ,
      Nat.mul_left_comm, Nat.mul_comm 10, ← Nat.mul_assoc, Nat.mul_comm]

theorem isDigit_of_mem_digitsOf {n : Nat} {c : Char} (h : c ∈ digitsOf n) : c.isDigit = true :=
  Nat.isDigit_of_mem_toDigits (by decide) (by decide) h

theorem digitsOf_ne_nil (n : Nat) : digitsOf n ≠ [] := Nat.toDigits_ne_nil

variable {s : Scientific} (hs : 0 < s.digits)

include hs

/-- Digits with zeros after them and a point at the end. -/
theorem spells_whole (k : Nat) :
    Spells (digitsOf s.digits ++ List.replicate k '0' ++ ['.', '0']) (digitsOf s.digits ++ List.replicate k '0') ['0'] none ∧
      valueOf (digitsOf s.digits ++ List.replicate k '0' ++ ['0']) = s.digits * 10 ^ (k + 1) := by
  refine ⟨⟨rfl, ?_, ?_, ?_, ?_, ?_⟩, ?_⟩
  · intro c hc
    rcases List.mem_append.1 hc with hc | hc
    · exact isDigit_of_mem_digitsOf hc
    · rw [(List.mem_replicate.1 hc).2]
      rfl
  · exact List.forall_mem_singleton.2 rfl
  · exact List.append_ne_nil_of_left_ne_nil (digitsOf_ne_nil _) _
  · intro hzero
    rw [List.head?_append, Option.or_of_isSome (List.isSome_head?.2 (digitsOf_ne_nil _))] at hzero
    exact absurd hzero (head_digitsOf hs)
  · exact .inl (List.cons_ne_nil _ _)
  · rw [List.append_assoc, show ['0'] = List.replicate 1 '0' from rfl, List.replicate_append_replicate, valueOf_append_zeros,
      valueOf_digitsOf]

/-- Without zeros in front of the digits the first one is no zero. -/
theorem length_of_head_padLeft {width : Nat} (h : (padLeft width (digitsOf s.digits)).head? = some '0') :
    (padLeft width (digitsOf s.digits)).length = width := by
  by_contra hne
  have hlength : (padLeft width (digitsOf s.digits)).length = max width (digitsOf s.digits).length := by
    rw [padLeft, List.length_append, List.length_replicate]
    omega
  have hpadded : padLeft width (digitsOf s.digits) = digitsOf s.digits := by
    rw [padLeft, Nat.sub_eq_zero_of_le (by omega)]
    rfl
  exact head_digitsOf hs (hpadded ▸ h)

/-- Digits with a point before some of them, after zeros if there are too few. -/
theorem spells_split {places : Nat} (hplaces : 0 < places) {padded : List Char}
    (hpadded : padLeft (places + 1) (digitsOf s.digits) = padded) :
    Spells (padded.take (padded.length - places) ++ '.' :: padded.drop (padded.length - places))
        (padded.take (padded.length - places)) (padded.drop (padded.length - places)) none ∧
      valueOf (padded.take (padded.length - places) ++ padded.drop (padded.length - places)) = s.digits ∧
      (padded.drop (padded.length - places)).length = places := by
  have hlength : places + 1 ≤ padded.length := by
    rw [← hpadded, padLeft, List.length_append, List.length_replicate]
    omega
  have hdigits : ∀ c ∈ padded, c.isDigit = true := fun c hc => isDigit_of_mem_padLeft (hpadded ▸ hc)
  have hdrop : (padded.drop (padded.length - places)).length = places := by
    rw [List.length_drop]
    omega
  have hfraction : padded.drop (padded.length - places) ≠ [] := fun hnil => by
    rw [hnil, List.length_nil] at hdrop
    omega
  refine ⟨⟨?_, ?_, ?_, ?_, ?_, ?_⟩, ?_, hdrop⟩
  · obtain ⟨c, rest, hcons⟩ := List.exists_cons_of_ne_nil hfraction
    rw [hcons, fractionText, exponentText, List.append_nil]
    exact List.cons_ne_nil _ _
  · exact fun c hc => hdigits c (List.mem_of_mem_take hc)
  · exact fun c hc => hdigits c (List.mem_of_mem_drop hc)
  · intro hnil
    have htake := congrArg List.length hnil
    rw [List.length_take, List.length_nil] at htake
    omega
  · intro hzero
    rw [List.head?_take, if_neg (by omega), ← hpadded] at hzero
    have hfull : padded.length = places + 1 := hpadded ▸ length_of_head_padLeft hs hzero
    rw [hpadded] at hzero
    obtain ⟨rest, rfl⟩ := List.head?_eq_some_iff.1 hzero
    rw [hfull, Nat.add_sub_cancel_left]
    rfl
  · exact .inl hfraction
  · rw [List.take_append_drop, ← hpadded, valueOf_padLeft]

/-- Among the digits of a decimal, zeros at their end are the only ones that it does not have. -/
theorem spells_positional : ∃ whole fraction, ∃ k : Nat, Spells (positional .plain s) whole fraction none ∧
    valueOf (whole ++ fraction) = s.digits * 10 ^ k ∧ -(fraction.length : Int) + k = s.exponent := by
  rw [positional]
  dsimp only
  split
  next he =>
    obtain ⟨hspells, hvalue⟩ := spells_whole hs s.exponent.toNat
    refine ⟨_, _, _, hspells, hvalue, ?_⟩
    simp only [List.length_singleton]
    omega
  next he =>
    have hplaces : 0 < (-s.exponent).toNat := by omega
    obtain ⟨hspells, hvalue, hlength⟩ := spells_split hs hplaces rfl
    refine ⟨_, _, 0, hspells, by rw [hvalue, Nat.pow_zero, Nat.mul_one], ?_⟩
    rw [hlength]
    omega

theorem spells_scientific : ∃ whole fraction e, Spells (scientific .plain s) whole fraction (some e) ∧
    valueOf (whole ++ fraction) = s.digits ∧ e - fraction.length = s.exponent := by
  have hhead := head_digitsOf hs
  have hvalue := valueOf_digitsOf s.digits
  have hdigits : ∀ c ∈ digitsOf s.digits, c.isDigit = true := fun c => isDigit_of_mem_digitsOf
  rw [scientific]
  generalize digitsOf s.digits = ds at hhead hvalue hdigits
  cases ds with
  | nil =>
    rw [← hvalue] at hs
    exact absurd hs (by decide)
  | cons c rest =>
    refine ⟨[c], rest, s.exponent + rest.length, ⟨?_, ?_, ?_, ?_, ?_, ?_⟩, hvalue, by omega⟩
    · cases rest <;> rfl
    · exact fun d hd => hdigits d (List.mem_singleton.1 hd ▸ List.mem_cons_self)
    · exact fun d hd => hdigits d (List.mem_cons_of_mem _ hd)
    · exact List.cons_ne_nil _ _
    · exact fun hzero => absurd hzero hhead
    · exact .inr (Option.some_ne_none _)

/-- A decimal that is not zero is spelled in the plain layout by its digits, and zeros that the exponent makes up for. -/
theorem spells_magnitude : ∃ whole fraction exponent, ∃ k : Nat, Spells (Layout.plain.magnitude s) whole fraction exponent ∧
    valueOf (whole ++ fraction) = s.digits * 10 ^ k ∧ exponent.getD 0 - fraction.length + k = s.exponent := by
  rw [Layout.magnitude]
  split
  · obtain ⟨whole, fraction, k, hspells, hvalue, hexponent⟩ := spells_positional hs
    exact ⟨whole, fraction, none, k, hspells, hvalue, by simpa using hexponent⟩
  · obtain ⟨whole, fraction, e, hspells, hvalue, hexponent⟩ := spells_scientific hs
    exact ⟨whole, fraction, some e, 0, hspells, by simpa using hvalue, by simpa using hexponent⟩

end Adjudication.Decimal
