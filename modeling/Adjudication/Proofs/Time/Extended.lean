import Adjudication.Proofs.Time.Waiting
import Adjudication.Proofs.Decimal.Differences

/-!
Exact time with infinite lengths. Every double is such a number of seconds: the finite ones are rationals, and the infinite ones
and the one that is no number stand for themselves. Sums and differences are compared as those of doubles are, but nothing is
rounded, so that a clock that is moved always goes on.
-/

namespace Adjudication.Time

/-- Exact numbers of seconds, the infinite ones, and the one that is no number. -/
inductive Extended where
  | number (x : ℚ)
  | infinite (negative : Bool)
  | notANumber
  deriving DecidableEq

namespace Extended

def neg : Extended → Extended
  | number x => number (-x)
  | infinite negative => infinite !negative
  | notANumber => notANumber

def add : Extended → Extended → Extended
  | notANumber, _ => notANumber
  | _, notANumber => notANumber
  | infinite a, infinite b => if a = b then infinite a else notANumber
  | infinite a, number _ => infinite a
  | number _, infinite b => infinite b
  | number x, number y => number (x + y)

def le : Extended → Extended → Bool
  | notANumber, _ => false
  | _, notANumber => false
  | infinite a, infinite b => a || !b
  | infinite a, number _ => a
  | number _, infinite b => !b
  | number x, number y => x ≤ y

/-- An integer number of times. -/
def times (n : Int) : Extended → Extended
  | number x => number (n * x)
  | infinite negative => if n = 0 then notANumber else infinite (negative != decide (n < 0))
  | notANumber => notANumber

/-- The double nearest to a number. -/
def toDouble : Extended → Float
  | number x => Float.ofInt x.num / Float.ofNat x.den
  | infinite negative => if negative then -(1.0 / 0.0) else 1.0 / 0.0
  | notANumber => 0.0 / 0.0

/-- Whole microseconds, a half going to the even neighbour. -/
def microseconds : Extended → Except ClockFault Int
  | number x =>
    let magnitude : Int := Decimal.roundDiv (x.num.natAbs * 1000000) x.den
    .ok (if x.num < 0 then -magnitude else magnitude)
  | infinite _ => .error .infinite
  | notANumber => .error .notANumber

instance : Seconds Extended where
  times := times
  reaches _ _ := true
  zero := number 0
  add := add
  sub a b := add a b.neg
  le := le
  lt a b := le a b && !le b a
  ratio n d := number (n / d)
  microseconds := microseconds
  tenths x := Decimal.fixedText 1 x.toDouble
  brief x := Decimal.generalText x.toDouble

/-- The number that a double is. -/
def ofDouble (x : Float) : Extended :=
  match Decimal.classify x with
  | .finite b =>
    let magnitude : ℚ := b.mantissa * 2 ^ b.exponent
    number (if b.negative then -magnitude else magnitude)
  | .infinite negative => infinite negative
  | .notANumber => notANumber

theorem exists_ofDouble {x : Float} (h : Decimal.isFinite x = true) : ∃ q, ofDouble x = number q := by
  rw [Decimal.isFinite] at h
  split at h
  next hclass =>
    rw [ofDouble, hclass]
    exact ⟨_, rfl⟩
  next => cases h

theorem ofDouble_ne_notANumber {x : Float} (h : Decimal.isNotANumber x = false) : ofDouble x ≠ notANumber := by
  rw [Decimal.isNotANumber] at h
  rw [ofDouble]
  cases hclass : Decimal.classify x with
  | finite b => simp
  | infinite negative => simp
  | notANumber => simp [hclass] at h

variable {x y : ℚ} {d : Extended}

@[simp] theorem zero_eq : (Seconds.zero : Extended) = number 0 := rfl

@[simp] theorem add_number : Seconds.add (number x) (number y) = number (x + y) := rfl

@[simp] theorem sub_number : Seconds.sub (number x) (number y) = number (x - y) := by
  rw [sub_eq_add_neg]
  rfl

@[simp] theorem le_number : Seconds.le (number x) (number y) = true ↔ x ≤ y := decide_eq_true_iff

theorem lt_number : Seconds.lt (number x) (number y) = true ↔ x < y := by
  change (decide (x ≤ y) && !decide (y ≤ x)) = true ↔ x < y
  rw [Bool.and_eq_true, Bool.not_eq_true', decide_eq_true_eq, decide_eq_false_iff_not, lt_iff_le_not_ge]

theorem slice_eq : (Seconds.slice : Extended) = number (1 / 20) := rfl

/-- When the time until a deadline has gone by, the deadline is reached. -/
theorem le_add_sub (hd : d ≠ notANumber) : Seconds.le d (Seconds.add (number x) (Seconds.sub d (number x))) = true := by
  cases d with
  | number y => simp
  | infinite negative => cases negative <;> rfl
  | notANumber => exact absurd rfl hd

end Extended

/-! ### Timelines in exact time -/

namespace Timeline

open Extended (ofDouble)

/-- A timeline whose clock goes on in exact time. -/
def exactly (t : Timeline Float) : Timeline Extended where
  now := ofDouble t.now
  tokens := t.tokens.map fun token => ⟨token.flagged, token.deadline.map ofDouble, token.parent⟩
  scheduled := t.scheduled.map fun e => (ofDouble e.1, e.2)

variable (t : Timeline Float)

theorem lineage_exactly : ∀ (fuel : Nat) (id : TokenId), t.exactly.lineage fuel id = t.lineage fuel id
  | 0, _ => rfl
  | fuel + 1, id => by
    rw [lineage, lineage, exactly, List.getElem?_map]
    cases t.tokens[id]? with
    | none => rfl
    | some token =>
      dsimp only [Option.map_some]
      cases token.parent with
      | none => rfl
      | some parent => exact congrArg (id :: ·) (lineage_exactly fuel parent)

theorem chain_exactly (id : TokenId) : t.exactly.chain id = t.chain id := by
  rw [chain, chain, lineage_exactly, exactly, List.length_map]

theorem deadline?_exactly (id : TokenId) : t.exactly.deadline? id = (t.deadline? id).map ofDouble := by
  rw [deadline?, deadline?, exactly, List.getElem?_map]
  cases t.tokens[id]? <;> rfl

end Timeline
end Adjudication.Time
