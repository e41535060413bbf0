import Adjudication.Proofs.Time.Instants
import Adjudication.Proofs.Time.Operations

/-!
How long a wait takes that is waited through. However many slices it is made in, none goes past the goal, and the wait is over
only when the goal is reached; so it takes just as long as was asked for, on any token and with any number of rounds to spare.
-/

namespace Adjudication.Time

open Seconds (add sub le larger lesser slice)

variable {σ : Type} [Seconds σ] {value : σ → ℚ}

/-- Exact numbers of seconds that can be taken any number of times, without loss too. -/
structure Seconds.Measured (value : σ → ℚ) : Prop extends Seconds.Exact value where
  times : ∀ (n : Int) a, value (Multiple.times n a) = n * value a
  reaches : ∀ (n : Int) (a : σ), Multiple.reaches n a = true

theorem measured_int : Seconds.Measured ofMicroseconds where
  toExact := exact_int
  times n a := by
    show ofMicroseconds (n * a) = n * ofMicroseconds a
    rw [ofMicroseconds, ofMicroseconds, Int.cast_mul, mul_div_assoc]
  reaches _ _ := rfl

namespace Timeline

variable {t u : Timeline σ} {id : TokenId} {goal : σ}

/-- The length of a slice, cut down by the time that is left to a token and by what `cut` allows. -/
theorem slice_inTime (hv : Seconds.Exact value) {near left : σ} {cut : Bool} (h : 0 ≤ value (sub goal t.now))
    (hnear : near = match t.remaining id with | none => sub goal t.now | some r => lesser (sub goal t.now) r)
    (hleft : left = if cut then lesser near slice else near) :
    0 ≤ value left ∧ value left ≤ value (sub goal t.now) := by
  have hnear : 0 ≤ value near ∧ value near ≤ value (sub goal t.now) := by
    cases hremaining : t.remaining id with
    | none =>
      rw [hremaining] at hnear
      exact hnear ▸ ⟨h, le_refl _⟩
    | some r =>
      have hr : 0 ≤ value r := hv.zero ▸ hv.le.1 (leastRemaining_nonneg hv.toOrdered hremaining)
      rw [hremaining] at hnear
      rw [hnear, hv.lesser]
      exact ⟨le_min h hr, min_le_left _ _⟩
  rw [hleft]
  split
  · rw [hv.lesser, hv.slice]
    exact ⟨le_min hnear.1 (by norm_num), (min_le_left _ _).trans hnear.2⟩
  · exact hnear

/-- A round that ends without a cancellation has reached the goal, and one that goes on has not gone past it. -/
theorem waitRound_inTime (hv : Seconds.Exact value) (id : TokenId) (h : value t.now ≤ value goal) :
    (∀ u, waitRound id goal t = .done false u → value u.now = value goal) ∧
    ∀ left u, waitRound id goal t = .again left u → value u.now ≤ value goal := by
  have hsub : value (sub goal t.now) = value goal - value t.now := hv.sub _ _
  rw [waitRound]
  cases hcancelled : (t.isCancelled id).1 with
  | true =>
    rw [show t.isCancelled id = (true, (t.isCancelled id).2) from Prod.ext hcancelled rfl]
    exact ⟨fun _ hu => (by cases hu), fun _ _ hu => by cases hu⟩
  | false =>
    rw [isCancelled_of_fst hcancelled]
    dsimp only
    rw [if_neg Bool.false_ne_true]
    split
    next hover =>
      refine ⟨fun u hu => ?_, fun _ _ hu => by cases hu⟩
      obtain rfl : t = u := (Round.done.inj hu).2
      have hover := hv.le.1 hover
      rw [hsub, hv.zero] at hover
      linarith
    next =>
      refine ⟨fun _ hu => (by cases hu), fun left u hu => ?_⟩
      obtain ⟨hleft, rfl⟩ := Round.again.inj hu
      obtain ⟨hpos, hle⟩ := slice_inTime hv (by rw [hsub]; linarith) rfl hleft.symm
      rw [hleft]
      have hforward : le t.now (add t.now left) = true := hv.le.2 (by rw [hv.add]; linarith)
      have hmoved := hv.le.1 (now_moveTo_le hv.toLinear (some id) t.scheduled.length hforward)
      rw [hv.add] at hmoved
      linarith

theorem now_waitRounds (hv : Seconds.Exact value) : ∀ {patience : Nat} {t : Timeline σ}, value t.now ≤ value goal →
    waitRounds id goal patience t = some (false, u) → value u.now = value goal
  | 0, _, _, hw => by cases hw
  | patience + 1, t, h, hw => by
    obtain ⟨hdone, hagain⟩ := waitRound_inTime hv id h
    rw [waitRounds] at hw
    split at hw
    next cancelled v hround =>
      obtain ⟨rfl, rfl⟩ := Prod.mk.inj (Option.some.inj hw)
      exact hdone _ hround
    next left v hround => exact now_waitRounds hv (hagain left v hround) hw

/-- A wait that is not ended by a cancellation takes as long as it should. -/
theorem now_wait (hv : Seconds.Exact value) {patience : Nat} {seconds : σ} (h : t.wait patience id seconds = some (false, u)) :
    value u.now = value t.now + max 0 (value seconds) := by
  have hgoal : value (add t.now (larger Seconds.zero seconds)) = value t.now + max 0 (value seconds) := by
    rw [hv.add, hv.larger, hv.zero]
  rw [← hgoal]
  refine now_waitRounds hv ?_ h
  rw [hgoal]
  exact le_add_of_nonneg_right (le_max_left _ _)

end Timeline
end Adjudication.Time
