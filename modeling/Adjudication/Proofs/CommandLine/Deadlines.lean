import Adjudication.CommandLine.Arguments
import Adjudication.Proofs.Time.Progress

/-!
Deadlines of the command line. The option takes the numbers of seconds that are not below zero, the infinite one too; what is no
number is refused, for a wait on a token with such a deadline would neither sleep nor end. With the deadlines that are taken,
every round of a wait that does not end it sleeps for some time, and so the wait ends.
-/

namespace Adjudication.CommandLine

open Decimal (isFinite isNotANumber)
open Time (Extended Timeline TokenId)
open Time.Seconds (add larger)

/-! ### What the option takes -/

/-- A deadline that is taken is a number. -/
theorem isNotANumber_of_readDeadline? {text : String} {x : Float} (h : readDeadline? text = some x) :
    isNotANumber x = false := by
  have hzero : 0.0 ≤ x := of_decide_eq_true (Option.filter_eq_some_iff.1 h).2
  rw [Decimal.isNotANumber_eq_false_iff]
  intro hnot
  have hx := Decimal.fromZero hzero
  rw [hnot] at hx
  cases hx

/-- The deadlines of a token and its ancestors are among those that the option takes, each counted from a reading of the
clock. -/
def Allowed (t : Timeline Float) (id : TokenId) : Prop :=
  ∀ i ∈ t.chain id, ∀ d, t.deadline? i = some d → ∃ start text allowed,
    isFinite start = true ∧ readDeadline? text = some allowed ∧ d = add start allowed

variable {t : Timeline Float} {id : TokenId} {seconds : Float}

theorem Allowed.numbered (h : Allowed t id) : t.Numbered (isNotANumber · = false) id := by
  intro i hi d hd
  obtain ⟨start, text, allowed, hstart, hread, rfl⟩ := h i hi d hd
  exact Decimal.isNotANumber_add hstart (isNotANumber_of_readDeadline? hread)

/-- In exact time all deadlines are numbers, too. -/
theorem Allowed.numbered_exactly (h : Allowed t id) : t.exactly.Numbered (· ≠ .notANumber) id := by
  intro i hi d hd
  rw [Timeline.chain_exactly] at hi
  rw [Timeline.deadline?_exactly] at hd
  obtain ⟨x, hx, rfl⟩ := Option.map_eq_some_iff.1 hd
  exact Extended.ofDouble_ne_notANumber (h.numbered i hi x hx)

/-! ### Waits -/

/-- A wait of a number of seconds has a goal. -/
theorem isNotANumber_goal (hnow : isFinite t.now = true) (hseconds : isFinite seconds = true) :
    isNotANumber (add t.now (larger Time.Seconds.zero seconds)) = false := by
  refine Decimal.isNotANumber_add hnow ?_
  rw [larger]
  split
  · exact Decimal.isNotANumber_eq_false_iff.2 (Decimal.isFinite_iff.1 hseconds).1
  · decide +kernel

/-- A wait on a token whose deadlines are all among those that the option takes makes progress: from each reading of the clock
on, what is slept through is positive, and no time is left only to a token that counts as cancelled. So the wait ends, as time
that is not rounded goes by. It ends on a clock of doubles too, unless that comes to show two to the power of 48 seconds, where a
twentieth of a second may be rounded away. -/
theorem wait_progresses (hid : (id : Nat) < t.tokens.length) (hnow : isFinite t.now = true)
    (hseconds : isFinite seconds = true) (hallowed : Allowed t id) :
    (∀ u, t.Rounds id (add t.now (larger Time.Seconds.zero seconds)) u → isFinite u.now = true →
      u.Progresses id (add t.now (larger Time.Seconds.zero seconds))) ∧
    (∃ n b u, ∀ patience, n ≤ patience → t.exactly.wait patience id (.ofDouble seconds) = some (b, u)) ∧
    (0.0 ≤ t.now → (∃ n b u, ∀ patience, n ≤ patience → t.wait patience id seconds = some (b, u)) ∨
      ∃ u, t.Rounds id (add t.now (larger Time.Seconds.zero seconds)) u ∧ ¬u.now < 281474976710656.0) := by
  have hgoal := isNotANumber_goal hnow hseconds
  refine ⟨fun u hu hu' => hu.progresses Time.telling_double hallowed.numbered hgoal hu', ?_, fun hzero => ?_⟩
  · obtain ⟨now, hnow⟩ := Extended.exists_ofDouble hnow
    obtain ⟨length, hlength⟩ := Extended.exists_ofDouble hseconds
    rw [hlength]
    refine Timeline.exists_wait_exact ?_ hnow hallowed.numbered_exactly length
    rwa [Timeline.exactly, List.length_map]
  · exact Timeline.ends_or_late hgoal _ hid hzero hallowed.numbered (Nat.lt_add_left _ (Nat.lt_succ_self _))

/-- A token with an infinite deadline, and its child. -/
def unhurried : Timeline Float := ⟨0.0, [⟨false, some (0.0 + 1.0 / 0.0), none⟩, ⟨false, none, some 0⟩], []⟩

theorem wait_progresses_unhurried :
    Allowed unhurried 1 ∧
    (∀ u, unhurried.Rounds 1 (add 0.0 (larger Time.Seconds.zero 1.0)) u → isFinite u.now = true →
      u.Progresses 1 (add 0.0 (larger Time.Seconds.zero 1.0))) ∧
    (∃ n b u, ∀ patience, n ≤ patience → unhurried.exactly.wait patience 1 (.ofDouble 1.0) = some (b, u)) ∧
    ((∃ n b u, ∀ patience, n ≤ patience → unhurried.wait patience 1 1.0 = some (b, u)) ∨
      ∃ u, unhurried.Rounds 1 (add 0.0 (larger Time.Seconds.zero 1.0)) u ∧ ¬u.now < 281474976710656.0) := by
  have hread : readDeadline? "inf" = some (1.0 / 0.0) := by decide +kernel
  have hallowed : Allowed unhurried 1 := by
    intro i hi d hd
    rw [show unhurried.chain 1 = [1, 0] from rfl] at hi
    rcases List.mem_pair.1 hi with rfl | rfl
    · simp [unhurried, Timeline.deadline?] at hd
    · obtain rfl : (0.0 + 1.0 / 0.0 : Float) = d := Option.some.inj hd
      exact ⟨0.0, "inf", 1.0 / 0.0, by decide +kernel, hread, rfl⟩
  obtain ⟨hrounds, hexact, hdouble⟩ :=
    @wait_progresses unhurried 1 1.0 (by decide) (by decide +kernel) (by decide +kernel) hallowed
  exact ⟨hallowed, hrounds, hexact, hdouble (by decide +kernel)⟩

/-- The child's wait ends when the second is over. -/
example : (unhurried.wait 22 1 1.0).map Prod.fst = some false := by decide +kernel

/-! ### What is no number -/

/-- A token whose deadline is no number. -/
def stalled : Timeline Float := ⟨0.0, [⟨false, some (0.0 + 0.0 / 0.0), none⟩], []⟩

/-- A round of a wait on it neither sleeps nor ends. -/
theorem waitRound_stalled : Timeline.waitRound 0 1.0 stalled = .again 0.0 stalled := by rfl

theorem waitRounds_stalled : ∀ patience : Nat, Timeline.waitRounds 0 1.0 patience stalled = none
  | 0 => rfl
  | patience + 1 => by
    rw [Timeline.waitRounds, waitRound_stalled]
    exact waitRounds_stalled patience

/-- The option refuses what is no number. A token with such a deadline has no time left and does not count as cancelled, and no
wait on it ends. -/
theorem stalled_by_notANumber :
    (Decimal.readDouble? "nan").map isNotANumber = some true ∧ readDeadline? "nan" = none ∧
      stalled.remaining 0 = some 0.0 ∧ (stalled.isCancelled 0).1 = false ∧ ∀ patience, stalled.wait patience 0 1.0 = none :=
  ⟨by decide +kernel, by decide +kernel, by decide +kernel, by decide +kernel, waitRounds_stalled⟩

end Adjudication.CommandLine
