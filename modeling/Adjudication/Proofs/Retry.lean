import Adjudication.Proofs.Act
import Mathlib.Logic.Relation

/-!
The phases of a loop that calls again. Every phase but an end is left by one step, the number of attempts bounds how
many phases there can be, and so the loop runs from its first attempt to a value or to a stop. A run is known from
the phases that it comes to: it gives the value with which a phase has ended, or the stop that a phase ran into.
-/

namespace Adjudication.Retry

variable {S ε σ α : Type} {r : Retry S ε σ α} {s t u : S} {a n : Nat} {d : σ} {e : ε} {v : α} {p q : Phase σ α}

/-! ### One phase -/

theorem step_ended : r.step (.ended v) s = (.ok (.ended v), s) := rfl

theorem step_calling_of_ok (h : r.call a s = (.ok v, t)) : r.step (.calling a) s = (.ok (.ended v), t) := by
  simp only [step, h]

theorem step_calling_of_error (h : r.call a s = (.error e, t)) :
    r.step (.calling a) s = r.afterFailure a e t := by
  simp only [step, h]

theorem step_pausing (a : Nat) (d : σ) (s : S) :
    r.step (.pausing a d) s = match r.pause d s with
      | (.ok (), t) => (.ok (.calling (a + 1)), t)
      | (.error e, t) => (.error (.escaped e), t) := by
  rw [step, escaping, Act.adapt_run, Act.bind_run]
  rcases r.pause d s with ⟨_ | _, _⟩ <;> rfl

theorem step_pausing_of_ok (h : r.pause d s = (.ok (), t)) : r.step (.pausing a d) s = (.ok (.calling (a + 1)), t) := by
  rw [step_pausing, h]

theorem step_pausing_of_error (h : r.pause d s = (.error e, t)) :
    r.step (.pausing a d) s = (.error (.escaped e), t) := by
  rw [step_pausing, h]

theorem afterFailure_of_not_retryable (h : r.retryable e = false) :
    r.afterFailure a e s = (.error (.escaped e), s) := by
  simp [afterFailure, h]

theorem afterFailure_of_last (h : r.retryable e = true) :
    r.afterFailure r.attempts e s = (.error (.exhausted r.attempts e), s) := by
  simp [afterFailure, h]

/-- A failed attempt that is not the last one is followed by a pause as soon as its length is known and noted. -/
theorem afterFailure_of_repeated (h : r.retryable e = true) (ha : a ≠ r.attempts) :
    r.afterFailure a e s = match r.backoff a r.attempts s with
      | (.ok d, t) =>
        match r.note a e d t with
        | (.ok (), u) => (.ok (.pausing a d), u)
        | (.error e', u) => (.error (.escaped e'), u)
      | (.error e', t) => (.error (.escaped e'), t) := by
  simp only [afterFailure, h, ha, Bool.not_true, if_false, Bool.false_eq_true]
  rw [escaping, Act.adapt_run, Act.bind_run]
  rcases r.backoff a r.attempts s with ⟨_ | d, t⟩
  · rfl
  · dsimp only
    rw [Act.bind_run]
    rcases r.note a e d t with ⟨_ | _, _⟩ <;> rfl

/-! ### From phase to phase -/

/-- A phase leads to another one. -/
def Passes (r : Retry S ε σ α) (x y : Phase σ α × S) : Prop := r.step x.1 x.2 = (.ok y.1, y.2)

/-- The phases that a loop comes to from its first attempt on, each with the state that it finds. -/
def Reaches (r : Retry S ε σ α) (s : S) (p : Phase σ α) (t : S) : Prop :=
  Relation.ReflTransGen r.Passes (.calling 1, s) (p, t)

theorem Reaches.start : r.Reaches s (.calling 1) s := .refl

theorem Reaches.step (h : r.Reaches s p t) (hp : r.step p t = (.ok q, u)) : r.Reaches s q u := h.tail hp

/-- An attempt leads to the end with its value, or to the pause after it if it is not the last one. -/
theorem step_calling_cases (h : r.step (.calling a) s = (.ok q, t)) :
    (∃ v, q = .ended v) ∨ (∃ d, q = .pausing a d ∧ a ≠ r.attempts) := by
  rcases hc : r.call a s with ⟨e | v, u⟩
  · rw [step_calling_of_error hc] at h
    cases hr : r.retryable e with
    | false => simp [afterFailure_of_not_retryable hr] at h
    | true =>
      by_cases ha : a = r.attempts
      · subst ha
        simp [afterFailure_of_last hr] at h
      · rw [afterFailure_of_repeated hr ha] at h
        split at h
        next d _ _ =>
          split at h
          · obtain ⟨rfl, -⟩ := Act.ok_eq_ok.1 h
            exact .inr ⟨d, rfl, ha⟩
          · simp at h
        next => simp at h
  · rw [step_calling_of_ok hc] at h
    obtain ⟨rfl, -⟩ := Act.ok_eq_ok.1 h
    exact .inl ⟨v, rfl⟩

theorem step_pausing_cases (h : r.step (.pausing a d) s = (.ok q, t)) :
    q = .calling (a + 1) ∧ r.pause d s = (.ok (), t) := by
  rw [step_pausing] at h
  split at h
  next u hu =>
    obtain ⟨rfl, rfl⟩ := Act.ok_eq_ok.1 h
    exact ⟨rfl, hu⟩
  next => simp at h

/-- A phase that a loop of `n` attempts may be in. -/
def Phase.Within (n : Nat) : Phase σ α → Prop
  | .calling a => 1 ≤ a ∧ a ≤ n
  | .pausing a _ => 1 ≤ a ∧ a < n
  | .ended _ => True

/-- How many phases may still follow. -/
def Phase.left (n : Nat) : Phase σ α → Nat
  | .calling a => 2 * (n - a) + 1
  | .pausing a _ => 2 * (n - a)
  | .ended _ => 0

theorem Phase.Within.step (hp : p.Within r.attempts) (h : r.step p s = (.ok q, t)) : q.Within r.attempts := by
  cases p with
  | calling a =>
    rcases step_calling_cases h with ⟨v, rfl⟩ | ⟨d, rfl, ha⟩
    · trivial
    · exact ⟨hp.1, Nat.lt_of_le_of_ne hp.2 ha⟩
  | pausing a d =>
    obtain ⟨rfl, -⟩ := step_pausing_cases h
    exact ⟨by omega, hp.2⟩
  | ended v =>
    obtain ⟨rfl, -⟩ := Act.ok_eq_ok.1 h
    trivial

/-- Every phase but an end has fewer phases after it than the one before. -/
theorem Phase.left_step (hp : p.Within r.attempts) (hne : ∀ v, p ≠ .ended v) (h : r.step p s = (.ok q, t)) :
    q.left r.attempts < p.left r.attempts := by
  cases p with
  | calling a =>
    rcases step_calling_cases h with ⟨v, rfl⟩ | ⟨d, rfl, -⟩ <;> simp [left]
  | pausing a d =>
    obtain ⟨rfl, -⟩ := step_pausing_cases h
    have : a < r.attempts := hp.2
    simp only [left]
    omega
  | ended v => exact absurd rfl (hne v)

/-! ### The whole loop -/

theorem run_of_no_attempts (hn : r.attempts < 1) : r.run s = (.error .noAttempts, s) := by
  rw [run, if_pos hn]
  rfl

theorem runFrom_ended (k : Nat) : r.runFrom k (.ended v) s = (.ok v, s) := by
  cases k <;> rfl

theorem runFrom_of_step_ok (k : Nat) (h : r.step p s = (.ok q, t)) : r.runFrom (k + 1) p s = r.runFrom k q t := by
  cases p with
  | ended v =>
    obtain ⟨rfl, rfl⟩ := Act.ok_eq_ok.1 h
    rw [runFrom_ended, runFrom_ended]
  | _ => exact Act.bind_of_ok h

theorem runFrom_of_step_error (k : Nat) {e : Stop ε} (h : r.step p s = (.error e, t)) :
    r.runFrom (k + 1) p s = (.error e, t) := by
  cases p with
  | ended v => simp [step_ended] at h
  | _ => exact Act.bind_of_error h

/-- Whatever phase a run comes to, it goes on from there with phases to spare. -/
theorem Reaches.run_eq_runFrom (hn : 1 ≤ r.attempts) (h : r.Reaches s p t) :
    p.Within r.attempts ∧ ∃ k, p.left r.attempts ≤ k ∧ r.run s = r.runFrom k p t := by
  suffices hx : ∀ x : Phase σ α × S, Relation.ReflTransGen r.Passes (.calling 1, s) x →
      x.1.Within r.attempts ∧ ∃ k, x.1.left r.attempts ≤ k ∧ r.run s = r.runFrom k x.1 x.2 from hx _ h
  intro x hx
  induction hx with
  | refl =>
    refine ⟨⟨Nat.le_refl 1, hn⟩, 2 * r.attempts, ?_, ?_⟩
    · simp only [Phase.left]
      omega
    · rw [run, if_neg (by omega)]
  | @tail y z _ hyz ih =>
    obtain ⟨hw, k, hk, hrun⟩ := ih
    refine ⟨hw.step hyz, ?_⟩
    by_cases hy : ∃ v, y.1 = .ended v
    · obtain ⟨v, hv⟩ := hy
      simp only [Passes, hv, step_ended, Act.ok_eq_ok] at hyz
      refine ⟨k, ?_, ?_⟩
      · rw [← hyz.1]
        exact Nat.zero_le k
      · rw [hrun, hv, hyz.1, hyz.2]
    · have hlt := Phase.left_step hw (fun v hv => hy ⟨v, hv⟩) hyz
      obtain ⟨k, rfl⟩ := Nat.exists_eq_add_of_le' (show 1 ≤ k by omega)
      exact ⟨k, by omega, by rw [hrun, runFrom_of_step_ok k hyz]⟩

theorem Reaches.within (hn : 1 ≤ r.attempts) (h : r.Reaches s p t) : p.Within r.attempts :=
  (h.run_eq_runFrom hn).1

/-- A loop that comes to an end gives the value that it ended with. -/
theorem Reaches.run_of_ended (hn : 1 ≤ r.attempts) (h : r.Reaches s (.ended v) t) : r.run s = (.ok v, t) := by
  obtain ⟨-, k, -, hrun⟩ := h.run_eq_runFrom hn
  rw [hrun, runFrom_ended]

/-- A loop that runs into a stop comes to that stop. -/
theorem Reaches.run_of_stop (hn : 1 ≤ r.attempts) {e : Stop ε} (h : r.Reaches s p t)
    (hp : r.step p t = (.error e, u)) : r.run s = (.error e, u) := by
  obtain ⟨-, k, hk, hrun⟩ := h.run_eq_runFrom hn
  have hpos : 1 ≤ k := by
    cases p with
    | calling a => exact Nat.le_trans (Nat.le_add_left 1 _) hk
    | pausing a d =>
      have : a < r.attempts := (h.within hn).2
      simp only [Phase.left] at hk
      omega
    | ended v => simp [step_ended] at hp
  obtain ⟨k, rfl⟩ := Nat.exists_eq_add_of_le' hpos
  rw [hrun, runFrom_of_step_error k hp]

/-- How a loop may end: with a value or with a stop, and always from a phase that it comes to. -/
theorem run_ends (hn : 1 ≤ r.attempts) (s : S) :
    (∃ v t, r.Reaches s (.ended v) t ∧ r.run s = (.ok v, t)) ∨
      ∃ p t e u, r.Reaches s p t ∧ r.step p t = (.error e, u) ∧ r.run s = (.error e, u) := by
  -- the phases that may still follow become fewer, from any phase on
  suffices hk : ∀ k p t, p.left r.attempts ≤ k → r.Reaches s p t →
      (∃ v t, r.Reaches s (.ended v) t) ∨ ∃ p t e u, r.Reaches s p t ∧ r.step p t = (.error e, u) by
    rcases hk _ _ _ (Nat.le_refl _) Reaches.start with ⟨v, t, h⟩ | ⟨p, t, e, u, h, hp⟩
    · exact .inl ⟨v, t, h, h.run_of_ended hn⟩
    · exact .inr ⟨p, t, e, u, h, hp, h.run_of_stop hn hp⟩
  intro k
  induction k with
  | zero =>
    intro p t hk h
    cases p with
    | calling a => simp [Phase.left] at hk
    | pausing a d =>
      have : a < r.attempts := (h.within hn).2
      simp only [Phase.left] at hk
      omega
    | ended v => exact .inl ⟨v, t, h⟩
  | succ k ih =>
    intro p t hk h
    by_cases hv : ∃ v, p = .ended v
    · obtain ⟨v, rfl⟩ := hv
      exact .inl ⟨v, t, h⟩
    · rcases hp : r.step p t with ⟨e | q, u⟩
      · exact .inr ⟨p, t, e, u, h, hp⟩
      · have := Phase.left_step (h.within hn) (fun v hq => hv ⟨v, hq⟩) hp
        exact ih q u (by omega) (h.step hp)

end Adjudication.Retry
