import Adjudication.Proofs.Pool
import Adjudication.Proofs.Retry
import Mathlib.Order.Defs.Unbundled

/-!
What a computation does to its state whatever it comes to, and what it may fail with. A preorder that relates every state
to the one that is left is respected by sequences and rows of computations that respect it, by loops that call them
again, and by pools in which every task does.
-/

namespace Adjudication

variable {S ε ε' σ α β T : Type} {R : S → S → Prop}

namespace Act

/-- Whatever a computation comes to, the state that it leaves is related to the one that it is given. -/
def Respects (R : S → S → Prop) (x : Act S ε α) : Prop := ∀ s, R s (x s).2

theorem Respects.adapt {x : Act S ε α} (h : Respects R x) (f : ε → ε') : Respects R (x.adapt f : Act S ε' α) := h

theorem respects_pure [Std.Refl R] (a : α) : Respects R (pure a : Act S ε α) := Std.Refl.refl

theorem respects_throw [Std.Refl R] (e : ε) : Respects R (throw e : Act S ε α) := Std.Refl.refl

/-- A first part that relates two states is followed by one that respects the relation. -/
theorem rel_bind [IsTrans S R] {x : Act S ε α} {f : α → Act S ε β} {s : S} (hx : R s (x s).2)
    (hf : ∀ a, Respects R (f a)) : R s ((x >>= f) s).2 := by
  rcases hr : x s with ⟨e | a, t⟩
  · rw [bind_of_error hr]
    rwa [hr] at hx
  · rw [bind_of_ok hr]
    rw [hr] at hx
    exact IsTrans.trans _ _ _ hx (hf a t)

theorem Respects.bind [IsTrans S R] {x : Act S ε α} {f : α → Act S ε β} (hx : Respects R x)
    (hf : ∀ a, Respects R (f a)) : Respects R (x >>= f) := fun s => rel_bind (hx s) hf

/-- What is done with a look at the state may rely on that state. -/
theorem respects_get_bind {f : S → Act S ε α} (h : ∀ s, R s (f s s).2) : Respects R (get >>= f) := fun s => by
  rw [bind_of_ok (get_run s)]
  exact h s

theorem respects_mapM [IsPreorder S R] {f : α → Act S ε β} (hf : ∀ a, Respects R (f a)) :
    ∀ xs : List α, Respects R (xs.mapM f)
  | [] => respects_pure _
  | x :: xs => by
    rw [List.mapM_cons]
    exact (hf x).bind fun b => (respects_mapM hf xs).bind fun bs => respects_pure _

theorem respects_forIn [IsPreorder S R] {f : α → β → Act S ε (ForInStep β)} (hf : ∀ a b, Respects R (f a b)) :
    ∀ (xs : List α) (b : β), Respects R (forIn xs b f)
  | [], _ => respects_pure _
  | x :: xs, b => by
    rw [List.forIn_cons]
    refine (hf x b).bind fun step => ?_
    cases step with
    | done b => exact respects_pure b
    | yield b => exact respects_forIn hf xs b

/-! ### Failures -/

/-- Whatever a computation fails with is as told. -/
def Throws (P : ε → Prop) (x : Act S ε α) : Prop := ∀ s e, (x s).1 = .error e → P e

variable {P : ε → Prop}

theorem throws_of_ok {x : Act S ε α} (h : ∀ s, ∃ a, (x s).1 = .ok a) : Throws P x := fun s e he => by
  obtain ⟨a, ha⟩ := h s
  simp [ha] at he

theorem throws_pure (a : α) : Throws P (pure a : Act S ε α) := throws_of_ok fun _ => ⟨a, rfl⟩

theorem throws_throw {e : ε} (h : P e) : Throws P (throw e : Act S ε α) := fun _ _ he => Except.error.inj he ▸ h

theorem Throws.bind {x : Act S ε α} {f : α → Act S ε β} (hx : Throws P x) (hf : ∀ a, Throws P (f a)) :
    Throws P (x >>= f) := fun s e he => by
  rcases hr : x s with ⟨e' | a, t⟩
  · rw [bind_of_error hr] at he
    obtain rfl := Except.error.inj he
    exact hx s e' (congrArg Prod.fst hr)
  · rw [bind_of_ok hr] at he
    exact hf a t e he

theorem throws_mapM {f : α → Act S ε β} (hf : ∀ a, Throws P (f a)) : ∀ xs : List α, Throws P (xs.mapM f)
  | [] => throws_pure _
  | x :: xs => by
    rw [List.mapM_cons]
    exact (hf x).bind fun b => (throws_mapM hf xs).bind fun bs => throws_pure _

theorem throws_forIn {f : α → β → Act S ε (ForInStep β)} (hf : ∀ a b, Throws P (f a b)) :
    ∀ (xs : List α) (b : β), Throws P (forIn xs b f)
  | [], _ => throws_pure _
  | x :: xs, b => by
    rw [List.forIn_cons]
    refine (hf x b).bind fun step => ?_
    cases step with
    | done b => exact throws_pure b
    | yield b => exact throws_forIn hf xs b

/-- Whatever a computation fails with, the failure and the state that is left then are as told. -/
def Leaves (Q : ε → S → Prop) (x : Act S ε α) : Prop := ∀ s e t, x s = (.error e, t) → Q e t

variable {Q : ε → S → Prop}

theorem Throws.leaves {x : Act S ε α} (h : Throws P x) (hQ : ∀ e t, P e → Q e t) : Leaves Q x := fun s e t he =>
  hQ e t (h s e (congrArg Prod.fst he))

theorem Leaves.bind {x : Act S ε α} {f : α → Act S ε β} (hx : Leaves Q x) (hf : ∀ a, Leaves Q (f a)) :
    Leaves Q (x >>= f) := fun s e t he => by
  rcases hr : x s with ⟨e' | a, u⟩
  · rw [bind_of_error hr] at he
    obtain ⟨rfl, rfl⟩ := error_eq_error.1 he
    exact hx s e' u hr
  · rw [bind_of_ok hr] at he
    exact hf a u e t he

theorem leaves_mapM {f : α → Act S ε β} (hf : ∀ a, Leaves Q (f a)) : ∀ xs : List α, Leaves Q (xs.mapM f)
  | [] => fun _ _ _ he => absurd he ok_ne_error
  | x :: xs => by
    rw [List.mapM_cons]
    exact (hf x).bind fun b => (leaves_mapM hf xs).bind fun bs _ _ _ he => absurd he ok_ne_error

end Act

open Act (Respects Leaves)

/-! ### Loops that call again -/

namespace Retry

/-- What is told of a failure and the state is so of the failure that a stop is about. -/
def Stop.Tells (Q : ε → S → Prop) : Stop ε → S → Prop
  | .noAttempts, _ => True
  | .exhausted _ e, s => Q e s
  | .escaped e, s => Q e s
  | .unreachable, _ => True

theorem leaves_step {r : Retry S ε σ α} {Q : ε → S → Prop} (hcall : ∀ a, Leaves Q (r.call a))
    (hbackoff : ∀ a n, Leaves Q (r.backoff a n)) (hnote : ∀ a e d, Leaves Q (r.note a e d))
    (hpause : ∀ d, Leaves Q (r.pause d)) (p : Phase σ α) : Leaves (Stop.Tells Q) (r.step p) := by
  intro s stop t h
  cases p with
  | ended v => exact absurd h Act.ok_ne_error
  | pausing a d =>
    rcases hp : r.pause d s with ⟨e | ⟨⟩, u⟩
    · rw [step_pausing_of_error hp] at h
      obtain ⟨rfl, rfl⟩ := Act.error_eq_error.1 h
      exact hpause d s e u hp
    · rw [step_pausing_of_ok hp] at h
      exact absurd h Act.ok_ne_error
  | calling a =>
    rcases hc : r.call a s with ⟨e | v, u⟩
    · rw [step_calling_of_error hc] at h
      have he : Q e u := hcall a s e u hc
      cases hr : r.retryable e with
      | false =>
        rw [afterFailure_of_not_retryable hr] at h
        obtain ⟨rfl, rfl⟩ := Act.error_eq_error.1 h
        exact he
      | true =>
        by_cases ha : a = r.attempts
        · subst ha
          rw [afterFailure_of_last hr] at h
          obtain ⟨rfl, rfl⟩ := Act.error_eq_error.1 h
          exact he
        · rw [afterFailure_of_repeated hr ha] at h
          rcases hb : r.backoff a r.attempts u with ⟨e' | d, v⟩
          · rw [hb] at h
            obtain ⟨rfl, rfl⟩ := Act.error_eq_error.1 h
            exact hbackoff a r.attempts u e' v hb
          · rw [hb] at h
            dsimp only at h
            rcases hn : r.note a e d v with ⟨e' | ⟨⟩, w⟩
            · rw [hn] at h
              obtain ⟨rfl, rfl⟩ := Act.error_eq_error.1 h
              exact hnote a e d v e' w hn
            · rw [hn] at h
              exact absurd h Act.ok_ne_error
    · rw [step_calling_of_ok hc] at h
      exact absurd h Act.ok_ne_error

/-- A loop stops with what a part of it leaves. -/
theorem leaves_run {r : Retry S ε σ α} {Q : ε → S → Prop} (hcall : ∀ a, Leaves Q (r.call a))
    (hbackoff : ∀ a n, Leaves Q (r.backoff a n)) (hnote : ∀ a e d, Leaves Q (r.note a e d))
    (hpause : ∀ d, Leaves Q (r.pause d)) : Leaves (Stop.Tells Q) r.run := by
  intro s stop t h
  by_cases hn : 1 ≤ r.attempts
  · rcases run_ends hn s with ⟨v, u, -, hrun⟩ | ⟨p, u, stop', w, -, hp, hrun⟩
    · rw [hrun] at h
      exact absurd h Act.ok_ne_error
    · rw [hrun] at h
      obtain ⟨rfl, rfl⟩ := Act.error_eq_error.1 h
      exact leaves_step hcall hbackoff hnote hpause p u stop' w hp
  · rw [run_of_no_attempts (Nat.not_le.1 hn)] at h
    obtain ⟨rfl, -⟩ := Act.error_eq_error.1 h
    trivial

variable [IsPreorder S R] {r : Retry S ε σ α}

/-- What a loop is made of respects a relation. -/
structure Respectful (R : S → S → Prop) (r : Retry S ε σ α) : Prop where
  call : ∀ a, Respects R (r.call a)
  backoff : ∀ a n, Respects R (r.backoff a n)
  note : ∀ a e d, Respects R (r.note a e d)
  pause : ∀ d, Respects R (r.pause d)

theorem Respectful.afterFailure (h : r.Respectful R) (a : Nat) (e : ε) : Respects R (r.afterFailure a e) := by
  rw [Retry.afterFailure]
  split
  · exact Act.respects_throw _
  · split
    · exact Act.respects_throw _
    · exact ((h.backoff a _).bind fun d => (h.note a e d).bind fun _ => Act.respects_pure _).adapt _

/-- A phase of the loop respects what its parts respect. -/
theorem Respectful.step (h : r.Respectful R) (p : Phase σ α) : Respects R (r.step p) := by
  cases p with
  | calling a =>
    intro s
    have hs := h.call a s
    rcases hc : r.call a s with ⟨e | v, t⟩
    · rw [step_calling_of_error hc]
      rw [hc] at hs
      exact IsTrans.trans _ _ _ hs (h.afterFailure a e t)
    · rw [step_calling_of_ok hc]
      rwa [hc] at hs
  | pausing a d => exact ((h.pause d).bind fun _ => Act.respects_pure _).adapt _
  | ended v => exact Act.respects_pure _

theorem Respectful.runFrom (h : r.Respectful R) : ∀ (k : Nat) (p : Phase σ α), Respects R (r.runFrom k p)
  | k, .ended v => by
    intro s
    rw [runFrom_ended]
    exact Std.Refl.refl s
  | 0, .calling _ | 0, .pausing _ _ => Act.respects_throw _
  | k + 1, .calling a => (h.step _).bind fun p => h.runFrom k p
  | k + 1, .pausing a d => (h.step _).bind fun p => h.runFrom k p

/-- The whole loop respects what its parts respect. -/
theorem Respectful.run (h : r.Respectful R) : Respects R r.run := by
  rw [Retry.run]
  split
  · exact Act.respects_throw _
  · exact h.runFrom _ _

end Retry

/-! ### Pools -/

variable [IsPreorder S R] {w : Work S T ε α}

/-- Tasks that move on in any order, and that are stopped at any moments, respect what their steps and a stop respect. -/
theorem Work.Races.respects (hstep : ∀ t s, R s (w.step t s).2) (hstop : ∀ s, R s (w.stop s).2) {x y : List T × S}
    (h : w.Races x y) : R x.2 y.2 := by
  induction h with
  | refl => exact Std.Refl.refl _
  | tail _ hrace ih =>
    refine IsTrans.trans _ _ _ ih ?_
    cases hrace with
    | turn hturn =>
      cases hturn with
      | mk _ _ => exact hstep _ _
    | stop => exact hstop _

end Adjudication
