import Adjudication.Proofs.Act
import Adjudication.Proofs.Retry
import Adjudication.Pool
import Mathlib.Data.List.Forall2
import Mathlib.Data.Option.Basic

/-!
Two runs side by side. They start in related states, they come to related values or to the same failure, and the states that
they leave are related again. A computation that does this beside itself, with equal values, is blind to what the relation
leaves open. Sequences, rows, loops that call again and pools keep step if their parts do.
-/

namespace Adjudication

variable {S ε ε' σ α β γ δ T : Type}

/-- Two results are related values or the same failure. -/
inductive Matched (V : α → β → Prop) : Except ε α → Except ε β → Prop
  | ok {a : α} {b : β} (h : V a b) : Matched V (.ok a) (.ok b)
  | error (e : ε) : Matched V (.error e) (.error e)

theorem matched_self {V : α → α → Prop} (hV : ∀ a, V a a) (x : Except ε α) : Matched V x x := by
  cases x with
  | ok a => exact .ok (hV a)
  | error e => exact .error e

theorem matched_eq {x y : Except ε α} : Matched Eq x y ↔ x = y := by
  refine ⟨fun h => ?_, fun h => h ▸ matched_self (fun _ => rfl) x⟩
  cases h with
  | ok h => rw [h]
  | error => rfl

theorem matched_of_map_eq {f : α → γ} {x y : Except ε α} (h : x.map f = y.map f) : Matched (fun a b => f a = f b) x y := by
  cases x <;> cases y <;> simp only [Except.map, Except.ok.injEq, Except.error.injEq, reduceCtorEq] at h
  · subst h
    exact .error _
  · exact .ok h

theorem Matched.mono {V W : α → β → Prop} {x : Except ε α} {y : Except ε β} (h : Matched V x y)
    (hVW : ∀ a b, V a b → W a b) : Matched W x y := by
  cases h with
  | ok h => exact .ok (hVW _ _ h)
  | error e => exact .error e

theorem Matched.mapError {V : α → β → Prop} {x : Except ε α} {y : Except ε β} (h : Matched V x y) (f : ε → ε') :
    Matched V (x.mapError f) (y.mapError f) := by
  cases h with
  | ok h => exact .ok h
  | error e => exact .error (f e)

theorem Matched.bind {V : α → β → Prop} {W : γ → δ → Prop} {x : Except ε α} {y : Except ε β} {f : α → Except ε γ}
    {g : β → Except ε δ} (h : Matched V x y) (hf : ∀ a b, V a b → Matched W (f a) (g b)) :
    Matched W (x >>= f) (y >>= g) := by
  cases h with
  | ok h => exact hf _ _ h
  | error e => exact .error e

/-- What a function makes of the values does not tell them apart. -/
theorem Matched.map_eq {V : α → β → Prop} {x : Except ε α} {y : Except ε β} (h : Matched V x y) {f : α → γ} {g : β → γ}
    (hf : ∀ a b, V a b → f a = g b) : x.map f = y.map g := by
  cases h with
  | ok h => exact congrArg Except.ok (hf _ _ h)
  | error e => rfl

variable {R : S → S → Prop}

namespace Act

/-- From related states, related results and related states. -/
def Lockstep (R : S → S → Prop) (V : α → β → Prop) (x : Act S ε α) (y : Act S ε β) : Prop :=
  ∀ s t, R s t → Matched V (x s).1 (y t).1 ∧ R (x s).2 (y t).2

/-- A computation does not see what a relation of states leaves open. -/
abbrev Blind (R : S → S → Prop) (x : Act S ε α) : Prop := Lockstep R Eq x x

variable {V : α → β → Prop} {W : γ → δ → Prop}

theorem lockstep_pure {a : α} {b : β} (h : V a b) : Lockstep R V (pure a : Act S ε α) (pure b) :=
  fun _ _ hst => ⟨.ok h, hst⟩

theorem lockstep_throw (e : ε) : Lockstep R V (throw e : Act S ε α) (throw e) := fun _ _ hst => ⟨.error e, hst⟩

theorem blind_pure (a : α) : Blind R (pure a : Act S ε α) := lockstep_pure rfl

theorem blind_throw (e : ε) : Blind R (throw e : Act S ε α) := lockstep_throw e

theorem Lockstep.bind {x : Act S ε α} {y : Act S ε β} {f : α → Act S ε γ} {g : β → Act S ε δ} (h : Lockstep R V x y)
    (hf : ∀ a b, V a b → Lockstep R W (f a) (g b)) : Lockstep R W (x >>= f) (y >>= g) := fun s t hst => by
  obtain ⟨hresult, hstates⟩ := h s t hst
  rw [bind_run, bind_run]
  generalize x s = i at hresult hstates ⊢
  generalize y t = j at hresult hstates ⊢
  obtain ⟨r, u⟩ := i
  obtain ⟨r', u'⟩ := j
  dsimp only at hresult hstates
  cases hresult with
  | ok h => exact hf _ _ h u u' hstates
  | error e => exact ⟨.error e, hstates⟩

theorem Lockstep.blind_bind {x : Act S ε α} {f : α → Act S ε γ} {g : α → Act S ε δ} (h : Blind R x)
    (hf : ∀ a, Lockstep R W (f a) (g a)) : Lockstep R W (x >>= f) (x >>= g) :=
  h.bind fun a b hab => by
    subst hab
    exact hf a

theorem Lockstep.adapt {x : Act S ε α} {y : Act S ε β} (h : Lockstep R V x y) (f : ε → ε') :
    Lockstep R V (x.adapt f : Act S ε' α) (y.adapt f) := fun s t hst => ⟨(h s t hst).1.mapError f, (h s t hst).2⟩

/-- What is done with a look at the states may rely on what relates them. -/
theorem lockstep_get_bind {f : S → Act S ε γ} {g : S → Act S ε δ}
    (h : ∀ s t, R s t → Matched W (f s s).1 (g t t).1 ∧ R (f s s).2 (g t t).2) : Lockstep R W (get >>= f) (get >>= g) :=
  fun s t hst => by
    rw [bind_of_ok (get_run s), bind_of_ok (get_run t)]
    exact h s t hst

theorem lockstep_mapM {P : α → β → Prop} {f : α → Act S ε γ} {g : β → Act S ε δ}
    (hf : ∀ a b, P a b → Lockstep R W (f a) (g b)) {xs : List α} {ys : List β} (h : List.Forall₂ P xs ys) :
    Lockstep R (List.Forall₂ W) (xs.mapM f) (ys.mapM g) := by
  induction h with
  | nil => exact lockstep_pure .nil
  | cons hab _ ih =>
    rw [List.mapM_cons, List.mapM_cons]
    exact (hf _ _ hab).bind fun c d hcd => ih.bind fun cs ds hcds => lockstep_pure (.cons hcd hcds)

end Act

open Act (Blind Lockstep)

/-! ### Loops that call again -/

namespace Retry

/-- What a loop is made of is blind to what a relation leaves open. -/
structure Blind (R : S → S → Prop) (r : Retry S ε σ α) : Prop where
  call : ∀ a, Act.Blind R (r.call a)
  backoff : ∀ a n, Act.Blind R (r.backoff a n)
  note : ∀ a e d, Act.Blind R (r.note a e d)
  pause : ∀ d, Act.Blind R (r.pause d)

variable {r : Retry S ε σ α}

theorem Blind.afterFailure (h : r.Blind R) (a : Nat) (e : ε) : Act.Blind R (r.afterFailure a e) := by
  rw [Retry.afterFailure]
  split
  · exact Act.blind_throw _
  · split
    · exact Act.blind_throw _
    · exact (Lockstep.blind_bind (h.backoff a _) fun d => .blind_bind (h.note a e d) fun _ => Act.blind_pure _).adapt _

theorem Blind.step (h : r.Blind R) (p : Phase σ α) : Act.Blind R (r.step p) := by
  cases p with
  | calling a =>
    intro s t hst
    obtain ⟨hresult, hstates⟩ := h.call a s t hst
    rcases hs : r.call a s with ⟨e | v, u⟩ <;> rcases ht : r.call a t with ⟨e' | v', u'⟩ <;> rw [hs, ht] at hresult hstates
    · cases hresult
      rw [step_calling_of_error hs, step_calling_of_error ht]
      exact h.afterFailure a e u u' hstates
    · cases hresult
    · cases hresult
    · obtain rfl : v = v' := Except.ok.inj (matched_eq.1 hresult)
      rw [step_calling_of_ok hs, step_calling_of_ok ht]
      exact ⟨.ok rfl, hstates⟩
  | pausing a d => exact (Lockstep.blind_bind (h.pause d) fun _ => Act.blind_pure _).adapt _
  | ended v => exact Act.blind_pure _

theorem Blind.runFrom (h : r.Blind R) : ∀ (k : Nat) (p : Phase σ α), Act.Blind R (r.runFrom k p)
  | k, .ended v => fun s t hst => by
    rw [runFrom_ended, runFrom_ended]
    exact ⟨.ok rfl, hst⟩
  | 0, .calling _ | 0, .pausing _ _ => Act.blind_throw _
  | k + 1, .calling a => .blind_bind (h.step _) fun p => h.runFrom k p
  | k + 1, .pausing a d => .blind_bind (h.step _) fun p => h.runFrom k p

theorem Blind.run (h : r.Blind R) : Act.Blind R r.run := by
  rw [Retry.run]
  split
  · exact Act.blind_throw _
  · exact h.runFrom _ _

end Retry

/-! ### Pools -/

/-- Related tasks take related steps and have related results, and a stop keeps states related. -/
structure Work.Lockstep (w : Work S T ε α) (R : S → S → Prop) (V : T → T → Prop) (W : α → α → Prop) : Prop where
  step : ∀ {t u s s'}, V t u → R s s' → V (w.step t s).1 (w.step u s').1 ∧ R (w.step t s).2 (w.step u s').2
  result : ∀ {t u}, V t u → Option.Rel (Matched W) (w.result? t) (w.result? u)
  stop : ∀ {s s'}, R s s' → R (w.stop s).2 (w.stop s').2

namespace Pool

structure Alike (V : T → T → Prop) (W : α → α → Prop) (p q : Pool T ε α) : Prop where
  workers : p.workers = q.workers
  tasks : List.Forall₂ V p.tasks q.tasks
  taken : p.taken = q.taken
  collected : List.Forall₂ W p.collected q.collected
  failure : p.failure = q.failure

variable {w : Work S T ε α} {V : T → T → Prop} {W : α → α → Prop} {p q : Pool T ε α}

theorem rel_getElem? {xs ys : List T} (h : List.Forall₂ V xs ys) (i : Nat) : Option.Rel V xs[i]? ys[i]? := by
  induction h generalizing i with
  | nil => exact .none
  | cons hab _ ih =>
    cases i with
    | zero => exact .some hab
    | succ i => exact ih i

theorem forall₂_set {xs ys : List T} (h : List.Forall₂ V xs ys) {t u : T} (ht : V t u) (i : Nat) :
    List.Forall₂ V (xs.set i t) (ys.set i u) := by
  induction h generalizing i with
  | nil => exact .nil
  | cons hab hxs ih =>
    cases i with
    | zero => exact .cons ht hxs
    | succ i => exact .cons hab (ih i)

variable (hw : w.Lockstep R V W)

include hw

theorem Alike.resultOf (h : Alike V W p q) (i : Nat) : Option.Rel (Matched W) (p.resultOf w i) (q.resultOf w i) := by
  have htask := rel_getElem? h.tasks i
  rw [Pool.resultOf, Pool.resultOf]
  generalize p.tasks[i]? = x at htask ⊢
  generalize q.tasks[i]? = y at htask ⊢
  cases htask with
  | none => exact .none
  | some ht => exact hw.result ht

theorem Alike.isNone_resultOf (h : Alike V W p q) (i : Nat) : (p.resultOf w i).isNone = (q.resultOf w i).isNone := by
  have hresult := h.resultOf hw i
  generalize p.resultOf w i = x at hresult ⊢
  generalize q.resultOf w i = y at hresult ⊢
  cases hresult <;> rfl

theorem Alike.busy (h : Alike V W p q) : p.busy w = q.busy w := by
  rw [Pool.busy, Pool.busy, h.taken]
  simp only [h.isNone_resultOf hw]

theorem Alike.canTake (h : Alike V W p q) : p.canTake w = q.canTake w := by
  rw [Pool.canTake, Pool.canTake, h.failure, h.taken, h.tasks.length_eq, h.busy hw, h.workers]

theorem Alike.awaited (h : Alike V W p q) : Option.Rel (Matched W) (p.awaited w) (q.awaited w) := by
  rw [Pool.awaited, Pool.awaited, h.failure, h.taken, h.collected.length_eq]
  split
  · exact h.resultOf hw _
  · exact .none

theorem Alike.moves (h : Alike V W p q) : p.moves w = q.moves w := by
  have hawaited : (p.awaited w).isSome = (q.awaited w).isSome := by
    have hrel := h.awaited hw
    generalize p.awaited w = x at hrel ⊢
    generalize q.awaited w = y at hrel ⊢
    cases hrel <;> rfl
  rw [Pool.moves, Pool.moves, hawaited, h.busy hw, h.canTake hw]

/-- A move keeps pools alike. -/
theorem Alike.make (h : Alike V W p q) {s s' : S} (hs : R s s') (m : Move) :
    Alike V W (make w p m s).1 (make w q m s').1 ∧ R (make w p m s).2 (make w q m s').2 := by
  cases m with
  | take => exact ⟨{ h with taken := congrArg (· + 1) h.taken }, hs⟩
  | work i =>
    have htask := rel_getElem? h.tasks i
    simp only [Pool.make]
    generalize p.tasks[i]? = x at htask ⊢
    generalize q.tasks[i]? = y at htask ⊢
    cases htask with
    | none => exact ⟨h, hs⟩
    | some ht =>
      obtain ⟨hstep, hstates⟩ := hw.step ht hs
      exact ⟨{ h with tasks := forall₂_set h.tasks hstep i }, hstates⟩
  | collect =>
    have hawaited := h.awaited hw
    simp only [Pool.make]
    generalize p.awaited w = x at hawaited ⊢
    generalize q.awaited w = y at hawaited ⊢
    cases hawaited with
    | none => exact ⟨h, hs⟩
    | some hresult =>
      cases hresult with
      | ok hab => exact ⟨{ h with collected := List.rel_append h.collected (.cons hab .nil) }, hs⟩
      | error e => exact ⟨{ h with failure := rfl }, hw.stop hs⟩

/-- Pools that are alike make the same moves, in the order of any schedule, and stay alike. -/
theorem Alike.run : ∀ (k : Nat) (schedule : List Nat) {p q : Pool T ε α} {s s' : S}, Alike V W p q → R s s' →
    Alike V W (run w k schedule p s).1 (run w k schedule q s').1 ∧ R (run w k schedule p s).2 (run w k schedule q s').2
  | 0, _, _, _, _, _, h, hs => ⟨h, hs⟩
  | k + 1, schedule, p, q, s, s', h, hs => by
    simp only [Pool.run, h.moves hw]
    cases q.moves w with
    | nil => exact ⟨h, hs⟩
    | cons first others =>
      obtain ⟨hmake, hstates⟩ := h.make hw hs ((first :: others).getD (schedule.headD 0 % (others.length + 1)) first)
      exact Alike.run k schedule.tail hmake hstates

omit hw in
theorem Alike.outcome (h : Alike V W p q) : Matched (List.Forall₂ W) p.outcome q.outcome := by
  rw [Pool.outcome, Pool.outcome, h.failure]
  split
  · exact .error _
  · exact .ok h.collected

end Pool
end Adjudication
