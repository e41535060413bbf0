import Adjudication.Pool
import Adjudication.Proofs.Act
import Mathlib.Algebra.Order.Ring.Nat
import Mathlib.Data.List.GetD
import Mathlib.Logic.Relation
import Mathlib.Tactic.ByContra

/-!
Runs of a pool. A run is a row of steps: a taken task moves on, a free worker takes the next task, or the next result
is collected. Each step leaves less to be done, so a run that may take enough of them ends where nothing is left to
do. If the tasks come to the same results in whatever order they move on, then every run has the same outcome: all
values in the order of the tasks, or the failure of the first task that fails.
-/

namespace Adjudication

variable {S T ε α : Type} {w : Work S T ε α} {ts : List T} {s : S} {rs : List (Except ε α)}

/-! ### Tasks side by side -/

namespace Work

/-- A task without a result moves on, and the others stay where they are. -/
inductive Turn (w : Work S T ε α) : List T × S → List T × S → Prop where
  | mk {ts : List T} {s : S} {i : Nat} {t : T} (ht : ts[i]? = some t) (hr : w.result? t = none) :
    Turn w (ts, s) (ts.set i (w.step t s).1, (w.step t s).2)

/-- Tasks move on one by one, in any order. -/
def Reaches (w : Work S T ε α) (x y : List T × S) : Prop := Relation.ReflTransGen w.Turn x y

/-- Whatever the order in which the tasks move on, `R i` holds of the result of the one at `i` once it is there. -/
def Permits (w : Work S T ε α) (ts : List T) (s : S) (R : Nat → Except ε α → Prop) : Prop :=
  ∀ y, w.Reaches (ts, s) y → ∀ (i : Nat) (t : T) (r : Except ε α), y.1[i]? = some t → w.result? t = some r → R i r

/-- Whatever the order in which the tasks move on, each that has a result has the one given for it. -/
def Determined (w : Work S T ε α) (ts : List T) (s : S) (rs : List (Except ε α)) : Prop :=
  w.Permits ts s fun i r => rs[i]? = some r

/-- What a task keeps when it moves on and when another one does, as long as the state is as it should be, all tasks keep
in every order in which they move on. -/
theorem Reaches.shared_invariant {I : S → Prop} {J : Nat → T → S → Prop} {y : List T × S} (hI : I s)
    (hJ : ∀ i t, ts[i]? = some t → J i t s)
    (hstep : ∀ us u i t, w.Reaches (ts, s) (us, u) → us[i]? = some t → w.result? t = none → I u → J i t u →
      I (w.step t u).2 ∧ J i (w.step t u).1 (w.step t u).2 ∧
        ∀ j other, j ≠ i → us[j]? = some other → J j other u → J j other (w.step t u).2)
    (h : w.Reaches (ts, s) y) : I y.2 ∧ ∀ i t, y.1[i]? = some t → J i t y.2 := by
  induction h with
  | refl => exact ⟨hI, hJ⟩
  | tail hreach hturn ih =>
    cases hturn with
    | @mk us u i t ht hr =>
      obtain ⟨hI', hJ', hothers⟩ := hstep us u i t hreach ht hr ih.1 (ih.2 i t ht)
      refine ⟨hI', fun j other hother => ?_⟩
      by_cases hij : i = j
      · subst hij
        have hi : i < us.length := (List.getElem?_eq_some_iff.1 ht).1
        rw [List.getElem?_set_self hi] at hother
        obtain rfl := Option.some.inj hother
        exact hJ'
      · rw [List.getElem?_set_ne hij] at hother
        exact hothers j other (Ne.symm hij) hother (ih.2 j other hother)

/-- The same for what the state takes no part in. -/
theorem Reaches.invariant {I : S → Prop} {J : Nat → T → Prop} {y : List T × S} (hI : I s)
    (hJ : ∀ i t, ts[i]? = some t → J i t)
    (hstep : ∀ us u i t, w.Reaches (ts, s) (us, u) → us[i]? = some t → w.result? t = none → I u → J i t →
      I (w.step t u).2 ∧ J i (w.step t u).1)
    (h : w.Reaches (ts, s) y) : I y.2 ∧ ∀ i t, y.1[i]? = some t → J i t := by
  refine shared_invariant (J := fun i t _ => J i t) hI hJ (fun us u i t hreach ht hr hu hj => ?_) h
  obtain ⟨hI', hJ'⟩ := hstep us u i t hreach ht hr hu hj
  exact ⟨hI', hJ', fun _ _ _ _ hother => hother⟩

/-- A task without a result moves on, or the work is stopped, whenever that may be and however often. -/
inductive Race (w : Work S T ε α) : List T × S → List T × S → Prop where
  | turn {x y : List T × S} (h : w.Turn x y) : Race w x y
  | stop {ts : List T} {s : S} : Race w (ts, s) (ts, (w.stop s).2)

/-- Tasks move on in any order, and the work is stopped at any moments. -/
def Races (w : Work S T ε α) (x y : List T × S) : Prop := Relation.ReflTransGen w.Race x y

/-- Every move of a task leaves it with fewer moves to make. `Good` is what is known of the tasks. -/
structure Dwindles (w : Work S T ε α) (Good : T → Prop) (left : T → Nat) : Prop where
  keeps : ∀ t s, Good t → w.result? t = none → Good (w.step t s).1
  lessens : ∀ t s, Good t → w.result? t = none → left (w.step t s).1 < left t

end Work

namespace Pool

/-! ### Steps -/

/-- What a pool may do. -/
inductive Step (w : Work S T ε α) : Pool T ε α × S → Pool T ε α × S → Prop where
  | work {p : Pool T ε α} {s : S} {i : Nat} {t : T} (hi : i < p.taken) (ht : p.tasks[i]? = some t)
      (hr : w.result? t = none) :
    Step w (p, s) ({ p with tasks := p.tasks.set i (w.step t s).1 }, (w.step t s).2)
  | take {p : Pool T ε α} {s : S} (hf : p.failure = none) (hl : p.taken < p.tasks.length)
      (hw : (p.busy w).length < p.workers) :
    Step w (p, s) ({ p with taken := p.taken + 1 }, s)
  | collect {p : Pool T ε α} {s : S} {t : T} {a : α} (hf : p.failure = none) (hc : p.collected.length < p.taken)
      (ht : p.tasks[p.collected.length]? = some t) (hr : w.result? t = some (.ok a)) :
    Step w (p, s) ({ p with collected := p.collected ++ [a] }, s)
  | fail {p : Pool T ε α} {s : S} {t : T} {e : ε} (hf : p.failure = none) (hc : p.collected.length < p.taken)
      (ht : p.tasks[p.collected.length]? = some t) (hr : w.result? t = some (.error e)) :
    Step w (p, s) ({ p with failure := some e }, (w.stop s).2)

/-- No more is collected than is taken, and no more is taken than there is. -/
structure Sound (p : Pool T ε α) : Prop where
  taken_le : p.taken ≤ p.tasks.length
  collected_le : p.collected.length ≤ p.taken

theorem sound_ofTasks (workers : Nat) (ts : List T) : (ofTasks workers ts : Pool T ε α).Sound :=
  ⟨Nat.zero_le _, Nat.le_refl 0⟩

theorem Step.sound {x y : Pool T ε α × S} (h : Step w x y) (hx : x.1.Sound) : y.1.Sound := by
  obtain ⟨ht, hc⟩ := hx
  cases h with
  | work _ _ _ => exact ⟨by simpa using ht, hc⟩
  | take _ hl _ => exact ⟨hl, Nat.le_succ_of_le hc⟩
  | collect _ hlt _ _ => exact ⟨ht, by simpa using Nat.succ_le_of_lt hlt⟩
  | fail _ _ _ _ => exact ⟨ht, hc⟩

theorem Step.workers_eq {x y : Pool T ε α × S} (h : Step w x y) : y.1.workers = x.1.workers := by
  cases h <;> rfl

theorem workers_of_steps {x y : Pool T ε α × S} (h : Relation.ReflTransGen (Step w) x y) : y.1.workers = x.1.workers := by
  induction h with
  | refl => rfl
  | tail _ hstep ih => exact hstep.workers_eq.trans ih

theorem mem_busy {p : Pool T ε α} {i : Nat} : i ∈ p.busy w ↔ i < p.taken ∧ p.resultOf w i = none := by
  simp [busy]

theorem awaited_eq_some {p : Pool T ε α} {r : Except ε α} (h : p.awaited w = some r) :
    p.failure = none ∧ p.collected.length < p.taken ∧
      ∃ t, p.tasks[p.collected.length]? = some t ∧ w.result? t = some r := by
  simp only [awaited] at h
  split at h
  next hc =>
    simp only [Bool.and_eq_true, Option.isNone_iff_eq_none, decide_eq_true_eq] at hc
    exact ⟨hc.1, hc.2, Option.bind_eq_some_iff.1 h⟩
  next => simp at h

/-- Every move that is possible is a step. -/
theorem step_make {p : Pool T ε α} (hp : p.Sound) {m : Move} (hm : m ∈ p.moves w) (s : S) :
    Step w (p, s) (make w p m s) := by
  simp only [moves, List.mem_append, List.mem_map] at hm
  rcases hm with (hm | ⟨i, hi, rfl⟩) | hm
  · obtain ⟨hsome, rfl⟩ : (p.awaited w).isSome ∧ m = .collect := by
      split at hm <;> simp_all
    obtain ⟨r, hr⟩ := Option.isSome_iff_exists.1 hsome
    obtain ⟨hf, hc, t, ht, hres⟩ := awaited_eq_some hr
    cases r with
    | ok a =>
      have : make w p .collect s = ({ p with collected := p.collected ++ [a] }, s) := by
        simp only [make, hr]
        rfl
      rw [this]
      exact .collect hf hc ht hres
    | error e =>
      have : make w p .collect s = ({ p with failure := some e }, (w.stop s).2) := by
        simp only [make, hr]
        rfl
      rw [this]
      exact .fail hf hc ht hres
  · obtain ⟨hlt, hres⟩ := mem_busy.1 hi
    obtain ⟨t, ht⟩ : ∃ t, p.tasks[i]? = some t :=
      ⟨_, List.getElem?_eq_getElem (Nat.lt_of_lt_of_le hlt hp.taken_le)⟩
    have : make w p (.work i) s = ({ p with tasks := p.tasks.set i (w.step t s).1 }, (w.step t s).2) := by
      simp only [make, ht]
      rfl
    rw [this]
    exact .work hlt ht (by simpa [resultOf, ht] using hres)
  · obtain ⟨hcan, rfl⟩ : p.canTake w = true ∧ m = .take := by
      split at hm <;> simp_all
    simp only [canTake, Bool.and_eq_true, Option.isNone_iff_eq_none, decide_eq_true_eq] at hcan
    exact .take hcan.1.1 hcan.1.2 hcan.2

theorem run_of_moves_nil {p : Pool T ε α} (h : p.moves w = []) (k : Nat) (schedule : List Nat) (s : S) :
    run w k schedule p s = (p, s) := by
  cases k with
  | zero => rfl
  | succ k =>
    simp only [run, h]
    rfl

/-- As long as a move is possible, one of them is made. -/
theorem run_of_moves_ne_nil {p : Pool T ε α} (h : p.moves w ≠ []) (k : Nat) (schedule : List Nat) (s : S) :
    ∃ m ∈ p.moves w, run w (k + 1) schedule p s =
      run w k schedule.tail (make w p m s).1 (make w p m s).2 := by
  obtain ⟨first, others, hm⟩ := List.exists_cons_of_ne_nil h
  have hlt : schedule.headD 0 % (others.length + 1) < (first :: others).length := Nat.mod_lt _ (by simp)
  refine ⟨(first :: others).getD (schedule.headD 0 % (others.length + 1)) first, ?_, ?_⟩
  · rw [hm, List.getD_eq_getElem _ _ hlt]
    exact List.getElem_mem hlt
  · simp only [run, hm]
    rfl

/-- A run makes steps. -/
theorem run_steps : ∀ (k : Nat) (schedule : List Nat) (p : Pool T ε α) (s : S), p.Sound →
    Relation.ReflTransGen (Step w) (p, s) (run w k schedule p s)
  | 0, _, _, _, _ => .refl
  | k + 1, schedule, p, s, hp => by
    by_cases h : p.moves w = []
    · rw [run_of_moves_nil h]
    · obtain ⟨m, hm, hrun⟩ := run_of_moves_ne_nil h k schedule s
      have hstep := step_make hp hm s
      rw [hrun]
      exact .head hstep (run_steps k schedule.tail _ _ (hstep.sound hp))

/-- A step is a turn of a task, a stop, or nothing that tasks or the state would show. -/
theorem Step.races {x y : Pool T ε α × S} (h : Step w x y) : w.Races (x.1.tasks, x.2) (y.1.tasks, y.2) := by
  cases h with
  | work _ ht hr => exact .single (.turn (.mk ht hr))
  | take _ _ _ => exact .refl
  | collect _ _ _ _ => exact .refl
  | fail _ _ _ _ => exact .single .stop

/-- Whatever a pool does, tasks could do that are not taken in order, nor by a number of workers, and that are stopped at
any moment. -/
theorem races_of_steps {x y : Pool T ε α × S} (h : Relation.ReflTransGen (Step w) x y) :
    w.Races (x.1.tasks, x.2) (y.1.tasks, y.2) := by
  induction h with
  | refl => exact .refl
  | tail _ hstep ih => exact ih.trans hstep.races

/-- What a pool that began with some tasks has done with them: those that have not been taken are as they were, those that
are collected have come to values, and a failure that has been collected is that of a task. -/
structure Tracks (w : Work S T ε α) (ts : List T) (p : Pool T ε α) : Prop extends p.Sound where
  untaken : ∀ i, p.taken ≤ i → p.tasks[i]? = ts[i]?
  collected : ∀ i < p.collected.length, ∃ a, p.resultOf w i = some (.ok a)
  failed : ∀ e, p.failure = some e → ∃ i, p.resultOf w i = some (.error e)

theorem resultOf_eq_some {p : Pool T ε α} {i : Nat} {r : Except ε α} :
    p.resultOf w i = some r ↔ ∃ t, p.tasks[i]? = some t ∧ w.result? t = some r := Option.bind_eq_some_iff

/-- A task that has a result keeps it when another one moves on. -/
theorem resultOf_work {p : Pool T ε α} {i j : Nat} {t t' : T} {r : Except ε α} (ht : p.tasks[i]? = some t)
    (hr : w.result? t = none) (h : p.resultOf w j = some r) :
    ({ p with tasks := p.tasks.set i t' } : Pool T ε α).resultOf w j = some r := by
  have hij : i ≠ j := by
    rintro rfl
    simp [resultOf, ht, hr] at h
  rw [resultOf, List.getElem?_set_ne hij]
  exact h

theorem Step.tracks {x y : Pool T ε α × S} (h : Step w x y) (hx : Tracks w ts x.1) : Tracks w ts y.1 := by
  have hsound := h.sound hx.toSound
  cases h with
  | @work p s i t hi ht hr =>
    refine ⟨hsound, ?_, ?_, ?_⟩
    · intro j hj
      rw [List.getElem?_set_ne (Nat.ne_of_lt (Nat.lt_of_lt_of_le hi hj))]
      exact hx.untaken j hj
    · intro j hj
      obtain ⟨a, ha⟩ := hx.collected j hj
      exact ⟨a, resultOf_work ht hr ha⟩
    · intro e he
      obtain ⟨j, hj⟩ := hx.failed e he
      exact ⟨j, resultOf_work ht hr hj⟩
  | take hf hl _ => exact ⟨hsound, fun j hj => hx.untaken j (Nat.le_of_succ_le hj), hx.collected, hx.failed⟩
  | @collect p s t a hf hc ht hr =>
    refine ⟨hsound, hx.untaken, ?_, hx.failed⟩
    intro j hj
    rw [List.length_append, List.length_singleton] at hj
    rcases Nat.lt_succ_iff_lt_or_eq.1 hj with hj | rfl
    · exact hx.collected j hj
    · exact ⟨a, resultOf_eq_some.2 ⟨t, ht, hr⟩⟩
  | @fail p s t e hf hc ht hr =>
    refine ⟨hsound, hx.untaken, hx.collected, ?_⟩
    intro e' he
    obtain rfl : e = e' := Option.some.inj he
    exact ⟨p.collected.length, resultOf_eq_some.2 ⟨t, ht, hr⟩⟩

theorem tracks_of_steps {workers : Nat} {x : Pool T ε α × S}
    (h : Relation.ReflTransGen (Step w) (ofTasks workers ts, s) x) : Tracks w ts x.1 := by
  induction h with
  | refl =>
    exact ⟨sound_ofTasks workers ts, fun _ _ => rfl, fun i hi => absurd hi (Nat.not_lt_zero i), fun e he => by
      cases he⟩
  | tail _ hstep ih => exact hstep.tracks ih

/-! ### The end of a run -/

/-- How much is still to be done at most: the moves of the tasks, what is not taken, what is not collected. -/
def ahead (left : T → Nat) (p : Pool T ε α) : Nat :=
  (p.tasks.map left).sum + (p.tasks.length - p.taken) +
    if p.failure.isSome then 0 else p.tasks.length - p.collected.length

theorem ahead_of_not_failed {left : T → Nat} {p : Pool T ε α} (h : p.failure = none) :
    p.ahead left = (p.tasks.map left).sum + (p.tasks.length - p.taken) + (p.tasks.length - p.collected.length) := by
  simp [ahead, h]

theorem sum_map_set_lt {left : T → Nat} {t' : T} : ∀ {ts : List T} {i : Nat} {t : T}, ts[i]? = some t →
    left t' < left t → ((ts.set i t').map left).sum < (ts.map left).sum
  | [], _, _, ht, _ => by simp at ht
  | x :: xs, 0, t, ht, hlt => by
    obtain rfl : x = t := by simpa using ht
    simpa using hlt
  | x :: xs, i + 1, t, ht, hlt => by
    have ht : xs[i]? = some t := by simpa using ht
    have := sum_map_set_lt ht hlt
    simpa using this

theorem forall_mem_set {P : T → Prop} {t : T} {i : Nat} (h : ∀ t ∈ ts, P t) (ht : P t) : ∀ u ∈ ts.set i t, P u :=
  fun u hu => by
    rcases List.mem_or_eq_of_mem_set hu with hu | rfl
    · exact h u hu
    · exact ht

variable {Good : T → Prop} {left : T → Nat}

theorem Step.good {x y : Pool T ε α × S} (hw : w.Dwindles Good left) (h : Step w x y)
    (hx : ∀ t ∈ x.1.tasks, Good t) : ∀ t ∈ y.1.tasks, Good t := by
  cases h with
  | work _ ht hr => exact forall_mem_set hx (hw.keeps _ _ (hx _ (List.mem_of_getElem? ht)) hr)
  | take _ _ _ => exact hx
  | collect _ _ _ _ => exact hx
  | fail _ _ _ _ => exact hx

/-- Every step leaves less to be done. -/
theorem Step.ahead_lt {x y : Pool T ε α × S} (hw : w.Dwindles Good left) (h : Step w x y) (hs : x.1.Sound)
    (hx : ∀ t ∈ x.1.tasks, Good t) : y.1.ahead left < x.1.ahead left := by
  have := hs.taken_le
  have := hs.collected_le
  cases h with
  | @work p s i t hi ht hr =>
    have := sum_map_set_lt ht (hw.lessens t s (hx _ (List.mem_of_getElem? ht)) hr)
    simp only [ahead, List.length_set]
    omega
  | take hf hl _ =>
    simp only [ahead]
    omega
  | collect hf hc _ _ =>
    rw [ahead_of_not_failed hf, ahead_of_not_failed (by exact hf), List.length_append, List.length_singleton]
    simp only at *
    omega
  | fail hf hc _ _ =>
    rw [ahead_of_not_failed hf, ahead, Option.isSome_some, if_pos rfl]
    simp only at *
    omega

/-- A run that may take as many steps as there is to do ends where no move is possible. -/
theorem run_moves_eq_nil (hw : w.Dwindles Good left) : ∀ (k : Nat) (schedule : List Nat) (p : Pool T ε α) (s : S),
    p.Sound → (∀ t ∈ p.tasks, Good t) → p.ahead left ≤ k → (run w k schedule p s).1.moves w = []
  | k, schedule, p, s, hp, hg, hk => by
    by_cases h : p.moves w = []
    · rw [run_of_moves_nil h]
      exact h
    · obtain ⟨m, hm⟩ := List.exists_mem_of_ne_nil _ h
      have hlt := (step_make hp hm s).ahead_lt hw hp hg
      obtain ⟨k, rfl⟩ := Nat.exists_eq_add_of_le' (show 1 ≤ k by simp only at hlt; omega)
      obtain ⟨m, hm, hrun⟩ := run_of_moves_ne_nil h k schedule s
      have hstep := step_make hp hm s
      have hlt := hstep.ahead_lt hw hp hg
      rw [hrun]
      exact run_moves_eq_nil hw k _ _ _ (hstep.sound hp) (hstep.good hw hg) (by simp only at hlt; omega)

/-- Where no move is possible, the pool has failed or everything is collected. -/
theorem failed_or_collected {p : Pool T ε α} (hp : p.Sound) (hw : 0 < p.workers) (h : p.moves w = []) :
    p.failure ≠ none ∨ p.collected.length = p.tasks.length := by
  simp only [moves, List.append_eq_nil_iff, List.map_eq_nil_iff] at h
  obtain ⟨⟨hawait, hbusy⟩, htake⟩ := h
  by_cases hf : p.failure = none
  · right
    have htaken : p.taken = p.tasks.length := by
      by_contra hne
      have := hp.taken_le
      have hcan : p.canTake w = true := by
        simp only [canTake, hf, hbusy, List.length_nil]
        simpa using ⟨by omega, hw⟩
      simp [hcan] at htake
    by_contra hne
    have := hp.collected_le
    have hlt : p.collected.length < p.taken := by omega
    have hres : p.resultOf w p.collected.length = none := by
      simpa [awaited, hf, hlt] using hawait
    have : p.collected.length ∈ p.busy w := mem_busy.2 ⟨hlt, hres⟩
    simp [hbusy] at this
  · exact .inl hf

/-- Where no move is possible, every task has come to a result or is as it was in the beginning. -/
theorem Tracks.ended_or_untaken {p : Pool T ε α} (hp : Tracks w ts p) (h : p.moves w = []) (i : Nat) :
    (∃ r, p.resultOf w i = some r) ∨ p.tasks[i]? = ts[i]? := by
  rcases Nat.lt_or_ge i p.taken with hi | hi
  · cases hr : p.resultOf w i with
    | some r => exact .inl ⟨r, rfl⟩
    | none =>
      have hbusy : .work i ∈ p.moves w := by
        simp only [moves, List.mem_append, List.mem_map]
        exact .inl (.inr ⟨i, mem_busy.2 ⟨hi, hr⟩, rfl⟩)
      rw [h] at hbusy
      exact absurd hbusy List.not_mem_nil
  · exact .inr (hp.untaken i hi)

/-- Where no move is possible, the pool has failed if a task has. -/
theorem Tracks.failed_of_result {p : Pool T ε α} (hp : Tracks w ts p) (hw : 0 < p.workers) (h : p.moves w = [])
    {i : Nat} {e : ε} (hr : p.resultOf w i = some (.error e)) : p.failure ≠ none := by
  rcases failed_or_collected hp.toSound hw h with hf | hlength
  · exact hf
  · obtain ⟨t, ht, -⟩ := resultOf_eq_some.1 hr
    have hi : i < p.collected.length := hlength ▸ (List.getElem?_eq_some_iff.1 ht).1
    obtain ⟨a, ha⟩ := hp.collected i hi
    rw [hr] at ha
    cases ha

/-! ### The outcome -/

/-- What holds in every run of a pool: tasks go on from their start as long as nothing fails, and what is collected,
    values and failure, are results that the first tasks may have. -/
structure Keeps (w : Work S T ε α) (ts : List T) (s : S) (R : Nat → Except ε α → Prop) (x : Pool T ε α × S) :
    Prop where
  length_eq : x.1.tasks.length = ts.length
  reaches : x.1.failure = none → w.Reaches (ts, s) (x.1.tasks, x.2)
  collected : ∀ (i : Nat) (a : α), x.1.collected[i]? = some a → R i (.ok a)
  failed : ∀ e, x.1.failure = some e → x.1.collected.length < x.1.taken ∧ R x.1.collected.length (.error e)

variable {R : Nat → Except ε α → Prop}

theorem Step.keeps {x y : Pool T ε α × S} (hp : w.Permits ts s R) (h : Step w x y) (hx : Keeps w ts s R x) :
    Keeps w ts s R y := by
  cases h with
  | @work p u i t hi ht hr =>
    refine ⟨by simpa using hx.length_eq, fun hf => ?_, hx.collected, hx.failed⟩
    exact (hx.reaches hf).tail (.mk ht hr)
  | take hf _ _ => exact ⟨hx.length_eq, fun _ => hx.reaches hf, hx.collected, fun e he => by simp [hf] at he⟩
  | @collect p u t a hf hc ht hr =>
    have hres : R p.collected.length (.ok a) := hp _ (hx.reaches hf) _ _ _ ht hr
    refine ⟨hx.length_eq, fun _ => hx.reaches hf, fun i b hb => ?_, fun e he => ?_⟩
    · by_cases hi : i < p.collected.length
      · exact hx.collected i b (by simpa [List.getElem?_append_left hi] using hb)
      · obtain ⟨rfl, rfl⟩ : i = p.collected.length ∧ a = b := by
          rw [List.getElem?_append_right (by omega), List.getElem?_singleton] at hb
          split at hb
          · exact ⟨by omega, by simpa using hb⟩
          · simp at hb
        exact hres
    · simp [hf] at he
  | @fail p u t e hf hc ht hr =>
    have hres : R p.collected.length (.error e) := hp _ (hx.reaches hf) _ _ _ ht hr
    refine ⟨hx.length_eq, fun h => by simp at h, hx.collected, fun e' he => ⟨hc, ?_⟩⟩
    obtain rfl : e = e' := by simpa using he
    exact hres

theorem keeps_of_steps {workers : Nat} {x : Pool T ε α × S} (hp : w.Permits ts s R)
    (h : Relation.ReflTransGen (Step w) (ofTasks workers ts, s) x) : Keeps w ts s R x := by
  induction h with
  | refl => exact ⟨rfl, fun _ => .refl, fun i a h => by simp [ofTasks] at h, fun e h => by simp [ofTasks] at h⟩
  | tail _ hstep ih => exact hstep.keeps hp ih

/-- The outcome of a run is gathered from results that the tasks may have, whatever the schedule of the run. -/
theorem outcome_run_gathered (hw : w.Dwindles Good left) (hp : w.Permits ts s R) (hg : ∀ t ∈ ts, Good t)
    {workers : Nat} (hpos : 0 < workers) {k : Nat} (hk : (ofTasks workers ts : Pool T ε α).ahead left ≤ k)
    (schedule : List Nat) :
    Act.Gathered R ts.length (run w k schedule (ofTasks workers ts) s).1.outcome := by
  have hsteps := run_steps (w := w) k schedule _ s (sound_ofTasks workers ts)
  have hend := run_moves_eq_nil hw k schedule _ s (sound_ofTasks workers ts) hg hk
  have hsound := (tracks_of_steps hsteps).toSound
  have hworkers : _ = workers := workers_of_steps hsteps
  have hx := keeps_of_steps hp hsteps
  generalize run w k schedule (ofTasks workers ts) s = x at hend hsound hworkers hx
  have htaken := hsound.taken_le
  have hlen := hx.length_eq
  rw [outcome]
  cases hf : x.1.failure with
  | some e =>
    obtain ⟨hlt, he⟩ := hx.failed e hf
    exact ⟨x.1.collected, by omega, hx.collected, he⟩
  | none =>
    rcases failed_or_collected hsound (hworkers ▸ hpos) hend with h | h
    · exact absurd hf h
    · exact ⟨h.trans hlen, hx.collected⟩

end Pool
end Adjudication
