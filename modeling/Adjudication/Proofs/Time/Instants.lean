import Adjudication.Proofs.Time.Accounted
import Mathlib.Algebra.Order.Ring.Rat
import Mathlib.Data.Set.Finite.Lemmas
import Mathlib.Data.Set.Finite.List
import Mathlib.Tactic.Linarith
import Mathlib.Tactic.NormNum.Inv

/-!
When tokens come to be cancelled. Where numbers of seconds stand for fractions without loss, whether a token counts as
cancelled at an instant to come can be told from the flags that are set, the deadlines of its chain and the cancellations
to come, and looking at the token then finds nothing else. A clock that is moved on meets each of them at its instant; where
a token's own cancellation ends the move, it ends at the first of them.
-/

namespace Adjudication.Time

open Seconds (Linear add sub le lt larger lesser slice tick)

variable {σ : Type} [Seconds σ]

/-- Numbers of seconds that stand for fractions, and are added up and compared without loss. -/
structure Seconds.Exact (value : σ → ℚ) : Prop extends Seconds.Linear σ where
  zero : value zero = 0
  add : ∀ a b, value (add a b) = value a + value b
  sub : ∀ a b, value (sub a b) = value a - value b
  le : ∀ {a b}, le a b = true ↔ value a ≤ value b
  lt : ∀ {a b}, lt a b = true ↔ value a < value b
  slice : value slice = 1 / 20
  tick : value tick = 1 / 10

/-- The fraction of a second that a number of microseconds stands for. -/
def ofMicroseconds (n : Int) : ℚ := n / 1000000

theorem exact_int : Seconds.Exact ofMicroseconds where
  toLinear := linear_int
  zero := by norm_num [ofMicroseconds, Seconds.zero]
  add a b := by
    rw [ofMicroseconds, ofMicroseconds, ofMicroseconds, ← add_div, ← Int.cast_add]
    rfl
  sub a b := by
    rw [ofMicroseconds, ofMicroseconds, ofMicroseconds, ← sub_div, ← Int.cast_sub]
    rfl
  le {a b} := by
    rw [ofMicroseconds, ofMicroseconds, div_le_div_iff_of_pos_right (by norm_num), Int.cast_le]
    exact decide_eq_true_iff
  lt {a b} := by
    rw [ofMicroseconds, ofMicroseconds, div_lt_div_iff_of_pos_right (by norm_num), Int.cast_lt]
    exact decide_eq_true_iff
  slice := by
    rw [show (Seconds.slice : Int) = 50000 from rfl, ofMicroseconds]
    norm_num
  tick := by
    rw [show (Seconds.tick : Int) = 100000 from rfl, ofMicroseconds]
    norm_num

namespace Seconds.Exact

variable {value : σ → ℚ} {a b : σ}

theorem larger (h : Seconds.Exact value) (a b : σ) : value (larger a b) = max (value a) (value b) := by
  rw [Seconds.larger]
  split
  next hlt => exact (max_eq_right (h.lt.1 hlt).le).symm
  next hlt => exact (max_eq_left (not_lt.1 fun h' => hlt (h.lt.2 h'))).symm

theorem lesser (h : Seconds.Exact value) (a b : σ) : value (lesser a b) = min (value a) (value b) := by
  rw [Seconds.lesser]
  split
  next hlt => exact (min_eq_right (h.lt.1 hlt).le).symm
  next hlt => exact (min_eq_left (not_lt.1 fun h' => hlt (h.lt.2 h'))).symm

end Seconds.Exact

namespace Timeline

variable {value : σ → ℚ} {t u : Timeline σ} {id : TokenId} {instant x y c : σ}

/-! ### Instants at which a token counts as cancelled -/

/-- At an instant to come a token counts as cancelled: it has been cancelled, a deadline of its chain has been reached, or a
cancellation to come of its chain is due. -/
def CountsBy (t : Timeline σ) (id : TokenId) (instant : σ) : Prop :=
  t.Called id ∨ t.Expired id instant ∨ t.Due id instant

theorem CountsBy.mono (ho : Linear σ) (h : t.CountsBy id x) (hle : le x y = true) : t.CountsBy id y := by
  rcases h with hcalled | ⟨i, hi, d, hd, hdx⟩ | ⟨e, he, hid, hex⟩
  · exact .inl hcalled
  · exact .inr (.inl ⟨i, hi, d, hd, ho.le_trans hdx hle⟩)
  · exact .inr (.inr ⟨e, he, hid, ho.le_trans hex hle⟩)

/-- What is to come stays to come or has come. -/
theorem Later.countsBy (h : t.Later u) (ht : t.CountsBy id x) : u.CountsBy id x := by
  by_cases hu : u.Called id
  · exact .inl hu
  · rcases ht with hcalled | hexpired | hdue
    · exact .inl (h.called hcalled)
    · exact .inr (.inl (h.expired hexpired))
    · exact .inr (.inr (h.due hu hdue))

/-- Nothing comes that was not to come. -/
theorem Accounted.countsBy (ho : Linear σ) (h : Accounted (fun _ => False) t u) (hle : le u.now x = true)
    (hu : u.CountsBy id x) : t.CountsBy id x := by
  have hbound : ∀ i ∈ t.chain id, t.Bound i u.now → t.CountsBy id x := by
    rintro i hi (hflag | ⟨d, hd, hdu⟩ | ⟨e, he, rfl, heu⟩)
    · exact .inl ⟨i, hi, hflag⟩
    · exact .inr (.inl ⟨i, hi, d, hd, ho.le_trans hdu hle⟩)
    · exact .inr (.inr ⟨e, he, hi, ho.le_trans heu hle⟩)
  rcases hu with ⟨i, hi, hflag⟩ | ⟨i, hi, d, hd, hdx⟩ | ⟨e, he, hid, hex⟩
  · rw [h.chain] at hi
    exact hbound i hi ((h.reason i hflag).resolve_right fun h => h)
  · rw [h.chain] at hi
    exact .inr (.inl ⟨i, hi, d, (h.deadline? i).symm.trans hd, hdx⟩)
  · rw [h.chain] at hid
    exact .inr (.inr ⟨e, h.fewer e he, hid, hex⟩)

/-- Where nothing is overdue, looking at a token finds whether it counts as cancelled. -/
theorem Settled.isCancelled_iff (h : t.Settled id) : (t.isCancelled id).1 = true ↔ t.CountsBy id t.now := by
  rw [isCancelled_eq_true_iff]
  constructor
  · rintro (hcalled | hexpired)
    · exact .inl hcalled
    · exact .inr (.inl hexpired)
  · rintro (hcalled | hexpired | hdue)
    · exact .inl hcalled
    · exact .inr hexpired
    · exact .inl (h.resolve_right fun hnot => hnot hdue)

omit [Seconds σ] in
theorem mem_chain_of_lt (h : (id : Nat) < t.tokens.length) : id ∈ t.chain id := by
  obtain ⟨fuel, hfuel⟩ := Nat.exists_eq_succ_of_ne_zero (Nat.ne_of_gt (Nat.zero_lt_of_lt h))
  rw [chain, hfuel, lineage, List.getElem?_eq_getElem h]
  dsimp only
  split
  · exact .head _
  · exact .head _

theorem now_moveTo_none (target : σ) : ∀ (fuel : Nat) (t : Timeline σ), (t.moveTo target none fuel).now = target
  | 0, _ => rfl
  | fuel + 1, t => by
    rw [moveTo]
    split
    next => rfl
    next => exact now_moveTo_none target fuel _

theorem now_advance (t : Timeline σ) (seconds : σ) : (t.advance seconds).now = add t.now seconds :=
  now_moveTo_none _ _ t

/-! ### The first of them -/

/-- The first instant, from now on, at which a token counts as cancelled. -/
structure First (t : Timeline σ) (id : TokenId) (c : σ) : Prop where
  notPast : le t.now c = true
  counts : t.CountsBy id c
  least : ∀ x, le t.now x = true → t.CountsBy id x → le c x = true

/-- An instant that a deadline in a token's chain sets, or a cancellation to come of the token itself: it is noticed at
once. -/
def Prompt (t : Timeline σ) (id : TokenId) (instant : σ) : Prop :=
  (∃ i ∈ t.chain id, t.deadline? i = some instant) ∨ (instant, id) ∈ t.scheduled

/-- The instants at which a token may come to be cancelled. -/
def turningPoints (t : Timeline σ) (id : TokenId) : List σ :=
  t.now :: ((t.chain id).filterMap t.deadline? ++ t.scheduled.map Prod.fst).map (larger t.now)

theorem CountsBy.exists_turningPoint (ho : Linear σ) (h : t.CountsBy id x) (hx : le t.now x = true) :
    ∃ c ∈ t.turningPoints id, t.CountsBy id c ∧ le c x = true := by
  rcases h with hcalled | ⟨i, hi, d, hd, hdx⟩ | ⟨e, he, hid, hex⟩
  · exact ⟨t.now, .head _, .inl hcalled, hx⟩
  · refine ⟨larger t.now d, .tail _ (List.mem_map_of_mem ?_), ?_, ho.larger_le hx hdx⟩
    · exact List.mem_append_left _ (List.mem_filterMap.2 ⟨i, hi, hd⟩)
    · exact .inr (.inl ⟨i, hi, d, hd, ho.le_larger_right _ _⟩)
  · refine ⟨larger t.now e.1, .tail _ (List.mem_map_of_mem ?_), ?_, ho.larger_le hx hex⟩
    · exact List.mem_append_right _ (List.mem_map_of_mem he)
    · exact .inr (.inr ⟨e, he, hid, ho.le_larger_right _ _⟩)

theorem now_le_turningPoint (ho : Linear σ) (hc : c ∈ t.turningPoints id) : le t.now c = true := by
  rcases List.mem_cons.1 hc with rfl | hc
  · exact ho.le_refl _
  · obtain ⟨d, -, rfl⟩ := List.mem_map.1 hc
    exact ho.le_larger_left _ _

/-- A token that counts as cancelled at an instant to come does so from a first one on. -/
theorem CountsBy.exists_first (hv : Seconds.Exact value) (h : t.CountsBy id x) (hx : le t.now x = true) :
    ∃ c, t.First id c ∧ le c x = true := by
  obtain ⟨c, hc, hcounts, -⟩ := h.exists_turningPoint hv.toLinear hx
  obtain ⟨c, ⟨hc, hcounts⟩, hleast⟩ := Set.exists_min_image {c | c ∈ t.turningPoints id ∧ t.CountsBy id c} value
    ((List.finite_toSet (t.turningPoints id)).subset fun _ h => h.1) ⟨c, hc, hcounts⟩
  have hfirst : ∀ y, le t.now y = true → t.CountsBy id y → le c y = true := by
    intro y hy hcounts
    obtain ⟨d, hd, hdcounts, hle⟩ := hcounts.exists_turningPoint hv.toLinear hy
    exact hv.le_trans (hv.le.2 (hleast d ⟨hd, hdcounts⟩)) hle
  exact ⟨c, ⟨now_le_turningPoint hv.toLinear hc, hcounts, hfirst⟩, hfirst x hx h⟩

/-! ### Moving the clock up to a token's own cancellation -/

/-- What is split off is not later than what else is due. -/
theorem splitDue_le (ho : Linear σ) {goal : σ} : ∀ {entries rest : List (σ × TokenId)} {e : σ × TokenId},
    splitDue goal entries = some (e, rest) → ∀ other ∈ entries, le other.1 goal = true → le e.1 other.1 = true
  | [], _, _, h, _, _, _ => by simp [splitDue] at h
  | entry :: entries, rest, e, h, other, hother, hdue => by
    simp only [splitDue] at h
    split at h
    next first others hsplit =>
      have hfirst := splitDue_le ho hsplit
      split at h
      next hentry =>
        obtain ⟨rfl, -⟩ : entry = e ∧ entries = rest := by simpa using h
        rcases List.mem_cons.1 hother with rfl | hother
        · exact ho.le_refl _
        · exact ho.le_trans hentry.2 (hfirst other hother hdue)
      next hentry =>
        obtain ⟨rfl, -⟩ : first = e ∧ entry :: others = rest := by simpa using h
        rcases List.mem_cons.1 hother with rfl | hother
        · exact ho.le_of_not_le fun hle => hentry ⟨hdue, hle⟩
        · exact hfirst other hother hdue
    next hnone =>
      split at h
      next =>
        obtain ⟨rfl, -⟩ : entry = e ∧ entries = rest := by simpa using h
        rcases List.mem_cons.1 hother with rfl | hother
        · exact ho.le_refl _
        · exact absurd hdue (not_le_of_splitDue hnone other hother)
      next => simp at h

/-- A clock that is moved to a later instant goes no further. -/
theorem now_moveTo_le (ho : Linear σ) {target : σ} (waiting : Option TokenId) : ∀ (fuel : Nat) {t : Timeline σ},
    le t.now target = true → le (t.moveTo target waiting fuel).now target = true
  | 0, _, _ => ho.le_refl _
  | fuel + 1, t, htarget => by
    rw [moveTo]
    split
    next => exact ho.le_refl _
    next instant other rest hsplit =>
      have hmoved : le (larger t.now instant) target = true := ho.larger_le htarget (le_of_splitDue hsplit)
      dsimp only
      split
      · exact hmoved
      · exact now_moveTo_le ho waiting fuel hmoved

/-- A move of the clock that a token's own cancellation ends goes no further than to the first of them. -/
theorem moveTo_le_own (hv : Seconds.Exact value) {target : σ} : ∀ {fuel : Nat} {t : Timeline σ},
    t.scheduled.length ≤ fuel → le t.now target = true → (x, id) ∈ t.scheduled →
    value (t.moveTo target (some id) fuel).now ≤ max (value t.now) (value x)
  | 0, t, hfuel, _, hx => by
    rw [List.length_eq_zero_iff.1 (Nat.le_zero.1 hfuel)] at hx
    exact absurd hx List.not_mem_nil
  | fuel + 1, t, hfuel, htarget, hx => by
    rw [moveTo]
    split
    next hnone =>
      have hlate := fun h => not_le_of_splitDue hnone _ hx (hv.le.2 h)
      exact le_max_of_le_right (not_le.1 hlate).le
    next instant other rest hsplit =>
      have hdue : value instant ≤ value target := hv.le.1 (le_of_splitDue hsplit)
      have hnow : value (larger t.now instant) = max (value t.now) (value instant) := hv.larger _ _
      have hfirst : value instant ≤ value x := by
        by_cases hxdue : le x target = true
        · exact hv.le.1 (splitDue_le hv.toLinear hsplit _ hx hxdue)
        · exact hdue.trans (not_le.1 fun h => hxdue (hv.le.2 h)).le
      have hmoved : max (value t.now) (value instant) ≤ max (value t.now) (value x) := max_le_max_left _ hfirst
      dsimp only
      split
      next => exact hnow.trans_le hmoved
      next hother =>
        have hrest : (x, id) ∈ rest := by
          rcases List.mem_cons.1 ((perm_of_splitDue hsplit).mem_iff.1 hx) with heq | hrest
          · exact absurd (congrArg (some ∘ Prod.snd) heq) hother
          · exact hrest
        have hfuel' : rest.length ≤ fuel :=
          Nat.le_of_succ_le_succ ((Nat.le_of_eq (perm_of_splitDue hsplit).length_eq.symm).trans hfuel)
        have htarget' : le (larger t.now instant) target = true := hv.larger_le htarget (hv.le.2 hdue)
        have hgoesOn := moveTo_le_own hv
          (t := ({ t with now := larger t.now instant, scheduled := rest } : Timeline σ).cancel other) hfuel' htarget' hrest
        exact hgoesOn.trans (max_le (hnow.trans_le hmoved) (le_max_right _ _))

/-- A move of the clock that a token's own cancellation may end leads to its goal or to such a cancellation. -/
theorem moveTo_now_or_flagged (target : σ) : ∀ (fuel : Nat) {t : Timeline σ}, (id : Nat) < t.tokens.length →
    (t.moveTo target (some id) fuel).now = target ∨ (t.moveTo target (some id) fuel).Flagged id
  | 0, _, _ => .inl rfl
  | fuel + 1, t, hid => by
    rw [moveTo]
    split
    next => exact .inl rfl
    next instant other rest hsplit =>
      dsimp only
      split
      next heq =>
        obtain rfl := Option.some.inj heq
        exact .inr ((flagged_cancel _ _).2 (.inr ⟨rfl, hid⟩))
      next => exact moveTo_now_or_flagged target fuel (by simpa [cancel] using hid)

end Timeline
end Adjudication.Time
