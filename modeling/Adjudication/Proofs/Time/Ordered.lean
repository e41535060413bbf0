import Adjudication.Proofs.Time.Calm
import Adjudication.Proofs.Time.Exact

/-!
Time that goes forward. Where numbers of seconds are ordered, as they are in exact time, a clock that is moved to a later
instant, or that waits are made by, never goes back.
-/

namespace Adjudication.Time

/-- Numbers of seconds that are compared, added up and counted as an order has it. -/
structure Seconds.Ordered (σ : Type) [Seconds σ] : Prop where
  le_refl : ∀ a : σ, le a a = true
  le_trans : ∀ {a b c : σ}, le a b = true → le b c = true → le a c = true
  le_of_not_le : ∀ {a b : σ}, ¬le a b = true → le b a = true
  le_of_lt : ∀ {a b : σ}, lt a b = true → le a b = true
  le_add : ∀ (a : σ) {d : σ}, le zero d = true → le a (add a d) = true
  sub_nonneg : ∀ {a b : σ}, le a b = true → le zero (sub b a) = true
  ratio_nonneg : ∀ n d : Nat, le zero (ratio n d : σ) = true
  microseconds_mono : ∀ {a b : σ} {m n : Int}, le a b = true → microseconds a = .ok m → microseconds b = .ok n → m ≤ n

/-- Exact time is ordered. -/
theorem ordered_int : Seconds.Ordered Int where
  le_refl a := decide_eq_true (Int.le_refl a)
  le_trans h h' := decide_eq_true (Int.le_trans (of_decide_eq_true h) (of_decide_eq_true h'))
  le_of_not_le h := decide_eq_true (Int.le_of_lt (Int.not_le.1 fun h' => h (decide_eq_true h')))
  le_of_lt h := decide_eq_true (Int.le_of_lt (of_decide_eq_true h))
  le_add a _ h := decide_eq_true (Int.le_add_of_nonneg_right (of_decide_eq_true h))
  sub_nonneg h := decide_eq_true (Int.sub_nonneg_of_le (of_decide_eq_true h))
  ratio_nonneg n d := decide_eq_true (Int.ediv_nonneg (Int.mul_nonneg (Int.natCast_nonneg n) (by decide))
    (Int.natCast_nonneg d))
  microseconds_mono h h₁ h₂ := by
    obtain rfl := Except.ok.inj h₁
    obtain rfl := Except.ok.inj h₂
    exact of_decide_eq_true h

/-- Numbers of seconds of which the one that is not less is no less than the other. -/
structure Seconds.Linear (σ : Type) [Seconds σ] : Prop extends Seconds.Ordered σ where
  le_of_not_lt : ∀ {a b : σ}, ¬lt a b = true → le b a = true

/-- Exact time is linear. -/
theorem linear_int : Seconds.Linear Int where
  toOrdered := ordered_int
  le_of_not_lt h := decide_eq_true (Int.not_lt.1 fun h' => h (decide_eq_true h'))

open Seconds (Ordered Linear add sub le lt larger lesser slice)

variable {σ : Type} [Seconds σ] {a b c : σ}

theorem Seconds.Linear.le_larger_right (h : Linear σ) (a b : σ) : le b (larger a b) = true := by
  rw [larger]
  split
  next => exact h.le_refl b
  next hlt => exact h.le_of_not_lt hlt

namespace Seconds.Ordered

theorem le_larger_left (h : Ordered σ) (a b : σ) : le a (larger a b) = true := by
  rw [larger]
  split
  next hlt => exact h.le_of_lt hlt
  next => exact h.le_refl a

theorem larger_le (_ : Ordered σ) (ha : le a c = true) (hb : le b c = true) : le (larger a b) c = true := by
  rw [larger]
  split
  next => exact hb
  next => exact ha

theorem lesser_nonneg (_ : Ordered σ) (ha : le Seconds.zero a = true) (hb : le Seconds.zero b = true) :
    le Seconds.zero (lesser a b) = true := by
  rw [lesser]
  split
  next => exact hb
  next => exact ha

end Seconds.Ordered

namespace Timeline

variable {t u : Timeline σ} {id : TokenId}

theorem le_of_splitDue {goal : σ} : ∀ {entries rest : List (σ × TokenId)} {e : σ × TokenId},
    splitDue goal entries = some (e, rest) → le e.1 goal = true
  | [], _, _, h => by simp [splitDue] at h
  | entry :: entries, rest, e, h => by
    simp only [splitDue] at h
    split at h
    next other others hsplit =>
      split at h
      next hdue =>
        obtain ⟨rfl, -⟩ : entry = e ∧ entries = rest := by simpa using h
        exact hdue.1
      next =>
        obtain ⟨rfl, -⟩ : other = e ∧ entry :: others = rest := by simpa using h
        exact le_of_splitDue hsplit
    next =>
      split at h
      next hdue =>
        obtain ⟨rfl, -⟩ : entry = e ∧ entries = rest := by simpa using h
        exact hdue
      next => simp at h

/-- A clock that is moved to a later instant goes forward, also where the move ends on the way. -/
theorem le_now_moveTo (h : Ordered σ) {target : σ} (waiting : Option TokenId) : ∀ (fuel : Nat) {t : Timeline σ},
    le t.now target = true → le t.now (t.moveTo target waiting fuel).now = true
  | 0, _, ht => ht
  | fuel + 1, t, ht => by
    simp only [moveTo]
    split
    next => exact ht
    next instant other rest hsplit =>
      have hdue : le instant target = true := le_of_splitDue hsplit
      have hfirst := h.le_larger_left t.now instant
      split
      · exact hfirst
      · have hmoved : le (larger t.now instant) target = true := h.larger_le ht hdue
        exact h.le_trans hfirst (le_now_moveTo h waiting fuel
          (t := ({ t with now := larger t.now instant, scheduled := rest } : Timeline σ).cancel other) hmoved)

theorem le_now_advance (h : Ordered σ) (t : Timeline σ) {seconds : σ} (hs : le Seconds.zero seconds = true) :
    le t.now (t.advance seconds).now = true :=
  le_now_moveTo h none _ (h.le_add t.now hs)

theorem now_anyCancelled : ∀ (ids : List TokenId), (t.anyCancelled ids).2.now = t.now
  | [] => rfl
  | id :: rest => by
    rw [anyCancelled]
    split
    next => exact now_anyCancelled rest
    next =>
      split
      · rfl
      · split
        · rfl
        · exact now_anyCancelled rest

/-- Asking about a token takes no time. -/
theorem now_isCancelled (t : Timeline σ) (id : TokenId) : (t.isCancelled id).2.now = t.now := now_anyCancelled _

theorem leastRemaining_nonneg (h : Ordered σ) : ∀ {ids : List TokenId} {r : σ}, t.leastRemaining ids = some r →
    le Seconds.zero r = true
  | [], _, hr => by simp [leastRemaining] at hr
  | id :: rest, r, hr => by
    simp only [leastRemaining] at hr
    split at hr
    next => exact leastRemaining_nonneg h hr
    next d _ =>
      have hown : le Seconds.zero (larger Seconds.zero (sub d t.now)) = true := h.le_larger_left _ _
      split at hr
      next =>
        obtain rfl := Option.some.inj hr
        exact hown
      next other hother =>
        split at hr
        · obtain rfl := Option.some.inj hr
          exact leastRemaining_nonneg h hother
        · obtain rfl := Option.some.inj hr
          exact hown

/-- A round of a wait tells what a look at the token tells, or moves the clock on to a later instant if the token is not
cancelled. -/
theorem waitRound_cases (id : TokenId) (goal : σ) (t : Timeline σ) :
    waitRound id goal t = .done (t.isCancelled id).1 (t.isCancelled id).2 ∨
      t.isCancelled id = (false, t) ∧ ∃ slice target,
        waitRound id goal t = .again slice (t.moveTo target (some id) t.scheduled.length) ∧
          (Ordered σ → le t.now target = true) := by
  rw [waitRound]
  cases hc : (t.isCancelled id).1 with
  | true =>
    left
    rw [show t.isCancelled id = (true, (t.isCancelled id).2) from Prod.ext hc rfl]
    rfl
  | false =>
    rw [isCancelled_of_fst hc]
    dsimp only
    rw [if_neg (by simp)]
    split
    · exact .inl rfl
    next hleft =>
      refine .inr ⟨rfl, _, _, rfl, fun h => h.le_add _ ?_⟩
      have hleft : le Seconds.zero (sub goal t.now) = true := h.le_of_not_le hleft
      have hnearest : ∀ r, t.remaining id = some r → le Seconds.zero (lesser (sub goal t.now) r) = true :=
        fun r hr => h.lesser_nonneg hleft (leastRemaining_nonneg h hr)
      split
      · refine h.lesser_nonneg ?_ (h.ratio_nonneg 1 20)
        split
        next => exact hleft
        next r hr => exact hnearest r hr
      · split
        next => exact hleft
        next r hr => exact hnearest r hr

/-- What looking at the token and moving the clock on do with a timeline, the rounds of a wait do with it. -/
theorem waitRounds_related {R : Timeline σ → Timeline σ → Prop} (htrans : ∀ {t u v}, R t u → R u v → R t v)
    (hlook : ∀ t, R t (t.isCancelled id).2)
    (hmove : ∀ (t : Timeline σ) (target : σ), (Ordered σ → le t.now target = true) →
      R t (t.moveTo target (some id) t.scheduled.length)) (goal : σ) :
    ∀ (patience : Nat) {t u : Timeline σ} {b : Bool}, waitRounds id goal patience t = some (b, u) → R t u
  | 0, _, _, _, hw => by simp [waitRounds] at hw
  | patience + 1, t, u, b, hw => by
    rw [waitRounds] at hw
    rcases waitRound_cases id goal t with hround | ⟨-, slice, target, hround, htarget⟩
    · rw [hround] at hw
      obtain ⟨-, rfl⟩ := Prod.ext_iff.1 (Option.some.inj hw)
      exact hlook t
    · rw [hround] at hw
      exact htrans (hmove t target htarget) (waitRounds_related (R := R) htrans hlook hmove goal patience hw)

theorem le_now_waitRounds (h : Ordered σ) (goal : σ) (patience : Nat) {t u : Timeline σ} {b : Bool}
    (hw : waitRounds id goal patience t = some (b, u)) : le t.now u.now = true := by
  refine waitRounds_related (R := fun t u => le t.now u.now = true) h.le_trans (fun t => ?_)
    (fun t target htarget => le_now_moveTo h _ _ (htarget h)) goal patience hw
  rw [now_isCancelled]
  exact h.le_refl _

/-- A wait goes forward. -/
theorem le_now_wait (h : Ordered σ) {patience : Nat} {seconds : σ} {b : Bool}
    (hw : t.wait patience id seconds = some (b, u)) : le t.now u.now = true :=
  le_now_waitRounds h _ patience hw

end Timeline
end Adjudication.Time
