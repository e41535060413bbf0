import Adjudication.Proofs.Decimal.Sums
import Adjudication.Proofs.Time.Extended

/-!
Waits make progress. A round of a wait ends it by comparing deadlines and the goal with the clock, and it sleeps for a length
that is a difference. Where a difference is above zero exactly if the comparison says that the instant is still to come, every
slice that is slept through is positive, and no time is left only to a token that counts as cancelled. That holds of doubles,
however late the deadlines are, and of exact time, where every wait ends for that reason.
-/

namespace Adjudication.Time

open Seconds (add sub le lt larger lesser slice)

variable {σ : Type} [Seconds σ]

/-- What holds of both holds of the lesser. -/
theorem Seconds.lesser_of {P : σ → Prop} {a b : σ} (ha : P a) (hb : P b) : P (lesser a b) := by
  rw [lesser]
  split
  · exact hb
  · exact ha

/-- The difference between a number and a reading of the clock tells whether the number is still to come. -/
structure Seconds.Telling (reading number : σ → Prop) : Prop where
  sub : ∀ {x y : σ}, reading x → number y →
    le y x = true ∧ le (sub y x) zero = true ∨ le y x = false ∧ lt zero (sub y x) = true
  slice : lt zero (slice : σ) = true

theorem telling_double :
    Seconds.Telling (Decimal.isFinite · = true) (Decimal.isNotANumber · = false) where
  sub hx hy := (Decimal.sub_pos_or_le hx hy).imp (And.imp decide_eq_true decide_eq_true)
    (And.imp decide_eq_false decide_eq_true)
  slice := by decide +kernel

theorem telling_extended : Seconds.Telling (fun x : Extended => ∃ q, x = .number q) (· ≠ .notANumber) where
  sub := by
    rintro _ (y | negative | _) ⟨x, rfl⟩ hy
    · rcases le_or_gt y x with hle | hlt
      · exact .inl ⟨by simpa using hle, by simpa using hle⟩
      · refine .inr ⟨?_, ?_⟩
        · rw [Bool.eq_false_iff]
          simpa using hlt
        · rw [Extended.sub_number, Extended.zero_eq, Extended.lt_number]
          linarith
    · cases negative
      · exact .inr ⟨rfl, rfl⟩
      · exact .inl ⟨rfl, rfl⟩
    · exact absurd rfl hy
  slice := by
    rw [Extended.slice_eq, Extended.zero_eq, Extended.lt_number]
    norm_num

namespace Timeline

variable {t u v : Timeline σ} {id : TokenId} {goal r s : σ}

/-! ### One round -/

/-- What a round of a wait does. A slice lasts to the goal, for the time left to the token, or for a twentieth of a second. -/
inductive Step (id : TokenId) (goal : σ) (t : Timeline σ) : Round σ → Prop
  | cancelled (h : (t.isCancelled id).1 = true) : Step id goal t (.done true (t.isCancelled id).2)
  | finished (h : (t.isCancelled id).1 = false) (hgoal : le (sub goal t.now) Seconds.zero = true) : Step id goal t (.done false t)
  | slice {s : σ} (h : (t.isCancelled id).1 = false) (hgoal : le (sub goal t.now) Seconds.zero = false)
      (hs : s = sub goal t.now ∨ t.remaining id = some s ∨ s = Seconds.slice) :
      Step id goal t (.again s (t.moveTo (add t.now s) (some id) t.scheduled.length))

theorem step (id : TokenId) (goal : σ) (t : Timeline σ) : Step id goal t (waitRound id goal t) := by
  rw [waitRound]
  cases h : (t.isCancelled id).1 with
  | true =>
    rw [show t.isCancelled id = (true, (t.isCancelled id).2) from Prod.ext h rfl]
    exact .cancelled h
  | false =>
    rw [isCancelled_of_fst h]
    dsimp only
    rw [if_neg Bool.false_ne_true]
    split
    next hgoal => exact .finished h hgoal
    next hgoal =>
      refine .slice h (Bool.eq_false_iff.2 hgoal) ?_
      cases t.remaining id with
      | none =>
        split
        · exact Seconds.lesser_of (P := fun s => s = _ ∨ _ = some s ∨ s = _) (.inl rfl) (.inr (.inr rfl))
        · exact .inl rfl
      | some r =>
        have hnear := Seconds.lesser_of (P := fun s => s = sub goal t.now ∨ some r = some s ∨ s = slice) (.inl rfl)
          (.inr (.inl rfl))
        split
        · exact Seconds.lesser_of (P := fun s => s = _ ∨ _ = some s ∨ s = _) hnear (.inr (.inr rfl))
        · exact hnear

/-- The time left to some tokens is that to one of their deadlines. -/
theorem exists_of_leastRemaining : ∀ {ids : List TokenId} {r : σ}, t.leastRemaining ids = some r →
    ∃ i ∈ ids, ∃ d, t.deadline? i = some d ∧ r = larger Seconds.zero (sub d t.now)
  | [], _, h => by cases h
  | id :: rest, r, h => by
    have hrest : ∀ {r}, t.leastRemaining rest = some r →
        ∃ i ∈ id :: rest, ∃ d, t.deadline? i = some d ∧ r = larger Seconds.zero (sub d t.now) := fun h => by
      obtain ⟨i, hi, hd⟩ := exists_of_leastRemaining h
      exact ⟨i, .tail _ hi, hd⟩
    rw [leastRemaining] at h
    cases hid : (t.tokens[id]?).bind Token.deadline with
    | none => exact hrest (by rwa [hid] at h)
    | some d =>
      have hown : ∃ i ∈ id :: rest, ∃ e, t.deadline? i = some e ∧
          larger Seconds.zero (sub d t.now) = larger Seconds.zero (sub e t.now) := ⟨id, .head _, d, hid, rfl⟩
      rw [hid] at h
      dsimp only at h
      cases hinherited : t.leastRemaining rest with
      | none =>
        rw [hinherited] at h
        obtain rfl := Option.some.inj h
        exact hown
      | some other =>
        rw [hinherited] at h
        dsimp only at h
        split at h
        · exact hrest (hinherited.trans h)
        · obtain rfl := Option.some.inj h
          exact hown

/-- All deadlines of a token's chain are numbers. -/
def Numbered (number : σ → Prop) (t : Timeline σ) (id : TokenId) : Prop :=
  ∀ i ∈ t.chain id, ∀ d, t.deadline? i = some d → number d

omit [Seconds σ] in
theorem Later.numbered {number : σ → Prop} (h : t.Later u) (ht : t.Numbered number id) : u.Numbered number id :=
  fun i hi d hd => ht i (h.chain id ▸ hi) d ((h.deadline? i).symm.trans hd)

/-- The two questions of a round agree: what is slept through is positive, and the time left to a token is only none where the
token counts as cancelled. -/
structure Progresses (id : TokenId) (goal : σ) (t : Timeline σ) : Prop where
  positive : ∀ s u, waitRound id goal t = .again s u → lt Seconds.zero s = true
  cancelled : ∀ r, t.remaining id = some r → lt Seconds.zero r = false → (t.isCancelled id).1 = true

section Telling

variable {reading number : σ → Prop} (hl : Seconds.Telling reading number) (hnow : reading t.now) (hd : t.Numbered number id)
include hl hnow hd

/-- The time left to a token that does not count as cancelled is the way to a deadline that is still to come. -/
theorem remaining_ahead (h : (t.isCancelled id).1 = false) (hr : t.remaining id = some r) :
    lt Seconds.zero r = true ∧ ∃ i ∈ t.chain id, ∃ d, t.deadline? i = some d ∧ le d t.now = false ∧ r = sub d t.now := by
  obtain ⟨i, hi, d, hid, rfl⟩ := exists_of_leastRemaining hr
  have hexpired : ¬t.Expired id t.now := (isCancelled_eq_false_iff.1 h).2
  rcases hl.sub hnow (hd i hi d hid) with ⟨hle, -⟩ | ⟨hle, hahead⟩
  · exact absurd ⟨i, hi, d, hid, hle⟩ hexpired
  · rw [larger, if_pos hahead]
    exact ⟨hahead, i, hi, d, hid, hle, rfl⟩

theorem progresses (hgoal : number goal) : t.Progresses id goal where
  positive s u h := by
    have hstep := step id goal t
    rw [h] at hstep
    cases hstep with
    | slice hcancelled hopen hs =>
      rcases hs with rfl | hr | rfl
      · rcases hl.sub hnow hgoal with ⟨-, hle⟩ | ⟨-, hlt⟩
        · exact absurd hle (by simp [hopen])
        · exact hlt
      · exact (remaining_ahead hl hnow hd hcancelled hr).1
      · exact hl.slice
  cancelled r hr hzero := by
    by_contra h
    have hpos := (remaining_ahead hl hnow hd (Bool.eq_false_iff.2 h) hr).1
    simp [hzero] at hpos

/-- Where a slice leads: the token is cancelled in it, or the clock goes on to the goal, to a deadline or by a twentieth of a
second. -/
inductive Led (id : TokenId) (goal : σ) (t u : Timeline σ) : Prop
  | called (h : u.Called id)
  | goal (hahead : le goal t.now = false) (hnow : u.now = add t.now (sub goal t.now))
  | deadline {i : TokenId} {d : σ} (hi : i ∈ t.chain id) (hd : t.deadline? i = some d) (hahead : le d t.now = false)
    (hnow : u.now = add t.now (sub d t.now))
  | slice (hnow : u.now = add t.now Seconds.slice)

theorem led (hgoal : number goal) (hid : (id : Nat) < t.tokens.length) (h : waitRound id goal t = .again s u) :
    Led id goal t u := by
  have hstep := step id goal t
  rw [h] at hstep
  cases hstep with
  | slice hcancelled hopen hs =>
    have hlater := later_moveTo (add t.now s) (some id) t.scheduled.length t
    rcases moveTo_now_or_flagged (add t.now s) t.scheduled.length hid with hmoved | hflag
    · rcases hs with rfl | hr | rfl
      · refine .goal ?_ hmoved
        rcases hl.sub hnow hgoal with ⟨-, hle⟩ | ⟨hahead, -⟩
        · exact absurd hle (by simp [hopen])
        · exact hahead
      · obtain ⟨-, i, hi, d, hdeadline, hahead, rfl⟩ := remaining_ahead hl hnow hd hcancelled hr
        exact .deadline hi hdeadline hahead hmoved
      · exact .slice hmoved
    · exact .called ⟨id, hlater.chain id ▸ mem_chain_of_lt hid, hflag⟩

end Telling

/-! ### Round after round -/

/-- The timelines at which the rounds of a wait begin. -/
inductive Rounds (id : TokenId) (goal : σ) (t : Timeline σ) : Timeline σ → Prop
  | first : Rounds id goal t t
  | next {u v : Timeline σ} {s : σ} (h : Rounds id goal t u) (hround : waitRound id goal u = .again s v) : Rounds id goal t v

theorem later_of_again (h : waitRound id goal t = .again s u) : t.Later u := by
  have hstep := step id goal t
  rw [h] at hstep
  cases hstep with
  | slice => exact later_moveTo _ _ _ t

theorem Rounds.later (h : Rounds id goal t u) : t.Later u := by
  induction h with
  | first => exact Std.Refl.refl t
  | next _ hround ih => exact Trans.trans ih (later_of_again hround)

theorem Rounds.after (h : waitRound id goal t = .again s u) (hu : Rounds id goal u v) : Rounds id goal t v := by
  induction hu with
  | first => exact .next .first h
  | next _ hround ih => exact .next ih hround

/-- Every round of a wait makes progress. -/
theorem Rounds.progresses {reading number : σ → Prop} (hl : Seconds.Telling reading number) (hd : t.Numbered number id)
    (hgoal : number goal) (h : Rounds id goal t u) (hnow : reading u.now) : u.Progresses id goal :=
  Timeline.progresses hl hnow (h.later.numbered hd) hgoal

/-- A wait comes to an answer, given enough patience. -/
def Ends (id : TokenId) (goal : σ) (t : Timeline σ) : Prop :=
  ∃ n b u, ∀ patience, n ≤ patience → waitRounds id goal patience t = some (b, u)

theorem ends_of_done {b : Bool} (h : waitRound id goal t = .done b u) : t.Ends id goal := by
  refine ⟨1, b, u, fun patience hpatience => ?_⟩
  obtain ⟨k, rfl⟩ := Nat.exists_eq_add_of_le' hpatience
  rw [waitRounds, h]

theorem Ends.of_again (hu : u.Ends id goal) (h : waitRound id goal t = .again s u) : t.Ends id goal := by
  obtain ⟨n, b, v, hrounds⟩ := hu
  refine ⟨n + 1, b, v, fun patience hpatience => ?_⟩
  obtain ⟨k, rfl⟩ := Nat.exists_eq_add_of_le' (Nat.le_of_add_left_le hpatience)
  rw [waitRounds, h]
  exact hrounds k (by omega)

theorem ends_of_cancelled (h : (t.isCancelled id).1 = true) : t.Ends id goal := by
  have hstep := step id goal t
  generalize hround : waitRound id goal t = round at hstep
  cases hstep with
  | cancelled => exact ends_of_done hround
  | finished hnot => simp [hnot] at h
  | slice hnot => simp [hnot] at h

theorem ends_of_finished (h : le (sub goal t.now) Seconds.zero = true) : t.Ends id goal := by
  have hstep := step id goal t
  generalize hround : waitRound id goal t = round at hstep
  cases hstep with
  | cancelled => exact ends_of_done hround
  | finished => exact ends_of_done hround
  | slice _ hnot => simp [hnot] at h

end Timeline

/-! ### Waits in exact time -/

namespace Timeline

open Extended (number notANumber)

variable {t u : Timeline Extended} {id : TokenId} {now finish : ℚ} {s : Extended}

/-- In exact time a slice that does not end a wait takes a twentieth of a second. -/
theorem ends_or_later (hid : (id : Nat) < t.tokens.length) (hnow : t.now = number now) (hd : t.Numbered (· ≠ notANumber) id)
    (h : waitRound id (number finish) t = .again s u) : u.Ends id (number finish) ∨ u.now = number (now + 1 / 20) := by
  have hlater := later_of_again h
  cases led telling_extended ⟨now, hnow⟩ hd (by simp) hid h with
  | called hcalled => exact .inl (ends_of_cancelled (isCancelled_eq_true_iff.2 (.inl hcalled)))
  | goal _ hmoved =>
    refine .inl (ends_of_finished ?_)
    rw [hmoved, hnow, Extended.sub_number, Extended.add_number, Extended.sub_number, Extended.zero_eq, Extended.le_number]
    linarith
  | @deadline i d hi hdeadline _ hmoved =>
    refine .inl (ends_of_cancelled (isCancelled_eq_true_iff.2 (.inr ⟨i, hlater.chain id ▸ hi, d, ?_, ?_⟩)))
    · exact (hlater.deadline? i).trans hdeadline
    · rw [hmoved, hnow]
      exact Extended.le_add_sub (hd i hi d hdeadline)
  | slice hmoved =>
    rw [hmoved, hnow, Extended.slice_eq, Extended.add_number]
    exact .inr rfl

/-- Each round but the last two takes a twentieth of a second. -/
theorem ends_of_le : ∀ (n : Nat) {t : Timeline Extended} {now : ℚ}, (id : Nat) < t.tokens.length → t.now = number now →
    t.Numbered (· ≠ notANumber) id → 20 * (finish - now) ≤ n → t.Ends id (number finish) := by
  intro n
  induction n with
  | zero =>
    intro t now _ hnow _ hn
    refine ends_of_finished ?_
    rw [hnow, Extended.sub_number, Extended.zero_eq, Extended.le_number]
    norm_num at hn
    linarith
  | succ n ih =>
    intro t now hid hnow hd hn
    cases hround : waitRound id (number finish) t with
    | done b u => exact ends_of_done hround
    | again s u =>
      refine Ends.of_again ?_ hround
      have hlater := later_of_again hround
      rcases ends_or_later hid hnow hd hround with hends | hlate
      · exact hends
      · refine ih (hlater.length ▸ hid) hlate (hlater.numbered hd) ?_
        push_cast at hn
        linarith

/-- In exact time a wait from a reading of the clock on comes to an answer, whatever deadlines there are, infinite ones too. -/
theorem exists_wait_exact (hid : (id : Nat) < t.tokens.length) (hnow : t.now = number now)
    (hd : t.Numbered (· ≠ notANumber) id) (seconds : ℚ) :
    ∃ n b u, ∀ patience, n ≤ patience → t.wait patience id (number seconds) = some (b, u) := by
  obtain ⟨length, hlength⟩ : ∃ length, larger Seconds.zero (number seconds) = number length := by
    rw [larger]
    split
    · exact ⟨_, rfl⟩
    · exact ⟨_, rfl⟩
  have hends : t.Ends id (number (now + length)) := ends_of_le _ hid hnow hd (Nat.le_ceil _)
  rwa [← Extended.add_number, ← hnow, ← hlength] at hends

end Timeline

/-! ### Waits in doubles -/

namespace Timeline

open Decimal (isFinite isNotANumber rank)

variable {t u : Timeline Float} {id : TokenId} {goal s : Float}

/-- In doubles a slice that does not cancel the token moves the clock, as long as it shows less than two to the power of 48
seconds. -/
theorem called_or_lt (hid : (id : Nat) < t.tokens.length) (hzero : 0.0 ≤ t.now) (hlate : t.now < 281474976710656.0)
    (hd : t.Numbered (isNotANumber · = false) id) (hgoal : isNotANumber goal = false)
    (h : waitRound id goal t = .again s u) : u.Called id ∨ t.now < u.now := by
  have hnow : isFinite t.now = true := Decimal.isFinite_of_lt hzero hlate
  have hahead : ∀ {d : Float}, isNotANumber d = false → le d t.now = false → t.now < add t.now (sub d t.now) :=
    fun hd hle => Decimal.lt_add_of_lifts (Decimal.lifts_sub hnow hzero hd (of_decide_eq_false hle))
  cases led telling_double hnow hd hgoal hid h with
  | called hcalled => exact .inl hcalled
  | goal hle hmoved => exact .inr (hmoved ▸ hahead hgoal hle)
  | deadline hi hdeadline hle hmoved => exact .inr (hmoved ▸ hahead (hd _ hi _ hdeadline) hle)
  | slice hmoved => exact .inr (hmoved ▸ Decimal.lt_add_of_lifts (Decimal.lifts_twentieth hzero hlate))

/-- The clock cannot go up more often than there are doubles. -/
theorem ends_or_late (hgoal : isNotANumber goal = false) : ∀ (n : Nat) {t : Timeline Float}, (id : Nat) < t.tokens.length →
    0.0 ≤ t.now → t.Numbered (isNotANumber · = false) id → 2 ^ 64 < rank t.now.toModel.unpack + n →
    t.Ends id goal ∨ ∃ u, Rounds id goal t u ∧ ¬u.now < 281474976710656.0 := by
  intro n
  induction n with
  | zero =>
    intro t _ hzero _ hn
    exact absurd (Decimal.fromZero hzero).rank_le (by omega)
  | succ n ih =>
    intro t hid hzero hd hn
    by_cases hlate : t.now < 281474976710656.0
    · cases hround : waitRound id goal t with
      | done b u => exact .inl (ends_of_done hround)
      | again s u =>
        have hlater := later_of_again hround
        have hrest : u.Ends id goal ∨ ∃ v, Rounds id goal u v ∧ ¬v.now < 281474976710656.0 := by
          rcases called_or_lt hid hzero hlate hd hgoal hround with hcalled | hlt
          · exact .inl (ends_of_cancelled (isCancelled_eq_true_iff.2 (.inl hcalled)))
          · obtain ⟨hzero', hrank⟩ := Decimal.rank_lt_of_lt hzero hlt
            exact ih (hlater.length ▸ hid) hzero' (hlater.numbered hd) (by omega)
        exact hrest.imp (Ends.of_again · hround) fun ⟨v, hv, hlate'⟩ => ⟨v, hv.after hround, hlate'⟩
    · exact .inr ⟨t, .first, hlate⟩

end Timeline
end Adjudication.Time
