import Adjudication.Proofs.Time.Instants
import Adjudication.Proofs.Time.Operations
import Mathlib.Data.Rat.Floor
import Mathlib.Tactic.Positivity

/-!
Waits in exact time. A wait on a token lasts to its goal or until the token counts as cancelled, whichever comes first. A
deadline of the token's chain and the token's own cancellation end it at their very instant; the cancellation of an ancestor
is noticed within a twentieth of a second, since it is only looked for at the end of each slice. So a wait always ends, and a
new child's wait tells what the wait of its parent tells.
-/

namespace Adjudication.Time.Timeline

open Seconds (Linear add sub le larger lesser slice)

variable {σ : Type} [Seconds σ] {value : σ → ℚ} {t u v : Timeline σ} {id : TokenId} {goal x d : σ}

/-! ### One slice -/

omit [Seconds σ] in
theorem chain_of_root (hid : (id : Nat) < t.tokens.length)
    (hroot : ((t.tokens[id]?).bind Token.parent).isSome = false) : t.chain id = [id] := by
  rw [List.getElem?_eq_getElem hid] at hroot
  obtain ⟨fuel, hfuel⟩ := Nat.exists_eq_succ_of_ne_zero (Nat.ne_of_gt (Nat.zero_lt_of_lt hid))
  rw [chain, hfuel, lineage, List.getElem?_eq_getElem hid]
  cases hparent : t.tokens[id].parent with
  | none => simp only [hparent]
  | some parent => simp [hparent] at hroot

/-- How long a slice of a wait is: it lasts to the goal, to the nearest deadline or, where there is a parent, for a twentieth
of a second, whichever is the shortest. -/
structure SliceLength (value : σ → ℚ) (id : TokenId) (goal : σ) (t : Timeline σ) (left : σ) : Prop where
  pos : 0 < value left
  inTime : value t.now + value left ≤ value goal
  deadline : ∀ i ∈ t.chain id, ∀ d, t.deadline? i = some d → value t.now + value left ≤ value d
  poll : value left ≤ 1 / 20 ∨ t.chain id = [id]
  tight : value t.now + value left = value goal ∨
    (∃ i ∈ t.chain id, ∃ d, t.deadline? i = some d ∧ value t.now + value left = value d) ∨ value left = 1 / 20

/-- The time up to the goal and to the nearest deadline. -/
theorem length_of_remaining (hv : Seconds.Exact value) (hexpired : ¬t.Expired id t.now)
    (hgoal : value t.now < value goal) {left : σ}
    (hleft : left = match t.remaining id with | none => sub goal t.now | some r => lesser (sub goal t.now) r) :
    0 < value left ∧ value t.now + value left ≤ value goal ∧
      (∀ i ∈ t.chain id, ∀ d, t.deadline? i = some d → value t.now + value left ≤ value d) ∧
      (value t.now + value left = value goal ∨
        ∃ i ∈ t.chain id, ∃ d, t.deadline? i = some d ∧ value t.now + value left = value d) := by
  have hfuture : ∀ i ∈ t.chain id, ∀ d, t.deadline? i = some d → value t.now < value d := fun i hi d hd =>
    not_le.1 fun hle => hexpired ⟨i, hi, d, hd, hv.le.2 hle⟩
  have hown : ∀ i ∈ t.chain id, ∀ d, t.deadline? i = some d →
      value (larger Seconds.zero (sub d t.now)) = value d - value t.now := by
    intro i hi d hd
    rw [hv.larger, hv.zero, hv.sub]
    exact max_eq_right (sub_pos.2 (hfuture i hi d hd)).le
  have hleast : t.Least (t.chain id) (t.remaining id) := least_leastRemaining hv.toLinear t (t.chain id)
  cases hremaining : t.remaining id with
  | none =>
    rw [hremaining] at hleft hleast
    have hvalue : value left = value goal - value t.now := hleft ▸ hv.sub goal t.now
    refine ⟨by linarith, by linarith, fun i hi d hd => absurd hd (hleast i hi d), .inl (by linarith)⟩
  | some r =>
    rw [hremaining] at hleft hleast
    obtain ⟨⟨i, d, hi, hd, hr⟩, hnearest⟩ := hleast
    have hr : value r = value d - value t.now := hr ▸ hown i hi d hd
    have hvalue : value left = min (value goal - value t.now) (value d - value t.now) := by
      rw [hleft, hv.lesser, hv.sub, hr]
    have hpos := hfuture i hi d hd
    refine ⟨?_, ?_, fun j hj e he => ?_, ?_⟩
    · rw [hvalue]
      exact lt_min (by linarith) (by linarith)
    · have := min_le_left (value goal - value t.now) (value d - value t.now)
      linarith
    · have hle : value r ≤ value (larger Seconds.zero (sub e t.now)) := hv.le.1 (hnearest j e hj he)
      rw [hown j hj e he, hr] at hle
      have := min_le_right (value goal - value t.now) (value d - value t.now)
      linarith
    · rcases min_choice (value goal - value t.now) (value d - value t.now) with hmin | hmin
      · exact .inl (by linarith)
      · exact .inr ⟨i, hi, d, hd, by linarith⟩

theorem sliceLength (hv : Seconds.Exact value) (hid : (id : Nat) < t.tokens.length) (hexpired : ¬t.Expired id t.now)
    (hgoal : value t.now < value goal) {near left : σ}
    (hnear : near = match t.remaining id with | none => sub goal t.now | some r => lesser (sub goal t.now) r)
    (hleft : left = if ((t.tokens[id]?).bind Token.parent).isSome then lesser near slice else near) :
    SliceLength value id goal t left := by
  obtain ⟨hpos, hinTime, hdeadline, htight⟩ := length_of_remaining hv hexpired hgoal hnear
  cases hroot : ((t.tokens[id]?).bind Token.parent).isSome with
  | false =>
    obtain rfl : left = near := hleft.trans (if_neg (by simp [hroot]))
    exact ⟨hpos, hinTime, hdeadline, .inr (chain_of_root hid hroot), htight.imp_right .inl⟩
  | true =>
    have hmin : value left = min (value near) (1 / 20) := by rw [hleft, if_pos hroot, hv.lesser, hv.slice]
    have hle : value left ≤ value near := hmin.trans_le (min_le_left _ _)
    refine ⟨hmin ▸ lt_min hpos (by norm_num), by linarith, fun i hi d hd => ?_, .inl (hmin.trans_le (min_le_right _ _)), ?_⟩
    · have := hdeadline i hi d hd
      linarith
    · rcases min_choice (value near) (1 / 20) with hchoice | hchoice
      · rw [hmin, hchoice]
        exact htight.imp_right .inl
      · exact .inr (.inr (hmin.trans hchoice))

/-- What a slice of a wait leads to. -/
structure Sliced (value : σ → ℚ) (id : TokenId) (goal : σ) (t u : Timeline σ) : Prop
    extends Accounted (fun _ => False) t u where
  settled : u.Settled id
  inTime : value u.now ≤ value goal
  prompt : ∀ d, t.Prompt id d → value u.now ≤ value d
  poll : value u.now ≤ value t.now + 1 / 20 ∨ t.chain id = [id]
  ends : u.CountsBy id u.now ∨ value u.now = value goal ∨ value u.now = value t.now + 1 / 20

theorem SliceLength.sliced (hv : Seconds.Exact value) (hid : (id : Nat) < t.tokens.length)
    (hcounts : ¬t.CountsBy id t.now) {left : σ} (h : SliceLength value id goal t left) :
    Sliced value id goal t (t.moveTo (add t.now left) (some id) t.scheduled.length) := by
  generalize hu : t.moveTo (add t.now left) (some id) t.scheduled.length = u
  have htarget : value (add t.now left) = value t.now + value left := hv.add _ _
  have hle : le t.now (add t.now left) = true := hv.le.2 (by linarith [h.pos])
  have haccounted : Accounted (fun _ => False) t u := hu ▸ accounted_moveTo hv.toLinear _ _ hle
  have hnow : value u.now ≤ value t.now + value left := by
    rw [← htarget, ← hu]
    exact hv.le.1 (now_moveTo_le hv.toLinear _ _ hle)
  have hown : ∀ d, (d, id) ∈ t.scheduled → value u.now ≤ value d := by
    intro d hd
    have hself : id ∈ t.chain id := mem_chain_of_lt hid
    have hfuture : value t.now < value d := not_le.1 fun hd' => hcounts (.inr (.inr ⟨_, hd, hself, hv.le.2 hd'⟩))
    have hmove := moveTo_le_own hv (Nat.le_refl t.scheduled.length) hle hd
    rw [hu, max_eq_right hfuture.le] at hmove
    exact hmove
  refine ⟨haccounted, ?_, hnow.trans h.inTime, ?_, ?_, ?_⟩
  · exact hu ▸ settled_moveTo _ (fun _ h => (Option.some.inj h).symm) _ (Nat.le_refl _)
  · rintro d (⟨i, hi, hd⟩ | hd)
    · exact hnow.trans (h.deadline i hi d hd)
    · exact hown d hd
  · exact h.poll.imp_left fun hpoll => by linarith
  · have hmoved := moveTo_now_or_flagged (add t.now left) t.scheduled.length hid
    rw [hu] at hmoved
    rcases hmoved with hreached | hflag
    · have hreached : value u.now = value t.now + value left := hreached ▸ htarget
      rcases h.tight with hgoal | ⟨i, hi, d, hd, hdeadline⟩ | hslice
      · exact .inr (.inl (hreached.trans hgoal))
      · refine .inl (.inr (.inl ⟨i, (haccounted.chain id).symm ▸ hi, d, (haccounted.deadline? i).trans hd, ?_⟩))
        exact hv.le.2 (by linarith)
      · exact .inr (.inr (by linarith))
    · refine .inl (.inl ⟨id, ?_, hflag⟩)
      rw [haccounted.chain]
      exact mem_chain_of_lt hid

/-! ### One round -/

/-- What a round of a wait comes to: the token counts as cancelled, the goal is reached, or a slice is waited through. -/
inductive Turn (value : σ → ℚ) (id : TokenId) (goal : σ) (t : Timeline σ) : Round σ → Prop where
  | cancelled {u : Timeline σ} (h : t.CountsBy id t.now) (hnow : u.now = t.now) : Turn value id goal t (.done true u)
  | finished (h : ¬t.CountsBy id t.now) (hgoal : value t.now = value goal) : Turn value id goal t (.done false t)
  | slice {left : σ} {u : Timeline σ} (h : ¬t.CountsBy id t.now) (hgoal : value t.now < value goal)
      (hu : Sliced value id goal t u) : Turn value id goal t (.again left u)

theorem turn (hv : Seconds.Exact value) (hid : (id : Nat) < t.tokens.length) (hsettled : t.Settled id)
    (hgoal : value t.now ≤ value goal) : Turn value id goal t (waitRound id goal t) := by
  rw [waitRound]
  cases hcancelled : (t.isCancelled id).1 with
  | true =>
    rw [show t.isCancelled id = (true, (t.isCancelled id).2) from Prod.ext hcancelled rfl]
    exact .cancelled (hsettled.isCancelled_iff.1 hcancelled) (now_isCancelled t id)
  | false =>
    have hcounts : ¬t.CountsBy id t.now := fun h => by simp [hsettled.isCancelled_iff.2 h] at hcancelled
    rw [isCancelled_of_fst hcancelled]
    dsimp only
    rw [if_neg Bool.false_ne_true]
    have hsub : value (sub goal t.now) = value goal - value t.now := hv.sub _ _
    split
    next hle =>
      have hle := hv.le.1 hle
      rw [hv.zero, hsub] at hle
      exact .finished hcounts (hgoal.antisymm (by linarith))
    next hle =>
      have hlt : value t.now < value goal := by
        have hlt := not_le.1 fun h => hle (hv.le.2 h)
        rw [hv.zero, hsub] at hlt
        linarith
      refine .slice hcounts hlt (SliceLength.sliced hv hid hcounts ?_)
      exact sliceLength hv hid (fun h => hcounts (.inr (.inl h))) hlt rfl rfl

/-! ### Round after round -/

/-- What a wait tells, and where it leaves the clock. -/
structure Waited (value : σ → ℚ) (id : TokenId) (goal : σ) (t : Timeline σ) (b : Bool) (u : Timeline σ) : Prop where
  told : b = true ↔ t.CountsBy id goal
  forward : value t.now ≤ value u.now
  inTime : value u.now ≤ value goal
  ends : b = false → value u.now = value goal
  counts : b = true → t.CountsBy id u.now
  atOnce : t.CountsBy id t.now → value u.now = value t.now
  prompt : ∀ d, t.Prompt id d → value u.now ≤ max (value t.now) (value d)
  poll : ∀ x, value t.now ≤ value x → t.CountsBy id x → value u.now ≤ value x + 1 / 20

theorem waited_of_cancelled (hv : Seconds.Exact value) (hgoal : value t.now ≤ value goal) (h : t.CountsBy id t.now)
    (hnow : u.now = t.now) : Waited value id goal t true u where
  told := ⟨fun _ => h.mono hv.toLinear (hv.le.2 hgoal), fun _ => rfl⟩
  forward := hnow ▸ le_refl _
  inTime := hnow ▸ hgoal
  ends h := absurd h.symm Bool.false_ne_true
  counts _ := hnow ▸ h
  atOnce _ := hnow ▸ rfl
  prompt d _ := hnow ▸ le_max_left _ _
  poll x hx _ := by
    rw [hnow]
    linarith

theorem waited_of_finished (hv : Seconds.Exact value) (hgoal : value t.now = value goal) (h : ¬t.CountsBy id t.now) :
    Waited value id goal t false t where
  told := ⟨fun h => absurd h Bool.false_ne_true, fun hcounts =>
    absurd (hcounts.mono hv.toLinear (hv.le.2 hgoal.symm.le)) h⟩
  forward := le_refl _
  inTime := hgoal.le
  ends _ := hgoal
  counts h := absurd h Bool.false_ne_true
  atOnce _ := rfl
  prompt d _ := le_max_left _ _
  poll x hx _ := by linarith

/-- Where a token has no parent, whatever comes to cancel it is noticed at once. -/
theorem exists_prompt (hchain : t.chain id = [id]) (hcalled : ¬t.Called id) (h : t.CountsBy id x) :
    ∃ d, t.Prompt id d ∧ le d x = true := by
  rcases h with h | ⟨i, hi, d, hd, hle⟩ | ⟨⟨d, i⟩, he, hi, hle⟩
  · exact absurd h hcalled
  · exact ⟨d, .inl ⟨i, hi, hd⟩, hle⟩
  · rw [hchain] at hi
    obtain rfl := List.mem_singleton.1 hi
    exact ⟨d, .inr he, hle⟩

/-- What a wait comes to after a slice it comes to from its start. -/
theorem Sliced.waited (hv : Seconds.Exact value) (hid : (id : Nat) < t.tokens.length) (h : Sliced value id goal t v)
    (hcounts : ¬t.CountsBy id t.now) {b : Bool} (hw : Waited value id goal v b u) : Waited value id goal t b u := by
  have ho : Linear σ := hv.toLinear
  have hforward : value t.now ≤ value v.now := hv.le.1 h.forward
  have hlater : ∀ {x}, t.CountsBy id x → v.CountsBy id x := h.toLater.countsBy
  have hearlier : ∀ {x}, value v.now ≤ value x → v.CountsBy id x → t.CountsBy id x := fun hle =>
    h.toAccounted.countsBy ho (hv.le.2 hle)
  have hcalled : ¬t.Called id := fun h => hcounts (.inl h)
  refine ⟨?_, hforward.trans hw.forward, hw.inTime, hw.ends, fun hb => hearlier hw.forward (hw.counts hb),
    fun h => absurd h hcounts, fun d hd => ?_, fun x hx hcounts' => ?_⟩
  · exact hw.told.trans ⟨hearlier h.inTime, hlater⟩
  · have hprompt : value v.now ≤ value d := h.prompt d hd
    refine le_max_of_le_right ?_
    -- The token's own cancellation is still to come or has just come.
    have hnext : v.Prompt id d ∨ v.Called id := by
      rcases hd with ⟨i, hi, hd⟩ | hd
      · exact .inl (.inl ⟨i, (h.chain id).symm ▸ hi, (h.deadline? i).trans hd⟩)
      · rcases h.setOff _ hd hid with hstill | hflag
        · exact .inl (.inr hstill)
        · exact .inr ⟨id, (h.chain id).symm ▸ mem_chain_of_lt hid, hflag⟩
    rcases hnext with hd | hcalled
    · exact (hw.prompt d hd).trans (max_le hprompt (le_refl _))
    · exact (hw.atOnce (.inl hcalled)).trans_le hprompt
  · rcases le_or_gt (value v.now) (value x) with hvx | hxv
    · exact hw.poll x hvx (hlater hcounts')
    · have hnow : value u.now = value v.now := hw.atOnce (hlater (hcounts'.mono ho (hv.le.2 hxv.le)))
      rcases h.poll with hpoll | hroot
      · linarith
      · obtain ⟨d, hd, hdx⟩ := exists_prompt hroot hcalled hcounts'
        have := h.prompt d hd
        have := hv.le.1 hdx
        linarith

/-- Where a token counts as cancelled or the goal is reached, one round is enough. -/
theorem waitRounds_of_ended (hv : Seconds.Exact value) (hid : (id : Nat) < t.tokens.length) (hsettled : t.Settled id)
    (hgoal : value t.now ≤ value goal) (h : t.CountsBy id t.now ∨ value t.now = value goal) :
    ∃ b u, Waited value id goal t b u ∧ ∀ patience, 1 ≤ patience → waitRounds id goal patience t = some (b, u) := by
  have hturn := turn hv hid hsettled hgoal
  generalize hround : waitRound id goal t = r at hturn
  have hrounds : ∀ {b u}, r = .done b u → ∀ patience, 1 ≤ patience → waitRounds id goal patience t = some (b, u) := by
    rintro b u rfl (_ | patience) hpatience
    · exact absurd hpatience (by decide)
    · rw [waitRounds, hround]
  cases hturn with
  | cancelled hcounts hnow => exact ⟨true, _, waited_of_cancelled hv hgoal hcounts hnow, hrounds rfl⟩
  | finished hcounts hfinished => exact ⟨false, t, waited_of_finished hv hfinished hcounts, hrounds rfl⟩
  | slice hcounts hlt _ =>
    rcases h with h | h
    · exact absurd h hcounts
    · exact absurd h hlt.ne

/-- Each round but the last two takes a twentieth of a second. -/
theorem exists_waitRounds (hv : Seconds.Exact value) : ∀ (n : Nat) {t : Timeline σ}, (id : Nat) < t.tokens.length →
    t.Settled id → value t.now ≤ value goal → 20 * (value goal - value t.now) ≤ n →
    ∃ b u, Waited value id goal t b u ∧ ∀ patience, n + 2 ≤ patience → waitRounds id goal patience t = some (b, u) := by
  intro n
  induction n with
  | zero =>
    intro t hid hsettled hgoal hn
    have hnow : value t.now = value goal := hgoal.antisymm (by norm_num at hn; linarith)
    obtain ⟨b, u, hw, hrounds⟩ := waitRounds_of_ended hv hid hsettled hgoal (.inr hnow)
    exact ⟨b, u, hw, fun patience hpatience => hrounds patience (by omega)⟩
  | succ n ih =>
    intro t hid hsettled hgoal hn
    by_cases hended : t.CountsBy id t.now ∨ value t.now = value goal
    · obtain ⟨b, u, hw, hrounds⟩ := waitRounds_of_ended hv hid hsettled hgoal hended
      exact ⟨b, u, hw, fun patience hpatience => hrounds patience (by omega)⟩
    · have hturn := turn hv hid hsettled hgoal
      generalize hround : waitRound id goal t = r at hturn
      cases hturn with
      | cancelled hcounts _ => exact absurd (.inl hcounts) hended
      | finished _ hfinished => exact absurd (.inr hfinished) hended
      | @slice _ v hcounts _ hv' =>
        have hidv : (id : Nat) < v.tokens.length := hv'.length ▸ hid
        have hrest : ∃ b u, Waited value id goal v b u ∧
            ∀ patience, n + 2 ≤ patience → waitRounds id goal patience v = some (b, u) := by
          by_cases hendedv : v.CountsBy id v.now ∨ value v.now = value goal
          · obtain ⟨b, u, hw, hrounds⟩ := waitRounds_of_ended hv hidv hv'.settled hv'.inTime hendedv
            exact ⟨b, u, hw, fun patience hpatience => hrounds patience (by omega)⟩
          · have hnow : value v.now = value t.now + 1 / 20 := (or_assoc.2 hv'.ends).resolve_left hendedv
            refine ih hidv hv'.settled hv'.inTime ?_
            push_cast at hn
            linarith
        obtain ⟨b, u, hw, hrounds⟩ := hrest
        refine ⟨b, u, hv'.waited hv hid hcounts hw, fun patience hpatience => ?_⟩
        obtain ⟨k, rfl⟩ := Nat.exists_eq_add_of_le' (Nat.le_trans (Nat.le_add_left 1 _) hpatience)
        rw [waitRounds, hround]
        exact hrounds k (by omega)

/-! ### New children -/

section Child

variable (hf : t.Forest) (hs : ∀ e ∈ t.scheduled, (e.2 : Nat) < t.tokens.length) (hid : (id : Nat) < t.tokens.length)
include hf hid

theorem getElem?_child {i : TokenId} (hi : i ∈ (t.addToken none (some id)).2.chain t.tokens.length) :
    i = t.tokens.length ∧ (t.addToken none (some id)).2.tokens[i]? = some ⟨false, none, some id⟩ ∨
      i ∈ t.chain id ∧ (t.addToken none (some id)).2.tokens[i]? = t.tokens[i]? := by
  rw [chain_child hf hid] at hi
  rcases List.mem_cons.1 hi with rfl | hi
  · exact .inl ⟨rfl, by simp [addToken]⟩
  · exact .inr ⟨hi, List.getElem?_append_left (lt_of_mem_chain hi)⟩

theorem mem_chain_child {i : TokenId} (hi : i ∈ t.chain id) :
    i ∈ (t.addToken none (some id)).2.chain t.tokens.length ∧
      (t.addToken none (some id)).2.tokens[i]? = t.tokens[i]? :=
  ⟨chain_child hf hid ▸ .tail _ hi, List.getElem?_append_left (lt_of_mem_chain hi)⟩

theorem called_child : (t.addToken none (some id)).2.Called t.tokens.length ↔ t.Called id := by
  constructor
  · rintro ⟨i, hi, token, htoken, hflag⟩
    rcases getElem?_child hf hid hi with ⟨-, hnew⟩ | ⟨hi, hold⟩
    · obtain rfl := Option.some.inj (hnew.symm.trans htoken)
      exact absurd hflag Bool.false_ne_true
    · exact ⟨i, hi, token, hold.symm.trans htoken, hflag⟩
  · rintro ⟨i, hi, token, htoken, hflag⟩
    obtain ⟨hi, hsame⟩ := mem_chain_child hf hid hi
    exact ⟨i, hi, token, hsame.trans htoken, hflag⟩

theorem expired_child : (t.addToken none (some id)).2.Expired t.tokens.length x ↔ t.Expired id x := by
  constructor
  · rintro ⟨i, hi, d, hd, hle⟩
    rw [Timeline.deadline?] at hd
    rcases getElem?_child hf hid hi with ⟨-, hnew⟩ | ⟨hi, hold⟩
    · simp [hnew] at hd
    · exact ⟨i, hi, d, by rwa [Timeline.deadline?, ← hold], hle⟩
  · rintro ⟨i, hi, d, hd, hle⟩
    obtain ⟨hi, hsame⟩ := mem_chain_child hf hid hi
    exact ⟨i, hi, d, by rwa [Timeline.deadline?, hsame], hle⟩

include hs

theorem due_child : (t.addToken none (some id)).2.Due t.tokens.length x ↔ t.Due id x := by
  constructor
  · rintro ⟨e, he, hi, hle⟩
    rcases getElem?_child hf hid hi with ⟨hnew, -⟩ | ⟨hi, -⟩
    · exact absurd (hs e he) (by rw [hnew]; exact Nat.lt_irrefl _)
    · exact ⟨e, he, hi, hle⟩
  · rintro ⟨e, he, hi, hle⟩
    exact ⟨e, he, (mem_chain_child hf hid hi).1, hle⟩

/-- A new child counts as cancelled exactly when its parent does. -/
theorem countsBy_child : (t.addToken none (some id)).2.CountsBy t.tokens.length x ↔ t.CountsBy id x :=
  or_congr (called_child hf hid) (or_congr (expired_child hf hid) (due_child hf hs hid))

theorem settled_child (h : t.Settled id) : (t.addToken none (some id)).2.Settled t.tokens.length :=
  h.imp (called_child hf hid).2 fun hdue => mt (due_child hf hs hid).1 hdue

end Child

/-! ### The whole wait -/

/-- What a wait up to an end comes to, by the first instant at which the token counts as cancelled. -/
structure Punctual (value : σ → ℚ) (t : Timeline σ) (id : TokenId) (finish : ℚ) (b : Bool) (u : Timeline σ) : Prop where
  told : b = true ↔ ∃ c, t.First id c ∧ value c ≤ finish
  ends : b = false → value u.now = finish
  atOnce : b = true → ∀ c, t.First id c → value c ≤ value t.now → value u.now = value t.now
  after : b = true → ∀ c, t.First id c → value c ≤ value u.now ∧ value u.now ≤ min finish (value c + 1 / 20)
  prompt : b = true → ∀ c, t.First id c → t.Prompt id c → value u.now = value c

theorem Waited.punctual (hv : Seconds.Exact value) (hgoal : value t.now ≤ value goal) {b : Bool}
    (h : Waited value id goal t b u) : Punctual value t id (value goal) b u where
  told := by
    rw [h.told]
    constructor
    · intro hcounts
      obtain ⟨c, hc, hle⟩ := hcounts.exists_first hv (hv.le.2 hgoal)
      exact ⟨c, hc, hv.le.1 hle⟩
    · rintro ⟨c, hc, hle⟩
      exact hc.counts.mono hv.toLinear (hv.le.2 hle)
  ends := h.ends
  atOnce _ c hc hle := h.atOnce (hc.counts.mono hv.toLinear (hv.le.2 hle))
  after hb c hc := ⟨hv.le.1 (hc.least _ (hv.le.2 h.forward) (h.counts hb)),
    le_min h.inTime (h.poll c (hv.le.1 hc.notPast) hc.counts)⟩
  prompt hb c hc hprompt := by
    refine le_antisymm ?_ (hv.le.1 (hc.least _ (hv.le.2 h.forward) (h.counts hb)))
    exact (h.prompt c hprompt).trans (max_le (hv.le.1 hc.notPast) (le_refl _))

/-- A wait of some seconds ends, with what it should come to. -/
theorem exists_wait (hv : Seconds.Exact value) (hid : (id : Nat) < t.tokens.length) (hsettled : t.Settled id) (seconds : σ) :
    ∃ b u, Punctual value t id (value t.now + max 0 (value seconds)) b u ∧
      ∀ patience : Nat, 20 * max 0 (value seconds) + 2 ≤ patience → t.wait patience id seconds = some (b, u) := by
  have hlength : value (larger Seconds.zero seconds) = max 0 (value seconds) := by rw [hv.larger, hv.zero]
  have hfinish : value (add t.now (larger Seconds.zero seconds)) = value t.now + max 0 (value seconds) := by
    rw [hv.add, hlength]
  have hgoal : value t.now ≤ value (add t.now (larger Seconds.zero seconds)) := by
    rw [hfinish]
    exact le_add_of_nonneg_right (le_max_left _ _)
  obtain ⟨b, u, hw, hrounds⟩ := exists_waitRounds hv ⌈20 * max 0 (value seconds)⌉₊ hid hsettled hgoal
    (by rw [hfinish, add_sub_cancel_left]; exact Nat.le_ceil _)
  refine ⟨b, u, hfinish ▸ hw.punctual hv hgoal, fun patience hpatience => hrounds patience ?_⟩
  have hlength : 0 ≤ 20 * max 0 (value seconds) := by positivity
  exact (Nat.ceil_add_ofNat hlength 2).symm.trans_le (Nat.ceil_le.2 hpatience)

/-- A wait on a token ends at its end, or when the token first counts as cancelled: at that very instant where a deadline or
the token's own cancellation makes it so, else within a twentieth of a second. It tells whether it was cancelled, and the
wait of a new child tells the same. -/
theorem wait_exact (hv : Seconds.Exact value) (hf : t.Forest) (hs : ∀ e ∈ t.scheduled, (e.2 : Nat) < t.tokens.length)
    (hid : (id : Nat) < t.tokens.length) (hsettled : t.Settled id) (seconds : σ) :
    ∃ b u v, Punctual value t id (value t.now + max 0 (value seconds)) b u ∧
      ∀ patience : Nat, 20 * max 0 (value seconds) + 2 ≤ patience →
        t.wait patience id seconds = some (b, u) ∧
        (t.addToken none (some id)).2.wait patience t.tokens.length seconds = some (b, v) := by
  obtain ⟨b, u, hu, hwait⟩ := exists_wait hv hid hsettled seconds
  have hchild : t.tokens.length < (t.addToken none (some id)).2.tokens.length := by simp [addToken]
  obtain ⟨b', v, hv', hwait'⟩ := exists_wait hv hchild (settled_child hf hs hid hsettled) seconds
  have hfirst : ∀ c, (t.addToken none (some id)).2.First t.tokens.length c ↔ t.First id c := by
    intro c
    constructor <;> rintro ⟨hpast, hcounts, hleast⟩
    · exact ⟨hpast, (countsBy_child hf hs hid).1 hcounts, fun x hx h => hleast x hx ((countsBy_child hf hs hid).2 h)⟩
    · exact ⟨hpast, (countsBy_child hf hs hid).2 hcounts, fun x hx h => hleast x hx ((countsBy_child hf hs hid).1 h)⟩
  have htold := hv'.told
  simp only [hfirst] at htold
  obtain rfl : b' = b := Bool.eq_iff_iff.2 (htold.trans hu.told.symm)
  exact ⟨b', u, v, hu, fun patience hpatience => ⟨hwait patience hpatience, hwait' patience hpatience⟩⟩

/-- A token and a parent that is cancelled a while before its child's deadline. -/
def overtaken : Timeline Int := ⟨0, [⟨false, none, none⟩, ⟨false, some 200000, some 0⟩], [(130000, 0)]⟩

theorem wait_exact_overtaken :
    (overtaken.Forest ∧ (∀ e ∈ overtaken.scheduled, (e.2 : Nat) < 2) ∧ overtaken.Settled 1) ∧
      ∃ b u v, Punctual ofMicroseconds overtaken 1 (ofMicroseconds 0 + max 0 (ofMicroseconds 1000000)) b u ∧
        ∀ patience : Nat, 20 * max 0 (ofMicroseconds 1000000) + 2 ≤ patience →
          overtaken.wait patience 1 1000000 = some (b, u) ∧
          (overtaken.addToken none (some 1)).2.wait patience 2 1000000 = some (b, v) := by
  have hf : overtaken.Forest := by
    rintro (_ | _ | i) parent token htoken hparent
    · obtain rfl : ⟨false, none, none⟩ = token := by simpa [overtaken] using htoken
      simp at hparent
    · obtain rfl : ⟨false, some 200000, some 0⟩ = token := by simpa [overtaken] using htoken
      obtain rfl : 0 = parent := by simpa using hparent
      decide
    · simp [overtaken] at htoken
  have hs : ∀ e ∈ overtaken.scheduled, (e.2 : Nat) < 2 := by decide
  have hsettled : overtaken.Settled 1 := .inr (by simp [Due, overtaken, Seconds.le])
  exact ⟨⟨hf, hs, hsettled⟩, wait_exact exact_int hf hs (by decide) hsettled 1000000⟩

/-- The parent's cancellation is noticed at the end of the third slice. -/
example : (overtaken.wait 22 1 1000000).map (fun r => (r.1, r.2.now)) = some (true, 150000) := by decide

end Adjudication.Time.Timeline
