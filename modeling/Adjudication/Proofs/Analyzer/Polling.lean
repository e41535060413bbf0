import Adjudication.Proofs.Analyzer.Heeds
import Adjudication.Proofs.Time.Instants
import Mathlib.Algebra.Order.Group.MinMax

/-!
How a run of the analyzer ends, in exact time. The process is looked at when it starts and every tenth of a second from then
on, as long as it has neither ended nor used up its time. It is killed at the first look that finds the run called off, else
when its time is up, and otherwise it ends by itself; then its results decide what the run comes to, if what it has put out
is text.
-/

namespace Adjudication

namespace Time.Timeline

open Seconds (Linear add sub le lt lesser tick)

variable {σ : Type} [Seconds σ] {value : σ → ℚ} {t u : Timeline σ} {token : Option TokenId} {x y : σ}

/-! ### Looks at a process -/

/-- At an instant to come a run is called off: it has a token, and the token counts as cancelled. -/
def CalledOff (t : Timeline σ) (token : Option TokenId) (instant : σ) : Prop := ∃ id ∈ token, t.CountsBy id instant

theorem CalledOff.mono (ho : Linear σ) (h : t.CalledOff token x) (hle : le x y = true) : t.CalledOff token y := by
  obtain ⟨id, hid, hcounts⟩ := h
  exact ⟨id, hid, hcounts.mono ho hle⟩

theorem Accounted.calledOff_iff (ho : Linear σ) (h : Accounted (fun _ => False) t u) (hle : le u.now x = true) :
    u.CalledOff token x ↔ t.CalledOff token x := by
  constructor
  · rintro ⟨id, hid, hcounts⟩
    exact ⟨id, hid, h.countsBy ho hle hcounts⟩
  · rintro ⟨id, hid, hcounts⟩
    exact ⟨id, hid, h.toLater.countsBy hcounts⟩

/-- The instants at which a process is looked at from a start on. -/
def lookAt (start : σ) : Nat → σ
  | 0 => start
  | k + 1 => lookAt (add start tick) k

theorem value_lookAt (hv : Seconds.Exact value) : ∀ (k : Nat) (start : σ), value (lookAt start k) = value start + k / 10
  | 0, start => by simp [lookAt]
  | k + 1, start => by
    rw [lookAt, value_lookAt hv k, hv.add, hv.tick]
    push_cast
    linarith

/-- A process that runs up to a finish is looked at when it starts, and then before the finish only. -/
def Made (finish : ℚ) (k : Nat) : Prop := k = 0 ∨ (k : ℚ) / 10 < finish

/-- One of the looks up to a finish finds the run called off. -/
def Found (t : Timeline σ) (token : Option TokenId) (finish : ℚ) : Prop :=
  ∃ k, Made finish k ∧ t.CalledOff token (lookAt t.now k)

/-- A look that is the first to find the run called off comes no more than a tenth of a second later than that is so. -/
theorem lookAt_le (hv : Seconds.Exact value) {k : Nat} (hfirst : ∀ i < k, ¬t.CalledOff token (lookAt t.now i))
    (hx : value t.now ≤ value x) (hcalled : t.CalledOff token x) : value (lookAt t.now k) ≤ value x + 1 / 10 := by
  rw [value_lookAt hv]
  cases k with
  | zero =>
    rw [Nat.cast_zero]
    linarith
  | succ i =>
    have hlate : value (lookAt t.now i) < value x := not_le.1 fun hle =>
      hfirst i (Nat.lt_succ_self i) (hcalled.mono hv.toLinear (hv.le.2 hle))
    rw [value_lookAt hv] at hlate
    push_cast
    linarith

/-! ### From one look to the next -/

theorem Made.eq_zero {finish : ℚ} {k : Nat} (h : Made finish k) (hfinish : finish ≤ 1 / 10) : k = 0 := by
  by_contra hk
  have hk' : (1 : ℚ) ≤ k := by exact_mod_cast Nat.one_le_iff_ne_zero.2 hk
  have hbefore := h.resolve_left hk
  linarith

theorem made_succ {finish : ℚ} (h : 1 / 10 < finish) {k : Nat} : Made (finish - 1 / 10) k ↔ Made finish (k + 1) := by
  have hnext : ((k + 1 : Nat) : ℚ) / 10 = k / 10 + 1 / 10 := by
    push_cast
    linarith
  rw [Made, Made, hnext]
  constructor
  · rintro (rfl | hk)
    · exact .inr (by simpa using h)
    · exact .inr (by linarith)
  · rintro (hk | hk)
    · exact absurd hk (Nat.succ_ne_zero k)
    · exact .inr (by linarith)

/-- Where the finish comes before the second look, only the first is made. -/
theorem not_found_of_single (hclear : ¬t.CalledOff token t.now) {finish : ℚ} (hfinish : finish ≤ 1 / 10) :
    ¬t.Found token finish := by
  rintro ⟨k, hmade, hfound⟩
  obtain rfl := hmade.eq_zero hfinish
  exact hclear hfound

section Next

variable (hv : Seconds.Exact value) (h : Accounted (fun _ => False) t u) (hnow : u.now = add t.now tick)
include hv h hnow

/-- A look from the second one on is a look from there on. -/
theorem calledOff_next (k : Nat) : u.CalledOff token (lookAt u.now k) ↔ t.CalledOff token (lookAt t.now (k + 1)) := by
  have hle : le u.now (lookAt u.now k) = true := by
    rw [hv.le, value_lookAt hv]
    have : (0 : ℚ) ≤ k / 10 := div_nonneg (Nat.cast_nonneg k) (by norm_num)
    linarith
  rw [h.calledOff_iff hv.toLinear hle, hnow, lookAt]

theorem found_next (hclear : ¬t.CalledOff token t.now) {finish : ℚ} (hfinish : 1 / 10 < finish) :
    u.Found token (finish - 1 / 10) ↔ t.Found token finish := by
  constructor
  · rintro ⟨k, hmade, hfound⟩
    exact ⟨k + 1, (made_succ hfinish).1 hmade, (calledOff_next hv h hnow k).1 hfound⟩
  · rintro ⟨_ | k, hmade, hfound⟩
    · exact absurd hfound hclear
    · exact ⟨k, (made_succ hfinish).2 hmade, (calledOff_next hv h hnow k).2 hfound⟩

end Next

end Time.Timeline

namespace Analyzer

open Time (TokenId Timeline)
open Time.Seconds (add sub le lt lesser tick zero)
open Time.Timeline (Made lookAt)

variable {σ : Type} [Time.Seconds σ] {value : σ → ℚ} {token : Option TokenId} {s u : Scene σ}

/-! ### Waiting for the process -/

/-- How waiting for a process ends, of which so much is left, and so much time. -/
inductive Ending (value : σ → ℚ) (timeout : σ) (token : Option TokenId) (span left : ℚ) (s : Scene σ) :
    Except Failure Unit × Scene σ → Prop where
  /-- It ends by itself. -/
  | ended {v : Timeline σ} (hleft : left ≤ span) (hclear : ¬s.timeline.Found token left)
      (hnow : value v.now = value s.timeline.now + left) :
      Ending value timeout token span left s (.ok (), { s with timeline := v })
  /-- Its time is up. -/
  | late {v : Timeline σ} (hspan : span < left) (hclear : ¬s.timeline.Found token span)
      (hnow : value v.now = value s.timeline.now + span) :
      Ending value timeout token span left s
        (kill (.analyzer (.timedOut (Time.Seconds.brief timeout))) { s with timeline := v })
  /-- A look finds the run called off, and none before it has done so. -/
  | calledOff {v : Timeline σ} {k : Nat} (hmade : Made (min span left) k)
      (hfound : s.timeline.CalledOff token (lookAt s.timeline.now k))
      (hfirst : ∀ i < k, ¬s.timeline.CalledOff token (lookAt s.timeline.now i))
      (hnow : value v.now = value (lookAt s.timeline.now k)) :
      Ending value timeout token span left s (kill (.cancelled .analyzerRun) { s with timeline := v })

/-- Where a look finds nothing, the process is waited for from the next one on. -/
theorem Ending.of_next (hv : Time.Seconds.Exact value) {timeout : σ} {span left : ℚ} {v : Timeline σ}
    (h : Timeline.Accounted (fun _ => False) s.timeline v) (hnow : v.now = add s.timeline.now tick)
    (hclear : ¬s.timeline.CalledOff token s.timeline.now) (hspan : 1 / 10 < span) (hleft : 1 / 10 < left)
    {r : Except Failure Unit × Scene σ}
    (hr : Ending value timeout token (span - 1 / 10) (left - 1 / 10) { s with timeline := v } r) :
    Ending value timeout token span left s r := by
  have hvalue : value v.now = value s.timeline.now + 1 / 10 := by rw [hnow, hv.add, hv.tick]
  have hnone : ∀ {finish : ℚ}, 1 / 10 < finish → ¬v.Found token (finish - 1 / 10) → ¬s.timeline.Found token finish :=
    fun hfinish => mt (Timeline.found_next hv h hnow hclear hfinish).2
  cases hr with
  | ended hle hclear' hw => exact .ended (by linarith) (hnone hleft hclear') (by linarith)
  | late hlt hclear' hw => exact .late (by linarith) (hnone hspan hclear') (by linarith)
  | @calledOff w k hmade hcalled hfirst hw =>
    rw [min_sub_sub_right] at hmade
    refine .calledOff ((Timeline.made_succ (lt_min hspan hleft)).1 hmade) ((Timeline.calledOff_next hv h hnow k).1 hcalled)
      ?_ ?_
    · rintro (_ | i) hi
      · exact hclear
      · exact fun hcalled => hfirst i (Nat.lt_of_succ_lt_succ hi) ((Timeline.calledOff_next hv h hnow i).2 hcalled)
    · rw [hw, lookAt, hnow]

/-- A look at a token finds whether the run is called off. -/
theorem isCalledOff_run (hsettled : ∀ id ∈ token, s.timeline.Settled id) :
    s.timeline.CalledOff token s.timeline.now ∧
        (∃ v, v.now = s.timeline.now ∧ isCalledOff token s = (.ok true, { s with timeline := v })) ∨
      ¬s.timeline.CalledOff token s.timeline.now ∧ isCalledOff token s = (.ok false, s) := by
  cases token with
  | none => exact .inr ⟨by rintro ⟨_, ⟨⟩, _⟩, rfl⟩
  | some id =>
    have hiff := (hsettled id rfl).isCancelled_iff
    have hrun : isCalledOff (some id) s = _ := Run.isCancelled_run id s
    cases hc : (s.timeline.isCancelled id).1 with
    | true =>
      refine .inl ⟨⟨id, rfl, hiff.1 hc⟩, _, Timeline.now_isCancelled s.timeline id, ?_⟩
      rw [hrun, hc]
    | false =>
      refine .inr ⟨?_, by rw [hrun, Timeline.isCancelled_of_fst hc]⟩
      rintro ⟨_, ⟨rfl⟩, hcounts⟩
      exact absurd (hiff.2 hcounts) (by simp [hc])

theorem isUp_iff (hv : Time.Seconds.Exact value) {deadline now : σ} :
    le (sub deadline now) zero = true ↔ value deadline ≤ value now := by
  rw [hv.le, hv.sub, hv.zero]
  exact sub_nonpos

/-- A process whose time is up is killed at the next look. -/
theorem await_of_late (hv : Time.Seconds.Exact value) {timeout deadline : σ} {patience : Nat} (left : σ)
    (h : value deadline ≤ value s.timeline.now) : await timeout deadline token (patience + 1) left s =
      kill (.analyzer (.timedOut (Time.Seconds.brief timeout))) s := by
  rw [await, Act.bind_of_ok (Run.now_run s)]
  dsimp only
  rw [if_pos ((isUp_iff hv).2 h)]

/-- A look that finds nothing is followed by the next one, a tenth of a second later or when the time is up, unless the process
ends before. -/
theorem await_of_clear (hv : Time.Seconds.Exact value) {timeout deadline : σ} {patience : Nat} (left : σ)
    (hspan : value s.timeline.now < value deadline) (hrun : isCalledOff token s = (.ok false, s)) :
    await timeout deadline token (patience + 1) left s =
      if lt (lesser tick (sub deadline s.timeline.now)) left then
        await timeout deadline token patience (sub left (lesser tick (sub deadline s.timeline.now)))
          { s with timeline := s.timeline.advance (lesser tick (sub deadline s.timeline.now)) }
      else (.ok (), { s with timeline := s.timeline.advance left }) := by
  rw [await, Act.bind_of_ok (Run.now_run s)]
  dsimp only
  rw [if_neg (mt (isUp_iff hv).1 (not_le.2 hspan)), Act.bind_of_ok hrun, if_neg Bool.false_ne_true]
  split <;> rfl

/-- A look that finds the run called off ends it there. -/
theorem await_of_calledOff (hv : Time.Seconds.Exact value) {timeout deadline : σ} {patience : Nat} (left : σ)
    (hspan : value s.timeline.now < value deadline) (hrun : isCalledOff token s = (.ok true, u)) :
    await timeout deadline token (patience + 1) left s = kill (.cancelled .analyzerRun) u := by
  rw [await, Act.bind_of_ok (Run.now_run s)]
  dsimp only
  rw [if_neg (mt (isUp_iff hv).1 (not_le.2 hspan)), Act.bind_of_ok hrun, if_pos rfl]

/-- What one look at a process leads to: it is killed or ends by itself, or the next look is a tenth of a second later. -/
theorem ending_of_look (hv : Time.Seconds.Exact value) {timeout deadline left : σ} {patience : Nat}
    (hsettled : ∀ id ∈ token, s.timeline.Settled id) (hspan : value s.timeline.now < value deadline)
    (hpatience : 10 * (value deadline - value s.timeline.now) ≤ patience)
    (hnext : 1 / 10 < value left → 1 / 10 < value deadline - value s.timeline.now →
      Ending value timeout token (value deadline - value s.timeline.now - 1 / 10) (value left - 1 / 10)
        { s with timeline := s.timeline.advance tick }
        (await timeout deadline token patience (sub left tick) { s with timeline := s.timeline.advance tick })) :
    Ending value timeout token (value deadline - value s.timeline.now) (value left) s
      (await timeout deadline token (patience + 1) left s) := by
  rcases isCalledOff_run hsettled with ⟨hcalled, v, hv', hrun⟩ | ⟨hclear, hrun⟩
  · rw [await_of_calledOff hv left hspan hrun]
    exact .calledOff (.inl rfl) hcalled (fun i hi => absurd hi (Nat.not_lt_zero i)) (congrArg value hv')
  have hremaining : value (sub deadline s.timeline.now) = value deadline - value s.timeline.now := hv.sub _ _
  have hslice : value (lesser tick (sub deadline s.timeline.now)) =
      min (1 / 10) (value deadline - value s.timeline.now) := by rw [hv.lesser, hv.tick, hremaining]
  have hnow : ∀ seconds, value (s.timeline.advance seconds).now = value s.timeline.now + value seconds := by
    intro seconds
    rw [Timeline.now_advance, hv.add]
  rw [await_of_clear hv left hspan hrun]
  split
  next hlt =>
    have hlt : min (1 / 10) (value deadline - value s.timeline.now) < value left := hslice ▸ hv.lt.1 hlt
    rcases le_or_gt (value deadline - value s.timeline.now) (1 / 10) with hlast | hmore
    · -- The time is up before another tenth of a second is over.
      rw [min_eq_right hlast] at hslice hlt
      obtain ⟨k, rfl⟩ : ∃ k, patience = k + 1 := by
        refine Nat.exists_eq_succ_of_ne_zero fun h => ?_
        rw [h, Nat.cast_zero] at hpatience
        linarith
      have hup := hnow (lesser tick (sub deadline s.timeline.now))
      rw [hslice] at hup
      rw [await_of_late hv _ (by show _ ≤ value (Timeline.advance _ _).now; linarith)]
      exact .late hlt (Timeline.not_found_of_single hclear hlast) hup
    · have htick : lesser tick (sub deadline s.timeline.now) = tick := by
        rw [lesser, if_neg]
        rw [hv.lt, hremaining, hv.tick]
        linarith
      have hforward : le zero (tick : σ) = true := by
        rw [hv.le, hv.zero, hv.tick]
        norm_num
      rw [min_eq_left hmore.le] at hlt
      rw [htick]
      exact (hnext hlt hmore).of_next hv (Timeline.accounted_advance hv.toLinear s.timeline hforward)
        (Timeline.now_advance _ _) hclear hmore hlt
  next hge =>
    have hge : value left ≤ min (1 / 10) (value deadline - value s.timeline.now) :=
      hslice ▸ not_lt.1 fun h => hge (hv.lt.2 h)
    exact .ended (hge.trans (min_le_right _ _))
      (Timeline.not_found_of_single hclear (hge.trans (min_le_left _ _))) (hnow left)

/-- A process that is waited for ends by itself, or is killed since its time is up, or at the first look that finds the run
called off. -/
theorem await_ending (hv : Time.Seconds.Exact value) (timeout deadline : σ) : ∀ (patience : Nat) (left : σ)
    {s : Scene σ}, (∀ id ∈ token, s.timeline.Settled id) → value s.timeline.now < value deadline →
    10 * (value deadline - value s.timeline.now) + 1 ≤ patience →
    Ending value timeout token (value deadline - value s.timeline.now) (value left) s
      (await timeout deadline token patience left s) := by
  intro patience
  induction patience with
  | zero =>
    intro left s _ hspan hpatience
    rw [Nat.cast_zero] at hpatience
    linarith
  | succ patience ih =>
    intro left s hsettled hspan hpatience
    push_cast at hpatience
    refine ending_of_look hv hsettled hspan (by linarith) fun hleft hmore => ?_
    have hnow : value (s.timeline.advance tick).now = value s.timeline.now + 1 / 10 := by
      rw [Timeline.now_advance, hv.add, hv.tick]
    have hrest := ih (sub left tick) (s := { s with timeline := s.timeline.advance tick })
      (fun id _ => Timeline.settled_advance s.timeline tick id)
      (by show value (Timeline.advance _ _).now < _; linarith)
      (by show 10 * (_ - value (Timeline.advance _ _).now) + 1 ≤ _; linarith)
    have hspan' : value deadline - value (s.timeline.advance tick).now =
        value deadline - value s.timeline.now - 1 / 10 := by linarith
    have hleft' : value (sub left tick) = value left - 1 / 10 := by rw [hv.sub, hv.tick]
    rw [hleft'] at hrest
    exact hspan' ▸ hrest

/-! ### The whole run -/

/-- Whether there is something in a file at a path that fits can always be told. -/
theorem hasContent_of_fits {p : Files.Path} (hfits : p.Fits) (t : Files.Tree) : ∃ b, t.hasContent p = .ok b := by
  obtain ⟨b, hholds⟩ := Files.Tree.holds_of_fits hfits t
  cases b with
  | false => exact ⟨false, by rw [Files.Tree.hasContent, hholds]; rfl⟩
  | true =>
    have hreach : ∃ place, t.reach p = .ok place := by
      rw [Files.Tree.holds] at hholds
      split at hholds
      next place hreach => exact ⟨place, hreach⟩
      next => simp at hholds
      next => simp at hholds
    obtain ⟨place, hreach⟩ := hreach
    rw [Files.Tree.hasContent, hholds]
    simp only [bind, Except.bind, hreach]
    rw [if_neg (by simp)]
    split
    · exact ⟨_, rfl⟩
    · exact ⟨_, rfl⟩

/-- The scene in which a process has just been started, or has been tried to be. -/
def launching (s : Scene σ) (argv : List String) (source : Files.Path) : Scene σ :=
  { s with trace := (s.noting [(.info, "Running analyzer: " ++ " ".intercalate argv)]).trace ++
      [.launched argv source.parent.text s.timeline.now] }

omit [Time.Seconds σ] in
@[simp]
theorem launching_timeline (s : Scene σ) (argv : List String) (source : Files.Path) :
    (launching s argv source).timeline = s.timeline := rfl

omit [Time.Seconds σ] in
@[simp]
theorem launching_files (s : Scene σ) (argv : List String) (source : Files.Path) :
    (launching s argv source).files = s.files := rfl

/-- Whether there is something in the output once the process has ended by itself. -/
def leaves (s : Scene σ) (argv : List String) (source output : Files.Path) : Except Files.Fault Bool :=
  (s.course.finish argv source.parent s.files).hasContent output

/-- What a run comes to by how its process has ended. -/
def concluded (s : Scene σ) (argv : List String) (source output : Files.Path) :
    Except Failure Unit × Scene σ → Except Failure Document × Scene σ
  | (.error e, t) => (.error e, t)
  | (.ok (), t) =>
    (results s.course output (s.course.finish argv source.parent t.files),
      { t with files := s.course.finish argv source.parent t.files })

/-- How long the streams of a killed process are waited for. -/
def Course.lingering (value : σ → ℚ) (c : Course σ) : ℚ := c.lingers.elim 0 value

theorem Course.value_drained (hv : Time.Seconds.Exact value) (c : Course σ) (timeline : Timeline σ) :
    value (c.drained timeline).now = value timeline.now + c.lingering value := by
  rw [drained, lingering]
  cases c.lingers with
  | none => exact (add_zero _).symm
  | some seconds => exact (congrArg value (Timeline.now_advance timeline seconds)).trans (hv.add _ _)

section Ways

variable (value : σ → ℚ) (timeout : σ) (token : Option TokenId) (s : Scene σ)

/-- The process ends by itself in time, and no look before its end finds the run called off. -/
def Finishes : Prop := value s.course.takes ≤ value timeout ∧ ¬s.timeline.Found token (value s.course.takes)

/-- The time of the process is up before it ends, and no look before that finds the run called off. -/
def Overruns : Prop := value timeout < value s.course.takes ∧ ¬s.timeline.Found token (value timeout)

/-- A look finds the run called off while the process has neither ended nor used up its time. -/
def Interrupted : Prop := s.timeline.Found token (min (value timeout) (value s.course.takes))

/-- A process either ends by itself, or its time is up, or it is interrupted. -/
theorem not_finishes_iff : ¬Finishes value timeout token s ↔ Overruns value timeout token s ∨
    Interrupted value timeout token s := by
  rw [Finishes, Overruns, Interrupted]
  rcases le_or_gt (value s.course.takes) (value timeout) with hle | hlt
  · simp [hle, not_lt.2 hle]
  · simp [min_eq_left hlt.le, hlt, not_le.2 hlt, em']

theorem Overruns.not_interrupted (h : Overruns value timeout token s) : ¬Interrupted value timeout token s := by
  rw [Interrupted, min_eq_left h.1.le]
  exact h.2

end Ways

/-- What a run of the analyzer that has been launched comes to. -/
structure Outcome (value : σ → ℚ) (timeout : σ) (argv : List String) (source output : Files.Path)
    (token : Option TokenId) (s : Scene σ) (r : Except Failure Document × Scene σ) : Prop where
  document : ∀ document, r.1 = .ok document ↔ Finishes value timeout token s ∧ ∃ stdout stderr,
    s.course.streams = .ok (stdout, stderr) ∧ leaves s argv source output = .ok true ∧
      ⟨output, s.course.exitCode, stdout, stderr⟩ = document
  noOutput : ∀ name code tail, r.1 = .error (.analyzer (.noOutput name code tail)) ↔
    Finishes value timeout token s ∧ ∃ stdout stderr, s.course.streams = .ok (stdout, stderr) ∧
      leaves s argv source output = .ok false ∧ (output.name, s.course.exitCode, tailOf stderr) = (name, code, tail)
  timedOut : ∀ limit, r.1 = .error (.analyzer (.timedOut limit)) ↔
    Overruns value timeout token s ∧ s.course.cutOff = none ∧ Time.Seconds.brief timeout = limit
  cancelled : r.1 = .error (.cancelled .analyzerRun) ↔ Interrupted value timeout token s ∧ s.course.cutOff = none
  undecodable : ∀ fault, r.1 = .error (.undecodable fault) ↔
    Finishes value timeout token s ∧ s.course.streams = .error fault ∨
      ¬Finishes value timeout token s ∧ s.course.cutOff = some fault
  atEnd : Finishes value timeout token s → value r.2.timeline.now = value s.timeline.now + value s.course.takes
  atTimeout : Overruns value timeout token s →
    value r.2.timeline.now = value s.timeline.now + value timeout + s.course.lingering value
  atLook : Interrupted value timeout token s → ∀ c, value s.timeline.now ≤ value c → s.timeline.CalledOff token c →
    value r.2.timeline.now ≤ value c + 1 / 10 + s.course.lingering value
  spared : Finishes value timeout token s → r.2.trace = (launching s argv source).trace
  killed : ¬Finishes value timeout token s → r.2.trace = (launching s argv source).trace ++ [.killed]

section Start

variable {command argv : List String} {source output : Files.Path} (hformat : arguments command source output = .ok argv)
include hformat

omit [Time.Seconds σ] in
theorem start_run (s : Scene σ) : start command source output s = (match launchFailure? argv source.parent s.course with
    | some e => .error e
    | none => .ok argv, launching s argv source) := by
  rw [start, hformat, Run.ofExcept_ok, Act.bind_of_ok (Act.pure_run argv s), Act.bind_of_ok (Run.log_run _ _ s)]
  have hlaunch := launch_run argv source.parent (s.noting [(.info, "Running analyzer: " ++ " ".intercalate argv)])
  rw [show (s.noting _).course = s.course from rfl] at hlaunch
  cases hfailure : launchFailure? argv source.parent s.course with
  | none =>
    rw [hfailure] at hlaunch
    exact Act.bind_of_ok hlaunch
  | some e =>
    rw [hfailure] at hlaunch
    exact Act.bind_of_error hlaunch

/-- A run of a process that has been started waits for it; if it has ended by itself, its results decide. -/
theorem run_of_launched (h : launchFailure? argv source.parent s.course = none) (timeout : σ) :
    run command timeout source output token s = concluded s argv source output
      (await timeout (add s.timeline.now timeout) token s.patience s.course.takes (launching s argv source)) := by
  have hstart := start_run hformat s
  rw [h] at hstart
  rw [run, Act.bind_of_ok hstart, Act.bind_of_ok (Act.get_run _)]
  rcases hawait : await timeout (add s.timeline.now timeout) token s.patience s.course.takes (launching s argv source) with
    ⟨e | ⟨⟩, t⟩
  · exact Act.bind_of_error hawait
  · refine (Act.bind_of_ok hawait).trans ?_
    have hchange : Run.change (fun files => .ok (s.course.finish argv source.parent files)) t =
      (.ok (), { t with files := s.course.finish argv source.parent t.files }) := rfl
    exact (Act.bind_of_ok hchange).trans ((Act.bind_of_ok (Act.get_run _)).trans (Run.ofExcept_run _ _))

/-- A run of a process that cannot be started fails at once, and nothing is killed. -/
theorem run_of_refused {e : Failure} (h : launchFailure? argv source.parent s.course = some e) (timeout : σ) :
    run command timeout source output token s = (.error e, launching s argv source) := by
  have hstart := start_run hformat s
  rw [h] at hstart
  exact Act.bind_of_error hstart

end Start

/-- A process that has ended by itself comes to what its results come to. -/
theorem outcome_of_finishes {timeout : σ} {argv : List String} {source output : Files.Path} {v : Timeline σ}
    (hfinishes : Finishes value timeout token s) (hnow : value v.now = value s.timeline.now + value s.course.takes) :
    Outcome value timeout argv source output token s
      (concluded s argv source output (.ok (), { launching s argv source with timeline := v })) := by
  have hoverruns : ¬Overruns value timeout token s := fun h => not_lt.2 hfinishes.1 h.1
  have hinterrupted : ¬Interrupted value timeout token s := fun h =>
    (not_finishes_iff value timeout token s).2 (.inr h) hfinishes
  have hfirst : (concluded s argv source output (.ok (), { launching s argv source with timeline := v })).1 =
      results s.course output (s.course.finish argv source.parent s.files) := rfl
  constructor
  case document =>
    intro document
    rw [hfirst, results_eq_ok]
    exact ⟨fun h => ⟨hfinishes, h⟩, And.right⟩
  case noOutput =>
    intro name code tail
    rw [hfirst, results_eq_analyzer]
    simp only [AnalyzerError.noOutput.injEq, Prod.mk.injEq]
    exact ⟨fun h => ⟨hfinishes, h⟩, And.right⟩
  case timedOut =>
    intro limit
    rw [hfirst, results_eq_analyzer]
    exact ⟨fun ⟨_, _, _, _, h⟩ => (by cases h), fun h => absurd h.1 hoverruns⟩
  case cancelled =>
    exact ⟨fun h => absurd h (results_ne_cancelled _), fun h => absurd h.1 hinterrupted⟩
  case undecodable =>
    intro fault
    rw [hfirst, results_eq_undecodable]
    exact ⟨fun h => .inl ⟨hfinishes, h⟩, fun h => h.elim And.right fun h => absurd hfinishes h.1⟩
  case atEnd => exact fun _ => hnow
  case atTimeout => exact fun h => absurd h hoverruns
  case atLook => exact fun h => absurd h hinterrupted
  case spared => exact fun _ => rfl
  case killed => exact fun h => absurd hfinishes h

/-- A process that is killed comes to what it is killed for, unless what it has put out is no text. -/
theorem outcome_of_killed (hv : Time.Seconds.Exact value) {timeout : σ} {argv : List String} {source output : Files.Path}
    {v : Timeline σ} {e : Failure}
    (h : e = .analyzer (.timedOut (Time.Seconds.brief timeout)) ∧ Overruns value timeout token s ∧
        value v.now = value s.timeline.now + value timeout ∨
      e = .cancelled .analyzerRun ∧ Interrupted value timeout token s ∧
        ∀ c, value s.timeline.now ≤ value c → s.timeline.CalledOff token c → value v.now ≤ value c + 1 / 10) :
    Outcome value timeout argv source output token s
      (concluded s argv source output (kill e { launching s argv source with timeline := v })) := by
  have hfinishes : ¬Finishes value timeout token s :=
    (not_finishes_iff value timeout token s).2 (h.imp (·.2.1) (·.2.1))
  have hnow : value (s.course.drained v).now = value v.now + s.course.lingering value := s.course.value_drained hv v
  have hkill : kill e { launching s argv source with timeline := v } =
    (.error (s.course.afterKill e), killed { launching s argv source with timeline := v }) := kill_run e _
  rw [hkill]
  have hfirst : (concluded s argv source output
      (.error (s.course.afterKill e), killed { launching s argv source with timeline := v })).1 =
      .error (s.course.afterKill e) := rfl
  have hafter : ∀ {cause : Failure}, (∀ fault, cause ≠ .undecodable fault) →
      (s.course.afterKill e = cause ↔ s.course.cutOff = none ∧ e = cause) := fun hcause => by
    rw [Course.afterKill]
    cases s.course.cutOff with
    | none => simp
    | some fault => simp [(hcause fault).symm]
  constructor
  case document =>
    intro document
    rw [hfirst]
    exact ⟨fun h => (by cases h), fun h => absurd h.1 hfinishes⟩
  case noOutput =>
    intro name code tail
    rw [hfirst, Except.error.injEq, hafter (by simp)]
    refine ⟨fun hended => ?_, fun h => absurd h.1 hfinishes⟩
    obtain ⟨rfl, -, -⟩ | ⟨rfl, -, -⟩ := h <;> cases hended.2
  case timedOut =>
    intro limit
    rw [hfirst, Except.error.injEq, hafter (by simp)]
    obtain ⟨rfl, hoverruns, -⟩ | ⟨rfl, hinterrupted, -⟩ := h
    · simp [hoverruns]
    · exact ⟨fun h => (by cases h.2), fun h => absurd hinterrupted h.1.not_interrupted⟩
  case cancelled =>
    rw [hfirst, Except.error.injEq, hafter (by simp)]
    obtain ⟨rfl, hoverruns, -⟩ | ⟨rfl, hinterrupted, -⟩ := h
    · exact ⟨fun h => (by cases h.2), fun h => absurd h.1 hoverruns.not_interrupted⟩
    · simp [hinterrupted]
  case undecodable =>
    intro fault
    rw [hfirst, Except.error.injEq, Course.afterKill]
    refine .trans ?_ (or_iff_right fun h => hfinishes h.1).symm
    cases s.course.cutOff with
    | some other => simp [hfinishes]
    | none => obtain ⟨rfl, -, -⟩ | ⟨rfl, -, -⟩ := h <;> simp
  case atEnd => exact fun h => absurd h hfinishes
  case atTimeout =>
    intro hoverruns
    obtain ⟨-, -, hv⟩ | ⟨-, hinterrupted, -⟩ := h
    · exact hnow.trans (congrArg (· + _) hv)
    · exact absurd hinterrupted hoverruns.not_interrupted
  case atLook =>
    intro hinterrupted c hc hcalled
    obtain ⟨-, hoverruns, -⟩ | ⟨-, -, hle⟩ := h
    · exact absurd hinterrupted hoverruns.not_interrupted
    · exact hnow.trans_le (add_le_add_left (hle c hc hcalled) _)
  case spared => exact fun h => absurd h hfinishes
  case killed => exact fun _ => rfl

/-- However the process has ended, the run comes to what it should come to. -/
theorem Ending.outcome (hv : Time.Seconds.Exact value) {timeout : σ} {argv : List String} {source output : Files.Path}
    {a : Except Failure Unit × Scene σ}
    (h : Ending value timeout token (value timeout) (value s.course.takes) (launching s argv source) a) :
    Outcome value timeout argv source output token s (concluded s argv source output a) := by
  cases h with
  | ended hle hclear hnow => exact outcome_of_finishes ⟨hle, hclear⟩ hnow
  | late hlt hclear hnow => exact outcome_of_killed hv (.inl ⟨rfl, ⟨hlt, hclear⟩, hnow⟩)
  | @calledOff v k hmade hcalled hfirst hnow =>
    refine outcome_of_killed hv (.inr ⟨rfl, ⟨k, hmade, hcalled⟩, fun c hc hcalled => ?_⟩)
    exact hnow.trans_le (Timeline.lookAt_le hv hfirst hc hcalled)

/-- A scene in which the token is cancelled a quarter of a second after the start of a process that takes longer. -/
def interrupted : Scene Int :=
  let s := Scene.ofService (.ofScripts 0 [] []) .nothing
  { s with
    timeline := s.timeline.schedule 250000 0
    course := { s.course with takes := 400000 }
    patience := 11 }

def interruptedSource : Files.Path := ⟨.root, ["a.sol"]⟩

def interruptedOutput : Files.Path := ⟨.root, ["results.json"]⟩

/-- The process is killed at the look that comes next. -/
example : (run AnalyzerConfig.defaultCommand 1000000 interruptedSource interruptedOutput (some 0)
    interrupted).2.timeline.now = 300000 := by decide +kernel

end Analyzer
end Adjudication
