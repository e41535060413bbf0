import Adjudication.Proofs.Judge.Frame
import Adjudication.Proofs.Time.Instants
import Adjudication.Proofs.Time.Operations

/-!
How long requests may take. An attempt looks at the token, and then allows its request no more than the time that is left
until the nearest deadline in the token's chain. Where time is exact the two agree: a request is only sent before every
deadline, it has some time, and it is over by every deadline.
-/

namespace Adjudication

open Act (Respects)
open Time (TokenId Timeline)
open Time.Seconds (Exact larger sub)

variable {σ : Type} [Time.Seconds σ] {value : σ → ℚ} {longest timeout instant : σ} {id : TokenId}

/-! ### One request -/

namespace Time.Timeline

variable {t u : Timeline σ}

/-- Later on, the time left to a token is the time from then until its deadlines. -/
theorem Later.remaining (h : t.Later u) (id : TokenId) :
    u.remaining id = ({ t with now := u.now } : Timeline σ).remaining id := by
  rw [Timeline.remaining, Timeline.remaining, h.chain, (later_now t u.now).chain]
  exact leastRemaining_congr (t := u) (u := { t with now := u.now }) rfl (fun i => h.deadline? i) _

/-- A timeout is right for a request that is sent on a token at an instant: there is some time, and no more than the longest
time and than is left to the token, so that it is over by every deadline. -/
structure Timely (value : σ → ℚ) (longest : σ) (t : Timeline σ) (id : TokenId) (timeout instant : σ) : Prop where
  positive : 0 < value timeout
  notLonger : value timeout ≤ value longest
  inTime : ∀ i ∈ t.chain id, ∀ d, t.deadline? i = some d → value instant + value timeout ≤ value d
  smaller : value timeout = (({ t with now := instant } : Timeline σ).remaining id).elim (value longest) fun left =>
    min (value longest) (value left)
  unbounded : (∀ i ∈ t.chain id, t.deadline? i = none) → timeout = longest

/-- What is right for the tokens later on is right for them as they are now. -/
theorem Timely.of_later (h : t.Later u) (hu : u.Timely value longest id timeout instant) :
    t.Timely value longest id timeout instant where
  positive := hu.positive
  notLonger := hu.notLonger
  inTime i hi d hd := hu.inTime i ((h.chain id).symm ▸ hi) d ((h.deadline? i).trans hd)
  smaller := by
    have hnow : ({ t with now := instant } : Timeline σ).Later { u with now := instant } :=
      ⟨h.fixed, h.flagged, h.fewer, h.setOff⟩
    rw [hu.smaller, hnow.remaining id]
  unbounded hnone := hu.unbounded fun i hi => (h.deadline? i).trans (hnone i (h.chain id ▸ hi))

/-- Right after a look that does not find the token cancelled, the time that is left is right. -/
theorem timely_of_isCancelled (hv : Exact value) (hlongest : 0 < value longest) (h : (t.isCancelled id).1 = false) :
    t.Timely value longest id (Judge.timeoutWithin longest (t.remaining id)) t.now := by
  have hexpired : ¬t.Expired id t.now := (isCancelled_eq_false_iff.1 h).2
  have hahead : ∀ i ∈ t.chain id, ∀ d, t.deadline? i = some d → value t.now < value d := fun i hi d hd =>
    not_le.1 fun hle => hexpired ⟨i, hi, d, hd, hv.le.2 hle⟩
  have hleft : ∀ i ∈ t.chain id, ∀ d, t.deadline? i = some d →
      value (larger Seconds.zero (sub d t.now)) = value d - value t.now := by
    intro i hi d hd
    rw [hv.larger, hv.zero, hv.sub, max_eq_right (sub_nonneg.2 (hahead i hi d hd).le)]
  have hleast : t.Least (t.chain id) (t.remaining id) := least_leastRemaining hv.toLinear t (t.chain id)
  cases hremaining : t.remaining id with
  | none =>
    rw [hremaining] at hleast
    refine ⟨hlongest, le_refl _, fun i hi d hd => absurd hd (hleast i hi d), ?_, fun _ => rfl⟩
    rw [show ({ t with now := t.now } : Timeline σ).remaining id = none from hremaining]
    rfl
  | some left =>
    rw [hremaining] at hleast
    obtain ⟨⟨i, d, hi, hd, rfl⟩, hleast⟩ := hleast
    have htimeout : value (Judge.timeoutWithin longest (some (larger Seconds.zero (sub d t.now)))) =
        min (value longest) (value (larger Seconds.zero (sub d t.now))) := hv.lesser longest _
    have hpositive : 0 < value (larger Seconds.zero (sub d t.now)) := by
      rw [hleft i hi d hd]
      exact sub_pos.2 (hahead i hi d hd)
    refine ⟨?_, ?_, fun j hj e he => ?_, ?_, fun hnone => ?_⟩
    · rw [htimeout]
      exact lt_min hlongest hpositive
    · rw [htimeout]
      exact min_le_left _ _
    · have hle := hv.le.1 (hleast j e hj he)
      rw [hleft j hj e he] at hle
      have hmin := min_le_right (value longest) (value (larger Seconds.zero (sub d t.now)))
      rw [htimeout]
      linarith
    · rw [show ({ t with now := t.now } : Timeline σ).remaining id = _ from hremaining, htimeout]
      rfl
    · rw [hnone i hi] at hd
      cases hd

end Time.Timeline

/-! ### All requests -/

namespace Scene

/-- How a scene goes on if the timeouts of all requests are right for a token. -/
structure Timed (value : σ → ℚ) (longest : σ) (id : TokenId) (s t : Scene σ) : Prop where
  timeline : s.timeline.Later t.timeline
  requests : ∃ events, t.trace = s.trace ++ events ∧ ∀ request timeout instant,
    .requested request timeout instant ∈ events → s.timeline.Timely value longest id timeout instant

instance : IsPreorder (Scene σ) (Timed value longest id) where
  refl s := ⟨Std.Refl.refl _, [], (List.append_nil _).symm, fun _ _ _ h => absurd h List.not_mem_nil⟩
  trans s t u h h' := by
    obtain ⟨events, htrace, hevents⟩ := h.requests
    obtain ⟨later, htrace', hlater⟩ := h'.requests
    refine ⟨IsTrans.trans _ _ _ h.timeline h'.timeline, events ++ later, ?_, fun request timeout instant hmem => ?_⟩
    · rw [htrace', htrace, List.append_assoc]
    · rcases List.mem_append.1 hmem with hmem | hmem
      · exact hevents request timeout instant hmem
      · exact (hlater request timeout instant hmem).of_later h.timeline

variable {s : Scene σ}

theorem timed_timeline {timeline : Timeline σ} (h : s.timeline.Later timeline) :
    Timed value longest id s { s with timeline } :=
  ⟨h, [], (List.append_nil _).symm, fun _ _ _ h => absurd h List.not_mem_nil⟩

/-- An event that is no request. -/
theorem timed_record {e : Event σ} (he : ∀ request timeout instant, e ≠ .requested request timeout instant) :
    Timed value longest id s { s with trace := s.trace ++ [e] } :=
  ⟨Std.Refl.refl _, [e], rfl, fun _ _ _ h => absurd (List.mem_singleton.1 h).symm (he _ _ _)⟩

theorem timed_cancel (s : Scene σ) (i : TokenId) : Timed value longest id s (s.cancel i) :=
  ⟨Timeline.later_cancel s.timeline i, [.cancelled i s.timeline.now], rfl, fun _ _ _ h => by simp at h⟩

/-- A request whose timeout is right, whatever comes of it: the time that it takes, a cancellation by the caller, and an
answer. -/
theorem timed_sent (h : s.timeline.Timely value longest id timeout s.timeline.now) (request : Judge.Request) :
    Timed value longest id s (s.sent request timeout) := by
  have hasked : Timed value longest id s (s.asked request timeout) := by
    refine ⟨Timeline.later_advance _ _, [.requested request timeout s.timeline.now], rfl, fun _ _ _ hmem => ?_⟩
    obtain ⟨-, rfl, rfl⟩ := Event.requested.inj (List.mem_singleton.1 hmem)
    exact h
  have htaken : Timed value longest id s (s.taken request timeout) := by
    rw [taken, cancelCaller]
    split
    · split
      · exact IsTrans.trans _ _ _ hasked (timed_cancel _ _)
      · exact hasked
    · exact hasked
  rw [sent, answered]
  split
  · exact IsTrans.trans _ _ _ htaken (timed_record fun _ _ _ h => by cases h)
  · exact htaken

end Scene

open Scene (Timed)

namespace Run

theorem timed_heed (other : TokenId) : Respects (Timed value longest id) (heed (some other) : Run σ Unit) := by
  intro s
  rw [heed_run]
  exact Scene.timed_timeline (Timeline.later_isCancelled s.timeline other)

theorem timed_pause (other : TokenId) (delay : σ) : Respects (Timed value longest id) (pause (some other) delay) := by
  intro s
  have hpaused : Timed value longest id s { s with trace := s.trace ++ [.paused delay (some other) s.timeline.now] } :=
    Scene.timed_record fun _ _ _ h => by cases h
  rw [pause_run]
  cases hw : s.timeline.wait s.patience other delay with
  | none => exact hpaused
  | some r => exact IsTrans.trans _ _ _ hpaused (Scene.timed_timeline (Timeline.wait_watched hw).1.toLater)

end Run

namespace Judge

variable {c : Client σ}

/-- An attempt allows its request the time that is left after its look at the token. -/
theorem timed_ask (hv : Exact value) (hlongest : 0 < value c.config.requestTimeout) (request : Request) (a : Nat) :
    Respects (Timed value c.config.requestTimeout id) (ask c request (some id) a) :=
  respects_ask_of_sent (Run.timed_heed id) fun _ hclear =>
    Scene.timed_sent (Timeline.timely_of_isCancelled hv hlongest hclear) request

theorem parts_timed (hv : Exact value) (hlongest : 0 < value c.config.requestTimeout) :
    Parts (Timed value c.config.requestTimeout id) c (some id) where
  heed := Run.timed_heed id
  ask request a := timed_ask hv hlongest request a
  log _ _ _ := Scene.timed_record fun _ _ _ h => by cases h
  pause := Run.timed_pause id

/-- Every request that judging a finding on a token sends has a timeout that is right for the token at that instant. -/
theorem judge_timely (hv : Exact value) (hlongest : 0 < value c.config.requestTimeout) (f : Finding) (code : String)
    (id : TokenId) (s : Scene σ) :
    ∃ events, (judge c f code (some id) s).2.trace = s.trace ++ events ∧ ∀ request timeout instant,
      .requested request timeout instant ∈ events →
        s.timeline.Timely value c.config.requestTimeout id timeout instant :=
  ((parts_timed hv hlongest).judge f code s).requests

/-- A token that has three seconds left, its parent five, and a service that is busy for two seconds at first. -/
def hurried : Scene Int :=
  { Scene.ofService (.ofScripts 0 [] [⟨2000000, false, none, .refused "busy"⟩, Service.standard 0]) (.file []) with
    timeline := ⟨0, [⟨false, some 5000000, none⟩, ⟨false, some 3000000, some 0⟩], []⟩
    patience := 100 }

/-- The requests of a trace, each as the time that it is allowed and the instant at which it is sent. -/
def allowances {σ : Type} (events : List (Event σ)) : List (σ × σ) :=
  events.filterMap fun
    | .requested _ timeout instant => some (timeout, instant)
    | _ => none

/-- Two requests are sent. The first one may take all of the time that is left to the token, the second one what is left
after the pause. -/
theorem judge_timely_hurried :
    (Exact Time.ofMicroseconds ∧ 0 < Time.ofMicroseconds (Client.ofAttempts 2 100000).config.requestTimeout) ∧
      ∃ events, (judge (Client.ofAttempts 2 100000) (Finding.ofCheck "a") "" (some 1) hurried).2.trace =
          hurried.trace ++ events ∧ allowances events = [(3000000, 0), (900000, 2100000)] ∧
        ∀ request timeout instant, .requested request timeout instant ∈ events → hurried.timeline.Timely
          Time.ofMicroseconds (Client.ofAttempts 2 100000).config.requestTimeout 1 timeout instant := by
  have hlongest : 0 < Time.ofMicroseconds (Client.ofAttempts 2 (100000 : Int)).config.requestTimeout := by
    rw [show (Client.ofAttempts 2 (100000 : Int)).config.requestTimeout = 60000000 by decide, Time.ofMicroseconds]
    norm_num
  have hsent : allowances (judge (Client.ofAttempts 2 100000) (Finding.ofCheck "a") "" (some 1) hurried).2.trace =
      [(3000000, 0), (900000, 2100000)] := by decide +kernel
  obtain ⟨events, htrace, htimely⟩ := judge_timely Time.exact_int hlongest (.ofCheck "a") "" 1 hurried
  rw [htrace] at hsent
  exact ⟨⟨Time.exact_int, hlongest⟩, events, htrace, hsent, htimely⟩

end Judge
end Adjudication
