import Adjudication.Proofs.Frame
import Adjudication.Proofs.Scene
import Adjudication.Proofs.Time.Later

/-!
How scenes go on with an eye on a token. Nothing is started outside, neither a process nor a request, at an instant at which
the token is cancelled: not when it has been cancelled before, nor when a deadline has been reached or a cancellation to
come has fallen due, nor after a cancellation of the token or of an ancestor in the trace.
-/

namespace Adjudication

open Act (Respects)
open Time (TokenId Timeline)

variable {σ : Type}

/-- The instant at which something is started outside: a process or a request. -/
def Event.starts : Event σ → Option σ
  | .launched _ _ instant => some instant
  | .requested _ _ instant => some instant
  | _ => none

/-- One of the tokens is cancelled. -/
def Event.Cancels (ids : List TokenId) (e : Event σ) : Prop := ∃ i ∈ ids, ∃ instant, e = .cancelled i instant

/-- Nothing is started outside, and no token is cancelled. -/
def Event.Plain (e : Event σ) : Prop := e.starts = none ∧ ∀ ids, ¬e.Cancels ids

theorem Event.plain_logged (level : Level) (message : Text.Wide) : (Event.logged level message : Event σ).Plain :=
  ⟨rfl, fun _ => by rintro ⟨_, -, _, h⟩; cases h⟩

namespace Scene

/-- A scene that differs from another one in what has been logged, and in what has nothing to do with time. -/
structure Silent (s t : Scene σ) : Prop where
  timeline : t.timeline = s.timeline
  caller : t.caller = s.caller
  trace : ∃ lines : List (Level × Text.Wide), t.trace = s.trace ++ lines.map fun line => .logged line.1 line.2

instance : IsPreorder (Scene σ) Silent where
  refl s := ⟨rfl, rfl, [], (List.append_nil _).symm⟩
  trans s t u h h' := by
    obtain ⟨lines, htrace⟩ := h.trace
    obtain ⟨more, htrace'⟩ := h'.trace
    exact ⟨h'.timeline.trans h.timeline, h'.caller.trans h.caller, lines ++ more, by simp [htrace', htrace]⟩

theorem silent_noting (s : Scene σ) (lines : List (Level × Text.Wide)) : Silent s (s.noting lines) := ⟨rfl, rfl, lines, rfl⟩

theorem silent_files (s : Scene σ) (files : Files.Tree) : Silent s { s with files } :=
  ⟨rfl, rfl, [], (List.append_nil _).symm⟩

variable [Time.Seconds σ]

/-- What has been done since an instant has been done with an eye on a token. -/
structure Heeding (id : TokenId) (t : Timeline σ) (events : List (Event σ)) : Prop where
  starts : ∀ e ∈ events, ∀ instant, e.starts = some instant → t.Uncancelled id instant
  ordered : events.Pairwise fun a b => a.Cancels (t.chain id) → b.starts = none

/-- How a scene goes on with an eye on a token. -/
structure Heeds (id : TokenId) (s t : Scene σ) : Prop where
  caller : t.caller = s.caller
  timeline : Timeline.Watched id s.timeline t.timeline
  trace : ∃ events, t.trace = s.trace ++ events ∧ Heeding id s.timeline events ∧
    ∀ e ∈ events, e.Cancels (s.timeline.chain id) → t.timeline.Called id

variable {id : TokenId} {s t u : Scene σ}

theorem heeding_nil (id : TokenId) (t : Timeline σ) : Heeding id t [] :=
  ⟨fun _ he => absurd he List.not_mem_nil, .nil⟩

/-- What is done later on, with an eye on the token as it is then, follows on what has been done before. -/
theorem Heeding.append {events later : List (Event σ)} {t u : Timeline σ} (h : Heeding id t events)
    (htu : Timeline.Watched id t u) (hcalled : ∀ e ∈ events, e.Cancels (t.chain id) → u.Called id)
    (h' : Heeding id u later) : Heeding id t (events ++ later) where
  starts e he instant hstart := by
    rcases List.mem_append.1 he with he | he
    · exact h.starts e he instant hstart
    · exact htu.uncancelled (h'.starts e he instant hstart)
  ordered := by
    refine List.pairwise_append.2 ⟨h.ordered, htu.chain id ▸ h'.ordered, ?_⟩
    intro a ha b hb hcancels
    cases hstart : b.starts with
    | none => rfl
    | some instant => exact absurd (hcalled a ha hcancels) (h'.starts b hb instant hstart).called

instance : IsPreorder (Scene σ) (Heeds id) where
  refl s := ⟨rfl, Std.Refl.refl _, [], (List.append_nil _).symm, heeding_nil id _, fun _ he => absurd he List.not_mem_nil⟩
  trans s t u h h' := by
    obtain ⟨events, htrace, hheeding, hcalled⟩ := h.trace
    obtain ⟨later, htrace', hheeding', hcalled'⟩ := h'.trace
    refine ⟨h'.caller.trans h.caller, IsTrans.trans _ _ _ h.timeline h'.timeline, events ++ later, ?_,
      hheeding.append h.timeline hcalled hheeding', ?_⟩
    · rw [htrace', htrace, List.append_assoc]
    · intro e he hcancels
      rcases List.mem_append.1 he with he | he
      · exact h'.timeline.called (hcalled e he hcancels)
      · exact hcalled' e he (h.timeline.chain id ▸ hcancels)

theorem heeds_timeline {timeline : Timeline σ} (h : Timeline.Watched id s.timeline timeline) :
    Heeds id s { s with timeline } :=
  ⟨rfl, h, [], (List.append_nil _).symm, heeding_nil id _, fun _ he => absurd he List.not_mem_nil⟩

/-- Where time stands still and all that is done is plain, nothing can go wrong. -/
theorem heeds_plain {events : List (Event σ)} (hcaller : t.caller = s.caller) (htimeline : t.timeline = s.timeline)
    (htrace : t.trace = s.trace ++ events) (hplain : ∀ e ∈ events, e.Plain) : Heeds id s t where
  caller := hcaller
  timeline := by
    rw [htimeline]
    exact Std.Refl.refl _
  trace := by
    refine ⟨events, htrace, ⟨?_, ?_⟩, fun e he hcancels => absurd hcancels ((hplain e he).2 _)⟩
    · intro e he instant hstart
      rw [(hplain e he).1] at hstart
      cases hstart
    · exact List.pairwise_of_forall_mem_list fun a ha _ _ hcancels => absurd hcancels ((hplain a ha).2 _)

theorem Silent.heeds (h : Silent s t) : Heeds id s t := by
  obtain ⟨lines, htrace⟩ := h.trace
  refine heeds_plain h.caller h.timeline htrace ?_
  intro e he
  obtain ⟨line, -, rfl⟩ := List.mem_map.1 he
  exact Event.plain_logged _ _

theorem heeds_record {e : Event σ} (h : e.Plain) : Heeds id s { s with trace := s.trace ++ [e] } :=
  heeds_plain rfl rfl rfl fun _ he => List.mem_singleton.1 he ▸ h

theorem heeds_cancel (s : Scene σ) (i : TokenId) : Heeds id s (s.cancel i) where
  caller := rfl
  timeline := Timeline.watched_cancel s.timeline i
  trace := by
    refine ⟨[.cancelled i s.timeline.now], rfl, ⟨?_, List.pairwise_singleton _ _⟩, ?_⟩
    · intro e he instant hstart
      rw [List.mem_singleton.1 he] at hstart
      cases hstart
    · intro e he hcancels
      rw [List.mem_singleton.1 he] at hcancels
      obtain ⟨j, hj, instant, heq⟩ := hcancels
      obtain ⟨rfl, -⟩ := Event.cancelled.inj heq
      exact Timeline.called_cancel hj

/-- Something is started right after a look that does not find the token cancelled. -/
theorem heeds_start {e : Event σ} (h : (s.timeline.isCancelled id).1 = false) (hstarts : e.starts = some s.timeline.now)
    (he : ∀ ids, ¬e.Cancels ids) : Heeds id s { s with trace := s.trace ++ [e] } where
  caller := rfl
  timeline := Std.Refl.refl _
  trace := by
    refine ⟨[e], rfl, ⟨?_, List.pairwise_singleton _ _⟩, ?_⟩
    · intro other hother instant hstart
      rw [List.mem_singleton.1 hother, hstarts] at hstart
      obtain rfl := Option.some.inj hstart
      exact Timeline.uncancelled_of_isCancelled h
    · intro other hother hcancels
      rw [List.mem_singleton.1 hother] at hcancels
      exact absurd hcancels (he _)

end Scene

/-! ### The parts of a run -/

namespace Run

open Scene (Heeds)

variable [Time.Seconds σ] {id : TokenId}

theorem heeds_record {e : Event σ} (h : e.Plain) : Respects (Heeds id) (record e) := fun _ => Scene.heeds_record h

theorem heeds_log (level : Level) (message : Text.Wide) : Respects (Heeds id) (log level message : Run σ Unit) :=
  heeds_record (Event.plain_logged level message)

theorem heeds_advance (seconds : σ) : Respects (Heeds id) (advance seconds) := fun s =>
  Scene.heeds_timeline (Timeline.watched_advance s.timeline seconds)

theorem heeds_isCancelled (other : TokenId) : Respects (Heeds id) (isCancelled other : Run σ Bool) := fun s =>
  Scene.heeds_timeline (Timeline.watched_isCancelled s.timeline other)

theorem heeds_heed (other : TokenId) : Respects (Heeds id) (heed (some other) : Run σ Unit) := by
  intro s
  rw [heed_run]
  exact heeds_isCancelled other s

/-- A pause on the token keeps an eye on it. -/
theorem heeds_pause (id : TokenId) (delay : σ) : Respects (Heeds id) (pause (some id) delay) := by
  intro s
  have hpaused : Heeds id s { s with trace := s.trace ++ [.paused delay (some id) s.timeline.now] } :=
    Scene.heeds_record ⟨rfl, fun _ => by rintro ⟨_, -, _, h⟩; cases h⟩
  rw [pause_run]
  cases hw : s.timeline.wait s.patience id delay with
  | none => exact hpaused
  | some r => exact IsTrans.trans _ _ _ hpaused (Scene.heeds_timeline (Timeline.wait_watched hw).1)

end Run
end Adjudication
