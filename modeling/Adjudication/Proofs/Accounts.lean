import Adjudication.Proofs.Analyzer.Heeds
import Adjudication.Proofs.Judge.Onward
import Adjudication.Proofs.Time.Accounted

/-!
How scenes go on while every cancellation is accounted for. A token is cancelled by somebody who may do so, which the trace
tells, or since its deadline or a cancellation of it that was to come has come. Running the analyzer and judging account for
all cancellations.
-/

namespace Adjudication

open Act (Respects)
open Time (TokenId Timeline)
open Time.Seconds (Linear le zero)

variable {σ : Type}

/-- A token is cancelled by somebody. -/
def Cancelled (events : List (Event σ)) (i : TokenId) : Prop := ∃ instant, Event.cancelled i instant ∈ events

theorem cancelled_append {events later : List (Event σ)} {i : TokenId} :
    Cancelled (events ++ later) i ↔ Cancelled events i ∨ Cancelled later i := by
  simp only [Cancelled, List.mem_append, exists_or]

theorem not_cancelled {events : List (Event σ)} (h : ∀ e ∈ events, ∀ ids, ¬e.Cancels ids) (i : TokenId) :
    ¬Cancelled events i := by
  rintro ⟨instant, he⟩
  exact h _ he [i] ⟨i, .head _, instant, rfl⟩

namespace Scene

variable [Time.Seconds σ]

/-- How a scene goes on while only those tokens are cancelled that may be, given the token that the caller holds, and every
other flag is set for a reason. Time goes forward where the premise holds. -/
structure Accounts (premise : Prop) (may : Option TokenId → TokenId → Prop) (s t : Scene σ) : Prop where
  caller : t.caller = s.caller
  timeline : s.timeline.Later t.timeline
  trace : ∃ events, t.trace = s.trace ++ events ∧ (∀ i, Cancelled events i → may s.caller i) ∧
    (Linear σ → premise → s.Forward → t.Forward ∧ s.timeline.Accounted (Cancelled events) t.timeline)

variable {premise : Prop} {may : Option TokenId → TokenId → Prop} {s t u : Scene σ}

/-- Where nobody cancels a token. -/
theorem accounts_of_not_cancels {events : List (Event σ)} (hcaller : t.caller = s.caller)
    (htimeline : s.timeline.Later t.timeline) (htrace : t.trace = s.trace ++ events)
    (hevents : ∀ e ∈ events, ∀ ids, ¬e.Cancels ids)
    (h : Linear σ → premise → s.Forward → t.Forward ∧
      s.timeline.Accounted (fun _ => False) t.timeline) :
    Accounts premise may s t :=
  ⟨hcaller, htimeline, events, htrace, fun i hi => absurd hi (not_cancelled hevents i), fun ho hp hs =>
    (h ho hp hs).imp_right fun h => h.mono fun _ h => h.elim⟩

instance : IsPreorder (Scene σ) (Accounts premise may) where
  refl s := accounts_of_not_cancels rfl (Std.Refl.refl _) (List.append_nil _).symm (fun _ he => absurd he List.not_mem_nil)
    fun ho _ hs => ⟨hs, Timeline.accounted_refl ho _⟩
  trans s t u h h' := by
    obtain ⟨events, htrace, hmay, htime⟩ := h.trace
    obtain ⟨later, htrace', hmay', htime'⟩ := h'.trace
    refine ⟨h'.caller.trans h.caller, IsTrans.trans _ _ _ h.timeline h'.timeline, events ++ later, ?_, ?_, ?_⟩
    · rw [htrace', htrace, List.append_assoc]
    · intro i hi
      rcases cancelled_append.1 hi with hi | hi
      · exact hmay i hi
      · rw [← h.caller]
        exact hmay' i hi
    · intro ho hp hs
      obtain ⟨ht, haccounted⟩ := htime ho hp hs
      obtain ⟨hu, haccounted'⟩ := htime' ho hp ht
      exact ⟨hu, (haccounted.trans ho haccounted').mono fun _ => cancelled_append.2⟩

/-- What may be done under a premise that holds of the scene may be done without one. -/
theorem Accounts.mono {may' : Option TokenId → TokenId → Prop} {premise' : Prop} (h : Accounts premise may s t)
    (hpremise : premise' → s.Forward → premise) (hmay : ∀ i, may s.caller i → may' s.caller i) :
    Accounts premise' may' s t := by
  obtain ⟨events, htrace, hcancelled, htime⟩ := h.trace
  exact ⟨h.caller, h.timeline, events, htrace, fun i hi => hmay i (hcancelled i hi), fun ho hp hs =>
    htime ho (hpremise hp hs) hs⟩

theorem accounts_timeline {timeline : Timeline σ} (h : s.timeline.Later timeline)
    (htime : Linear σ → premise → s.timeline.Accounted (fun _ => False) timeline) :
    Accounts premise may s { s with timeline } :=
  accounts_of_not_cancels rfl h (List.append_nil _).symm (fun _ he => absurd he List.not_mem_nil) fun ho hp hs =>
    ⟨⟨hs.course, hs.service⟩, htime ho hp⟩

theorem accounts_record {e : Event σ} (h : ∀ ids, ¬e.Cancels ids) : Accounts premise may s { s with trace := s.trace ++ [e] } :=
  accounts_of_not_cancels rfl (Std.Refl.refl _) rfl (fun _ he => List.mem_singleton.1 he ▸ h) fun ho _ hs =>
    ⟨⟨hs.course, hs.service⟩, Timeline.accounted_refl ho _⟩

theorem accounts_files (s : Scene σ) (files : Files.Tree) : Accounts premise may s { s with files } :=
  accounts_of_not_cancels rfl (Std.Refl.refl _) (List.append_nil _).symm (fun _ he => absurd he List.not_mem_nil)
    fun ho _ hs => ⟨⟨hs.course, hs.service⟩, Timeline.accounted_refl ho _⟩

theorem Silent.accounts (h : Silent s t) (hforward : Linear σ → s.Forward → t.Forward) : Accounts premise may s t := by
  obtain ⟨lines, htrace⟩ := h.trace
  refine accounts_of_not_cancels h.caller ?_ htrace ?_ ?_
  · rw [h.timeline]
    exact Std.Refl.refl _
  · intro e he
    obtain ⟨line, -, rfl⟩ := List.mem_map.1 he
    exact (Event.plain_logged _ _).2
  · intro ho _ hs
    rw [h.timeline]
    exact ⟨hforward ho hs, Timeline.accounted_refl ho _⟩

theorem accounts_cancel {i : TokenId} (h : may s.caller i) : Accounts premise may s (s.cancel i) where
  caller := rfl
  timeline := Timeline.later_cancel s.timeline i
  trace := by
    refine ⟨[.cancelled i s.timeline.now], rfl, ?_, ?_⟩
    · rintro j ⟨instant, he⟩
      obtain ⟨rfl, -⟩ := Event.cancelled.inj (List.mem_singleton.1 he)
      exact h
    · intro ho _ hs
      refine ⟨⟨hs.course, hs.service⟩, (Timeline.accounted_cancel ho s.timeline i).mono ?_⟩
      rintro j rfl
      exact ⟨s.timeline.now, .head _⟩

/-- A request, during which only the caller may cancel a token. -/
theorem accounts_sent (hmay : ∀ caller i, caller = some i → may caller i) (request : Judge.Request) (timeout : σ) :
    Accounts premise may s (s.sent request timeout) := by
  have hrequested : Accounts premise may s { s with trace := s.trace ++ [.requested request timeout s.timeline.now] } :=
    accounts_record fun _ => by rintro ⟨_, -, _, h⟩; cases h
  have hasked : Accounts premise may s (s.asked request timeout) := by
    refine IsTrans.trans _ _ _ hrequested ?_
    refine accounts_of_not_cancels rfl (Timeline.later_advance _ _) (List.append_nil _).symm
      (fun _ he => absurd he List.not_mem_nil) ?_
    intro ho _ hs
    exact ⟨⟨hs.course, hs.service⟩, Timeline.accounted_advance ho s.timeline (hs.service _ request)⟩
  have htaken : Accounts premise may s (s.taken request timeout) := by
    rw [taken, cancelCaller]
    split
    · split
      next i hi => exact IsTrans.trans _ _ _ hasked (accounts_cancel (hmay _ i hi))
      next => exact hasked
    · exact hasked
  rw [sent, answered]
  split
  · exact IsTrans.trans _ _ _ htaken (accounts_record fun _ => by rintro ⟨_, -, _, h⟩; cases h)
  · exact htaken

end Scene

open Scene (Accounts)

/-! ### The parts of a run -/

variable [Time.Seconds σ] {premise : Prop} {may : Option TokenId → TokenId → Prop}

namespace Run

theorem accounts_isCancelled (id : TokenId) : Respects (Accounts premise may) (isCancelled id : Run σ Bool) := fun s =>
  Scene.accounts_timeline (Timeline.later_isCancelled s.timeline id) fun ho _ => Timeline.accounted_isCancelled ho _ id

theorem accounts_heed (id : TokenId) : Respects (Accounts premise may) (heed (some id) : Run σ Unit) := by
  intro s
  rw [heed_run]
  exact accounts_isCancelled id s

theorem accounts_advance {seconds : σ} (h : Time.Seconds.Ordered σ → premise → le zero seconds = true) :
    Respects (Accounts premise may) (advance seconds) := fun s =>
  Scene.accounts_timeline (Timeline.later_advance s.timeline seconds) fun ho hp =>
    Timeline.accounted_advance ho s.timeline (h ho.toOrdered hp)

theorem accounts_pause (id : TokenId) (delay : σ) : Respects (Accounts premise may) (pause (some id) delay) := by
  intro s
  have hpaused : Accounts premise may s { s with trace := s.trace ++ [.paused delay (some id) s.timeline.now] } :=
    Scene.accounts_record fun _ => by rintro ⟨_, -, _, h⟩; cases h
  rw [pause_run]
  cases hw : s.timeline.wait s.patience id delay with
  | none => exact hpaused
  | some r =>
    have hwaited : s.timeline.Later r.2 := (Timeline.wait_watched hw).1.toLater
    exact IsTrans.trans _ _ _ hpaused (Scene.accounts_timeline hwaited fun ho _ => Timeline.accounted_wait ho hw)

end Run

/-! ### Judging -/

namespace Judge

variable {c : Client σ}

/-- An attempt looks at its token and sends its request. -/
theorem accounts_ask (hmay : ∀ caller i, caller = some i → may caller i) (c : Client σ) (request : Request) (id : TokenId)
    (a : Nat) : Respects (Accounts premise may) (ask c request (some id) a) :=
  respects_ask_of_sent (Run.accounts_heed id) fun _ _ => Scene.accounts_sent hmay request _

theorem parts_accounts (hmay : ∀ caller i, caller = some i → may caller i) (c : Client σ) (id : TokenId) :
    Parts (Accounts premise may) c (some id) where
  heed := Run.accounts_heed id
  ask request a := accounts_ask hmay c request id a
  log level message := fun _ => Scene.accounts_record (Event.plain_logged level message).2
  pause := Run.accounts_pause id

end Judge

/-! ### Running the analyzer -/

namespace Analyzer

theorem parts_accounts (premise : Prop) (may : Option TokenId → TokenId → Prop) (id : TokenId) :
    Parts (Accounts premise may : Scene σ → Scene σ → Prop) premise (some id) where
  kill e s := by
    rw [kill_run]
    have hlater : s.timeline.Later (s.course.drained s.timeline) := by
      rw [Course.drained]
      split
      · exact Timeline.later_advance _ _
      · exact Std.Refl.refl _
    refine Scene.accounts_of_not_cancels rfl hlater rfl (fun e he ids => ?_) fun ho _ hs => ⟨⟨hs.course, hs.service⟩, ?_⟩
    · rw [List.mem_singleton.1 he]
      rintro ⟨_, -, _, h⟩
      cases h
    · show Timeline.Accounted _ s.timeline (s.course.drained s.timeline)
      rw [Course.drained]
      split
      next seconds hlingers => exact Timeline.accounted_advance ho s.timeline (hs.course.lingers seconds hlingers)
      next => exact Timeline.accounted_refl ho _
  calledOff := Run.accounts_isCancelled id
  advance _ h := Run.accounts_advance h

/-- While the analyzer runs, nobody cancels a token. -/
theorem accounts_run (command : List String) (timeout : σ) (source output : Files.Path) (id : TokenId) :
    Respects (Accounts True fun _ _ => False) (run command timeout source output (some id)) := by
  intro s
  refine rel_run (respects_start ?_ ?_ command source output s) ?_ ?_
  · intro argv directory instant s
    exact Scene.accounts_record fun _ => by rintro ⟨_, -, _, h⟩; cases h
  · intro level message s
    exact Scene.accounts_record (Event.plain_logged level message).2
  · intro u
    have hparts : Parts (Accounts (le zero u.course.takes = true) fun _ _ => False : Scene σ → Scene σ → Prop)
        (le zero u.course.takes = true) (some id) := parts_accounts _ _ id
    have hawait := hparts.await timeout (Time.Seconds.add u.timeline.now timeout) u.patience (fun _ h => h) u
    exact hawait.mono (fun _ hu => hu.course.takes) fun _ h => h
  · intro u files _
    exact Scene.accounts_files u files

end Analyzer
end Adjudication
