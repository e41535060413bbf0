import Adjudication.Proofs.Analyzer.Heeds
import Adjudication.Proofs.Staging.Failures
import Adjudication.Proofs.Verification.Slot

/-!
Cancellation is respected from the beginning of a verification to its end. Whenever the analyzer's process is started or a
request is sent, the token of the caller is not cancelled at that instant, by whatever a token can be cancelled; a pause
between two attempts is followed by another attempt only if the token is not cancelled then; and a verification ends with
a cancellation only if its token is cancelled.
-/

namespace Adjudication

open Act (Leaves)
open Scene (Heeds Told Silent)
open Time (TokenId Timeline)

variable {σ : Type} [Time.Seconds σ] {id : TokenId} {s t u : Scene σ}

/-! ### Requests, and cancellations that fall due -/

namespace Scene

/-- How a scene goes on with an eye on a token if no request is sent after a cancellation of it has fallen due, be it
overdue from the beginning. -/
structure Serves (id : TokenId) (s t : Scene σ) : Prop extends Heeds id s t where
  requests : ∀ events, t.trace = s.trace ++ events → ∀ e ∈ events, e.isRequest = true → ∀ instant,
    e.starts = some instant → ¬s.timeline.Due id instant

/-- Nothing is requested. -/
theorem Heeds.serves_of_quiet (h : Heeds id s t)
    (hquiet : ∃ events, t.trace = s.trace ++ events ∧ ∀ e ∈ events, e.isRequest = false) : Serves id s t := by
  refine ⟨h, ?_⟩
  intro events htrace e he hrequest
  obtain ⟨later, htrace', hlater⟩ := hquiet
  obtain rfl := List.append_cancel_left (htrace.symm.trans htrace')
  rw [hlater e he] at hrequest
  cases hrequest

/-- From a scene on in which no cancellation is overdue. -/
theorem Heeds.serves_of_settled (h : Heeds id s t) (hs : s.timeline.Settled id) : Serves id s t := by
  refine ⟨h, ?_⟩
  intro events htrace e he _ instant hstart hdue
  obtain ⟨later, htrace', hheeding, -⟩ := h.trace
  obtain rfl := List.append_cancel_left (htrace.symm.trans htrace')
  have hclear := hheeding.starts e he instant hstart
  obtain ⟨entry, hentry, hid, hle⟩ := hdue
  exact hs.resolve_left hclear.called ⟨entry, hentry, hid, hclear.quiet entry hentry hid hle⟩

instance : IsPreorder (Scene σ) (Serves id) where
  refl s := Heeds.serves_of_quiet (Std.Refl.refl s) ⟨[], (List.append_nil _).symm, fun _ he => absurd he List.not_mem_nil⟩
  trans s t u h h' := by
    refine ⟨IsTrans.trans _ _ _ h.toHeeds h'.toHeeds, ?_⟩
    intro events htrace e he hrequest instant hstart
    obtain ⟨first, hfirst, -⟩ := h.trace
    obtain ⟨later, hlater, hheeding, -⟩ := h'.trace
    obtain rfl : events = first ++ later :=
      List.append_cancel_left (htrace.symm.trans (by rw [hlater, hfirst, List.append_assoc]))
    rcases List.mem_append.1 he with he | he
    · exact h.requests first hfirst e he hrequest instant hstart
    · exact fun hdue => h'.requests later hlater e he hrequest instant hstart
        (h.timeline.due (hheeding.starts e he instant hstart).called hdue)

theorem Silent.serves (h : Silent s t) : Serves id s t := by
  obtain ⟨lines, htrace⟩ := h.trace
  refine Heeds.serves_of_quiet h.heeds ⟨_, htrace, ?_⟩
  intro e he
  obtain ⟨line, -, rfl⟩ := List.mem_map.1 he
  rfl

omit [Time.Seconds σ] in
theorem silent_cleaned (s : Scene σ) (files : Files.Tree) (es : List StagingError) : Silent s (Staging.cleaned s files es) :=
  IsTrans.trans _ _ _ (silent_files s files) (silent_noting _ _)

end Scene

open Scene (Serves)

namespace Verifier

variable {v : Verifier σ} {source : Source} {token : TokenId} {runId : Option String} {slot : Slot}

/-! ### In the slot -/

theorem serves_analyzed {r : Except Failure Analyzer.Document} (hclear : (s.timeline.isCancelled token).1 = false)
    (h : Analyzer.run v.command v.timeout slot.source slot.output (some token) s = (r, t)) : Serves token s t := by
  have hheeds := Analyzer.heeds_run v.command v.timeout slot.source slot.output hclear
  have honward := Analyzer.respects_run v.command v.timeout slot.source slot.output (some token) s
  rw [h] at hheeds honward
  exact hheeds.serves_of_quiet honward.trace

/-- The part in the slot, if one finding is judged after the other. -/
theorem serves_inSlot (hworkers : v.workers = 1) (source : Source) (token : TokenId) (slot : Slot) (s : Scene σ) :
    Serves token s (v.inSlot source token slot s).2 := by
  have hlook : Serves token s (Run.heed (some token) s).2 :=
    (Run.heeds_heed token s).serves_of_quiet ⟨[], by rw [Run.heed_run]; exact (List.append_nil _).symm,
      fun _ he => absurd he List.not_mem_nil⟩
  cases hclear : (s.timeline.isCancelled token).1 with
  | true =>
    have hheed : Run.heed (some token) s = (.error (.cancelled .verification), (Run.heed (some token) s).2) := by
      rw [Run.heed_run, hclear]
      rfl
    rw [inSlot, Act.bind_of_error hheed]
    exact hlook
  | false =>
    have hcases := inSlot_run v source token slot s
    generalize v.inSlot source token slot s = inside at hcases ⊢
    cases hcases with
    | cancelled hheed => rwa [hheed] at hlook
    | interrupted hrun => exact serves_analyzed hclear hrun
    | broken hrun _ => exact serves_analyzed hclear hrun
    | unanalyzed hrun =>
      exact IsTrans.trans _ _ _ (serves_analyzed hclear hrun) (Scene.silent_noting _ _).serves
    | unread hrun _ => exact IsTrans.trans _ _ _ (serves_analyzed hclear hrun) (Scene.silent_noting _ _).serves
    | @judged document fs t u outcomes _ hrun _ hjudged =>
      -- The clock has been moved when the process has ended, so whatever was overdue before has happened.
      have hsettled : t.timeline.Settled token := Analyzer.settled_run hrun
      have hjudging := (Judge.parts_heeds v.judge token).mapM source.text fs
        (t.noting [(.info, .text ("Parsed " ++ toString fs.length ++ " finding(s)"))])
      rw [Judge.judgeAll, if_pos (.inl hworkers)] at hjudged
      rw [hjudged] at hjudging
      exact IsTrans.trans _ _ _ (serves_analyzed hclear hrun)
        (IsTrans.trans _ _ _ (Scene.silent_noting _ _).serves (hjudging.serves_of_settled hsettled))

theorem told_inSlot (hworkers : v.workers = 1) (source : Source) (token : TokenId) (slot : Slot) :
    Leaves (Told token) (v.inSlot source token slot) := by
  intro s e t h
  have hcases := inSlot_run v source token slot s
  rw [h] at hcases
  generalize hr : (Except.error e, t) = inside at hcases
  cases hcases with
  | cancelled hheed =>
    obtain ⟨rfl, rfl⟩ := Act.error_eq_error.1 hr
    exact Run.told_heed token s e t hheed
  | interrupted hrun =>
    obtain ⟨rfl, rfl⟩ := Act.error_eq_error.1 hr
    exact Analyzer.told_run v.command v.timeout slot.source slot.output token s e t hrun
  | broken _ hfindings =>
    obtain ⟨rfl, rfl⟩ := Act.error_eq_error.1 hr
    have hreading := Analyzer.isOfReading_of_findingsOfFile hfindings
    intro hc
    cases e with
    | cancelled during => simp [Failure.isOfReading] at hreading
    | _ => cases hc
  | unanalyzed _ => exact absurd (congrArg Prod.fst hr) (by simp)
  | unread _ _ => exact absurd (congrArg Prod.fst hr) (by simp)
  | @judged document fs t₁ u outcomes _ _ _ hjudged =>
    obtain ⟨houtcomes, rfl⟩ := Prod.ext_iff.1 hr
    cases outcomes with
    | ok outcomes => cases houtcomes
    | error cause =>
      obtain rfl : e = cause := Except.error.inj houtcomes
      rw [Judge.judgeAll, if_pos (.inl hworkers)] at hjudged
      exact Judge.told_mapM v.judge source.text token fs _ e _ hjudged

/-! ### Around the slot -/

omit [Time.Seconds σ] in
theorem silent_stage (v : Verifier σ) (source : Source) (runId : Option String) (s : Scene σ) :
    Silent s (v.stage source runId s).2 := by
  obtain ⟨name, names, hname⟩ := Staging.runName_run runId s
  obtain ⟨files, es, hcleaned⟩ := Staging.acquire_cleaned v.root source name { s with names }
  rw [stage, Act.bind_of_ok hname, hcleaned]
  have hnames : Silent s { s with names } := ⟨rfl, rfl, [], (List.append_nil _).symm⟩
  exact IsTrans.trans _ _ _ hnames (Scene.silent_cleaned _ files es)

omit [Time.Seconds σ] in
theorem not_isCancelled_of_stage {e : Failure} (h : v.stage source runId s = (.error e, t)) : e.isCancelled = false := by
  obtain ⟨name, names, hname⟩ := Staging.runName_run runId s
  rw [stage, Act.bind_of_ok hname] at h
  exact Staging.throws_acquire (P := fun e => e.isCancelled = false) (fun _ => rfl) (fun _ => rfl) v.root source name
    { s with names } e (congrArg Prod.fst h)

/-- How a verification on a given token comes to its end: without a slot, or with what the part in the slot comes to. But
for that part, no time goes by, and no failure tells of a cancellation. -/
inductive Course (v : Verifier σ) (source : Source) (token : TokenId) (s : Scene σ) :
    Except Failure Report × Scene σ → Prop where
  | without {r : Except Failure Report} {t : Scene σ} (hsilent : Silent s t)
      (hr : ∀ e, r = .error e → e.isCancelled = false) : Course v source token s (r, t)
  | within {slot : Slot} {staged t : Scene σ} {r : Except Failure Report} (hbefore : Silent s staged)
      (hafter : Silent (v.inSlot source token slot staged).2 t)
      (hr : ∀ e, r = .error e → (v.inSlot source token slot staged).1 = .error e ∨ e.isCancelled = false) :
      Course v source token s (r, t)

theorem course (v : Verifier σ) (source : Source) (token : TokenId) (runId : Option String) (s : Scene σ) :
    Course v source token s (v.verify source (some token) runId s) := by
  have hinstant : ∀ {startedAt x clock e}, v.reported source startedAt x clock = .error e →
      x = .error e ∨ e.isCancelled = false := fun h => by
    rcases reported_eq_error h with h | ⟨fault, rfl⟩
    · exact .inl h
    · exact .inr rfl
  cases hstarted : s.moment with
  | error fault =>
    rw [verify_some_of_not_started hstarted]
    exact .without (Std.Refl.refl s) fun e he => Except.error.inj he ▸ rfl
  | ok startedAt =>
    have hopened : Silent s (opened source (some token) s).2 := Scene.silent_noting s _
    have hstaging := silent_stage v source runId (opened source (some token) s).2
    rcases hstage : v.stage source runId (opened source (some token) s).2 with ⟨e | slot, staged⟩
    · rw [hstage] at hstaging
      obtain ⟨lines, hscene, hresult⟩ := verify_of_stage_error hstarted hstage
      rw [← Prod.eta (v.verify source (some token) runId s), hscene]
      refine .without (IsTrans.trans _ _ _ (IsTrans.trans _ _ _ hopened hstaging) (Scene.silent_noting _ _))
        fun cause hcause => ?_
      rcases hresult with ⟨reason, rfl, hreported⟩ | hfailed
      · exact (hinstant (hreported.symm.trans hcause)).resolve_left (by simp)
      · obtain rfl := Except.error.inj (hfailed.symm.trans hcause)
        exact not_isCancelled_of_stage hstage
    · rw [hstage] at hstaging
      obtain ⟨x, es, files, lines, hverify, hfails⟩ := verify_of_slot hstarted hstage
      rw [hverify]
      refine Course.within (IsTrans.trans _ _ _ hopened hstaging)
        (IsTrans.trans _ _ _ (Scene.silent_cleaned _ files es) (Scene.silent_noting _ _)) fun e he => ?_
      -- Neither a release that fails nor a clock that shows no instant tells of a cancellation.
      refine (hinstant he).elim (fun hinside => ?_) .inr
      cases x with
      | error cause =>
        obtain ⟨rfl, -⟩ := hfails cause rfl
        obtain rfl := Except.error.inj hinside
        exact .inr rfl
      | ok =>
      refine .inl ?_
      cases hr : (v.inSlot source token slot staged).1 with
      | ok ending =>
        rw [show (v.inSlot source (opened source (some token) s).1 slot staged).1 = _ from hr] at hinside
        cases hinside
      | error cause =>
        rw [show (v.inSlot source (opened source (some token) s).1 slot staged).1 = _ from hr] at hinside
        exact congrArg Except.error (Except.error.inj hinside)

/-- A verification of which one finding is judged after the other, on the token of a caller. Every process that it starts
and every request that it sends it starts and sends at an instant at which nothing has cancelled the token: neither has the
token, or an ancestor of it, been cancelled before, be it by the caller during a request, nor has a deadline been reached,
nor has a cancellation that was to come fallen due. A pause between two attempts leads to another attempt only if the token
is not cancelled when the pause ends. If the verification fails since it was cancelled, the token is cancelled then. -/
theorem verify_heeds (hworkers : v.workers = 1) (source : Source) (token : TokenId) (runId : Option String)
    (s : Scene σ) :
    (∃ later, (v.verify source (some token) runId s).2.trace = s.trace ++ later ∧
      Scene.Heeding token s.timeline later ∧
      ∀ e ∈ later, e.isRequest = true → ∀ instant, e.starts = some instant → ¬s.timeline.Due token instant) ∧
    (∀ (f : Finding) (a : Nat) (d : σ) (t u : Scene σ) (p : Retry.Phase σ Judge.Received),
      (Judge.attempts v.judge f source.text (some token)).step (.pausing a d) t = (.ok p, u) →
        (u.timeline.isCancelled token).1 = false) ∧
    ∀ during, (v.verify source (some token) runId s).1 = .error (.cancelled during) →
      ((v.verify source (some token) runId s).2.timeline.isCancelled token).1 = true := by
  have hcourse := course v source token runId s
  generalize v.verify source (some token) runId s = result at hcourse
  have hserves : Serves token s result.2 := by
    cases hcourse with
    | without hsilent _ => exact hsilent.serves
    | within hbefore hafter _ =>
      exact IsTrans.trans _ _ _ hbefore.serves
        (IsTrans.trans _ _ _ (serves_inSlot hworkers source token _ _) hafter.serves)
  refine ⟨?_, ?_, ?_⟩
  · obtain ⟨later, htrace, hheeding, -⟩ := hserves.trace
    exact ⟨later, htrace, hheeding, hserves.requests later htrace⟩
  · intro f a d t u p h
    exact Judge.not_isCancelled_of_pausing h
  · intro during h
    refine Timeline.isCancelled_eq_true_iff.2 (.inl ?_)
    cases hcourse with
    | without _ hr => cases hr _ h
    | @within slot staged t r _ hafter hr =>
      have hinside := (hr _ h).resolve_right (by simp [Failure.isCancelled])
      rw [hafter.timeline]
      exact told_inSlot hworkers source token slot staged _ _ (Prod.ext hinside rfl) rfl

/-- A scene in which the caller cancels its token during the first request. -/
def cancellingScene : Scene Int :=
  { scannerScene with service := .ofScripts 0 [] [{ Judge.Service.standard 0 with cancels := true }], caller := some 0 }

/-- There, one request is sent for two findings, and the verification ends with the cancellation. -/
theorem verify_heeds_cancelling :
    scanner.workers = 1 ∧ ∃ later during,
      (scanner.verify ⟨[], "a.sol"⟩ (some 0) (some "1") cancellingScene).1 = .error (.cancelled during) ∧
      (scanner.verify ⟨[], "a.sol"⟩ (some 0) (some "1") cancellingScene).2.trace = cancellingScene.trace ++ later ∧
      Scene.Heeding 0 cancellingScene.timeline later ∧ later.countP Event.isRequest = 1 ∧
      ((scanner.verify ⟨[], "a.sol"⟩ (some 0) (some "1") cancellingScene).2.timeline.isCancelled 0).1 = true := by
  have hcancelled : (match (scanner.verify ⟨[], "a.sol"⟩ (some 0) (some "1") cancellingScene).1 with
      | .error e => e.isCancelled
      | .ok _ => false) = true := by decide +kernel
  have hrequests : (scanner.verify ⟨[], "a.sol"⟩ (some 0) (some "1") cancellingScene).2.trace.countP Event.isRequest = 1 := by
    decide +kernel
  obtain ⟨⟨later, htrace, hheeding, -⟩, -, htold⟩ := verify_heeds (v := scanner) rfl ⟨[], "a.sol"⟩ 0 (some "1") cancellingScene
  have hlater : cancellingScene.trace ++ later = later := List.nil_append later
  rw [htrace, hlater] at hrequests
  cases hresult : (scanner.verify ⟨[], "a.sol"⟩ (some 0) (some "1") cancellingScene).1 with
  | ok r => simp [hresult] at hcancelled
  | error e =>
    cases e with
    | cancelled during => exact ⟨rfl, later, during, rfl, htrace, hheeding, hrequests, htold during hresult⟩
    | _ => simp [hresult, Failure.isCancelled] at hcancelled

end Verifier
end Adjudication
