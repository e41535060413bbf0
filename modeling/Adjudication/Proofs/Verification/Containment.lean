import Adjudication.Proofs.Accounts
import Adjudication.Proofs.Verification.Cancellation
import Adjudication.Proofs.Verification.Report

/-!
Crashes are contained while findings are judged side by side. The pool has a token of its own, its scope. When judging a
finding fails and the pool stops, it is the scope that is cancelled: the caller's token is as cancelled as the caller, its
deadlines and the cancellations that were to come have made it. After the scope has been cancelled no request is sent, in
whatever order the tasks move on, and when judging is over nothing goes on.
-/

namespace Adjudication

open Scene (Accounts Heeds Silent)
open Time (TokenId Timeline)
open Time.Seconds (Linear)

variable {σ : Type} [Time.Seconds σ] {token scope : TokenId} {s t u w : Scene σ} {events : List (Event σ)}

/-- What has been done leaves the caller's token alone: of the token and its ancestors only one that the caller holds is
cancelled, and if the token counts as cancelled in the end, there is a reason for it, or somebody has cancelled it. -/
structure Contained (token : TokenId) (s t : Scene σ) (events : List (Event σ)) : Prop where
  trace : t.trace = s.trace ++ events
  spared : ∀ i ∈ s.timeline.chain token, Cancelled events i → s.caller = some i
  reason : Linear σ → s.Forward → (t.timeline.isCancelled token).1 = true →
    ∃ i ∈ s.timeline.chain token, s.timeline.Bound i t.timeline.now ∨ Cancelled events i

/-- No request is sent after a token has been cancelled. -/
def Silenced (scope : TokenId) (events : List (Event σ)) : Prop :=
  events.Pairwise fun a b => a.Cancels [scope] → b.isRequest = false

omit [Time.Seconds σ] in
theorem Event.isRequest_of_starts {e : Event σ} (h : e.starts = none) : e.isRequest = false := by
  cases e with
  | requested request timeout instant => cases h
  | _ => rfl

/-! ### Judging on a token of one's own -/

/-- First nobody cancels a token. Then there may be a new one below the caller's, and only the caller and those who have the
new one cancel any. -/
theorem contained_of_accounts (hforest : s.timeline.Forest) (htoken : (token : Nat) < s.timeline.tokens.length)
    (hbefore : Accounts True (fun _ _ => False) s u) (hw : w = u ∨ w = u.withChild token)
    (hafter : Accounts True (fun caller i => caller = some i ∨ i = u.timeline.tokens.length) w t) :
    ∃ first later, u.trace = s.trace ++ first ∧ (∀ i, ¬Cancelled first i) ∧ t.trace = u.trace ++ later ∧
      Contained token s t (first ++ later) := by
  obtain ⟨first, htrace, hfirst, htime⟩ := hbefore.trace
  obtain ⟨later, htrace', hlater, htime'⟩ := hafter.trace
  have hlength := hbefore.timeline.length
  have hwtrace : w.trace = u.trace := by rcases hw with rfl | rfl <;> rfl
  have hwcaller : w.caller = u.caller := by rcases hw with rfl | rfl <;> rfl
  have hwnow : w.timeline.now = u.timeline.now := by rcases hw with rfl | rfl <;> rfl
  have hwforward : u.Forward → w.Forward := by
    intro h
    rcases hw with rfl | rfl <;> exact ⟨h.course, h.service⟩
  have hwchain : w.timeline.chain token = s.timeline.chain token := by
    rw [← hbefore.timeline.chain token]
    rcases hw with rfl | rfl
    · rfl
    · exact Timeline.chain_addToken (hbefore.timeline.forest hforest) none (some token) (hlength ▸ htoken)
  have hwbound : ∀ i ∈ s.timeline.chain token, ∀ instant, w.timeline.Bound i instant → u.timeline.Bound i instant := by
    intro i hi instant hbound
    rcases hw with rfl | rfl
    · exact hbound
    · exact (Timeline.bound_addToken (hlength ▸ Timeline.lt_of_mem_chain hi)).1 hbound
  refine ⟨first, later, htrace, hfirst, hwtrace ▸ htrace', ?_, ?_, ?_⟩
  · rw [htrace', hwtrace, htrace, List.append_assoc]
  · intro i hi hcancelled
    rcases cancelled_append.1 hcancelled with hcancelled | hcancelled
    · exact (hfirst i hcancelled).elim
    · rcases hlater i hcancelled with hcaller | rfl
      · rw [← hbefore.caller, ← hwcaller]
        exact hcaller
      · exact absurd (Timeline.lt_of_mem_chain hi) (by rw [hlength]; exact Nat.lt_irrefl _)
  · intro ho hs hc
    obtain ⟨hu, haccounted⟩ := htime ho trivial hs
    obtain ⟨-, haccounted'⟩ := htime' ho trivial (hwforward hu)
    obtain ⟨i, hi, hreason⟩ := haccounted'.of_isCancelled hc
    rw [hwchain] at hi
    refine ⟨i, hi, ?_⟩
    rcases hreason with hbound | hcancelled
    · exact (haccounted.toLater.bound ho (hwnow ▸ haccounted'.forward) (haccounted.reason i) (hwbound i hi _ hbound)).imp_right
        fun h => cancelled_append.2 (.inl h)
    · exact .inr (cancelled_append.2 (.inr hcancelled))

/-- Where nobody has cancelled a token before, what is done with an eye on the scope sends no request after the scope has
been cancelled. -/
theorem silenced_of_heeds {first later : List (Event σ)} (hfirst : ∀ i, ¬Cancelled first i)
    (hscope : scope ∈ w.timeline.chain scope) (h : Heeds scope w t) (htrace : t.trace = w.trace ++ later) :
    Silenced scope (first ++ later) := by
  obtain ⟨events, hevents, hheeding, -⟩ := h.trace
  obtain rfl := List.append_cancel_left (htrace.symm.trans hevents)
  have hnone : ∀ e ∈ first, ¬e.Cancels [scope] := by
    rintro e he ⟨i, hi, instant, rfl⟩
    exact hfirst i ⟨instant, he⟩
  refine List.pairwise_append.2 ⟨?_, hheeding.ordered.imp ?_, ?_⟩
  · exact List.pairwise_of_forall_mem_list fun a ha _ _ hcancels => absurd hcancels (hnone a ha)
  · intro a b h hcancels
    obtain ⟨i, hi, instant, rfl⟩ := hcancels
    obtain rfl := List.mem_singleton.1 hi
    exact Event.isRequest_of_starts (h ⟨i, hscope, instant, rfl⟩)
  · intro a ha b _ hcancels
    exact absurd hcancels (hnone a ha)

namespace Verifier.Prelude

variable {v : Verifier σ} {source : Source} {given : Option TokenId} {runId : Option String}

/-- Up to the judging nobody cancels a token. -/
theorem accounts_scene (p : Prelude v source (some token) runId s) : Accounts True (fun _ _ => False) s p.scene := by
  have hopened : Accounts True (fun _ _ => False) s (opened source (some token) s).2 :=
    (Scene.silent_noting s _).accounts fun _ hs => ⟨hs.course, hs.service⟩
  have hstaged : Accounts True (fun _ _ => False) (opened source (some token) s).2 p.staged := by
    have hsilent := silent_stage v source runId (opened source (some token) s).2
    have honward : Scene.Onward True Files.Tree.Anyhow (fun _ => True) (opened source (some token) s).2
        (v.stage source runId (opened source (some token) s).2).2 := onward_stage (fun _ _ => trivial) v source runId _
    rw [p.stage_eq] at hsilent honward
    exact hsilent.accounts fun _ hs => honward.forward hs
  have hanalyzed : Accounts True (fun _ _ => False) p.staged p.analyzed := by
    obtain ⟨-, hsame⟩ := Run.heed_eq_ok p.heed_eq
    have hrun := Analyzer.accounts_run v.command v.timeout p.slot.source p.slot.output token p.heeded
    rw [show Analyzer.run v.command v.timeout p.slot.source p.slot.output (some token) p.heeded = _ from p.run_eq,
      hsame] at hrun
    exact hrun
  have hnoted : Accounts True (fun _ _ => False) p.analyzed p.scene :=
    (Scene.silent_noting p.analyzed _).accounts fun _ hs => ⟨hs.course, hs.service⟩
  exact IsTrans.trans _ _ _ hopened (IsTrans.trans _ _ _ hstaged (IsTrans.trans _ _ _ hanalyzed hnoted))

/-- In whatever order findings are taken and judged, and whenever the pool is stopped, the caller's token is left alone, and
no request is sent after the scope has been cancelled. -/
theorem contained_of_races (p : Prelude v source (some token) runId s) (hforest : s.timeline.Forest)
    (htoken : (token : Nat) < s.timeline.tokens.length) {tasks : List (Judge.Task σ)}
    (h : (Judge.poolWork v.judge source.text p.scene.timeline.tokens.length).Races
      (p.findings.map Judge.Task.ofFinding, p.scene.withChild token) (tasks, t)) :
    ∃ events, Contained token s t events ∧ Silenced p.scene.timeline.tokens.length events := by
  have hbefore := p.accounts_scene
  have hafter : Accounts True (fun caller i => caller = some i ∨ i = p.scene.timeline.tokens.length)
      (p.scene.withChild token) t :=
    (Judge.parts_accounts (fun _ _ => .inl) v.judge p.scene.timeline.tokens.length).races
      (fun _ => Scene.accounts_cancel (.inr rfl)) h
  have hheeds : Heeds p.scene.timeline.tokens.length (p.scene.withChild token) t :=
    (Judge.parts_heeds v.judge p.scene.timeline.tokens.length).races (fun s => Scene.heeds_cancel s _) h
  have hid : (token : Nat) < p.scene.timeline.tokens.length := hbefore.timeline.length ▸ htoken
  have hscope : p.scene.timeline.tokens.length ∈ (p.scene.withChild token).timeline.chain p.scene.timeline.tokens.length := by
    rw [Scene.withChild, Timeline.chain_child (hbefore.timeline.forest hforest) hid]
    exact .head _
  obtain ⟨first, later, -, hfirst, htrace, hcontained⟩ := contained_of_accounts hforest htoken hbefore (.inr rfl) hafter
  exact ⟨first ++ later, hcontained, silenced_of_heeds hfirst hscope hheeds htrace⟩

/-- Several findings are judged side by side. -/
theorem judged_of_many (p : Prelude v source (some token) runId s) (hworkers : 2 ≤ v.workers)
    (hmany : 1 < p.findings.length) : p.judged =
      ((Judge.pooled v.judge v.workers source.text token p.findings p.scene).1.outcome,
        (Judge.pooled v.judge v.workers source.text token p.findings p.scene).2) := by
  have hpool : ¬(v.workers = 1 ∨ p.findings.length ≤ 1) := by omega
  rw [judged, Judge.judgeAll, if_neg hpool, Judge.judgeInPool_run]
  rfl

theorem contained_of_judged (p : Prelude v source (some token) runId s) (hforest : s.timeline.Forest)
    (htoken : (token : Nat) < s.timeline.tokens.length) (hworkers : 2 ≤ v.workers) :
    ∃ events, Contained token s p.judged.2 events ∧
      (1 < p.findings.length → Silenced p.scene.timeline.tokens.length events) := by
  by_cases hmany : 1 < p.findings.length
  · have hraces := Judge.races_pooled v.judge v.workers source.text token p.findings p.scene
    obtain ⟨events, hcontained, hsilenced⟩ := p.contained_of_races hforest htoken hraces
    rw [p.judged_of_many hworkers hmany]
    exact ⟨events, hcontained, fun _ => hsilenced⟩
  · have hafter : Accounts True (fun caller i => caller = some i ∨ i = p.scene.timeline.tokens.length)
        p.scene p.judged.2 := by
      rw [judged, Judge.judgeAll, if_pos (.inr (Nat.not_lt.1 hmany))]
      exact (Judge.parts_accounts (fun _ _ => .inl) v.judge token).mapM source.text p.findings p.scene
    obtain ⟨first, later, -, -, -, hcontained⟩ :=
      contained_of_accounts hforest htoken p.accounts_scene (.inl rfl) hafter
    exact ⟨first ++ later, hcontained, fun h => absurd h hmany⟩

/-- When judging is over, lines are logged, and nothing else is done that the trace would tell. -/
theorem silent_verify (p : Prelude v source given runId s) : Silent p.judged.2 (v.verify source given runId s).2 := by
  obtain ⟨m, hm⟩ := p.started
  have hinside : v.inSlot source (opened source given s).1 p.slot p.staged = (p.judged.1.map p.ending, p.judged.2) :=
    p.inSlot_run
  obtain ⟨x, es, files, lines, hverify, -⟩ := verify_of_slot hm p.stage_eq
  rw [hverify, hinside]
  exact IsTrans.trans _ _ _ (Scene.silent_cleaned p.judged.2 files es) (Scene.silent_noting _ lines)

/-- Where judging fails, the verification fails with the same failure, unless the slot is too deep to be released. -/
theorem verify_of_failure (p : Prelude v source given runId s) {e : Failure} (h : p.judged.1 = .error e) :
    (v.verify source given runId s).1 = .error e ∨
      (v.verify source given runId s).1 = .error (.file (.tooDeep .removing)) ∧ p.TooDeep := by
  have hplain : ∀ cause, e ≠ .staging cause := by
    rintro cause rfl
    have hinside : (v.inSlot source p.token p.slot p.staged).1 = .error (.staging cause) := by
      rw [p.inSlot_run, h]
      rfl
    exact Bool.noConfusion (not_isStaging_of_inSlot hinside)
  obtain ⟨startedAt, x, warnings, t, hverify, hfails⟩ := p.verify_run fun cause hc =>
    hplain cause (Except.error.inj (h.symm.trans hc))
  rw [hverify, h]
  cases x with
  | ok => exact .inl rfl
  | error cause =>
    obtain ⟨rfl, hdeep⟩ := hfails cause rfl
    exact .inr ⟨rfl, hdeep⟩

end Verifier.Prelude

namespace Verifier

variable {v : Verifier σ} {source : Source} {runId : Option String}

/-- A verification by several workers that comes to judging leaves the caller's token alone: when judging is over, the token
has been cancelled only by the caller, by a deadline or by a cancellation that was to come, if it had not been cancelled in
the beginning. From then on there are only lines in the log, so no request is sent when the slot is released. If judging
fails, the verification fails with that failure, or in releasing its slot, if that is too deep. With several findings to
judge, judging fails just if that of one finding does; each of them has then been judged to its end or has never been begun
with; and no request has been sent after the scope of the pool was cancelled. That the token is left alone and that no request
follows does not depend on the order in which the findings are taken and judged, nor on the moments at which the scope is
cancelled, nor on what is still taken then. -/
theorem verify_contained (p : Prelude v source (some token) runId s) (hworkers : 2 ≤ v.workers)
    (hforest : s.timeline.Forest) (htoken : (token : Nat) < s.timeline.tokens.length) :
    (∃ events, Contained token s p.judged.2 events ∧
      (1 < p.findings.length → Silenced p.scene.timeline.tokens.length events)) ∧
    Silent p.judged.2 (v.verify source (some token) runId s).2 ∧
    (∀ e, p.judged.1 = .error e → (v.verify source (some token) runId s).1 = .error e ∨
      (v.verify source (some token) runId s).1 = .error (.file (.tooDeep .removing)) ∧ p.TooDeep) ∧
    (1 < p.findings.length →
      p.judged = ((Judge.pooled v.judge v.workers source.text token p.findings p.scene).1.outcome,
        (Judge.pooled v.judge v.workers source.text token p.findings p.scene).2) ∧
      Judge.Joined p.findings (Judge.pooled v.judge v.workers source.text token p.findings p.scene).1.tasks p.judged.1) ∧
    ∀ (tasks : List (Judge.Task σ)) (t : Scene σ),
      (Judge.poolWork v.judge source.text p.scene.timeline.tokens.length).Races
        (p.findings.map Judge.Task.ofFinding, p.scene.withChild token) (tasks, t) →
      ∃ events, Contained token s t events ∧ Silenced p.scene.timeline.tokens.length events := by
  refine ⟨p.contained_of_judged hforest htoken hworkers, p.silent_verify, ?_, ?_, ?_⟩
  · intro e he
    exact p.verify_of_failure he
  · intro hmany
    have hpool := p.judged_of_many hworkers hmany
    refine ⟨hpool, ?_⟩
    rw [hpool]
    exact Judge.joined_pooled (by omega) (List.ne_nil_of_length_pos (by omega)) v.judge source.text token p.scene
  · intro tasks t h
    exact p.contained_of_races hforest htoken h

/-- Two workers. -/
def crew : Verifier Int := { scanner with workers := 2 }

/-- A scene in which the service breaks down on "a". Both findings are taken before that. -/
def crashingScene : Scene Int :=
  { scannerScene with
    service := .ofScripts 0 [("a", [⟨0, false, some "down", .choices []⟩])] [Judge.Service.standard 0]
    schedule := [0, 1] }

/-- Whether judging two findings fails after one request and leaves the token as it is. -/
def Prelude.crashes (p : Prelude v source (some token) runId s) : Bool :=
  p.findings.length == 2 && p.judged.2.trace.countP Event.isRequest == 1 && !p.judged.1.isOk &&
    !(p.judged.2.timeline.isCancelled token).1

theorem Prelude.of_crashes {p : Prelude v source (some token) runId s} (h : p.crashes = true) :
    1 < p.findings.length ∧ p.judged.2.trace.countP Event.isRequest = 1 ∧ (∃ e, p.judged.1 = .error e) ∧
      (p.judged.2.timeline.isCancelled token).1 = false := by
  simp only [crashes, Bool.and_eq_true, Bool.not_eq_true', beq_iff_eq] at h
  obtain ⟨⟨⟨hlength, hrequests⟩, hfails⟩, hclear⟩ := h
  refine ⟨hlength ▸ Nat.one_lt_two, hrequests, ?_, hclear⟩
  cases hjudged : p.judged.1 with
  | ok outcomes => simp [hjudged, Except.isOk, Except.toBool] at hfails
  | error e => exact ⟨e, rfl⟩

theorem crashes_crew :
    ((crew.prelude? ⟨[], "a.sol"⟩ (some 0) (some "1") crashingScene).any fun p => p.crashes) = true := by
  decide +kernel

/-- The way to judging of that run. -/
def crewPrelude : Prelude crew ⟨[], "a.sol"⟩ (some 0) (some "1") crashingScene :=
  (crew.prelude? ⟨[], "a.sol"⟩ (some 0) (some "1") crashingScene).get
    ((Option.any_eq_true_iff_get _ _).1 crashes_crew).fst

theorem crashes_crewPrelude : crewPrelude.crashes = true := ((Option.any_eq_true_iff_get _ _).1 crashes_crew).snd

theorem forward_crashingScene : crashingScene.Forward where
  course := ⟨rfl, fun _ h => by cases h⟩
  service := Judge.Service.only_ofScripts rfl (by decide) (by decide)

/-- There, one request is sent for two findings, the service breaks down on it, and the caller's token is not cancelled when
the verification has failed. -/
theorem verify_contained_crashing :
    2 ≤ crew.workers ∧ crashingScene.timeline.Forest ∧ 0 < crashingScene.timeline.tokens.length ∧ Linear Int ∧
      crashingScene.Forward ∧ 1 < crewPrelude.findings.length ∧
      (∃ events, Contained 0 crashingScene crewPrelude.judged.2 events ∧ events.countP Event.isRequest = 1 ∧
        Silenced crewPrelude.scene.timeline.tokens.length events) ∧
      (∃ e, (crew.verify ⟨[], "a.sol"⟩ (some 0) (some "1") crashingScene).1 = .error e) ∧
      ((crew.verify ⟨[], "a.sol"⟩ (some 0) (some "1") crashingScene).2.timeline.isCancelled 0).1 = false := by
  obtain ⟨hmany, hrequests, ⟨e, he⟩, hclear⟩ := Prelude.of_crashes crashes_crewPrelude
  have hworkers : 2 ≤ crew.workers := Nat.le_refl 2
  have hforest : crashingScene.timeline.Forest :=
    Scene.forest_ofService busyService (.file (Text.Utf8.encode twoFindings))
  have htoken : 0 < crashingScene.timeline.tokens.length := Nat.one_pos
  obtain ⟨⟨events, hcontained, hsilenced⟩, hsilent, hfailed, -, -⟩ := verify_contained crewPrelude hworkers hforest htoken
  have htrace := hcontained.trace
  refine ⟨hworkers, hforest, htoken, Time.linear_int, forward_crashingScene, hmany,
    ⟨events, hcontained, ?_, hsilenced hmany⟩, (hfailed e he).elim (fun h => ⟨_, h⟩) fun h => ⟨_, h.1⟩, ?_⟩
  · rw [htrace] at hrequests
    exact hrequests
  · rw [hsilent.timeline]
    exact hclear

end Verifier
end Adjudication
