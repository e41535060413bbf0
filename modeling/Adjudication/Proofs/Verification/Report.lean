import Adjudication.Proofs.Time.Calendar
import Adjudication.Proofs.Verification.Ending

/-!
Reports are well formed, however a verification ends. What a report says agrees with what has been done: no request has
been made in a run that failed, and no process has been started where staging failed.
-/

namespace Adjudication

open Act (Respects)
open Files.Tree (Anyhow SameStart)
open Time (TokenId)
open Time.Seconds (Ordered le)

variable {σ : Type}

def Event.isLaunch : Event σ → Bool
  | .launched _ _ _ => true
  | _ => false

/-- What is neither a request nor the start of a process. -/
def Event.Quiet (e : Event σ) : Prop := e.isRequest = false ∧ e.isLaunch = false

variable [Time.Seconds σ] {premise : Prop} {allowed : Event σ → Prop} {s t : Scene σ}

/-! ### The clock -/

namespace Host

variable {host : Host σ} {a b : σ}

/-- The calendar's clock is not set back from one instant to another. -/
def Forward (host : Host σ) (a b : σ) : Prop := ∀ m n, host.calendar a = .ok m → host.calendar b = .ok n → m ≤ n

/-- A calendar that goes with the clock is not set back where the clock goes forward. -/
theorem forward_usual (h : Ordered σ) (hab : le a b = true) : (usual : Host σ).Forward a b :=
  fun _ _ hm hn => h.microseconds_mono hab hm hn

omit [Time.Seconds σ] in
theorem toMicroseconds_of_moment {m : Time.Timestamp} (h : host.moment a = .ok m) :
    ∃ n, host.calendar a = .ok n ∧ m.toMicroseconds = Time.daysFromEpoch 2026 1 1 * 86400000000 + n := by
  rw [moment] at h
  cases hn : host.calendar a with
  | error fault =>
    rw [hn] at h
    cases h
  | ok n =>
    rw [hn] at h
    exact ⟨n, rfl, Time.Timestamp.toMicroseconds_of_after h⟩

omit [Time.Seconds σ] in
theorem Forward.moment_le (h : host.Forward a b) {first last : Time.Timestamp} (hfirst : host.moment a = .ok first)
    (hlast : host.moment b = .ok last) : first.toMicroseconds ≤ last.toMicroseconds := by
  obtain ⟨m, hm, hm'⟩ := toMicroseconds_of_moment hfirst
  obtain ⟨n, hn, hn'⟩ := toMicroseconds_of_moment hlast
  have hmn := h m n hm hn
  omega

end Host

namespace Verifier

variable {v : Verifier σ} {source : Source} {given : Option TokenId} {runId : Option String}

/-! ### The report -/

/-- What holds of the report of a verification that began in one scene and ended in another, where `later` is what has been
done in it. -/
structure WellFormed (v : Verifier σ) (source : Source) (given : Option TokenId) (runId : Option String) (s t : Scene σ)
    (r : Report) (later : List (Event σ)) : Prop where
  status : r.status = .failed ↔ r.error.isSome = true
  failed : ∀ e, r.error = some e → r.outcomes = [] ∧ e.exitCode = r.analyzerExitCode ∧
    ∀ event ∈ later, event.isRequest = false
  staging : ∀ e, r.error = some e → e.stage = .staging → ∀ event ∈ later, event.isLaunch = false
  parser : ∀ e, r.error = some e → e.stage = .parser → ∃ slot staged document t,
    v.stage source runId (opened source given s).2 = (.ok slot, staged) ∧
    Analyzer.run v.command v.timeout slot.source slot.output (some (opened source given s).1) staged = (.ok document, t)
  succeeded : r.error = none → r.analyzerExitCode = some s.course.exitCode
  attempts : ∀ o ∈ r.outcomes, ∀ record, o.ruling = .failed record →
    1 ≤ record.attempts ∧ record.attempts ≤ v.judge.config.maxAttempts
  /-- The report begins no later than it ends, unless the calendar's clock has been set back meanwhile. -/
  ordered : s.host.Forward s.timeline.now t.timeline.now → r.startedAt.toMicroseconds ≤ r.finishedAt.toMicroseconds
  clock : Ordered σ → s.Forward → le s.timeline.now t.timeline.now = true

/-- The report of a run that failed at a stage. -/
theorem wellFormed_fatal {stage : Stage} {kind : String} {message : Text.Wide} {exitCode : Option Int} {warnings : List Text.Wide}
    {startedAt finishedAt : Time.Timestamp} {later : List (Event σ)}
    (hrequests : ∀ event ∈ later, event.isRequest = false)
    (hlaunches : stage = .staging → ∀ event ∈ later, event.isLaunch = false)
    (hdocument : stage = .parser → ∃ slot staged document t,
      v.stage source runId (opened source given s).2 = (.ok slot, staged) ∧
      Analyzer.run v.command v.timeout slot.source slot.output (some (opened source given s).1) staged = (.ok document, t))
    (hordered : s.host.Forward s.timeline.now t.timeline.now → startedAt.toMicroseconds ≤ finishedAt.toMicroseconds)
    (hclock : Ordered σ → s.Forward → le s.timeline.now t.timeline.now = true) : WellFormed v source given runId s t
      (v.report source startedAt finishedAt (fatal stage kind message exitCode) warnings) later where
  status := by simp [report, fatal]
  failed e he := by
    obtain rfl := Option.some.inj he
    exact ⟨rfl, rfl, hrequests⟩
  staging e he hstage := by
    obtain rfl := Option.some.inj he
    exact hlaunches hstage
  parser e he hstage := by
    obtain rfl := Option.some.inj he
    exact hdocument hstage
  succeeded he := by cases he
  attempts o ho := by cases ho
  ordered := hordered
  clock := hclock

/-- Whenever a verification gives a report, the report is well formed. -/
theorem verify_wellFormed {r : Report} (h : v.verify source given runId s = (.ok r, t)) :
    ∃ later, t.trace = s.trace ++ later ∧ WellFormed v source given runId s t r later := by
  obtain ⟨startedAt, finishedAt, ending, warnings, u, hreports, rfl⟩ := reports_of_verify h
  obtain ⟨files, es, lines, rfl⟩ := hreports.released
  have hends := hreports.ends
  have hfinished : s.host.moment u.timeline.now = .ok finishedAt := hends.onward.host ▸ hreports.finished
  have hordered : s.host.Forward s.timeline.now u.timeline.now → startedAt.toMicroseconds ≤ finishedAt.toMicroseconds :=
    fun hforward => hforward.moment_le hreports.started hfinished
  have hclock : Ordered σ → s.Forward → le s.timeline.now u.timeline.now = true := fun ho hs =>
    hends.onward.time ho trivial hs
  cases hends with
  | unstaged hstage =>
    have hquiet : Scene.Onward True Anyhow Event.Quiet s u := onward_staged (fun _ _ => ⟨rfl, rfl⟩) hstage
    obtain ⟨later, htrace, hlater⟩ :=
      (IsTrans.trans _ _ _ hquiet (onward_released (fun _ _ => ⟨rfl, rfl⟩) u files es lines)).trace
    exact ⟨later, htrace, wellFormed_fatal (fun event he => (hlater event he).1) (fun _ event he => (hlater event he).2)
      (fun hparser => by cases hparser) hordered hclock⟩
  | unanalyzed hstage hrun =>
    obtain ⟨later, htrace, hlater⟩ :=
      (IsTrans.trans _ _ _ (hreports.ends.silent rfl).2 (onward_released (fun _ _ => rfl) _ files es lines)).trace
    exact ⟨later, htrace, wellFormed_fatal hlater (fun hs => by cases hs) (fun hs => by cases hs) hordered hclock⟩
  | unread hstage hrun _ =>
    obtain ⟨later, htrace, hlater⟩ :=
      (IsTrans.trans _ _ _ (hreports.ends.silent rfl).2 (onward_released (fun _ _ => rfl) _ files es lines)).trace
    exact ⟨later, htrace, wellFormed_fatal hlater (fun hs => by cases hs) (fun _ => ⟨_, _, _, _, hstage, hrun⟩) hordered hclock⟩
  | @judged p outcomes hjudged =>
    obtain ⟨later, htrace, -⟩ :=
      (IsTrans.trans _ _ _ p.onward_judged (onward_released (fun _ _ => trivial) p.judged.2 files es lines)).trace
    refine ⟨later, htrace, by simp [report, Prelude.ending], (fun _ he => by cases he), (fun _ he => by cases he),
      (fun _ he => by cases he), fun _ => congrArg some p.exitCode_eq,
      fun o ho record hrecord => ?_, hordered, hclock⟩
    have hpermitted := Judge.judgeAll_permitted v.judge v.workers source.text p.token p.findings p.scene
    rw [show (Judge.judgeAll v.judge v.workers source.text p.token p.findings p.scene).1 = .ok outcomes from hjudged]
      at hpermitted
    obtain ⟨i, hi⟩ := List.getElem?_of_mem ho
    obtain ⟨f, -, hof⟩ := hpermitted i o hi
    exact Outcome.Of.attempts hof record hrecord

theorem forward_scannerScene : scannerScene.Forward where
  course := ⟨rfl, fun _ h => by cases h⟩
  service := Judge.Service.only_ofScripts rfl (by decide) (by decide)

/-- The report of a scanned source with two findings, one of which is judged. -/
theorem verify_wellFormed_scanner :
    ∃ r t later, scanner.verify ⟨[], "a.sol"⟩ (some 0) (some "1") scannerScene = (.ok r, t) ∧ r.outcomes.length = 2 ∧
      t.trace = scannerScene.trace ++ later ∧ WellFormed scanner ⟨[], "a.sol"⟩ (some 0) (some "1") scannerScene t r later ∧
      r.startedAt.toMicroseconds ≤ r.finishedAt.toMicroseconds := by
  obtain ⟨hlength, hsettled⟩ := settled_scannerPrelude
  obtain ⟨r, t, hverify, houtcomes⟩ := scannerPrelude.verify_of_settled shallow_scannerPrelude rfl hsettled
  obtain ⟨later, htrace, hwellFormed⟩ := verify_wellFormed hverify
  exact ⟨r, t, later, hverify, houtcomes.trans hlength, htrace, hwellFormed,
    hwellFormed.ordered (Host.forward_usual Time.ordered_int (hwellFormed.clock Time.ordered_int forward_scannerScene))⟩

end Verifier
end Adjudication
