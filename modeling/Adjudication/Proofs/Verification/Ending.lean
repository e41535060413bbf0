import Adjudication.Proofs.Verification.Slot

/-!
How a verification comes to its report. It has begun at an instant, has come to an ending and has released its slot, and the
report tells of the ending. There are four endings: nothing is staged, the analyzer fails, the results cannot be read, or
findings are judged, and only the last one is without an error. A run with another ending makes no request.
-/

namespace Adjudication

open Act (Respects)
open Files.Tree (Anyhow)
open Time (TokenId)

variable {σ : Type} [Time.Seconds σ] {premise : Prop} {allowed : Event σ → Prop} {s t u : Scene σ}

/-! ### Going on -/

namespace Staging

theorem onward_cleaned (h : ∀ level message, allowed (.logged level message)) (s : Scene σ) (files : Files.Tree)
    (es : List StagingError) : Scene.Onward premise Anyhow allowed s (cleaned s files es) :=
  IsTrans.trans _ { s with files } _ (Scene.onward_files trivial) (Scene.onward_noting h _)

end Staging

namespace Verifier

variable {v : Verifier σ} {source : Source} {given : Option TokenId} {runId : Option String}

theorem onward_opened (h : ∀ level message, allowed (.logged level message)) (source : Source) (given : Option TokenId)
    (s : Scene σ) : Scene.Onward premise Anyhow allowed s (opened source given s).2 := by
  cases given with
  | some id => exact Scene.onward_noting h _
  | none =>
    have htoken : Respects (Scene.Onward premise Anyhow allowed) (Run.newToken none none) := Run.respects_newToken none none
    exact IsTrans.trans _ _ _ (htoken s) (Scene.onward_noting h _)

theorem onward_stage (h : ∀ level message, allowed (.logged level message)) (v : Verifier σ) (source : Source)
    (runId : Option String) (s : Scene σ) : Scene.Onward premise Anyhow allowed s (v.stage source runId s).2 := by
  obtain ⟨name, names, hname⟩ := Staging.runName_run runId s
  obtain ⟨files, es, hcleaned⟩ := Staging.acquire_cleaned v.root source name { s with names }
  rw [stage, Act.bind_of_ok hname, hcleaned]
  have hnames : Scene.Onward premise Anyhow allowed s { s with names } :=
    ⟨rfl, rfl, rfl, trivial, ⟨[], (List.append_nil _).symm, fun _ he => absurd he (List.not_mem_nil)⟩,
      fun ho _ _ => ho.le_refl _⟩
  exact IsTrans.trans _ _ _ hnames (Staging.onward_cleaned h _ files es)

/-- Up to the slot lines are logged, and nothing else is done. -/
theorem onward_staged (h : ∀ level message, allowed (.logged level message)) {r : Except Failure Slot}
    (hstage : v.stage source runId (opened source given s).2 = (r, t)) : Scene.Onward premise Anyhow allowed s t := by
  have hstaged : Scene.Onward premise Anyhow allowed (opened source given s).2
      (v.stage source runId (opened source given s).2).2 := onward_stage h v source runId _
  rw [hstage] at hstaged
  exact IsTrans.trans _ _ _ (onward_opened h source given s) hstaged

/-- Up to the end of the analyzer nothing is requested. -/
theorem onward_analyzed {slot : Slot} {staged : Scene σ} {token : TokenId} {r : Except Failure Analyzer.Document}
    (hstage : v.stage source runId (opened source given s).2 = (.ok slot, staged))
    (hrun : Analyzer.run v.command v.timeout slot.source slot.output (some token) staged = (r, t)) :
    Scene.Onward True Anyhow (fun e => e.isRequest = false) s t := by
  have hanalyzed := Analyzer.respects_run v.command v.timeout slot.source slot.output (some token) staged
  rw [hrun] at hanalyzed
  exact IsTrans.trans _ _ _ (onward_staged (fun _ _ => rfl) hstage)
    (hanalyzed.mono (fun _ h _ => h) (fun _ => trivial) fun _ h => h)

/-- When the slot is released, lines are logged, and nothing else is done. -/
theorem onward_released (h : ∀ level message, allowed (.logged level message)) (s : Scene σ) (files : Files.Tree)
    (es : List StagingError) (lines : List (Level × Text.Wide)) :
    Scene.Onward premise Anyhow allowed s ((Staging.cleaned s files es).noting lines) :=
  IsTrans.trans _ _ _ (Staging.onward_cleaned h s files es) (Scene.onward_noting h lines)

namespace Prelude

/-- A look that does not find the token cancelled changes nothing. -/
theorem heeded_eq (p : Prelude v source given runId s) : p.heeded = p.staged := (Run.heed_eq_ok p.heed_eq).2

/-- Up to the judging nothing is requested. -/
theorem onward_scene (p : Prelude v source given runId s) :
    Scene.Onward True Anyhow (fun e => e.isRequest = false) s p.scene :=
  IsTrans.trans _ _ _ (onward_analyzed p.stage_eq (p.heeded_eq ▸ p.run_eq)) (Scene.onward_noting (fun _ _ => rfl) _)

theorem onward_judged (p : Prelude v source given runId s) :
    Scene.Onward True Anyhow (fun _ => True) s p.judged.2 := by
  have hjudging : Respects (Scene.Freely True Anyhow) (Judge.judgeAll v.judge v.workers source.text p.token p.findings) :=
    Judge.respects_judgeAll v.judge v.workers source.text p.token p.findings
  exact IsTrans.trans _ _ _ (p.onward_scene.mono (fun _ h _ => h) id fun _ _ => trivial)
    ((hjudging p.scene).mono (fun _ h _ => h) id fun _ _ => trivial)

/-- The code of a run is the one that the process of the analyzer ends with. -/
theorem exitCode_eq (p : Prelude v source given runId s) : p.document.exitCode = s.course.exitCode := by
  have hstaged : Scene.Onward True Anyhow (fun _ => True) s p.staged := onward_staged (fun _ _ => trivial) p.stage_eq
  rw [Analyzer.exitCode_of_run p.run_eq, p.heeded_eq, hstaged.course]

end Prelude

/-! ### Endings -/

/-- The endings that a verification can come to, with the scene that it has come to then. -/
inductive Ends (v : Verifier σ) (source : Source) (given : Option TokenId) (runId : Option String) (s : Scene σ) :
    Ending → Scene σ → Prop where
  | unstaged {cause : StagingError} {u : Scene σ}
      (hstage : v.stage source runId (opened source given s).2 = (.error (.staging cause), u)) :
      Ends v source given runId s (fatal .staging cause.kind cause.message none) u
  | unanalyzed {slot : Slot} {staged u : Scene σ} {e : AnalyzerError}
      (hstage : v.stage source runId (opened source given s).2 = (.ok slot, staged))
      (hrun : Analyzer.run v.command v.timeout slot.source slot.output (some (opened source given s).1) staged =
        (.error (.analyzer e), u)) :
      Ends v source given runId s (fatal .analyzer e.kind e.message e.exitCode)
        (u.noting [(.error, .text "Analyzer failed: " ++ e.text)])
  | unread {slot : Slot} {staged u : Scene σ} {document : Analyzer.Document} {e : ResultsError}
      (hstage : v.stage source runId (opened source given s).2 = (.ok slot, staged))
      (hrun : Analyzer.run v.command v.timeout slot.source slot.output (some (opened source given s).1) staged =
        (.ok document, u))
      (hfindings : Analyzer.findingsOfFile u.host.levels u.files document.file = .error (.results e)) :
      Ends v source given runId s (fatal .parser e.kind e.message (some document.exitCode))
        (u.noting [(.error, .text "Cannot parse analyzer output: " ++ e.text)])
  | judged (p : Prelude v source given runId s) {outcomes : List Outcome} (hjudged : p.judged.1 = .ok outcomes) :
      Ends v source given runId s (p.ending outcomes) p.judged.2

/-- Where the part in the slot comes to an ending, so does the verification. -/
theorem ends_of_inSlot {m : Time.Timestamp} (hstarted : s.moment = .ok m) {slot : Slot} {staged : Scene σ}
    (hstage : v.stage source runId (opened source given s).2 = (.ok slot, staged)) {ending : Ending}
    (h : v.inSlot source (opened source given s).1 slot staged = (.ok ending, u)) :
    Ends v source given runId s ending u := by
  have hcases := inSlot_run v source (opened source given s).1 slot staged
  rw [h] at hcases
  generalize hinside : ((.ok ending, u) : Except Failure Ending × Scene σ) = inside at hcases
  cases hcases with
  | cancelled _ => exact absurd hinside.symm Act.error_ne_ok
  | interrupted _ => exact absurd hinside.symm Act.error_ne_ok
  | broken _ _ => exact absurd hinside.symm Act.error_ne_ok
  | unanalyzed hrun =>
    obtain ⟨rfl, rfl⟩ := Act.ok_eq_ok.1 hinside
    exact .unanalyzed hstage hrun
  | unread hrun hfindings =>
    obtain ⟨rfl, rfl⟩ := Act.ok_eq_ok.1 hinside
    exact .unread hstage hrun hfindings
  | @judged document fs t u outcomes hheed hrun hfindings hjudged =>
    cases outcomes with
    | error e => exact absurd hinside.symm Act.error_ne_ok
    | ok outcomes =>
      obtain ⟨rfl, rfl⟩ := Act.ok_eq_ok.1 hinside
      let p : Prelude v source given runId s :=
        ⟨slot, document, fs, staged, staged, t, ⟨m, hstarted⟩, hstage, hheed, hrun, hfindings⟩
      have hscene : p.judged = (.ok outcomes, _) := hjudged
      have hends : Ends v source given runId s (p.ending outcomes) p.judged.2 := .judged p (congrArg Prod.fst hscene)
      rwa [hscene] at hends

/-- A report tells of an ending that the verification has come to, and of the instants at which it has begun and ended. Then
the slot has been released. -/
structure Reports (v : Verifier σ) (source : Source) (given : Option TokenId) (runId : Option String) (s : Scene σ)
    (startedAt finishedAt : Time.Timestamp) (ending : Ending) (u t : Scene σ) : Prop where
  started : s.moment = .ok startedAt
  ends : Ends v source given runId s ending u
  finished : u.moment = .ok finishedAt
  released : ∃ files es lines, t = (Staging.cleaned u files es).noting lines

/-- A verification does not begin where the clock shows no instant. -/
theorem started_of_verify {r : Report} (h : v.verify source given runId s = (.ok r, t)) :
    ∃ m, s.moment = .ok m := by
  cases hstarted : s.moment with
  | ok m => exact ⟨m, rfl⟩
  | error fault =>
    have hfailed : (v.verify source given runId s).1 = .error (.noInstant fault) := verify_of_not_started hstarted
    rw [h] at hfailed
    cases hfailed

/-- Whatever report there is, it tells of an ending. -/
theorem reports_of_verify {r : Report} (h : v.verify source given runId s = (.ok r, t)) :
    ∃ startedAt finishedAt ending warnings u, Reports v source given runId s startedAt finishedAt ending u t ∧
      r = v.report source startedAt finishedAt ending warnings := by
  obtain ⟨startedAt, hstarted⟩ := started_of_verify h
  rcases hstage : v.stage source runId (opened source given s).2 with ⟨e | slot, staged⟩
  · obtain ⟨lines, hscene, hresult⟩ := verify_of_stage_error hstarted hstage
    rw [h] at hscene hresult
    obtain ⟨cause, rfl, hreported⟩ := hresult.resolve_right (by simp)
    obtain ⟨ending, warnings, finishedAt, hending, hfinished, rfl⟩ := reported_eq_ok hreported.symm
    obtain ⟨rfl, rfl⟩ := Prod.ext_iff.1 (Except.ok.inj hending)
    refine ⟨startedAt, finishedAt, _, _, staged, ⟨hstarted, .unstaged hstage, hfinished, staged.files, [], lines, ?_⟩, rfl⟩
    rw [Staging.cleaned_nil]
    exact hscene
  · obtain ⟨x, es, files, lines, hverify, -⟩ := verify_of_slot hstarted hstage
    rw [h] at hverify
    obtain ⟨hreported, hscene⟩ := Prod.ext_iff.1 hverify
    obtain ⟨ending, warnings, finishedAt, hending, hfinished, rfl⟩ := reported_eq_ok hreported.symm
    -- A run that cannot release its slot has no report.
    cases x with
    | error e => cases hending
    | ok =>
    rcases hinside : v.inSlot source (opened source given s).1 slot staged with ⟨e | other, u⟩
    · rw [hinside] at hending
      cases hending
    · rw [hinside] at hending hfinished hscene
      obtain ⟨rfl, rfl⟩ := Prod.ext_iff.1 (Except.ok.inj hending)
      exact ⟨startedAt, finishedAt, _, _, u, ⟨hstarted, ends_of_inSlot hstarted hstage hinside, hfinished, files, es, lines,
        hscene⟩, rfl⟩

variable {ending : Ending}

/-- A run that has come to an ending with an error has no outcomes, and nothing is requested in it. -/
theorem Ends.silent (h : Ends v source given runId s ending u) {e : RunError} (he : ending.error = some e) :
    ending.outcomes = [] ∧ Scene.Onward True Anyhow (fun e => e.isRequest = false) s u := by
  cases h with
  | unstaged hstage => exact ⟨rfl, onward_staged (fun _ _ => rfl) hstage⟩
  | unanalyzed hstage hrun =>
    exact ⟨rfl, IsTrans.trans _ _ _ (onward_analyzed hstage hrun) (Scene.onward_noting (fun _ _ => rfl) _)⟩
  | unread hstage hrun _ =>
    exact ⟨rfl, IsTrans.trans _ _ _ (onward_analyzed hstage hrun) (Scene.onward_noting (fun _ _ => rfl) _)⟩
  | judged p _ => cases he

/-- The other endings are those of runs that have come to judging. -/
theorem Ends.prelude (h : Ends v source given runId s ending u) (he : ending.error = none) :
    ∃ p : Prelude v source given runId s, p.judged = (.ok ending.outcomes, u) := by
  cases h with
  | unstaged _ => cases he
  | unanalyzed _ _ => cases he
  | unread _ _ _ => cases he
  | judged p hjudged => exact ⟨p, Prod.ext hjudged rfl⟩

theorem Ends.onward (h : Ends v source given runId s ending u) : Scene.Onward True Anyhow (fun _ => True) s u := by
  cases he : ending.error with
  | some e => exact (h.silent he).2.mono (fun _ h _ => h) id fun _ _ => trivial
  | none =>
    obtain ⟨p, hjudged⟩ := h.prelude he
    have honward := p.onward_judged
    rwa [hjudged] at honward

end Verifier
end Adjudication
