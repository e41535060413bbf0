import Adjudication.Proofs.Json.Numbers
import Adjudication.Proofs.Judge.Limits
import Adjudication.Proofs.Verification.Ending

/-!
What the answers of a service can do to a run. A run that comes to judging reports one outcome for every finding, or
it ends without a report in one of two ways: an answer goes beyond the limits of JSON, or a wait is too long for a
number. Of findings that are judged one after the other it is told for each whether the run gets past it.
-/

namespace Adjudication

/-! ### Integers that are too long -/

namespace Json

/-- An integer of too many digits goes beyond the limits. -/
theorem readWide_ones {n : Nat} (h : Decimal.digitLimit < n) (levels : Nat) :
    readWide levels (String.ofList (List.replicate n '1')) = .error (.excess (.digits n)) := by
  have hcodes : Text.Wide.codes (String.ofList (List.replicate n '1')) = Text.codesOfChars (List.replicate n '1') :=
    Text.codesOf_ofList _
  have hread : readCodes levels (Text.codesOfChars (List.replicate n '1')) = .error (.excess (.digits n)) := by
    obtain ⟨k, rfl⟩ := Nat.exists_eq_add_of_lt h
    have hhead : (List.replicate (Decimal.digitLimit + k + 1) '1').head? ≠ some '0' := by simp [List.replicate_succ]
    have hvalue : ∀ fuel, readValue levels (fuel + 1) (Text.codesOfChars (List.replicate (Decimal.digitLimit + k + 1) '1')) =
        .error (.excess (.digits (Decimal.digitLimit + k + 1))) := fun fuel => by
      have hlong := readValue_of_long (fun c hc => by rw [(List.mem_replicate.1 hc).2]; rfl) hhead
        (by rwa [List.length_replicate])
        levels fuel ends_nil
      rwa [List.append_nil, List.length_replicate] at hlong
    have hskip : skipSpace (Text.codesOfChars (List.replicate (Decimal.digitLimit + k + 1) '1')) =
        Text.codesOfChars (List.replicate (Decimal.digitLimit + k + 1) '1') := rfl
    have hmark : (Text.codesOfChars (List.replicate (Decimal.digitLimit + k + 1) '1')).head? ≠ some Sign.byteOrderMark := by
      simp [List.replicate_succ]
    rw [readCodes, if_neg hmark, hskip, hvalue]
  rw [readWide, hcodes, hread]
  rfl

end Json

namespace Verifier

open Time (TokenId)

variable {σ : Type} [Time.Seconds σ] {v : Verifier σ} {source : Source} {given : Option TokenId}
  {runId : Option String} {s : Scene σ}

/-- A report that has one outcome for every finding, in their order. -/
def Prelude.Reports (p : Prelude v source given runId s) : Prop :=
  ∃ r t, v.verify source given runId s = (.ok r, t) ∧ r.outcomes.map Outcome.finding = p.findings

/-- The token that the findings are judged on and the scene in which that begins. -/
def Prelude.scope (p : Prelude v source given runId s) : TokenId × Scene σ :=
  Judge.scope v.workers p.token p.findings p.scene

/-- Nothing stands in the way of judging the findings, in whatever order they are judged. -/
def Prelude.Unhindered (p : Prelude v source given runId s) : Prop :=
  Judge.Unhindered v.judge source.text p.scope.1 p.findings p.scope.2

variable {p : Prelude v source given runId s}

theorem Prelude.unhindered_iff (hsequential : v.workers = 1 ∨ p.findings.length ≤ 1) :
    p.Unhindered ↔ Judge.Unhindered v.judge source.text p.token p.findings p.scene := by
  rw [Prelude.Unhindered, Prelude.scope, Judge.scope, if_pos hsequential]

theorem Prelude.reports_of_judged (hshallow : ¬p.TooDeep) {outcomes : List Outcome} (h : p.judged.1 = .ok outcomes)
    (hfindings : outcomes.map Outcome.finding = p.findings)
    (hfinished : ∃ m, p.judged.2.moment = .ok m) : p.Reports := by
  obtain ⟨m, hm⟩ := hfinished
  obtain ⟨r, t, hverify, -, -, rfl⟩ := p.verify_of_ok hshallow h hm
  exact ⟨r, t, hverify, hfindings⟩

theorem Prelude.not_reports_of_judged {e : Failure} (h : p.judged.1 = .error e) (he : ∀ cause, e ≠ .staging cause) :
    ¬p.Reports := by
  rintro ⟨r, t, hverify, -⟩
  obtain ⟨startedAt, x, warnings, u, hrun, -⟩ := p.verify_run fun cause hc => he cause (Except.error.inj (h.symm.trans hc))
  rw [hverify, h] at hrun
  cases x <;> cases hrun

/-- A run over texts reports on every finding, or an answer or a wait ends it. -/
theorem Prelude.ends (hshallow : ¬p.TooDeep) (hn : 1 ≤ v.judge.config.maxAttempts) (hw : 1 ≤ v.workers)
    (hfree : p.Unhindered)
    (honly : p.scene.service.Only Judge.Turn.Textual) (hfinished : ∃ m, p.judged.2.moment = .ok m) :
    p.Reports ∨ (∃ t, v.verify source given runId s = (.error .tooLarge, t)) ∨
      ∃ e t, v.verify source given runId s = (.error (.excess e), t) := by
  rcases Judge.judgeAll_ends hw hn (fun _ h => h) hfree honly with ⟨os, hos, hfindings⟩ | ⟨hlong, -⟩ | ⟨e, he, -⟩
  · exact .inl (p.reports_of_judged hshallow hos hfindings hfinished)
  · exact .inr (.inl (p.verify_of_error hshallow hlong fun _ hc => by cases hc))
  · exact .inr (.inr ⟨e, p.verify_of_error hshallow he fun _ hc => by cases hc⟩)

/-- Answers within the limits, and waits that are never too long, are survived by any number of workers. -/
theorem Prelude.reports_of_regular (hshallow : ¬p.TooDeep) (hn : 1 ≤ v.judge.config.maxAttempts) (hw : 1 ≤ v.workers)
    (hfree : p.Unhindered) (honly : p.scene.service.Only (Judge.Turn.Regular v.judge.levels))
    (hreckons : ∀ a, 1 ≤ a → a < v.judge.config.maxAttempts → v.judge.Reckons a)
    (hfinished : ∃ m, p.judged.2.moment = .ok m) : p.Reports := by
  rcases Judge.judgeAll_ends hw hn (fun _ h => h.toTextual) hfree honly with
    ⟨os, hos, hfindings⟩ | ⟨-, a, h1, hlt, hnot⟩ | ⟨e, -, turn, hturn, hexceeds⟩
  · exact p.reports_of_judged hshallow hos hfindings hfinished
  · exact absurd (hreckons a h1 hlt) hnot
  · exact absurd hexceeds (hturn.limits e)

/-- One after the other, a run gathers what its findings come to where they are judged. -/
theorem Prelude.judged_gathered (hsequential : v.workers = 1 ∨ p.findings.length ≤ 1)
    (hheed : ∀ i < p.findings.length, Run.heed (some p.token) (p.before i) = (.ok (), p.before i)) :
    Act.Gathered (fun i r => ∃ hi : i < p.findings.length, r = Judge.outcomeOf p.findings[i]
      (Judge.judge v.judge p.findings[i] source.text (some p.token) (p.before i)).1) p.findings.length p.judged.1 := by
  rw [Prelude.judged, Judge.judgeAll, if_pos hsequential]
  refine Act.mapM_gathered _ _ _ _ fun i hi => ⟨hi, ?_⟩
  rw [← Judge.settle_run p.findings[i] _ (Judge.judge v.judge p.findings[i] source.text (some p.token) (p.before i)).2]
  exact congrArg Prod.fst (Judge.judgeOne_of_heed_ok _ (hheed i hi))

/-- If one finding is judged after the other, the run reports just if the client can bear the answers to each. -/
theorem Prelude.reports_iff (hshallow : ¬p.TooDeep) (hn : 1 ≤ v.judge.config.maxAttempts) (hw : 1 ≤ v.workers)
    (hsequential : v.workers = 1 ∨ p.findings.length ≤ 1) (hfree : p.Unhindered)
    (honly : p.scene.service.Only Judge.Turn.Textual) (hfinished : ∃ m, p.judged.2.moment = .ok m) :
    p.Reports ↔ ∀ i (hi : i < p.findings.length), v.judge.Bears p.findings[i] source.text (p.before i) := by
  have hfree' := (Prelude.unhindered_iff hsequential).1 hfree
  have hnc : ∀ i (hi : i < p.findings.length),
      Judge.NeverCancelled v.judge p.findings[i] source.text (some p.token) (p.before i) :=
    fun i hi => Judge.neverCancelled_of_unhindered hn hfree' hi
  have hjudge := fun i (hi : i < p.findings.length) => Judge.judge_settles_iff hn (hnc i hi) fun j _ =>
    (Judge.only_after_judgeOne hn (fun _ h => h) hfree' honly (Nat.le_of_lt hi)).answer
      (.about v.judge.config p.findings[i] source.text) j
  have hgathered := p.judged_gathered hsequential fun i hi => Run.heed_eq_of_fst (hnc i hi _ _ .start)
  rcases hjudged : p.judged.1 with e | os
  · rw [hjudged] at hgathered
    obtain ⟨os, -, -, hlt, he⟩ := hgathered
    have hnot : ¬v.judge.Bears p.findings[os.length] source.text (p.before os.length) := by
      intro hbears
      obtain ⟨o, ho, -⟩ := Judge.outcomeOf_of_settles p.findings[os.length] ((hjudge _ hlt).1.2 hbears)
      simp [ho] at he
    refine iff_of_false (Prelude.not_reports_of_judged hjudged fun cause hcause => ?_) fun h => hnot (h _ hlt)
    rcases (hjudge _ hlt).2 hnot with hlong | ⟨excess, hexcess⟩
    · simp [hlong, Judge.outcomeOf, hcause] at he
    · simp [hexcess, Judge.outcomeOf, hcause] at he
  · rw [hjudged] at hgathered
    obtain ⟨hlength, hall⟩ := hgathered
    refine iff_of_true ?_ fun i hi => ?_
    · rcases Judge.judgeAll_ends hw hn (fun _ h => h) hfree honly with
        ⟨os, hos, hfindings⟩ | ⟨hlong, -⟩ | ⟨e, he, -⟩
      · exact p.reports_of_judged hshallow hos hfindings hfinished
      · exact absurd (hjudged.symm.trans hlong) (by simp)
      · exact absurd (hjudged.symm.trans he) (by simp)
    · by_contra hnot
      obtain ⟨_, ho⟩ := hall i os[i] (List.getElem?_eq_getElem (hlength.symm ▸ hi))
      rcases (hjudge i hi).2 hnot with hlong | ⟨excess, hexcess⟩
      · simp [hlong, Judge.outcomeOf] at ho
      · simp [hexcess, Judge.outcomeOf] at ho

/-! ### What answers can do -/

/-- What the answers of a service can do, if contents are texts and nothing is cancelled.
* Judging a finding comes to a judgment or to a failure of judging just if the client can bear the answers that it comes
  to see; otherwise it fails for a wait that is too long or for an answer beyond the limits.
* A run that comes to judging has one outcome for every finding, in their order, or it ends in one of these two
  failures, however many workers there are. If one finding is judged after the other, the run has them just if the
  client can bear the answers to each; and it has them if no answer of the service goes beyond the limits and no wait is
  too long.
The clock has to show an instant when the last finding is done, and the slot must not be too deep to be released. -/
theorem answers_survived :
    (∀ (c : Judge.Client σ) (f : Finding) (code : String) (token : Option TokenId) (s : Scene σ),
      1 ≤ c.config.maxAttempts → Judge.NeverCancelled c f code token s →
      (∀ i < c.config.maxAttempts, (s.service.answer (.about c.config f code) i).Textual) →
      (Judge.Settles (Judge.judge c f code token s).1 ↔ c.Bears f code s) ∧
        (¬c.Bears f code s → (Judge.judge c f code token s).1 = .error .tooLarge ∨
          ∃ e, (Judge.judge c f code token s).1 = .error (.excess e))) ∧
    ∀ (v : Verifier σ) (source : Source) (given : Option TokenId) (runId : Option String) (s : Scene σ)
      (p : Prelude v source given runId s), ¬p.TooDeep → 1 ≤ v.judge.config.maxAttempts → 1 ≤ v.workers → p.Unhindered →
      p.scene.service.Only Judge.Turn.Textual → (∃ m, p.judged.2.moment = .ok m) →
      (p.Reports ∨ (∃ t, v.verify source given runId s = (.error .tooLarge, t)) ∨
        ∃ e t, v.verify source given runId s = (.error (.excess e), t)) ∧
      (v.workers = 1 ∨ p.findings.length ≤ 1 →
        (p.Reports ↔ ∀ i (hi : i < p.findings.length), v.judge.Bears p.findings[i] source.text (p.before i))) ∧
      (p.scene.service.Only (Judge.Turn.Regular v.judge.levels) →
        (∀ a, 1 ≤ a → a < v.judge.config.maxAttempts → v.judge.Reckons a) → p.Reports) :=
  ⟨fun _ _ _ _ _ hn hnc htextual => Judge.judge_settles_iff hn hnc htextual,
    fun _ _ _ _ _ _ hshallow hn hw hfree honly hfinished => ⟨Prelude.ends hshallow hn hw hfree honly hfinished,
      fun hsequential => Prelude.reports_iff hshallow hn hw hsequential hfree honly hfinished,
      fun hregular hreckons => Prelude.reports_of_regular hshallow hn hw hfree hregular hreckons hfinished⟩⟩

/-- Whether there is the token of a run and nothing cancels it. -/
def Prelude.idles (p : Prelude v source given runId s) : Bool :=
  (p.scene.timeline.tokens[p.token]?).isSome && decide (p.scene.timeline.Calm p.token)

theorem Prelude.idle_of_idles {p : Prelude v source given runId s} (h : p.idles = true) : Judge.Idle p.token p.scene := by
  simp only [idles, Bool.and_eq_true, decide_eq_true_eq] at h
  obtain ⟨token, htoken⟩ := Option.isSome_iff_exists.1 h.1
  exact ⟨(List.getElem?_eq_some_iff.1 htoken).1, h.2⟩

theorem idles_scanner :
    ((scanner.prelude? ⟨[], "a.sol"⟩ (some 0) (some "1") scannerScene).any fun p => p.idles) = true := by
  decide +kernel

theorem idles_scannerPrelude : scannerPrelude.idles = true := ((Option.any_eq_true_iff_get _ _).1 idles_scanner).snd

/-- The service answers plainly. -/
theorem only_busyService : busyService.Only fun turn => turn.isPlain Json.usualLevels = true ∧ turn.cancels = false :=
  Judge.Service.only_ofScripts (by decide +kernel) (by decide +kernel) (by decide +kernel)

theorem Prelude.finished_of_settled (hsequential : v.workers = 1 ∨ p.findings.length ≤ 1) (h : p.settled = true) :
    ∃ m, p.judged.2.moment = .ok m := by
  obtain ⟨hheed, hsettles, hfinished⟩ := p.settled_iff.1 h
  obtain ⟨outcomes, hjudged, -⟩ := p.judged_of_settles hsequential hheed hsettles
  rw [hjudged]
  exact hfinished

theorem finished_scannerPrelude : ∃ m, scannerPrelude.judged.2.moment = .ok m :=
  scannerPrelude.finished_of_settled (.inl rfl) settled_scannerPrelude.2

theorem unhindered_scannerPrelude : scannerPrelude.Unhindered :=
  (Prelude.unhindered_iff (.inl rfl)).2 (Judge.unhindered_of_idle (Nat.le_refl 1) (Prelude.idle_of_idles idles_scannerPrelude)
    ((scannerPrelude.onward_scene.only only_busyService).mono fun _ h => h.2)
    (fun _ _ _ _ _ _ h1 hlt _ => absurd h1 (Nat.not_le.2 hlt)) _)

/-- The scanned source gets an outcome for each of its findings; a finding that the service takes for real is settled. -/
theorem answers_survived_scanner :
    (¬scannerPrelude.TooDeep ∧ 1 ≤ scanner.judge.config.maxAttempts ∧ 1 ≤ scanner.workers ∧ scannerPrelude.Unhindered ∧
      scannerPrelude.scene.service.Only Judge.Turn.Textual ∧
      (∃ m, scannerPrelude.judged.2.moment = .ok m) ∧ scannerPrelude.Reports) ∧
    Judge.NeverCancelled scanner.judge (.ofCheck "b") "" none scannerScene ∧
      (∀ i < scanner.judge.config.maxAttempts,
        (scannerScene.service.answer (.about scanner.judge.config (.ofCheck "b") "") i).Textual) ∧
      Judge.Settles (Judge.judge scanner.judge (.ofCheck "b") "" none scannerScene).1 := by
  have honly : scannerScene.service.Only (Judge.Turn.Regular Json.usualLevels) :=
    only_busyService.mono fun _ h => Judge.Turn.regular_of_isPlain h.1
  have hregular : scannerPrelude.scene.service.Only (Judge.Turn.Regular Json.usualLevels) :=
    scannerPrelude.onward_scene.only honly
  have htextual := hregular.mono fun _ h => h.toTextual
  have hnc := Judge.neverCancelled_none scanner.judge (.ofCheck "b") "" scannerScene
  have hanswers : ∀ i < scanner.judge.config.maxAttempts,
      (scannerScene.service.answer (.about scanner.judge.config (.ofCheck "b") "") i).Textual :=
      fun i _ => (honly.answer _ i).toTextual
  have hbears : scanner.judge.Bears (.ofCheck "b") "" scannerScene := fun i hi _ =>
    ⟨(honly.answer _ i).limits, fun _ hmore => absurd hmore (Nat.not_lt_of_ge (Nat.le_add_left 1 i))⟩
  have hiff := ((answers_survived (σ := Int)).1 scanner.judge (.ofCheck "b") "" none scannerScene (Nat.le_refl 1) hnc
    hanswers).1
  have hrun := ((answers_survived (σ := Int)).2 _ _ _ _ _ scannerPrelude shallow_scannerPrelude (Nat.le_refl 1) (Nat.le_refl 1)
    unhindered_scannerPrelude htextual finished_scannerPrelude).2.2 hregular
  refine ⟨⟨shallow_scannerPrelude, Nat.le_refl 1, Nat.le_refl 1, unhindered_scannerPrelude, htextual,
    finished_scannerPrelude, ?_⟩, hnc,
    hanswers, ?_⟩
  · exact hrun fun _ h1 hlt => absurd h1 (Nat.not_le.2 hlt)
  · rw [hiff]
    exact hbears

/-- An integer of so many ones. -/
def ones (n : Nat) : String := String.ofList (List.replicate n '1')

def onesService (n : Nat) : Judge.Service Float := .ofScripts 0.0 [] [⟨0.0, false, none, .choices [some (ones n)]⟩]

theorem exceeds_onesService {n levels : Nat} {request : Judge.Request} (h : Decimal.digitLimit < n) :
    ((onesService n).answer request 0).Exceeds levels (.digits n) := by
  refine ⟨.text (ones n), rfl, ?_⟩
  rw [ones]
  exact Json.readWide_ones h levels

theorem judge_of_ones {n : Nat} (h : Decimal.digitLimit < n) :
    (Judge.judge (.ofAttempts 1 1.0) (.ofCheck "a") "" none (Scene.ofService (onesService n) .nothing)).1 =
      .error (.excess (.digits n)) := by
  have hnc := Judge.neverCancelled_none (.ofAttempts 1 1.0) (.ofCheck "a") "" (Scene.ofService (onesService n) .nothing)
  obtain ⟨t, hjudge, -⟩ := Judge.judge_of_stop (m := 0) hnc (Nat.lt_succ_self 0)
    (fun i hi => absurd hi (Nat.not_lt_zero i)) (fun i hi => absurd hi (Nat.not_lt_zero i))
    ((exceeds_onesService h).yield rfl) (Judge.Client.next_of_not_fault rfl 1)
  rw [hjudge]
  rfl

/-- A text that is an integer of too many digits brings neither a judgment nor a failure of judging. -/
theorem judge_onesService :
    (1 ≤ (Judge.Client.ofAttempts 1 (1.0 : Float)).config.maxAttempts ∧
      Judge.NeverCancelled (.ofAttempts 1 1.0) (.ofCheck "a") "" none (Scene.ofService (onesService 4301) .nothing) ∧
      ∀ request, ∀ i < 1, ((onesService 4301).answer request i).Textual) ∧
    (Judge.judge (.ofAttempts 1 1.0) (.ofCheck "a") "" none (Scene.ofService (onesService 4301) .nothing)).1 =
      .error (.excess (.digits 4301)) := by
  refine ⟨⟨Nat.le_refl 1, Judge.neverCancelled_none _ _ _ _, fun request i hi => ?_⟩, judge_of_ones (by decide)⟩
  obtain rfl := Nat.lt_one_iff.1 hi
  have hreply : ((onesService 4301).answer request 0).reply.content = .ok (.ofWide (.text (ones 4301))) := rfl
  exact Judge.Turn.textual_of_content rfl hreply

end Verifier
end Adjudication
