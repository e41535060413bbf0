import Adjudication.Proofs.Judge.Limits
import Adjudication.Proofs.Judge.Prompt

/-!
The order of judging. If what each finding comes to is the same in every order, a pool comes to what judging one
finding after the other comes to: the outcomes in the order of the findings, or the failure of the first finding that
is not settled. A service that answers by the check alone is asked in any order with the same result.
-/

namespace Adjudication.Judge

open Time (TokenId)

variable {σ : Type} [Time.Seconds σ] {c : Client σ} {code : String} {token : TokenId} {s : Scene σ}
  {fs : List Finding} {res : Finding → Except Failure Judgment}

/-- What the findings come to does not depend on the order in which the phases of judging them come: in every order
each finding that comes to something comes to what is given for it, be it judged on the token itself or on one
below. -/
structure InAnyOrder (c : Client σ) (code : String) (token : TokenId) (fs : List Finding) (s : Scene σ)
    (res : Finding → Except Failure Judgment) : Prop where
  itself : (poolWork c code token).Determined (fs.map Task.ofFinding) s (fs.map fun f => outcomeOf f (res f))
  below : (poolWork c code s.timeline.tokens.length).Determined (fs.map Task.ofFinding) (s.withChild token)
    (fs.map fun f => outcomeOf f (res f))

/-- If what is answered to the request about a finding does not depend on what else is asked, each finding comes in any
order to what it comes to by itself. -/
theorem inAnyOrder_of_steady (hst : Steady c code fs s) (hcalm : s.timeline.Calm token) (hforest : s.timeline.Forest)
    (htoken : (token : Nat) < s.timeline.tokens.length)
    (hscheduled : ∀ e ∈ s.timeline.scheduled, e.2 < s.timeline.tokens.length) :
    InAnyOrder c code token fs s fun f => (judge c f code (some token) s).1 := by
  have hitself : Quiet s token s := ⟨rfl, rfl, htoken, hcalm⟩
  have hbelow : Quiet s s.timeline.tokens.length (s.withChild token) :=
    ⟨rfl, rfl, by simp [Scene.withChild, Time.Timeline.addToken], hcalm.child hforest htoken hscheduled⟩
  exact ⟨determined_of_steady hst hitself hitself rfl, determined_of_steady hst hitself hbelow rfl⟩

/-- Any number of workers comes to what the findings come to in any order, whatever the schedule of the scene. -/
theorem judgeAll_of_inAnyOrder {workers : Nat} (hw : 1 ≤ workers) (h : InAnyOrder c code token fs s res) :
    (judgeAll c workers code token fs s).1 = fs.mapM fun f => outcomeOf f (res f) := by
  have hdetermined : (poolWork c code (scope workers token fs s).1).Determined (fs.map Task.ofFinding)
      (scope workers token fs s).2 (fs.map fun f => outcomeOf f (res f)) := by
    rw [scope]
    split
    · exact h.itself
    · exact h.below
  have hgathered := judgeAll_gathered hw hdetermined
  have hlength : fs.length = (fs.map fun f => outcomeOf f (res f)).length := by simp
  rw [hlength] at hgathered
  rw [hgathered.eq_mapM, List.mapM_map]
  rfl

/-- Judging side by side refines judging one after the other. If what each finding comes to depends on that finding
only, several workers come to what one comes to, whatever the order in which the schedule of the scene lets them take
findings and go on with them: to the outcomes in the order of the findings if each is settled, and to the failure of
the first finding whose judging comes to another failure than one of judging. -/
theorem judgeAll_eq_judgeAll_one {workers : Nat} (hw : 2 ≤ workers) (h : InAnyOrder c code token fs s res) :
    (judgeAll c workers code token fs s).1 = (judgeAll c 1 code token fs s).1 ∧
      ((∀ f ∈ fs, Settles (res f)) → ∃ os, (judgeAll c workers code token fs s).1 = .ok os ∧
        List.Forall₂ (fun f o => Outcome.Tells o f (res f)) fs os) ∧
      ∀ (i : Nat) (hi : i < fs.length) (e : Failure), (∀ j (hj : j < i), Settles (res fs[j])) →
        res fs[i] = .error e → (∀ failure, e ≠ .judging failure) →
        (judgeAll c workers code token fs s).1 = .error e := by
  have hside := judgeAll_of_inAnyOrder (Nat.le_of_succ_le hw) h
  have hone := judgeAll_of_inAnyOrder (Nat.le_refl 1) h
  refine ⟨hside.trans hone.symm, fun hsettles => ?_, fun i hi e hbefore hres he => ?_⟩
  · rw [hside]
    exact mapM_outcomeOf_of_settles hsettles
  · rw [hside]
    exact mapM_outcomeOf_of_error he hi hbefore hres

/-- A finding of check "a" with a description. -/
def described (description : String) : Finding := { Finding.ofCheck "a" with description := .text description }

/-- Two findings of one check and one of another. -/
def moodyFindings : List Finding := [described "first", described "second", .ofCheck "b"]

/-- A client with two attempts and 70 milliseconds between them. -/
def moodyClient : Client Int := .ofAttempts 2 70000

/-- The requests about the findings. -/
def moodyRequest (i : Nat) : Request :=
  .about moodyClient.config (moodyFindings.getD i (.ofCheck "")) ""

/-- A service that is busy when it is first asked about the first of them, breaks down on the second, and takes all others
for real. -/
def moodyService : Service Int where
  respond before request :=
    if request = moodyRequest 0 ∧ before.count request = 0 then ⟨0, false, none, .refused "busy"⟩
    else if request = moodyRequest 1 then ⟨0, false, some "down", .choices []⟩
    else Service.standard 0
  asked := []

def moodyScene : Scene Int := { Scene.ofService moodyService .nothing with schedule := [0, 2, 1, 1, 2, 2], patience := 9 }

omit [Time.Seconds σ] in
/-- Findings with the same request have the same description. -/
theorem description_eq_of_about_eq {config : JudgeConfig σ} {f g : Finding} (hf : ∀ l ∈ f.locations, l.Fits)
    (hfwhole : (Json.obj f.judgePayload).isWhole = true) (hg : ∀ l ∈ g.locations, l.Fits)
    (hgwhole : (Json.obj g.judgePayload).isWhole = true) (h : Request.about config f code = .about config g code) :
    f.description = g.description := by
  have hmessages : messages f.judgePayload (.text code) = messages g.judgePayload (.text code) :=
    congrArg Request.messages h
  have hquestion : question f.judgePayload (.text code) = question g.judgePayload (.text code) := by
    simpa [messages] using hmessages
  have hlegible : Json.Legible 3 (.obj f.judgePayload) := Finding.legible_judgePayload hf
  have hother : Json.Legible 3 (.obj g.judgePayload) := Finding.legible_judgePayload hg
  have halike := ((question_eq_iff hlegible hfwhole hother hgwhole _ _).1 hquestion).1
  cases halike with
  | obj _ _ _ hvalues =>
    have hdescription := hvalues "description" (.ofWide f.description) (.ofWide g.description)
      (by simp [Finding.judgePayload]) (by simp [Finding.judgePayload])
    generalize f.description = a, g.description = b at hdescription
    cases a <;> cases b <;> cases hdescription <;> rfl

theorem moodyRequest_ne : ∀ i < 3, ∀ j < i, moodyRequest j ≠ moodyRequest i := by
  have hfits : ∀ i < 3, ∀ l ∈ (moodyFindings.getD i (.ofCheck "")).locations, l.Fits
    | 0, _ | 1, _ | 2, _ => List.forall_mem_nil _
  have hwhole : ∀ i < 3, (Json.obj (moodyFindings.getD i (.ofCheck "")).judgePayload).isWhole = true := by decide
  have hdescription : ∀ i < 3, ∀ j < i, (moodyFindings.getD j (.ofCheck "")).description ≠
      (moodyFindings.getD i (.ofCheck "")).description := by decide +kernel
  exact fun i hi j hj h => hdescription i hi j hj
    (description_eq_of_about_eq (hfits j (Nat.lt_trans hj hi)) (hwhole j (Nat.lt_trans hj hi)) (hfits i hi) (hwhole i hi) h)

theorem steady_moodyService : Steady moodyClient "" moodyFindings moodyScene where
  counts f _ before other hcount := by
    show moodyService.respond before _ = moodyService.respond other _
    simp only [moodyService, hcount]
  apart := by
    have hne := moodyRequest_ne
    refine .cons (fun g hg h => ?_) (.cons (fun g hg h => ?_) (List.pairwise_singleton _ _))
    · rcases List.mem_pair.1 hg with rfl | rfl
      · exact absurd h (hne 1 (by decide) 0 (by decide))
      · exact absurd h (hne 2 (by decide) 0 (by decide))
    · obtain rfl := List.mem_singleton.1 hg
      exact absurd h (hne 2 (by decide) 1 (by decide))
  cancels f _ before := by
    show (moodyService.respond before _).cancels = false
    simp only [moodyService]
    split
    · rfl
    · split <;> rfl
  waits := by
    refine waits_of_patience Time.exact_int fun a d h1 hlt hd => ?_
    obtain rfl : a = 1 := Nat.le_antisymm (Nat.le_of_lt_succ hlt) h1
    obtain rfl : (70000 : Int) = d := Option.some.inj hd
    norm_num [Time.ofMicroseconds, moodyScene]

theorem inAnyOrder_moodyService : InAnyOrder moodyClient "" 0 moodyFindings moodyScene
    fun f => (judge moodyClient f "" (some 0) moodyScene).1 :=
  inAnyOrder_of_steady steady_moodyService (Scene.calm_ofService moodyService .nothing)
    (Scene.forest_ofService moodyService .nothing) (Nat.succ_pos 0) fun _ he => absurd he List.not_mem_nil

/-- The first of them is taken for real at the second attempt, and the service breaks down on the second. -/
theorem judge_moodyService :
    (judge moodyClient (described "first") "" (some 0) moodyScene).1 =
        .ok ⟨true, none, "", "\x7b\"is_real_vulnerability\": true\x7d"⟩ ∧
      (judge moodyClient (described "second") "" (some 0) moodyScene).1 = .error (.crash "down") := by
  have hcancels : moodyScene.service.Only fun turn => turn.cancels = false := fun before request => by
    show (moodyService.respond before request).cancels = false
    simp only [moodyService]
    split
    · rfl
    · split <;> rfl
  have hidle : Idle 0 moodyScene := ⟨Nat.succ_pos 0, Scene.calm_ofService moodyService .nothing⟩
  have hnc := fun f => neverCancelled_of_idle (c := moodyClient) (by decide) hidle hcancels steady_moodyService.waits f ""
  have hbusy : moodyService.answer (moodyRequest 0) 0 = ⟨0, false, none, .refused "busy"⟩ := by
    simp [Service.answer_eq, moodyService]
  have hreal : moodyService.answer (moodyRequest 0) 1 = Service.standard 0 := by
    simp [Service.answer_eq, moodyService, moodyRequest_ne 1 (by decide) 0 (by decide)]
  have hdown : moodyService.answer (moodyRequest 1) 0 = ⟨0, false, some "down", .choices []⟩ := by
    simp [Service.answer_eq, moodyService, (moodyRequest_ne 1 (by decide) 0 (by decide)).symm]
  have hyield : (moodyService.answer (moodyRequest 0) 1).yield Json.usualLevels =
      .ok (.text "\x7b\"is_real_vulnerability\": true\x7d",
      [(.text "is_real_vulnerability", .bool true)]) := by
    rw [hreal]
    exact Turn.Brings.yield ⟨rfl, rfl, read_real⟩
  constructor
  · obtain ⟨t, ht, -⟩ := judge_of_object (m := 1) (hnc (described "first")) (by decide)
      (fun i hi => by
        obtain rfl := Nat.lt_one_iff.1 hi
        exact ⟨.transport (.request "busy"), (congrArg (Turn.yield Json.usualLevels) hbusy).trans rfl⟩)
      (fun _ _ => rfl) hyield
    exact congrArg Prod.fst ht
  · obtain ⟨t, ht, -⟩ := judge_of_stop (m := 0) (hnc (described "second")) (by decide)
      (fun i hi => absurd hi (Nat.not_lt_zero i)) (fun i hi => absurd hi (Nat.not_lt_zero i))
      ((congrArg (Turn.yield Json.usualLevels) hdown).trans rfl) (Client.next_of_not_fault rfl 1)
    exact congrArg Prod.fst ht

/-- Two workers on these findings come to the breakdown on the second of them, although the first one, of the same check, is
taken for real. -/
theorem judgeAll_moodyService :
    2 ≤ 2 ∧ InAnyOrder moodyClient "" 0 moodyFindings moodyScene
        (fun f => (judge moodyClient f "" (some 0) moodyScene).1) ∧
      (judgeAll moodyClient 2 "" 0 moodyFindings moodyScene).1 =
        (judgeAll moodyClient 1 "" 0 moodyFindings moodyScene).1 ∧
      (judgeAll moodyClient 2 "" 0 moodyFindings moodyScene).1 = .error (.crash "down") ∧
      (judge moodyClient (described "first") "" (some 0) moodyScene).1 =
        .ok ⟨true, none, "", "\x7b\"is_real_vulnerability\": true\x7d"⟩ := by
  obtain ⟨hreal, hdown⟩ := judge_moodyService
  have h := judgeAll_eq_judgeAll_one (Nat.le_refl 2) inAnyOrder_moodyService
  refine ⟨Nat.le_refl 2, inAnyOrder_moodyService, h.1, h.2.2 1 (by decide) (.crash "down") ?_ hdown nofun, hreal⟩
  intro i hi
  obtain rfl : i = 0 := Nat.lt_one_iff.1 hi
  show Settles (judge moodyClient (described "first") "" (some 0) moodyScene).1
  rw [hreal]
  trivial

end Adjudication.Judge
