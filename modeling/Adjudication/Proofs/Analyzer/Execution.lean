import Adjudication.Proofs.Files.Tree
import Adjudication.Proofs.Judge.Sound
import Adjudication.Proofs.Onward

/-!
What running the analyzer does, however it ends. Whatever the process does to the files, paths start from where they have
started; no request is made, and the clock goes forward. A process that is killed ends the run with the failure that it is
killed for, unless what it has put out is no text. A document comes with the code that the process ends with, and a failure
is none of staging.
-/

namespace Adjudication

/-- Paths start from the same place. -/
def Files.Tree.SameStart (t u : Tree) : Prop := u.here = t.here

instance : IsPreorder Files.Tree Files.Tree.SameStart where
  refl _ := rfl
  trans _ _ _ h h' := Eq.trans h' h

def Event.isRequest {σ : Type} : Event σ → Bool
  | .requested _ _ _ => true
  | _ => false

namespace Analyzer

open Act (Respects Throws)
open Files (Tree)
open Files.Tree (SameStart)
open Time (TokenId Timeline)
open Time.Seconds (Ordered add sub le lt lesser tick zero)

variable {σ : Type}

/-! ### The process -/

namespace Course

variable {t : Tree}

theorem sameStart_attempt {r : Except Files.Fault Tree} (h : ∀ u, r = .ok u → SameStart t u) :
    SameStart t (attempt t r) := by
  cases r with
  | ok u => exact h u rfl
  | error e => exact rfl

theorem sameStart_write (path : Files.Path) (content : Files.Bytes) : SameStart t (attempt t (t.write path content)) :=
  sameStart_attempt fun _ h => (Tree.keeps_write h).here

theorem sameStart_pave : ∀ {names : List String} {place : Files.Place} {t u : Tree}, t.pave place names = some u →
    SameStart t u
  | [], _, _, _, h => congrArg Tree.here (Option.some.inj h).symm
  | name :: rest, place, t, u, h => by
    rw [Tree.pave] at h
    split at h
    · exact sameStart_pave h
    · split at h
      · cases h
      · split at h
        · exact sameStart_pave h
        · cases h
        · exact IsTrans.trans _ (t.put (place ++ [name]) .directory) _ rfl (sameStart_pave h)

theorem sameStart_writeFile (t : Tree) (path : Files.Path) (content : Files.Bytes) :
    SameStart t (writeFile t path content) := by
  refine IsTrans.trans _ ((t.paved path.parent).getD t) _ ?_ (sameStart_write path content)
  cases hpaved : t.paved path.parent with
  | none => exact rfl
  | some u =>
    rw [Tree.paved] at hpaved
    split at hpaved
    · cases hpaved
    · exact sameStart_pave hpaved

theorem sameStart_deleteFiles (t : Tree) (directory : Files.Path) : SameStart t (deleteFiles t directory) := by
  rw [deleteFiles]
  split <;> exact rfl

theorem sameStart_writeOutput (output : Output) (target : Option Files.Path) (t : Tree) :
    SameStart t (writeOutput output target t) := by
  cases target with
  | none => exact rfl
  | some path =>
    cases output with
    | nothing => exact rfl
    | file content => exact sameStart_write path content
    | directory =>
      exact IsTrans.trans _ _ _ (sameStart_attempt fun _ h => (Tree.keeps_makeDirectory h).here) (sameStart_write _ [])

theorem sameStart_foldl {α : Type} {f : Tree → α → Tree} (h : ∀ t a, SameStart t (f t a)) :
    ∀ (entries : List α) (t : Tree), SameStart t (entries.foldl f t)
  | [], _ => rfl
  | entry :: entries, t => IsTrans.trans _ _ _ (h t entry) (sameStart_foldl h entries _)

/-- Whatever a process does to the files, paths start from where they have started. -/
theorem sameStart_finish (c : Course σ) (argv : List String) (directory : Files.Path) (t : Tree) :
    SameStart t (c.finish argv directory t) := by
  have hdisturbed : ∀ t, SameStart t (c.disturbed t) := fun _ => rfl
  have hwritten : ∀ t (entry : String × String),
      SameStart t (writeFile t (directory.child entry.1) (Text.Utf8.encode entry.2)) := fun t _ =>
    sameStart_writeFile t _ _
  rw [finish]
  dsimp only
  refine IsTrans.trans _ _ _ ?_ (IsTrans.trans _ _ _ (sameStart_writeOutput _ _ _) (hdisturbed _))
  split
  · exact IsTrans.trans _ _ _ (sameStart_foldl hwritten c.files t) (sameStart_deleteFiles _ directory)
  · exact sameStart_foldl hwritten c.files t

end Course

/-! ### Launching and killing it -/

/-- Why a process that has been asked for is not there. -/
def launchFailure? (argv : List String) (directory : Files.Path) (c : Course σ) : Option Failure :=
  match launchFault? argv directory, c.launchError with
  | some fault, _ => some (.launch fault)
  | none, some (number, text) =>
    some (.analyzer (.notLaunched (argv.headD "") (Files.refusalText number text (Text.quote (argv.headD "")))))
  | none, none => none

/-- A process is asked for in any case. -/
theorem launch_run (argv : List String) (directory : Files.Path) (s : Scene σ) :
    launch argv directory s = (match launchFailure? argv directory s.course with
      | some e => .error e
      | none => .ok (), { s with trace := s.trace ++ [.launched argv directory.text s.timeline.now] }) := by
  rw [launch, Act.bind_of_ok (Run.now_run s), Act.bind_of_ok (Run.record_run _ s), Act.bind_of_ok (Act.get_run _),
    launchFailure?]
  dsimp only
  cases launchFault? argv directory with
  | some fault => rfl
  | none => cases s.course.launchError <;> rfl

theorem snd_launch (argv : List String) (directory : Files.Path) (s : Scene σ) :
    (launch argv directory s).2 = { s with trace := s.trace ++ [.launched argv directory.text s.timeline.now] } :=
  congrArg Prod.snd (launch_run argv directory s)

variable [Time.Seconds σ]

/-- What a run fails with that has killed its process for a failure. -/
def Course.afterKill (c : Course σ) (e : Failure) : Failure :=
  match c.cutOff with
  | some fault => .undecodable fault
  | none => e

/-- The clock when the streams of a killed process have been closed. -/
def Course.drained (c : Course σ) (timeline : Timeline σ) : Timeline σ :=
  match c.lingers with
  | some seconds => timeline.advance seconds
  | none => timeline

/-- The scene in which the process has been killed and its streams have been closed. -/
def killed (s : Scene σ) : Scene σ :=
  { s with
    timeline := s.course.drained s.timeline
    files := s.course.disturbed s.files
    trace := s.trace ++ [.killed] }

theorem kill_run (e : Failure) (s : Scene σ) : kill e s = (.error (s.course.afterKill e), killed s) := by
  have hget : kill e s = (do
      match s.course.lingers with
      | some seconds => Run.advance seconds
      | none => pure ()
      match s.course.cutOff with
      | some fault => throw (.undecodable fault)
      | none => throw e : Run σ Unit)
        { s with files := s.course.disturbed s.files, trace := s.trace ++ [.killed] } := rfl
  rw [hget, killed, Course.afterKill, Course.drained]
  cases s.course.lingers <;> cases s.course.cutOff <;> rfl

theorem throws_kill {P : Failure → Prop} {e : Failure} (hundecodable : ∀ fault, P (.undecodable fault)) (h : P e) :
    Throws P (kill e : Run σ Unit) := by
  intro s cause hcause
  rw [kill_run] at hcause
  obtain rfl := Except.error.inj hcause
  rw [Course.afterKill]
  split
  · exact hundecodable _
  · exact h

/-! ### Running it -/

variable {R : Scene σ → Scene σ → Prop} {premise : Prop} {allowed : Event σ → Prop}
  {token : Option TokenId}

/-- The parts that waiting for the process is made of respect a relation. For the clock to be moved on it may be needed that
the process takes no less than no time, which is so where the premise holds. -/
structure Parts (R : Scene σ → Scene σ → Prop) (premise : Prop) (token : Option TokenId) : Prop where
  kill : ∀ e, Respects R (kill e : Run σ Unit)
  calledOff : Respects R (isCalledOff token : Run σ Bool)
  advance : ∀ seconds, (Ordered σ → premise → le zero seconds = true) → Respects R (Run.advance seconds)

section Frame

variable [IsPreorder (Scene σ) R]

/-- Waiting for the process respects what its parts respect, as long as what is left of it is no less than nothing. -/
theorem Parts.await (h : Parts R premise token) (timeout deadline : σ) : ∀ (patience : Nat) {left : σ},
    (Ordered σ → premise → le zero left = true) → Respects R (await timeout deadline token patience left)
  | 0, _, _ => Act.respects_throw _
  | patience + 1, left, hleft => by
    rw [Analyzer.await]
    refine Run.respects_now.bind fun now => ?_
    dsimp only
    split
    next => exact h.kill _
    next hremaining =>
      refine h.calledOff.bind fun calledOff => ?_
      split
      next => exact h.kill _
      next =>
        split
        next hslice =>
          refine (h.advance _ fun ho _ => ?_).bind fun _ => ?_
          · exact ho.lesser_nonneg (ho.ratio_nonneg 1 10) (ho.le_of_not_le hremaining)
          · exact h.await timeout deadline patience fun ho _ => ho.sub_nonneg (ho.le_of_lt hslice)
        next => exact h.advance _ hleft

omit [Time.Seconds σ] [IsPreorder (Scene σ) R] in
theorem respects_launch (hlaunched : ∀ argv directory instant, Respects R (Run.record (.launched argv directory instant)))
    (argv : List String) (directory : Files.Path) : Respects R (launch argv directory : Run σ Unit) := by
  intro s
  rw [launch_run]
  exact hlaunched argv directory.text s.timeline.now s

omit [Time.Seconds σ] in
theorem respects_start (hlaunched : ∀ argv directory instant, Respects R (Run.record (.launched argv directory instant)))
    (hlogged : ∀ level message, Respects R (Run.log level message)) (command : List String) (source output : Files.Path) :
    Respects R (start command source output : Run σ (List String)) :=
  (Run.respects_ofExcept _ _).bind fun argv => (hlogged _ _).bind fun _ =>
    (respects_launch hlaunched argv source.parent).bind fun _ => Act.respects_pure argv

/-- A run of the analyzer respects what its start, waiting for its process, and a change of the files respect. -/
theorem rel_run {command : List String} {timeout : σ} {source output : Files.Path} {s : Scene σ}
    (hstart : R s (start command source output s).2)
    (hawait : ∀ u : Scene σ, R u (await timeout (add u.timeline.now timeout) token u.patience u.course.takes u).2)
    (hfiles : ∀ (u : Scene σ) files, SameStart u.files files → R u { u with files }) :
    R s (run command timeout source output token s).2 := by
  refine Act.rel_bind hstart fun argv => Act.respects_get_bind fun u => Act.rel_bind (hawait u) fun _ =>
    Respects.bind (fun v => ?_) fun _ => Act.respects_get_bind fun w => Run.respects_ofExcept _ _ w
  exact hfiles v _ (Course.sameStart_finish _ _ _ _)

end Frame

theorem parts_onward (premise : Prop) (allowed : Event σ → Prop) (h : allowed .killed) (token : Option TokenId) :
    Parts (Scene.Onward premise SameStart allowed) premise token where
  kill e s := by
    rw [kill_run]
    refine ⟨rfl, rfl, rfl, rfl, ⟨[.killed], rfl, fun _ he => List.mem_singleton.1 he ▸ h⟩, fun ho _ hs => ?_⟩
    show le s.timeline.now (s.course.drained s.timeline).now = true
    rw [Course.drained]
    split
    next seconds hlingers => exact Timeline.le_now_advance ho s.timeline (hs.course.lingers seconds hlingers)
    next => exact ho.le_refl _
  calledOff := by
    cases token with
    | none => exact Act.respects_pure false
    | some id => exact Run.respects_isCancelled id
  advance _ hseconds := Run.respects_advance hseconds

/-- A run of the analyzer starts its process, may kill it, and tells lines of the log; nothing else is done, and the clock goes
forward. -/
theorem onward_run (hlaunched : ∀ argv directory instant, allowed (.launched argv directory instant)) (hkilled : allowed .killed)
    (hlogged : ∀ level message, allowed (.logged level message)) (command : List String) (timeout : σ)
    (source output : Files.Path) (token : Option TokenId) :
    Respects (Scene.Onward True SameStart allowed) (run command timeout source output token) := by
  refine fun s => rel_run (respects_start (fun _ _ _ => Run.respects_record (hlaunched _ _ _)) (Run.respects_log hlogged)
    command source output s) (fun u => ?_) fun _ _ => Scene.onward_files
  have hparts := parts_onward (le zero u.course.takes = true) allowed hkilled token
  have hawait := hparts.await timeout (add u.timeline.now timeout) u.patience (fun _ h => h) u
  exact hawait.mono (fun _ _ hu => hu.course.takes) id fun _ h => h

/-- A run of the analyzer makes no request, and the clock goes forward. -/
theorem respects_run (command : List String) (timeout : σ) (source output : Files.Path) (token : Option TokenId) :
    Respects (Scene.Onward True SameStart fun e => e.isRequest = false) (run command timeout source output token) :=
  onward_run (fun _ _ _ => by rfl) (by rfl) (fun _ _ => by rfl) command timeout source output token

omit [Time.Seconds σ] in
/-- A document is of a process that has put out text, and is in a file with something in it. -/
theorem results_eq_ok {c : Course σ} {output : Files.Path} {t : Tree} {document : Document} :
    results c output t = .ok document ↔ ∃ stdout stderr, c.streams = .ok (stdout, stderr) ∧
      t.hasContent output = .ok true ∧ ⟨output, c.exitCode, stdout, stderr⟩ = document := by
  rw [results]
  rcases c.streams with e | ⟨stdout, stderr⟩
  · simp
  · rcases t.hasContent output with e | _ | _ <;> simp

omit [Time.Seconds σ] in
theorem results_eq_analyzer {c : Course σ} {output : Files.Path} {t : Tree} {e : AnalyzerError} :
    results c output t = .error (.analyzer e) ↔ ∃ stdout stderr, c.streams = .ok (stdout, stderr) ∧
      t.hasContent output = .ok false ∧ .noOutput output.name c.exitCode (tailOf stderr) = e := by
  rw [results]
  rcases c.streams with fault | ⟨stdout, stderr⟩
  · simp
  · rcases t.hasContent output with fault | _ | _ <;> simp

omit [Time.Seconds σ] in
theorem results_eq_undecodable {c : Course σ} {output : Files.Path} {t : Tree} {fault : Text.Utf8.DecodeError} :
    results c output t = .error (.undecodable fault) ↔ c.streams = .error fault := by
  rw [results]
  rcases c.streams with fault' | ⟨stdout, stderr⟩
  · simp
  · rcases t.hasContent output with fault' | _ | _ <;> simp

omit [Time.Seconds σ] in
/-- What a process comes to that has ended by itself is no cancellation. -/
theorem results_ne_cancelled {c : Course σ} {output : Files.Path} {t : Tree} (during : Activity) :
    results c output t ≠ .error (.cancelled during) := by
  rw [results]
  rcases c.streams with fault | ⟨stdout, stderr⟩
  · simp
  · rcases t.hasContent output with fault | _ | _ <;> simp

/-- A run that comes to a document has waited for its process to end by itself. -/
theorem run_eq_ok {command : List String} {timeout : σ} {source output : Files.Path} {token : Option TokenId}
    {s t : Scene σ} {document : Document} (h : run command timeout source output token s = (.ok document, t)) :
    ∃ u v : Scene σ, u.course = s.course ∧
      await timeout (add u.timeline.now timeout) token u.patience u.course.takes u = (.ok (), v) ∧
      results s.course output t.files = .ok document ∧ t.timeline = v.timeline := by
  rw [run] at h
  obtain ⟨argv, u, hstart, h⟩ := Act.bind_eq_ok h
  rw [Act.bind_of_ok (Act.get_run u)] at h
  obtain ⟨⟨⟩, v, hawait, h⟩ := Act.bind_eq_ok h
  have hcourse : u.course = s.course := by
    have hforward : Respects (Scene.Onward True SameStart fun _ => True) (start command source output : Run σ (List String)) :=
      respects_start (fun _ _ _ => Run.respects_record trivial) (Run.respects_log fun _ _ => trivial) command source output
    have hs := (hforward s).course
    rwa [hstart] at hs
  have hchange : Run.change (fun files => .ok (u.course.finish argv source.parent files)) v =
    (.ok (), { v with files := u.course.finish argv source.parent v.files }) := rfl
  rw [Act.bind_of_ok hchange, Act.bind_of_ok (Act.get_run _), Run.ofExcept_run] at h
  obtain ⟨hresults, rfl⟩ := Prod.mk.inj h
  exact ⟨u, v, hcourse, hawait, hcourse ▸ hresults, rfl⟩

/-- A document comes with the code that the process ends with. -/
theorem exitCode_of_run {command : List String} {timeout : σ} {source output : Files.Path} {token : Option TokenId}
    {s t : Scene σ} {document : Document} (h : run command timeout source output token s = (.ok document, t)) :
    document.exitCode = s.course.exitCode := by
  obtain ⟨-, -, -, -, hresults, -⟩ := run_eq_ok h
  obtain ⟨-, -, -, -, rfl⟩ := results_eq_ok.1 hresults
  rfl

/-- A document is in a file with something in it. -/
theorem hasContent_of_run {command : List String} {timeout : σ} {source output : Files.Path} {token : Option TokenId}
    {s t : Scene σ} {document : Document} (h : run command timeout source output token s = (.ok document, t)) :
    t.files.hasContent document.file = .ok true := by
  obtain ⟨-, -, -, -, hresults, -⟩ := run_eq_ok h
  obtain ⟨-, -, -, hcontent, rfl⟩ := results_eq_ok.1 hresults
  exact hcontent

/-! ### What it fails with -/

section Fails

variable {P : Failure → Prop} (htemplate : ∀ f, P (.template f)) (hlaunch : ∀ f, P (.launch f))
  (hanalyzer : ∀ e, P (.analyzer e)) (hundecodable : ∀ e, P (.undecodable e)) (hcancelled : P (.cancelled .analyzerRun))
  (hstalled : P .stalled) (hfile : ∀ e, P (.file e))

include htemplate hlaunch hanalyzer in
omit [Time.Seconds σ] in
theorem throws_start (command : List String) (source output : Files.Path) :
    Throws P (start command source output : Run σ (List String)) := by
  refine (Run.throws_ofExcept htemplate _).bind fun argv => (Run.throws_log _ _).bind fun _ =>
    Throws.bind ?_ fun _ => Act.throws_pure argv
  intro s e he
  rw [launch_run, launchFailure?] at he
  split at he
  next h =>
    obtain rfl := Except.error.inj he
    split at h <;> cases h
    · exact hlaunch _
    · exact hanalyzer _
  next => cases he

include hanalyzer hundecodable hcancelled hstalled in
theorem throws_await (timeout deadline : σ) (token : Option TokenId) :
    ∀ (patience : Nat) (left : σ), Throws P (await timeout deadline token patience left)
  | 0, _ => Act.throws_throw hstalled
  | patience + 1, left => by
    have hcalled : Throws P (isCalledOff token : Run σ Bool) := by
      cases token with
      | none => exact Act.throws_pure false
      | some id => exact Act.throws_of_ok fun s => ⟨_, congrArg Prod.fst (Run.isCancelled_run id s)⟩
    rw [await]
    refine Throws.bind (Act.throws_of_ok fun s => ⟨_, congrArg Prod.fst (Run.now_run s)⟩) fun now => ?_
    dsimp only
    split
    next => exact throws_kill hundecodable (hanalyzer _)
    next =>
      refine hcalled.bind fun calledOff => ?_
      split
      next => exact throws_kill hundecodable hcancelled
      next =>
        split
        next =>
          exact Throws.bind (Act.throws_of_ok fun _ => ⟨(), rfl⟩) fun _ =>
            throws_await timeout deadline token patience _
        next => exact Act.throws_of_ok fun _ => ⟨(), rfl⟩

include hanalyzer hundecodable hfile in
omit [Time.Seconds σ] in
theorem throws_results (c : Course σ) (output : Files.Path) (t : Tree) (e : Failure) (h : results c output t = .error e) :
    P e := by
  rw [results] at h
  split at h
  · exact Except.error.inj h ▸ hundecodable _
  · split at h
    · exact Except.error.inj h ▸ hfile _
    · exact Except.error.inj h ▸ hanalyzer _
    · cases h

include htemplate hlaunch hanalyzer hundecodable hcancelled hstalled hfile in
/-- Running the analyzer fails as the analyzer fails, when it is called off or waits in vain, for what is put out that is no
text, or for a command or a path that is none. -/
theorem throws_run (command : List String) (timeout : σ) (source output : Files.Path) (token : Option TokenId) :
    Throws P (run command timeout source output token) := by
  refine (throws_start htemplate hlaunch hanalyzer command source output).bind fun argv =>
    Throws.bind (Act.throws_of_ok fun s => ⟨s, rfl⟩) fun s =>
      (throws_await hanalyzer hundecodable hcancelled hstalled _ _ token _ _).bind fun _ =>
        Throws.bind (Act.throws_of_ok fun _ => ⟨(), rfl⟩) fun _ =>
          Throws.bind (Act.throws_of_ok fun t => ⟨t, rfl⟩) fun t u e he => ?_
  rw [Run.ofExcept_run] at he
  exact throws_results hanalyzer hundecodable hfile s.course output t.files e he

end Fails

end Analyzer
end Adjudication
