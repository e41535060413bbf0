import Adjudication.CommandLine.Session
import Adjudication.Proofs.Judge.Failures
import Adjudication.Proofs.Judge.Heeds
import Adjudication.Proofs.Verification.Clients

/-!
What the parts of the command fail with, and what they leave alone. Loading the settings, opening the judge's client, reading
the source and delivering a report fail with what nothing in the program takes care of, except for failures of the settings and
a missing key, which are told. None of the parts does anything with clients that are open.
-/

namespace Adjudication

open Act (Respects Throws)
open Files.Tree (Anyhow)
open Scene (Freely)

/-- A failure that nothing in the program takes care of: the command neither tells it nor reports it. -/
def Failure.isStray (e : Failure) : Bool := e.isLeaving && !e.isCancelled

theorem Failure.isStray_iff {e : Failure} : e.isStray = true ↔ e.isLeaving = true ∧ ∀ during, e ≠ .cancelled during := by
  cases e <;> simp [isStray, isLeaving, isCancelled]

namespace Settings

variable {levels : Nat} {files : Files.Tree} {env : Environment} {file : Option Files.Path} {e : Failure}

theorem isStray_of_read {file : Files.Path} (h : read levels files file = .error e) (he : ∀ cause, e ≠ .config cause) :
    e.isStray = true := by
  have htable : ∀ text, tableOf levels file text = .error e → e.isStray = true := by
    intro text ht
    rw [tableOf] at ht
    split at ht
    · exact Except.error.inj ht ▸ rfl
    · exact Except.error.inj ht ▸ rfl
    · exact absurd (Except.error.inj ht).symm (he _)
    · split at ht
      · cases ht
      · exact absurd (Except.error.inj ht).symm (he _)
  rw [read] at h
  split at h
  next text _ => exact htable text h
  next =>
    split at h
    · exact absurd (Except.error.inj h).symm (he _)
    · exact Except.error.inj h ▸ rfl

theorem isStray_of_layered (h : layered levels files file = .error e) (he : ∀ cause, e ≠ .config cause) : e.isStray = true := by
  cases file with
  | none => cases h
  | some file =>
    rw [layered] at h
    split at h
    next => exact Except.error.inj h ▸ rfl
    next => exact absurd (Except.error.inj h).symm (he _)
    next =>
      cases hread : read levels files file with
      | ok ms =>
        rw [hread] at h
        cases h
      | error cause =>
        rw [hread] at h
        obtain rfl := Except.error.inj h
        exact isStray_of_read hread he

theorem isStray_of_withRoot {root : String} {ms : Yaml.Members} (h : withRoot root ms = .error e) : e.isStray = true := by
  rw [withRoot] at h
  split at h
  · cases h
  · exact Except.error.inj h ▸ rfl

/-- Where loading fails with no failure of the settings, nothing takes care of what it fails with. -/
theorem isStray_of_load (h : load levels files env file = .error e) (he : ∀ cause, e ≠ .config cause) : e.isStray = true := by
  have htable : ∀ ms, ofTable ms = .error e → e.isStray = true := by
    intro ms ht
    rw [ofTable] at ht
    cases hvalid : Schema.validate "Settings" check (Yaml.table ms) with
    | ok settings =>
      rw [hvalid] at ht
      cases ht
    | error cause =>
      rw [hvalid] at ht
      exact absurd (Except.error.inj ht).symm (he _)
  cases hlayered : layered levels files (file <|> (spoken env.settingsFile).map Files.Path.ofText) with
  | error cause =>
    rw [load, hlayered] at h
    obtain rfl : cause = e := Except.error.inj h
    exact isStray_of_layered hlayered he
  | ok ms =>
    cases hroot : spoken env.stagingRoot with
    | none =>
      simp only [load, hlayered, hroot] at h
      exact htable ms h
    | some root =>
      simp only [load, hlayered, hroot] at h
      cases hrooted : withRoot root ms with
      | ok rooted =>
        have h : (withRoot root ms >>= ofTable) = .error e := h
        rw [hrooted] at h
        exact htable rooted h
      | error cause =>
        have h : (withRoot root ms >>= ofTable) = .error e := h
        rw [hrooted] at h
        obtain rfl : cause = e := Except.error.inj h
        exact isStray_of_withRoot hrooted

end Settings

/-- What is put before the user does nothing with clients. -/
theorem Scene.respects_put (what : Shown) : Respects (Freely True Anyhow) (Run.put what : Run Float Unit) :=
  Run.respects_put (Run.respects_record rfl)

/-! ### Delivering -/

namespace Export

variable (r : Report) (asked : List Format) (out : Files.Path)

/-- Delivering a report fails for a path or a text that the files do not take, or for what the console refuses. -/
theorem throws_deliver : Throws (fun e => e.isStray = true) (deliver r asked out : Run Float _) := by
  have hwrite : ∀ path cs, Throws (fun e => e.isStray = true) (writeChunks path cs : Run Float Unit) := by
    intro path cs
    refine Throws.bind (Act.throws_of_ok fun s => ⟨_, rfl⟩) fun provided => ?_
    refine (Run.throws_ofExcept (P := fun e => e.isStray = true) (fun _ => rfl) provided).bind fun _ => ?_
    refine Throws.bind (fun s e he => ?_) fun _ => Run.throws_ofExcept (P := fun e => e.isStray = true) (fun _ => rfl) _
    rw [Run.change] at he
    split at he
    · cases he
    · exact Except.error.inj he ▸ rfl
  have hfile : ∀ f, Throws (fun e => e.isStray = true) (deliverFile r out asked f : Run Float _) := by
    intro f
    rw [deliverFile]
    split
    · exact Act.throws_pure _
    · split
      · exact Act.throws_throw rfl
      · exact (hwrite _ _).bind fun _ => Act.throws_pure _
  have hshow : ∀ what, Throws (fun e => e.isStray = true) (Run.put what : Run Float Unit) := Run.throws_put fun _ => rfl
  refine (Act.throws_mapM hfile _).bind fun files => ?_
  dsimp only
  split
  case' isTrue => refine (hshow _).bind fun _ => ?_
  all_goals
    refine Throws.bind (Act.throws_forIn (fun written _ => ?_) _ _) fun _ => Act.throws_pure _
    exact (hshow _).bind fun _ => Act.throws_pure _

theorem respects_deliver : Respects (Freely True Anyhow) (deliver r asked out : Run Float _) := by
  have hwrite : ∀ path cs, Respects (Freely True Anyhow) (writeChunks path cs : Run Float Unit) := by
    intro path cs
    refine Respects.bind (fun s => Scene.onward_files trivial) fun provided =>
      (Run.respects_ofExcept _ provided).bind fun _ => Respects.bind (fun s => ?_) fun _ => Run.respects_ofExcept _ _
    rw [Run.change]
    split
    · exact Scene.onward_files trivial
    · exact Std.Refl.refl s
  have hfile : ∀ f, Respects (Freely True Anyhow) (deliverFile r out asked f : Run Float _) := by
    intro f
    rw [deliverFile]
    split
    · exact Act.respects_pure _
    · split
      · exact Act.respects_throw _
      · exact (hwrite _ _).bind fun _ => Act.respects_pure _
  refine (Act.respects_mapM hfile _).bind fun files => ?_
  dsimp only
  split
  case' isTrue => refine (Scene.respects_put _).bind fun _ => ?_
  all_goals
    refine (Act.respects_forIn (fun written _ => ?_) _ _).bind fun _ => Act.respects_pure _
    exact (Scene.respects_put _).bind fun _ => Act.respects_pure _

end Export

namespace CommandLine

variable {env : Environment} {args : List String} {s t : Scene Float} {settings : Settings Float}

theorem respects_say (colour : Colour) (text : Text.Wide) : Respects (Freely True Anyhow) (say colour text : Run Float Unit) :=
  Scene.respects_put _

theorem respects_present (r : Report) (formats : List Export.Format) (o : Options) :
    Respects (Freely True Anyhow) (present r formats o : Run Float Exit) := by
  refine (Export.respects_deliver r formats o.out).bind fun _ =>
    (Act.respects_forIn (fun warning _ => ?_) _ _).bind fun _ =>
      (Scene.respects_put _).bind fun _ => Act.respects_pure _
  exact (respects_say _ _).bind fun _ => Act.respects_pure _

theorem respects_attended (v : Verifier Float) (source : Source) (deadline : Option Float) :
    Respects (Freely True Anyhow) (attended v source deadline) := by
  refine (Run.respects_newToken deadline none).bind fun token =>
    (Run.respects_outcome (v.respects_verify source (some token) none)).bind fun r => ?_
  cases r with
  | ok r => exact Act.respects_pure _
  | error e =>
    cases e with
    | cancelled during => exact (respects_say _ _).bind fun _ => Act.respects_pure _
    | _ => exact Act.respects_throw _

theorem respects_loadSettings (env : Environment) (o : Options) :
    Respects (Freely True Anyhow) (loadSettings env o) := by
  refine Act.respects_get_bind fun s => ?_
  cases Settings.load s.host.collections s.files env o.config with
  | ok settings => exact Act.respects_pure _ s
  | error e =>
    cases e with
    | config cause => exact (respects_say _ _).bind (fun _ => Act.respects_pure _) s
    | _ => exact Act.respects_throw _ s

/-! ### Opening the client -/

theorem openJudge_of_key (h : settings.judge.hasKey = true) (s : Scene Float) :
    ∃ options, openJudge settings s = (.ok (some ⟨settings.judge, .service s.clients, s.host.levels⟩),
      { s with clients := s.clients + 1, trace := s.trace ++ [.opened s.clients options] }) := by
  obtain ⟨options, hopen⟩ := Judge.ofConfig_run_of_key h s
  refine ⟨options, ?_⟩
  rw [openJudge, Run.outcome_bind_run, hopen]
  rfl

/-- A missing key is told. -/
theorem openJudge_of_keyless (h : settings.judge.hasKey = false) (s : Scene Float) :
    openJudge settings s = (do
      say .red keyless
      pure none : Run Float (Option (Judge.Client Float))) s := by
  rw [openJudge, Run.outcome_bind_run, Judge.ofConfig_run_of_keyless h]

/-- A source is not read off a file that cannot be read, or off one whose content or name is none. -/
theorem throws_sourceOf (file : Files.Path) : Throws (fun e => e.isStray = true) (sourceOf file : Run Float Source) :=
  (Run.throws_ask (fun _ => rfl) _).bind fun _ =>
    Run.throws_ofExcept (P := fun e => e.isStray = true) (fun _ => rfl) _

end CommandLine
end Adjudication
