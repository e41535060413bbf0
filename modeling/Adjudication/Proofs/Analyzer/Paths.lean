import Adjudication.Proofs.Analyzer.Execution
import Adjudication.Proofs.Staging.Acquire

/-!
What the analyzer's paths mean to its process. The process runs in the directory of the slot, so a relative path that it is
given starts there and not where the program's own paths start. The source is given by its name alone and is found; the
results are given by their whole path, which leads to the place where they are looked for if the root of all slots is
absolute, and to another one as a rule if it is not.
-/

namespace Adjudication.Analyzer

open Files (Path Place Tree)
open Files.Tree (lead)
open Staging (slotOf slotMark outputName)

variable {σ : Type} {s : Scene σ} {t : Tree} {source : Source} {content : Files.Bytes} {given : String}

/-- The place that a text leads a process to that runs in a directory. -/
def placeFrom (t : Tree) (directory text : String) : Place :=
  ({ t with here := t.place (Path.ofText directory) }).place (Path.ofText text)

/-! ### Launching -/

/-- What is launched runs in the directory of the source, with the command filled in. -/
theorem start_trace (command : List String) (source output : Path) (s : Scene σ) :
    ∃ later, (start command source output s).2.trace = s.trace ++ later ∧
      ∀ argv directory x, .launched argv directory x ∈ later →
        arguments command source output = .ok argv ∧ directory = source.parent.text := by
  cases harguments : arguments command source output with
  | error fault =>
    refine ⟨[], ?_, by simp⟩
    have hfill : (Run.ofExcept .template (arguments command source output) : Run σ _) s =
        (.error (.template fault), s) := by
      rw [harguments]
      rfl
    rw [start, Act.bind_of_error hfill, List.append_nil]
  | ok argv =>
    refine ⟨[.logged .info ("Running analyzer: " ++ " ".intercalate argv),
      .launched argv source.parent.text s.timeline.now], ?_, by simp +contextual⟩
    have hfill : (Run.ofExcept .template (arguments command source output) : Run σ _) s = (.ok argv, s) := by
      rw [harguments]
      rfl
    have hlaunch := congrArg Scene.trace
      (snd_launch argv source.parent (s.noting [(.info, "Running analyzer: " ++ " ".intercalate argv)]))
    rw [start, Act.bind_of_ok hfill, Act.bind_of_ok (Run.log_run _ _ _), Act.bind_run]
    rcases hrun : launch argv source.parent (s.noting [(.info, "Running analyzer: " ++ " ".intercalate argv)]) with
      ⟨_ | _, u⟩ <;> rw [hrun] at hlaunch <;> simpa [Scene.noting] using hlaunch

theorem fill_source (source output : Path) :
    Template.fill (placeholders source output) "\x7bsource\x7d" = .ok source.name := by
  have hfill : Template.fill (placeholders source output) "\x7bsource\x7d" =
      .ok (String.ofList (source.name.toList ++ [])) := rfl
  rw [hfill, List.append_nil, String.ofList_toList]

theorem fill_output (source output : Path) :
    Template.fill (placeholders source output) "\x7boutput\x7d" = .ok output.text := by
  have hfill : Template.fill (placeholders source output) "\x7boutput\x7d" =
      .ok (String.ofList (output.text.toList ++ [])) := rfl
  rw [hfill, List.append_nil, String.ofList_toList]

/-! ### Paths of a slot -/

/-- A path leads a process to the place that it leads the program to if it is absolute, and else to one below the
directory that the process runs in. -/
theorem placeFrom_text {directory p : Path} (hdirectory : directory.Regular) (hp : p.Regular) (t : Tree) :
    placeFrom t directory.text p.text = if p.isAbsolute then t.place p else lead (t.place directory) p.parts := by
  rw [placeFrom, Path.ofText_text hdirectory, Path.ofText_text hp, Tree.place]
  split
  next habsolute => rw [Tree.place, if_pos habsolute]
  next => rfl

theorem child_of_part (p : Path) {name : String} (hname : Path.ofText name = ⟨.none, [name]⟩) :
    p.child name = ⟨p.anchor, p.parts ++ [name]⟩ := by
  rw [Path.child, hname, Path.join, if_neg (by simp [Path.isAbsolute])]

theorem anchor_ofText {text : String} {c : Char} {rest : List Char} (h : text.toList = c :: rest) (hc : c ≠ '/') :
    (Path.ofText text).anchor = .none := by
  simp [Path.ofText, Path.ofChars, h, hc]

variable {root : Path} {runId : String}

theorem toList_slotName (runId : String) : ∃ rest, (slotMark ++ runId).toList = 's' :: rest := by
  refine ⟨"cverify-".toList ++ runId.toList, ?_⟩
  rw [String.toList_append]
  rfl

/-- The directory of a slot starts where the root of all slots does. -/
theorem anchor_workdir (root : Path) (source : Source) (runId : String) :
    (slotOf root source runId).workdir.anchor = root.anchor := by
  obtain ⟨rest, hmark⟩ := toList_slotName runId
  have hrelative : (Path.ofText (slotMark ++ runId)).isAbsolute = false := by
    simp [Path.isAbsolute, anchor_ofText hmark (by decide)]
  rw [Staging.workdir_slotOf, Path.child, Path.join, hrelative]
  rfl

theorem regular_workdir (hroot : root.Regular) (source : Source) (runId : String) :
    (slotOf root source runId).workdir.Regular := by
  rw [Staging.workdir_slotOf]
  exact hroot.child _

theorem source_eq (hsource : Source.make content given = .ok source) (root : Path) (runId : String) :
    (slotOf root source runId).source =
      ⟨(slotOf root source runId).workdir.anchor, (slotOf root source runId).workdir.parts ++ [source.identifier]⟩ := by
  rw [Staging.source_slotOf]
  exact child_of_part _ (Path.ofText_of_make hsource).1

theorem parent_source (hsource : Source.make content given = .ok source) (root : Path) (runId : String) :
    (slotOf root source runId).source.parent = (slotOf root source runId).workdir := by
  rw [source_eq hsource, Path.parent, List.dropLast_concat]

theorem name_source (hsource : Source.make content given = .ok source) (root : Path) (runId : String) :
    (slotOf root source runId).source.name = source.identifier := by
  rw [source_eq hsource, Path.name]
  simp

theorem output_eq (root : Path) (source : Source) (runId : String) :
    (slotOf root source runId).output = ⟨(slotOf root source runId).workdir.anchor,
      (slotOf root source runId).workdir.parts ++ [outputName source.identifier]⟩ := by
  rw [Staging.output_slotOf]
  exact child_of_part _ (Staging.ofText_outputName _).1

theorem place_output (root : Path) (source : Source) (runId : String) (t : Tree) :
    t.place (slotOf root source runId).output =
      t.place (slotOf root source runId).workdir ++ [outputName source.identifier] := by
  obtain ⟨hname, -, hup⟩ := Staging.ofText_outputName source.identifier
  rw [Staging.output_slotOf, Staging.place_child t _ hname hup]

/-- The name of the source leads the process to the source. -/
theorem placeFrom_source (hsource : Source.make content given = .ok source) (hroot : root.Regular) (runId : String)
    (t : Tree) : placeFrom t (slotOf root source runId).source.parent.text (slotOf root source runId).source.name =
      t.place (slotOf root source runId).source := by
  obtain ⟨hname, hup⟩ := Path.ofText_of_make hsource
  rw [parent_source hsource, name_source hsource, Staging.source_slotOf, Staging.place_child t _ hname hup, placeFrom,
    hname, Path.ofText_text (regular_workdir hroot source runId), Tree.place]
  simp [Path.isAbsolute, lead, hup]

/-- The path of the results leads the process to a file in the directory that its way leads to. -/
theorem placeFrom_output (hsource : Source.make content given = .ok source) (hroot : root.Regular) (runId : String)
    (t : Tree) : placeFrom t (slotOf root source runId).source.parent.text (slotOf root source runId).output.text =
      (if root.isAbsolute then t.place (slotOf root source runId).workdir
        else lead (t.place (slotOf root source runId).workdir) (slotOf root source runId).workdir.parts) ++
      [outputName source.identifier] := by
  have hregular := regular_workdir hroot source runId
  have houtput : (slotOf root source runId).output.Regular := by
    rw [Staging.output_slotOf]
    exact hregular.child _
  have habsolute : (slotOf root source runId).output.isAbsolute = root.isAbsolute := by
    rw [output_eq, Path.isAbsolute, Path.isAbsolute, anchor_workdir]
  have hup := (Staging.ofText_outputName source.identifier).2.2
  rw [parent_source hsource, placeFrom_text hregular houtput, habsolute, place_output]
  split
  · rfl
  · rw [output_eq, Tree.lead_append]
    simp [lead, hup]

/-! ### What the process reads and writes -/

/-- A process that is launched for a slot is told of the source by a text that leads it to the source. The text that it is
told to write its results to leads it to the place where they are looked for just in case the root of all slots is
absolute, or the way to the slot leads from the slot to the slot again. -/
theorem launched_paths (hsource : Source.make content given = .ok source) (root runId : String) (command : List String)
    (s : Scene σ) :
    let slot := slotOf (Path.ofText root) source runId
    ∃ later, (start command slot.source slot.output s).2.trace = s.trace ++ later ∧
      ∀ argv directory x, .launched argv directory x ∈ later →
        arguments command slot.source slot.output = .ok argv ∧
        (∃ text, Template.fill (placeholders slot.source slot.output) "\x7bsource\x7d" = .ok text ∧
          placeFrom s.files directory text = s.files.place slot.source) ∧
        ∃ text, Template.fill (placeholders slot.source slot.output) "\x7boutput\x7d" = .ok text ∧
          (placeFrom s.files directory text = s.files.place slot.output ↔
            (Path.ofText root).isAbsolute = true ∨
              lead (s.files.place slot.workdir) slot.workdir.parts = s.files.place slot.workdir) := by
  intro slot
  obtain ⟨later, htrace, hlater⟩ := start_trace command slot.source slot.output s
  refine ⟨later, htrace, fun argv directory x hlaunched => ?_⟩
  obtain ⟨hargv, rfl⟩ := hlater argv directory x hlaunched
  have hroot := Path.regular_ofText root
  refine ⟨hargv, ⟨_, fill_source _ _, placeFrom_source hsource hroot runId s.files⟩, _, fill_output _ _, ?_⟩
  rw [placeFrom_output hsource hroot, place_output, List.append_left_inj]
  split
  next habsolute => simp [habsolute]
  next habsolute => simp [habsolute, slot]

theorem lead_of_not_up : ∀ {names : List String} {place : Place}, ".." ∉ names → lead place names = place ++ names
  | [], _, _ => by simp [lead]
  | name :: rest, place, h => by
    have hname : name ≠ ".." := fun he => h (he ▸ .head _)
    rw [lead, if_neg hname, lead_of_not_up fun hm => h (.tail _ hm), List.append_assoc]
    rfl

/-! ### Two roots -/

theorem make_aSol : Source.make [] "a.sol" = .ok ⟨[], "a.sol"⟩ :=
  Path.make_of_isPart [] (by decide) (by decide) (by decide) (by decide) (by decide)

/-- Below an absolute root, the results are written where they are looked for. -/
theorem launched_paths_absolute : Source.make [] "a.sol" = .ok ⟨[], "a.sol"⟩ ∧
    let slot := slotOf (Path.ofText "/runs") ⟨[], "a.sol"⟩ "r1"
    ∃ later, (start AnalyzerConfig.defaultCommand slot.source slot.output Staging.blank).2.trace =
        Staging.blank.trace ++ later ∧
      ∀ argv directory x, .launched argv directory x ∈ later →
        ∃ text, Template.fill (placeholders slot.source slot.output) "\x7boutput\x7d" = .ok text ∧
          placeFrom Staging.blank.files directory text = Staging.blank.files.place slot.output := by
  refine ⟨make_aSol, ?_⟩
  obtain ⟨later, htrace, hlater⟩ := launched_paths make_aSol "/runs" "r1" AnalyzerConfig.defaultCommand Staging.blank
  refine ⟨later, htrace, fun argv directory x hlaunched => ?_⟩
  obtain ⟨-, -, text, hfill, hplace⟩ := hlater argv directory x hlaunched
  exact ⟨text, hfill, hplace.2 (.inl rfl)⟩

/-- Below the relative root `runs`, they are written to another place. -/
theorem launched_paths_relative :
    let slot := slotOf (Path.ofText "runs") ⟨[], "a.sol"⟩ "r1"
    (start AnalyzerConfig.defaultCommand slot.source slot.output Staging.blank).2.trace =
        [.logged .info "Running analyzer: slither a.sol --json runs/scverify-r1/results.json",
          .launched ["slither", "a.sol", "--json", "runs/scverify-r1/results.json"] "runs/scverify-r1" 0] ∧
      Template.fill (placeholders slot.source slot.output) "\x7boutput\x7d" = .ok "runs/scverify-r1/results.json" ∧
      placeFrom Staging.blank.files "runs/scverify-r1" "runs/scverify-r1/results.json" =
        ["runs", "scverify-r1", "runs", "scverify-r1", "results.json"] ∧
      Staging.blank.files.place slot.output = ["runs", "scverify-r1", "results.json"] := by
  refine ⟨rfl, ?_, ?_, ?_⟩
  · rfl
  · rfl
  · rfl

end Adjudication.Analyzer
