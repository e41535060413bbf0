import Adjudication.Proofs.Files.Path
import Adjudication.Proofs.Files.Removal
import Adjudication.Proofs.Scene
import Adjudication.Staging

/-!
Acquiring and releasing a slot. What the system refuses to remove of a slot that has been acquired becomes a warning. No
other fault is possible, for the paths have been walked before, but one: the directories in the slot lie deeper within each
other than the removal can go. Nothing outside the slot is touched, and what is left of the slot has been warned of, unless
the release has failed.
-/

namespace Adjudication

open Files (Tree Place)
open Files.Tree (Prunes Grows)

namespace Staging

variable {σ : Type} {slot : Slot} {s t : Scene σ}

/-- A slot whose paths hold no null character and whose directory's path is not too long. -/
structure Releasable (slot : Slot) : Prop where
  source : slot.source.text.toList.contains '\x00' = false
  output : slot.output.text.toList.contains '\x00' = false
  workdir : slot.workdir.text.toList.contains '\x00' = false
  fits : slot.workdir.Fits

/-- A slot with further warnings. -/
def warned (slot : Slot) (es : List StagingError) : Slot :=
  { slot with warnings := slot.warnings ++ es.map StagingError.text }

@[simp]
theorem warned_source (slot : Slot) (es : List StagingError) : (warned slot es).source = slot.source := rfl

@[simp]
theorem warned_output (slot : Slot) (es : List StagingError) : (warned slot es).output = slot.output := rfl

@[simp]
theorem warned_workdir (slot : Slot) (es : List StagingError) : (warned slot es).workdir = slot.workdir := rfl

theorem warned_nil (slot : Slot) : warned slot [] = slot := by
  simp [warned]

theorem warned_append (slot : Slot) (es fs : List StagingError) : warned (warned slot es) fs = warned slot (es ++ fs) := by
  simp [warned]

/-- Warnings as the log has them. -/
def logLines (es : List StagingError) : List (Level × Text.Wide) :=
  es.map fun e => (.warning, .text "Staging cleanup failed: " ++ e.text)

/-- A scene in which files have been removed and warnings given. -/
def cleaned (s : Scene σ) (files : Tree) (es : List StagingError) : Scene σ := Scene.noting { s with files } (logLines es)

theorem cleaned_nil (s : Scene σ) : cleaned s s.files [] = s := Scene.noting_nil s

theorem cleaned_cleaned (s : Scene σ) (files other : Tree) (es fs : List StagingError) :
    cleaned (cleaned s files es) other fs = cleaned s other (es ++ fs) := by
  simp [cleaned, Scene.noting, logLines]

theorem attempt_of_ok {f : Tree → Except Files.Fault Tree} {files : Tree} (h : f s.files = .ok files) :
    attempt f s = (.ok (.ok ()), { s with files }) := by
  simp only [attempt, h]

theorem attempt_of_error {f : Tree → Except Files.Fault Tree} {e : Files.Fault} (h : f s.files = .error e) :
    attempt f s = (.ok (.error e), s) := by
  simp only [attempt, h]

theorem warn_run (slot : Slot) (e : StagingError) (s : Scene σ) :
    warn slot e s = (.ok (warned slot [e]), cleaned s s.files [e]) := rfl

/-! ### Releasing a slot -/

/-- A file of a slot is removed, or there is a warning, unless it is not there. -/
theorem removeFile_run {path : Files.Path} (hnull : path.text.toList.contains '\x00' = false) (slot : Slot)
    (s : Scene σ) :
    ∃ es files, removeFile slot path s = (.ok (warned slot es), cleaned s files es) ∧
      (s.files.remove path = .ok files ∨ files = s.files) := by
  rw [removeFile]
  cases hr : s.files.remove path with
  | ok files =>
    rw [Act.bind_of_ok (attempt_of_ok hr)]
    refine ⟨[], files, ?_, .inl rfl⟩
    rw [warned_nil]
    exact congrArg (Prod.mk _) (Scene.noting_nil _).symm
  | error fault =>
    rw [Act.bind_of_ok (attempt_of_error hr)]
    have hrefusal := Tree.isRefusal_of_remove hnull hr
    match fault, hrefusal with
    | .refused .noEntry _, _ =>
      refine ⟨[], s.files, ?_, .inr rfl⟩
      rw [warned_nil, cleaned_nil]
      rfl
    | .refused .exists _, _ | .refused .notDirectory _, _ | .refused .isDirectory _, _ | .refused .nameTooLong _, _ =>
      exact ⟨_, _, warn_run slot _ s, .inr rfl⟩

/-- There are more levels of directories in the directory of a slot than can be removed. -/
def TooDeep (slot : Slot) (s : Scene σ) : Prop := s.files.Deep (s.host.descent + 1) (s.files.place slot.workdir)

/-- What releasing a slot has come to: nothing outside its directory is touched, and the directory is gone unless there is
a warning that tells why not, or the release has failed. Then the directory is still there. A directory with nothing in it
is always gone. -/
structure Released (slot : Slot) (files left : Tree) (es : List StagingError) (r : Except Failure Unit) : Prop where
  prunes : Prunes (files.place slot.workdir <+: ·) files left
  gone : r = .ok () → left.holds slot.workdir = .ok false ∨ ∃ fault, .notRemoved slot.workdir fault ∈ es
  stays : ∀ e, r = .error e → left.get? (files.place slot.workdir) = some .directory
  bare : ∀ place, files.reach slot.workdir = .ok place → files.get? place = some .directory →
    (∀ other, place <+: other → other ≠ place → files.get? other = none) → r = .ok () ∧ left.Clear place

/-- A directory with nothing in it is not too deep. -/
theorem not_deep_of_bare {files : Tree} {place : Place} (h : ∀ other, place <+: other → other ≠ place → files.get? other = none)
    (levels : Nat) : ¬ files.Deep (levels + 1) place := by
  rintro ⟨-, name, hdeep⟩
  have hnone := h (place ++ [name]) (List.prefix_append _ _) (by simp)
  simp [hdeep.directory] at hnone

/-- The directory of a slot, which is not the root of the tree, is removed with everything in it, or there is a warning,
    unless it is not there. The removal fails only if the directory is too deep. -/
theorem removeWorkdir_run (slot : Slot) (hnull : slot.workdir.text.toList.contains '\x00' = false)
    (hfits : slot.workdir.Fits) (s : Scene σ) :
    ∃ r es files, removeWorkdir slot s = (r.map fun _ => warned slot es, cleaned s files es) ∧
      (∀ e, r = .error e → e = .file (.tooDeep .removing) ∧ TooDeep slot s) ∧
      (s.files.place slot.workdir ≠ [] → Released slot s.files files es r) := by
  obtain ⟨b, hb⟩ := Tree.holds_of_fits hfits s.files
  rw [removeWorkdir, Act.bind_of_ok (Run.ask_run_of_ok hb)]
  cases b with
  | false =>
    refine ⟨.ok (), [], s.files, ?_, by simp, fun _ => ⟨.refl _ _, fun _ => .inl hb, by simp, ?_⟩⟩
    · rw [warned_nil, cleaned_nil]
      rfl
    · intro place hreach hdirectory
      rw [Tree.holds, hreach] at hb
      simp [hdirectory] at hb
  | true =>
    rw [if_pos rfl]
    by_cases hthere : ∃ place, s.files.reach slot.workdir = .ok place ∧ s.files.get? place = some .directory
    · obtain ⟨place, hreach, hdirectory⟩ := hthere
      obtain rfl := Tree.eq_place_of_reach hreach
      by_cases hdeep : s.files.Deep (s.host.descent + 1) (s.files.place slot.workdir)
      · -- The removal stops in the middle.
        obtain ⟨left, hremove, hprunes⟩ := Tree.removeAll_of_deep hreach hdeep
        refine ⟨.error (.file (.tooDeep .removing)), [], left, ?_, ?_, fun hroot => ⟨?_, by simp, fun e _ => ?_, ?_⟩⟩
        · rw [Act.bind_of_ok (Run.undertake_run hremove)]
          exact congrArg (Prod.mk _) (Scene.noting_nil _).symm
        · rintro e ⟨⟩
          exact ⟨rfl, hdeep⟩
        · exact hprunes.mono fun _ hbelow => hbelow.1
        · exact ((hprunes.get? _).resolve_right fun h => h.1.2 rfl).trans hdirectory
        · rintro place hplace - hbare
          obtain rfl := Tree.eq_place_of_reach hplace
          exact absurd hdeep (not_deep_of_bare hbare _)
      · have hremove := Tree.removeAll_of_directory hreach hdirectory hdeep
        refine ⟨.ok (), [], s.files.prune (s.files.place slot.workdir), ?_, by simp, fun hroot => ?_⟩
        · rw [Act.bind_of_ok (Run.undertake_run hremove), warned_nil]
          exact congrArg (Prod.mk _) (Scene.noting_nil _).symm
        refine ⟨Tree.prunes_prune hroot _, fun _ => .inl (Tree.holds_prune hfits _ hroot), by simp, fun other hother _ _ => ?_⟩
        obtain rfl := Tree.eq_place_of_reach hother
        exact ⟨rfl, Tree.clear_prune hroot _⟩
    · obtain ⟨fault, hremove, hrefusal⟩ := Tree.removeAll_of_not_directory
        (fun place hreach hdirectory => hthere ⟨place, hreach, hdirectory⟩) s.host.descent
      refine ⟨.ok (), [.notRemoved slot.workdir fault], s.files, ?_, by simp, fun _ => ⟨.refl _ _, fun _ => ?_, by simp, ?_⟩⟩
      · rw [Act.bind_of_ok (Run.undertake_run hremove)]
        simp only [hrefusal hnull, if_true]
        exact warn_run slot _ s
      · exact .inr ⟨fault, .head _⟩
      · exact fun place hreach hdirectory => absurd ⟨place, hreach, hdirectory⟩ hthere

/-- Places of files that lie directly in the directory of a slot. -/
structure Nested (slot : Slot) (files : Tree) : Prop where
  source : ∃ name, files.place slot.source = files.place slot.workdir ++ [name]
  output : ∃ name, files.place slot.output = files.place slot.workdir ++ [name]

section

variable {files left : Tree} {path workdir : Files.Path} {name : String}

theorem prunes_of_nested (hname : files.place path = files.place workdir ++ [name])
    (h : files.remove path = .ok left ∨ left = files) : Prunes (files.place workdir <+: ·) files left := by
  rcases h with h | rfl
  · refine (Tree.prunes_remove h).mono fun place hplace => ?_
    rw [hname] at hplace
    exact (List.prefix_append _ _).trans hplace
  · exact .refl _ _

/-- Where there is nothing in a directory, no file in it is removed. -/
theorem same_of_bare (hname : files.place path = files.place workdir ++ [name])
    (hbare : ∀ other, files.place workdir <+: other → other ≠ files.place workdir → files.get? other = none)
    (h : files.remove path = .ok left ∨ left = files) : left = files := by
  refine h.resolve_left fun h => ?_
  obtain ⟨place, content, hreach, hfile, -⟩ := Tree.remove_eq_ok h
  obtain rfl : place = files.place workdir ++ [name] := (Tree.eq_place_of_reach hreach).trans hname
  have hne : files.place workdir ++ [name] ≠ files.place workdir := by simp
  simp [hbare _ (List.prefix_append _ _) hne] at hfile

end

/-- Directories are as deep in a slot as they have been before files of it were removed. -/
theorem TooDeep.of_prunes {P : Place → Prop} (h : TooDeep slot t) (hprunes : Prunes P s.files t.files)
    (hhost : t.host = s.host) : TooDeep slot s := by
  rw [TooDeep, hhost, Tree.place_congr hprunes.here] at h
  exact h.of_prunes hprunes

/-- A slot can be released unless its directory is too deep. What that comes to is told for a slot with its files in its
    own directory, which is not the root of the tree. -/
theorem release_run (h : Releasable slot) (s : Scene σ) :
    ∃ r es files, release slot s = (r.map fun _ => warned slot es, cleaned s files es) ∧
      (∀ e, r = .error e → e = .file (.tooDeep .removing) ∧ TooDeep slot s) ∧
      (Nested slot s.files → s.files.place slot.workdir ≠ [] → Released slot s.files files es r) := by
  obtain ⟨es₁, files₁, h₁, hfiles₁⟩ := removeFile_run h.source slot s
  obtain ⟨es₂, files₂, h₂, hfiles₂⟩ := removeFile_run h.output (warned slot es₁) (cleaned s files₁ es₁)
  obtain ⟨r, es₃, files₃, h₃, hfails, hremoved⟩ := removeWorkdir_run (warned (warned slot es₁) es₂) h.workdir h.fits
    (cleaned (cleaned s files₁ es₁) files₂ es₂)
  have hprunes : Prunes (fun _ => True) s.files files₂ := by
    have hprunes : ∀ {path : Files.Path} {before after : Tree}, before.remove path = .ok after ∨ after = before →
        Prunes (fun _ => True) before after := by
      rintro path before after (hremove | rfl)
      · exact (Tree.prunes_remove hremove).mono fun _ _ => trivial
      · exact .refl _ _
    exact (hprunes hfiles₁).trans (hprunes hfiles₂)
  refine ⟨r, es₁ ++ es₂ ++ es₃, files₃, ?_, fun e he => ?_, fun hnested hroot => ?_⟩
  · rw [release, Act.bind_of_ok h₁]
    refine (Act.bind_of_ok h₂).trans (h₃.trans ?_)
    rw [cleaned_cleaned, cleaned_cleaned, warned_append, warned_append, List.append_assoc]
  · obtain ⟨rfl, hdeep⟩ := hfails e he
    have hdeep : TooDeep slot (cleaned (cleaned s files₁ es₁) files₂ es₂) := hdeep
    exact ⟨rfl, hdeep.of_prunes hprunes rfl⟩
  obtain ⟨⟨source, hsource⟩, output, houtput⟩ := hnested
  have hprunes₁ := prunes_of_nested hsource hfiles₁
  have hplace₁ : ∀ path, files₁.place path = s.files.place path := fun path => Tree.place_congr hprunes₁.here path
  have houtput₁ : files₁.place slot.output = files₁.place slot.workdir ++ [output] := by
    rw [hplace₁, hplace₁, houtput]
  have hprunes₂ : Prunes (s.files.place slot.workdir <+: ·) s.files files₂ :=
    hprunes₁.trans (hplace₁ slot.workdir ▸ prunes_of_nested houtput₁ hfiles₂)
  have hplace₂ : files₂.place slot.workdir = s.files.place slot.workdir := Tree.place_congr hprunes₂.here _
  obtain ⟨hprunes, hgone, hstays, hclear⟩ : Released slot files₂ files₃ es₃ r := by
    obtain ⟨hprunes, hgone, hstays, hclear⟩ := hremoved (by exact hplace₂ ▸ hroot)
    exact ⟨hprunes, hgone, hstays, hclear⟩
  refine ⟨hprunes₂.trans (hplace₂ ▸ hprunes), fun hr => ?_, fun e he => hplace₂ ▸ hstays e he,
    fun place hreach hdirectory hbare => ?_⟩
  · exact (hgone hr).imp_right fun ⟨fault, hfault⟩ => ⟨fault, List.mem_append_right _ hfault⟩
  · obtain rfl := Tree.eq_place_of_reach hreach
    obtain rfl := same_of_bare hsource hbare hfiles₁
    obtain rfl : files₂ = s.files := same_of_bare houtput hbare hfiles₂
    exact hclear _ hreach hdirectory hbare

/-! ### Acquiring a slot -/

theorem makeRoot_of_ok {root : Files.Path} {files : Tree} (h : s.files.provideDirectory s.host.ascent root = (.ok (), files)) :
    makeRoot root s = (.ok (), { s with files }) := by
  rw [makeRoot, Run.provideDirectory, Act.bind_of_ok (Run.undertake_run h)]
  rfl

theorem makeRoot_of_error {root : Files.Path} {fault : Files.Fault} {files : Tree}
    (h : s.files.provideDirectory s.host.ascent root = (.error fault, files)) :
    makeRoot root s = (.error (refusedAs (.rootNotCreated root) fault), { s with files }) := by
  rw [makeRoot, Run.provideDirectory, Act.bind_of_ok (Run.undertake_run h)]
  rfl

theorem makeWorkdir_of_ok (slot : Slot) (s : Scene σ) {files : Tree}
    (h : s.files.makeDirectory slot.workdir = .ok files) :
    makeWorkdir slot s = (.ok (), { s with files }) := by
  rw [makeWorkdir, Act.bind_of_ok (attempt_of_ok h)]
  rfl

theorem makeWorkdir_of_error (slot : Slot) (s : Scene σ) {fault : Files.Fault}
    (h : s.files.makeDirectory slot.workdir = .error fault) :
    ∃ e, makeWorkdir slot s = (.error e, s) := by
  rw [makeWorkdir, Act.bind_of_ok (attempt_of_error h)]
  match fault with
  | .refused .exists _ => exact ⟨_, rfl⟩
  | .refused .noEntry _ | .refused .notDirectory _ | .refused .isDirectory _ | .refused .nameTooLong _ => exact ⟨_, rfl⟩
  | .nullInPath | .notText _ | .tooDeep _ => exact ⟨_, rfl⟩

theorem makeWorkdir_of_exists (slot : Slot) (s : Scene σ) {subject : String}
    (h : s.files.makeDirectory slot.workdir = .error (.refused .exists subject)) :
    makeWorkdir slot s = (.error (.staging (.slotInUse slot.workdir)), s) := by
  rw [makeWorkdir, Act.bind_of_ok (attempt_of_error h)]
  rfl

/-- A slot is in use only if there is something in the place of its directory. -/
theorem makeWorkdir_eq_slotInUse (slot : Slot) (s : Scene σ) {path : Files.Path}
    (h : (makeWorkdir slot s).1 = .error (.staging (.slotInUse path))) :
    ∃ subject, s.files.makeDirectory slot.workdir = .error (.refused .exists subject) := by
  cases hmake : s.files.makeDirectory slot.workdir with
  | ok files => simp [makeWorkdir_of_ok slot s hmake] at h
  | error fault =>
    rw [makeWorkdir, Act.bind_of_ok (attempt_of_error hmake)] at h
    match fault with
    | .refused .exists subject => exact ⟨subject, rfl⟩
    | .refused .noEntry _ | .refused .notDirectory _ | .refused .isDirectory _ | .refused .nameTooLong _ =>
      simp [refusedAs, Files.Fault.isRefusal] at h
    | .nullInPath | .notText _ | .tooDeep _ => simp [refusedAs, Files.Fault.isRefusal] at h

theorem writeSource_of_ok (slot : Slot) (s : Scene σ) {content : Files.Bytes} {files : Tree}
    (h : s.files.write slot.source content = .ok files) :
    writeSource slot content s = (.ok (), { s with files }) := by
  rw [writeSource, Act.bind_of_ok (attempt_of_ok h)]
  rfl

/-- A slot whose source the system refuses is released. -/
theorem writeSource_of_refusal (slot : Slot) (s : Scene σ) {content : Files.Bytes} {fault : Files.Fault}
    {released : Slot} (h : s.files.write slot.source content = .error fault) (hrefusal : fault.isRefusal = true)
    (hrelease : release slot s = (.ok released, t)) :
    writeSource slot content s = (.error (.staging (.notWritten slot.source fault)), t) := by
  rw [writeSource, Act.bind_of_ok (attempt_of_error h)]
  dsimp only
  rw [if_pos hrefusal, Act.bind_of_ok hrelease]
  rfl

theorem writeSource_of_stuck (slot : Slot) (s : Scene σ) {content : Files.Bytes} {fault : Files.Fault} {e : Failure}
    (h : s.files.write slot.source content = .error fault) (hrefusal : fault.isRefusal = true)
    (hrelease : release slot s = (.error e, t)) : writeSource slot content s = (.error e, t) := by
  rw [writeSource, Act.bind_of_ok (attempt_of_error h)]
  dsimp only
  rw [if_pos hrefusal, Act.bind_of_error hrelease]

/-- A slot whose source cannot be written for another reason than a refusal stays. -/
theorem writeSource_of_fault (slot : Slot) (s : Scene σ) {content : Files.Bytes} {fault : Files.Fault}
    (h : s.files.write slot.source content = .error fault) (hrefusal : fault.isRefusal = false) :
    writeSource slot content s = (.error (.file fault), s) := by
  rw [writeSource, Act.bind_of_ok (attempt_of_error h)]
  dsimp only
  rw [if_neg (by simp [hrefusal])]
  rfl

theorem writeSource_of_error (slot : Slot) (s : Scene σ) {content : Files.Bytes} {fault : Files.Fault}
    (h : s.files.write slot.source content = .error fault) : ∃ e t, writeSource slot content s = (.error e, t) := by
  cases hrefusal : fault.isRefusal with
  | false => exact ⟨_, _, writeSource_of_fault slot s h hrefusal⟩
  | true =>
    rcases hw : writeSource slot content s with ⟨e | ⟨⟩, t⟩
    · exact ⟨e, t, rfl⟩
    · rw [writeSource, Act.bind_of_ok (attempt_of_error h)] at hw
      dsimp only at hw
      rw [if_pos hrefusal] at hw
      obtain ⟨_, _, -, hthrow⟩ := Act.bind_eq_ok hw
      simp at hthrow

variable {root : Files.Path} {source : Source} {runId : String}

/-- How far acquiring a slot comes: not to the directory of the slot, to that directory, or to the source in it. -/
inductive Reached (root : Files.Path) (source : Source) (runId : String) (s : Scene σ) : Prop where
  | root (e : Failure)
      (h : acquire root source runId s = (.error e, { s with files := (s.files.provideDirectory s.host.ascent root).2 }))
  | workdir (files : Tree) (fault : Files.Fault)
      (hworkdir : (s.files.provideDirectory s.host.ascent root).2.makeDirectory (slotOf root source runId).workdir = .ok files)
      (hwrite : files.write (slotOf root source runId).source source.content = .error fault)
      (h : ∀ e t, writeSource (slotOf root source runId) source.content { s with files } = (.error e, t) →
        acquire root source runId s = (.error e, t))
  | source (files last : Tree)
      (hworkdir : (s.files.provideDirectory s.host.ascent root).2.makeDirectory (slotOf root source runId).workdir = .ok files)
      (hwrite : files.write (slotOf root source runId).source source.content = .ok last)
      (h : acquire root source runId s = (.ok (slotOf root source runId), { s with files := last }))

theorem reached (root : Files.Path) (source : Source) (runId : String) (s : Scene σ) : Reached root source runId s := by
  rcases hroot : s.files.provideDirectory s.host.ascent root with ⟨fault | ⟨⟩, files⟩
  · refine .root (refusedAs (.rootNotCreated root) fault) ?_
    rw [hroot, acquire, Act.bind_of_error (makeRoot_of_error hroot)]
  have hmade := makeRoot_of_ok hroot
  have hfiles : (s.files.provideDirectory s.host.ascent root).2 = files := congrArg Prod.snd hroot
  cases hworkdir : files.makeDirectory (slotOf root source runId).workdir with
  | error fault =>
    obtain ⟨e, he⟩ := makeWorkdir_of_error (slotOf root source runId) { s with files } hworkdir
    refine .root e ?_
    rw [hfiles, acquire, Act.bind_of_ok hmade, Act.bind_of_error he]
  | ok last =>
    have hmade' := makeWorkdir_of_ok (slotOf root source runId) { s with files } hworkdir
    cases hwrite : last.write (slotOf root source runId).source source.content with
    | error fault =>
      refine .workdir last fault (hfiles ▸ hworkdir) hwrite fun e t he => ?_
      rw [acquire, Act.bind_of_ok hmade, Act.bind_of_ok hmade', Act.bind_of_error he]
    | ok written =>
      have hwritten := writeSource_of_ok (slotOf root source runId) { s with files := last } hwrite
      refine .source last written (hfiles ▸ hworkdir) hwrite ?_
      rw [acquire, Act.bind_of_ok hmade, Act.bind_of_ok hmade', Act.bind_of_ok hwritten]
      rfl

/-- A path in the directory of a slot, under a name without a null character. -/
theorem not_null_child {workdir : Files.Path} {name : String} (hworkdir : workdir.text.toList.contains '\x00' = false)
    (hname : Files.Path.ofText name = ⟨.none, [name]⟩) (hnull : '\x00' ∉ name.toList) :
    (workdir.child name).text.toList.contains '\x00' = false := by
  simp only [List.contains_eq_mem, decide_eq_false_iff_not, Files.Path.mem_text (c := '\x00') (by decide) (by decide)]
    at hworkdir ⊢
  rintro ⟨part, hpart, hc⟩
  rw [Files.Path.child, hname, Files.Path.join, if_neg (by simp [Files.Path.isAbsolute])] at hpart
  rcases List.mem_append.1 hpart with hpart | hpart
  · exact hworkdir ⟨part, hpart, hc⟩
  · exact hnull (List.mem_singleton.1 hpart ▸ hc)

theorem outputName_cases (name : String) : outputName name = "results.json" ∨ outputName name = "_results.json" := by
  rw [outputName]
  split
  · exact .inr rfl
  · exact .inl rfl

theorem ofText_outputName (name : String) :
    Files.Path.ofText (outputName name) = ⟨.none, [outputName name]⟩ ∧ '\x00' ∉ (outputName name).toList ∧
      outputName name ≠ ".." := by
  rcases outputName_cases name with h | h <;> rw [h] <;>
    exact ⟨Files.Path.ofText_of_isPart (by decide) (by decide) (by decide), by decide, by decide⟩

theorem workdir_slotOf (root : Files.Path) (source : Source) (runId : String) :
    (slotOf root source runId).workdir = root.child (slotMark ++ runId) := by
  simp only [slotOf]

theorem source_slotOf (root : Files.Path) (source : Source) (runId : String) :
    (slotOf root source runId).source = (slotOf root source runId).workdir.child source.identifier := by
  simp only [slotOf]

theorem output_slotOf (root : Files.Path) (source : Source) (runId : String) :
    (slotOf root source runId).output = (slotOf root source runId).workdir.child (outputName source.identifier) := by
  simp only [slotOf]

theorem releasable_slotOf (hworkdir : (slotOf root source runId).workdir.text.toList.contains '\x00' = false)
    (hsource : (slotOf root source runId).source.text.toList.contains '\x00' = false)
    (hfits : (slotOf root source runId).workdir.Fits) : Releasable (slotOf root source runId) := by
  refine ⟨hsource, ?_, hworkdir, hfits⟩
  rw [output_slotOf]
  exact not_null_child hworkdir (ofText_outputName _).1 (ofText_outputName _).2.1

theorem place_child (files : Tree) (path : Files.Path) {name : String}
    (hname : Files.Path.ofText name = ⟨.none, [name]⟩) (hup : name ≠ "..") :
    files.place (path.child name) = files.place path ++ [name] := by
  rw [Files.Path.child, Tree.place_join _ _ _ (by rw [hname]), hname]
  simp [Tree.lead, hup]

/-- The files of a slot lie in its own directory. -/
theorem nested_slotOf {content : Files.Bytes} {given : String} (h : Source.make content given = .ok source)
    (root : Files.Path) (runId : String) (files : Tree) : Nested (slotOf root source runId) files := by
  obtain ⟨hname, hup⟩ := Files.Path.ofText_of_make h
  obtain ⟨houtput, -, hup'⟩ := ofText_outputName source.identifier
  refine ⟨⟨source.identifier, ?_⟩, ⟨outputName source.identifier, ?_⟩⟩
  · rw [source_slotOf]
    exact place_child files _ hname hup
  · rw [output_slotOf]
    exact place_child files _ houtput hup'

/-- A run always has a name; at most, one name more has been made up. -/
theorem runName_run (given : Option String) (s : Scene σ) :
    ∃ name names, runName given s = (.ok name, { s with names }) := by
  rw [runName.eq_def]
  split
  · exact ⟨_, _, rfl⟩
  · exact ⟨_, _, rfl⟩
  · exact ⟨_, s.names, rfl⟩

/-- A slot whose directory has been made, and whose source the system has been asked to write, can be released. -/
theorem releasable_of_write {made files : Tree} {content : Files.Bytes} {r : Except Files.Fault Tree}
    (hmade : made.makeDirectory (slotOf root source runId).workdir = .ok files)
    (hwrite : files.write (slotOf root source runId).source content = r) (hr : r ≠ .error .nullInPath) :
    Releasable (slotOf root source runId) := by
  obtain ⟨place, hreach, -⟩ := Tree.makeDirectory_eq_ok hmade
  obtain ⟨hworkdir, hfind⟩ := Tree.reach_eq_ok hreach
  refine releasable_slotOf hworkdir (Bool.eq_false_iff.2 fun hnull => hr ?_) (Tree.fits_of_find hfind)
  rw [← hwrite, Tree.write_of_null hnull]

/-- What acquiring a slot does, whether it comes to its end or not, is to change the files and to give warnings. -/
theorem acquire_cleaned (root : Files.Path) (source : Source) (runId : String) (s : Scene σ) :
    ∃ files es, (acquire root source runId s).2 = cleaned s files es := by
  have hfiles : ∀ files, ({ s with files } : Scene σ) = cleaned s files [] := fun files =>
    (Scene.noting_nil { s with files }).symm
  cases reached root source runId s with
  | root e he => exact ⟨_, [], by rw [he, hfiles]⟩
  | source files last _ _ he => exact ⟨_, [], by rw [he, hfiles]⟩
  | workdir files fault hworkdir hwrite he =>
    cases hrefusal : fault.isRefusal with
    | false => exact ⟨files, [], by rw [he _ _ (writeSource_of_fault _ _ hwrite hrefusal), hfiles]⟩
    | true =>
      have hnull : fault ≠ .nullInPath := by
        rintro rfl
        simp [Files.Fault.isRefusal] at hrefusal
      obtain ⟨r, es, left, hrelease, -⟩ := release_run
        (releasable_of_write hworkdir hwrite fun h => hnull (Except.error.inj h)) { s with files }
      refine ⟨left, es, ?_⟩
      cases r with
      | ok => exact congrArg Prod.snd (he _ _ (writeSource_of_refusal _ _ hwrite hrefusal hrelease))
      | error e => exact congrArg Prod.snd (he _ _ (writeSource_of_stuck _ _ hwrite hrefusal hrelease))

/-- A slot that has been acquired: its directory has not been there before, and nothing has been done but to make it, with
the directories on the way to the root of all slots, and to write the source. -/
structure Acquired (root : Files.Path) (source : Source) (runId : String) (s : Scene σ) (slot : Slot) (t : Scene σ) :
    Prop where
  slot_eq : slot = slotOf root source runId
  releasable : Releasable slot
  place_ne : s.files.place slot.workdir ≠ []
  made : ∃ files, (s.files.provideDirectory s.host.ascent root).2.makeDirectory slot.workdir = .ok files ∧
    files.write slot.source source.content = .ok t.files
  scene_eq : t = { s with files := t.files }

theorem acquire_eq_ok (h : acquire root source runId s = (.ok slot, t)) : Acquired root source runId s slot t := by
  cases reached root source runId s with
  | root e he => simp [he] at h
  | workdir files fault _ hwrite he =>
    obtain ⟨e, u, hfails⟩ := writeSource_of_error (slotOf root source runId) { s with files } hwrite
    simp [he e u hfails] at h
  | source files last hworkdir hwrite he =>
    rw [he] at h
    obtain ⟨rfl, rfl⟩ := Act.ok_eq_ok.1 h
    refine ⟨rfl, releasable_of_write hworkdir hwrite (by simp), ?_, ⟨files, hworkdir, hwrite⟩, rfl⟩
    obtain ⟨place, hreach, hnone, -⟩ := Tree.makeDirectory_eq_ok hworkdir
    have hhere := (Tree.grows_provideDirectory s.host.ascent root s.files).here
    obtain rfl := Tree.eq_place_of_reach hreach
    rw [← Tree.place_congr hhere]
    exact Tree.ne_nil_of_get? (t := (s.files.provideDirectory s.host.ascent root).2) (by simp [hnone])

/-- Nothing outside the directory of a slot that has been acquired has changed but that directories on the way to the root
of all slots may have been made. -/
theorem Acquired.outside {content : Files.Bytes} {given : String} (h : Acquired root source runId s slot t)
    (hsource : Source.make content given = .ok source) :
    t.files.here = s.files.here ∧ ∀ place, ¬ s.files.place slot.workdir <+: place →
      t.files.get? place = s.files.get? place ∨
        s.files.way root place ∧ s.files.get? place = none ∧ t.files.get? place = some .directory := by
  obtain ⟨files, hmade, hwrite⟩ := h.made
  have hroot := Tree.grows_provideDirectory s.host.ascent root s.files
  have hgrows := Tree.grows_makeDirectory hmade
  have hhere : files.here = s.files.here := hgrows.here.trans hroot.here
  obtain ⟨place', hreach, hne, hput⟩ := Tree.write_eq_ok hwrite
  refine ⟨(Tree.keeps_write hwrite).here.trans hhere, fun place hplace => ?_⟩
  have hsame : t.files.get? place = (s.files.provideDirectory s.host.ascent root).2.get? place := by
    have hwritten : t.files.get? place = files.get? place := by
      rw [hput, Tree.get?_put _ _ _ _ (Tree.ne_nil_of_get? hne), if_neg]
      rintro rfl
      obtain ⟨name, hname⟩ := h.slot_eq ▸ (nested_slotOf hsource root runId files).source
      rw [Tree.eq_place_of_reach hreach, hname, Tree.place_congr hhere] at hplace
      exact hplace (List.prefix_append _ _)
    refine hwritten.trans ((hgrows.get? place).resolve_right fun hnew => hplace ?_)
    rw [hnew.1, ← Tree.place_congr hroot.here]
  rw [hsame]
  exact hroot.get? place

/-! ### In a slot -/

/-- Whatever is done in a slot, the slot is released afterwards, and what it has come to is not changed by that unless the
release fails. -/
theorem within_run {α : Type} {given : Option String} (use : Slot → Run σ α)
    (h : (do acquire root source (← runName given) : Run σ Slot) s = (.ok slot, t)) :
    ∃ r es files, within root source given use s =
        (r.bind fun _ => (use slot t).1.map fun a => (a, es.map StagingError.text), cleaned (use slot t).2 files es) ∧
      (∀ e, r = .error e → e = .file (.tooDeep .removing) ∧ TooDeep slot (use slot t).2) ∧
      (Nested slot (use slot t).2.files → (use slot t).2.files.place slot.workdir ≠ [] →
        Released slot (use slot t).2.files files es r) := by
  obtain ⟨name, u, hname, hacquire⟩ := Act.bind_eq_ok h
  have hacquired := acquire_eq_ok hacquire
  obtain ⟨r, es, files, hrelease, hfails, hreleased⟩ := release_run hacquired.releasable (use slot t).2
  refine ⟨r, es, files, ?_, hfails, hreleased⟩
  have hwarnings : (warned slot es).warnings = es.map StagingError.text := by
    rw [warned, hacquired.slot_eq]
    exact List.nil_append _
  rw [within, Act.bind_of_ok hname, Act.bind_of_ok hacquire, Run.outcome_bind_run]
  cases r with
  | error e => rw [Act.bind_of_error hrelease]; rfl
  | ok =>
    rw [Act.bind_of_ok hrelease, Act.bind_run, Run.ofExcept_run, hwarnings]
    cases (use slot t).1 <;> rfl

end Staging
end Adjudication
