import Adjudication.Proofs.Staging.Sharing

/-!
What a step of a run does to the files, and what it keeps. A run that holds the directory of its slot has made it where
there was nothing while the root of all slots was there, so the directory is not on the way to that root. Every further
step changes nothing outside that directory.
-/

namespace Adjudication.Staging

open Files (Tree Place)
open Files.Tree (Agrees Prunes)

variable {σ : Type} {root : Files.Path} {g : Tenant} {s : Scene σ} {t u : Tree} {p p' : Phase}

/-! ### Places of slots -/

theorem ofText_slotName (g : Tenant) :
    Files.Path.ofText (slotMark ++ g.runId) = ⟨.none, [slotMark ++ g.runId]⟩ ∧ slotMark ++ g.runId ≠ ".." := by
  have hchars : (slotMark ++ g.runId).toList = 's' :: "cverify-".toList ++ g.runId.toList := by
    rw [String.toList_append, slotMark]
    rfl
  have hmark : '/' ∉ 's' :: "cverify-".toList := by decide
  refine ⟨Files.Path.ofText_of_isPart (by simp [hchars]) (by simp [hchars]) ?_, fun h => ?_⟩
  · rw [hchars, List.mem_append]
    exact not_or.2 ⟨hmark, g.single⟩
  · rw [h] at hchars
    exact absurd hchars (by simp)

/-- Where the directory of a run's slot belongs. -/
def Tenant.home (root : Files.Path) (g : Tenant) (t : Tree) : Place := t.place (g.slot root).workdir

theorem place_workdir (root : Files.Path) (g : Tenant) (t : Tree) : t.place (g.slot root).workdir = g.home root t := rfl

attribute [irreducible] Tenant.home

theorem home_eq (root : Files.Path) (g : Tenant) (t : Tree) : g.home root t = t.place root ++ [slotMark ++ g.runId] := by
  rw [← place_workdir, workdir_slotOf, place_child t root (ofText_slotName g).1 (ofText_slotName g).2]

theorem home_ne_nil (g : Tenant) (root : Files.Path) (t : Tree) : g.home root t ≠ [] := by
  simp [home_eq]

theorem home_congr (h : u.here = t.here) : g.home root u = g.home root t := by
  rw [← place_workdir, ← place_workdir, Tree.place_congr h]

/-- The files of a slot belong in its directory. -/
theorem nested_home (g : Tenant) (root : Files.Path) (t : Tree) :
    (∃ name, t.place (g.slot root).source = g.home root t ++ [name]) ∧
      ∃ name, t.place (g.slot root).output = g.home root t ++ [name] := by
  obtain ⟨content, given, hmake⟩ := g.named
  obtain ⟨hsource, houtput⟩ := nested_slotOf hmake root g.runId t
  rw [← place_workdir]
  exact ⟨hsource, houtput⟩

/-- The directory of a slot is made where there has been nothing. -/
theorem home_of_makeDirectory (h : t.makeDirectory (g.slot root).workdir = .ok u) :
    t.get? (g.home root t) = none ∧ u = t.put (g.home root t) .directory := by
  obtain ⟨place, hreach, hnone, hput⟩ := Tree.makeDirectory_eq_ok h
  obtain rfl := (Tree.eq_place_of_reach hreach).trans (place_workdir root g t)
  exact ⟨hnone, hput⟩

theorem directory_home (h : t.isDirectoryAt (g.slot root).workdir = true) : t.get? (g.home root t) = some .directory :=
  place_workdir root g t ▸ (Tree.isDirectoryAt_iff.1 h).2

/-- Only slots of one name have a place in common below their directories. -/
theorem runId_of_below {h : Tenant} {w : Place} (hg : g.home root t <+: w) (hh : h.home root t <+: w) :
    g.runId = h.runId := by
  rw [home_eq] at hg hh
  have heq := (List.prefix_of_prefix_length_le hg hh (by simp)).eq_of_length (by simp)
  simpa using List.append_cancel_left heq

theorem home_of_runId {h : Tenant} (hname : g.runId = h.runId) (root : Files.Path) (t : Tree) :
    g.home root t = h.home root t := by
  rw [home_eq, home_eq, hname]

/-- The directory of a slot is not on the way to the root of all slots, nor is the place there that paths start from. -/
structure Apart (root : Files.Path) (g : Tenant) (t : Tree) : Prop where
  way : ∀ w, t.way root w → ¬ g.home root t <+: w
  here : ¬ g.home root t <+: t.here

/-- What is not there while the root of all slots is, is apart from it. -/
theorem apart_of_none (hgrounded : t.Grounded) (hroot : t.isDirectoryAt root = true) (hnone : t.get? (g.home root t) = none) :
    Apart root g t := by
  have hclear := hgrounded.clear hnone
  constructor
  · intro w hw hbelow
    have hdirectory := Tree.directory_of_way hroot hw
    simp [hclear w hbelow] at hdirectory
  · intro hbelow
    have hdirectory := hgrounded.here
    simp [hclear _ hbelow] at hdirectory

/-! ### What a step does to the files -/

/-- An analyzer changes nothing but what is below the directory of its run's slot. -/
structure Works (root : Files.Path) (g : Tenant) (t u : Tree) : Prop where
  agrees : Agrees (fun w => g.home root t <+: w → w = g.home root t) t u
  grounded : t.Grounded → u.Grounded

/-- What a step of a run, or of its analyzer, does to the files. -/
inductive Moves (root : Files.Path) (g : Tenant) (t : Tree) : Phase → Phase → Tree → Prop where
  | rooted (levels : Nat) (u : Tree) (h : t.provideDirectory levels root = (.ok (), u)) : Moves root g t .waiting .rooted u
  | unrooted (levels : Nat) (e : Failure) : Moves root g t .waiting (.refused e) (t.provideDirectory levels root).2
  | made (u : Tree) (h : t.makeDirectory (g.slot root).workdir = .ok u) : Moves root g t .rooted .made u
  | turnedAway (e : Failure) : Moves root g t .rooted (.refused e) t
  | written (u : Tree) (h : t.write (g.slot root).source g.source.content = .ok u) :
      Moves root g t .made (.staged false) u
  | unwritten (fault : Files.Fault) (why : StagingError)
      (h : t.write (g.slot root).source g.source.content = .error fault) (hrefusal : fault.isRefusal = true) :
      Moves root g t .made (.leaving .source (g.slot root) (some why)) t
  | stranded (e : Failure) : Moves root g t .made (.stranded e) t
  | worked (touched touched' : Bool) (u : Tree) (h : Works root g t u)
      (hsource : touched' = false →
        touched = false ∧ u.get? (t.place (g.slot root).source) = t.get? (t.place (g.slot root).source)) :
      Moves root g t (.staged touched) (.staged touched') u
  | leave (touched : Bool) : Moves root g t (.staged touched) (.leaving .source (g.slot root) none) t
  | removed (next next' : Part) (slot : Slot) (es : List StagingError) (why : Option StagingError) (path : Files.Path)
      (u : Tree) (hpath : ∃ name, t.place path = g.home root t ++ [name]) (h : t.remove path = .ok u ∨ u = t) :
      Moves root g t (.leaving next slot why) (.leaving next' (warned slot es) why) u
  | gone (slot : Slot) (why : Option StagingError) :
      Moves root g t (.leaving .workdir slot why) (.gone slot why) (t.prune (g.home root t))
  | stuck (slot : Slot) (why : Option StagingError) (e : Failure) (u : Tree)
      (h : Prunes (fun w => g.home root t <+: w ∧ w ≠ g.home root t) t u)
      (hgrounded : t.Grounded → ¬ g.home root t <+: t.here → u.Grounded) :
      Moves root g t (.leaving .workdir slot why) (.stranded e) u
  | ended (p : Phase) (h : p.Ended) : Moves root g t p p t

/-- A run that holds the directory of its slot. -/
structure Lodged (root : Files.Path) (g : Tenant) (t : Tree) : Prop where
  workdir : t.isDirectoryAt (g.slot root).workdir = true
  apart : Apart root g t

/-- What is so of a run at any time. -/
structure Good (root : Files.Path) (g : Tenant) (t : Tree) (p : Phase) : Prop where
  rooted : p.Begun → t.isDirectoryAt root = true
  lodged : p.Holds → Lodged root g t
  intact : p = .staged false → t.get? (t.place (g.slot root).source) = some (.file g.source.content)
  releasable : p.Staged → Releasable (g.slot root)
  slot : ∀ next slot why, p = .leaving next slot why → ∃ es, slot = warned (g.slot root) es

/-- A slot whose directory is there and whose source the system has been asked to write can be released. -/
theorem releasable_of_isDirectoryAt {r : Except Files.Fault Tree} (h : t.isDirectoryAt (g.slot root).workdir = true)
    (hwrite : t.write (g.slot root).source g.source.content = r) (hr : r ≠ .error .nullInPath) :
    Releasable (g.slot root) := by
  obtain ⟨hnull, hfind⟩ := Tree.reach_eq_ok (Tree.isDirectoryAt_iff.1 h).1
  refine releasable_slotOf hnull (Bool.eq_false_iff.2 fun hsource => hr ?_) (Tree.fits_of_find hfind)
  rw [← hwrite, Tree.write_of_null hsource]

/-- The directory of a slot that is there is removed with everything in it, unless it is too deep. Then it stays. -/
theorem removeWorkdir_of_isDirectoryAt {slot : Slot} (h : s.files.isDirectoryAt slot.workdir = true) :
    removeWorkdir slot s = (.ok slot, { s with files := s.files.prune (s.files.place slot.workdir) }) ∨
      ∃ e u, removeWorkdir slot s = (.error e, { s with files := u }) ∧
        Prunes (fun w => s.files.place slot.workdir <+: w ∧ w ≠ s.files.place slot.workdir) s.files u ∧
        (s.files.Grounded → ¬ s.files.place slot.workdir <+: s.files.here → u.Grounded) := by
  obtain ⟨hreach, hdirectory⟩ := Tree.isDirectoryAt_iff.1 h
  have hholds : s.files.holds slot.workdir = .ok true := by simp [Tree.holds, hreach, hdirectory]
  rw [removeWorkdir, Act.bind_of_ok (Run.ask_run_of_ok hholds), if_pos rfl]
  by_cases hdeep : s.files.Deep (s.host.descent + 1) (s.files.place slot.workdir)
  · obtain ⟨u, hremove, hprunes⟩ := Tree.removeAll_of_deep hreach hdeep
    refine .inr ⟨.file (.tooDeep .removing), u, ?_, hprunes, fun hgrounded hhere => ?_⟩
    · rw [Act.bind_of_ok (Run.undertake_run hremove)]
      rfl
    · have hleft := hgrounded.removeAll hhere s.host.descent
      rwa [hremove] at hleft
  · rw [Act.bind_of_ok (Run.undertake_run (Tree.removeAll_of_directory hreach hdirectory hdeep))]
    exact .inl rfl

/-- A file of a slot is removed, or there is a warning. -/
theorem moves_removeFile {next next' : Part} {slot : Slot} {why : Option StagingError} {path : Files.Path}
    (hnull : path.text.toList.contains '\x00' = false)
    (hpath : ∃ name, s.files.place path = g.home root s.files ++ [name]) :
    Moves root g s.files (.leaving next slot why)
      (.ofRemoval (.leaving next' · why) (removeFile slot path s).1) (removeFile slot path s).2.files := by
  obtain ⟨es, files, hrun, hfiles⟩ := removeFile_run hnull slot s
  rw [hrun]
  exact .removed next next' slot es why path files hpath hfiles

/-- Every step of a run is one of those told. -/
theorem moves_turn (hgood : Good root g s.files p) :
    Moves root g s.files p (turn root g (p, s)).1 (turn root g (p, s)).2.files := by
  cases p with
  | waiting =>
    rw [turn_waiting]
    rcases hroot : s.files.provideDirectory s.host.ascent root with ⟨fault | ⟨⟩, files⟩
    · rw [makeRoot_of_error hroot]
      have hmoves : Moves root g s.files .waiting (.refused (refusedAs (.rootNotCreated root) fault)) _ :=
        .unrooted s.host.ascent _
      rwa [hroot] at hmoves
    · rw [makeRoot_of_ok hroot]
      exact .rooted s.host.ascent files hroot
  | rooted =>
    rw [turn_rooted]
    cases hmake : s.files.makeDirectory (g.slot root).workdir with
    | ok files =>
      rw [makeWorkdir_of_ok (g.slot root) s hmake]
      exact .made files hmake
    | error fault =>
      obtain ⟨e, he⟩ := makeWorkdir_of_error (g.slot root) s hmake
      rw [he]
      exact .turnedAway e
  | made =>
    cases hwrite : s.files.write (g.slot root).source g.source.content with
    | ok files =>
      rw [turn_made_of_ok hwrite]
      exact .written files hwrite
    | error fault =>
      rw [turn_made_of_error hwrite]
      cases hrefusal : fault.isRefusal with
      | false => exact .stranded (.file fault)
      | true => exact .unwritten fault _ hwrite hrefusal
  | staged touched => exact .leave touched
  | leaving next slot why =>
    obtain ⟨es, rfl⟩ := hgood.slot _ _ _ rfl
    have hreleasable := hgood.releasable trivial
    cases next with
    | source =>
      rw [turn_source, warned_source]
      dsimp only
      exact moves_removeFile hreleasable.source (nested_home g root s.files).1
    | output =>
      rw [turn_output, warned_output]
      dsimp only
      exact moves_removeFile hreleasable.output (nested_home g root s.files).2
    | workdir =>
      have hworkdir : s.files.isDirectoryAt (warned (g.slot root) es).workdir = true := by
        rw [warned_workdir]
        exact (hgood.lodged trivial).workdir
      rw [turn_workdir]
      rcases removeWorkdir_of_isDirectoryAt hworkdir with hrun | ⟨e, u, hrun, hprunes, hgrounded⟩
      · rw [hrun, warned_workdir, place_workdir]
        exact .gone _ why
      · rw [warned_workdir, place_workdir] at hprunes hgrounded
        rw [hrun]
        exact .stuck _ why e u hprunes hgrounded
  | gone slot why => exact .ended _ trivial
  | refused e => exact .ended _ trivial
  | stranded e => exact .ended _ trivial

/-! ### What a step keeps -/

theorem way_slot {w : Place} (h : t.way (g.slot root).workdir w) : t.way root w ∨ w = g.home root t := by
  rw [workdir_slotOf] at h
  rw [← place_workdir, workdir_slotOf]
  exact Tree.way_child (ofText_slotName g).1 h

/-- A slot that is apart stays where it is, as long as there is a directory. -/
theorem isDirectoryAt_slot (h : t.isDirectoryAt (g.slot root).workdir = true) (hway : Agrees (t.way root) t u)
    (hhome : u.get? (g.home root t) = some .directory) : u.isDirectoryAt (g.slot root).workdir = true :=
  Tree.isDirectoryAt_of_way h hway.here fun w hw => by
    rcases way_slot hw with hroot | rfl
    · exact (hway.get? w hroot).trans (Tree.directory_of_way h hw)
    · exact hhome

theorem Apart.congr (h : Apart root g t) (hhere : u.here = t.here) : Apart root g u := by
  constructor
  · intro w hw
    rw [home_congr hhere]
    exact h.way w ((Tree.way_congr hhere root w).1 hw)
  · rw [home_congr hhere, hhere]
    exact h.here

/-- What is below the directory of a slot is not on the way to the root. -/
theorem Apart.agrees_way (h : Apart root g t) (hagrees : Agrees (¬ g.home root t <+: ·) t u) : Agrees (t.way root) t u :=
  hagrees.mono h.way

theorem Works.agrees_outside (h : Works root g t u) : Agrees (¬ g.home root t <+: ·) t u :=
  h.agrees.mono fun _ hbelow hhome => absurd hhome hbelow

theorem agrees_of_makeDirectory (h : t.makeDirectory (g.slot root).workdir = .ok u) :
    Agrees (¬ g.home root t <+: ·) t u := by
  refine (Tree.grows_makeDirectory h).agrees.mono fun _ hbelow he => hbelow ?_
  rw [he, place_workdir]

theorem agrees_of_write (h : t.write (g.slot root).source g.source.content = .ok u) :
    Agrees (¬ g.home root t <+: ·) t u := by
  obtain ⟨place, hreach, -, rfl⟩ := Tree.write_eq_ok h
  obtain ⟨name, hname⟩ := (nested_home g root t).1
  refine (Tree.agrees_put t place _).mono fun other hbelow => ?_
  rintro rfl
  rw [Tree.eq_place_of_reach hreach, hname] at hbelow
  exact hbelow (List.prefix_append _ _)

theorem agrees_of_remove {path : Files.Path} (hpath : ∃ name, t.place path = g.home root t ++ [name])
    (h : t.remove path = .ok u ∨ u = t) : Agrees (¬ g.home root t <+: ·) t u := by
  obtain ⟨name, hname⟩ := hpath
  rw [← place_workdir] at hname ⊢
  exact (prunes_of_nested hname h).agrees

/-- A step of a run that has the root of all slots there changes nothing outside the directory of its slot, and nothing at
all unless it has made that directory, or makes it where there has been nothing. -/
theorem Moves.outside (h : Moves root g t p p' u) (hgood : Good root g t p) (hgrounded : t.Grounded)
    (hroot : t.isDirectoryAt root = true) :
    u = t ∨ Apart root g t ∧ Agrees (¬ g.home root t <+: ·) t u ∧ (p.Holds ∨ p'.Holds ∧ t.get? (g.home root t) = none) := by
  cases h with
  | rooted levels u h =>
    rw [Tree.provideDirectory_of_isDirectoryAt hroot] at h
    exact .inl (Prod.mk.inj h).2.symm
  | unrooted levels e =>
    rw [Tree.provideDirectory_of_isDirectoryAt hroot]
    exact .inl rfl
  | made u h =>
    have hnone := (home_of_makeDirectory h).1
    exact .inr ⟨apart_of_none hgrounded hroot hnone, agrees_of_makeDirectory h, .inr ⟨trivial, hnone⟩⟩
  | turnedAway e => exact .inl rfl
  | written u h => exact .inr ⟨(hgood.lodged trivial).apart, agrees_of_write h, .inl trivial⟩
  | unwritten fault why h hrefusal => exact .inl rfl
  | stranded e => exact .inl rfl
  | worked touched touched' u h hsource => exact .inr ⟨(hgood.lodged trivial).apart, h.agrees_outside, .inl trivial⟩
  | leave touched => exact .inl rfl
  | removed next next' slot es why path u hpath h =>
    exact .inr ⟨(hgood.lodged trivial).apart, agrees_of_remove hpath h, .inl trivial⟩
  | gone slot why =>
    exact .inr ⟨(hgood.lodged trivial).apart, (Tree.prunes_prune (home_ne_nil g root t) t).agrees, .inl trivial⟩
  | stuck slot why e u h hgrounded =>
    exact .inr ⟨(hgood.lodged trivial).apart, (h.mono fun _ hbelow => hbelow.1).agrees, .inl trivial⟩
  | ended p h => exact .inl rfl

theorem Moves.here (h : Moves root g t p p' u) : u.here = t.here := by
  cases h with
  | rooted levels u h => exact (congrArg (fun r => r.2.here) h).symm.trans (Tree.grows_provideDirectory levels root t).here
  | unrooted levels e => exact (Tree.grows_provideDirectory levels root t).here
  | made u h => exact (agrees_of_makeDirectory h).here
  | written u h => exact (agrees_of_write h).here
  | worked touched touched' u h hsource => exact h.agrees.here
  | removed next next' slot es why path u hpath h => exact (agrees_of_remove hpath h).here
  | gone slot why => rfl
  | stuck slot why e u h hgrounded => exact h.here
  | turnedAway | unwritten | stranded | leave | ended => rfl

theorem Moves.grounded (h : Moves root g t p p' u) (hgood : Good root g t p) (hgrounded : t.Grounded) : u.Grounded := by
  cases h with
  | rooted levels u h =>
    have hmade := Tree.Grounded.provideDirectory levels root hgrounded
    rwa [h] at hmade
  | unrooted levels e => exact Tree.Grounded.provideDirectory levels root hgrounded
  | made u h => exact hgrounded.makeDirectory h
  | written u h => exact hgrounded.write h
  | worked touched touched' u h hsource => exact h.grounded hgrounded
  | removed next next' slot es why path u hpath h =>
    rcases h with h | rfl
    · exact hgrounded.remove h
    · exact hgrounded
  | gone slot why => exact hgrounded.prune (hgood.lodged trivial).apart.here
  | stuck slot why e u h hleft => exact hleft hgrounded (hgood.lodged trivial).apart.here
  | turnedAway | unwritten | stranded | leave | ended => exact hgrounded

/-- A run comes to hold the directory of its slot only by making it. -/
theorem Moves.holds (h : Moves root g t p p' u) (hholds : p'.Holds) : p.Holds ∨ t.get? (g.home root t) = none := by
  cases h with
  | made u h => exact .inr (home_of_makeDirectory h).1
  | rooted | unrooted | turnedAway | gone => exact hholds.elim
  | written | unwritten | stranded | worked | leave | removed | stuck => exact .inl trivial
  | ended => exact .inl hholds

/-- A run that no longer holds the directory of its slot has left nothing there. -/
theorem Moves.clear (h : Moves root g t p p' u) (hholds : p.Holds) : p'.Holds ∨ u.Clear (g.home root t) := by
  cases h with
  | gone slot why => exact .inr (Tree.clear_prune (home_ne_nil g root t) t)
  | rooted | unrooted | made | turnedAway => exact hholds.elim
  | written | unwritten | stranded | worked | leave | removed | stuck => exact .inl trivial
  | ended => exact .inl hholds

/-- A run whose slot is gone has just removed it, or has done so before. -/
theorem Moves.of_over (h : Moves root g t p p' u) (hover : p'.Over) : p.Holds ∨ p = p' ∧ u = t := by
  cases h with
  | gone slot why => exact .inl trivial
  | ended => exact .inr ⟨rfl, rfl⟩
  | rooted | unrooted | made | turnedAway | written | unwritten | stranded | worked | leave | removed | stuck => exact hover.elim

theorem Phase.begun_of_holds (h : p.Holds) : p.Begun := by
  cases p <;> trivial

theorem Phase.begun_of_over (h : p.Over) : p.Begun := by
  cases p <;> trivial

theorem Phase.not_holds_of_over (h : p.Over) : ¬ p.Holds := by
  cases p <;> first | exact h.elim | exact id

theorem good_of_not_holds (hrooted : p.Begun → t.isDirectoryAt root = true) (h : ¬ p.Holds) : Good root g t p := by
  refine ⟨hrooted, fun hholds => absurd hholds h, ?_, fun hstaged => ?_, ?_⟩
  · rintro rfl
    exact absurd trivial h
  · cases p <;> first | exact hstaged.elim | exact absurd trivial h
  · rintro next slot why rfl
    exact absurd trivial h

theorem Lodged.of_keeps (h : Lodged root g t) (hkeeps : Tree.Keeps t u) : Lodged root g u :=
  ⟨hkeeps.isDirectoryAt h.workdir, h.apart.congr hkeeps.here⟩

theorem Lodged.of_agrees (h : Lodged root g t) (hway : Agrees (t.way root) t u)
    (hhome : u.get? (g.home root t) = t.get? (g.home root t)) : Lodged root g u :=
  ⟨isDirectoryAt_slot h.workdir hway (hhome.trans (directory_home h.workdir)), h.apart.congr hway.here⟩

theorem Moves.good (h : Moves root g t p p' u) (hgood : Good root g t p) (hgrounded : t.Grounded) : Good root g u p' := by
  cases h with
  | rooted levels u h => exact good_of_not_holds (fun _ => Tree.isDirectoryAt_of_provideDirectory h) id
  | unrooted levels e => exact good_of_not_holds False.elim id
  | made u h =>
    have hroot := hgood.rooted trivial
    have hnone := (home_of_makeDirectory h).1
    have hkeeps := Tree.keeps_makeDirectory h
    exact ⟨fun _ => hkeeps.isDirectoryAt hroot, fun _ => ⟨Tree.isDirectoryAt_of_makeDirectory h,
      (apart_of_none hgrounded hroot hnone).congr hkeeps.here⟩, by simp, False.elim, by simp⟩
  | turnedAway e => exact good_of_not_holds False.elim id
  | written u h =>
    have hlodged := hgood.lodged trivial
    have hkeeps := Tree.keeps_write h
    refine ⟨fun _ => hkeeps.isDirectoryAt (hgood.rooted trivial), fun _ => hlodged.of_keeps hkeeps, fun _ => ?_,
      fun _ => releasable_of_isDirectoryAt hlodged.workdir h (by simp), by simp⟩
    obtain ⟨place, hreach, hne, rfl⟩ := Tree.write_eq_ok h
    rw [Tree.place_congr hkeeps.here, ← Tree.eq_place_of_reach hreach]
    exact Tree.get?_put_self (Tree.ne_nil_of_get? hne) t _
  | unwritten fault why h hrefusal =>
    refine ⟨hgood.rooted, hgood.lodged, by simp, fun _ => ?_, ?_⟩
    · refine releasable_of_isDirectoryAt (hgood.lodged trivial).workdir h ?_
      rintro ⟨⟩
      exact Bool.false_ne_true hrefusal
    · rintro next slot why' ⟨⟩
      exact ⟨[], (warned_nil _).symm⟩
  | stranded e => exact ⟨hgood.rooted, hgood.lodged, by simp, False.elim, by simp⟩
  | worked touched touched' u h hsource =>
    have hlodged := hgood.lodged trivial
    have hway := hlodged.apart.agrees_way h.agrees_outside
    refine ⟨fun _ => Tree.isDirectoryAt_of_agrees (hgood.rooted trivial) hway,
      fun _ => hlodged.of_agrees hway (h.agrees.get? _ fun _ => rfl), ?_, fun _ => hgood.releasable trivial, by simp⟩
    rintro ⟨⟩
    obtain ⟨rfl, hsame⟩ := hsource rfl
    rw [Tree.place_congr h.agrees.here, hsame]
    exact hgood.intact rfl
  | leave touched =>
    refine ⟨hgood.rooted, hgood.lodged, by simp, fun _ => hgood.releasable trivial, ?_⟩
    rintro next slot why ⟨⟩
    exact ⟨[], (warned_nil _).symm⟩
  | removed next next' slot es why path u hpath h =>
    have hkeeps : Tree.Keeps t u := by
      rcases h with h | rfl
      · exact hgrounded.keeps_remove h
      · exact Std.Refl.refl _
    refine ⟨fun _ => hkeeps.isDirectoryAt (hgood.rooted trivial), fun _ => (hgood.lodged trivial).of_keeps hkeeps,
      by simp, fun _ => hgood.releasable trivial, ?_⟩
    rintro next slot' why' ⟨⟩
    obtain ⟨fs, rfl⟩ := hgood.slot _ _ _ rfl
    exact ⟨fs ++ es, warned_append _ fs es⟩
  | gone slot why =>
    have hway := (hgood.lodged trivial).apart.agrees_way (Tree.prunes_prune (home_ne_nil g root t) t).agrees
    exact good_of_not_holds (fun _ => Tree.isDirectoryAt_of_agrees (hgood.rooted trivial) hway) id
  | stuck slot why e u h hgrounded =>
    have hlodged := hgood.lodged trivial
    have hway := hlodged.apart.agrees_way (h.mono fun _ hbelow => hbelow.1).agrees
    have hhome : u.get? (g.home root t) = t.get? (g.home root t) := (h.get? _).resolve_right fun hgone => hgone.1.2 rfl
    exact ⟨fun _ => Tree.isDirectoryAt_of_agrees (hgood.rooted trivial) hway, fun _ => hlodged.of_agrees hway hhome,
      by simp, False.elim, by simp⟩
  | ended p h => exact hgood

/-- What a run does in its own slot does not matter to one of another name, nor to one that has no slot. -/
theorem Good.of_outside {h : Tenant} (hgood : Good root g t p) (hapart : Apart root h t)
    (hagrees : Agrees (¬ h.home root t <+: ·) t u) (hother : p.Holds → g.runId ≠ h.runId) : Good root g u p := by
  have hway := hapart.agrees_way hagrees
  have hbelow : p.Holds → ∀ w, g.home root t <+: w → u.get? w = t.get? w := fun hholds w hw =>
    hagrees.get? w fun hw' => hother hholds (runId_of_below hw hw')
  refine ⟨fun hbegun => Tree.isDirectoryAt_of_agrees (hgood.rooted hbegun) hway,
    fun hholds => (hgood.lodged hholds).of_agrees hway (hbelow hholds _ List.prefix_rfl), ?_, hgood.releasable, hgood.slot⟩
  rintro rfl
  obtain ⟨name, hname⟩ := (nested_home g root t).1
  rw [Tree.place_congr hagrees.here, hbelow trivial _ (hname ▸ List.prefix_append _ _)]
  exact hgood.intact rfl

/-- The steps of a release take nothing away but what is in the slot. -/
theorem Moves.prunes {next : Part} {slot : Slot} {why : Option StagingError}
    (h : Moves root g t (.leaving next slot why) p' u) : Prunes (g.home root t <+: ·) t u := by
  cases h with
  | removed _ _ _ es _ path u hpath h =>
    obtain ⟨name, hname⟩ := hpath
    rw [← place_workdir] at hname ⊢
    exact prunes_of_nested hname h
  | gone _ _ => exact Tree.prunes_prune (home_ne_nil g root t) t
  | stuck _ _ e u h _ => exact h.mono fun _ hbelow => hbelow.1
  | ended _ h => exact h.elim

end Adjudication.Staging
