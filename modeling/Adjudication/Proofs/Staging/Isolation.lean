import Adjudication.Proofs.Staging.Acquire
import Adjudication.Proofs.Staging.Moves

/-!
Slots of runs that share a root do not meet. Each run changes nothing outside the directory of its own slot once the root
is there, and has such a directory only if it has made it. So a slot stays with its run until that run has removed it,
whatever the order of their steps.
-/

namespace Adjudication.Staging

open Files (Tree Place)
open Files.Tree (Prunes)

variable {σ ι : Type} {root : Files.Path} {g : Tenant} {s : Scene σ} {t : Tree}

/-! ### Runs at work together -/

/-- Runs at work below one root. -/
structure Shared (σ ι : Type) where
  scene : Scene σ
  phase : ι → Phase

section

variable {runs : ι → Tenant} {x y : Shared σ ι} {i j k : ι}

/-- What is so at any time. -/
structure Sound (root : Files.Path) (runs : ι → Tenant) (x : Shared σ ι) : Prop where
  grounded : x.scene.files.Grounded
  good : ∀ i, Good root (runs i) x.scene.files (x.phase i)
  alone : ∀ i j, (x.phase i).Holds → (x.phase j).Holds → (runs i).runId = (runs j).runId → i = j
  cleared : ∀ i, (x.phase i).Over → x.scene.files.Clear ((runs i).home root x.scene.files) ∨
    ∃ j, (x.phase j).Holds ∧ (runs j).runId = (runs i).runId

theorem sound_waiting {s : Scene σ} (h : s.files.Grounded) (root : Files.Path) (runs : ι → Tenant) :
    Sound root runs ⟨s, fun _ => .waiting⟩ :=
  ⟨h, fun _ => good_of_not_holds False.elim id, fun _ _ hi => hi.elim, fun _ hover => hover.elim⟩

/-- Where there is nothing, no run holds a directory. -/
theorem Sound.runId_ne (hx : Sound root runs x) (hj : (x.phase j).Holds)
    (hnone : x.scene.files.get? ((runs i).home root x.scene.files) = none) : (runs j).runId ≠ (runs i).runId := by
  intro hname
  have hdirectory := directory_home ((hx.good j).lodged hj).workdir
  rw [home_of_runId hname, hnone] at hdirectory
  simp at hdirectory

/-- A step of one run leaves another as it should be. -/
theorem Sound.good_step (hx : Sound root runs x)
    (hmoves : Moves root (runs i) x.scene.files (x.phase i) (y.phase i) y.scene.files) (hji : j ≠ i) :
    Good root (runs j) y.scene.files (x.phase j) := by
  by_cases hbegun : (x.phase j).Begun
  · rcases hmoves.outside (hx.good i) hx.grounded ((hx.good j).rooted hbegun) with hsame | ⟨hapart, hagrees, hmade⟩
    · exact hsame ▸ hx.good j
    · refine (hx.good j).of_outside hapart hagrees fun hj hname => ?_
      rcases hmade with hi | ⟨-, hnone⟩
      · exact hji (hx.alone j i hj hi hname)
      · exact hx.runId_ne hj hnone hname
  · exact good_of_not_holds (fun h => absurd h hbegun) fun h => hbegun (Phase.begun_of_holds h)

/-- A slot that has been released stays away until a run of its name makes it again. -/
theorem Sound.cleared_step (hx : Sound root runs x)
    (hmoves : Moves root (runs i) x.scene.files (x.phase i) (y.phase i) y.scene.files)
    (hothers : ∀ j, j ≠ i → y.phase j = x.phase j) (hji : j ≠ i) (hover : (x.phase j).Over) :
    y.scene.files.Clear ((runs j).home root x.scene.files) ∨
      ∃ k, (y.phase k).Holds ∧ (runs k).runId = (runs j).runId := by
  have hclear : (x.phase i).Holds → (runs i).runId = (runs j).runId →
      y.scene.files.Clear ((runs j).home root x.scene.files) ∨
        ∃ k, (y.phase k).Holds ∧ (runs k).runId = (runs j).runId := fun hi hname => by
    rcases hmoves.clear hi with hholds | hgone
    · exact .inr ⟨i, hholds, hname⟩
    · exact .inl (home_of_runId hname root x.scene.files ▸ hgone)
  rcases hx.cleared j hover with hbefore | ⟨k, hk, hname⟩
  · rcases hmoves.outside (hx.good i) hx.grounded ((hx.good j).rooted (Phase.begun_of_over hover)) with
      hsame | ⟨-, hagrees, hmade⟩
    · exact .inl (hsame ▸ hbefore)
    by_cases hname : (runs i).runId = (runs j).runId
    · rcases hmade with hi | ⟨hi, -⟩
      · exact hclear hi hname
      · exact .inr ⟨i, hi, hname⟩
    · exact .inl fun w hw => (hagrees.get? w fun hw' => hname (runId_of_below hw' hw)).trans (hbefore w hw)
  · by_cases hki : k = i
    · subst hki
      exact hclear hk hname
    · exact .inr ⟨k, (hothers k hki).symm ▸ hk, hname⟩

variable [DecidableEq ι]

/-- What comes of the next step of a run. -/
def Shared.next (root : Files.Path) (runs : ι → Tenant) (x : Shared σ ι) (i : ι) : Shared σ ι :=
  ⟨(turn root (runs i) (x.phase i, x.scene)).2,
    Function.update x.phase i (turn root (runs i) (x.phase i, x.scene)).1⟩

/-- One of the runs makes its next step, or its analyzer works in its slot. -/
inductive Step (root : Files.Path) (runs : ι → Tenant) (x : Shared σ ι) : ι → Shared σ ι → Prop where
  | turn (i : ι) : Step root runs x i (x.next root runs i)
  | work (i : ι) (touched touched' : Bool) (s : Scene σ) (hphase : x.phase i = .staged touched)
      (hworks : Works root (runs i) x.scene.files s.files)
      (hsource : touched' = false → touched = false ∧
        s.files.get? (x.scene.files.place ((runs i).slot root).source) =
          x.scene.files.get? (x.scene.files.place ((runs i).slot root).source)) :
      Step root runs x i ⟨s, Function.update x.phase i (.staged touched')⟩

/-- What runs come to that have all been waiting, in whatever order they make their steps. -/
def Reachable (root : Files.Path) (runs : ι → Tenant) (s : Scene σ) : Shared σ ι → Prop :=
  Relation.ReflTransGen (fun x y => ∃ i, Step root runs x i y) ⟨s, fun _ => .waiting⟩

/-- A step is one of those told, and no other run has made one. -/
theorem Step.moves (h : Step root runs x i y) (hgood : Good root (runs i) x.scene.files (x.phase i)) :
    Moves root (runs i) x.scene.files (x.phase i) (y.phase i) y.scene.files ∧ ∀ j, j ≠ i → y.phase j = x.phase j := by
  cases h with
  | turn =>
    refine ⟨?_, fun j hj => Function.update_of_ne hj _ _⟩
    dsimp only [Shared.next]
    rw [Function.update_self]
    exact moves_turn hgood
  | work touched touched' s hphase hworks hsource =>
    refine ⟨?_, fun j hj => Function.update_of_ne hj _ _⟩
    dsimp only
    rw [Function.update_self, hphase]
    exact .worked touched touched' s.files hworks hsource

theorem Sound.step (hx : Sound root runs x) (h : Step root runs x i y) : Sound root runs y := by
  obtain ⟨hmoves, hothers⟩ := h.moves (hx.good i)
  have hhere : y.scene.files.here = x.scene.files.here := hmoves.here
  have hnew : ∀ k, k ≠ i → (y.phase i).Holds → (y.phase k).Holds → (runs i).runId ≠ (runs k).runId := by
    intro k hk hi hk' hname
    rw [hothers k hk] at hk'
    rcases hmoves.holds hi with hheld | hnone
    · exact hk (hx.alone i k hheld hk' hname).symm
    · exact hx.runId_ne hk' hnone hname.symm
  constructor
  case grounded => exact hmoves.grounded (hx.good i) hx.grounded
  case good =>
    intro j
    by_cases hji : j = i
    · subst hji
      exact hmoves.good (hx.good j) hx.grounded
    · rw [hothers j hji]
      exact hx.good_step hmoves hji
  case alone =>
    intro j k hj hk hname
    by_cases hji : j = i <;> by_cases hki : k = i
    · exact hji.trans hki.symm
    · subst hji
      exact absurd hname (hnew k hki hj hk)
    · subst hki
      exact absurd hname.symm (hnew j hji hk hj)
    · rw [hothers j hji] at hj
      rw [hothers k hki] at hk
      exact hx.alone j k hj hk hname
  case cleared =>
    intro j hover
    rw [home_congr hhere]
    by_cases hji : j = i
    · subst hji
      rcases hmoves.of_over hover with hheld | ⟨hphase, hsame⟩
      · exact .inl ((hmoves.clear hheld).resolve_left (Phase.not_holds_of_over hover))
      · rw [hsame]
        refine (hx.cleared j (hphase ▸ hover)).imp_right fun ⟨k, hk, hname⟩ => ⟨k, ?_, hname⟩
        by_cases hkj : k = j
        · exact hkj ▸ hphase ▸ hkj ▸ hk
        · exact (hothers k hkj).symm ▸ hk
    · rw [hothers j hji] at hover
      exact hx.cleared_step hmoves hothers hji hover

theorem sound_of_reachable {s : Scene σ} (hgrounded : s.files.Grounded) (h : Reachable root runs s x) :
    Sound root runs x := by
  induction h with
  | refl => exact sound_waiting hgrounded root runs
  | tail _ hstep ih =>
    obtain ⟨i, hi⟩ := hstep
    exact ih.step hi

/-! ### Isolation -/

/-- A slot whose directory is there is in use. -/
theorem makeWorkdir_of_isDirectoryAt {slot : Slot} (h : s.files.isDirectoryAt slot.workdir = true) :
    makeWorkdir slot s = (.error (.staging (.slotInUse slot.workdir)), s) :=
  makeWorkdir_of_exists slot s (Tree.makeDirectory_of_isDirectoryAt h)

theorem acquire_of_isDirectoryAt {source : Source} {runId : String} (hroot : s.files.isDirectoryAt root = true)
    (h : s.files.isDirectoryAt (slotOf root source runId).workdir = true) :
    acquire root source runId s = (.error (.staging (.slotInUse (slotOf root source runId).workdir)), s) := by
  rw [acquire, Act.bind_of_ok (makeRoot_of_ok (Tree.provideDirectory_of_isDirectoryAt hroot _)),
    Act.bind_of_error (makeWorkdir_of_isDirectoryAt h)]

/-- A slot is not in use where there is nothing. -/
theorem makeWorkdir_of_none {slot : Slot} (h : s.files.get? (s.files.place slot.workdir) = none) (path : Files.Path) :
    (makeWorkdir slot s).1 ≠ .error (.staging (.slotInUse path)) := fun he =>
  (makeWorkdir_eq_slotInUse slot s he).elim fun _ hexists => Tree.get?_of_exists hexists h

theorem acquire_of_none {source : Source} {runId : String} (hroot : s.files.isDirectoryAt root = true)
    (h : s.files.get? (s.files.place (slotOf root source runId).workdir) = none) (path : Files.Path) :
    (acquire root source runId s).1 ≠ .error (.staging (.slotInUse path)) := by
  rw [acquire, Act.bind_of_ok (makeRoot_of_ok (Tree.provideDirectory_of_isDirectoryAt hroot _))]
  have hworkdir := makeWorkdir_of_none h path
  rcases hmake : s.files.makeDirectory (slotOf root source runId).workdir with fault | files
  · obtain ⟨e, he⟩ := makeWorkdir_of_error (slotOf root source runId) s hmake
    rw [he] at hworkdir
    rw [Act.bind_of_error he]
    exact fun h => hworkdir (congrArg Except.error (Except.error.inj h))
  rw [Act.bind_of_ok (makeWorkdir_of_ok (slotOf root source runId) s hmake)]
  cases hwrite : files.write (slotOf root source runId).source source.content with
  | ok written =>
    rw [Act.bind_of_ok (writeSource_of_ok _ { s with files } hwrite)]
    simp
  | error fault =>
    cases hrefusal : fault.isRefusal with
    | false =>
      rw [Act.bind_of_error (writeSource_of_fault _ { s with files } hwrite hrefusal)]
      simp
    | true =>
      have hnull : fault ≠ .nullInPath := by
        rintro rfl
        simp [Files.Fault.isRefusal] at hrefusal
      obtain ⟨r, es, left, hrelease, hfails, -⟩ :=
        release_run (releasable_of_write hmake hwrite fun h => hnull (Except.error.inj h)) { s with files }
      cases r with
      | ok =>
        rw [Act.bind_of_error (writeSource_of_refusal _ { s with files } hwrite hrefusal hrelease)]
        simp
      | error e =>
        obtain ⟨rfl, -⟩ := hfails e rfl
        rw [Act.bind_of_error (writeSource_of_stuck _ { s with files } hwrite hrefusal hrelease)]
        simp

/-- Runs that share a root keep out of each other's slots. A run holds a slot from the making of its directory to its
removal, whether or not it has come to acquire the slot. -/
structure Isolated (root : Files.Path) (runs : ι → Tenant) (x : Shared σ ι) : Prop where
  /-- No two slots have a place in common. -/
  apart : ∀ i j, i ≠ j → (x.phase i).Holds → (x.phase j).Holds →
    ∀ w, ¬ ((runs i).home root x.scene.files <+: w ∧ (runs j).home root x.scene.files <+: w)
  /-- Acquiring a slot under the name of one that is held is refused, and changes nothing. -/
  refused : ∀ i source, (x.phase i).Holds → acquire root source (runs i).runId x.scene =
    (.error (.staging (.slotInUse (slotOf root source (runs i).runId).workdir)), x.scene)
  /-- So is a run that has been on its way to acquire it. -/
  turnedAway : ∀ i j, (x.phase i).Holds → (runs j).runId = (runs i).runId → turn root (runs j) (.rooted, x.scene) =
    (.refused (.staging (.slotInUse ((runs j).slot root).workdir)), x.scene)
  /-- A source that no analyzer has touched is as it was given. -/
  intact : ∀ i, x.phase i = .staged false →
    x.scene.files.get? (x.scene.files.place ((runs i).slot root).source) = some (.file (runs i).source.content)
  /-- No step of another run changes anything in a slot. -/
  undisturbed : ∀ i j y, (x.phase i).Holds → Step root runs x j y → j ≠ i →
    ∀ w, (runs i).home root x.scene.files <+: w → y.scene.files.get? w = x.scene.files.get? w
  /-- A release removes nothing outside its slot. -/
  released : ∀ i next slot why, x.phase i = .leaving next slot why →
    Prunes ((runs i).home root x.scene.files <+: ·) x.scene.files (x.next root runs i).scene.files
  /-- Of a slot that has been released nothing is left, unless another run of its name has made it again. -/
  cleared : ∀ i, (x.phase i).Over → x.scene.files.Clear ((runs i).home root x.scene.files) ∨
    ∃ j, (x.phase j).Holds ∧ (runs j).runId = (runs i).runId
  /-- The name of a slot that has been released is free. -/
  free : ∀ i source path, (x.phase i).Over → (∀ j, (x.phase j).Holds → (runs j).runId ≠ (runs i).runId) →
    (acquire root source (runs i).runId x.scene).1 ≠ .error (.staging (.slotInUse path)) ∧
    ∀ j, (runs j).runId = (runs i).runId →
      (turn root (runs j) (.rooted, x.scene)).1 ≠ .refused (.staging (.slotInUse path))

theorem isDirectoryAt_of_runId {source : Source} {runId : String} (hname : g.runId = runId)
    (h : t.isDirectoryAt (g.slot root).workdir = true) : t.isDirectoryAt (slotOf root source runId).workdir = true := by
  rw [workdir_slotOf] at h ⊢
  exact hname ▸ h

theorem place_of_runId {source : Source} {runId : String} (hname : g.runId = runId) :
    t.place (slotOf root source runId).workdir = g.home root t := by
  rw [← place_workdir, workdir_slotOf, workdir_slotOf, hname]

theorem Sound.isolated (hx : Sound root runs x) : Isolated root runs x := by
  constructor
  case apart =>
    intro i j hij hi hj w hw
    exact hij (hx.alone i j hi hj (runId_of_below hw.1 hw.2))
  case refused =>
    intro i source hi
    have hlodged := (hx.good i).lodged hi
    exact acquire_of_isDirectoryAt ((hx.good i).rooted (Phase.begun_of_holds hi))
      (isDirectoryAt_of_runId rfl hlodged.workdir)
  case turnedAway =>
    intro i j hi hname
    have hworkdir : x.scene.files.isDirectoryAt ((runs j).slot root).workdir = true :=
      isDirectoryAt_of_runId hname.symm ((hx.good i).lodged hi).workdir
    rw [turn_rooted, makeWorkdir_of_isDirectoryAt hworkdir]
    rfl
  case intact => exact fun i => (hx.good i).intact
  case undisturbed =>
    intro i j y hi hstep hji w hw
    obtain ⟨hmoves, -⟩ := hstep.moves (hx.good j)
    rcases hmoves.outside (hx.good j) hx.grounded ((hx.good i).rooted (Phase.begun_of_holds hi)) with
      hsame | ⟨-, hagrees, hmade⟩
    · rw [hsame]
    refine hagrees.get? w fun hw' => ?_
    have hname := runId_of_below hw hw'
    rcases hmade with hj | ⟨-, hnone⟩
    · exact hji (hx.alone j i hj hi hname.symm)
    · exact hx.runId_ne hi hnone hname
  case released =>
    intro i next slot why hphase
    have hmoves := moves_turn (hx.good i)
    rw [hphase] at hmoves
    rw [Shared.next, hphase]
    exact hmoves.prunes
  case cleared => exact hx.cleared
  case free =>
    intro i source path hover hfree
    have hroot := (hx.good i).rooted (Phase.begun_of_over hover)
    have hclear := (hx.cleared i hover).resolve_right fun ⟨j, hj, hname⟩ => hfree j hj hname
    have hnone := hclear _ List.prefix_rfl
    refine ⟨acquire_of_none hroot (by rw [place_of_runId rfl, hnone]) path, fun j hname he => ?_⟩
    rw [turn_rooted] at he
    have hthere : x.scene.files.get? (x.scene.files.place ((runs j).slot root).workdir) = none := by
      rw [place_of_runId hname.symm, hnone]
    have hworkdir := makeWorkdir_of_none hthere path
    rcases hw : makeWorkdir ((runs j).slot root) x.scene with ⟨e | ⟨⟩, u⟩ <;> rw [hw] at he hworkdir
    · exact hworkdir (congrArg Except.error (Phase.refused.inj he))
    · cases he

/-- Whatever the runs that share a root and whatever the order of their steps, with analyzers that change nothing outside
their own slots, each run keeps to its slot: no two slots meet, a name is refused exactly as long as a run holds its slot,
no source is changed by others, and no release takes away anything but its own slot. The steps are those of acquiring a slot
and of releasing it: when a run is by itself, they come to the same. -/
theorem isolated_of_reachable {s : Scene σ} (hgrounded : s.files.Grounded) (h : Reachable root runs s x) :
    Isolated root runs x ∧ ∀ (g : Tenant) (u : Scene σ),
      (∃ p, Leads root g (.waiting, u) (p, (acquire root g.source g.runId u).2) ∧
        p.acquired? = some ((acquire root g.source g.runId u).1.map fun _ => ())) ∧
      ∀ slot why, Leads root g (.leaving .source slot why, u) (.ofRemoval (.gone · why) (release slot u).1, (release slot u).2) :=
  ⟨(sound_of_reachable hgrounded h).isolated, fun g u =>
    ⟨leads_acquire root g u, fun slot why => leads_release root g slot why u⟩⟩

/-- Runs come to whatever their turns lead to, in any order. -/
theorem reachable_foldl {s : Scene σ} : ∀ (order : List ι) {x : Shared σ ι}, Reachable root runs s x →
    Reachable root runs s (order.foldl (Shared.next root runs) x)
  | [], _, h => h
  | i :: order, _, h => reachable_foldl order (h.tail ⟨i, .turn i⟩)

end

/-! ### Two runs of one name -/

/-- A run of the name `r1`. -/
def twin : Tenant where
  source := ⟨[], "a.sol"⟩
  runId := "r1"
  named := ⟨[], "a.sol", Files.Path.make_of_isPart [] (by decide) (by decide) (by decide) (by decide) (by decide)⟩
  single := by decide

/-- One of them has its slot, and the other one is about to make its own. -/
def twins : Shared Int Bool :=
  [true, true, true, false].foldl (Shared.next runs fun _ => twin) ⟨blank, fun _ => .waiting⟩

theorem isolated_twins : blank.files.Grounded ∧ Reachable runs (fun _ => twin) blank twins ∧ (twins.phase true).Staged ∧
    Isolated runs (fun _ => twin) twins := by
  have hreachable : Reachable runs (fun _ => twin) blank twins := reachable_foldl _ .refl
  exact ⟨grounded_blank, hreachable, by decide +kernel, (isolated_of_reachable grounded_blank hreachable).1⟩

end Adjudication.Staging
