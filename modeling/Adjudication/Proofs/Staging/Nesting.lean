import Adjudication.Proofs.Analyzer.Paths
import Adjudication.Proofs.Staging.Isolation
import Mathlib.Data.List.TakeWhile

/-!
Where the directories of slots lie. The name of a run is put into a path as it is, so a name with slashes in it is a way of
several steps. The first step leads to an entry of the root, and a name of a single step has its directory there. Any further
step goes through that entry, which has to be a directory already. It is one where another run holds its slot, so it is in
the slots of others that such names have their directories, or beyond them.
-/

namespace Adjudication

open Files (Path Place Tree)
open Files.Tree (lead)

/-- A text that starts with a component is a path that starts with it. -/
theorem Files.Path.ofChars_append {piece rest : List Char} (hne : piece ≠ []) (hdot : piece ≠ ['.']) (hslash : '/' ∉ piece)
    (hrest : ∀ c ∈ rest.head?, c = '/') :
    ofChars (piece ++ rest) = ⟨.none, String.ofList piece :: (ofChars rest).parts⟩ := by
  have hpart : isPart piece = true := by simp [isPart, hne, hdot]
  obtain ⟨c, cs, hcons⟩ := List.exists_cons_of_ne_nil hne
  have hc : c ≠ '/' := fun he => hslash (hcons ▸ he ▸ .head _)
  have hanchor : ((piece ++ rest).takeWhile (· = '/')).length = 0 := by simp [hcons, hc]
  cases rest with
  | nil =>
    rw [List.append_nil] at hanchor ⊢
    simp only [ofChars, hanchor, if_true, splitSlashes_of_not_mem hslash, List.filter_cons, hpart, List.filter_nil,
      List.map_cons, List.map_nil]
    rfl
  | cons d ds =>
    obtain rfl : d = '/' := hrest d rfl
    have hfirst : splitSlashes ('/' :: ds) = [] :: splitSlashes ds := if_pos rfl
    have hempty : isPart [] = false := rfl
    simp only [ofChars, hanchor, if_true, splitSlashes_append_slash ds hslash, hfirst, List.filter_cons, hpart, hempty,
      List.map_cons, Bool.false_eq_true, if_false]

namespace Staging

/-! ### The steps of a name -/

/-- The name up to its first slash. -/
def firstStep (runId : String) : String := String.ofList (runId.toList.takeWhile (· ≠ '/'))

/-- What the rest of the name leads through. -/
def laterSteps (runId : String) : List String := (Path.ofChars (runId.toList.dropWhile (· ≠ '/'))).parts

/-- A name without a slash is a single step. -/
theorem steps_of_not_mem {runId : String} (h : '/' ∉ runId.toList) : firstStep runId = runId ∧ laterSteps runId = [] := by
  have hall : ∀ c ∈ runId.toList, (decide (c ≠ '/')) = true := fun c hc => by
    simpa using fun he : c = '/' => h (he ▸ hc)
  rw [firstStep, laterSteps, List.takeWhile_eq_self_iff.2 hall, List.dropWhile_eq_nil_iff.2 hall]
  exact ⟨String.ofList_toList, rfl⟩

theorem toList_entryName (runId : String) : (slotMark ++ firstStep runId).toList =
    's' :: "cverify-".toList ++ runId.toList.takeWhile (· ≠ '/') := by
  rw [String.toList_append, firstStep, String.toList_ofList, slotMark]
  rfl

theorem entryName_ne_up (runId : String) : slotMark ++ firstStep runId ≠ ".." := by
  intro h
  have hchars := toList_entryName runId
  rw [h] at hchars
  exact absurd hchars (by simp)

/-- The path that a slot adds to the root. -/
theorem ofText_slotMark (runId : String) :
    Path.ofText (slotMark ++ runId) = ⟨.none, (slotMark ++ firstStep runId) :: laterSteps runId⟩ := by
  have hsteps : (slotMark ++ runId).toList = (slotMark ++ firstStep runId).toList ++ runId.toList.dropWhile (· ≠ '/') := by
    rw [firstStep, String.toList_append, String.toList_append, String.toList_ofList, List.append_assoc,
      List.takeWhile_append_dropWhile]
  have hslash : '/' ∉ (slotMark ++ firstStep runId).toList := by
    have hmark : '/' ∉ 's' :: "cverify-".toList := by decide
    rw [toList_entryName, List.mem_append]
    rintro (h | h)
    · exact hmark h
    · simpa using List.mem_takeWhile_imp h
  have hrest : ∀ c ∈ (runId.toList.dropWhile (· ≠ '/')).head?, c = '/' := fun c hc => by
    have hhead := List.head?_dropWhile_not (fun c => decide (c ≠ '/')) runId.toList
    rw [Option.mem_def.1 hc] at hhead
    simpa using hhead
  have hne : (slotMark ++ firstStep runId).toList ≠ [] := by
    rw [toList_entryName]
    exact List.cons_ne_nil _ _
  have hdot : (slotMark ++ firstStep runId).toList ≠ ['.'] := by
    rw [toList_entryName]
    simp
  rw [Path.ofText, hsteps, Path.ofChars_append hne hdot hslash hrest, String.ofList_toList, laterSteps]

/-! ### Where a slot lies -/

variable {σ : Type} {root : Path} {source source' : Source} {runId runId' : String} {s t : Scene σ} {slot : Slot}

/-- The entry of the root that the way to a slot leads to first. -/
def entry (root : Path) (runId : String) (t : Tree) : Place := t.place root ++ [slotMark ++ firstStep runId]

theorem entry_congr {t u : Tree} (h : u.here = t.here) (root : Path) (runId : String) :
    entry root runId u = entry root runId t := by
  rw [entry, entry, Tree.place_congr h]

theorem workdir_eq (root : Path) (source : Source) (runId : String) : (slotOf root source runId).workdir =
    ⟨root.anchor, root.parts ++ (slotMark ++ firstStep runId) :: laterSteps runId⟩ := by
  rw [workdir_slotOf, Path.child, ofText_slotMark]
  rfl

/-- The way to a slot leads from its entry through the later steps. -/
theorem place_slot (root : Path) (source : Source) (runId : String) (t : Tree) :
    t.place (slotOf root source runId).workdir = lead (entry root runId t) (laterSteps runId) := by
  rw [workdir_eq, Tree.place, Tree.lead_append, lead, if_neg (entryName_ne_up runId)]
  rfl

/-- Where the directory of a slot lies that has been acquired. -/
structure Housed (root : Path) (runId : String) (s t : Scene σ) (slot : Slot) : Prop where
  /-- The way leads on from the entry, upwards as well. -/
  led : t.files.place slot.workdir = lead (entry root runId t.files) (laterSteps runId)
  /-- A name of a single step has it directly in the root. -/
  direct : laterSteps runId = [] → t.files.place slot.workdir = t.files.place root ++ [slotMark ++ firstStep runId]
  /-- Further steps lead below the entry, unless they lead upwards. -/
  deeper : laterSteps runId ≠ [] → ".." ∉ laterSteps runId →
    t.files.place slot.workdir = entry root runId t.files ++ laterSteps runId
  /-- They lead on only through an entry that has been a directory before, or that is on the way to the root. -/
  through : laterSteps runId ≠ [] →
    s.files.get? (entry root runId s.files) = some .directory ∨ s.files.way root (entry root runId s.files)

/-- A directory that is made by a name of further steps has been made in an entry that is there. -/
theorem directory_of_makeDirectory {t u : Tree} (hsteps : laterSteps runId ≠ [])
    (h : t.makeDirectory (slotOf root source runId).workdir = .ok u) : t.get? (entry root runId t) = some .directory := by
  obtain ⟨place, hreach, -⟩ := Tree.makeDirectory_eq_ok h
  have hwalk := (Tree.find_eq_ok (Tree.reach_eq_ok hreach).2).2
  rw [workdir_eq] at hwalk
  have hfirst : root.parts ++ [slotMark ++ firstStep runId] <+: root.parts ++ (slotMark ++ firstStep runId) ::
    laterSteps runId := by
    simp
  have hdirectory := Tree.directory_of_walk hwalk hfirst (by simpa using hsteps)
  rw [Tree.lead_append, lead, if_neg (entryName_ne_up runId)] at hdirectory
  exact hdirectory

theorem housed_of_acquire (h : acquire root source runId s = (.ok slot, t)) : Housed root runId s t slot := by
  have hacquired := acquire_eq_ok h
  obtain ⟨files, hmade, -⟩ := hacquired.made
  obtain rfl := hacquired.slot_eq
  have hplace := place_slot root source runId t.files
  have hprovided := Tree.grows_provideDirectory s.host.ascent root s.files
  constructor
  case led => exact hplace
  case direct =>
    intro hsteps
    rw [hplace, hsteps]
    rfl
  case deeper =>
    intro _ hup
    rw [hplace, Analyzer.lead_of_not_up hup]
  case through =>
    intro hsteps
    have hdirectory := directory_of_makeDirectory hsteps hmade
    rw [entry_congr hprovided.here] at hdirectory
    rcases hprovided.get? (entry root runId s.files) with hsame | ⟨hway, -, -⟩
    · exact .inl (hsame.symm.trans hdirectory)
    · exact .inr hway

/-- Slots under names of single steps have no place in common, unless they have one directory. -/
theorem apart_of_single (h : laterSteps runId = []) (h' : laterSteps runId' = [])
    (hne : (slotOf root source runId).workdir ≠ (slotOf root source' runId').workdir) (t : Tree) (w : Place) :
    ¬ (t.place (slotOf root source runId).workdir <+: w ∧ t.place (slotOf root source' runId').workdir <+: w) := by
  rw [place_slot, place_slot, h, h']
  rintro ⟨hw, hw'⟩
  have hentry : entry root runId t = entry root runId' t :=
    (List.prefix_of_prefix_length_le hw hw' (by simp [entry, lead])).eq_of_length (by simp [entry, lead])
  have hname : slotMark ++ firstStep runId = slotMark ++ firstStep runId' := by simpa [entry] using hentry
  rw [workdir_eq, workdir_eq, hname, h, h'] at hne
  exact hne rfl

/-! ### Runs at work -/

section

variable {ι : Type} {runs : ι → Tenant} {x y : Shared σ ι} {i : ι}

/-- Providing the root changes nothing but what is on the way to it. -/
theorem get?_of_provideDirectory {t u : Tree} {levels : Nat} {r : Except Files.Fault Unit}
    (h : t.provideDirectory levels root = (r, u)) (w : Place) : u.get? w = t.get? w ∨ t.way root w := by
  have hgrows := Tree.grows_provideDirectory levels root t
  rw [h] at hgrows
  exact (hgrows.get? w).imp_right And.left

/-- A place that is not below a run's slot changes only if it is on the way to the root. -/
theorem Moves.elsewhere {g : Tenant} {t u : Tree} {p p' : Phase} (h : Moves root g t p p' u) {w : Place}
    (hw : ¬ g.home root t <+: w) : u.get? w = t.get? w ∨ t.way root w := by
  cases h with
  | rooted levels u h => exact get?_of_provideDirectory h w
  | unrooted levels e => exact get?_of_provideDirectory rfl w
  | made u h => exact .inl ((agrees_of_makeDirectory h).get? w hw)
  | written u h => exact .inl ((agrees_of_write h).get? w hw)
  | worked touched touched' u h hsource => exact .inl (h.agrees_outside.get? w hw)
  | removed next next' slot es why path u hpath h => exact .inl ((agrees_of_remove hpath h).get? w hw)
  | gone slot why => exact .inl ((Tree.prunes_prune (home_ne_nil g root t) t).agrees.get? w hw)
  | stuck slot why e u h hgrounded => exact .inl ((h.mono fun _ hbelow => hbelow.1).agrees.get? w hw)
  | turnedAway | unwritten | stranded | leave | ended => exact .inl rfl

/-- So does any place, if the run does not hold its slot, neither before nor after. -/
theorem Moves.idle {g : Tenant} {t u : Tree} {p p' : Phase} (h : Moves root g t p p' u) (hbefore : ¬ p.Holds)
    (hafter : ¬ p'.Holds) (w : Place) : u.get? w = t.get? w ∨ t.way root w := by
  cases h with
  | rooted levels u h => exact get?_of_provideDirectory h w
  | unrooted levels e => exact get?_of_provideDirectory rfl w
  | made => exact absurd trivial hafter
  | turnedAway | ended => exact .inl rfl
  | written | unwritten | stranded | worked | leave | removed | gone | stuck => exact absurd trivial hbefore

/-- An entry of the root that is a directory has been one before the runs came, or is on the way to the root, or is the slot
that a run of its name holds. -/
structure Attended (root : Path) (runs : ι → Tenant) (s : Scene σ) (x : Shared σ ι) : Prop where
  here : x.scene.files.here = s.files.here
  attended : ∀ runId, x.scene.files.get? (entry root runId s.files) = some .directory →
    s.files.get? (entry root runId s.files) = some .directory ∨ s.files.way root (entry root runId s.files) ∨
      ∃ i, (x.phase i).Holds ∧ (runs i).runId = firstStep runId

/-- The slot of a run is the entry of its name. -/
theorem home_prefix_entry_iff {g : Tenant} {t : Tree} : g.home root t <+: entry root runId t ↔ g.runId = firstStep runId := by
  rw [home_eq, entry]
  constructor
  · intro h
    have heq := h.eq_of_length (by simp)
    simpa using List.append_cancel_left heq
  · intro h
    rw [h]

variable [DecidableEq ι]

theorem Attended.step (hsound : Sound root runs x) (hx : Attended root runs s x) (h : Step root runs x i y) :
    Attended root runs s y := by
  obtain ⟨hmoves, hothers⟩ := h.moves (hsound.good i)
  refine ⟨hmoves.here.trans hx.here, fun runId hdirectory => ?_⟩
  have hentry := entry_congr hx.here root runId
  -- What has been the case before goes on to be so, but for the run that has made its step.
  have hbefore : (y.scene.files.get? (entry root runId s.files) = x.scene.files.get? (entry root runId s.files) ∨
        x.scene.files.way root (entry root runId s.files)) →
      ((x.phase i).Holds → (runs i).runId ≠ firstStep runId) →
      s.files.get? (entry root runId s.files) = some .directory ∨ s.files.way root (entry root runId s.files) ∨
        ∃ i, (y.phase i).Holds ∧ (runs i).runId = firstStep runId := by
    rintro (hsame | hway) hleft
    · refine (hx.attended runId (hsame.symm.trans hdirectory)).imp_right (Or.imp_right ?_)
      rintro ⟨j, hj, hname⟩
      have hji : j ≠ i := by
        rintro rfl
        exact hleft hj hname
      exact ⟨j, (hothers j hji).symm ▸ hj, hname⟩
    · exact .inr (.inl ((Tree.way_congr hx.here root _).1 hway))
  by_cases hname : (runs i).runId = firstStep runId
  · by_cases hafter : (y.phase i).Holds
    · exact .inr (.inr ⟨i, hafter, hname⟩)
    by_cases hheld : (x.phase i).Holds
    · -- It has just removed the directory.
      have hclear := (hmoves.clear hheld).resolve_left hafter
      have hnone := hclear _ (home_prefix_entry_iff.2 hname)
      rw [hentry, hdirectory] at hnone
      cases hnone
    · exact hbefore (hmoves.idle hheld hafter _) fun hi => absurd hi hheld
  · refine hbefore (hmoves.elsewhere ?_) fun _ => hname
    rw [← hentry, home_prefix_entry_iff]
    exact hname

theorem attended_of_reachable (hgrounded : s.files.Grounded) (h : Reachable root runs s x) : Attended root runs s x := by
  induction h with
  | refl => exact ⟨rfl, fun runId hdirectory => .inl hdirectory⟩
  | tail hx hstep ih =>
    obtain ⟨i, hi⟩ := hstep
    exact ih.step (sound_of_reachable hgrounded hx) hi

/-- While others are at work, a name of further steps is taken only where one of them holds the slot of its first step, if
there has been nothing of that name in the root, or on the way to it, before. -/
theorem attended_of_acquire (hgrounded : s.files.Grounded) (hx : Reachable root runs s x)
    (h : acquire root source runId x.scene = (.ok slot, t)) (hsteps : laterSteps runId ≠ []) :
    s.files.get? (entry root runId s.files) = some .directory ∨ s.files.way root (entry root runId s.files) ∨
      ∃ i, (x.phase i).Holds ∧ (runs i).runId = firstStep runId := by
  have hattended := attended_of_reachable hgrounded hx
  have hentry := entry_congr hattended.here root runId
  rcases (housed_of_acquire h).through hsteps with hdirectory | hway
  · exact hattended.attended runId (hentry ▸ hdirectory)
  · rw [hentry] at hway
    exact .inr (.inl ((Tree.way_congr hattended.here root _).1 hway))

/-- Names of runs and the root. Whatever else there is, a slot that has been acquired lies directly in the root if its name is
a single step, and slots under such names have no place in common, unless they have one directory. A name of further steps is
taken only where its entry is a directory already, and unless it leads upwards its slot lies below that entry, not directly in
the root. With runs at work under names of single steps, in whatever state they are, the entry is the slot that one of them
holds, and the new slot lies in it, if the entry had not been there before them and is not on the way to the root. -/
theorem slots_housed (root : Path) :
    (∀ (source : Source) (runId : String) (s t : Scene σ) (slot : Slot),
      acquire root source runId s = (.ok slot, t) → Housed root runId s t slot) ∧
    (∀ (source source' : Source) (runId runId' : String), laterSteps runId = [] → laterSteps runId' = [] →
      (slotOf root source runId).workdir ≠ (slotOf root source' runId').workdir → ∀ (t : Tree) (w : Place),
        ¬ (t.place (slotOf root source runId).workdir <+: w ∧ t.place (slotOf root source' runId').workdir <+: w)) ∧
    ∀ (runs : ι → Tenant) (s : Scene σ) (x : Shared σ ι) (source : Source) (runId : String) (t : Scene σ) (slot : Slot),
      s.files.Grounded → Reachable root runs s x → acquire root source runId x.scene = (.ok slot, t) →
      laterSteps runId ≠ [] → s.files.get? (entry root runId s.files) ≠ some .directory →
      ¬ s.files.way root (entry root runId s.files) → ∃ i, (x.phase i).Holds ∧ (runs i).runId = firstStep runId ∧
        (".." ∉ laterSteps runId → (runs i).home root t.files <+: t.files.place slot.workdir) := by
  refine ⟨fun source runId s t slot => housed_of_acquire, fun source source' runId runId' h h' hne t w => ?_, ?_⟩
  · exact apart_of_single h h' hne t w
  · intro runs s x source runId t slot hgrounded hx h hsteps hentry hway
    obtain ⟨i, hi, hname⟩ := ((attended_of_acquire hgrounded hx h hsteps).resolve_left hentry).resolve_left hway
    refine ⟨i, hi, hname, fun hup => ?_⟩
    rw [(housed_of_acquire h).deeper hsteps hup]
    exact (home_prefix_entry_iff.2 hname).trans (List.prefix_append _ _)

end

/-! ### A slot in a slot -/

def guest : Source := ⟨[0x62], "b.sol"⟩

/-- A name of a single step that is written with two, and one of two steps while a run of the name `r1` holds its slot. -/
theorem slots_housed_twins :
    (∃ slot t, acquire runs guest "b/." blank = (.ok slot, t) ∧ laterSteps "b/." = [] ∧
      t.files.place slot.workdir = t.files.place runs ++ ["scverify-b"]) ∧
    (laterSteps "r1" = [] ∧ (slotOf runs guest "b/.").workdir ≠ (slotOf runs guest "r1").workdir ∧
      ∀ (t : Tree) (w : Place), ¬ (t.place (slotOf runs guest "b/.").workdir <+: w ∧
        t.place (slotOf runs guest "r1").workdir <+: w)) ∧
    blank.files.Grounded ∧ Reachable runs (fun _ => twin) blank twins ∧
      (∃ slot t, acquire runs guest "r1/x" twins.scene = (.ok slot, t)) ∧ laterSteps "r1/x" ≠ [] ∧
      blank.files.get? (entry runs "r1/x" blank.files) ≠ some .directory ∧
      ¬ blank.files.way runs (entry runs "r1/x" blank.files) ∧
      ∃ i, (twins.phase i).Holds ∧ twin.runId = firstStep "r1/x" := by
  obtain ⟨hhoused, hapart, hattended⟩ := slots_housed (σ := Int) (ι := Bool) runs
  have hsingle : laterSteps "b/." = [] := by decide +kernel
  have hsingle' : laterSteps "r1" = [] := (steps_of_not_mem (by decide)).2
  have hne : (slotOf runs guest "b/.").workdir ≠ (slotOf runs guest "r1").workdir := by decide +kernel
  obtain ⟨slot, t, hacquire⟩ : ∃ slot t, acquire runs guest "b/." blank = (.ok slot, t) := exists_acquired (by decide +kernel)
  obtain ⟨inner, u, hinner⟩ : ∃ slot t, acquire runs guest "r1/x" twins.scene = (.ok slot, t) :=
    exists_acquired (by decide +kernel)
  have hfurther : laterSteps "r1/x" ≠ [] := by decide +kernel
  have hentry : blank.files.get? (entry runs "r1/x" blank.files) ≠ some .directory := by decide +kernel
  have hway : ¬ blank.files.way runs (entry runs "r1/x" blank.files) := not_way_runs _ "runs" _ rfl
  have hreachable : Reachable runs (fun _ => twin) blank twins := reachable_foldl _ .refl
  refine ⟨⟨slot, t, hacquire, hsingle, (hhoused _ _ _ _ _ hacquire).direct hsingle⟩,
    ⟨hsingle', hne, hapart _ _ _ _ hsingle hsingle' hne⟩, grounded_blank, hreachable, ⟨inner, u, hinner⟩, hfurther, hentry,
    hway, ?_⟩
  obtain ⟨i, hi, hname, -⟩ := hattended _ _ _ _ _ _ _ grounded_blank hreachable hinner hfurther hentry hway
  exact ⟨i, hi, hname⟩

/-- The slot of `a/b` lies in that of `a`, not directly in the root, and goes with it: when the slot of `a` is released, the
source in the slot of `a/b` is removed. A slot may lie outside the root altogether. -/
theorem slot_in_slot :
    let host := slotOf runs ⟨[0x61], "a.sol"⟩ "a"
    let inner := slotOf runs guest "a/b"
    let outer := slotOf runs guest "a/../../c"
    ∃ s t u, acquire runs ⟨[0x61], "a.sol"⟩ "a" blank = (.ok host, s) ∧ acquire runs guest "a/b" s = (.ok inner, t) ∧
      t.files.place host.workdir = ["runs", "scverify-a"] ∧ t.files.place inner.workdir = ["runs", "scverify-a", "b"] ∧
      (¬ ∃ name, t.files.place inner.workdir = t.files.place runs ++ [name]) ∧
      t.files.get? (t.files.place inner.source) = some (.file guest.content) ∧
      (release host t).2.files.get? (t.files.place inner.source) = none ∧
      acquire runs guest "a/../../c" s = (.ok outer, u) ∧ u.files.place outer.workdir = ["c"] := by
  refine ⟨_, _, _, rfl, rfl, rfl, rfl, ?_, rfl, rfl, rfl, rfl⟩
  rintro ⟨name, hname⟩
  exact absurd (show 3 = 2 from congrArg List.length hname) (by decide)

end Staging
end Adjudication
