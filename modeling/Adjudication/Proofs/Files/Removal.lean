import Adjudication.Proofs.Files.Tree

/-!
Removing a directory with everything in it. The removal goes from directory to directory and comes only so deep. Where
directories lie deeper within each other, it stops in the middle: some of what is in the directory is gone then, but the
directory itself is still there. Everywhere else it comes to its end, and nothing is left.
-/

namespace Adjudication.Files.Tree

open scoped Place

variable {t u : Tree} {p : Path} {place : Place} {levels : Nat}

/-- There are so many levels of directories in the directory at a place. -/
def Deep (t : Tree) : Nat → Place → Prop
  | 0, place => t.get? place = some .directory
  | levels + 1, place => t.get? place = some .directory ∧ ∃ name, t.Deep levels (place ++ [name])

theorem Deep.directory (h : t.Deep levels place) : t.get? place = some .directory := by
  cases levels with
  | zero => exact h
  | succ levels => exact h.1

/-- How deep directories lie at a place is seen there and below. -/
theorem deep_congr (h : ∀ q, place <+: q → u.get? q = t.get? q) : u.Deep levels place ↔ t.Deep levels place := by
  induction levels generalizing place with
  | zero => rw [Deep, Deep, h place List.prefix_rfl]
  | succ levels ih =>
    have hbelow : ∀ name, u.Deep levels (place ++ [name]) ↔ t.Deep levels (place ++ [name]) := fun name =>
      ih fun q hq => h q ((List.prefix_append _ _).trans hq)
    simp only [Deep, h place List.prefix_rfl, hbelow]

/-- Directories lie as deep at a place as a path of names goes through directories. -/
theorem deep_of_names : ∀ (names : List String) {place : Place},
    (∀ i ≤ names.length, t.get? (place ++ names.take i) = some .directory) → t.Deep names.length place
  | [], place, h => by
    rw [List.length_nil, Deep]
    simpa using h 0 (Nat.zero_le _)
  | name :: names, place, h => by
    refine ⟨by simpa using h 0 (Nat.zero_le _), name, deep_of_names names fun i hi => ?_⟩
    simpa using h (i + 1) (Nat.succ_le_succ hi)

theorem Deep.of_prunes {P : Place → Prop} (h : u.Deep levels place) (hprunes : Prunes P t u) : t.Deep levels place := by
  have hdirectory : ∀ {q}, u.get? q = some .directory → t.get? q = some .directory := fun {q} hq => by
    rcases hprunes.get? q with hsame | ⟨-, hnone⟩
    · exact hsame.symm.trans hq
    · simp [hnone] at hq
  induction levels generalizing place with
  | zero => exact hdirectory h
  | succ levels ih =>
    obtain ⟨hplace, name, hdeep⟩ := h
    exact ⟨hdirectory hplace, name, ih hdeep⟩

/-- Where directories lie deep, a place has many names. -/
theorem Deep.exists_place : ∀ {levels : Nat} {place : Place}, t.Deep levels place →
    ∃ q, q.length = place.length + levels ∧ t.get? q = some .directory
  | 0, place, h => ⟨place, rfl, h⟩
  | levels + 1, place, ⟨_, name, h⟩ => by
    obtain ⟨q, hlength, hq⟩ := h.exists_place
    refine ⟨q, ?_, hq⟩
    rw [hlength, List.length_append, List.length_singleton, Nat.add_assoc, Nat.add_comm 1]

/-- Where every place has few names, directories do not lie deep. -/
theorem not_deep_of_short (h : t.nodes.all (fun n => n.1.length ≤ levels) = true) (place : Place) :
    ¬ t.Deep (levels + 1) place := by
  intro hdeep
  obtain ⟨q, hlength, hq⟩ := hdeep.exists_place
  rw [get?, if_neg (List.ne_nil_of_length_pos (by omega))] at hq
  obtain ⟨n, hfind, -⟩ := Option.map_eq_some_iff.1 hq
  have hn : n.1 = q := by simpa using List.find?_some hfind
  have hle : n.1.length ≤ levels := of_decide_eq_true (List.all_eq_true.1 h n (List.mem_of_find?_eq_some hfind))
  rw [hn, hlength] at hle
  omega

/-! ### What is kept of a tree -/

/-- What is left of a tree at the places that pass a test. -/
def keeping (t : Tree) (keep : Place → Bool) : Tree := { t with nodes := t.nodes.filter fun n => keep n.1 }

theorem keeping_true (t : Tree) : t.keeping (fun _ => true) = t := by
  simp [keeping]

theorem prune_eq_keeping (t : Tree) (place : Place) : t.prune place = t.keeping fun q => !place.isPrefixOf q := rfl

theorem keeping_keeping (t : Tree) (keep more : Place → Bool) :
    (t.keeping keep).keeping more = t.keeping fun q => more q && keep q := by
  simp [keeping, List.filter_filter]

theorem get?_keeping (t : Tree) (keep : Place → Bool) (q : Place) :
    (t.keeping keep).get? q = t.get? q ∨ keep q = false ∧ (t.keeping keep).get? q = none := by
  by_cases hq : q = []
  · simp [hq, get?]
  · cases hkeep : keep q with
    | true =>
      have hfind : (t.nodes.filter fun n => keep n.1).find? (fun n => n.1 = q) = t.nodes.find? fun n => n.1 = q :=
        find?_filter_of_keeps fun n hn => by rw [hn, hkeep]
      exact .inl (by simp only [get?, keeping, hfind])
    | false =>
      have hfind : (t.nodes.filter fun n => keep n.1).find? (fun n => n.1 = q) = none :=
        find?_filter_of_drops fun n hn => by rw [hn, hkeep]
      exact .inr ⟨rfl, by simp [get?, keeping, hq, hfind]⟩

theorem prunes_keeping {P : Place → Prop} {keep : Place → Bool} (h : ∀ q, keep q = false → P q) (t : Tree) :
    Prunes P t (t.keeping keep) :=
  ⟨rfl, fun q => (get?_keeping t keep q).imp_right fun hgone => ⟨h q hgone.1, hgone.2⟩⟩

/-- Taking away a place takes away what is below it, some of which may be gone before. -/
theorem prune_keeping {keep : Place → Bool} (h : ∀ q, keep q = false → place <+: q) (t : Tree) :
    (t.keeping keep).prune place = t.prune place := by
  rw [prune_eq_keeping, prune_eq_keeping, keeping_keeping]
  refine congrArg t.keeping (funext fun q => ?_)
  cases hkeep : keep q with
  | true => simp
  | false => simp [List.isPrefixOf_iff_prefix.2 (h q hkeep)]

/-! ### Directory by directory -/

/-- The places in a directory are those with one name more at which there is something. -/
theorem mem_entries {q : Place} : q ∈ t.entries place ↔ (∃ name, q = place ++ [name]) ∧ ∃ node, (q, node) ∈ t.nodes := by
  rw [entries, List.mem_filter, Place.isIn_iff, List.mem_map]
  simp [and_comm]

theorem mem_entries_of_directory {name : String} (h : t.get? (place ++ [name]) = some .directory) :
    place ++ [name] ∈ t.entries place := by
  refine mem_entries.2 ⟨⟨name, rfl⟩, .directory, ?_⟩
  rw [get?, if_neg (by simp)] at h
  obtain ⟨n, hfind, hnode⟩ := Option.map_eq_some_iff.1 h
  have hn : n.1 = place ++ [name] := by simpa using List.find?_some hfind
  have hn : n = (place ++ [name], .directory) := Prod.ext hn hnode
  exact hn ▸ List.mem_of_find?_eq_some hfind

/-- What taking away one place after the other comes to, and what has been kept by then. -/
inductive Each (t : Tree) (levels : Nat) (places : List Place) : Except Fault Unit × Tree → Prop where
  | done (keep : Place → Bool) (hkeep : ∀ q, keep q = false → ∃ r ∈ places, r <+: q)
      (hshallow : ∀ r ∈ places, ¬ t.Deep levels r) : Each t levels places (.ok (), t.keeping keep)
  | stopped (keep : Place → Bool) (hkeep : ∀ q, keep q = false → ∃ r ∈ places, r <+: q)
      (hdeep : ∃ r ∈ places, t.Deep levels r) : Each t levels places (.error (.tooDeep .removing), t.keeping keep)

/-- What taking away one place comes to: it is gone, or directories lie too deep there, and then it is still there itself. -/
inductive Taken (t : Tree) (levels : Nat) (place : Place) : Except Fault Unit × Tree → Prop where
  | gone (hshallow : ¬ t.Deep levels place) : Taken t levels place (.ok (), t.prune place)
  | stopped (keep : Place → Bool) (hkeep : ∀ q, keep q = false → place <+: q ∧ q ≠ place)
      (hdeep : t.Deep levels place) : Taken t levels place (.error (.tooDeep .removing), t.keeping keep)

/-- If each place is taken away as it should be, they all are: what is at one of them does not matter to the others. -/
theorem each_run {f : Place → Tree → Except Fault Unit × Tree} (hf : ∀ r t, Taken t levels r (f r t)) :
    ∀ (places : List Place) (t : Tree), (∀ r ∈ places, ∃ name, r = place ++ [name]) →
      Each t levels places (takeAway.each f places t)
  | [], t, _ => by
    have hdone : Each t levels [] (.ok (), t.keeping fun _ => true) := .done _ (by simp) (by simp)
    rwa [keeping_true] at hdone
  | r :: rest, t, hplaces => by
    rw [takeAway.each]
    have htaken := hf r t
    generalize f r t = taken at htaken ⊢
    cases htaken with
    | stopped keep hkeep hdeep =>
      exact .stopped keep (fun q hq => ⟨r, .head _, (hkeep q hq).1⟩) ⟨r, .head _, hdeep⟩
    | gone hshallow =>
      obtain ⟨name, rfl⟩ := hplaces r (.head _)
      have hrest := each_run hf rest (t.prune (place ++ [name])) fun q hq => hplaces q (.tail _ hq)
      -- What is deep among the others has been so before.
      have hsame : ∀ q ∈ rest, (t.prune (place ++ [name])).Deep levels q ↔ t.Deep levels q := fun q hq => by
        obtain ⟨other, rfl⟩ := hplaces q (.tail _ hq)
        by_cases hother : other = name
        · subst hother
          refine iff_of_false (fun h => ?_) hshallow
          have hdirectory := h.directory
          simp [get?_prune] at hdirectory
        · refine deep_congr fun q hq => ?_
          rw [get?_prune (by simp), if_neg]
          intro hbelow
          have heq := (List.prefix_of_prefix_length_le hq hbelow (by simp)).eq_of_length (by simp)
          exact hother (by simpa using heq)
      have hkept : ∀ {keep : Place → Bool}, (∀ q, keep q = false → ∃ r ∈ rest, r <+: q) → ∀ q,
          (keep q && !(place ++ [name]).isPrefixOf q) = false → ∃ r ∈ (place ++ [name]) :: rest, r <+: q := by
        intro keep hkeep q hq
        rcases Bool.and_eq_false_iff.1 hq with hq | hq
        · obtain ⟨r, hr, hbelow⟩ := hkeep q hq
          exact ⟨r, .tail _ hr, hbelow⟩
        · exact ⟨_, .head _, List.isPrefixOf_iff_prefix.1 (by simpa using hq)⟩
      dsimp only
      generalize takeAway.each f rest (t.prune (place ++ [name])) = x at hrest ⊢
      cases hrest with
      | done keep hkeep hothers =>
        rw [prune_eq_keeping, keeping_keeping]
        refine .done _ (hkept hkeep) fun q hq => ?_
        rcases List.mem_cons.1 hq with rfl | hq
        · exact hshallow
        · exact fun h => hothers q hq ((hsame q hq).2 h)
      | stopped keep hkeep hdeep =>
        rw [prune_eq_keeping, keeping_keeping]
        obtain ⟨q, hq, h⟩ := hdeep
        exact .stopped _ (hkept hkeep) ⟨q, .tail _ hq, (hsame q hq).1 h⟩

/-- A place is taken away exactly if directories do not lie too deep there. -/
theorem takeAway_run (levels : Nat) (place : Place) (t : Tree) : Taken t levels place (takeAway levels place t) := by
  induction levels generalizing place t with
  | zero =>
    rw [takeAway]
    split
    next hdirectory =>
      have hstopped : Taken t 0 place (.error (.tooDeep .removing), t.keeping fun _ => true) :=
        .stopped _ (by simp) hdirectory
      rwa [keeping_true] at hstopped
    next hother => exact .gone hother
  | succ levels ih =>
    rw [takeAway]
    split
    next hdirectory =>
      have heach := each_run (fun r t => ih r t) (t.entries place) t fun r hr => (mem_entries.1 hr).1
      -- What is in the directory lies below it.
      have hbelow : ∀ {keep : Place → Bool}, (∀ q, keep q = false → ∃ r ∈ t.entries place, r <+: q) →
          ∀ q, keep q = false → place <+: q ∧ q ≠ place := by
        intro keep hkeep q hq
        obtain ⟨r, hr, hprefix⟩ := hkeep q hq
        obtain ⟨⟨name, rfl⟩, -⟩ := mem_entries.1 hr
        refine ⟨(List.prefix_append _ _).trans hprefix, ?_⟩
        rintro rfl
        exact absurd hprefix.length_le (by simp)
      generalize takeAway.each (takeAway levels) (t.entries place) t = x at heach ⊢
      cases heach with
      | done keep hkeep hshallow =>
        dsimp only
        rw [prune_keeping fun q hq => (hbelow hkeep q hq).1]
        refine .gone ?_
        rintro ⟨-, name, hdeep⟩
        exact hshallow _ (mem_entries_of_directory hdeep.directory) hdeep
      | stopped keep hkeep hdeep =>
        obtain ⟨r, hr, hdeep⟩ := hdeep
        obtain ⟨⟨name, rfl⟩, -⟩ := mem_entries.1 hr
        exact .stopped keep (hbelow hkeep) ⟨hdirectory, name, hdeep⟩
    next hother => exact .gone fun h => hother h.1

/-! ### The whole directory -/

/-- What is no directory is not removed with everything in it. -/
theorem removeAll_of_not_directory (h : ∀ q, t.reach p = .ok q → t.get? q ≠ some .directory) (levels : Nat) :
    ∃ e, t.removeAll levels p = (.error e, t) ∧ (p.text.toList.contains '\x00' = false → e.isRefusal = true) := by
  rw [removeAll]
  cases hreach : t.reach p with
  | error e => exact ⟨e, rfl, fun hnull => isRefusal_of_reach hnull hreach⟩
  | ok q =>
    cases hget : t.get? q with
    | none => exact ⟨about p .noEntry, by simp only [hget], fun _ => rfl⟩
    | some node =>
      cases node with
      | file content => exact ⟨.refused .notDirectory p.shown, by simp only [hget], fun _ => rfl⟩
      | directory => exact absurd hget (h q hreach)

theorem removeAll_of_directory (hreach : t.reach p = .ok place) (hdirectory : t.get? place = some .directory)
    (hshallow : ¬ t.Deep (levels + 1) place) : t.removeAll levels p = (.ok (), t.prune place) := by
  have htaken := takeAway_run (levels + 1) place t
  simp only [removeAll, hreach, hdirectory]
  generalize takeAway (levels + 1) place t = x at htaken ⊢
  cases htaken with
  | gone => rfl
  | stopped keep hkeep hdeep => exact absurd hdeep hshallow

/-- A directory in which directories lie too deep stays, though not all that is in it does. -/
theorem removeAll_of_deep (hreach : t.reach p = .ok place) (hdeep : t.Deep (levels + 1) place) :
    ∃ u, t.removeAll levels p = (.error (.tooDeep .removing), u) ∧ Prunes (fun q => place <+: q ∧ q ≠ place) t u := by
  have htaken := takeAway_run (levels + 1) place t
  simp only [removeAll, hreach, hdeep.directory]
  generalize takeAway (levels + 1) place t = x at htaken ⊢
  cases htaken with
  | gone hshallow => exact absurd hdeep hshallow
  | stopped keep hkeep _ => exact ⟨_, rfl, prunes_keeping hkeep t⟩

end Adjudication.Files.Tree
