import Adjudication.Proofs.Files.Removal

/-!
The way to a path. A walk asks for directories at the places of a path's parents and nowhere else, so the path leads where
it has led as long as these are directories. A directory that is there is provided without any change.
-/

namespace Adjudication.Files.Tree

variable {t u : Tree} {p : Path} {w : Place}

/-! ### Walks -/

/-- A walk that leads somewhere has met a directory wherever it has not been at its end. -/
theorem directory_of_walk : ∀ {names : List String} {place q : Place}, t.walk place names = .ok q →
    ∀ {first : List String}, first <+: names → first ≠ names → t.get? (lead place first) = some .directory
  | [], _, _, _, first, hfirst, hne => absurd (List.prefix_nil.1 hfirst) hne
  | name :: rest, place, q, hw, first, hfirst, hne => by
    obtain ⟨hdirectory, hstep⟩ := walk_cons_eq_ok hw
    rcases List.prefix_cons_iff.1 hfirst with rfl | ⟨later, rfl, hlater⟩
    · exact hdirectory
    have hne : later ≠ rest := fun he => hne (he ▸ rfl)
    rw [lead]
    rcases hstep with ⟨hup, hrest⟩ | ⟨hup, -, hrest⟩
    · rw [if_pos hup]
      exact directory_of_walk hrest hlater hne
    · rw [if_neg hup]
      exact directory_of_walk hrest hlater hne

/-- Where there are directories on its way, a walk leads where it has led. -/
theorem walk_of_directories : ∀ {names : List String} {place q : Place}, t.walk place names = .ok q →
    (∀ first, first <+: names → first ≠ names → u.get? (lead place first) = some .directory) →
    u.walk place names = .ok q
  | [], _, _, hw, _ => hw
  | name :: rest, place, q, hw, hway => by
    have hrest : ∀ first, first <+: rest → first ≠ rest →
        u.get? (lead (if name = ".." then place.dropLast else place ++ [name]) first) = some .directory :=
      fun first hfirst hne => hway (name :: first) (List.cons_prefix_cons.2 ⟨rfl, hfirst⟩) fun he =>
        hne (List.cons.inj he).2
    have hdirectory : u.get? place = some .directory := hway [] List.nil_prefix (List.cons_ne_nil _ _).symm
    rw [walk_of_directory hdirectory]
    obtain ⟨-, ⟨hup, hstep⟩ | ⟨hup, hle, hstep⟩⟩ := walk_cons_eq_ok hw
    · rw [if_pos hup] at hrest ⊢
      exact walk_of_directories hstep hrest
    · rw [if_neg hup] at hrest
      rw [if_neg hup, if_neg (Nat.not_lt.2 hle)]
      exact walk_of_directories hstep hrest

theorem find_eq_ok {q : Place} (h : t.find p = .ok q) :
    p.text.utf8ByteSize ≤ longestPath ∧ t.walk (if p.isAbsolute then [] else t.here) p.parts = .ok q := by
  rw [find] at h
  split at h
  next => simp at h
  next hle => exact ⟨Nat.not_lt.1 hle, h⟩

/-! ### Paths -/

theorem way_congr (h : u.here = t.here) (p : Path) (w : Place) : u.way p w ↔ t.way p w := by
  simp only [way, place_congr h]

theorem way_lead {first : List String} (h : first <+: p.parts) :
    t.way p (lead (if p.isAbsolute then [] else t.here) first) := ⟨⟨p.anchor, first⟩, ⟨rfl, h⟩, rfl⟩

/-- The way to a path goes by the places that the first of its names lead to. -/
theorem way_iff : t.way p w ↔ ∃ first, first <+: p.parts ∧ w = lead (if p.isAbsolute then [] else t.here) first := by
  constructor
  · rintro ⟨⟨anchor, first⟩, ⟨rfl, hfirst⟩, rfl⟩
    exact ⟨first, hfirst, rfl⟩
  · rintro ⟨first, hfirst, rfl⟩
    exact way_lead hfirst

/-- Where there are directories on the way to its parent, a path leads where it has led. -/
theorem reach_of_way {q : Place} (h : t.reach p = .ok q) (hhere : u.here = t.here)
    (hway : ∀ w, t.way p.parent w → u.get? w = some .directory) : u.reach p = .ok q := by
  obtain ⟨hnull, hfind⟩ := reach_eq_ok h
  obtain ⟨hle, hwalk⟩ := find_eq_ok hfind
  refine reach_of_find_ok hnull ?_
  rw [find, if_neg (Nat.not_lt.2 hle), hhere]
  refine walk_of_directories hwalk fun first hfirst hne => hway _ (way_lead (p := p.parent) ?_)
  -- What comes before the last name is a first part of what is left without it.
  obtain ⟨rest, hrest⟩ := hfirst
  have hrest' : rest ≠ [] := fun he => hne (by simpa [he] using hrest)
  exact ⟨rest.dropLast, by rw [Path.parent, ← hrest, List.dropLast_append_of_ne_nil hrest']⟩

/-! ### Directories that are there -/

theorem isDirectoryAt_iff : t.isDirectoryAt p = true ↔
    t.reach p = .ok (t.place p) ∧ t.get? (t.place p) = some .directory := by
  rw [isDirectoryAt]
  cases hr : t.reach p with
  | error e => simp
  | ok q =>
    obtain rfl := eq_place_of_reach hr
    simp

/-- All places on the way to a directory are directories. -/
theorem directory_of_way (h : t.isDirectoryAt p = true) (hw : t.way p w) : t.get? w = some .directory := by
  obtain ⟨hreach, hdirectory⟩ := isDirectoryAt_iff.1 h
  obtain ⟨first, hfirst, rfl⟩ := way_iff.1 hw
  by_cases he : first = p.parts
  · exact he ▸ hdirectory
  · exact directory_of_walk (find_eq_ok (reach_eq_ok hreach).2).2 hfirst he

theorem isDirectoryAt_of_way (h : t.isDirectoryAt p = true) (hhere : u.here = t.here)
    (hway : ∀ w, t.way p w → u.get? w = some .directory) : u.isDirectoryAt p = true := by
  obtain ⟨hreach, -⟩ := isDirectoryAt_iff.1 h
  have hplace := place_congr hhere p
  refine isDirectoryAt_iff.2 ⟨?_, ?_⟩
  · rw [hplace]
    exact reach_of_way hreach hhere fun w ⟨q, hq, hw⟩ => hway w ⟨q, hq.trans p.above_parent, hw⟩
  · rw [hplace]
    exact hway _ ⟨p, p.above_refl, rfl⟩

theorem makeDirectory_of_isDirectoryAt (h : t.isDirectoryAt p = true) : t.makeDirectory p = .error (about p .exists) := by
  obtain ⟨hreach, hdirectory⟩ := isDirectoryAt_iff.1 h
  simp only [makeDirectory, hreach, hdirectory, bind, Except.bind]

/-- A directory that is there is provided without any change. -/
theorem provideDirectory_of_isDirectoryAt (h : t.isDirectoryAt p = true) (levels : Nat) :
    t.provideDirectory levels p = (.ok (), t) := by
  rw [provideDirectory.eq_def, makeDirectory_of_isDirectoryAt h, about]
  dsimp only
  rw [provideDirectory.settle]
  · rw [if_pos h]
  · simp

theorem walk_ne_exists : ∀ {names : List String} {place : Place}, t.walk place names ≠ .error .exists
  | [], _ => by simp [walk]
  | name :: rest, place => by
    rw [walk]
    split
    next => simp
    next => simp
    next =>
      split
      next => exact walk_ne_exists
      next =>
        split
        next => simp
        next => exact walk_ne_exists

/-- What is said to exist does. -/
theorem get?_of_exists {subject : String} (h : t.makeDirectory p = .error (.refused .exists subject)) :
    t.get? (t.place p) ≠ none := by
  cases hnull : p.text.toList.contains '\x00' with
  | true => simp [makeDirectory, reach_of_null hnull, bind, Except.bind] at h
  | false =>
    cases hf : t.find p with
    | error reason =>
      simp only [makeDirectory, reach_of_find_error hnull hf, about, bind, Except.bind, Except.error.injEq,
        Fault.refused.injEq] at h
      rw [h.1, find] at hf
      split at hf
      · simp at hf
      · exact absurd hf walk_ne_exists
    | ok q =>
      have hreach := reach_of_find_ok hnull hf
      rw [← eq_place_of_reach hreach]
      rintro hnone
      simp [makeDirectory, hreach, hnone, bind, Except.bind, pure, Except.pure] at h

theorem isDirectoryAt_of_makeDirectory (h : t.makeDirectory p = .ok u) : u.isDirectoryAt p = true := by
  have hkeeps := keeps_makeDirectory h
  obtain ⟨q, hreach, hnone, rfl⟩ := makeDirectory_eq_ok h
  obtain rfl := eq_place_of_reach hreach
  exact isDirectoryAt_iff.2 ⟨hkeeps.reach hreach, get?_put_self (ne_nil_of_get? (t := t) (by simp [hnone])) _ _⟩

theorem isDirectoryAt_of_settle {r : Except Fault Unit}
    (h : provideDirectory.settle t p (t.makeDirectory p) = (r, u)) (hr : r = .ok ()) : u.isDirectoryAt p = true := by
  rw [provideDirectory.settle.eq_def] at h
  split at h
  next made hmade =>
    obtain rfl := congrArg Prod.snd h
    exact isDirectoryAt_of_makeDirectory hmade
  next =>
    obtain rfl := congrArg Prod.fst h
    cases hr
  next =>
    split at h
    next hthere =>
      obtain rfl := congrArg Prod.snd h
      exact hthere
    next =>
      obtain rfl := congrArg Prod.fst h
      cases hr
  next =>
    obtain rfl := congrArg Prod.fst h
    cases hr

/-- What has been provided is there. -/
theorem isDirectoryAt_of_provideDirectory {levels : Nat} (h : t.provideDirectory levels p = (.ok (), u)) :
    u.isDirectoryAt p = true := by
  rcases provideDirectory_cases levels p t with hmade | ⟨e, hmade⟩ | ⟨n, -, ⟨w, -, hmade⟩ | ⟨e, hmade⟩⟩
  · exact isDirectoryAt_of_settle (hmade.symm.trans h) rfl
  · simp [hmade] at h
  · exact isDirectoryAt_of_settle (hmade.symm.trans h) rfl
  · simp [hmade] at h

/-! ### Changes elsewhere -/

/-- Nothing has changed at some places. -/
structure Agrees (P : Place → Prop) (t u : Tree) : Prop where
  here : u.here = t.here
  get? : ∀ place, P place → u.get? place = t.get? place

variable {P Q : Place → Prop} {place : Place}

theorem Agrees.mono (h : Agrees P t u) (hPQ : ∀ place, Q place → P place) : Agrees Q t u :=
  ⟨h.here, fun place hplace => h.get? place (hPQ place hplace)⟩

theorem Grows.agrees (h : Grows P t u) : Agrees (¬ P ·) t u :=
  ⟨h.here, fun place hplace => (h.get? place).resolve_right fun hnew => hplace hnew.1⟩

theorem Prunes.agrees (h : Prunes P t u) : Agrees (¬ P ·) t u :=
  ⟨h.here, fun place hplace => (h.get? place).resolve_right fun hgone => hplace hgone.1⟩

theorem agrees_put (t : Tree) (place : Place) (node : Node) : Agrees (· ≠ place) t (t.put place node) :=
  ⟨rfl, fun _ hother => get?_put_of_ne hother t node⟩

theorem isDirectoryAt_of_agrees (h : t.isDirectoryAt p = true) (hagrees : Agrees (t.way p) t u) :
    u.isDirectoryAt p = true :=
  isDirectoryAt_of_way h hagrees.here fun w hw => (hagrees.get? w hw).trans (directory_of_way h hw)

theorem Keeps.isDirectoryAt (h : Keeps t u) (hp : t.isDirectoryAt p = true) : u.isDirectoryAt p = true :=
  isDirectoryAt_of_way hp h.here fun w hw => h.directory w (directory_of_way hp hw)

/-- The way to a path below another one goes by the way to that one. -/
theorem way_child {name : String} (hname : Path.ofText name = ⟨.none, [name]⟩) (h : t.way (p.child name) w) :
    t.way p w ∨ w = t.place (p.child name) := by
  have hchild : p.child name = ⟨p.anchor, p.parts ++ [name]⟩ := by
    rw [Path.child, hname, Path.join, if_neg (by simp [Path.isAbsolute])]
  obtain ⟨q, ⟨hanchor, hparts⟩, rfl⟩ := h
  rw [hchild] at hanchor hparts ⊢
  rcases List.prefix_concat_iff.1 hparts with heq | habove
  · refine .inr (congrArg t.place ?_)
    cases q
    simp_all
  · exact .inl ⟨q, ⟨hanchor, habove⟩, rfl⟩

/-- Without loose ends, a place with everything below it can be taken away, unless paths start from there. -/
theorem Grounded.prune (h : t.Grounded) (hhere : ¬ place <+: t.here) : (t.prune place).Grounded := by
  have hne : place ≠ [] := fun he => hhere (he ▸ List.nil_prefix)
  refine ⟨fun other node hother => ?_, ?_⟩
  · rw [get?_prune hne] at hother ⊢
    split at hother
    next => simp at hother
    next hbelow =>
      rw [if_neg fun hparent => hbelow (hparent.trans (List.dropLast_prefix other))]
      exact h.parent other node hother
  · rw [get?_prune hne]
    exact (if_neg hhere).trans h.here

theorem here_takeAway (levels : Nat) (place : Place) (t : Tree) : (takeAway levels place t).2.here = t.here := by
  have htaken := takeAway_run levels place t
  generalize Tree.takeAway levels place t = x at htaken ⊢
  cases htaken <;> rfl

/-- A removal that stops in the middle leaves what is above all that is left. -/
theorem Grounded.takeAway : ∀ (levels : Nat) {place : Place} {t : Tree}, t.Grounded → ¬ place <+: t.here →
    (takeAway levels place t).2.Grounded
  | 0, place, t, h, hhere => by
    rw [Tree.takeAway]
    split
    · exact h
    · exact h.prune hhere
  | levels + 1, place, t, h, hhere => by
    have heach : ∀ (places : List Place) (u : Tree), (∀ r ∈ places, place <+: r) → u.Grounded → ¬ place <+: u.here →
        (takeAway.each (Tree.takeAway levels) places u).2.Grounded ∧
          (takeAway.each (Tree.takeAway levels) places u).2.here = u.here := by
      intro places
      induction places with
      | nil => exact fun u _ hu _ => ⟨hu, rfl⟩
      | cons r rest ih =>
        intro u hplaces hu hbelow
        have hr : ¬ r <+: u.here := fun hr => hbelow ((hplaces r (.head _)).trans hr)
        have hgrounded := Grounded.takeAway levels hu hr
        have hsame := here_takeAway levels r u
        rw [takeAway.each]
        rcases hrun : Tree.takeAway levels r u with ⟨e | ⟨⟩, v⟩ <;> rw [hrun] at hgrounded hsame
        · exact ⟨hgrounded, hsame⟩
        · obtain ⟨hrest, hhere⟩ := ih v (fun q hq => hplaces q (.tail _ hq)) hgrounded (hsame ▸ hbelow)
          exact ⟨hrest, hhere.trans hsame⟩
    rw [Tree.takeAway]
    split
    · obtain ⟨hgrounded, hsame⟩ := heach (t.entries place) t
        (fun r hr => by obtain ⟨⟨name, rfl⟩, -⟩ := mem_entries.1 hr; exact List.prefix_append _ _) h hhere
      rcases hrun : takeAway.each (Tree.takeAway levels) (t.entries place) t with ⟨e | ⟨⟩, v⟩ <;> rw [hrun] at hgrounded hsame
      · exact hgrounded
      · exact hgrounded.prune (hsame ▸ hhere)
    · exact h.prune hhere

theorem Grounded.removeAll (h : t.Grounded) (hhere : ¬ t.place p <+: t.here) (levels : Nat) :
    (t.removeAll levels p).2.Grounded := by
  rw [Tree.removeAll]
  split
  next => exact h
  next place hreach =>
    obtain rfl := eq_place_of_reach hreach
    split
    · exact h
    · exact h
    · exact h.takeAway _ hhere

end Adjudication.Files.Tree
