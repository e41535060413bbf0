import Adjudication.Files.Tree
import Mathlib.Data.List.Infix
import Mathlib.Order.Defs.Unbundled

/-!
Trees of files and what is done to them. A path that leads somewhere leads to the place that its names spell, so where it
leads changes only with the directories on the way. Each operation changes one place, or takes away a place with
everything below it.
-/

namespace Adjudication.Files

/-- A path that no walk refuses for its length. -/
structure Path.Fits (p : Path) : Prop where
  path : p.text.utf8ByteSize ≤ Tree.longestPath
  names : ∀ name ∈ p.parts, name ≠ ".." → name.utf8ByteSize ≤ Tree.longestName

/-- One path is another one or one of its parents, as their names have it. -/
def Path.Above (q p : Path) : Prop := q.anchor = p.anchor ∧ q.parts <+: p.parts

theorem Path.above_refl (p : Path) : p.Above p := ⟨rfl, List.prefix_rfl⟩

theorem Path.above_parent (p : Path) : p.parent.Above p := ⟨rfl, List.dropLast_prefix _⟩

theorem Path.Above.trans {p q r : Path} (h : p.Above q) (h' : q.Above r) : p.Above r :=
  ⟨h.1.trans h'.1, h.2.trans h'.2⟩

namespace Tree

variable {t u w : Tree} {p : Path}

/-! ### Paths that have been walked -/

theorem reach_of_find_ok {place : Place} (hnull : p.text.toList.contains '\x00' = false) (h : t.find p = .ok place) :
    t.reach p = .ok place := by
  rw [reach, hnull, h]
  rfl

theorem reach_of_find_error {reason : Refusal} (hnull : p.text.toList.contains '\x00' = false)
    (h : t.find p = .error reason) : t.reach p = .error (about p reason) := by
  rw [reach, hnull, h]
  rfl

theorem reach_of_null (hnull : p.text.toList.contains '\x00' = true) : t.reach p = .error .nullInPath := by
  rw [reach, if_pos hnull]

theorem reach_eq_ok {place : Place} (h : t.reach p = .ok place) :
    p.text.toList.contains '\x00' = false ∧ t.find p = .ok place := by
  cases hnull : p.text.toList.contains '\x00' with
  | true => simp [reach_of_null hnull] at h
  | false =>
    cases hf : t.find p with
    | error reason => simp [reach_of_find_error hnull hf] at h
    | ok q =>
      obtain rfl := Except.ok.inj ((reach_of_find_ok hnull hf).symm.trans h)
      exact ⟨rfl, rfl⟩

/-- A path leads nowhere because of a null character, or because nothing is found. -/
theorem reach_eq_error {e : Fault} (h : t.reach p = .error e) :
    p.text.toList.contains '\x00' = true ∧ e = .nullInPath ∨ ∃ reason, t.find p = .error reason ∧ e = about p reason := by
  cases hnull : p.text.toList.contains '\x00' with
  | true => exact .inl ⟨rfl, Except.error.inj (h.symm.trans (reach_of_null hnull))⟩
  | false =>
    cases hf : t.find p with
    | ok q => simp [reach_of_find_ok hnull hf] at h
    | error reason => exact .inr ⟨reason, rfl, Except.error.inj (h.symm.trans (reach_of_find_error hnull hf))⟩

/-- The system alone refuses a path without a null character. -/
theorem isRefusal_of_reach {e : Fault} (hnull : p.text.toList.contains '\x00' = false) (h : t.reach p = .error e) :
    e.isRefusal = true := by
  rcases reach_eq_error h with ⟨hnull', -⟩ | ⟨reason, -, rfl⟩
  · rw [hnull] at hnull'
    cases hnull'
  · rfl

/-- A walk goes on from a directory only. -/
theorem walk_of_directory {place : Place} (h : t.get? place = some .directory) (name : String) (rest : List String) :
    t.walk place (name :: rest) =
      if name = ".." then t.walk place.dropLast rest
      else if longestName < name.utf8ByteSize then .error .nameTooLong
      else t.walk (place ++ [name]) rest := by
  rw [walk, h]

theorem walk_cons_eq_ok {name : String} {rest : List String} {place q : Place}
    (h : t.walk place (name :: rest) = .ok q) : t.get? place = some .directory ∧
      (name = ".." ∧ t.walk place.dropLast rest = .ok q ∨
        name ≠ ".." ∧ name.utf8ByteSize ≤ longestName ∧ t.walk (place ++ [name]) rest = .ok q) := by
  have hdirectory : t.get? place = some .directory := by
    rw [walk] at h
    split at h
    next => simp at h
    next => simp at h
    next hdirectory => exact hdirectory
  refine ⟨hdirectory, ?_⟩
  rw [walk_of_directory hdirectory] at h
  split at h
  next hup => exact .inl ⟨hup, h⟩
  next hup =>
    split at h
    next => simp at h
    next hle => exact .inr ⟨hup, Nat.not_lt.1 hle, h⟩

theorem names_of_walk : ∀ {names : List String} {place q : Place}, t.walk place names = .ok q →
    ∀ name ∈ names, name ≠ ".." → name.utf8ByteSize ≤ longestName
  | [], _, _, _ => by simp
  | name :: rest, place, q, h => by
    rintro other hother hne
    obtain ⟨-, ⟨rfl, hrest⟩ | ⟨-, hle, hrest⟩⟩ := walk_cons_eq_ok h
    · exact names_of_walk hrest other ((List.mem_cons.1 hother).resolve_left hne) hne
    · rcases List.mem_cons.1 hother with rfl | hother
      · exact hle
      · exact names_of_walk hrest other hother hne

/-- A path that has led somewhere fits, in whatever tree it is walked. -/
theorem fits_of_find {q : Place} (h : t.find p = .ok q) : p.Fits := by
  rw [find] at h
  split at h
  next => simp at h
  next hle => exact ⟨Nat.not_lt.1 hle, names_of_walk h⟩

theorem walk_of_names : ∀ {names : List String} {place : Place},
    (∀ name ∈ names, name ≠ ".." → name.utf8ByteSize ≤ longestName) → t.walk place names ≠ .error .nameTooLong
  | [], _, _ => by simp [walk]
  | name :: rest, place, h => by
    have hrest : ∀ other ∈ rest, other ≠ ".." → other.utf8ByteSize ≤ longestName := fun other ho =>
      h other (.tail _ ho)
    rw [walk]
    split
    next => simp
    next => simp
    next =>
      split
      next => exact walk_of_names hrest
      next hne =>
        rw [if_neg (Nat.not_lt.2 (h name (.head _) hne))]
        exact walk_of_names hrest

/-- Whether there is something at a path that fits can always be told. -/
theorem holds_of_fits (hfits : p.Fits) (t : Tree) : ∃ b, t.holds p = .ok b := by
  rw [holds]
  split
  next => exact ⟨_, rfl⟩
  next subject h =>
    exfalso
    have hfind : t.find p ≠ .error .nameTooLong := by
      rw [find, if_neg (Nat.not_lt.2 hfits.path)]
      exact walk_of_names hfits.names
    rcases reach_eq_error h with ⟨-, hrefused⟩ | ⟨reason, hf, hrefused⟩
    · cases hrefused
    · rw [about, Fault.refused.injEq] at hrefused
      exact hfind (hf.trans (congrArg Except.error hrefused.1.symm))
  next => exact ⟨_, rfl⟩

/-- The place that names spell from a place on. -/
def lead (place : Place) : List String → Place
  | [] => place
  | name :: rest => lead (if name = ".." then place.dropLast else place ++ [name]) rest

/-- The place that a path spells, whatever is on the way. -/
def place (t : Tree) (p : Path) : Place := lead (if p.isAbsolute then [] else t.here) p.parts

theorem lead_append : ∀ (names rest : List String) (place : Place), lead place (names ++ rest) = lead (lead place names) rest
  | [], _, _ => rfl
  | _ :: names, rest, _ => lead_append names rest _

theorem eq_lead_of_walk : ∀ {names : List String} {place q : Place}, t.walk place names = .ok q → q = lead place names
  | [], _, _, h => (Except.ok.inj h).symm
  | name :: rest, place, q, h => by
    rw [lead]
    obtain ⟨-, ⟨hup, hrest⟩ | ⟨hup, -, hrest⟩⟩ := walk_cons_eq_ok h
    · rw [if_pos hup]
      exact eq_lead_of_walk hrest
    · rw [if_neg hup]
      exact eq_lead_of_walk hrest

/-- A path that leads somewhere leads to the place that it spells. -/
theorem eq_place_of_reach {q : Place} (h : t.reach p = .ok q) : q = t.place p := by
  have hfind := (reach_eq_ok h).2
  rw [find] at hfind
  split at hfind
  · simp at hfind
  · exact eq_lead_of_walk hfind

theorem place_congr (h : u.here = t.here) (p : Path) : u.place p = t.place p := by
  rw [place, place, h]

theorem place_join (t : Tree) (p q : Path) (h : q.anchor = .none) : t.place (p.join q) = lead (t.place p) q.parts := by
  have hq : q.isAbsolute = false := by simp [Path.isAbsolute, h]
  rw [Path.join, if_neg (by simp [hq]), place, place, ← lead_append]
  rfl

/-! ### Operations -/

variable {content : Bytes} {e : Fault}

theorem makeDirectory_eq_ok (h : t.makeDirectory p = .ok u) :
    ∃ place, t.reach p = .ok place ∧ t.get? place = none ∧ u = t.put place .directory := by
  cases hr : t.reach p with
  | error e => simp [makeDirectory, hr, bind, Except.bind] at h
  | ok place =>
    simp only [makeDirectory, hr, bind, Except.bind] at h
    split at h
    · simp at h
    next hnone => exact ⟨place, rfl, hnone, (Except.ok.inj h).symm⟩

theorem write_eq_ok (h : t.write p content = .ok u) :
    ∃ place, t.reach p = .ok place ∧ t.get? place ≠ some .directory ∧ u = t.put place (.file content) := by
  cases hr : t.reach p with
  | error e => simp [write, hr, bind, Except.bind] at h
  | ok place =>
    simp only [write, hr, bind, Except.bind] at h
    split at h
    next => simp at h
    next hne => exact ⟨place, rfl, hne, (Except.ok.inj h).symm⟩

theorem remove_eq_ok (h : t.remove p = .ok u) :
    ∃ place content, t.reach p = .ok place ∧ t.get? place = some (.file content) ∧ u = t.prune place := by
  cases hr : t.reach p with
  | error e => simp [remove, hr, bind, Except.bind] at h
  | ok place =>
    simp only [remove, hr, bind, Except.bind] at h
    split at h
    next => simp at h
    next => simp at h
    next content hfile => exact ⟨place, content, rfl, hfile, (Except.ok.inj h).symm⟩

/-- What is done at the place that a path leads to is refused if the way there is, or what is done there. -/
theorem isRefusal_of_reach_bind {α : Type} {f : Place → Except Fault α} (hnull : p.text.toList.contains '\x00' = false)
    (hf : ∀ place e, f place = .error e → e.isRefusal = true) (h : (t.reach p >>= f) = .error e) : e.isRefusal = true := by
  cases hr : t.reach p with
  | error reason =>
    rw [hr] at h
    exact Except.error.inj h ▸ isRefusal_of_reach hnull hr
  | ok place =>
    rw [hr] at h
    exact hf place e h

theorem isRefusal_of_remove (hnull : p.text.toList.contains '\x00' = false) (h : t.remove p = .error e) :
    e.isRefusal = true := by
  rw [remove] at h
  refine isRefusal_of_reach_bind hnull (fun place cause hcause => ?_) h
  split at hcause
  · exact Except.error.inj hcause ▸ rfl
  · exact Except.error.inj hcause ▸ rfl
  · cases hcause

theorem isRefusal_of_write (hnull : p.text.toList.contains '\x00' = false) (h : t.write p content = .error e) :
    e.isRefusal = true := by
  rw [write] at h
  refine isRefusal_of_reach_bind hnull (fun place cause hcause => ?_) h
  split at hcause
  · exact Except.error.inj hcause ▸ rfl
  · cases hcause

theorem isRefusal_of_read (hnull : p.text.toList.contains '\x00' = false) (h : t.read p = .error e) :
    e.isRefusal = true := by
  rw [read] at h
  refine isRefusal_of_reach_bind hnull (fun place cause hcause => ?_) h
  split at hcause
  · exact Except.error.inj hcause ▸ rfl
  · exact Except.error.inj hcause ▸ rfl
  · cases hcause

/-- A text is read, or it is not one, or the system refuses. -/
theorem readText_ne_null (hnull : p.text.toList.contains '\x00' = false) : t.readText p ≠ .error .nullInPath := by
  intro h
  cases hread : t.read p with
  | error e =>
    rw [readText, hread] at h
    obtain rfl : e = .nullInPath := Except.error.inj h
    exact Bool.noConfusion (isRefusal_of_read hnull hread)
  | ok content =>
    simp only [readText, hread, bind, Except.bind] at h
    split at h
    next => simp [pure, Except.pure] at h
    next => simp at h

/-- A path at which there is something holds no null character. -/
theorem not_null_of_hasContent (h : t.hasContent p = .ok true) : p.text.toList.contains '\x00' = false := by
  cases hnull : p.text.toList.contains '\x00' with
  | false => rfl
  | true =>
    have hholds : t.holds p = .ok false := by rw [holds, reach_of_null hnull]
    rw [hasContent, hholds] at h
    cases h

theorem read_of_file {place : Place} {content : Bytes} (h : t.reach p = .ok place)
    (hget : t.get? place = some (.file content)) : t.read p = .ok content := by
  simp [read, h, hget, bind, Except.bind, pure, Except.pure]

/-- A text that has been encoded is read as it was, if it holds no CR. -/
theorem readText_of_encoded {text : String} (h : t.read p = .ok (Text.Utf8.encode text)) (hlines : '\r' ∉ text.toList) :
    t.readText p = .ok text := by
  simp [readText, h, Text.Utf8.decode?_encode, Text.Utf8.unifyLineEnds_eq_self hlines, bind, Except.bind, pure, Except.pure]

theorem write_of_null (hnull : p.text.toList.contains '\x00' = true) : t.write p content = .error .nullInPath := by
  rw [write, reach_of_null hnull]
  rfl

/-! ### Directories that stay -/

/-- Every directory is still one. -/
structure Keeps (t u : Tree) : Prop where
  here : u.here = t.here
  directory : ∀ place, t.get? place = some .directory → u.get? place = some .directory

instance : IsPreorder Tree Keeps where
  refl _ := ⟨rfl, fun _ h => h⟩
  trans _ _ _ h h' := ⟨h'.here.trans h.here, fun place hplace => h'.directory place (h.directory place hplace)⟩

theorem Keeps.walk (h : Keeps t u) : ∀ {names : List String} {place q : Place}, t.walk place names = .ok q →
    u.walk place names = .ok q
  | [], _, _, hw => hw
  | name :: rest, place, q, hw => by
    obtain ⟨hdirectory, hstep⟩ := walk_cons_eq_ok hw
    rw [walk_of_directory (h.directory place hdirectory)]
    rcases hstep with ⟨hup, hrest⟩ | ⟨hup, hle, hrest⟩
    · rw [if_pos hup]
      exact h.walk hrest
    · rw [if_neg hup, if_neg (Nat.not_lt.2 hle)]
      exact h.walk hrest

/-- As long as directories stay, a path leads where it has led. -/
theorem Keeps.reach {q : Place} (h : Keeps t u) (hr : t.reach p = .ok q) : u.reach p = .ok q := by
  obtain ⟨hnull, hfind⟩ := reach_eq_ok hr
  refine reach_of_find_ok hnull ?_
  rw [find] at hfind ⊢
  split at hfind
  next => simp at hfind
  next hle =>
    rw [if_neg hle, h.here]
    exact h.walk hfind

theorem get?_put (t : Tree) (place other : Place) (node : Node) (h : place ≠ []) :
    (t.put place node).get? other = if other = place then some node else t.get? other := by
  split
  next heq =>
    subst heq
    exact get?_put_self h t node
  next hne => exact get?_put_of_ne hne t node

theorem ne_nil_of_get? {place : Place} (h : t.get? place ≠ some .directory) : place ≠ [] := by
  rintro rfl
  exact h (by simp [get?])

theorem keeps_put {place : Place} {node : Node} (h : t.get? place ≠ some .directory) : Keeps t (t.put place node) := by
  refine ⟨rfl, fun other hother => ?_⟩
  rw [get?_put _ _ _ _ (ne_nil_of_get? h), if_neg]
  · exact hother
  · rintro rfl
    exact h hother

theorem keeps_makeDirectory (h : t.makeDirectory p = .ok u) : Keeps t u := by
  obtain ⟨place, -, hnone, rfl⟩ := makeDirectory_eq_ok h
  exact keeps_put (by simp [hnone])

theorem keeps_write (h : t.write p content = .ok u) : Keeps t u := by
  obtain ⟨place, -, hne, rfl⟩ := write_eq_ok h
  exact keeps_put hne

/-! ### Directories that are added -/

/-- Nothing has changed but that directories may have been added at some places. -/
structure Grows (P : Place → Prop) (t u : Tree) : Prop where
  here : u.here = t.here
  get? : ∀ place, u.get? place = t.get? place ∨
    P place ∧ t.get? place = none ∧ u.get? place = some .directory

variable {P Q : Place → Prop}

theorem Grows.refl (P : Place → Prop) (t : Tree) : Grows P t t := ⟨rfl, fun _ => .inl rfl⟩

theorem Grows.trans (h : Grows P t u) (h' : Grows P u w) : Grows P t w := by
  refine ⟨h'.here.trans h.here, fun place => ?_⟩
  rcases h.get? place with hsame | ⟨hP, hnone, hdirectory⟩
  · rcases h'.get? place with hsame' | ⟨hP, hnone, hdirectory⟩
    · exact .inl (hsame'.trans hsame)
    · exact .inr ⟨hP, hsame.symm.trans hnone, hdirectory⟩
  · rcases h'.get? place with hsame' | ⟨-, hnone', -⟩
    · exact .inr ⟨hP, hnone, hsame'.trans hdirectory⟩
    · simp [hdirectory] at hnone'

theorem Grows.mono (h : Grows P t u) (hPQ : ∀ place, P place → Q place) : Grows Q t u :=
  ⟨h.here, fun place => (h.get? place).imp_right fun hnew => ⟨hPQ place hnew.1, hnew.2⟩⟩

theorem Grows.keeps (h : Grows P t u) : Keeps t u := by
  refine ⟨h.here, fun place hplace => ?_⟩
  rcases h.get? place with hsame | ⟨-, -, hdirectory⟩
  · exact hsame.trans hplace
  · exact hdirectory

theorem grows_makeDirectory (h : t.makeDirectory p = .ok u) : Grows (· = t.place p) t u := by
  obtain ⟨place, hreach, hnone, rfl⟩ := makeDirectory_eq_ok h
  obtain rfl := eq_place_of_reach hreach
  refine ⟨rfl, fun other => ?_⟩
  rw [get?_put _ _ _ _ (ne_nil_of_get? (t := t) (by simp [hnone]))]
  split
  next heq => exact .inr ⟨heq, heq ▸ hnone, rfl⟩
  next => exact .inl rfl

theorem settle_cases (t : Tree) (p : Path) (r : Except Fault Tree) :
    (∃ u, r = .ok u ∧ provideDirectory.settle t p r = (.ok (), u)) ∨ (provideDirectory.settle t p r).2 = t := by
  rw [provideDirectory.settle.eq_def]
  split
  · exact .inl ⟨_, rfl, rfl⟩
  · exact .inr rfl
  · split <;> exact .inr rfl
  · exact .inr rfl

/-- The places of a path and of its parents. -/
def way (t : Tree) (p : Path) (place : Place) : Prop := ∃ q : Path, q.Above p ∧ place = t.place q

theorem grows_settle (t : Tree) (p : Path) :
    Grows (t.way p) t (provideDirectory.settle t p (t.makeDirectory p)).2 := by
  rcases settle_cases t p (t.makeDirectory p) with ⟨u, hmade, hsettle⟩ | hsettle
  · rw [hsettle]
    exact (grows_makeDirectory hmade).mono fun place hplace => ⟨p, p.above_refl, hplace⟩
  · rw [hsettle]
    exact .refl _ t

/-- A directory is provided by making it, which may fail at once, or by making it when the one above has been provided. -/
theorem provideDirectory_cases (levels : Nat) (p : Path) (t : Tree) :
    t.provideDirectory levels p = provideDirectory.settle t p (t.makeDirectory p) ∨
      (∃ e, t.provideDirectory levels p = (.error e, t)) ∨
      ∃ n, levels = n + 1 ∧
        ((∃ u, t.provideDirectory n p.parent = (.ok (), u) ∧
            t.provideDirectory levels p = provideDirectory.settle u p (u.makeDirectory p)) ∨
          ∃ e, t.provideDirectory levels p = (.error e, (t.provideDirectory n p.parent).2)) := by
  rw [provideDirectory.eq_def]
  split
  next =>
    split
    · exact .inr (.inl ⟨_, rfl⟩)
    · split
      · exact .inr (.inl ⟨_, rfl⟩)
      next n =>
        rcases hparent : t.provideDirectory n p.parent with ⟨e | ⟨⟩, u⟩
        · exact .inr (.inr ⟨n, rfl, .inr ⟨e, by rw [hparent]⟩⟩)
        · exact .inr (.inr ⟨n, rfl, .inl ⟨u, hparent, by simp only⟩⟩)
  next => exact .inl rfl

/-- Making a directory with its parents adds directories on the way to it and changes nothing else, even where it fails. -/
theorem grows_provideDirectory (levels : Nat) (p : Path) (t : Tree) : Grows (t.way p) t (t.provideDirectory levels p).2 := by
  induction levels using Nat.strongRecOn generalizing p with
  | ind levels ih =>
    rcases provideDirectory_cases levels p t with h | ⟨e, h⟩ | ⟨n, hlevels, hmade⟩
    · exact h ▸ grows_settle t p
    · exact h ▸ .refl _ t
    · have hparent : Grows (t.way p) t (t.provideDirectory n p.parent).2 :=
        (ih n (by omega) p.parent).mono fun place ⟨q, hq, hplace⟩ => ⟨q, hq.trans p.above_parent, hplace⟩
      rcases hmade with ⟨u, habove, h⟩ | ⟨e, h⟩
      · rw [habove] at hparent
        refine h ▸ hparent.trans ((grows_settle u p).mono fun place ⟨q, hq, hplace⟩ => ⟨q, hq, ?_⟩)
        exact hplace.trans (place_congr hparent.here q)
      · exact congrArg Prod.snd h ▸ hparent

/-! ### Trees without loose ends -/

/-- Whatever is there is in a directory, and so is the place that paths start from. -/
structure Grounded (t : Tree) : Prop where
  parent : ∀ place node, t.get? place = some node → t.get? place.dropLast = some .directory
  here : t.get? t.here = some .directory

/-- Below what is no directory there is nothing. -/
theorem Grounded.append_eq_none (h : t.Grounded) {place : Place} (hne : t.get? place ≠ some .directory) (name : String)
    (rest : List String) : t.get? (place ++ name :: rest) = none := by
  induction rest using List.reverseRecOn with
  | nil =>
    cases hget : t.get? (place ++ [name]) with
    | none => rfl
    | some node => exact absurd (by simpa using h.parent _ node hget) hne
  | append_singleton rest last ih =>
    cases hget : t.get? (place ++ name :: (rest ++ [last])) with
    | none => rfl
    | some node =>
      have hparent := h.parent _ node hget
      rw [← List.cons_append, ← List.append_assoc, List.dropLast_concat, ih] at hparent
      simp at hparent

/-- A place that a walk comes to is in a directory, or is where the walk has started. -/
theorem Grounded.parent_of_walk (h : t.Grounded) : ∀ {names : List String} {place q : Place},
    t.walk place names = .ok q → q = place ∨ t.get? q.dropLast = some .directory
  | [], _, _, hw => .inl (Except.ok.inj hw).symm
  | name :: rest, place, q, hw => by
    obtain ⟨hdirectory, ⟨-, hrest⟩ | ⟨-, -, hrest⟩⟩ := walk_cons_eq_ok hw
    · rcases h.parent_of_walk hrest with rfl | hq
      · exact .inr (h.parent _ _ (h.parent _ _ hdirectory))
      · exact .inr hq
    · rcases h.parent_of_walk hrest with rfl | hq
      · exact .inr (by simpa using hdirectory)
      · exact .inr hq

theorem Grounded.parent_of_reach (h : t.Grounded) {q : Place} (hr : t.reach p = .ok q) (hq : t.get? q ≠ some .directory) :
    t.get? q.dropLast = some .directory := by
  have hfind := (reach_eq_ok hr).2
  rw [find] at hfind
  split at hfind
  · simp at hfind
  · rcases h.parent_of_walk hfind with rfl | hparent
    · split at hq
      · exact absurd (by simp [Tree.get?]) hq
      · exact absurd h.here hq
    · exact hparent

/-- Something new in the place of what is no directory leaves a tree without loose ends, if its place is in a directory. -/
theorem Grounded.put (h : t.Grounded) {q : Place} {node : Node} (hq : t.get? q ≠ some .directory)
    (hparent : t.get? q.dropLast = some .directory) : (t.put q node).Grounded := by
  have hkeeps : Keeps t (t.put q node) := keeps_put hq
  refine ⟨fun place other hplace => hkeeps.directory _ ?_, hkeeps.directory _ h.here⟩
  rw [get?_put _ _ _ _ (ne_nil_of_get? hq)] at hplace
  split at hplace
  next heq => exact heq ▸ hparent
  next => exact h.parent place other hplace

theorem Grounded.makeDirectory (h : t.Grounded) (hm : t.makeDirectory p = .ok u) : u.Grounded := by
  obtain ⟨q, hreach, hnone, rfl⟩ := makeDirectory_eq_ok hm
  have hq : t.get? q ≠ some .directory := by simp [hnone]
  exact h.put hq (h.parent_of_reach hreach hq)

theorem Grounded.write (h : t.Grounded) (hw : t.write p content = .ok u) : u.Grounded := by
  obtain ⟨q, hreach, hq, rfl⟩ := write_eq_ok hw
  exact h.put hq (h.parent_of_reach hreach hq)

theorem Grounded.settle (h : t.Grounded) (p : Path) :
    (provideDirectory.settle t p (t.makeDirectory p)).2.Grounded := by
  rcases settle_cases t p (t.makeDirectory p) with ⟨u, hmade, hsettle⟩ | hsettle
  · rw [hsettle]
    exact h.makeDirectory hmade
  · rw [hsettle]
    exact h

theorem Grounded.provideDirectory (levels : Nat) (p : Path) (h : t.Grounded) :
    (t.provideDirectory levels p).2.Grounded := by
  induction levels using Nat.strongRecOn generalizing p with
  | ind levels ih =>
    rcases provideDirectory_cases levels p t with hmade | ⟨e, hmade⟩ | ⟨n, hlevels, ⟨u, habove, hmade⟩ | ⟨e, hmade⟩⟩
    · exact hmade ▸ h.settle p
    · exact hmade ▸ h
    · have hparent := ih n (by omega) p.parent
      rw [habove] at hparent
      exact hmade ▸ hparent.settle p
    · exact congrArg Prod.snd hmade ▸ ih n (by omega) p.parent

/-! ### What is taken away -/

/-- Nothing has changed but that something may have been taken away at some places. -/
structure Prunes (P : Place → Prop) (t u : Tree) : Prop where
  here : u.here = t.here
  get? : ∀ place, u.get? place = t.get? place ∨ P place ∧ u.get? place = none

theorem Prunes.refl (P : Place → Prop) (t : Tree) : Prunes P t t := ⟨rfl, fun _ => .inl rfl⟩

theorem Prunes.trans (h : Prunes P t u) (h' : Prunes P u w) : Prunes P t w := by
  refine ⟨h'.here.trans h.here, fun place => ?_⟩
  rcases h'.get? place with hsame | hgone
  · rw [hsame]
    exact h.get? place
  · exact .inr hgone

theorem Prunes.mono (h : Prunes P t u) (hPQ : ∀ place, P place → Q place) : Prunes Q t u :=
  ⟨h.here, fun place => (h.get? place).imp_right fun hgone => ⟨hPQ place hgone.1, hgone.2⟩⟩

theorem get?_prune {place : Place} (h : place ≠ []) (t : Tree) (other : Place) :
    (t.prune place).get? other = if place <+: other then none else t.get? other := by
  split
  next hbelow =>
    have hne : other ≠ [] := fun he => h (List.prefix_nil.1 (he ▸ hbelow))
    exact get?_prune_of_isPrefixOf (List.isPrefixOf_iff_prefix.2 hbelow) hne t
  next hbelow =>
    exact get?_prune_of_not_isPrefixOf (Bool.eq_false_iff.2 fun he => hbelow (List.isPrefixOf_iff_prefix.1 he)) t

theorem prunes_prune {place : Place} (h : place ≠ []) (t : Tree) : Prunes (place <+: ·) t (t.prune place) := by
  refine ⟨rfl, fun other => ?_⟩
  rw [get?_prune h]
  split
  next hbelow => exact .inr ⟨hbelow, rfl⟩
  next => exact .inl rfl

theorem prunes_remove (h : t.remove p = .ok u) : Prunes (t.place p <+: ·) t u := by
  obtain ⟨q, content, hreach, hfile, rfl⟩ := remove_eq_ok h
  obtain rfl := eq_place_of_reach hreach
  exact prunes_prune (ne_nil_of_get? (t := t) (by simp [hfile])) t

/-- Without loose ends, removing a file removes no directory. -/
theorem Grounded.keeps_remove (h : t.Grounded) (hr : t.remove p = .ok u) : Keeps t u := by
  obtain ⟨q, content, -, hfile, rfl⟩ := remove_eq_ok hr
  have hq : t.get? q ≠ some .directory := by simp [hfile]
  refine ⟨rfl, fun place hplace => ?_⟩
  rw [get?_prune (ne_nil_of_get? hq), if_neg]
  · exact hplace
  · rintro ⟨rest, rfl⟩
    cases rest with
    | nil => exact hq (by simpa using hplace)
    | cons name rest => simp [h.append_eq_none hq name rest] at hplace

theorem Grounded.remove (h : t.Grounded) (hr : t.remove p = .ok u) : u.Grounded := by
  have hkeeps := h.keeps_remove hr
  refine ⟨fun place node hplace => hkeeps.directory _ ?_, hkeeps.here ▸ hkeeps.directory _ h.here⟩
  rcases (prunes_remove hr).get? place with hsame | ⟨-, hnone⟩
  · exact h.parent place node (hsame ▸ hplace)
  · simp [hnone] at hplace

/-- There is nothing at a path whose place has been taken away. -/
theorem holds_prune (hfits : p.Fits) (t : Tree) (h : t.place p ≠ []) : (t.prune (t.place p)).holds p = .ok false := by
  obtain ⟨b, hb⟩ := holds_of_fits hfits (t.prune (t.place p))
  cases b with
  | false => exact hb
  | true =>
    rw [holds] at hb
    split at hb
    next place hreach =>
      obtain rfl : place = t.place p := (eq_place_of_reach hreach).trans (place_congr (u := t.prune (t.place p)) rfl p)
      simp [get?_prune h] at hb
    next => simp at hb
    next => simp at hb

/-- Nothing is left at a place or below it. -/
def Clear (t : Tree) (place : Place) : Prop := ∀ other, place <+: other → t.get? other = none

theorem Grounded.clear (h : t.Grounded) {place : Place} (hnone : t.get? place = none) : t.Clear place := by
  rintro other ⟨rest, rfl⟩
  cases rest with
  | nil => simpa using hnone
  | cons name rest => exact h.append_eq_none (by simp [hnone]) name rest

theorem clear_prune {place : Place} (h : place ≠ []) (t : Tree) : (t.prune place).Clear place := fun other hbelow => by
  rw [get?_prune h, if_pos hbelow]

end Tree
end Adjudication.Files
