import Adjudication.Files.Tree
import Adjudication.Proofs.Lockstep

/-!
Trees that are alike: the same places hold files and directories, and where they hold files the contents are related. What a
program does to two such trees it does in the same way, with the same refusals, and leaves them alike; only what it reads from
a file may differ, and then it is related.
-/

namespace Adjudication.Files

open scoped Place

variable {R : Bytes → Bytes → Prop}

inductive Node.Alike (R : Bytes → Bytes → Prop) : Node → Node → Prop
  | file {content content' : Bytes} (h : R content content') : Alike R (.file content) (.file content')
  | directory : Alike R .directory .directory

/-- The nodes of a tree at the same places, one after the other. -/
abbrev NodesAlike (R : Bytes → Bytes → Prop) : List (Place × Node) → List (Place × Node) → Prop :=
  List.Forall₂ fun n m => n.1 = m.1 ∧ Node.Alike R n.2 m.2

theorem NodesAlike.filter {nodes nodes' : List (Place × Node)} (h : NodesAlike R nodes nodes') {p : Place × Node → Bool}
    (hp : ∀ place node node', Node.Alike R node node' → p (place, node) = p (place, node')) :
    NodesAlike R (nodes.filter p) (nodes'.filter p) := by
  refine List.rel_filter (fun n m hnm => ?_) h
  obtain ⟨place, node⟩ := n
  obtain ⟨place', node'⟩ := m
  obtain ⟨rfl, hnode⟩ := hnm
  simp only [hp place node node' hnode]

namespace Tree

structure Alike (R : Bytes → Bytes → Prop) (t u : Tree) : Prop where
  nodes : NodesAlike R t.nodes u.nodes
  here : t.here = u.here

variable {t u : Tree}

theorem alike_refl [Std.Refl R] (t : Tree) : t.Alike R t := by
  refine ⟨List.forall₂_same.2 fun n _ => ⟨rfl, ?_⟩, rfl⟩
  obtain ⟨place, content | _⟩ := n
  · exact .file (Std.Refl.refl content)
  · exact .directory

/-! ### Looking -/

theorem Alike.get? (h : t.Alike R u) (place : Place) : Option.Rel (Node.Alike R) (t.get? place) (u.get? place) := by
  have hfind : ∀ {ns ms : List (Place × Node)}, NodesAlike R ns ms → Option.Rel (Node.Alike R)
      ((ns.find? fun n => n.1 = place).map Prod.snd) ((ms.find? fun n => n.1 = place).map Prod.snd) := by
    intro ns ms h
    induction h with
    | nil => exact .none
    | @cons n m _ _ hnm _ ih =>
      simp only [List.find?_cons, hnm.1]
      split
      · exact .some hnm.2
      · exact ih
  rw [Tree.get?, Tree.get?]
  split
  · exact .some .directory
  · exact hfind h.nodes

/-- The same is at a place in both trees, files with related contents. -/
theorem Alike.get?_cases (h : t.Alike R u) (place : Place) :
    (t.get? place = none ∧ u.get? place = none) ∨
      (∃ content content', t.get? place = some (.file content) ∧ u.get? place = some (.file content') ∧ R content content') ∨
      (t.get? place = some .directory ∧ u.get? place = some .directory) := by
  have hget := h.get? place
  generalize t.get? place = x at hget ⊢
  generalize u.get? place = y at hget ⊢
  cases hget with
  | none => exact .inl ⟨rfl, rfl⟩
  | some hnode =>
    cases hnode with
    | file hcontent => exact .inr (.inl ⟨_, _, rfl, rfl, hcontent⟩)
    | directory => exact .inr (.inr ⟨rfl, rfl⟩)

theorem Alike.walk (h : t.Alike R u) : ∀ (names : List String) (place : Place), t.walk place names = u.walk place names
  | [], _ => rfl
  | name :: names, place => by
    rcases h.get?_cases place with ⟨ht, hu⟩ | ⟨_, _, ht, hu, -⟩ | ⟨ht, hu⟩ <;> simp only [Tree.walk, ht, hu, h.walk names]

theorem Alike.reach (h : t.Alike R u) (p : Path) : t.reach p = u.reach p := by
  rw [Tree.reach, Tree.reach, find, find, h.here, h.walk]

theorem Alike.holds (h : t.Alike R u) (p : Path) : t.holds p = u.holds p := by
  have hsome : ∀ place, (t.get? place).isSome = (u.get? place).isSome := fun place => by
    rcases h.get?_cases place with ⟨ht, hu⟩ | ⟨_, _, ht, hu, -⟩ | ⟨ht, hu⟩ <;> simp only [ht, hu, Option.isSome]
  simp only [Tree.holds, h.reach, hsome]

theorem Alike.isDirectoryAt (h : t.Alike R u) (p : Path) : t.isDirectoryAt p = u.isDirectoryAt p := by
  have hdirectory : ∀ place, (t.get? place = some .directory) = (u.get? place = some .directory) := fun place => by
    rcases h.get?_cases place with ⟨ht, hu⟩ | ⟨_, _, ht, hu, -⟩ | ⟨ht, hu⟩ <;> simp [ht, hu]
  simp only [Tree.isDirectoryAt, h.reach, hdirectory]

/-- A path leads to the same place in both trees. -/
theorem Alike.matched_reach {α β : Type} {V : α → β → Prop} (h : t.Alike R u) (p : Path) {f : Place → Except Fault α}
    {g : Place → Except Fault β} (hfg : ∀ place, Matched V (f place) (g place)) :
    Matched V (t.reach p >>= f) (u.reach p >>= g) := by
  rw [h.reach]
  exact (matched_eq.2 rfl).bind fun place _ heq => heq ▸ hfg place

theorem Alike.read (h : t.Alike R u) (p : Path) : Matched R (t.read p) (u.read p) :=
  h.matched_reach p fun place => by
    rcases h.get?_cases place with ⟨ht, hu⟩ | ⟨_, _, ht, hu, hcontent⟩ | ⟨ht, hu⟩ <;> rw [ht, hu]
    · exact .error _
    · exact .ok hcontent
    · exact .error _

/-- Whether there is anything in a file is the same as long as the relation does not take an empty content for another. -/
theorem Alike.hasContent (h : t.Alike R u) (hR : ∀ content content', R content content' → (content = [] ↔ content' = []))
    (p : Path) : t.hasContent p = u.hasContent p := by
  refine matched_eq.1 ?_
  rw [Tree.hasContent, Tree.hasContent, h.holds]
  refine (matched_eq.2 rfl).bind fun held _ heq => ?_
  subst heq
  split
  · exact .ok rfl
  · refine h.matched_reach p fun place => ?_
    rcases h.get?_cases place with ⟨ht, hu⟩ | ⟨_, _, ht, hu, hcontent⟩ | ⟨ht, hu⟩ <;> rw [ht, hu]
    · exact .ok rfl
    · exact .ok (by simp [hR _ _ hcontent])
    · exact .ok rfl

/-! ### Changing -/

theorem Alike.put (h : t.Alike R u) (place : Place) {n m : Node} (hnm : Node.Alike R n m) :
    (t.put place n).Alike R (u.put place m) where
  nodes := List.rel_append (NodesAlike.filter h.nodes fun _ _ _ _ => rfl) (.cons ⟨rfl, hnm⟩ .nil)
  here := h.here

theorem Alike.prune (h : t.Alike R u) (place : Place) : (t.prune place).Alike R (u.prune place) where
  nodes := NodesAlike.filter h.nodes fun _ _ _ _ => rfl
  here := h.here

theorem Alike.makeDirectory (h : t.Alike R u) (p : Path) : Matched (Alike R) (t.makeDirectory p) (u.makeDirectory p) :=
  h.matched_reach p fun place => by
    rcases h.get?_cases place with ⟨ht, hu⟩ | ⟨_, _, ht, hu, -⟩ | ⟨ht, hu⟩ <;> rw [ht, hu]
    · exact .ok (h.put place .directory)
    · exact .error _
    · exact .error _

theorem Alike.write (h : t.Alike R u) (p : Path) {content content' : Bytes} (hcontent : R content content') :
    Matched (Alike R) (t.write p content) (u.write p content') :=
  h.matched_reach p fun place => by
    rcases h.get?_cases place with ⟨ht, hu⟩ | ⟨_, _, ht, hu, -⟩ | ⟨ht, hu⟩ <;> rw [ht, hu]
    · exact .ok (h.put place (.file hcontent))
    · exact .ok (h.put place (.file hcontent))
    · exact .error _

theorem Alike.remove (h : t.Alike R u) (p : Path) : Matched (Alike R) (t.remove p) (u.remove p) :=
  h.matched_reach p fun place => by
    rcases h.get?_cases place with ⟨ht, hu⟩ | ⟨_, _, ht, hu, -⟩ | ⟨ht, hu⟩ <;> rw [ht, hu]
    · exact .error _
    · exact .ok (h.prune place)
    · exact .error _

theorem NodesAlike.map_fst {nodes nodes' : List (Place × Node)} (h : NodesAlike R nodes nodes') :
    nodes.map Prod.fst = nodes'.map Prod.fst := by
  induction h with
  | nil => rfl
  | cons hnm _ ih => rw [List.map_cons, List.map_cons, hnm.1, ih]

theorem Alike.entries (h : t.Alike R u) (place : Place) : t.entries place = u.entries place :=
  congrArg (List.filter fun p : Place => p.isIn place) (NodesAlike.map_fst h.nodes)

theorem Alike.each {f g : Place → Tree → Except Fault Unit × Tree}
    (hfg : ∀ place {t u}, t.Alike R u → (f place t).1 = (g place u).1 ∧ (f place t).2.Alike R (g place u).2) :
    ∀ (places : List Place) {t u : Tree}, t.Alike R u →
      (takeAway.each f places t).1 = (takeAway.each g places u).1 ∧
        (takeAway.each f places t).2.Alike R (takeAway.each g places u).2
  | [], _, _, h => ⟨rfl, h⟩
  | place :: rest, t, u, h => by
    obtain ⟨hresult, htaken⟩ := hfg place h
    rw [takeAway.each, takeAway.each]
    generalize f place t = i at hresult htaken ⊢
    generalize g place u = j at hresult htaken ⊢
    obtain ⟨r, t'⟩ := i
    obtain ⟨r', u'⟩ := j
    obtain rfl : r = r' := hresult
    cases r with
    | ok => exact Alike.each hfg rest htaken
    | error e => exact ⟨rfl, htaken⟩

theorem Alike.takeAway (levels : Nat) (place : Place) (h : t.Alike R u) :
    (Tree.takeAway levels place t).1 = (Tree.takeAway levels place u).1 ∧
      (Tree.takeAway levels place t).2.Alike R (Tree.takeAway levels place u).2 := by
  have hdirectory : (t.get? place = some .directory) = (u.get? place = some .directory) := by
    rcases h.get?_cases place with ⟨ht, hu⟩ | ⟨_, _, ht, hu, -⟩ | ⟨ht, hu⟩ <;> simp [ht, hu]
  induction levels generalizing place t u with
  | zero =>
    rw [Tree.takeAway, Tree.takeAway]
    simp only [hdirectory]
    split
    · exact ⟨rfl, h⟩
    · exact ⟨rfl, h.prune place⟩
  | succ levels ih =>
    rw [Tree.takeAway, Tree.takeAway]
    simp only [hdirectory, h.entries place]
    split
    next =>
      obtain ⟨hresult, htaken⟩ := Alike.each (fun place {t u} h => ih place h (by
        rcases h.get?_cases place with ⟨ht, hu⟩ | ⟨_, _, ht, hu, -⟩ | ⟨ht, hu⟩ <;> simp [ht, hu])) (u.entries place) h
      generalize takeAway.each (Tree.takeAway levels) (u.entries place) t = i at hresult htaken ⊢
      generalize takeAway.each (Tree.takeAway levels) (u.entries place) u = j at hresult htaken ⊢
      obtain ⟨r, t'⟩ := i
      obtain ⟨r', u'⟩ := j
      obtain rfl : r = r' := hresult
      cases r with
      | ok => exact ⟨rfl, htaken.prune place⟩
      | error e => exact ⟨rfl, htaken⟩
    next => exact ⟨rfl, h.prune place⟩

theorem Alike.removeAll (h : t.Alike R u) (levels : Nat) (p : Path) :
    (t.removeAll levels p).1 = (u.removeAll levels p).1 ∧ (t.removeAll levels p).2.Alike R (u.removeAll levels p).2 := by
  rw [Tree.removeAll, Tree.removeAll, h.reach]
  cases u.reach p with
  | error e => exact ⟨rfl, h⟩
  | ok place =>
    rcases h.get?_cases place with ⟨ht, hu⟩ | ⟨_, _, ht, hu, -⟩ | ⟨ht, hu⟩ <;> simp only [ht, hu]
    · exact ⟨trivial, h⟩
    · exact ⟨trivial, h⟩
    · exact h.takeAway (levels + 1) place

theorem Alike.settle (h : t.Alike R u) (p : Path) {x y : Except Fault Tree} (hxy : Matched (Alike R) x y) :
    (provideDirectory.settle t p x).1 = (provideDirectory.settle u p y).1 ∧
      (provideDirectory.settle t p x).2.Alike R (provideDirectory.settle u p y).2 := by
  cases hxy with
  | ok hmade => exact ⟨rfl, hmade⟩
  | error e =>
    cases e with
    | refused reason subject =>
      cases reason with
      | noEntry => exact ⟨rfl, h⟩
      | _ =>
        simp only [provideDirectory.settle, h.isDirectoryAt]
        split <;> exact ⟨rfl, h⟩
    | _ => exact ⟨rfl, h⟩

theorem Alike.provideDirectory (h : t.Alike R u) (levels : Nat) (p : Path) :
    (t.provideDirectory levels p).1 = (u.provideDirectory levels p).1 ∧
      (t.provideDirectory levels p).2.Alike R (u.provideDirectory levels p).2 := by
  induction levels using Nat.strongRecOn generalizing p with
  | ind levels ih =>
    have hmade := h.makeDirectory p
    have hsettled := h.settle p hmade
    rw [Tree.provideDirectory.eq_def, Tree.provideDirectory.eq_def u]
    generalize t.makeDirectory p = x at hmade hsettled ⊢
    generalize u.makeDirectory p = y at hmade hsettled ⊢
    cases hmade with
    | ok hmade => exact ⟨rfl, hmade⟩
    | error e =>
      split
      next subject =>
        split
        · exact ⟨rfl, h⟩
        -- The parents come first, with one level less.
        cases levels with
        | zero => exact ⟨rfl, h⟩
        | succ levels =>
          obtain ⟨hresult, habove⟩ := ih levels (Nat.lt_succ_self levels) p.parent
          dsimp only
          generalize t.provideDirectory levels p.parent = i at hresult habove ⊢
          generalize u.provideDirectory levels p.parent = j at hresult habove ⊢
          obtain ⟨r, t'⟩ := i
          obtain ⟨r', u'⟩ := j
          obtain rfl : r = r' := hresult
          cases r with
          | ok => exact habove.settle p (habove.makeDirectory p)
          | error e => exact ⟨rfl, habove⟩
      · exact hsettled

theorem Alike.pave : ∀ (names : List String) (place : Place) {t u : Tree}, t.Alike R u →
    Option.Rel (Alike R) (t.pave place names) (u.pave place names)
  | [], _, _, _, h => .some h
  | name :: rest, place, t, u, h => by
    rw [Tree.pave, Tree.pave]
    split
    · exact Alike.pave rest _ h
    · split
      · exact .none
      · rcases h.get?_cases (place ++ [name]) with ⟨ht, hu⟩ | ⟨_, _, ht, hu, -⟩ | ⟨ht, hu⟩ <;> simp only [ht, hu]
        · exact Alike.pave rest _ (h.put _ .directory)
        · exact .none
        · exact Alike.pave rest _ h

theorem Alike.paved (h : t.Alike R u) (p : Path) : Option.Rel (Alike R) (t.paved p) (u.paved p) := by
  rw [Tree.paved, Tree.paved, h.here]
  split
  · exact .none
  · exact Alike.pave p.parts _ h

end Tree
end Adjudication.Files
