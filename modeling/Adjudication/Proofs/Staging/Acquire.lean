import Adjudication.Proofs.Staging
import Adjudication.Proofs.Time.Exact

/-!
What a slot that could not be acquired leaves behind. The directory of the slot is made before the source is written to
it. A source that the system refuses is followed by a release, which takes the directory away again, so that nothing is
left but directories on the way to the root of all slots. A name with a null character never comes to the system, though:
it is no refusal, and the directory stays.
-/

namespace Adjudication.Staging

open Files (Tree Place)
open Files.Tree (Grows)

variable {σ : Type} {root : Files.Path} {source : Source} {runId : Option String} {name given : String}
  {content : Files.Bytes} {s t : Scene σ} {slot : Slot} {es : List StagingError} {e : Failure} {r : Except Failure Unit}

/-- Releasing a slot of which there has been no more than its directory does not fail, and takes the making of the directory
back. -/
theorem grows_of_released {files made left : Tree} (hgrounded : files.Grounded)
    (hmade : files.makeDirectory slot.workdir = .ok made) (h : Released slot made left es r) :
    r = .ok () ∧ Grows (fun _ => False) files left := by
  obtain ⟨place, hreach, hnone, -⟩ := Tree.makeDirectory_eq_ok hmade
  obtain rfl := Tree.eq_place_of_reach hreach
  have hgrows := Tree.grows_makeDirectory hmade
  have hplace : made.place slot.workdir = files.place slot.workdir := Tree.place_congr hgrows.here _
  have hdirectory : made.get? (files.place slot.workdir) = some .directory := by
    obtain ⟨place, hreach', -, rfl⟩ := Tree.makeDirectory_eq_ok hmade
    obtain rfl := Tree.eq_place_of_reach hreach'
    exact Tree.get?_put_self (Tree.ne_nil_of_get? (t := files) (by simp [hnone])) _ _
  -- Nothing has been in the directory, for it was not there.
  obtain ⟨hr, hclear⟩ := h.bare _ (hgrows.keeps.reach hreach) hdirectory fun other hbelow hne =>
    ((hgrows.get? other).resolve_right fun hnew => hne hnew.1).trans (hgrounded.clear hnone other hbelow)
  refine ⟨hr, h.prunes.here.trans hgrows.here, fun other => .inl ?_⟩
  by_cases hbelow : files.place slot.workdir <+: other
  · exact (hclear other hbelow).trans (hgrounded.clear hnone other hbelow).symm
  · have hleft : left.get? other = made.get? other :=
      (h.prunes.get? other).resolve_right fun hgone => hbelow (hplace ▸ hgone.1)
    have hmade : made.get? other = files.get? other :=
      (hgrows.get? other).resolve_right fun hnew => hbelow (hnew.1 ▸ List.prefix_rfl)
    exact hleft.trans hmade

/-- A source whose path cannot be given to the system has a name that cannot. -/
theorem null_of_write {files made : Tree} {fault : Files.Fault} (hsource : Source.make content given = .ok source)
    (hmade : files.makeDirectory (slotOf root source name).workdir = .ok made)
    (hwrite : made.write (slotOf root source name).source source.content = .error fault)
    (hrefusal : fault.isRefusal = false) : fault = .nullInPath ∧ '\x00' ∈ source.identifier.toList := by
  have hnull : (slotOf root source name).source.text.toList.contains '\x00' = true := by
    by_contra hnull
    simp [Tree.isRefusal_of_write (Bool.eq_false_iff.2 hnull) hwrite] at hrefusal
  refine ⟨Except.error.inj (hwrite.symm.trans (Tree.write_of_null hnull)), ?_⟩
  obtain ⟨place, hreach, -⟩ := Tree.makeDirectory_eq_ok hmade
  by_contra hname
  rw [source_slotOf, not_null_child (Tree.reach_eq_ok hreach).1 (Files.Path.ofText_of_make hsource).1 hname] at hnull
  exact Bool.false_ne_true hnull

/-- A source under a name that is too long for any system is never staged. -/
theorem acquire_of_longName (root : Files.Path) (source : Source) (name : String) (s : Scene σ)
    (hname : Files.Path.ofText source.identifier = ⟨.none, [source.identifier]⟩)
    (hlong : Tree.longestName < source.identifier.utf8ByteSize) : ∃ e t, acquire root source name s = (.error e, t) := by
  cases reached root source name s with
  | root e he => exact ⟨_, _, he⟩
  | workdir files fault _ hwrite he =>
    obtain ⟨e, t, hfails⟩ := writeSource_of_error (slotOf root source name) { s with files } hwrite
    exact ⟨e, t, he e t hfails⟩
  | source files last _ hwrite _ =>
    obtain ⟨place, hreach, -⟩ := Tree.write_eq_ok hwrite
    have hmem : source.identifier ∈ (slotOf root source name).source.parts := by
      rw [source_slotOf, Files.Path.child, hname]
      simp [Files.Path.join, Files.Path.isAbsolute]
    have hup : source.identifier ≠ ".." := fun he => absurd (he ▸ hlong) (by decide)
    exact absurd ((Tree.fits_of_find (Tree.reach_eq_ok hreach).2).names _ hmem hup) (Nat.not_le.2 hlong)

/-- A slot that could not be acquired under a name. -/
theorem acquire_eq_error (hsource : Source.make content given = .ok source) (hgrounded : s.files.Grounded)
    (h : acquire root source name s = (.error e, t)) :
    Grows (s.files.way root) s.files t.files ∨
      (e = .file .nullInPath ∧ '\x00' ∈ source.identifier.toList ∧
        ∃ files, Grows (s.files.way root) s.files files ∧
          files.makeDirectory (slotOf root source name).workdir = .ok t.files) := by
  have hroot : Grows (s.files.way root) s.files (s.files.provideDirectory s.host.ascent root).2 :=
    Tree.grows_provideDirectory s.host.ascent root s.files
  cases reached root source name s with
  | root e he =>
    obtain ⟨-, rfl⟩ := Act.error_eq_error.1 (he.symm.trans h)
    exact .inl hroot
  | source files last _ _ he =>
    rw [he] at h
    simp at h
  | workdir files fault hworkdir hwrite he =>
    have hprovided : (s.files.provideDirectory s.host.ascent root).2.Grounded := hgrounded.provideDirectory _ root
    cases hrefusal : fault.isRefusal with
    | false =>
      obtain ⟨rfl, hname⟩ := null_of_write hsource hworkdir hwrite hrefusal
      obtain ⟨rfl, rfl⟩ := Act.error_eq_error.1 ((he _ _ (writeSource_of_fault _ _ hwrite hrefusal)).symm.trans h)
      exact .inr ⟨rfl, hname, _, hroot, hworkdir⟩
    | true =>
      -- The release meets the directory of the slot with nothing in it.
      obtain ⟨place, hreach, hnone, -⟩ := Tree.makeDirectory_eq_ok hworkdir
      have hnull : fault ≠ .nullInPath := by
        rintro rfl
        simp [Files.Fault.isRefusal] at hrefusal
      obtain ⟨r, es, left, hrelease, -, hreleased⟩ := release_run
        (releasable_of_write hworkdir hwrite fun h => hnull (Except.error.inj h)) { s with files }
      have hplace : files.place (slotOf root source name).workdir ≠ [] := by
        rw [Tree.place_congr (Tree.grows_makeDirectory hworkdir).here, ← Tree.eq_place_of_reach hreach]
        exact Tree.ne_nil_of_get? (t := (s.files.provideDirectory s.host.ascent root).2) (by simp [hnone])
      obtain ⟨rfl, hback⟩ := grows_of_released hprovided hworkdir
        (hreleased (nested_slotOf hsource root name files) hplace)
      obtain ⟨-, rfl⟩ := Act.error_eq_error.1
        ((he _ _ (writeSource_of_refusal _ _ hwrite hrefusal hrelease)).symm.trans h)
      exact .inl (hroot.trans (hback.mono fun _ => False.elim))

theorem exists_acquired (h : (acquire root source name s).1.isOk = true) :
    ∃ slot t, acquire root source name s = (.ok slot, t) := by
  rcases hacquire : acquire root source name s with ⟨e | slot, t⟩
  · rw [hacquire] at h
    cases h
  · exact ⟨slot, t, rfl⟩

/-- A scene without files. -/
def blank : Scene Int := Scene.ofService (.ofScripts 0 [] []) .nothing

def runs : Files.Path := ⟨.none, ["runs"]⟩

theorem grounded_blank : blank.files.Grounded := by
  refine ⟨fun place node h => ?_, rfl⟩
  by_cases hplace : place = []
  · simp [hplace, Tree.get?]
  · simp [Tree.get?, hplace, blank, Scene.ofService] at h

/-- A name of the given length, in characters of three bytes. -/
def euros (n : Nat) : String := String.ofList (List.replicate n '€')

theorem mem_euros {n : Nat} {c : Char} (h : c ∈ (euros n).toList) : c = '€' := by
  rw [euros, String.toList_ofList] at h
  exact List.eq_of_mem_replicate h

theorem make_euros (n : Nat) : Source.make [] (euros (n + 1)) = .ok ⟨[], euros (n + 1)⟩ := by
  have hchars : (euros (n + 1)).toList = '€' :: List.replicate n '€' := by
    rw [euros, String.toList_ofList, List.replicate_succ]
  refine Files.Path.make_of_isPart [] (by simp [hchars]) (by simp [hchars]) (fun h => ?_)
    (fun h => absurd (mem_euros h) (by decide)) (fun h => absurd (mem_euros h) (by decide))
  exact absurd (mem_euros (n := n + 1) (c := '.') (by simp [h])) (by decide)

/-- A name of 258 bytes. -/
def longName : String := euros 86

theorem make_longName : Source.make [] longName = .ok ⟨[], longName⟩ := make_euros 85

/-- A place with two names is neither that of `runs` nor that of a parent of it. -/
theorem not_way_runs (t : Tree) (first second : String) (hhere : t.here = []) : ¬ t.way runs [first, second] := by
  rintro ⟨q, ⟨hanchor, hparts⟩, hplace⟩
  have hplace' : t.place q = Tree.lead [] q.parts := by simp [Tree.place, hhere]
  rcases List.prefix_cons_iff.1 hparts with hnil | ⟨rest, hcons, hrest⟩
  · simp [hplace', hnil, Tree.lead] at hplace
  · simp [hplace', hcons, List.prefix_nil.1 hrest, Tree.lead] at hplace

end Adjudication.Staging
