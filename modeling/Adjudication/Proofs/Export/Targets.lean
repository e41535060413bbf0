import Adjudication.Export.Delivery
import Adjudication.Proofs.Json.Whole
import Adjudication.Proofs.Onward
import Adjudication.Proofs.Verification.Sight

/-!
The files of a report beside one another. The file of each format has the name of the path that is asked for up to its suffix
and an ending of its own, in the same directory, so files of different formats are different ones. Therefore none that is
written later takes the place of one written before: where a report is delivered, each of its files reads as it was written.
-/

namespace Adjudication

namespace Files

/-! ### Names beside a name -/

namespace Path

variable {p : Path}

/-- The name without its suffix. -/
def stem (p : Path) : String := String.ofList (splitSuffix p.name.toList).1

/-- The path of another name in the same directory. -/
def sibling (p : Path) (name : String) : Path := ⟨p.anchor, p.parts.dropLast ++ [name]⟩

theorem splitSuffix_append (name : List Char) : (splitSuffix name).1 ++ (splitSuffix name).2 = name := by
  rw [splitSuffix]
  split
  next => exact List.append_nil name
  next hsplit =>
    obtain ⟨-, hlength, -⟩ := by simpa only [not_or] using hsplit
    -- seen from its end, the name is the ending, a dot, and the stem
    have hparts := List.takeWhile_append_dropWhile (p := (· ≠ '.')) (l := name.reverse)
    cases hrest : name.reverse.dropWhile (· ≠ '.') with
    | nil =>
      rw [hrest, List.append_nil] at hparts
      rw [hparts, List.reverse_reverse] at hlength
      exact absurd rfl hlength
    | cons c stem =>
      obtain rfl : c = '.' := by
        have hhead := List.head?_dropWhile_not (p := (· ≠ '.')) name.reverse
        rw [hrest] at hhead
        simpa using hhead
      generalize name.reverse.takeWhile (· ≠ '.') = ending at hparts ⊢
      rw [hrest] at hparts
      have hname : name = stem.reverse ++ '.' :: ending.reverse := by
        rw [← List.reverse_reverse name, ← hparts]
        simp
      subst hname
      have htake : stem.length + (ending.length + 1) - ending.length - 1 = stem.length := by omega
      simp [htake]

theorem stem_append_suffix (p : Path) : p.stem ++ p.suffix = p.name := by
  rw [stem, suffix, ← String.ofList_append, splitSuffix_append, String.ofList_toList]

theorem suffix_isSuffix (p : Path) : p.suffix.toList <:+ p.name.toList :=
  ⟨p.stem.toList, by rw [← String.toList_append, stem_append_suffix]⟩

theorem withSuffix?_of_name (h : p.name ≠ "") (ending : String) :
    p.withSuffix? ending = some (p.sibling (p.stem ++ ending)) := if_neg h

@[simp]
theorem name_sibling (p : Path) (name : String) : (p.sibling name).name = name := by
  simp [sibling, Path.name]

@[simp]
theorem parent_sibling (p : Path) (name : String) : (p.sibling name).parent = p.parent := by
  simp [sibling, parent]

theorem sibling_name (h : p.name ≠ "") : p.sibling p.name = p := by
  rw [Path.name] at h
  cases hlast : p.parts.getLast? with
  | none => simp [hlast] at h
  | some last => rw [sibling, Path.name, hlast, Option.getD_some, List.dropLast_append_getLast? last hlast]

end Path

/-! ### What is read besides -/

namespace Tree

variable {t u : Tree} {p q : Path} {content other : Bytes}

/-- Different names lead from a place to different ones, even if one of them leads upwards. -/
theorem lead_singleton_ne {a b : String} (h : a ≠ b) (place : Place) : lead place [a] ≠ lead place [b] := by
  have hlength : place.dropLast.length < place.length + 1 := by
    rw [List.length_dropLast]
    omega
  rw [lead, lead, lead, lead]
  by_cases ha : a = ".." <;> by_cases hb : b = ".."
  · exact absurd (ha.trans hb.symm) h
  · rw [if_pos ha, if_neg hb]
    intro he
    rw [he, List.length_append, List.length_singleton] at hlength
    exact hlength.false
  · rw [if_neg ha, if_pos hb]
    intro he
    rw [← he, List.length_append, List.length_singleton] at hlength
    exact hlength.false
  · rw [if_neg ha, if_neg hb]
    intro he
    exact h (List.singleton_inj.1 (List.append_cancel_left he))

theorem place_sibling_ne {a b : String} (h : a ≠ b) (t : Tree) (p : Path) :
    t.place (p.sibling a) ≠ t.place (p.sibling b) := by
  simp only [place, Path.sibling, lead_append]
  exact lead_singleton_ne h _

theorem read_eq_ok (h : t.read p = .ok content) :
    t.reach p = .ok (t.place p) ∧ t.get? (t.place p) = some (.file content) := by
  rw [read] at h
  cases hreach : t.reach p with
  | error e => simp [hreach, bind, Except.bind] at h
  | ok place =>
    obtain rfl := eq_place_of_reach hreach
    simp only [hreach, bind, Except.bind] at h
    split at h
    next => simp at h
    next => simp at h
    next found hfound =>
      obtain rfl : found = content := Except.ok.inj h
      exact ⟨rfl, hfound⟩

/-- Directories that are made leave what is read. -/
theorem Grows.read {P : Place → Prop} (h : Grows P t u) (hread : t.read p = .ok content) : u.read p = .ok content := by
  obtain ⟨hreach, hfile⟩ := read_eq_ok hread
  refine read_of_file (h.keeps.reach hreach) ?_
  rcases h.get? (t.place p) with hsame | ⟨-, hnone, -⟩
  · rw [hsame, hfile]
  · rw [hfile] at hnone
    cases hnone

/-- A file that is written in another place leaves what is read. -/
theorem read_of_write_of_ne (h : t.write q other = .ok u) (hne : t.place p ≠ t.place q) (hread : t.read p = .ok content) :
    u.read p = .ok content := by
  obtain ⟨hreach, hfile⟩ := read_eq_ok hread
  have hkeeps := keeps_write h
  obtain ⟨place, hplace, -, rfl⟩ := write_eq_ok h
  obtain rfl := eq_place_of_reach hplace
  refine read_of_file (hkeeps.reach hreach) ?_
  rw [get?_put_of_ne hne, hfile]

end Tree
end Files

namespace Export

open Files

/-! ### The paths -/

/-- What the name of a format's file ends in, after the stem of the path that is asked for. -/
def ending (out : Path) : Format → Option String
  | .json => some (if out.suffix = ".jsonl" ∨ out.suffix = ".sarif" then ".json" else out.suffix)
  | .jsonl => some ".jsonl"
  | .sarif => some ".sarif"
  | .table => none

variable {out path : Path} {f g : Format}

theorem target_eq (h : out.name ≠ "") (f : Format) :
    target out f = (ending out f).map fun ending => out.sibling (out.stem ++ ending) := by
  cases f with
  | json =>
    rw [target, ending]
    split
    · rw [Path.withSuffix?_of_name h]
      rfl
    · rw [Option.map_some, Path.stem_append_suffix, Path.sibling_name h]
  | jsonl => exact Path.withSuffix?_of_name h _
  | sarif => exact Path.withSuffix?_of_name h _
  | table => rfl

/-- The ending tells the format. -/
theorem format_of_ending {e : String} (h : ending out f = some e) :
    f = if e = ".jsonl" then .jsonl else if e = ".sarif" then .sarif else .json := by
  cases f with
  | json =>
    have hother : e ≠ ".jsonl" ∧ e ≠ ".sarif" := by
      obtain rfl := Option.some.inj h
      split
      · decide
      next hother => exact not_or.1 hother
    rw [if_neg hother.1, if_neg hother.2]
  | jsonl =>
    obtain rfl := Option.some.inj h
    rw [if_pos rfl]
  | sarif =>
    obtain rfl := Option.some.inj h
    rw [if_neg (by decide), if_pos rfl]
  | table => cases h

theorem exists_ending (out : Path) (hf : f ≠ .table) : ∃ e, ending out f = some e := by
  cases f with
  | table => exact absurd rfl hf
  | _ => exact ⟨_, rfl⟩

/-- The files of two formats have different names in one directory. -/
theorem exists_siblings (h : out.name ≠ "") {other : Path} (hf : target out f = some path) (hg : target out g = some other)
    (hne : f ≠ g) : ∃ a b, path = out.sibling a ∧ other = out.sibling b ∧ a ≠ b := by
  rw [target_eq h, Option.map_eq_some_iff] at hf hg
  obtain ⟨e, he, rfl⟩ := hf
  obtain ⟨e', he', rfl⟩ := hg
  refine ⟨_, _, rfl, rfl, fun hsame => hne ?_⟩
  obtain rfl : e = e' := (String.append_right_inj _).1 hsame
  rw [format_of_ending he, ← format_of_ending he']

theorem target_inj (h : out.name ≠ "") (hf : target out f = some path) (hg : target out g = some path) : f = g := by
  by_contra hne
  obtain ⟨a, b, ha, hb, hab⟩ := exists_siblings h hf hg hne
  have hname := congrArg Path.name (ha.symm.trans hb)
  rw [Path.name_sibling, Path.name_sibling] at hname
  exact hab hname

theorem parent_of_target (h : out.name ≠ "") (hf : target out f = some path) : path.parent = out.parent := by
  rw [target_eq h, Option.map_eq_some_iff] at hf
  obtain ⟨e, -, rfl⟩ := hf
  exact Path.parent_sibling _ _

theorem name_of_target (h : out.name ≠ "") (hf : target out f = some path) : path.name ≠ "" := by
  rw [target_eq h, Option.map_eq_some_iff] at hf
  obtain ⟨e, he, rfl⟩ := hf
  rw [Path.name_sibling]
  intro hempty
  obtain ⟨hstem, rfl⟩ := String.append_eq_empty_iff.1 hempty
  have hjson := format_of_ending he
  rw [if_neg (by decide), if_neg (by decide)] at hjson
  subst hjson
  rw [ending, Option.some.injEq] at he
  split at he
  · exact absurd he (by decide)
  · rw [← Path.stem_append_suffix, hstem, he] at h
    exact h rfl

/-- The document has the path itself, unless that ends as another format's file does. -/
theorem target_json_eq_iff (h : out.name ≠ "") :
    target out .json = some out ↔ out.suffix ≠ ".jsonl" ∧ out.suffix ≠ ".sarif" := by
  rw [← not_or]
  constructor
  · intro hsame hother
    rw [target, if_pos hother, Path.withSuffix?_of_name h] at hsame
    have hname := congrArg Path.name (Option.some.inj hsame)
    rw [Path.name_sibling, ← Path.stem_append_suffix out, String.append_right_inj] at hname
    rw [← hname] at hother
    exact absurd hother (by decide)
  · exact fun hother => if_neg hother

/-! ### Writing them -/

variable {σ : Type} {r : Report} {asked : List Format} {s t : Scene σ} {files : List (Format × Path)}

/-- What the file of a format has of a report. -/
def content (r : Report) (f : Format) : Text.Wide := .ofCodes (chunks r f).flatten

/-- Writing chunks provides directories and then writes the file, if the chunks make a text. -/
theorem writeChunks_eq_ok {cs : List (List Nat)} (h : writeChunks path cs s = (.ok (), t)) :
    ∃ (P : Place → Prop) (grown : Tree) (text : String), Tree.Grows P s.files grown ∧
      Text.Wide.ofCodes cs.flatten = .text text ∧ grown.write path (Text.Utf8.encode text) = .ok t.files := by
  obtain ⟨provided, u, hprovide, h⟩ := Act.bind_eq_ok h
  obtain rfl : u = { s with files := (s.files.provideDirectory s.host.ascent path.parent).2 } :=
    (congrArg Prod.snd hprovide).symm
  obtain ⟨_, v, hsettled, h⟩ := Act.bind_eq_ok h
  obtain rfl : v = { s with files := (s.files.provideDirectory s.host.ascent path.parent).2 } := by
    cases provided with
    | ok _ => exact (congrArg Prod.snd hsettled).symm
    | error _ => exact absurd hsettled Act.error_ne_ok
  rcases hencoded : Text.Wide.encodeEach (cs.map .ofCodes) with ⟨written, bytes⟩
  rw [hencoded] at h
  obtain ⟨_, w, hchanged, h⟩ := Act.bind_eq_ok h
  cases written with
  | error e => exact absurd h Act.error_ne_ok
  | ok =>
    obtain rfl : w = t := congrArg Prod.snd h
    obtain ⟨text, htext, rfl⟩ := Text.Wide.encodeEach_eq_ok_iff.1 hencoded
    refine ⟨_, _, text, Tree.grows_provideDirectory s.host.ascent path.parent s.files, htext, ?_⟩
    rw [Run.change] at hchanged
    split at hchanged
    next written hwrite =>
      obtain rfl := congrArg Prod.snd hchanged
      exact hwrite
    next => exact absurd hchanged Act.error_ne_ok

/-- A text that has been written is read, and so is what has been read before under another name beside it. -/
theorem read_of_writeChunks {cs : List (List Nat)} (h : writeChunks path cs s = (.ok (), t)) :
    (∃ text, Text.Wide.ofCodes cs.flatten = .text text ∧ t.files.read path = .ok (Text.Utf8.encode text)) ∧
    ∀ (other : Path) (content : Bytes), s.files.place other ≠ s.files.place path → s.files.read other = .ok content →
      t.files.read other = .ok content := by
  obtain ⟨P, grown, text, hgrows, htext, hwrite⟩ := writeChunks_eq_ok h
  refine ⟨⟨text, htext, Tree.read_of_write hwrite⟩, fun other content hne hread => ?_⟩
  refine Tree.read_of_write_of_ne hwrite ?_ (hgrows.read hread)
  rwa [Tree.place_congr hgrows.here, Tree.place_congr hgrows.here]

/-- The file of a format is written if it is asked for. -/
theorem deliverFile_eq_ok (h : deliverFile r out asked f s = (.ok files, t)) :
    (f ∉ asked ∧ files = [] ∧ t = s) ∨
    ∃ path, f ∈ asked ∧ target out f = some path ∧ files = [(f, path)] ∧
      writeChunks path (chunks r f) s = (.ok (), t) := by
  rw [deliverFile] at h
  split at h
  next hnot =>
    obtain ⟨rfl, rfl⟩ := Act.ok_eq_ok.1 h
    exact .inl ⟨hnot, rfl, rfl⟩
  next hasked =>
    cases htarget : target out f with
    | none =>
      rw [htarget] at h
      exact absurd h Act.error_ne_ok
    | some path =>
      rw [htarget] at h
      obtain ⟨_, u, hwrite, h⟩ := Act.bind_eq_ok h
      obtain ⟨rfl, rfl⟩ := Act.ok_eq_ok.1 h
      exact .inr ⟨path, not_not.1 hasked, rfl, rfl, hwrite⟩

/-- What can be read under the name of another format is left by the delivery of this one. -/
theorem read_of_deliverFile (hname : out.name ≠ "") (hne : g ≠ f) (hg : target out g = some path) {content : Bytes}
    (h : deliverFile r out asked f s = (.ok files, t)) (hread : s.files.read path = .ok content) :
    t.files.read path = .ok content := by
  rcases deliverFile_eq_ok h with ⟨-, -, rfl⟩ | ⟨other, -, hf, -, hwrite⟩
  · exact hread
  · obtain ⟨a, b, rfl, rfl, hab⟩ := exists_siblings hname hg hf hne
    exact (read_of_writeChunks hwrite).2 _ _ (Tree.place_sibling_ne hab _ _) hread

/-- The formats of `fs` that are asked for have their files, and each file is the text that its format has of the report. -/
structure Delivered (r : Report) (out : Path) (asked fs : List Format) (files : List (Format × Path)) (t : Tree) : Prop where
  mem_iff : ∀ f path, (f, path) ∈ files ↔ f ∈ fs ∧ f ∈ asked ∧ target out f = some path
  read : ∀ f path, (f, path) ∈ files →
    ∃ text, content r f = .text text ∧ t.read path = .ok (Text.Utf8.encode text)

theorem delivered_of_deliverFile (h : deliverFile r out asked f s = (.ok files, t)) :
    Delivered r out asked [f] files t.files := by
  rcases deliverFile_eq_ok h with ⟨hnot, rfl, -⟩ | ⟨path, hasked, htarget, rfl, hwrite⟩
  · refine ⟨fun g path => ?_, fun g path hmem => absurd hmem List.not_mem_nil⟩
    constructor
    · exact fun hmem => absurd hmem List.not_mem_nil
    · rintro ⟨hg, hasked, -⟩
      exact absurd (List.mem_singleton.1 hg ▸ hasked) hnot
  · refine ⟨fun g other => ?_, fun g other hmem => ?_⟩
    · rw [List.mem_singleton, List.mem_singleton, Prod.mk.injEq]
      constructor
      · rintro ⟨rfl, rfl⟩
        exact ⟨rfl, hasked, htarget⟩
      · rintro ⟨rfl, -, hother⟩
        exact ⟨rfl, Option.some.inj (hother.symm.trans htarget)⟩
    · obtain ⟨rfl, rfl⟩ := Prod.mk.inj (List.mem_singleton.1 hmem)
      exact (read_of_writeChunks hwrite).1

theorem mapM_deliverFile_cons {fs : List Format} {rows : List (List (Format × Path))}
    (h : (f :: fs).mapM (deliverFile r out asked) s = (.ok rows, t)) :
    ∃ first rest u, rows = first :: rest ∧ deliverFile r out asked f s = (.ok first, u) ∧
      fs.mapM (deliverFile r out asked) u = (.ok rest, t) := by
  rw [List.mapM_cons] at h
  obtain ⟨first, u, hfirst, h⟩ := Act.bind_eq_ok h
  obtain ⟨rest, v, hrest, h⟩ := Act.bind_eq_ok h
  obtain ⟨rfl, rfl⟩ := Act.ok_eq_ok.1 h
  exact ⟨first, rest, u, rfl, hfirst, hrest⟩

theorem read_of_mapM_deliverFile (hname : out.name ≠ "") (hg : target out g = some path) {content : Bytes} :
    ∀ {fs : List Format} {rows : List (List (Format × Path))} {s t : Scene σ}, g ∉ fs →
      fs.mapM (deliverFile r out asked) s = (.ok rows, t) → s.files.read path = .ok content →
      t.files.read path = .ok content
  | [], _, s, t, _, h, hread => by
    obtain rfl : s = t := (Act.ok_eq_ok.1 h).2
    exact hread
  | f :: fs, _, s, t, hnot, h, hread => by
    obtain ⟨first, rest, u, -, hfirst, hrest⟩ := mapM_deliverFile_cons h
    obtain ⟨hne, hnot⟩ := not_or.1 (List.mem_cons.not.1 hnot)
    exact read_of_mapM_deliverFile hname hg hnot hrest (read_of_deliverFile hname hne hg hfirst hread)

/-- Formats that differ are delivered one after the other, and each leaves the files of those before it. -/
theorem delivered_of_mapM (hname : out.name ≠ "") :
    ∀ {fs : List Format} {rows : List (List (Format × Path))} {s t : Scene σ}, fs.Nodup →
      fs.mapM (deliverFile r out asked) s = (.ok rows, t) → Delivered r out asked fs rows.flatten t.files
  | [], rows, s, t, _, h => by
    obtain rfl : [] = rows := (Act.ok_eq_ok.1 h).1
    exact ⟨by simp, by simp⟩
  | f :: fs, rows, s, t, hnodup, h => by
    obtain ⟨first, rest, u, rfl, hfirst, hrest⟩ := mapM_deliverFile_cons h
    obtain ⟨hnot, hnodup⟩ := List.nodup_cons.1 hnodup
    have hone := delivered_of_deliverFile hfirst
    have hothers := delivered_of_mapM hname hnodup hrest
    refine ⟨fun g path => ?_, fun g path hmem => ?_⟩
    · rw [List.flatten_cons, List.mem_append, hone.mem_iff, hothers.mem_iff, ← or_and_right, List.mem_singleton,
        List.mem_cons]
    · rw [List.flatten_cons, List.mem_append] at hmem
      rcases hmem with hmem | hmem
      · obtain ⟨hg, -, htarget⟩ := (hone.mem_iff g path).1 hmem
        obtain rfl := List.mem_singleton.1 hg
        obtain ⟨text, htext, hread⟩ := hone.read _ path hmem
        exact ⟨text, htext, read_of_mapM_deliverFile hname htarget hnot hrest hread⟩
      · exact hothers.read g path hmem

/-! ### The whole delivery -/

/-- The files are the same. -/
def SameFiles (s t : Scene σ) : Prop := t.files = s.files

instance : IsPreorder (Scene σ) SameFiles where
  refl _ := rfl
  trans _ _ _ h h' := h'.trans h

theorem respects_put (what : Shown) : Act.Respects SameFiles (Run.put what : Run σ Unit) :=
  Run.respects_put fun _ => rfl

/-- Telling of the files that have been written changes none. -/
theorem noted_eq_ok {written : List (Format × Path)} (h : (do
    for (f, path) in written do
      Run.put (.note (.text ("Wrote " ++ f.name ++ " report to " ++ path.text)))
    return written : Run σ (List (Format × Path))) s = (.ok files, t)) : files = written ∧ SameFiles s t := by
  obtain ⟨_, u, hnoted, h⟩ := Act.bind_eq_ok h
  obtain ⟨rfl, rfl⟩ := Act.ok_eq_ok.1 h
  obtain rfl := congrArg Prod.snd hnoted
  refine ⟨rfl, Act.respects_forIn (fun note _ => ?_) _ _ s⟩
  exact (respects_put _).bind fun _ => Act.respects_pure _

/-- A delivery writes the files one after the other; what is shown of it changes none. -/
theorem deliver_eq_ok (h : deliver r asked out s = (.ok files, t)) : ∃ rows u,
    [Format.json, .jsonl, .sarif].mapM (deliverFile r out asked) s = (.ok rows, u) ∧ files = rows.flatten ∧
      SameFiles u t := by
  obtain ⟨rows, u, hrows, h⟩ := Act.bind_eq_ok h
  refine ⟨rows, u, hrows, ?_⟩
  split at h
  · obtain ⟨_, v, hshown, h⟩ := Act.bind_eq_ok h
    obtain rfl := congrArg Prod.snd hshown
    obtain ⟨hfiles, hsame⟩ := noted_eq_ok h
    exact ⟨hfiles, IsTrans.trans _ _ _ (respects_put _ u) hsame⟩
  · exact noted_eq_ok h

/-- The files of a report do not overwrite one another. Those of all formats are in the directory of the path that is asked
for and no two of them have one path; the document has the path itself unless that ends as the file of another format does.
Whatever formats are asked for, a delivery that succeeds has written the files of just these, and each of them then holds
what its format has of the report. -/
theorem exports_apart (h : out.name ≠ "") :
    (∀ f, f ≠ .table → ∃ path, target out f = some path ∧ path.parent = out.parent ∧ path.name ≠ "") ∧
    (∀ f g path, target out f = some path → target out g = some path → f = g) ∧
    (target out .json = some out ↔ out.suffix ≠ ".jsonl" ∧ out.suffix ≠ ".sarif") ∧
    (target out .json = some out ∨ ".jsonl".toList <:+ out.name.toList ∨ ".sarif".toList <:+ out.name.toList) ∧
    ∀ (r : Report) (asked : List Format) (s t : Scene σ) (files : List (Format × Path)),
      deliver r asked out s = (.ok files, t) →
      (∀ f path, (f, path) ∈ files ↔ f ∈ asked ∧ target out f = some path) ∧
      ∀ f path, (f, path) ∈ files →
        ∃ text, content r f = .text text ∧ t.files.read path = .ok (Text.Utf8.encode text) := by
  refine ⟨fun f hf => ?_, fun f g path => target_inj h, target_json_eq_iff h, ?_, fun r asked s t files hdeliver => ?_⟩
  · obtain ⟨e, he⟩ := exists_ending out hf
    have htarget : target out f = some (out.sibling (out.stem ++ e)) := by
      rw [target_eq h, he, Option.map_some]
    exact ⟨_, htarget, parent_of_target h htarget, name_of_target h htarget⟩
  · by_cases hother : out.suffix = ".jsonl" ∨ out.suffix = ".sarif"
    · have hends := out.suffix_isSuffix
      rcases hother with he | he
      · exact .inr (.inl (he ▸ hends))
      · exact .inr (.inr (he ▸ hends))
    · exact .inl ((target_json_eq_iff h).2 (not_or.1 hother))
  · obtain ⟨rows, u, hrows, rfl, hfiles⟩ := deliver_eq_ok hdeliver
    have hdelivered := delivered_of_mapM h (by decide) hrows
    refine ⟨fun f path => ?_, fun f path hmem => ?_⟩
    · rw [hdelivered.mem_iff]
      refine ⟨And.right, fun hmem => ⟨?_, hmem⟩⟩
      cases f with
      | table => cases hmem.2
      | _ => decide
    · rw [hfiles]
      exact hdelivered.read f path hmem

/-- A path whose name has dots at its start, inside, and at its end. -/
def dotted : Path := ⟨.none, ["reports", "..audit.v2."]⟩

/-- A report of a run that has found nothing. -/
def uneventful : Report :=
  { sourceId := "a.sol", status := .success, startedAt := .ofEpoch 0 0, finishedAt := .ofEpoch 1 0, judgeModel := none,
    analyzerExitCode := some 0, error := none, warnings := [], outcomes := [] }

/-- A scene without files. -/
def emptyScene : Scene Int := Scene.ofService (.ofScripts 0 [] []) .nothing

/-- Delivered under that path in every format, a report can be read in three files beside one another. -/
theorem exports_apart_dotted : dotted.name ≠ "" ∧ target dotted .json = some dotted ∧
    ∃ files t, deliver uneventful [.sarif, .table, .jsonl, .json, .sarif] dotted emptyScene = (.ok files, t) ∧
      ∀ f, f ≠ .table → ∃ path, (f, path) ∈ files ∧ path.parent = dotted.parent ∧
        ∃ text, content uneventful f = .text text ∧ t.files.read path = .ok (Text.Utf8.encode text) := by
  have hname : dotted.name ≠ "" := by decide
  obtain ⟨htargets, -, hjson, -, hreads⟩ := exports_apart (σ := Int) hname
  have hok : (deliver uneventful [.sarif, .table, .jsonl, .json, .sarif] dotted emptyScene).1.isOk = true := by
    decide +kernel
  rcases hdeliver : deliver uneventful [.sarif, .table, .jsonl, .json, .sarif] dotted emptyScene with ⟨_ | files, t⟩
  · rw [hdeliver] at hok
    cases hok
  · obtain ⟨hmem, hread⟩ := hreads _ _ _ _ _ hdeliver
    refine ⟨hname, hjson.2 (by decide), files, t, rfl, fun f hf => ?_⟩
    obtain ⟨path, htarget, hparent, -⟩ := htargets f hf
    have hwritten : (f, path) ∈ files := (hmem f path).2 ⟨by cases f <;> decide, htarget⟩
    exact ⟨path, hwritten, hparent, hread f path hwritten⟩

end Export
end Adjudication
