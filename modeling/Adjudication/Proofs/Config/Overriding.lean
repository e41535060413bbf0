import Adjudication.Proofs.Config.Keys
import Adjudication.Proofs.Config.Loading
import Adjudication.Proofs.Yaml.Tidy

/-!
What a file and the environment change in settings. A file is laid over the standard settings key by key, however deep, so
a key of which it says nothing keeps its standard value; and a root that the environment names is all that differs from the
settings that are loaded without it.
-/

namespace Adjudication.Settings

open Yaml (Tidy Laid overlay at?)

variable {levels : Nat} {files : Files.Tree} {env : Environment} {file : Option Files.Path} {path : Files.Path}
  {s : Settings Float} {ms : Yaml.Members} {root : String} {k : Key}

/-- A file holds a table without repeated names. -/
theorem tidy_read (h : read levels files path = .ok ms) : Tidy (.table ms) := by
  have hparts : ∀ v : Yaml, Tidy v → (if v.isBlank then .table [] else v) = .table ms → Tidy (.table ms) := by
    intro v hv he
    split at he
    · exact he ▸ Yaml.tidy_nil
    · exact he ▸ hv
  rw [read] at h
  split at h
  next text _ =>
    rw [tableOf] at h
    split at h
    · cases h
    · cases h
    · cases h
    next v hv =>
      split at h
      next part hpart =>
        obtain rfl := Except.ok.inj h
        exact hparts v (Yaml.tidy_ofText hv) hpart
      next => cases h
  next => split at h <;> cases h

/-! ### What loaded settings are checked from -/

theorem exists_layered (h : load levels files env file = .ok s) : ∃ ms, layered levels files (chosen env file) = .ok ms := by
  cases hms : layered levels files (chosen env file) with
  | ok ms => exact ⟨ms, rfl⟩
  | error e =>
    rw [load_of_layered_error hms] at h
    cases h

theorem reads_ofTable (h : ofTable ms = .ok s) (k : Key) : k.Reads (at? k.way (.table ms)) (k.get s) := by
  rw [ofTable] at h
  cases hpassed : Schema.validate "Settings" check (Yaml.table ms) with
  | error e =>
    rw [hpassed] at h
    cases h
  | ok settings =>
    rw [hpassed] at h
    obtain rfl := Except.ok.inj h
    exact Key.reads_of_check (Schema.validate_eq_ok_iff.1 hpassed) k

/-- A root is set in a table of its own, which is put in the place of the section. -/
theorem withRoot_eq_ok {rooted : Yaml.Members} (h : withRoot root ms = .ok rooted) :
    ∃ part, rooted = Yaml.put "staging" (.table (Yaml.put "root" (.text root) part)) ms := by
  rw [withRoot] at h
  split at h
  next part _ => exact ⟨part, (Except.ok.inj h).symm⟩
  next => cases h

/-- Setting a root leaves what is said under other keys. -/
theorem at?_withRoot {rooted : Yaml.Members} (h : withRoot root ms = .ok rooted) (hk : k ≠ .root) :
    at? k.way (.table rooted) = at? k.way (.table ms) := by
  obtain ⟨part, rfl⟩ := withRoot_eq_ok h
  have hsection : "staging" ≠ k.names.1 := by
    cases k with
    | root => exact absurd rfl hk
    | _ => decide
  rw [Key.at?_way, Key.at?_way, Yaml.lookup_put_of_ne hsection]

theorem at?_withRoot_root {rooted : Yaml.Members} (h : withRoot root ms = .ok rooted) :
    at? Key.root.way (.table rooted) = some (.text root) := by
  obtain ⟨part, rfl⟩ := withRoot_eq_ok h
  show at? ["staging", "root"] _ = _
  rw [Yaml.at?_cons_table, Yaml.lookup_put, Option.bind_some, Yaml.at?_cons_table, Yaml.lookup_put]
  rfl

/-- The values of loaded settings are read from what is said under their keys, unless the environment names the root. -/
theorem reads_load (hload : load levels files env file = .ok s) (hms : layered levels files (chosen env file) = .ok ms)
    (hk : k = .root → spoken env.stagingRoot = none) : k.Reads (at? k.way (.table ms)) (k.get s) := by
  rw [load_of_layered hms] at hload
  cases hroot : spoken env.stagingRoot with
  | none =>
    rw [hroot] at hload
    exact reads_ofTable hload k
  | some root =>
    rw [hroot] at hload
    have hne : k ≠ .root := fun he => by simp [hk he] at hroot
    cases hrooted : withRoot root ms with
    | error e =>
      simp only [hrooted] at hload
      cases hload
    | ok rooted =>
      simp only [hrooted] at hload
      rw [← at?_withRoot hrooted hne]
      exact reads_ofTable hload k

/-- The root that the environment names is the root of the settings. -/
theorem get_root_load (hload : load levels files env file = .ok s) (hroot : spoken env.stagingRoot = some root) :
    s.staging.root = some (Files.Path.ofText root) := by
  obtain ⟨ms, hms⟩ := exists_layered hload
  rw [load_of_layered hms, hroot] at hload
  cases hrooted : withRoot root ms with
  | error e =>
    simp only [hrooted] at hload
    cases hload
  | ok rooted =>
    simp only [hrooted] at hload
    have hread := reads_ofTable hload .root
    rw [at?_withRoot_root hrooted] at hread
    have hnamed : Key.root.Reads (some (.text root)) (some (Files.Path.ofText root)) := rfl
    exact hread.unique hnamed

/-! ### Keys of which nothing is said -/

/-- Something is said under a key: by the file that is loaded, or by the environment, which may name the root. -/
def Mentioned (levels : Nat) (files : Files.Tree) (env : Environment) (file : Option Files.Path) (k : Key) : Prop :=
  (∃ path ms v, chosen env file = some path ∧ read levels files path = .ok ms ∧ at? k.way (.table ms) = some v) ∨
    k = .root ∧ spoken env.stagingRoot ≠ none

/-- A file of which nothing is said under a key leaves the standard settings to be read there, or nothing at all. -/
theorem reads_overlay (hms : Tidy (.table ms)) (hnone : at? k.way (.table ms) = none) {a : k.Value}
    (ha : k.Reads (at? k.way (.table (overlay standardTable ms))) a) : a = k.get standard := by
  have hlayer : Yaml.table (overlay standardTable ms) = Yaml.layer (some (.table standardTable)) (.table ms) := rfl
  rw [hlayer] at ha
  by_cases hcut : Yaml.CutOff k.way (.table ms)
  · rw [Yaml.at?_layer_of_cutOff hms hcut] at ha
    exact ha
  · rw [Yaml.at?_layer_of_none hms hnone hcut] at ha
    exact ha.unique k.reads_standard

/-- A key of which nothing is said keeps its standard value. -/
theorem get_load_of_not_mentioned (hload : load levels files env file = .ok s) (h : ¬ Mentioned levels files env file k) :
    k.get s = k.get standard := by
  obtain ⟨hfile, henv⟩ := not_or.1 h
  obtain ⟨ms, hms⟩ := exists_layered hload
  have hread := reads_load (k := k) hload hms fun hk => by_contra fun hroot => henv ⟨hk, hroot⟩
  cases hpath : chosen env file with
  | none =>
    rw [hpath] at hms
    obtain rfl := Except.ok.inj hms
    exact hread.unique k.reads_standard
  | some path =>
    rw [hpath, layered] at hms
    split at hms
    · cases hms
    · cases hms
    · cases htold : read levels files path with
      | error e =>
        rw [htold] at hms
        cases hms
      | ok told =>
        rw [htold] at hms
        obtain rfl := Except.ok.inj hms
        refine reads_overlay (tidy_read htold) ?_ hread
        exact Option.eq_none_iff_forall_ne_some.2 fun v hv => hfile ⟨path, told, v, hpath, htold, hv⟩

/-- Settings with a root that the environment names, and without it, differ in nothing else. -/
theorem load_withRoot {rooted : Settings Float} (hload : load levels files { env with stagingRoot := none } file = .ok s)
    (hroot : root ≠ "") (hrooted : load levels files { env with stagingRoot := some root } file = .ok rooted) :
    rooted = { s with staging := ⟨some (Files.Path.ofText root)⟩ } := by
  obtain ⟨ms, hms⟩ := exists_layered hload
  have hspoken : spoken (some root) = some root := by simp [spoken, hroot]
  refine Key.ext fun k => ?_
  by_cases hk : k = .root
  · subst hk
    exact get_root_load hrooted hspoken
  · have hsame : k.get { s with staging := ⟨some (Files.Path.ofText root)⟩ } = k.get s := by
      cases k with
      | root => exact absurd rfl hk
      | _ => rfl
    have hread := reads_load (k := k) hload hms fun h => absurd h hk
    have hread' := reads_load (k := k) hrooted hms fun h => absurd h hk
    rw [hsame]
    exact hread'.unique hread

/-- A table is laid over another one key by key, however deep, and laying it on twice is laying it on once; what a file
holds is such a table. So a key of which nothing is said keeps its standard value in the settings that are loaded, and
these differ by a root that the environment names in nothing but this root. Keys are texts: members under other keys are no
part of a table here, since no setting is asked for by one. -/
theorem settings_overlaid :
    (∀ base ms : Yaml.Members, Tidy (.table ms) → Laid base ms (overlay base ms) ∧ overlay base [] = base ∧
      overlay [] ms = ms ∧ overlay (overlay base ms) ms = overlay base ms) ∧
    (∀ levels files path ms, read levels files path = .ok ms → Tidy (.table ms)) ∧
    (∀ levels files env file s, load levels files env file = .ok s →
      ∀ k, ¬ Mentioned levels files env file k → k.get s = k.get standard) ∧
    ∀ (levels : Nat) (files : Files.Tree) (env : Environment) (file : Option Files.Path) (root : String)
      (s rooted : Settings Float),
      root ≠ "" → load levels files { env with stagingRoot := none } file = .ok s →
      load levels files { env with stagingRoot := some root } file = .ok rooted →
      rooted = { s with staging := ⟨some (Files.Path.ofText root)⟩ } :=
  ⟨fun base _ hms => ⟨Yaml.laid_overlay hms base, rfl, Yaml.overlay_nil_left hms.nodup, Yaml.overlay_overlay hms base⟩,
    fun _ _ _ _ => tidy_read, fun _ _ _ _ _ hload _ => get_load_of_not_mentioned hload,
    fun _ _ _ _ _ _ _ hroot hload hrooted => load_withRoot hload hroot hrooted⟩

theorem exists_ok_of_isOk {ε α : Type} {x : Except ε α} (h : x.isOk = true) : ∃ a, x = .ok a := by
  cases x with
  | ok a => exact ⟨a, rfl⟩
  | error e => cases h

/-- Two tables that meet under one name: under it, a value of the lower one meets a table of the upper one, and another
value meets nothing. -/
def lower : Yaml.Members := [("a", .table [("x", .int 1), ("y", .int 2)])]

def upper : Yaml.Members := [("a", .table [("x", .table [("z", .int 3)])])]

theorem tidy_upper : Tidy (.table upper) := by
  have hleaf : Tidy (.int 3) := .leaf nofun
  have hx : Tidy (.table [("z", .int 3)]) := .node (by decide) (List.forall_mem_singleton.2 hleaf)
  have ha : Tidy (.table [("x", .table [("z", .int 3)])]) := .node (by decide) (List.forall_mem_singleton.2 hx)
  exact .node (by decide) (List.forall_mem_singleton.2 ha)

theorem not_cutOff_upper : ¬ Yaml.CutOff ["a", "y"] (.table upper) := by
  intro h
  obtain ⟨next, hnext, hrest⟩ := Yaml.cutOff_cons_table_iff.1 h
  obtain rfl : Yaml.table [("x", .table [("z", .int 3)])] = next := Option.some.inj hnext
  obtain ⟨last, hlast, -⟩ := Yaml.cutOff_cons_table_iff.1 hrest
  cases hlast

/-- A file that says something of one key. -/
def seedFile : Files.Tree := fileOf (Text.Utf8.encode "judge: {seed: 7}")

theorem not_mentioned_seedFile : ¬ Mentioned Yaml.usualLevels seedFile ⟨none, none, none⟩ (some fileName) .maxAttempts := by
  have hsilent : ((read Yaml.usualLevels seedFile fileName).toOption.all fun ms =>
      (at? Key.maxAttempts.way (.table ms)).isNone) = true := by
    decide +kernel
  rintro (⟨path, ms, v, hpath, hread, hv⟩ | ⟨hk, -⟩)
  · obtain rfl : fileName = path := Option.some.inj hpath
    rw [hread] at hsilent
    simp [Except.toOption, hv] at hsilent
  · cases hk

/-- The tables are laid over each other, and the file is loaded with a root and without one. -/
theorem settings_overlaid_seed :
    (Tidy (.table upper) ∧ at? ["a", "y"] (.table (overlay lower upper)) = some (.int 2) ∧
      at? ["a", "x", "z"] (.table (overlay lower upper)) = some (.int 3) ∧
      overlay (overlay lower upper) upper = overlay lower upper) ∧
    (∃ ms, read Yaml.usualLevels seedFile fileName = .ok ms ∧ Tidy (.table ms)) ∧
    ∃ s rooted, load Yaml.usualLevels seedFile ⟨none, none, none⟩ (some fileName) = .ok s ∧
      load Yaml.usualLevels seedFile ⟨none, some "runs", none⟩ (some fileName) = .ok rooted ∧
      ¬ Mentioned Yaml.usualLevels seedFile ⟨none, none, none⟩ (some fileName) .maxAttempts ∧
      s.judge.maxAttempts = 4 ∧ s.judge.seed = 7 ∧
      rooted = { s with staging := ⟨some (Files.Path.ofText "runs")⟩ } := by
  obtain ⟨hlaid, -, -, htwice⟩ := settings_overlaid.1 lower upper tidy_upper
  obtain ⟨-, hfile, hkeys, hroots⟩ := settings_overlaid
  refine ⟨⟨tidy_upper, hlaid.kept _ _ rfl rfl not_cutOff_upper, hlaid.told _ _ rfl nofun, htwice⟩, ?_, ?_⟩
  · obtain ⟨ms, hms⟩ := exists_ok_of_isOk (x := read Yaml.usualLevels seedFile fileName) (by decide +kernel)
    exact ⟨ms, hms, hfile _ _ _ _ hms⟩
  · obtain ⟨s, hs⟩ := exists_ok_of_isOk (x := load Yaml.usualLevels seedFile ⟨none, none, none⟩ (some fileName))
      (by decide +kernel)
    obtain ⟨rooted, hrooted⟩ := exists_ok_of_isOk
      (x := load Yaml.usualLevels seedFile ⟨none, some "runs", none⟩ (some fileName)) (by decide +kernel)
    have hseed : (load Yaml.usualLevels seedFile ⟨none, none, none⟩ (some fileName)).toOption.map
        (fun s => s.judge.seed) = some 7 := by
      decide +kernel
    rw [hs] at hseed
    exact ⟨s, rooted, hs, hrooted, not_mentioned_seedFile, hkeys _ _ _ _ _ hs _ not_mentioned_seedFile, Option.some.inj hseed,
      hroots _ _ ⟨none, none, none⟩ _ _ _ _ (by decide) hs hrooted⟩

end Adjudication.Settings
