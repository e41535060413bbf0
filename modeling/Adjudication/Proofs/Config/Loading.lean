import Adjudication.Config.Loading
import Adjudication.Proofs.Files.Tree
import Adjudication.Proofs.Yaml.Overlay

/-!
What loading settings comes to: settings, or a failure of the settings, for every file and every environment, apart from
five slips. The system may refuse even to look for the file, for its name is too long; what the file holds may be no text,
or a text whose reading fails with something else than a flaw; and the root that the environment names may have no section
to go to, for the file says under `staging` what is no table.
-/

namespace Adjudication

namespace Settings

variable {levels : Nat} {files : Files.Tree} {env : Environment} {file : Option Files.Path} {path : Files.Path} {e : Failure}

/-- The file that is loaded: the one that is asked for, or else the one that the environment names. -/
def chosen (env : Environment) (file : Option Files.Path) : Option Files.Path :=
  file <|> (spoken env.settingsFile).map Files.Path.ofText

/-- What comes to settings or to a failure of the settings. -/
def Settled {α : Type} (x : Except Failure α) : Prop := (∃ a, x = .ok a) ∨ ∃ cause, x = .error (.config cause)

/-- The ways in which loading fails with something else than a failure of the settings. -/
inductive Slip (levels : Nat) (files : Files.Tree) (env : Environment) (file : Option Files.Path) : Failure → Prop where
  /-- A part of the file's path, or the whole of it, is longer than names may be. -/
  | unsearchable {path : Files.Path} {subject : String} (hpath : chosen env file = some path)
      (h : files.reach path = .error (.refused .nameTooLong subject)) :
      Slip levels files env file (.file (.refused .nameTooLong subject))
  /-- The file's bytes are no UTF-8. -/
  | undecodable {path : Files.Path} {bytes : Files.Bytes} {defect : Text.Utf8.DecodeError} (hpath : chosen env file = some path)
      (h : files.read path = .ok bytes) (hbytes : Text.Utf8.decode? bytes = .error defect) :
      Slip levels files env file (.file (.notText defect))
  /-- The file's text has a scalar that is not what its tag says. -/
  | scalar {path : Files.Path} {text : String} {fault : Yaml.ScalarFault} (hpath : chosen env file = some path)
      (h : files.readText path = .ok text) (htext : Yaml.ofText levels text.toList = .error (.scalar fault)) :
      Slip levels files env file (.scalar fault)
  /-- The nodes of the file's text lie too deep within each other. -/
  | tooDeep {path : Files.Path} {text : String} (hpath : chosen env file = some path)
      (h : files.readText path = .ok text) (htext : Yaml.ofText levels text.toList = .error .tooDeep) :
      Slip levels files env file .tooDeep
  /-- The environment names a root, and what the file says last under `staging` is no table. -/
  | sectionless {path : Files.Path} {root : String} {ms : Yaml.Members} {v : Yaml} (hpath : chosen env file = some path)
      (h : read levels files path = .ok ms) (hroot : spoken env.stagingRoot = some root)
      (hsection : Schema.lookup "staging" ms.reverse = some v) (hv : ∀ part, v ≠ .table part) :
      Slip levels files env file (.stagingSection v.noun)

/-! ### The parts of loading -/

theorem holds_of_readable {bytes : Files.Bytes} (h : files.read path = .ok bytes) : files.holds path = .ok true := by
  rw [Files.Tree.read] at h
  cases hreach : files.reach path with
  | error fault =>
    rw [hreach] at h
    cases h
  | ok place =>
    rw [hreach] at h
    cases hnode : files.get? place with
    | none =>
      simp only [hnode, bind, Except.bind] at h
      cases h
    | some node => simp [Files.Tree.holds, hreach, hnode]

theorem readable_of_readText {text : String} (h : files.readText path = .ok text) : ∃ bytes, files.read path = .ok bytes := by
  cases hread : files.read path with
  | ok bytes => exact ⟨bytes, rfl⟩
  | error fault =>
    rw [Files.Tree.readText, hread] at h
    cases h

/-- A file that is there is read, or refused, or no text. -/
theorem readText_cases (hholds : files.holds path = .ok true) :
    (∃ text, files.readText path = .ok text) ∨ (∃ fault, files.readText path = .error fault ∧ fault.isRefusal = true) ∨
      ∃ bytes defect, files.read path = .ok bytes ∧ Text.Utf8.decode? bytes = .error defect ∧
        files.readText path = .error (.notText defect) := by
  cases hread : files.read path with
  | error fault =>
    have hrefusal : fault.isRefusal = true := by
      refine Files.Tree.isRefusal_of_read ?_ hread
      by_contra hnull
      rw [Files.Tree.holds, Files.Tree.reach_of_null (by simpa using hnull)] at hholds
      cases hholds
    exact .inr (.inl ⟨fault, by rw [Files.Tree.readText, hread]; rfl, hrefusal⟩)
  | ok bytes =>
    cases hdecode : Text.Utf8.decode? bytes with
    | ok text =>
      refine .inl ⟨String.ofList (Text.Utf8.unifyLineEnds text.toList), ?_⟩
      simp only [Files.Tree.readText, hread, bind, Except.bind, hdecode]
      rfl
    | error defect =>
      refine .inr (.inr ⟨bytes, defect, rfl, hdecode, ?_⟩)
      simp only [Files.Tree.readText, hread, bind, Except.bind, hdecode]

/-- A text that is no table and whose reading meets a flaw fails with a failure of the settings. -/
theorem settled_tableOf {text : String} (hscalar : ∀ fault, Yaml.ofText levels text.toList ≠ .error (.scalar fault))
    (hdeep : Yaml.ofText levels text.toList ≠ .error .tooDeep) : Settled (tableOf levels path text) := by
  rw [tableOf]
  split
  next fault h => exact absurd h (hscalar fault)
  next h => exact absurd h hdeep
  next => exact .inr ⟨_, rfl⟩
  next =>
    split
    · exact .inl ⟨_, rfl⟩
    · exact .inr ⟨_, rfl⟩

/-- Settings that a table does not hold are a failure of the settings. -/
theorem settled_ofTable (ms : Yaml.Members) : Settled (ofTable ms) := by
  rw [ofTable]
  cases Schema.validate "Settings" check (Yaml.table ms) with
  | ok settings => exact .inl ⟨settings, rfl⟩
  | error e => exact .inr ⟨_, rfl⟩

theorem read_of_readText {text : String} (h : files.readText path = .ok text) :
    read levels files path = tableOf levels path text := by
  rw [read, h]

theorem layered_of_held (hholds : files.holds path = .ok true) :
    layered levels files (some path) = (read levels files path).map (Yaml.overlay standardTable) := by
  rw [layered, hholds]

theorem load_of_layered_error (h : layered levels files (chosen env file) = .error e) :
    load levels files env file = .error e := by
  rw [load]
  exact congrArg (· >>= _) h

theorem load_of_layered {ms : Yaml.Members} (h : layered levels files (chosen env file) = .ok ms) :
    load levels files env file = match spoken env.stagingRoot with
      | none => ofTable ms
      | some root => withRoot root ms >>= ofTable := by
  rw [load]
  exact congrArg (· >>= _) h

/-! ### The section on staging -/

/-- The root goes to the section on staging of the settings with a file laid over them, unless the file has something else
there. -/
theorem withRoot_overlay (root : String) (ms : Yaml.Members) :
    (∃ rooted, withRoot root (Yaml.overlay standardTable ms) = .ok rooted) ∨
      ∃ v, Schema.lookup "staging" ms.reverse = some v ∧ (∀ part, v ≠ .table part) ∧
        withRoot root (Yaml.overlay standardTable ms) = .error (.stagingSection v.noun) := by
  have hrooted : ∀ part, Schema.lookup "staging" (Yaml.overlay standardTable ms) = some (.table part) →
      ∃ rooted, withRoot root (Yaml.overlay standardTable ms) = .ok rooted := fun _ h => ⟨_, withRoot_of_table h⟩
  cases hv : Schema.lookup "staging" ms.reverse with
  | none =>
    refine .inl (hrooted [("root", .null)] ?_)
    rw [Yaml.lookup_overlay_of_none hv]
    rfl
  | some v =>
    obtain ⟨under, hunder⟩ : ∃ under, Schema.lookup "staging" (Yaml.overlay standardTable ms) = some (Yaml.layer under v) :=
      Yaml.lookup_overlay_of_some hv
    by_cases htable : ∃ part, v = .table part
    · obtain ⟨part, rfl⟩ := htable
      obtain ⟨laid, hlaid⟩ := Yaml.layer_table under part
      exact .inl (hrooted _ (hunder.trans (congrArg some hlaid)))
    · have hne : ∀ part, v ≠ .table part := fun part h => htable ⟨part, h⟩
      refine .inr ⟨v, rfl, hne, ?_⟩
      rw [withRoot, hunder, Yaml.layer_of_not_table under hne]
      cases v with
      | table part => exact absurd rfl (hne part)
      | _ => rfl

/-! ### Loading -/

/-- Where a slip is made, loading fails with it. -/
theorem load_of_slip (h : Slip levels files env file e) : load levels files env file = .error e := by
  cases h with
  | unsearchable hpath hreach =>
    refine load_of_layered_error ?_
    rw [hpath, layered, Files.Tree.holds, hreach]
  | undecodable hpath hread hbytes =>
    refine load_of_layered_error ?_
    rw [hpath, layered_of_held (holds_of_readable hread), read]
    simp only [Files.Tree.readText, hread, bind, Except.bind, hbytes]
    rfl
  | scalar hpath hread htext =>
    obtain ⟨bytes, hbytes⟩ := readable_of_readText hread
    refine load_of_layered_error ?_
    rw [hpath, layered_of_held (holds_of_readable hbytes), read_of_readText hread, tableOf, htext]
    rfl
  | tooDeep hpath hread htext =>
    obtain ⟨bytes, hbytes⟩ := readable_of_readText hread
    refine load_of_layered_error ?_
    rw [hpath, layered_of_held (holds_of_readable hbytes), read_of_readText hread, tableOf, htext]
    rfl
  | @sectionless path root ms v hpath hread hroot hsection hv =>
    have hheld : files.holds path = .ok true := by
      cases htext : files.readText path with
      | ok text =>
        obtain ⟨bytes, hbytes⟩ := readable_of_readText htext
        exact holds_of_readable hbytes
      | error fault =>
        rw [read, htext] at hread
        dsimp only at hread
        split at hread <;> cases hread
    have hlayered : layered levels files (chosen env file) = .ok (Yaml.overlay standardTable ms) := by
      rw [hpath, layered_of_held hheld, hread]
      rfl
    rw [load_of_layered hlayered, hroot]
    rcases withRoot_overlay root ms with ⟨rooted, hrooted⟩ | ⟨w, hw, -, herror⟩
    · obtain ⟨under, hunder⟩ : ∃ under, Schema.lookup "staging" (Yaml.overlay standardTable ms) = some (Yaml.layer under v) :=
        Yaml.lookup_overlay_of_some hsection
      rw [withRoot, hunder, Yaml.layer_of_not_table under hv] at hrooted
      cases v with
      | table part => exact absurd rfl (hv part)
      | _ => cases hrooted
    · obtain rfl : v = w := Option.some.inj (hsection.symm.trans hw)
      dsimp only
      rw [herror]
      rfl

/-- What is laid over the settings is there, or a failure of the settings, or a slip is made. -/
theorem layered_cases (levels : Nat) (files : Files.Tree) (env : Environment) (file : Option Files.Path) :
    (layered levels files (chosen env file) = .ok standardTable) ∨
      (∃ path ms, chosen env file = some path ∧ read levels files path = .ok ms ∧
        layered levels files (chosen env file) = .ok (Yaml.overlay standardTable ms)) ∨
      (∃ cause, layered levels files (chosen env file) = .error (.config cause)) ∨ ∃ e, Slip levels files env file e := by
  cases hpath : chosen env file with
  | none => exact .inl rfl
  | some path =>
    refine .inr ?_
    cases hholds : files.holds path with
    | error fault =>
      rw [Files.Tree.holds] at hholds
      split at hholds
      · cases hholds
      next subject hreach => exact .inr (.inr ⟨_, .unsearchable hpath hreach⟩)
      · cases hholds
    | ok held =>
      cases held with
      | false =>
        refine .inr (.inl ⟨.absent path, ?_⟩)
        rw [layered, hholds]
        rfl
      | true =>
        rcases readText_cases hholds with ⟨text, htext⟩ | ⟨fault, hfault, hrefusal⟩ | ⟨bytes, defect, hread, hbytes, -⟩
        · by_cases hslip : ∃ e, Slip levels files env file e
          · exact .inr (.inr hslip)
          · have hsettled : Settled (tableOf levels path text) := settled_tableOf
              (fun fault hf => hslip ⟨_, .scalar hpath htext hf⟩) (fun hf => hslip ⟨_, .tooDeep hpath htext hf⟩)
            rw [layered_of_held hholds, read_of_readText htext]
            rcases hsettled with ⟨ms, hms⟩ | ⟨cause, hcause⟩
            · exact .inl ⟨path, ms, rfl, (read_of_readText htext).trans hms, by rw [hms]; rfl⟩
            · exact .inr (.inl ⟨cause, by rw [hcause]; rfl⟩)
        · refine .inr (.inl ⟨.unreadable path fault.message, ?_⟩)
          rw [layered_of_held hholds, read, hfault]
          dsimp only
          rw [if_pos hrefusal]
          rfl
        · exact .inr (.inr ⟨_, .undecodable hpath hread hbytes⟩)

/-- Where no slip is made, loading comes to settings or to a failure of the settings. -/
theorem settled_load_of_not_slip (h : ∀ e, ¬Slip levels files env file e) : Settled (load levels files env file) := by
  rcases layered_cases levels files env file with hnone | ⟨path, ms, hpath, hread, hsome⟩ | ⟨cause, hcause⟩ | ⟨e, he⟩
  · rw [load_of_layered hnone]
    cases hroot : spoken env.stagingRoot with
    | none => exact settled_ofTable _
    | some root =>
      exact settled_ofTable
        (Yaml.put "staging" (.table (Yaml.put "root" (.text root) [("root", .null)])) standardTable)
  · rw [load_of_layered hsome]
    cases hroot : spoken env.stagingRoot with
    | none => exact settled_ofTable _
    | some root =>
      rcases withRoot_overlay root ms with ⟨rooted, hrooted⟩ | ⟨v, hv, hne, -⟩
      · dsimp only
        rw [hrooted]
        exact settled_ofTable rooted
      · exact absurd (.sectionless hpath hread hroot hv hne) (h _)
  · exact .inr ⟨cause, load_of_layered_error hcause⟩
  · exact absurd he (h e)

theorem Slip.ne_config {cause : ConfigError} (h : Slip levels files env file e) : e ≠ .config cause := by
  rintro rfl
  cases h

/-- Loading comes to settings or to a failure of the settings just if no slip is made, and the slips are just what it fails
with otherwise. -/
theorem load_settled (levels : Nat) (files : Files.Tree) (env : Environment) (file : Option Files.Path) :
    (Settled (load levels files env file) ↔ ∀ e, ¬Slip levels files env file e) ∧
      ∀ e, Slip levels files env file e ↔ load levels files env file = .error e ∧ ∀ cause, e ≠ .config cause := by
  refine ⟨⟨?_, settled_load_of_not_slip⟩, fun e => ⟨fun h => ⟨load_of_slip h, fun _ => h.ne_config⟩, ?_⟩⟩
  · rintro (⟨settings, h⟩ | ⟨cause, h⟩) e he
    · rw [load_of_slip he] at h
      cases h
    · rw [load_of_slip he] at h
      exact he.ne_config (Except.error.inj h)
  · rintro ⟨h, he⟩
    by_contra hnot
    have hnone : ∀ other, ¬Slip levels files env file other := fun other ho => by
      obtain rfl : other = e := Except.error.inj ((load_of_slip ho).symm.trans h)
      exact hnot ho
    rcases settled_load_of_not_slip hnone with ⟨settings, hs⟩ | ⟨cause, hc⟩
    · rw [h] at hs
      cases hs
    · exact he cause (Except.error.inj (h.symm.trans hc))

/-- A tree that holds nothing but a file of settings. -/
def fileOf (bytes : Files.Bytes) : Files.Tree := ⟨[(["a"], .file bytes)], []⟩

def fileName : Files.Path := ⟨.root, ["a"]⟩

theorem slip_undecodable :
    Slip Yaml.usualLevels (fileOf [0xFF]) ⟨none, none, none⟩ (some fileName) (.file (.notText ⟨0xFF, 1, 0, .badStart⟩)) :=
  have hread : (fileOf [0xFF]).read fileName = .ok [0xFF] := rfl
  .undecodable rfl hread
    (by simp [Text.Utf8.decode?, Text.Utf8.decodeFrom, Text.Utf8.scan, Except.map])

/-- A file that is missing makes no slip, whatever the environment names as a root; one that is no text makes a slip. -/
theorem load_settled_missing :
    (Settled (load Yaml.usualLevels ⟨[], []⟩ ⟨none, some "runs", none⟩ (some fileName)) ∧
      ∀ e, ¬Slip Yaml.usualLevels ⟨[], []⟩ ⟨none, some "runs", none⟩ (some fileName) e) ∧
    load Yaml.usualLevels (fileOf [0xFF]) ⟨none, none, none⟩ (some fileName) =
      .error (.file (.notText ⟨0xFF, 1, 0, .badStart⟩)) := by
  have hmissing : Settled (load Yaml.usualLevels ⟨[], []⟩ ⟨none, some "runs", none⟩ (some fileName)) :=
    .inr ⟨.absent fileName, rfl⟩
  exact ⟨⟨hmissing, (load_settled _ _ _ _).1.1 hmissing⟩, (((load_settled _ _ _ _).2 _).1 slip_undecodable).1⟩

/-- A file that is no text brings neither settings nor a failure of the settings. -/
theorem load_undecodable : ¬Settled (load Yaml.usualLevels (fileOf [0xFF]) ⟨none, none, none⟩ (some fileName)) := by
  rw [load_of_slip slip_undecodable]
  rintro (⟨settings, h⟩ | ⟨cause, h⟩)
  · cases h
  · cases h

end Settings
end Adjudication
