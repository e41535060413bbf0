import Adjudication.Proofs.CommandLine.Session

/-!
The client that the command opens. It opens one just if its arguments and settings are in order and there is a key, and it
closes the client after the verification, whatever that comes to. The file is read in between and the run is noted, and nothing
closes the client if that fails: a file with a name that is refused leaves it open, and so does a console that refuses the note.
-/

namespace Adjudication.CommandLine

open Act (Respects)
open Files.Tree (Anyhow)
open Scene (Freely)

variable {env : Environment} {args : List String} {s t : Scene Float} {o : Options} {formats : List Export.Format}
  {settings : Settings Float}

/-! ### The file -/

theorem read_of_readContract {files : Files.Tree} {place : String} {file : Files.Path}
    (h : readContract? files place = some file) : ∃ content, files.read file = .ok content := by
  rw [readContract?] at h
  cases hreach : files.reach (Files.Path.ofText place) with
  | error e => simp [hreach, Except.toOption] at h
  | ok found =>
    simp only [hreach, Except.toOption, Option.bind_some] at h
    split at h
    next content hfile =>
      obtain rfl := Option.some.inj h
      refine ⟨content, ?_⟩
      rw [Files.Tree.read, hreach]
      simp only [bind, Except.bind, hfile]
      rfl
    next => cases h

/-- A file that is to be verified can be read. -/
theorem read_of_ofArguments {files : Files.Tree} (h : Request.ofArguments? files args = some (.run o)) :
    ∃ content, files.read o.contract = .ok content := by
  obtain ⟨g, -, hg⟩ := Option.bind_eq_some_iff.1 h
  split at hg
  next => cases hg
  next =>
    obtain ⟨o', ho', heq⟩ := Option.bind_eq_some_iff.1 hg
    obtain rfl : o' = o := by simpa using heq
    obtain ⟨read, -, hread⟩ := Option.bind_eq_some_iff.1 ho'
    split at hread
    next place _ =>
      obtain ⟨file, hfile, hfilled⟩ := Option.bind_eq_some_iff.1 hread
      obtain rfl := Option.some.inj hfilled
      exact read_of_readContract hfile
    next => cases hread

section Source

variable {file : Files.Path} {content : Files.Bytes}

/-- A source has the name of its file. -/
theorem sourceOf_of_name {name : String} (h : s.files.read file = .ok content)
    (hname : Source.safeName? file.name = some name) : sourceOf file s = (.ok ⟨content, name⟩, s) := by
  rw [sourceOf, Act.bind_of_ok (Run.ask_run_of_ok h), Source.make, hname]
  rfl

/-- A name that is refused leaves no source. -/
theorem sourceOf_of_nameless (h : s.files.read file = .ok content) (hname : Source.safeName? file.name = none) :
    ∃ e, sourceOf file s = (.error (.invalid e), s) := by
  rw [sourceOf, Act.bind_of_ok (Run.ask_run_of_ok h), Source.make, hname]
  exact ⟨_, rfl⟩

end Source

/-! ### The command -/

/-- The command comes to open a client: its arguments and its settings are in order, and there is a key. -/
structure Equipped (env : Environment) (args : List String) (s : Scene Float) (o : Options) (formats : List Export.Format)
    (settings : Settings Float) : Prop where
  asked : Asked args s o formats
  loaded : Settings.load s.host.collections s.files env o.config = .ok settings
  hasKey : (adjusted settings env o).judge.hasKey = true

/-- What the command does with clients. -/
inductive Handles (env : Environment) (args : List String) (s : Scene Float) : List Use → Prop where
  /-- It does not come to open one. -/
  | nothing (h : ∀ o formats settings, ¬ Equipped env args s o formats settings) : Handles env args s []
  | closed {o : Options} {formats : List Export.Format} {settings : Settings Float} {name : String}
      (h : Equipped env args s o formats settings) (hname : Source.safeName? o.contract.name = some name)
      (hnoted : s.host.Takes (.note (announcement (adjusted settings env o) o formats))) :
      Handles env args s [.opening s.clients, .closing s.clients]
  /-- The name of the file is refused, and the client is left open in a crash. -/
  | left {o : Options} {formats : List Export.Format} {settings : Settings Float} {e : Schema.Invalid Unit}
      (h : Equipped env args s o formats settings) (hname : Source.safeName? o.contract.name = none)
      (hexit : (invoke env args s).1 = .crashed (.invalid e)) : Handles env args s [.opening s.clients]
  /-- The console refuses what is noted of the run, and the client is left open in a crash. -/
  | unannounced {o : Options} {formats : List Export.Format} {settings : Settings Float} {name reason : String}
      (h : Equipped env args s o formats settings) (hname : Source.safeName? o.contract.name = some name)
      (hrefused : s.host.console (.note (announcement (adjusted settings env o) o formats)) = some reason)
      (hexit : (invoke env args s).1 = .crashed (.console reason)) : Handles env args s [.opening s.clients]

theorem invoke_snd (env : Environment) (args : List String) (s : Scene Float) :
    (invoke env args s).2 = (run env args s).2 := by
  rw [invoke]
  rcases run env args s with ⟨e | exit, t⟩ <;> rfl

/-- A command that does not come to open a client does nothing with any. -/
theorem uses_run_of_unequipped (h : ∀ o formats settings, ¬ Equipped env args s o formats settings) :
    s.Uses (run env args s).2 [] := by
  rcases hrequest : Request.ofArguments? s.files args with _ | _ | o
  · rw [run, Act.bind_of_ok (Act.get_run s)]
    simp only [hrequest]
    exact s.uses_refl
  · rw [run, Act.bind_of_ok (Act.get_run s)]
    simp only [hrequest]
    exact s.uses_refl
  rcases hformats : Export.Format.choose o.formats with message | formats
  · rw [run, Act.bind_of_ok (Act.get_run s)]
    simp only [hrequest, perform, hformats]
    exact s.uses_refl
  have hasked : Asked args s o formats := ⟨hrequest, hformats⟩
  rw [run_of_asked hasked]
  rcases hloading : loadSettings env o s with ⟨e | found, t⟩
  all_goals
    have hquiet := respects_loadSettings env o s
    rw [hloading] at hquiet
  · rw [Act.bind_of_error hloading]
    exact hquiet.uses
  rw [Act.bind_of_ok hloading]
  cases found with
  | none => exact hquiet.uses
  | some settings =>
    obtain ⟨hload, rfl⟩ := load_of_loadSettings hloading
    have hkeyless : (adjusted settings env o).judge.hasKey = false := by
      rw [← Bool.not_eq_true]
      exact fun hkey => h o formats settings ⟨hasked, hload, hkey⟩
    rw [Option.elim_some, verify]
    rcases hopening : openJudge (adjusted settings env o) t with ⟨e | client, u⟩
    all_goals
      have hsaid : Freely True Anyhow t (openJudge (adjusted settings env o) t).2 := by
        rw [openJudge_of_keyless hkeyless]
        exact (respects_say _ _).bind (fun _ => Act.respects_pure _) t
      rw [hopening] at hsaid
    · rw [Act.bind_of_error hopening]
      exact hsaid.uses
    · obtain rfl : client = none := by
        rw [openJudge_of_keyless hkeyless] at hopening
        obtain ⟨_, v, -, hnone⟩ := Act.bind_eq_ok hopening
        exact (Act.ok_eq_ok.1 hnone).1.symm
      rw [Act.bind_of_ok hopening]
      exact hsaid.uses

/-- A command that comes to open a client opens it, and the file can be read then. -/
theorem Equipped.opens (h : Equipped env args s o formats settings) : ∃ config opened content,
    openJudge (adjusted settings env o) s = (.ok (some ⟨config, .service s.clients, s.host.levels⟩), opened) ∧
    s.Uses opened [.opening s.clients] ∧ opened.files.read o.contract = .ok content ∧ opened.host = s.host := by
  obtain ⟨content, hread⟩ := read_of_ofArguments h.asked.options_eq
  obtain ⟨options, hopen⟩ := openJudge_of_key h.hasKey s
  exact ⟨_, _, content, hopen, ⟨[_], rfl, rfl⟩, hread, rfl⟩

/-- A client that is opened is closed once the verification has come to an end, whatever that is, if the name of the file is
none that is refused and the run is noted. -/
theorem uses_run_of_name {name : String} (h : Equipped env args s o formats settings)
    (hname : Source.safeName? o.contract.name = some name)
    (hnoted : s.host.Takes (.note (announcement (adjusted settings env o) o formats))) :
    s.Uses (run env args s).2 [.opening s.clients, .closing s.clients] := by
  obtain ⟨config, opened, content, hopen, hopening, hread, -⟩ := h.opens
  let p : Opening env args s := ⟨o, formats, settings, ⟨config, .service s.clients, s.host.levels⟩, ⟨content, name⟩, opened,
    h.asked.options_eq, h.asked.formats_eq, h.loaded, hopen, sourceOf_of_name hread hname, hnoted⟩
  have hannounced : s.Uses p.announced [.opening s.clients] := hopening.append ⟨[_], rfl, rfl⟩
  rcases hattended : attended p.verifier p.source p.options.deadline p.announced with ⟨x, t⟩
  have hverified : p.announced.Uses t [] := by
    have hquiet := (respects_attended p.verifier p.source p.options.deadline p.announced).uses
    rwa [hattended] at hquiet
  have hclosed : s.Uses (p.client.close t).2 [.opening s.clients, .closing s.clients] :=
    (hannounced.append hverified).append (Judge.uses_close config s.clients s.host.levels t)
  have hpresented : Respects (Freely True Anyhow) (do
      let r ← Run.ofExcept id x
      r.elim (pure .cancelled) fun r => present r p.formats p.options : Run Float Exit) := by
    refine (Run.respects_ofExcept _ _).bind fun r => ?_
    cases r with
    | none => exact Act.respects_pure _
    | some r => exact respects_present r p.formats p.options
  rw [run_of_attended p hattended]
  exact hclosed.append (hpresented _).uses

/-- A client that is opened is left open in a crash if the name of the file is refused. -/
theorem run_of_nameless (h : Equipped env args s o formats settings) (hname : Source.safeName? o.contract.name = none) :
    (∃ e, (run env args s).1 = .error (.invalid e)) ∧ s.Uses (run env args s).2 [.opening s.clients] := by
  obtain ⟨config, opened, content, hopen, hopening, hread, -⟩ := h.opens
  obtain ⟨e, hsource⟩ := sourceOf_of_nameless hread hname
  rw [run_of_loaded h.asked h.loaded, verify, Act.bind_of_ok hopen]
  dsimp only
  rw [Act.bind_of_error hsource]
  exact ⟨⟨e, rfl⟩, hopening⟩

/-- A client that is opened is left open in a crash if the console refuses what is noted of the run. -/
theorem run_of_unannounced {name reason : String} (h : Equipped env args s o formats settings)
    (hname : Source.safeName? o.contract.name = some name)
    (hrefused : s.host.console (.note (announcement (adjusted settings env o) o formats)) = some reason) :
    (run env args s).1 = .error (.console reason) ∧ s.Uses (run env args s).2 [.opening s.clients] := by
  obtain ⟨config, opened, content, hopen, hopening, hread, hhost⟩ := h.opens
  rw [run_of_loaded h.asked h.loaded, verify, Act.bind_of_ok hopen]
  dsimp only
  rw [Act.bind_of_ok (sourceOf_of_name hread hname), Act.bind_of_error (Run.put_of_refused (hhost ▸ hrefused))]
  exact ⟨rfl, hopening⟩

theorem handles_invoke (env : Environment) (args : List String) (s : Scene Float) :
    ∃ used, s.Uses (invoke env args s).2 used ∧ Handles env args s used := by
  rw [invoke_snd]
  by_cases hequipped : ∃ o formats settings, Equipped env args s o formats settings
  · obtain ⟨o, formats, settings, h⟩ := hequipped
    cases hname : Source.safeName? o.contract.name with
    | some name =>
      obtain hnoted | ⟨reason, hrefused⟩ := s.host.takes_or_refuses (.note (announcement (adjusted settings env o) o formats))
      · exact ⟨_, uses_run_of_name h hname hnoted, .closed h hname hnoted⟩
      · obtain ⟨hcrash, hleft⟩ := run_of_unannounced h hname hrefused
        exact ⟨_, hleft, .unannounced h hname hrefused (invoke_of_error hcrash)⟩
    | none =>
      obtain ⟨⟨e, hcrash⟩, hleft⟩ := run_of_nameless h hname
      exact ⟨_, hleft, .left h hname (invoke_of_error hcrash)⟩
  · simp only [not_exists] at hequipped
    exact ⟨_, uses_run_of_unequipped hequipped, .nothing hequipped⟩

/-- A scene with a file whose name is a backslash. -/
def backslashScene : Scene Float :=
  { Scene.ofService auditService .nothing with files := ⟨[(["\\"], .file [])], []⟩, patience := 2 }

end Adjudication.CommandLine
