import Adjudication.Proofs.CommandLine.Failures
import Adjudication.Proofs.Verification.Judged

/-!
The ways in which the command ends. It does not come to a verification, or it comes to one, which is cancelled, fails, or
gives a report; and the report is delivered or not. Where something fails that nothing takes care of, the command crashes.
-/

namespace Adjudication.CommandLine

variable {env : Environment} {args : List String} {s t : Scene Float}

/-! ### The end of a run -/

/-- The console takes what is said of warnings. -/
def TakesWarnings (h : Host Float) (warnings : List Text.Wide) : Prop :=
  ∀ warning ∈ warnings, h.Takes (.line (Colour.yellow.around (warned warning)))

/-- Telling the warnings is nothing but that, or the console refuses one. -/
theorem warn_run : ∀ (warnings : List Text.Wide) (s : Scene Float), ∃ x t,
    (forIn warnings PUnit.unit fun warning _ => do
      say .yellow (warned warning)
      pure (.yield PUnit.unit) : Run Float PUnit) s = (x, t) ∧ t.host = s.host ∧
    ((TakesWarnings s.host warnings ∧ x = .ok .unit) ∨
      (¬ TakesWarnings s.host warnings ∧ ∃ reason, x = .error (.console reason)))
  | [], s => ⟨_, _, rfl, rfl, .inl ⟨List.forall_mem_nil _, rfl⟩⟩
  | warning :: warnings, s => by
    rw [List.forIn_cons]
    obtain htakes | ⟨reason, hrefused⟩ := s.host.takes_or_refuses (.line (Colour.yellow.around (warned warning)))
    · have hsaid : (do
          say .yellow (warned warning)
          pure (.yield PUnit.unit) : Run Float (ForInStep PUnit)) s = (.ok (.yield .unit),
            { s with trace := s.trace ++ [.showed (.line (Colour.yellow.around (warned warning)))] }) :=
        Act.bind_of_ok (Run.put_of_takes htakes)
      obtain ⟨x, t, hrun, hhost, hends⟩ := warn_run warnings
        { s with trace := s.trace ++ [.showed (.line (Colour.yellow.around (warned warning)))] }
      refine ⟨x, t, (Act.bind_of_ok hsaid).trans hrun, hhost, ?_⟩
      simp only [TakesWarnings, List.forall_mem_cons, htakes, true_and]
      exact hends
    · have hsaid : (do
          say .yellow (warned warning)
          pure (.yield PUnit.unit) : Run Float (ForInStep PUnit)) s = (.error (.console reason), s) :=
        Act.bind_of_error (Run.put_of_refused hrefused)
      refine ⟨_, s, Act.bind_of_error hsaid, rfl, .inr ⟨fun hall => ?_, reason, rfl⟩⟩
      have htakes := hall warning List.mem_cons_self
      rw [Host.Takes, hrefused] at htakes
      cases htakes

/-- A report that has been delivered decides on the exit, if the console takes what is said of it. -/
theorem present_run {r : Report} {formats : List Export.Format} {o : Options}
    {files : List (Export.Format × Files.Path)} (h : Export.deliver r formats o.out s = (.ok files, t))
    (hwarned : TakesWarnings t.host r.warnings) (hlast : t.host.Takes (.line (lastWord r o.failOnHigh))) :
    ∃ u : Scene Float, present r formats o s = (.ok (.ofReport r o.failOnHigh),
      { u with trace := u.trace ++ [.showed (.line (lastWord r o.failOnHigh))] }) := by
  obtain ⟨x, u, hrun, hhost, ⟨-, rfl⟩ | ⟨hnot, -⟩⟩ := warn_run r.warnings t
  · refine ⟨u, ?_⟩
    rw [present, Act.bind_of_ok h]
    refine (Act.bind_of_ok hrun).trans ?_
    rw [conclude, Act.bind_of_ok (Run.put_of_takes (hhost ▸ hlast))]
    rfl
  · exact absurd hwarned hnot

/-- Where the console refuses what is said of a report, that is what the report comes to. -/
theorem present_of_refused {r : Report} {formats : List Export.Format} {o : Options}
    {files : List (Export.Format × Files.Path)} (h : Export.deliver r formats o.out s = (.ok files, t))
    (hrefused : ¬ (TakesWarnings t.host r.warnings ∧ t.host.Takes (.line (lastWord r o.failOnHigh)))) :
    ∃ reason, (present r formats o s).1 = .error (.console reason) := by
  obtain ⟨x, u, hrun, hhost, ⟨hwarned, rfl⟩ | ⟨-, reason, rfl⟩⟩ := warn_run r.warnings t
  · obtain htakes | ⟨reason, hlast⟩ := u.host.takes_or_refuses (.line (lastWord r o.failOnHigh))
    · exact absurd ⟨hwarned, hhost ▸ htakes⟩ hrefused
    · refine ⟨reason, ?_⟩
      rw [present, Act.bind_of_ok h]
      refine (congrArg Prod.fst (Act.bind_of_ok hrun)).trans ?_
      rw [conclude, Act.bind_of_error (Run.put_of_refused hlast)]
  · refine ⟨reason, ?_⟩
    rw [present, Act.bind_of_ok h]
    exact congrArg Prod.fst (Act.bind_of_error hrun)

/-! ### The way to a verification -/

/-- How the command comes to verify a file: the arguments, the formats and the settings are in order, a client for the judge
is opened, the file can be read, and the console takes what is noted of the run. -/
structure Opening (env : Environment) (args : List String) (s : Scene Float) where
  options : Options
  formats : List Export.Format
  settings : Settings Float
  client : Judge.Client Float
  source : Source
  opened : Scene Float
  options_eq : Request.ofArguments? s.files args = some (.run options)
  formats_eq : Export.Format.choose options.formats = .ok formats
  settings_eq : Settings.load s.host.collections s.files env options.config = .ok settings
  client_eq : openJudge (adjusted settings env options) s = (.ok (some client), opened)
  source_eq : sourceOf options.contract opened = (.ok source, opened)
  noted : s.host.Takes (.note (announcement (adjusted settings env options) options formats))

namespace Opening

def verifier (p : Opening env args s) : Verifier Float := .ofSettings (adjusted p.settings env p.options) p.client

/-- The scene in which the verification is announced. -/
def announced (p : Opening env args s) : Scene Float :=
  { p.opened with trace := p.opened.trace ++
      [.showed (.note (announcement (adjusted p.settings env p.options) p.options p.formats))] }

def token (p : Opening env args s) : Time.TokenId := p.announced.timeline.tokens.length

/-- The scene in which the verification begins, with a token of its own. -/
def begun (p : Opening env args s) : Scene Float :=
  { p.announced with timeline := (p.announced.timeline.addToken p.options.deadline none).2 }

/-- What the verification comes to. -/
def verified (p : Opening env args s) : Except Failure Report × Scene Float :=
  p.verifier.verify p.source (some p.token) none p.begun

end Opening

/-- The arguments ask for a verification, in formats that there are. -/
structure Asked (args : List String) (s : Scene Float) (o : Options) (formats : List Export.Format) : Prop where
  options_eq : Request.ofArguments? s.files args = some (.run o)
  formats_eq : Export.Format.choose o.formats = .ok formats

theorem Opening.asked (p : Opening env args s) : Asked args s p.options p.formats := ⟨p.options_eq, p.formats_eq⟩

theorem loadSettings_of_ok {o : Options} {settings : Settings Float}
    (h : Settings.load s.host.collections s.files env o.config = .ok settings) :
    loadSettings env o s = (.ok (some settings), s) := by
  rw [loadSettings, Act.bind_of_ok (Act.get_run s)]
  simp only [h]
  rfl

theorem load_of_loadSettings {o : Options} {settings : Settings Float} (h : loadSettings env o s = (.ok (some settings), t)) :
    Settings.load s.host.collections s.files env o.config = .ok settings ∧ t = s := by
  rw [loadSettings, Act.bind_of_ok (Act.get_run s)] at h
  rcases hload : Settings.load s.host.collections s.files env o.config with e | found <;> simp only [hload] at h
  · cases e with
    | config cause =>
      obtain ⟨_, u, -, hnone⟩ := Act.bind_eq_ok h
      cases congrArg Prod.fst hnone
    | _ => exact absurd h Act.error_ne_ok
  · obtain ⟨hfound, rfl⟩ := Act.ok_eq_ok.1 h
    exact ⟨congrArg Except.ok (Option.some.inj hfound), rfl⟩

section Asked

variable {o : Options} {formats : List Export.Format}

theorem run_of_asked (h : Asked args s o formats) : run env args s = (do
    let found ← loadSettings env o
    found.elim (pure .failed) fun settings => verify (adjusted settings env o) o o.deadline formats : Run Float Exit) s := by
  rw [run, Act.bind_of_ok (Act.get_run s)]
  simp only [h.options_eq]
  rw [perform]
  simp only [h.formats_eq]
  rcases hload : loadSettings env o s with ⟨f | found, t⟩
  · exact (Act.bind_of_error hload).trans (Act.bind_of_error hload).symm
  · refine (Act.bind_of_ok hload).trans (Eq.trans ?_ (Act.bind_of_ok hload).symm)
    cases found <;> rfl

theorem run_of_loaded {settings : Settings Float} (h : Asked args s o formats)
    (hload : Settings.load s.host.collections s.files env o.config = .ok settings) :
    run env args s = verify (adjusted settings env o) o o.deadline formats s := by
  rw [run_of_asked h, Act.bind_of_ok (loadSettings_of_ok hload), Option.elim_some]

end Asked

/-- Opening the judge's client leaves the host as it is. -/
theorem host_of_openJudge {settings : Settings Float} {client : Judge.Client Float}
    (h : openJudge settings s = (.ok (some client), t)) : t.host = s.host := by
  cases hkey : settings.judge.hasKey with
  | true =>
    obtain ⟨options, hopen⟩ := openJudge_of_key hkey s
    rw [hopen] at h
    obtain ⟨-, rfl⟩ := Prod.mk.inj h
    rfl
  | false =>
    rw [openJudge_of_keyless hkey] at h
    obtain ⟨_, u, -, h⟩ := Act.bind_eq_ok h
    cases congrArg Prod.fst h

theorem run_eq_verify (p : Opening env args s) : run env args s =
    verify (adjusted p.settings env p.options) p.options p.options.deadline p.formats s :=
  run_of_loaded p.asked p.settings_eq

/-- The client is closed, whatever the verification comes to, and a report is presented then. -/
theorem run_of_attended (p : Opening env args s) {x : Except Failure (Option Report)}
    (h : attended p.verifier p.source p.options.deadline p.announced = (x, t)) :
    run env args s = (do
      let r ← Run.ofExcept id x
      r.elim (pure .cancelled) fun r => present r p.formats p.options : Run Float Exit) (p.client.close t).2 := by
  have hattended : Run.andThen (attended p.verifier p.source p.options.deadline) p.client.close p.announced =
      (x, (p.client.close t).2) := Run.andThen_of_ok h (Judge.close_run p.client t)
  rw [run_eq_verify p, verify, Act.bind_of_ok p.client_eq]
  dsimp only
  have hnoted : p.opened.host.Takes (.note (announcement (adjusted p.settings env p.options) p.options p.formats)) :=
    host_of_openJudge p.client_eq ▸ p.noted
  rw [Act.bind_of_ok p.source_eq, Act.bind_of_ok (Run.put_of_takes hnoted)]
  cases x with
  | error e => exact Act.bind_of_error hattended
  | ok r => cases r <;> exact Act.bind_of_ok hattended

section Verified

variable (p : Opening env args s)

theorem outcome_of_verified {x : Except Failure Report} (h : p.verified = (x, t)) :
    Run.outcome (p.verifier.verify p.source (some p.token) none) p.begun = (.ok x, t) := by
  rw [Run.outcome_run, ← Opening.verified, h]

/-- A report is presented once the client is closed. -/
theorem run_of_ok {r : Report} (h : p.verified = (.ok r, t)) :
    run env args s = present r p.formats p.options (p.client.close t).2 := by
  have hattended : attended p.verifier p.source p.options.deadline p.announced = (.ok (some r), t) := by
    rw [attended, Act.bind_of_ok (Run.newToken_run _ _ _)]
    exact Act.bind_of_ok (outcome_of_verified p h)
  exact run_of_attended p hattended

theorem Opening.host_begun : p.begun.host = s.host := host_of_openJudge (t := p.opened) p.client_eq

/-- The verification leaves the host as it is. -/
theorem host_of_verified {x : Except Failure Report} (h : p.verified = (x, t)) : t.host = s.host := by
  have hverified : p.verified.2.host = p.begun.host :=
    (p.verifier.respects_verify p.source (some p.token) none p.begun).host
  rw [h] at hverified
  exact hverified.trans p.host_begun

theorem host_of_close {x : Except Failure Report} (h : p.verified = (x, t)) : (p.client.close t).2.host = s.host := by
  rw [← host_of_verified p h, Judge.Client.close]
  cases p.client.transport <;> rfl

theorem attended_of_cancelled {during : Activity} (h : p.verified = (.error (.cancelled during), t)) :
    attended p.verifier p.source p.options.deadline p.announced = (do
      say .yellow (dropped during)
      pure none : Run Float (Option Report)) t := by
  rw [attended, Act.bind_of_ok (Run.newToken_run _ _ _)]
  exact Act.bind_of_ok (outcome_of_verified p h)

theorem run_of_cancelled {during : Activity} (h : p.verified = (.error (.cancelled during), t))
    (htold : s.host.Takes (.line (Colour.yellow.around (dropped during)))) : (run env args s).1 = .ok .cancelled := by
  have hsaid := Act.bind_of_ok (f := fun _ => (pure none : Run Float (Option Report)))
    (Run.put_of_takes (s := t) (host_of_verified p h ▸ htold))
  exact congrArg Prod.fst (run_of_attended p ((attended_of_cancelled p h).trans hsaid))

theorem run_of_untold {during : Activity} {reason : String} (h : p.verified = (.error (.cancelled during), t))
    (hrefused : s.host.console (.line (Colour.yellow.around (dropped during))) = some reason) :
    (run env args s).1 = .error (.console reason) := by
  have hsaid := Act.bind_of_error (f := fun _ => (pure none : Run Float (Option Report)))
    (Run.put_of_refused (s := t) (host_of_verified p h ▸ hrefused))
  exact congrArg Prod.fst (run_of_attended p ((attended_of_cancelled p h).trans hsaid))

theorem run_of_error {e : Failure} (h : p.verified = (.error e, t)) (he : ∀ during, e ≠ .cancelled during) :
    (run env args s).1 = .error e := by
  have hattended : attended p.verifier p.source p.options.deadline p.announced = (.error e, t) := by
    rw [attended, Act.bind_of_ok (Run.newToken_run _ _ _)]
    refine (Act.bind_of_ok (outcome_of_verified p h)).trans ?_
    cases e with
    | cancelled during => exact absurd rfl (he during)
    | _ => rfl
  exact congrArg Prod.fst (run_of_attended p hattended)

end Verified

/-- All that is asked for of a report can be written and shown where the verification ends, and the console takes what is said
of it. -/
structure Opening.Exported (p : Opening env args s) (r : Report) (t : Scene Float) : Prop where
  delivered : ∃ files u, Export.deliver r p.formats p.options.out (p.client.close t).2 = (.ok files, u)
  warned : TakesWarnings s.host r.warnings
  concluded : s.host.Takes (.line (lastWord r p.options.failOnHigh))

/-- The scene in which a report has been delivered has the host that the command has. -/
theorem host_of_deliver (p : Opening env args s) {x : Except Failure Report} (h : p.verified = (x, t)) {r : Report}
    {files : List (Export.Format × Files.Path)} {u : Scene Float}
    (hdeliver : Export.deliver r p.formats p.options.out (p.client.close t).2 = (.ok files, u)) : u.host = s.host := by
  have hhost := (Export.respects_deliver r p.formats p.options.out (p.client.close t).2).host
  rw [hdeliver] at hhost
  exact hhost.trans (host_of_close p h)

theorem Opening.Exported.present {p : Opening env args s} {r : Report} (hexported : p.Exported r t)
    (h : p.verified = (.ok r, t)) : ∃ u : Scene Float, present r p.formats p.options (p.client.close t).2 =
      (.ok (.ofReport r p.options.failOnHigh),
        { u with trace := u.trace ++ [.showed (.line (lastWord r p.options.failOnHigh))] }) := by
  obtain ⟨⟨files, u, hdeliver⟩, hwarned, hlast⟩ := hexported
  have hhost := host_of_deliver p h hdeliver
  exact present_run hdeliver (hhost ▸ hwarned) (hhost ▸ hlast)

/-- A file is read without any change. -/
theorem sourceOf_scene (file : Files.Path) (s : Scene Float) : (sourceOf file s).2 = s := by
  rw [sourceOf]
  cases hread : s.files.read file with
  | error e => rw [Act.bind_of_error (Run.ask_run_of_error hread)]
  | ok content =>
    rw [Act.bind_of_ok (Run.ask_run_of_ok hread)]
    cases Source.make content file.name <;> rfl

/-- The way to a verification, for a command that comes to one. -/
def opening? (env : Environment) (args : List String) (s : Scene Float) : Option (Opening env args s) :=
  match hrequest : Request.ofArguments? s.files args with
  | none => none
  | some .help => none
  | some (.run o) =>
    match hformats : Export.Format.choose o.formats with
    | .error _ => none
    | .ok formats =>
      match hload : Settings.load s.host.collections s.files env o.config with
      | .error _ => none
      | .ok settings =>
        match hclient : openJudge (adjusted settings env o) s with
        | (.error _, _) => none
        | (.ok none, _) => none
        | (.ok (some client), opened) =>
          match hsource : (sourceOf o.contract opened).1 with
          | .error _ => none
          | .ok source =>
            match hnoted : s.host.console (.note (announcement (adjusted settings env o) o formats)) with
            | some _ => none
            | none =>
              some ⟨o, formats, settings, client, source, opened, hrequest, hformats, hload, hclient,
                Prod.ext hsource (sourceOf_scene o.contract opened), hnoted⟩

/-! ### The exit -/

theorem invoke_of_ok {exit : Exit} (h : (run env args s).1 = .ok exit) : (invoke env args s).1 = exit := by
  rcases hrun : run env args s with ⟨e | other, t⟩ <;> rw [hrun] at h
  · cases h
  · obtain rfl := Except.ok.inj h
    simp only [invoke, hrun]

theorem invoke_of_error {e : Failure} (h : (run env args s).1 = .error e) : (invoke env args s).1 = .crashed e := by
  rcases hrun : run env args s with ⟨other | exit, t⟩ <;> rw [hrun] at h
  · obtain rfl := Except.error.inj h
    simp only [invoke, hrun]
  · cases h

/-- The exit for a report that can be exported is the one for the report. -/
theorem invoke_of_exported (p : Opening env args s) {r : Report} (h : p.verified = (.ok r, t)) (hexported : p.Exported r t) :
    (invoke env args s).1 = .ofReport r p.options.failOnHigh := by
  obtain ⟨u, hpresented⟩ := hexported.present h
  refine invoke_of_ok ?_
  rw [run_of_ok p h, hpresented]

/-! ### The ends of a command -/

theorem Exit.ofReport_ne_crashed (r : Report) (onlyHigh : Bool) (f : Failure) : Exit.ofReport r onlyHigh ≠ .crashed f := by
  rw [ofReport, ofCounts]
  split_ifs <;> simp

/-- The ways in which a command ends, and how it exits then. -/
inductive Ends (env : Environment) (args : List String) (s : Scene Float) : Exit → Prop where
  | unread (h : Request.ofArguments? s.files args = none) : Ends env args s .failed
  | helped (h : Request.ofArguments? s.files args = some .help) : Ends env args s .helped
  | unformatted {o : Options} {message : String} (hrequest : Request.ofArguments? s.files args = some (.run o))
      (h : Export.Format.choose o.formats = .error message) : Ends env args s .failed
  | misconfigured {o : Options} {formats : List Export.Format} {cause : ConfigError} (hasked : Asked args s o formats)
      (h : Settings.load s.host.collections s.files env o.config = .error (.config cause))
      (htold : s.host.Takes (.line (Colour.red.around cause.text))) : Ends env args s .failed
  /-- The console refuses to tell of settings that are at fault. -/
  | misconfiguredUntold {o : Options} {formats : List Export.Format} {cause : ConfigError} {reason : String}
      (hasked : Asked args s o formats) (h : Settings.load s.host.collections s.files env o.config = .error (.config cause))
      (hrefused : s.host.console (.line (Colour.red.around cause.text)) = some reason) :
        Ends env args s (.crashed (.console reason))
  | unloaded {o : Options} {formats : List Export.Format} {f : Failure} (hasked : Asked args s o formats)
      (h : Settings.load s.host.collections s.files env o.config = .error f) (hf : ∀ cause, f ≠ .config cause) :
        Ends env args s (.crashed f)
  | keyless {o : Options} {formats : List Export.Format} {settings : Settings Float} (hasked : Asked args s o formats)
      (hload : Settings.load s.host.collections s.files env o.config = .ok settings)
      (h : (adjusted settings env o).judge.hasKey = false)
      (htold : s.host.Takes (.line (Colour.red.around keyless))) : Ends env args s .failed
  /-- The console refuses to tell that there is no key. -/
  | keylessUntold {o : Options} {formats : List Export.Format} {settings : Settings Float} {reason : String}
      (hasked : Asked args s o formats) (hload : Settings.load s.host.collections s.files env o.config = .ok settings)
      (h : (adjusted settings env o).judge.hasKey = false)
      (hrefused : s.host.console (.line (Colour.red.around keyless)) = some reason) : Ends env args s (.crashed (.console reason))
  | sourceless {o : Options} {formats : List Export.Format} {settings : Settings Float} {client : Judge.Client Float}
      {t : Scene Float} {f : Failure} (hasked : Asked args s o formats)
      (hload : Settings.load s.host.collections s.files env o.config = .ok settings)
      (hclient : openJudge (adjusted settings env o) s = (.ok (some client), t))
      (h : (sourceOf o.contract t).1 = .error f) : Ends env args s (.crashed f)
  /-- The console refuses what is noted of the run. -/
  | unannounced {o : Options} {formats : List Export.Format} {settings : Settings Float} {client : Judge.Client Float}
      {source : Source} {t : Scene Float} {reason : String} (hasked : Asked args s o formats)
      (hload : Settings.load s.host.collections s.files env o.config = .ok settings)
      (hclient : openJudge (adjusted settings env o) s = (.ok (some client), t))
      (hsource : sourceOf o.contract t = (.ok source, t))
      (hrefused : s.host.console (.note (announcement (adjusted settings env o) o formats)) = some reason) :
      Ends env args s (.crashed (.console reason))
  | cancelled (p : Opening env args s) {during : Activity} {t : Scene Float}
      (h : p.verified = (.error (.cancelled during), t))
      (htold : s.host.Takes (.line (Colour.yellow.around (dropped during)))) : Ends env args s .cancelled
  /-- The console refuses to tell of the cancellation. -/
  | cancelledUntold (p : Opening env args s) {during : Activity} {t : Scene Float} {reason : String}
      (h : p.verified = (.error (.cancelled during), t))
      (hrefused : s.host.console (.line (Colour.yellow.around (dropped during))) = some reason) :
      Ends env args s (.crashed (.console reason))
  | broken (p : Opening env args s) {f : Failure} {t : Scene Float} (h : p.verified = (.error f, t))
      (hf : ∀ during, f ≠ .cancelled during) : Ends env args s (.crashed f)
  | undelivered (p : Opening env args s) {r : Report} {t : Scene Float} {f : Failure} (h : p.verified = (.ok r, t))
      (hf : (Export.deliver r p.formats p.options.out (p.client.close t).2).1 = .error f) : Ends env args s (.crashed f)
  /-- The console refuses what is said of a report that has been delivered. -/
  | deliveredUntold (p : Opening env args s) {r : Report} {t : Scene Float} {reason : String} (h : p.verified = (.ok r, t))
      (hdelivered : ∃ files u, Export.deliver r p.formats p.options.out (p.client.close t).2 = (.ok files, u))
      (hrefused : (present r p.formats p.options (p.client.close t).2).1 = .error (.console reason)) :
      Ends env args s (.crashed (.console reason))
  | delivered (p : Opening env args s) {r : Report} {t : Scene Float} (h : p.verified = (.ok r, t))
      (hexported : p.Exported r t) : Ends env args s (.ofReport r p.options.failOnHigh)

theorem loadSettings_of_config {o : Options} {cause : ConfigError}
    (h : Settings.load s.host.collections s.files env o.config = .error (.config cause)) :
    loadSettings env o s = (do
      say .red cause.text
      pure none : Run Float (Option (Settings Float))) s := by
  rw [loadSettings, Act.bind_of_ok (Act.get_run s)]
  simp only [h]

theorem loadSettings_of_error {o : Options} {f : Failure} (h : Settings.load s.host.collections s.files env o.config = .error f)
    (hf : ∀ cause, f ≠ .config cause) : loadSettings env o s = (.error f, s) := by
  rw [loadSettings, Act.bind_of_ok (Act.get_run s)]
  simp only [h]
  cases f with
  | config cause => exact absurd rfl (hf cause)
  | _ => rfl

/-- A report that cannot be delivered leaves the command without an exit. -/
theorem run_of_undelivered (p : Opening env args s) {r : Report} {f : Failure} (h : p.verified = (.ok r, t))
    (hf : (Export.deliver r p.formats p.options.out (p.client.close t).2).1 = .error f) :
    (run env args s).1 = .error f := by
  rw [run_of_ok p h, present]
  exact congrArg Prod.fst (Act.bind_of_error (Prod.ext hf rfl))

/-- A command that ends in one of these ways exits as told. -/
theorem invoke_of_ends {exit : Exit} (h : Ends env args s exit) : (invoke env args s).1 = exit := by
  cases h with
  | unread h =>
    refine invoke_of_ok ?_
    rw [run, Act.bind_of_ok (Act.get_run s)]
    simp only [h]
    rfl
  | helped h =>
    refine invoke_of_ok ?_
    rw [run, Act.bind_of_ok (Act.get_run s)]
    simp only [h]
    rfl
  | unformatted hrequest h =>
    refine invoke_of_ok ?_
    rw [run, Act.bind_of_ok (Act.get_run s)]
    simp only [hrequest, perform, h]
    rfl
  | misconfigured hasked h htold =>
    refine invoke_of_ok ?_
    have hload := (loadSettings_of_config h).trans (Act.bind_of_ok (Run.put_of_takes htold))
    rw [run_of_asked hasked, Act.bind_of_ok hload]
    rfl
  | misconfiguredUntold hasked h hrefused =>
    refine invoke_of_error ?_
    have hload := (loadSettings_of_config h).trans (Act.bind_of_error (Run.put_of_refused hrefused))
    rw [run_of_asked hasked, Act.bind_of_error hload]
  | unloaded hasked h hf =>
    refine invoke_of_error ?_
    rw [run_of_asked hasked, Act.bind_of_error (loadSettings_of_error h hf)]
  | keyless hasked hload h htold =>
    refine invoke_of_ok ?_
    have hopen := (openJudge_of_keyless h s).trans (Act.bind_of_ok (Run.put_of_takes htold))
    rw [run_of_loaded hasked hload, verify, Act.bind_of_ok hopen]
    rfl
  | keylessUntold hasked hload h hrefused =>
    refine invoke_of_error ?_
    have hopen := (openJudge_of_keyless h s).trans (Act.bind_of_error (Run.put_of_refused hrefused))
    rw [run_of_loaded hasked hload, verify, Act.bind_of_error hopen]
  | sourceless hasked hload hclient h =>
    refine invoke_of_error ?_
    rw [run_of_loaded hasked hload, verify, Act.bind_of_ok hclient]
    exact congrArg Prod.fst (Act.bind_of_error (Prod.ext h rfl))
  | unannounced hasked hload hclient hsource hrefused =>
    refine invoke_of_error ?_
    rw [run_of_loaded hasked hload, verify, Act.bind_of_ok hclient]
    dsimp only
    rw [Act.bind_of_ok hsource, Act.bind_of_error (Run.put_of_refused (host_of_openJudge hclient ▸ hrefused))]
  | cancelled p h htold => exact invoke_of_ok (run_of_cancelled p h htold)
  | cancelledUntold p h hrefused => exact invoke_of_error (run_of_untold p h hrefused)
  | broken p h hf => exact invoke_of_error (run_of_error p h hf)
  | undelivered p h hf => exact invoke_of_error (run_of_undelivered p h hf)
  | deliveredUntold p h _ hrefused =>
    refine invoke_of_error ?_
    rw [run_of_ok p h, hrefused]
  | delivered p h hexported => exact invoke_of_exported p h hexported

/-- A command whose client is opened ends, whatever the source, the verification and the delivery come to. -/
theorem exists_ends_of_client {o : Options} {formats : List Export.Format} {settings : Settings Float}
    {client : Judge.Client Float} (hasked : Asked args s o formats)
    (hload : Settings.load s.host.collections s.files env o.config = .ok settings)
    (hclient : openJudge (adjusted settings env o) s = (.ok (some client), t)) : ∃ exit, Ends env args s exit := by
  rcases hsource : sourceOf o.contract t with ⟨f | source, read⟩
  · exact ⟨_, .sourceless hasked hload hclient (congrArg Prod.fst hsource)⟩
  obtain rfl : read = t := by
    have hscene := sourceOf_scene o.contract t
    rwa [hsource] at hscene
  obtain hnoted | ⟨reason, hrefused⟩ := s.host.takes_or_refuses (.note (announcement (adjusted settings env o) o formats))
  case inr => exact ⟨_, .unannounced hasked hload hclient hsource hrefused⟩
  let p : Opening env args s :=
    ⟨o, formats, settings, client, source, read, hasked.options_eq, hasked.formats_eq, hload, hclient, hsource, hnoted⟩
  rcases hverified : p.verified with ⟨f | r, u⟩
  · by_cases hcancelled : ∃ during, f = .cancelled during
    · obtain ⟨during, rfl⟩ := hcancelled
      obtain htold | ⟨reason, hrefused⟩ := s.host.takes_or_refuses (.line (Colour.yellow.around (dropped during)))
      · exact ⟨_, .cancelled p hverified htold⟩
      · exact ⟨_, .cancelledUntold p hverified hrefused⟩
    · exact ⟨_, .broken p hverified fun during h => hcancelled ⟨during, h⟩⟩
  · rcases hdeliver : Export.deliver r p.formats p.options.out (p.client.close u).2 with ⟨f | files, w⟩
    · exact ⟨_, .undelivered p hverified (congrArg Prod.fst hdeliver)⟩
    have hhost := host_of_deliver p hverified hdeliver
    by_cases htold : TakesWarnings s.host r.warnings ∧ s.host.Takes (.line (lastWord r p.options.failOnHigh))
    · exact ⟨_, .delivered p hverified ⟨⟨files, w, hdeliver⟩, htold.1, htold.2⟩⟩
    · obtain ⟨reason, hrefused⟩ := present_of_refused (o := p.options) hdeliver (hhost ▸ htold)
      exact ⟨_, .deliveredUntold p hverified ⟨files, w, hdeliver⟩ hrefused⟩

/-- Every command ends in one of these ways. -/
theorem exists_ends (env : Environment) (args : List String) (s : Scene Float) : ∃ exit, Ends env args s exit := by
  rcases hrequest : Request.ofArguments? s.files args with _ | _ | o
  · exact ⟨_, .unread hrequest⟩
  · exact ⟨_, .helped hrequest⟩
  rcases hformats : Export.Format.choose o.formats with message | formats
  · exact ⟨_, .unformatted hrequest hformats⟩
  have hasked : Asked args s o formats := ⟨hrequest, hformats⟩
  rcases hload : Settings.load s.host.collections s.files env o.config with f | settings
  · by_cases hconfig : ∃ cause, f = .config cause
    · obtain ⟨cause, rfl⟩ := hconfig
      obtain htold | ⟨reason, hrefused⟩ := s.host.takes_or_refuses (.line (Colour.red.around cause.text))
      · exact ⟨_, .misconfigured hasked hload htold⟩
      · exact ⟨_, .misconfiguredUntold hasked hload hrefused⟩
    · exact ⟨_, .unloaded hasked hload fun cause h => hconfig ⟨cause, h⟩⟩
  cases hkey : (adjusted settings env o).judge.hasKey with
  | true =>
    obtain ⟨options, hclient⟩ := openJudge_of_key hkey s
    exact exists_ends_of_client hasked hload hclient
  | false =>
    obtain htold | ⟨reason, hrefused⟩ := s.host.takes_or_refuses (.line (Colour.red.around keyless))
    · exact ⟨_, .keyless hasked hload hkey htold⟩
    · exact ⟨_, .keylessUntold hasked hload hkey hrefused⟩

/-- A command ends in one way. -/
theorem invoke_eq_iff_ends {exit : Exit} : (invoke env args s).1 = exit ↔ Ends env args s exit := by
  refine ⟨fun h => ?_, invoke_of_ends⟩
  obtain ⟨other, hends⟩ := exists_ends env args s
  rwa [← h, invoke_of_ends hends]

/-- What a command crashes with is a failure that nothing takes care of. -/
theorem Ends.isStray {exit : Exit} (h : Ends env args s exit) {f : Failure} (hexit : exit = .crashed f) : f.isStray = true := by
  cases h with
  | @unloaded _ _ cause _ hload hcause =>
    obtain rfl := Exit.crashed.inj hexit
    exact Settings.isStray_of_load hload hcause
  | @sourceless o _ _ _ t _ _ _ _ hsource =>
    obtain rfl := Exit.crashed.inj hexit
    exact throws_sourceOf o.contract t _ hsource
  | broken p hverified hcause =>
    obtain rfl := Exit.crashed.inj hexit
    exact Failure.isStray_iff.2
      ⟨Verifier.throws_verify p.verifier p.source (some p.token) none p.begun _ (congrArg Prod.fst hverified), hcause⟩
  | undelivered p _ hcause =>
    obtain rfl := Exit.crashed.inj hexit
    exact Export.throws_deliver _ p.formats p.options.out _ _ hcause
  | @delivered p r _ _ _ => exact absurd hexit (Exit.ofReport_ne_crashed r _ f)
  | _ => cases hexit <;> rfl

end Adjudication.CommandLine
