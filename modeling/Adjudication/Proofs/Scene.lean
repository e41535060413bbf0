import Adjudication.Proofs.Act
import Adjudication.Proofs.Time.Calm
import Adjudication.Scene

/-!
What the parts of a run do to the scene. Each part has one equation: the value that it gives or the failure that it
ends with, and the scene that it leaves. A token that nothing cancels never ends a part.
-/

namespace Adjudication

variable {σ α ε : Type}

/-- The console of a host takes something. -/
def Host.Takes (h : Host σ) (what : Shown) : Prop := h.console what = none

theorem Host.takes_or_refuses (h : Host σ) (what : Shown) : h.Takes what ∨ ∃ reason, h.console what = some reason := by
  rw [Takes]
  cases h.console what <;> simp

/-- A scene with a new token below a given one. -/
def Scene.withChild [Time.Seconds σ] (s : Scene σ) (token : Time.TokenId) : Scene σ :=
  { s with timeline := (s.timeline.addToken none (some token)).2 }

/-- A scene after lines have been logged. -/
def Scene.noting (s : Scene σ) (lines : List (Level × Text.Wide)) : Scene σ :=
  { s with trace := s.trace ++ lines.map fun line => .logged line.1 line.2 }

@[simp]
theorem Scene.noting_nil (s : Scene σ) : s.noting [] = s := by
  simp [Scene.noting]

theorem Scene.noting_noting (s : Scene σ) (lines more : List (Level × Text.Wide)) :
    (s.noting lines).noting more = s.noting (lines ++ more) := by
  simp [Scene.noting]

namespace Run

theorem record_run (e : Event σ) (s : Scene σ) : record e s = (.ok (), { s with trace := s.trace ++ [e] }) := rfl

theorem log_run (level : Level) (message : Text.Wide) (s : Scene σ) :
    log level message s = (.ok (), s.noting [(level, message)]) := rfl

/-- Something is put before the user where the console takes it. -/
theorem put_run (what : Shown) (s : Scene σ) : put what s = match s.host.console what with
    | some reason => (.error (.console reason), s)
    | none => (.ok (), { s with trace := s.trace ++ [.showed what] }) := by
  rw [put, Act.bind_of_ok (Act.get_run s)]
  cases s.host.console what <;> rfl

theorem put_of_takes {what : Shown} {s : Scene σ} (h : s.host.Takes what) :
    put what s = (.ok (), { s with trace := s.trace ++ [.showed what] }) := by
  rw [put_run, h]

theorem put_of_refused {what : Shown} {reason : String} {s : Scene σ} (h : s.host.console what = some reason) :
    put what s = (.error (.console reason), s) := by
  rw [put_run, h]

@[simp]
theorem ofExcept_ok (failure : ε → Failure) (a : α) : (ofExcept failure (.ok a) : Run σ α) = pure a := rfl

@[simp]
theorem ofExcept_error (failure : ε → Failure) (e : ε) :
    (ofExcept failure (.error e) : Run σ α) = throw (failure e) := rfl

theorem ofExcept_run (r : Except Failure α) (s : Scene σ) : ofExcept id r s = (r, s) := by
  cases r <;> rfl

theorem outcome_run (part : Run σ α) (s : Scene σ) : outcome part s = (.ok (part s).1, (part s).2) := rfl

/-- The outcome of a part is looked at, and the run goes on. -/
theorem outcome_bind_run {β : Type} (part : Run σ α) (f : Except Failure α → Run σ β) (s : Scene σ) :
    (outcome part >>= f) s = f (part s).1 (part s).2 := Act.bind_of_ok (outcome_run part s)

/-- A part that is followed by another one comes to what it comes to, unless the other one fails. -/
theorem andThen_of_ok {part : Run σ α} {last : Run σ Unit} {s t u : Scene σ} {x : Except Failure α}
    (h : part s = (x, t)) (hlast : last t = (.ok (), u)) : andThen part last s = (x, u) := by
  rw [andThen, outcome_bind_run, h, Act.bind_of_ok hlast, ofExcept_run]

theorem ask_run_of_ok {f : Files.Tree → Except Files.Fault α} {s : Scene σ} {a : α} (h : f s.files = .ok a) :
    ask f s = (.ok a, s) := by
  show (ofExcept .file (f s.files) : Run σ α) s = _
  rw [h, ofExcept_ok, Act.pure_run]

theorem ask_run_of_error {f : Files.Tree → Except Files.Fault α} {s : Scene σ} {e : Files.Fault}
    (h : f s.files = .error e) : ask f s = (.error (.file e), s) := by
  show (ofExcept .file (f s.files) : Run σ α) s = _
  rw [h, ofExcept_error, Act.throw_run]

theorem undertake_run {f : Host σ → Files.Tree → Except Files.Fault Unit × Files.Tree} {s : Scene σ} {r : Except Files.Fault Unit}
    {files : Files.Tree} (h : f s.host s.files = (r, files)) : undertake f s = (.ok r, { s with files }) := by
  simp only [undertake, h]

theorem now_run (s : Scene σ) : now s = (.ok s.timeline.now, s) := rfl

variable [Time.Seconds σ]

/-- A new token has the next number. -/
theorem newToken_run (deadline : Option σ) (parent : Option Time.TokenId) (s : Scene σ) :
    newToken deadline parent s =
      (.ok s.timeline.tokens.length, { s with timeline := (s.timeline.addToken deadline parent).2 }) := rfl

/-! ### Looking at a token -/

theorem isCancelled_run (id : Time.TokenId) (s : Scene σ) :
    isCancelled id s =
      (.ok (s.timeline.isCancelled id).1, { s with timeline := (s.timeline.isCancelled id).2 }) := rfl

theorem heed_run (id : Time.TokenId) (s : Scene σ) :
    heed (some id) s =
      (if (s.timeline.isCancelled id).1 then .error (.cancelled .verification) else .ok (),
        { s with timeline := (s.timeline.isCancelled id).2 }) := by
  simp only [heed]
  rw [Act.bind_of_ok (isCancelled_run id s)]
  split <;> rfl

/-- A look at a token that is not cancelled changes nothing. -/
theorem heed_of_not_cancelled {id : Time.TokenId} {s : Scene σ} (h : (s.timeline.isCancelled id).1 = false) :
    heed (some id) s = (.ok (), s) := by
  rw [heed_run, Time.Timeline.isCancelled_of_fst h]
  rfl

theorem heed_of_calm {id : Time.TokenId} {s : Scene σ} (h : s.timeline.Calm id) : heed (some id) s = (.ok (), s) :=
  heed_of_not_cancelled (congrArg Prod.fst (Time.Timeline.isCancelled_of_calm h))

/-- A look that does not end the run has not found the token cancelled, and has changed nothing. -/
theorem heed_eq_ok {id : Time.TokenId} {s t : Scene σ} (h : heed (some id) s = (.ok (), t)) :
    (s.timeline.isCancelled id).1 = false ∧ t = s := by
  cases hc : (s.timeline.isCancelled id).1 with
  | true =>
    rw [heed_run, hc] at h
    exact absurd h Act.error_ne_ok
  | false =>
    rw [heed_of_not_cancelled hc] at h
    exact ⟨rfl, (Act.ok_eq_ok.1 h).2.symm⟩

theorem heed_eq_of_fst {id : Time.TokenId} {s : Scene σ} (h : (heed (some id) s).1 = .ok ()) :
    heed (some id) s = (.ok (), s) :=
  heed_of_not_cancelled (heed_eq_ok (Prod.ext h rfl : heed (some id) s = (.ok (), (heed (some id) s).2))).1

/-- A look at a token changes neither the service nor the trace. -/
theorem heed_frame {token : Option Time.TokenId} {s t : Scene σ} (h : heed token s = (.ok (), t)) :
    t.service = s.service ∧ t.trace = s.trace := by
  cases token with
  | none =>
    obtain rfl : s = t := (Act.ok_eq_ok.1 h).2
    exact ⟨rfl, rfl⟩
  | some id =>
    rw [heed_run] at h
    obtain rfl := congrArg Prod.snd h
    exact ⟨rfl, rfl⟩

theorem remaining_run (token : Option Time.TokenId) (s : Scene σ) :
    remaining token s = (.ok (token.bind s.timeline.remaining), s) := rfl

/-! ### Pauses -/

theorem pause_none_run (delay : σ) (s : Scene σ) :
    pause none delay s = (.ok (), { s with trace := s.trace ++ [.paused delay none s.timeline.now] }) := rfl

theorem pause_run (id : Time.TokenId) (delay : σ) (s : Scene σ) :
    pause (some id) delay s =
      match s.timeline.wait s.patience id delay with
      | none => (.error .stalled, { s with trace := s.trace ++ [.paused delay (some id) s.timeline.now] })
      | some (cancelled, t) =>
        (if cancelled then .error (.cancelled .verification) else .ok (),
          { s with timeline := t, trace := s.trace ++ [.paused delay (some id) s.timeline.now] }) := by
  show (match s.timeline.wait s.patience id delay with
      | none => throw .stalled
      | some (cancelled, timeline) => _ : Run σ Unit) _ = _
  rcases s.timeline.wait s.patience id delay with _ | ⟨_ | _, t⟩ <;> rfl

/-- A pause that comes to its end is recorded and leaves the service alone. -/
theorem pause_frame {token : Option Time.TokenId} {delay : σ} {s t : Scene σ} (h : pause token delay s = (.ok (), t)) :
    t.service = s.service ∧ t.trace = s.trace ++ [.paused delay token s.timeline.now] := by
  cases token with
  | none =>
    obtain rfl := congrArg Prod.snd h
    exact ⟨rfl, rfl⟩
  | some id =>
    rw [pause_run] at h
    cases hw : s.timeline.wait s.patience id delay with
    | none => simp [hw] at h
    | some r =>
      rw [hw] at h
      obtain rfl := congrArg Prod.snd h
      exact ⟨rfl, rfl⟩

end Run

/-! ### Scenes to rehearse in -/

variable [Time.Seconds σ]

/-- A finding of which only the check is known. -/
def Finding.ofCheck (check : String) : Finding := ⟨check, .high, .text "", [], none, none⟩

/-- A scene without files, with a service and with one token, which nothing cancels. Whatever the analyzer is called
on, it leaves the given output at once. -/
def Scene.ofService (service : Judge.Service σ) (output : Analyzer.Output) : Scene σ :=
  { host := .usual, timeline := (Time.Timeline.start.addToken none none).2
    files := ⟨[], []⟩
    course := ⟨none, Time.Seconds.zero, [], false, output, 0, .ok "", .ok "", none, none, id⟩
    service, caller := none, names := 0, clients := 0, patience := 0, schedule := [], trace := [] }

variable (service : Judge.Service σ) (output : Analyzer.Output)

theorem Scene.calm_ofService : (ofService service output).timeline.Calm 0 := by
  intro i hi
  obtain rfl : i = 0 := List.mem_singleton.1 hi
  refine ⟨fun token htoken => ?_, fun e he => absurd he (List.not_mem_nil)⟩
  obtain rfl := Option.some.inj htoken
  exact ⟨rfl, rfl⟩

theorem Scene.forest_ofService : (ofService service output).timeline.Forest := by
  intro i parent token htoken hparent
  rcases i with _ | i
  · obtain rfl := Option.some.inj htoken
    exact absurd hparent (by simp)
  · exact absurd htoken (by simp [ofService, Time.Timeline.addToken, Time.Timeline.start])

end Adjudication
