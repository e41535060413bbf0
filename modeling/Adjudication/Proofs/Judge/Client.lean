import Adjudication.Judge.Client
import Adjudication.Proofs.Retry
import Adjudication.Proofs.Scene

/-!
What one attempt of the judge's client comes to. An attempt sends one request, and what it comes to is told by the
turn of the service alone: the object that was received, a fault that is worth another attempt, or a failure that is
not. The judgment is read off the object that the attempts come to.
-/

namespace Adjudication

/-- Whether there is a key for the judge's service. -/
def JudgeConfig.hasKey {σ : Type} (config : JudgeConfig σ) : Bool := config.apiKey.any (· ≠ "")

variable {σ : Type} [Time.Seconds σ]

open Time (TokenId)

namespace Judge

/-! ### Turns -/

/-- The content that comes back on a turn. -/
def Turn.content (turn : Turn σ) : Except Failure Json :=
  match turn.crash with
  | some text => .error (.crash text)
  | none => turn.reply.content.mapError fun e => .attempt (.transport e)

/-- What an attempt comes to on a turn: an object with its text, or the failure. -/
def Turn.yield (levels : Nat) (turn : Turn σ) : Except Failure (Text.Wide × Json.Members) :=
  turn.content >>= decodeObject levels

/-- A longest time, cut down to the time that is left if that is less. -/
def timeoutWithin (longest : σ) : Option σ → σ
  | some left => if Time.Seconds.lt left longest then left else longest
  | none => longest

theorem requestTimeout_run (config : JudgeConfig σ) (token : Option TokenId) (s : Scene σ) :
    requestTimeout config token s =
      (.ok (timeoutWithin config.requestTimeout (token.bind s.timeline.remaining)), s) := by
  rw [requestTimeout, Act.bind_of_ok (Run.remaining_run token s)]
  cases token.bind s.timeline.remaining <;> rfl

end Judge

namespace Scene

open Judge

/-- The caller cancels, if it holds a token. -/
def cancelCaller (s : Scene σ) : Scene σ :=
  match s.caller with
  | some id => s.cancel id
  | none => s

/-- A scene after a turn of the service has gone by on a request. -/
def asked (s : Scene σ) (request : Request) (timeout : σ) : Scene σ :=
  { s with
    service := s.service.rest request
    timeline := s.timeline.advance (s.service.turn request).takes
    trace := s.trace ++ [.requested request timeout s.timeline.now] }

/-- The same after the caller has cancelled, if it does so on that turn. -/
def taken (s : Scene σ) (request : Request) (timeout : σ) : Scene σ :=
  if (s.service.turn request).cancels then (s.asked request timeout).cancelCaller
  else s.asked request timeout

/-- A scene after the content of a turn has come back, if there is one. -/
def answered (s : Scene σ) (turn : Turn σ) : Scene σ :=
  match turn.content with
  | .ok content => { s with trace := s.trace ++ [.answered content s.timeline.now] }
  | .error _ => s

/-- A scene after a request. -/
def sent (s : Scene σ) (request : Request) (timeout : σ) : Scene σ :=
  (s.taken request timeout).answered (s.service.turn request)

omit [Time.Seconds σ] in
theorem cancelCaller_run {α : Type} (s : Scene σ) (next : Run σ α) :
    (match s.caller with
      | some id => do
        Run.cancel id
        next
      | none => do
        pure ()
        next : Run σ α) s = next s.cancelCaller := by
  rw [cancelCaller]
  cases s.caller <;> rfl

theorem service_sent (s : Scene σ) (request : Request) (timeout : σ) :
    (s.sent request timeout).service = s.service.rest request := by
  simp only [sent, answered, taken, cancelCaller, asked]
  split <;> split <;> (try split) <;> rfl

theorem patience_sent (s : Scene σ) (request : Request) (timeout : σ) :
    (s.sent request timeout).patience = s.patience := by
  simp only [sent, answered, taken, cancelCaller, asked]
  split <;> split <;> (try split) <;> rfl

/-- Where the caller does not cancel meanwhile, a request does nothing to the tokens but let time go by. -/
theorem timeline_sent {s : Scene σ} {request : Request} (timeout : σ)
    (hc : (s.service.turn request).cancels = false) :
    (s.sent request timeout).timeline = s.timeline.advance (s.service.turn request).takes := by
  simp only [sent, answered, taken, hc, Bool.false_eq_true, if_false, asked]
  split <;> rfl

end Scene

namespace Judge

variable {c : Client σ} {f : Finding} {code : String} {token : Option TokenId} {s t : Scene σ} {a n : Nat}

/-! ### Requests -/

/-- What is done with a turn once it has been taken. -/
def Turn.answer (turn : Turn σ) : Run σ Json := do
  match turn.crash with
  | some text => throw (.crash text)
  | none =>
    let content ← Run.ofExcept (fun e => .attempt (.transport e)) turn.reply.content
    Run.record (.answered content (← Run.now))
    return content

omit [Time.Seconds σ] in
theorem Turn.answer_run (turn : Turn σ) (s : Scene σ) : turn.answer s = (turn.content, s.answered turn) := by
  simp only [answer, Scene.answered, content]
  cases turn.crash with
  | some text => rfl
  | none => cases turn.reply.content <;> rfl

/-- A request gives the content of the turn that is taken on it. -/
theorem send_run (request : Request) (timeout : σ) (s : Scene σ) :
    send request timeout s = ((s.service.turn request).content, s.sent request timeout) := by
  have hsend : send request timeout s = (s.service.turn request).answer (s.taken request timeout) := by
    rw [Scene.taken]
    change (if (s.service.turn request).cancels then _ else _ : Run σ Json) (s.asked request timeout) = _
    split
    · exact Scene.cancelCaller_run (s.asked request timeout) (s.service.turn request).answer
    · rfl
  rw [hsend, Turn.answer_run, Scene.sent]

/-! ### Attempts -/

/-- A scene after an attempt's request was sent. -/
def Client.asks (c : Client σ) (request : Request) (token : Option TokenId) (s : Scene σ) : Scene σ :=
  s.sent request (timeoutWithin c.config.requestTimeout (token.bind s.timeline.remaining))

/-- An attempt on a token that is cancelled ends there. -/
theorem ask_of_heed_error {e : Failure} (request : Request) (a : Nat) (h : Run.heed token s = (.error e, t)) :
    ask c request token a s = (.error e, t) := Act.bind_of_error h

/-- An attempt comes to what the service's next turn yields. -/
theorem ask_of_heed_ok (request : Request) (a : Nat) (h : Run.heed token s = (.ok (), t)) :
    ask c request token a s =
      (((t.service.turn request).yield c.levels).map fun r => ⟨a, r.1, r.2⟩, c.asks request token t) := by
  rw [ask, Act.bind_of_ok h, Act.bind_of_ok (requestTimeout_run c.config token t), Act.bind_run, send_run,
    Turn.yield, Client.asks]
  cases (t.service.turn request).content with
  | error e => rfl
  | ok content =>
    show (Run.ofExcept id (decodeObject c.levels content) >>= fun r => pure ⟨a, r.1, r.2⟩ : Run σ Received) _ = _
    rw [Act.bind_run, Run.ofExcept_run]
    cases hd : decodeObject c.levels content <;> simp only [bind, Except.bind, hd] <;> rfl

/-! ### What follows a failed attempt -/

/-- What a failed attempt leads to: a pause if the failure is a fault of the attempt, if that attempt was not the
last one, and if the length of the pause is a number; a stop otherwise. -/
def Client.next (c : Client σ) (a : Nat) (e : Failure) : Except (Retry.Stop Failure) (Retry.Phase σ Received) :=
  if !isAttemptFault e then .error (.escaped e)
  else if a = c.config.maxAttempts then .error (.exhausted a e)
  else match c.config.backoff.delay? c.config.backoffBase a c.config.maxAttempts with
    | some d => .ok (.pausing a d)
    | none => .error (.escaped .tooLarge)

/-- What a failed attempt leads to, case by case. -/
inductive Client.Next (c : Client σ) (a : Nat) : Failure → Except (Retry.Stop Failure) (Retry.Phase σ Received) → Prop where
  | escaped {e : Failure} (hfault : isAttemptFault e = false) : c.Next a e (.error (.escaped e))
  | exhausted {fault : AttemptFault} (hlast : a = c.config.maxAttempts) :
      c.Next a (.attempt fault) (.error (.exhausted a (.attempt fault)))
  | pausing {fault : AttemptFault} {d : σ} (hmore : a ≠ c.config.maxAttempts)
      (hdelay : c.config.backoff.delay? c.config.backoffBase a c.config.maxAttempts = some d) :
      c.Next a (.attempt fault) (.ok (.pausing a d))
  | tooLarge {fault : AttemptFault} (hmore : a ≠ c.config.maxAttempts)
      (hdelay : c.config.backoff.delay? c.config.backoffBase a c.config.maxAttempts = none) :
      c.Next a (.attempt fault) (.error (.escaped .tooLarge))

theorem Client.next_cases (c : Client σ) (a : Nat) (e : Failure) : c.Next a e (c.next a e) := by
  cases hfault : isAttemptFault e with
  | false =>
    rw [Client.next, hfault]
    exact .escaped hfault
  | true =>
    obtain ⟨fault, rfl⟩ : ∃ fault, e = .attempt fault := by
      cases e with
      | attempt fault => exact ⟨fault, rfl⟩
      | _ => cases hfault
    rw [Client.next, hfault, if_neg (by simp)]
    split
    next hlast => exact .exhausted hlast
    next hmore =>
      cases hdelay : c.config.backoff.delay? c.config.backoffBase a c.config.maxAttempts with
      | some d => exact .pausing hmore hdelay
      | none => exact .tooLarge hmore hdelay

/-- Nothing but the log takes part in what follows a failed attempt. -/
theorem afterFailure_run (c : Client σ) (f : Finding) (code : String) (token : Option TokenId) (a : Nat)
    (e : Failure) (s : Scene σ) :
    ∃ lines, (attempts c f code token).afterFailure a e s = (c.next a e, s.noting lines) := by
  rw [Client.next]
  cases he : isAttemptFault e with
  | false => exact ⟨[], by rw [Retry.afterFailure_of_not_retryable he]; simp⟩
  | true =>
    by_cases ha : a = c.config.maxAttempts
    · subst ha
      have hlast : (attempts c f code token).afterFailure c.config.maxAttempts e s =
          (.error (.exhausted c.config.maxAttempts e), s) :=
        Retry.afterFailure_of_last (r := attempts c f code token) he
      exact ⟨[], by rw [hlast]; simp⟩
    · rw [Retry.afterFailure_of_repeated (r := attempts c f code token) he ha]
      simp only [attempts, ha, if_false, Bool.not_true, Bool.false_eq_true]
      cases c.config.backoff.delay? c.config.backoffBase a c.config.maxAttempts with
      | none => exact ⟨[], by simp⟩
      | some d => exact ⟨[(.warning, retryMessage c f.checkId a e d)], by simp [Run.log_run]⟩

/-- What a phase of the attempts comes to, case by case. -/
inductive Phased (c : Client σ) (f : Finding) (code : String) (token : Option TokenId) (s : Scene σ) :
    Retry.Phase σ Received → Except (Retry.Stop Failure) (Retry.Phase σ Received) × Scene σ → Prop where
  | received {a : Nat} {received : Received} {t : Scene σ}
      (hask : ask c (.about c.config f code) token a s = (.ok received, t)) :
      Phased c f code token s (.calling a) (.ok (.ended received), t)
  | failed {a : Nat} {e : Failure} {r : Except (Retry.Stop Failure) (Retry.Phase σ Received)} {t : Scene σ}
      {lines : List (Level × Text.Wide)} (hask : ask c (.about c.config f code) token a s = (.error e, t))
      (hnext : c.Next a e r) : Phased c f code token s (.calling a) (r, t.noting lines)
  | waited {a : Nat} {d : σ} {t : Scene σ} (hpause : Run.pause token d s = (.ok (), t)) :
      Phased c f code token s (.pausing a d) (.ok (.calling (a + 1)), t)
  | broken {a : Nat} {d : σ} {e : Failure} {t : Scene σ} (hpause : Run.pause token d s = (.error e, t)) :
      Phased c f code token s (.pausing a d) (.error (.escaped e), t)
  | ended {received : Received} : Phased c f code token s (.ended received) (.ok (.ended received), s)

theorem phased_step (c : Client σ) (f : Finding) (code : String) (token : Option TokenId) (p : Retry.Phase σ Received)
    (s : Scene σ) : Phased c f code token s p ((attempts c f code token).step p s) := by
  cases p with
  | calling a =>
    rcases hask : ask c (.about c.config f code) token a s with ⟨e | received, t⟩
    · have hcall : (attempts c f code token).call a s = (.error e, t) := hask
      obtain ⟨lines, hafter⟩ := afterFailure_run c f code token a e t
      rw [Retry.step_calling_of_error hcall, hafter]
      exact .failed hask (c.next_cases a e)
    · have hcall : (attempts c f code token).call a s = (.ok received, t) := hask
      rw [Retry.step_calling_of_ok hcall]
      exact .received hask
  | pausing a d =>
    rcases hpause : Run.pause token d s with ⟨e | ⟨⟩, t⟩
    · rw [Retry.step_pausing_of_error (r := attempts c f code token) hpause]
      exact .broken hpause
    · rw [Retry.step_pausing_of_ok (r := attempts c f code token) hpause]
      exact .waited hpause
  | ended received => exact .ended

/-! ### The judgment -/

/-- What judging comes to once its attempts have come to an end. -/
def judged : Except (Retry.Stop Failure) Received → Except Failure Judgment
  | .ok received => judgmentOf received
  | .error stop => .error (failureOfStop stop)

theorem judge_run (c : Client σ) (f : Finding) (code : String) (token : Option TokenId) (s : Scene σ) :
    judge c f code token s =
      (judged ((attempts c f code token).run s).1, ((attempts c f code token).run s).2) := by
  rw [judge, Act.bind_run, Act.adapt_run]
  rcases (attempts c f code token).run s with ⟨_ | received, t⟩
  · rfl
  · exact Run.ofExcept_run _ _

/-! ### Opening and closing -/

omit [Time.Seconds σ] in
/-- A client is opened under the next number if there is a key. -/
theorem ofConfig_run_of_key {config : JudgeConfig σ} (h : config.hasKey = true) (s : Scene σ) :
    ∃ options, Client.ofConfig config s = (.ok ⟨config, .service s.clients, s.host.levels⟩,
      { s with clients := s.clients + 1, trace := s.trace ++ [.opened s.clients options] }) := by
  rw [JudgeConfig.hasKey] at h
  rw [Client.ofConfig, openTransport.eq_def]
  split
  next hkey => simp [hkey] at h
  next hkey => simp [hkey] at h
  next key _ _ => exact ⟨⟨key, config.baseUrl, config.requestTimeout⟩, rfl⟩

omit [Time.Seconds σ] in
/-- Without a key, or with one that is empty, nothing is done. -/
theorem ofConfig_run_of_keyless {config : JudgeConfig σ} (h : config.hasKey = false) (s : Scene σ) :
    Client.ofConfig config s = (.error .noKey, s) := by
  rw [JudgeConfig.hasKey] at h
  rw [Client.ofConfig, openTransport.eq_def]
  split
  next => rfl
  next => rfl
  next key hne hkey =>
    rw [hkey, Option.any_some, decide_eq_false_iff_not, Decidable.not_not] at h
    exact absurd h hne

omit [Time.Seconds σ] in
/-- Closing a client never fails. -/
theorem close_run (c : Client σ) (s : Scene σ) : c.close s = (.ok (), (c.close s).2) := by
  rw [Client.close]
  cases c.transport <;> rfl

/-- A client that makes so many attempts, with waits of so many base lengths as are left. -/
def Client.ofAttempts (n : Nat) (base : σ) : Client σ :=
  { config := { model := "", seed := 1, maxTokens := 1, maxAttempts := n, backoff := .descending
                backoffBase := base, requestTimeout := Time.Seconds.ratio 60 1, maxWorkers := 1
                baseUrl := none, apiKey := none }
    transport := .own
    levels := Json.usualLevels }

end Judge
end Adjudication
