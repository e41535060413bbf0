import Adjudication.Proofs.Retry

/-!
Which calls a loop makes that calls again, and in which order. A round is an attempt that fails, the note on its failure and
the pause through the delay that is looked up for it. Rounds follow each other until an attempt closes the loop: with a value,
with a failure that is not called again, as the last one, or with a failure of the delay, of the note or of the pause after it.
The calls are those of the rounds, in their order, and those of the attempt that closes the loop.
-/

namespace Adjudication.Retry

variable {S ε σ α β : Type}

/-! ### Calls -/

/-- What a loop calls, and with what. -/
inductive Call (ε σ : Type) where
  | attempt
  | note (attempt : Nat) (e : ε) (delay : σ)
  | pause (delay : σ)
  deriving DecidableEq

/-- A computation beside a list of calls, to which it adds some. -/
def adding (cs : List (Call ε σ)) (x : Act S ε β) : Act (S × List (Call ε σ)) ε β := fun (s, calls) =>
  ((x s).1, ((x s).2, calls ++ cs))

theorem adding_run {cs : List (Call ε σ)} {x : Act S ε β} {y : Except ε β} {s t : S} (h : x s = (y, t))
    (calls : List (Call ε σ)) : adding cs x (s, calls) = (y, (t, calls ++ cs)) := by
  show ((x s).1, ((x s).2, calls ++ cs)) = _
  rw [h]

/-- The loop with its calls written down. -/
def observed (r : Retry S ε σ α) : Retry (S × List (Call ε σ)) ε σ α where
  attempts := r.attempts
  call i := adding [.attempt] (r.call i)
  retryable := r.retryable
  backoff i n := adding [] (r.backoff i n)
  note i e d := adding [.note i e d] (r.note i e d)
  pause d := adding [.pause d] (r.pause d)

/-- The calls that a loop makes. -/
def calls (r : Retry S ε σ α) (s : S) : List (Call ε σ) := (r.observed.run (s, [])).2.2

/-- The calls of rounds with these failures and delays, the first of them with this number. -/
def script : Nat → List (ε × σ) → List (Call ε σ)
  | _, [] => []
  | i, (e, d) :: rest => .attempt :: .note i e d :: .pause d :: script (i + 1) rest

/-! ### Rounds -/

/-- An attempt fails and may be made again. -/
structure Fails (r : Retry S ε σ α) (i : Nat) (s : S) (e : ε) (t : S) : Prop where
  call : r.call i s = (.error e, t)
  retryable : r.retryable e = true
  notLast : i < r.attempts

/-- A round: an attempt fails and may be made again, and the delay is looked up, noted and waited through. -/
inductive Round (r : Retry S ε σ α) (i : Nat) (s : S) (e : ε) (d : σ) : S → Prop where
  | mk {t u v w : S} (hfails : r.Fails i s e t) (hbackoff : r.backoff i r.attempts t = (.ok d, u))
      (hnote : r.note i e d u = (.ok (), v)) (hpause : r.pause d v = (.ok (), w)) : Round r i s e d w

/-- Rounds that follow each other, with their failures and delays. -/
inductive Rounds (r : Retry S ε σ α) : Nat → S → List (ε × σ) → S → Prop where
  | nil {i : Nat} {s : S} : Rounds r i s [] s
  | cons {i : Nat} {s t u : S} {e : ε} {d : σ} {rest : List (ε × σ)} (hround : r.Round i s e d t)
      (hrest : Rounds r (i + 1) t rest u) : Rounds r i s ((e, d) :: rest) u

/-- An attempt that closes the loop, with the calls that are made, what the loop comes to and the state that is left. -/
inductive Closes (r : Retry S ε σ α) (i : Nat) (s : S) : List (Call ε σ) → Except (Stop ε) α → S → Prop where
  | value {a : α} {t : S} (hcall : r.call i s = (.ok a, t)) : Closes r i s [.attempt] (.ok a) t
  | refused {e : ε} {t : S} (hcall : r.call i s = (.error e, t)) (he : r.retryable e = false) :
      Closes r i s [.attempt] (.error (.escaped e)) t
  | exhausted {e : ε} {t : S} (hcall : r.call i s = (.error e, t)) (he : r.retryable e = true) (hi : i = r.attempts) :
      Closes r i s [.attempt] (.error (.exhausted r.attempts e)) t
  | backoff {e e' : ε} {t u : S} (hfails : r.Fails i s e t) (hbackoff : r.backoff i r.attempts t = (.error e', u)) :
      Closes r i s [.attempt] (.error (.escaped e')) u
  | note {e e' : ε} {d : σ} {t u v : S} (hfails : r.Fails i s e t)
      (hbackoff : r.backoff i r.attempts t = (.ok d, u)) (hnote : r.note i e d u = (.error e', v)) :
      Closes r i s [.attempt, .note i e d] (.error (.escaped e')) v
  | pause {e e' : ε} {d : σ} {t u v w : S} (hfails : r.Fails i s e t)
      (hbackoff : r.backoff i r.attempts t = (.ok d, u)) (hnote : r.note i e d u = (.ok (), v))
      (hpause : r.pause d v = (.error e', w)) :
      Closes r i s [.attempt, .note i e d, .pause d] (.error (.escaped e')) w

variable {r : Retry S ε σ α} {i : Nat} {s t u v : S} {e e' : ε} {d : σ} {rounds : List (ε × σ)}
  {last : List (Call ε σ)} {x : Except (Stop ε) α}

/-- An attempt makes a round or closes the loop. -/
theorem round_or_closes (hi : i ≤ r.attempts) (s : S) :
    (∃ e d t, r.Round i s e d t) ∨ ∃ last x u, r.Closes i s last x u := by
  rcases hcall : r.call i s with ⟨e | a, t⟩
  · cases he : r.retryable e with
    | false => exact .inr ⟨_, _, _, .refused hcall he⟩
    | true =>
      rcases Nat.lt_or_eq_of_le hi with hlt | heq
      · have hfails : r.Fails i s e t := ⟨hcall, he, hlt⟩
        rcases hbackoff : r.backoff i r.attempts t with ⟨e' | d, u⟩
        · exact .inr ⟨_, _, _, .backoff hfails hbackoff⟩
        · rcases hnote : r.note i e d u with ⟨e' | ⟨⟩, v⟩
          · exact .inr ⟨_, _, _, .note hfails hbackoff hnote⟩
          · rcases hpause : r.pause d v with ⟨e' | ⟨⟩, w⟩
            · exact .inr ⟨_, _, _, .pause hfails hbackoff hnote hpause⟩
            · exact .inl ⟨e, d, w, .mk hfails hbackoff hnote hpause⟩
      · exact .inr ⟨_, _, _, .exhausted hcall he heq⟩
  · exact .inr ⟨_, _, _, .value hcall⟩

/-- From any attempt on, rounds are followed by an attempt that closes the loop, and it is one of those allowed. -/
theorem exists_rounds (hi : i ≤ r.attempts) (s : S) : ∃ rounds t last x u,
    r.Rounds i s rounds t ∧ i + rounds.length ≤ r.attempts ∧ r.Closes (i + rounds.length) t last x u := by
  -- by the number of attempts that are left, which every round lowers and without which none is made
  obtain ⟨k, hk⟩ := Nat.exists_eq_add_of_le hi
  induction k generalizing i s with
  | zero =>
    rcases round_or_closes hi s with ⟨e, d, t, ⟨hfails, -, -, -⟩⟩ | ⟨last, x, u, h⟩
    · exact absurd hfails.notLast (by omega)
    · exact ⟨[], s, last, x, u, .nil, hi, h⟩
  | succ k ih =>
    rcases round_or_closes hi s with ⟨e, d, t, h⟩ | ⟨last, x, u, h⟩
    · obtain ⟨rounds, t', last, x, u, hrounds, hlength, hcloses⟩ := ih (i := i + 1) (by omega) t (by omega)
      have hi : i + ((e, d) :: rounds).length = i + 1 + rounds.length := by
        rw [List.length_cons]
        omega
      exact ⟨(e, d) :: rounds, t', last, x, u, .cons h hrounds, hi ▸ hlength, hi ▸ hcloses⟩
    · exact ⟨[], s, last, x, u, .nil, hi, h⟩

/-! ### What the loop comes to -/

/-- An attempt that fails and may be made again is followed by a pause as soon as the delay is noted. -/
theorem Fails.step_of_noted (h : r.Fails i s e t) (hbackoff : r.backoff i r.attempts t = (.ok d, u))
    (hnote : r.note i e d u = (.ok (), v)) : r.step (.calling i) s = (.ok (.pausing i d), v) := by
  rw [step_calling_of_error h.call, afterFailure_of_repeated h.retryable (Nat.ne_of_lt h.notLast), hbackoff]
  dsimp only
  rw [hnote]

theorem Fails.step_of_not_noted (h : r.Fails i s e t) (hbackoff : r.backoff i r.attempts t = (.ok d, u))
    (hnote : r.note i e d u = (.error e', v)) : r.step (.calling i) s = (.error (.escaped e'), v) := by
  rw [step_calling_of_error h.call, afterFailure_of_repeated h.retryable (Nat.ne_of_lt h.notLast), hbackoff]
  dsimp only
  rw [hnote]

theorem Fails.step_of_no_backoff (h : r.Fails i s e t) (hbackoff : r.backoff i r.attempts t = (.error e', u)) :
    r.step (.calling i) s = (.error (.escaped e'), u) := by
  rw [step_calling_of_error h.call, afterFailure_of_repeated h.retryable (Nat.ne_of_lt h.notLast), hbackoff]

/-- A round leads from its attempt to the next one. -/
theorem Round.reaches (h : r.Round i t e d u) (ht : r.Reaches s (.calling i) t) : r.Reaches s (.calling (i + 1)) u := by
  obtain ⟨hfails, hbackoff, hnote, hpause⟩ := h
  exact (ht.step (hfails.step_of_noted hbackoff hnote)).step (step_pausing_of_ok hpause)

/-- Rounds that follow each other lead to the attempt after them. -/
theorem Rounds.reaches (h : r.Rounds i t rounds u) (ht : r.Reaches s (.calling i) t) :
    r.Reaches s (.calling (i + rounds.length)) u := by
  induction h with
  | nil => exact ht
  | @cons i _ _ _ _ _ rest hround _ ih =>
    rw [List.length_cons, Nat.add_comm rest.length, ← Nat.add_assoc]
    exact ih (hround.reaches ht)

/-- The attempt that closes the loop tells what the loop comes to. -/
theorem Closes.run (h : r.Closes i t last x u) (hn : 1 ≤ r.attempts) (ht : r.Reaches s (.calling i) t) :
    r.run s = (x, u) := by
  cases h with
  | value hcall => exact (ht.step (step_calling_of_ok hcall)).run_of_ended hn
  | refused hcall he =>
    exact ht.run_of_stop hn ((step_calling_of_error hcall).trans (afterFailure_of_not_retryable he))
  | exhausted hcall he hi =>
    subst hi
    exact ht.run_of_stop hn ((step_calling_of_error hcall).trans (afterFailure_of_last he))
  | backoff hfails hbackoff => exact ht.run_of_stop hn (hfails.step_of_no_backoff hbackoff)
  | note hfails hbackoff hnote => exact ht.run_of_stop hn (hfails.step_of_not_noted hbackoff hnote)
  | pause hfails hbackoff hnote hpause =>
    exact (ht.step (hfails.step_of_noted hbackoff hnote)).run_of_stop hn (step_pausing_of_error hpause)

/-- A loop comes to what the attempt that closes it comes to. -/
theorem Rounds.run (h : r.Rounds 1 s rounds t) (hn : 1 ≤ r.attempts)
    (hcloses : r.Closes (rounds.length + 1) t last x u) : r.run s = (x, u) :=
  hcloses.run hn (Nat.add_comm 1 rounds.length ▸ h.reaches .start)

/-- No attempt closes a loop for want of phases. -/
theorem Closes.ne_unreachable (h : r.Closes i s last x u) : x ≠ .error .unreachable := by
  cases h <;> simp

/-! ### What is written down -/

variable {l : List (Call ε σ)}

theorem Fails.observed (h : r.Fails i s e t) : r.observed.Fails i (s, l) e (t, l ++ [.attempt]) :=
  ⟨adding_run h.call l, h.retryable, h.notLast⟩

theorem Round.observed (h : r.Round i s e d t) :
    r.observed.Round i (s, l) e d (t, l ++ [.attempt, .note i e d, .pause d]) := by
  obtain ⟨hfails, hbackoff, hnote, hpause⟩ := h
  have hround : r.observed.Round i (s, l) e d (t, l ++ [.attempt] ++ [] ++ [.note i e d] ++ [.pause d]) :=
    .mk hfails.observed (adding_run hbackoff _) (adding_run hnote _) (adding_run hpause _)
  simpa using hround

/-- Rounds write down what their script says. -/
theorem Rounds.observed (h : r.Rounds i s rounds t) (l : List (Call ε σ)) :
    r.observed.Rounds i (s, l) rounds (t, l ++ script i rounds) := by
  induction h generalizing l with
  | nil =>
    rw [script, List.append_nil]
    exact .nil
  | @cons i _ _ _ e d _ hround _ ih =>
    have hrest := ih (l ++ [.attempt, .note i e d, .pause d])
    rw [List.append_assoc] at hrest
    exact .cons hround.observed hrest

/-- The attempt that closes the loop writes down its calls. -/
theorem Closes.observed (h : r.Closes i s last x t) : r.observed.Closes i (s, l) last x (t, l ++ last) := by
  cases h with
  | value hcall => exact .value (adding_run hcall l)
  | refused hcall he => exact .refused (adding_run hcall l) he
  | exhausted hcall he hi => exact .exhausted (adding_run hcall l) he hi
  | backoff hfails hbackoff =>
    have hcloses := Closes.backoff (hfails.observed (l := l)) (adding_run hbackoff _)
    simpa using hcloses
  | note hfails hbackoff hnote =>
    have hcloses := Closes.note (hfails.observed (l := l)) (adding_run hbackoff _) (adding_run hnote _)
    simpa using hcloses
  | pause hfails hbackoff hnote hpause =>
    have hcloses := Closes.pause (hfails.observed (l := l)) (adding_run hbackoff _) (adding_run hnote _)
      (adding_run hpause _)
    simpa using hcloses

/-- The calls of a loop are those of its rounds and those of the attempt that closes it. -/
theorem Rounds.calls (h : r.Rounds 1 s rounds t) (hn : 1 ≤ r.attempts)
    (hcloses : r.Closes (rounds.length + 1) t last x u) : r.calls s = script 1 rounds ++ last := by
  have hrun : r.observed.run (s, []) = (x, (u, [] ++ script 1 rounds ++ last)) :=
    (h.observed []).run hn hcloses.observed
  rw [Retry.calls, hrun, List.nil_append]

theorem script_concat (i : Nat) (rounds : List (ε × σ)) (e : ε) (d : σ) : script i (rounds ++ [(e, d)]) =
    script i rounds ++ [.attempt, .note (i + rounds.length) e d, .pause d] := by
  induction rounds generalizing i with
  | nil => rfl
  | cons round rest ih =>
    rw [List.cons_append, script, ih, script, List.length_cons, Nat.add_right_comm, Nat.add_assoc i]
    rfl

/-- The calls of the attempt that closes the loop are the first ones of a round. -/
theorem Closes.calls_prefix (h : r.Closes (i + rounds.length) s last x t) :
    ∃ more, script i rounds ++ last <+: script i (rounds ++ more) ++ [.attempt] := by
  have hround : ∀ e d, last <+: [.attempt, .note (i + rounds.length) e d, .pause d, .attempt] →
      ∃ more, script i rounds ++ last <+: script i (rounds ++ more) ++ [.attempt] := by
    intro e d hlast
    refine ⟨[(e, d)], ?_⟩
    rw [script_concat, List.append_assoc]
    exact (List.prefix_append_right_inj _).2 hlast
  have hattempt : ∃ more, script i rounds ++ [.attempt] <+: script i (rounds ++ more) ++ [.attempt] := ⟨[], by simp⟩
  cases h with
  | value | refused | exhausted | backoff => exact hattempt
  | @note e _ d => exact hround e d (by simp)
  | @pause e _ d => exact hround e d (by simp)

/-! ### The whole loop -/

/-- The loop with another number of attempts, where less than none are none. -/
def withAttempts (r : Retry S ε σ α) (n : Int) : Retry S ε σ α := { r with attempts := n.toNat }

/-- A loop without attempts calls nothing. Any other one makes rounds, fewer than its attempts, until an attempt closes it: it
comes to what that attempt comes to, and its calls are those of the rounds and of that attempt, so attempts, notes and pauses
take turns. It never runs out of phases. -/
theorem run_calls (r : Retry S ε σ α) (n : Int) (s : S) :
    (n < 1 → (r.withAttempts n).run s = (.error .noAttempts, s) ∧ (r.withAttempts n).calls s = []) ∧
    (1 ≤ n → ∃ rounds t last x u,
      (r.withAttempts n).Rounds 1 s rounds t ∧ rounds.length < n ∧
      (r.withAttempts n).Closes (rounds.length + 1) t last x u ∧
      (r.withAttempts n).run s = (x, u) ∧ x ≠ .error .unreachable ∧
      (r.withAttempts n).calls s = script 1 rounds ++ last ∧
      ∃ more, (r.withAttempts n).calls s <+: script 1 (rounds ++ more) ++ [.attempt]) := by
  constructor
  · intro hn
    have hnone : (r.withAttempts n).attempts < 1 := by
      show n.toNat < 1
      omega
    refine ⟨run_of_no_attempts hnone, ?_⟩
    rw [calls, run_of_no_attempts (r := (r.withAttempts n).observed) hnone]
  · intro hn
    have hsome : 1 ≤ (r.withAttempts n).attempts := by
      show 1 ≤ n.toNat
      omega
    obtain ⟨rounds, t, last, x, u, hrounds, hlength, hcloses⟩ := exists_rounds hsome s
    have hlt : rounds.length < n := by
      have : 1 + rounds.length ≤ n.toNat := hlength
      omega
    obtain ⟨more, hmore⟩ := hcloses.calls_prefix
    rw [Nat.add_comm] at hcloses
    have hcalls := hrounds.calls hsome hcloses
    exact ⟨rounds, t, last, x, u, hrounds, hlt, hcloses, hrounds.run hsome hcloses, hcloses.ne_unreachable, hcalls, more,
      hcalls ▸ hmore⟩

/-- A loop that reads what its attempts come to off a list, and that is made again where they were busy. -/
def answering : Retry (List (Except String Nat)) String Nat Nat where
  attempts := 1
  call _ := fun answers =>
    match answers with
    | [] => (.error "silent", [])
    | answer :: rest => (answer, rest)
  retryable e := e = "busy"
  backoff i n := return n - i
  note _ _ _ := return
  pause _ := return

theorem run_calls_answering :
    ((-2 : Int) < 1 ∧ (answering.withAttempts (-2)).run [.ok 7] = (.error .noAttempts, [.ok 7]) ∧
      (answering.withAttempts (-2)).calls [.ok 7] = []) ∧
    (1 : Int) ≤ 4 ∧ ∃ rounds t last x u,
      (answering.withAttempts 4).Rounds 1 [.error "busy", .error "busy", .ok 7] rounds t ∧ rounds.length < (4 : Int) ∧
      (answering.withAttempts 4).Closes (rounds.length + 1) t last x u ∧
      (answering.withAttempts 4).run [.error "busy", .error "busy", .ok 7] = (x, u) ∧ x ≠ .error .unreachable ∧
      (answering.withAttempts 4).calls [.error "busy", .error "busy", .ok 7] = script 1 rounds ++ last ∧
      ∃ more, (answering.withAttempts 4).calls [.error "busy", .error "busy", .ok 7] <+:
        script 1 (rounds ++ more) ++ [.attempt] :=
  ⟨⟨by decide, (run_calls answering (-2) [.ok 7]).1 (by decide)⟩,
    by decide, (run_calls answering 4 [.error "busy", .error "busy", .ok 7]).2 (by decide)⟩

/-- Two rounds, and the attempt that brings the value. -/
example : (answering.withAttempts 4).calls [.error "busy", .error "busy", .ok 7] =
    script 1 [("busy", 3), ("busy", 2)] ++ [.attempt] := by decide

end Adjudication.Retry
