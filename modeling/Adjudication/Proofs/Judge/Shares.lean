import Adjudication.Proofs.Judge.Replies

/-!
Who was asked for what. While findings are judged, one after the other or side by side, everything that is done is done for one
of them, and every request is about the finding that it is sent for. So what is done is dealt out to the findings, and each of
their outcomes is told by the replies to its own requests, whatever comes back on those of others in between.
-/

namespace Adjudication

open Time (TokenId)

variable {S T σ ε α : Type}

/-! ### What a pool collects -/

namespace Pool

variable {w : Work S T ε α}

/-- The values that a pool has collected are those that its first tasks have come to. -/
def Gathers (w : Work S T ε α) (p : Pool T ε α) : Prop :=
  ∀ (i : Nat) (a : α), p.collected[i]? = some a → p.resultOf w i = some (.ok a)

theorem Step.gathers {x y : Pool T ε α × S} (h : Step w x y) (hx : Gathers w x.1) : Gathers w y.1 := by
  cases h with
  | work _ ht hr => exact fun i a ha => resultOf_work ht hr (hx i a ha)
  | take _ _ _ => exact hx
  | @collect p s t a _ _ ht hr =>
    intro i b hb
    have hb : (p.collected ++ [a])[i]? = some b := hb
    rw [List.getElem?_append] at hb
    split at hb
    · exact hx i b hb
    · obtain ⟨hi, rfl⟩ := List.getElem?_eq_some_iff.1 hb
      obtain rfl : i = p.collected.length := by
        rw [List.length_singleton] at hi
        omega
      exact resultOf_eq_some.2 ⟨t, ht, by simpa using hr⟩
  | fail _ _ _ _ => exact hx

theorem gathers_of_steps {ts : List T} {s : S} {workers : Nat} {x : Pool T ε α × S}
    (h : Relation.ReflTransGen (Step w) (ofTasks workers ts, s) x) : Gathers w x.1 := by
  induction h with
  | refl => exact fun i a ha => by simp [ofTasks] at ha
  | tail _ hstep ih => exact hstep.gathers ih

/-- A pool that comes to values has made its tasks come to them, without any stop. -/
theorem reaches_of_outcome {ts : List T} {s : S} {workers : Nat} {x : Pool T ε α × S} {as : List α}
    (h : Relation.ReflTransGen (Step w) (ofTasks workers ts, s) x) (hok : x.1.outcome = .ok as) :
    w.Reaches (ts, s) (x.1.tasks, x.2) ∧ ∀ (i : Nat) (a : α), as[i]? = some a → x.1.resultOf w i = some (.ok a) := by
  have hkeeps := keeps_of_steps (R := fun _ _ => True) (fun _ _ _ _ _ _ _ => trivial) h
  rw [outcome] at hok
  split at hok
  · cases hok
  next hnone =>
    obtain rfl := Except.ok.inj hok
    exact ⟨hkeeps.reaches hnone, gathers_of_steps h⟩

end Pool

namespace Judge

variable [Time.Seconds σ] {c : Client σ} {code : String} {token : TokenId} {fs : List Finding} {s t : Scene σ}

/-! ### Outcomes of tasks -/

/-- Tasks that have come to outcomes. -/
def Come (ts : List (Task σ)) (outcomes : List Outcome) : Prop :=
  ∀ (i : Nat) (o : Outcome), outcomes[i]? = some o → ∃ task, ts[i]? = some task ∧ task.progress = .ended (.ok o)

/-- One after the other, findings whose tasks stand behind others come to their outcomes as tasks may. -/
theorem reaches_mapM_judgeOne : ∀ {fs : List Finding} {s t : Scene σ} {outcomes : List Outcome} (before : List (Task σ)),
    fs.mapM (judgeOne c code token) s = (.ok outcomes, t) → ∃ ended, Come ended outcomes ∧
      (poolWork c code token).Reaches (before ++ fs.map Task.ofFinding, s) (before ++ ended, t)
  | [], s, t, outcomes, before, h => by
    obtain ⟨rfl, rfl⟩ := Act.ok_eq_ok.1 h
    exact ⟨[], fun i o ho => by simp at ho, .refl⟩
  | f :: fs, s, t, outcomes, before, h => by
    rcases hone : judgeOne c code token f s with ⟨e | o, u⟩
    · rw [Act.mapM_cons_of_error hone] at h
      exact absurd h Act.error_ne_ok
    rw [Act.mapM_cons_of_ok hone] at h
    rcases hrest : fs.mapM (judgeOne c code token) u with ⟨e | os, v⟩
    · rw [hrest] at h
      exact absurd h Act.error_ne_ok
    rw [hrest] at h
    obtain ⟨rfl, rfl⟩ := Act.ok_eq_ok.1 h
    obtain ⟨ended, hcome, hreaches⟩ := reaches_mapM_judgeOne (before ++ [⟨f, .ended (.ok o)⟩]) hrest
    refine ⟨⟨f, .ended (.ok o)⟩ :: ended, ?_, ?_⟩
    · rintro (_ | i) o' ho
      · obtain rfl : o = o' := by simpa using ho
        exact ⟨_, rfl, rfl⟩
      · exact hcome i o' (by simpa using ho)
    · have hget : (before ++ (f :: fs).map Task.ofFinding)[before.length]? = some (Task.ofFinding f) := by simp
      have hfirst : (poolWork c code token).Reaches (before ++ (f :: fs).map Task.ofFinding, s)
          ((before ++ (f :: fs).map Task.ofFinding).set before.length ⟨f, .ended (judgeOne c code token f s).1⟩,
            (judgeOne c code token f s).2) := reaches_judgeOne hget
      rw [hone, List.set_append_right _ _ (Nat.le_refl _), Nat.sub_self] at hfirst
      rw [List.append_assoc, List.append_assoc] at hreaches
      exact hfirst.trans hreaches

/-- Outcomes that judging comes to are those of tasks that go on one by one. -/
theorem reaches_of_judgeAll {workers : Nat} {outcomes : List Outcome}
    (h : judgeAll c workers code token fs s = (.ok outcomes, t)) :
    ∃ ts, Come ts outcomes ∧ (poolWork c code (scope workers token fs s).1).Reaches
      (fs.map Task.ofFinding, (scope workers token fs s).2) (ts, t) := by
  rw [judgeAll] at h
  rw [scope]
  split at h
  next hone =>
    rw [if_pos hone]
    obtain ⟨ended, hcome, hreaches⟩ := reaches_mapM_judgeOne [] h
    exact ⟨ended, hcome, hreaches⟩
  next hmany =>
    rw [if_neg hmany]
    rw [judgeInPool_run] at h
    obtain ⟨hok, rfl⟩ := Prod.ext_iff.1 h
    obtain ⟨hreaches, hresults⟩ := Pool.reaches_of_outcome (steps_pooled c workers code token fs s) hok
    refine ⟨_, fun i o ho => ?_, hreaches⟩
    obtain ⟨task, htask, hresult⟩ := Pool.resultOf_eq_some.1 (hresults i o ho)
    exact ⟨task, htask, Task.result?_eq_some.1 hresult⟩

/-! ### Shares -/

omit [Time.Seconds σ] in
/-- What was done for the finding at an index, of what was done for one each. -/
def share (i : Nat) (dealt : List (Nat × Event σ)) : List (Event σ) := (dealt.filter fun d => d.1 = i).map Prod.snd

/-- What is done is dealt out to findings: each thing is done for one of them, and a request is about that one. -/
def Dealt (c : Client σ) (code : String) (fs : List Finding) (dealt : List (Nat × Event σ)) : Prop :=
  ∀ d ∈ dealt, ∃ f, fs[d.1]? = some f ∧ d.2.Asks (.about c.config f code)

omit [Time.Seconds σ] in
theorem share_append (i : Nat) (dealt later : List (Nat × Event σ)) :
    share i (dealt ++ later) = share i dealt ++ share i later := by
  simp [share]

omit [Time.Seconds σ] in
theorem share_self (i : Nat) (events : List (Event σ)) : share i (events.map (i, ·)) = events := by
  simp [share, List.filter_map, Function.comp_def]

omit [Time.Seconds σ] in
theorem share_of_ne {i j : Nat} (h : j ≠ i) (events : List (Event σ)) : share i (events.map (j, ·)) = [] := by
  simp [share, List.filter_map, Function.comp_def, h]

/-- Whatever the order in which tasks go on, what is done is dealt out to their findings, and each task is told by the replies
to its own requests. -/
theorem dealt_of_reaches {ts : List (Task σ)} (h : (poolWork c code token).Reaches (fs.map Task.ofFinding, s) (ts, t)) :
    ∃ dealt, t.trace = s.trace ++ dealt.map Prod.snd ∧ Dealt c code fs dealt ∧
      ∀ (i : Nat) (task : Task σ), ts[i]? = some task →
        fs[i]? = some task.finding ∧ task.Backed c.levels (replies (share i dealt)) := by
  suffices hx : ∀ x : List (Task σ) × Scene σ,
      Relation.ReflTransGen (poolWork c code token).Turn (fs.map Task.ofFinding, s) x →
      ∃ dealt, x.2.trace = s.trace ++ dealt.map Prod.snd ∧ Dealt c code fs dealt ∧
        ∀ (i : Nat) (task : Task σ), x.1[i]? = some task →
          fs[i]? = some task.finding ∧ task.Backed c.levels (replies (share i dealt)) from hx _ h
  intro x hx
  induction hx with
  | refl =>
    refine ⟨[], (List.append_nil _).symm, fun _ hd => absurd hd List.not_mem_nil, fun i task htask => ?_⟩
    rw [List.getElem?_map] at htask
    obtain ⟨f, hf, rfl⟩ := Option.map_eq_some_iff.1 htask
    exact ⟨hf, rfl⟩
  | tail _ hturn ih =>
    obtain ⟨dealt, htrace, hdealt, htold⟩ := ih
    cases hturn with
    | @mk us u j task htask hnone =>
      obtain ⟨hfinding, hbacked⟩ := htold j task htask
      obtain ⟨rs, ⟨events, htrace', hasks, hheard⟩, hbacked'⟩ :=
        hbacked.step code token u
      -- What this step does is done for the finding of the task, and goes to its share alone.
      refine ⟨dealt ++ events.map (j, ·), ?_, ?_, fun i other hother => ?_⟩
      · have htrace' : ((poolWork c code token).step task u).2.trace = u.trace ++ events := htrace'
        rw [htrace', htrace, List.map_append, List.map_map, List.append_assoc]
        simp [Function.comp_def]
      · intro d hd
        rcases List.mem_append.1 hd with hd | hd
        · exact hdealt d hd
        · obtain ⟨e, he, rfl⟩ := List.mem_map.1 hd
          exact ⟨_, hfinding, hasks e he⟩
      · rw [share_append]
        by_cases hij : j = i
        · subst hij
          have hj : j < us.length := (List.getElem?_eq_some_iff.1 htask).1
          rw [List.getElem?_set_self hj] at hother
          obtain rfl := Option.some.inj hother
          refine ⟨hfinding.trans (congrArg some (Task.finding_step task u).symm), ?_⟩
          rw [share_self, replies, List.foldl_append]
          have hheard : events.foldl heard (replies (share j dealt)) = rs := hheard
          rw [← replies, hheard]
          exact hbacked'
        · rw [List.getElem?_set_ne hij] at hother
          rw [share_of_ne hij, List.append_nil]
          exact htold i other hother

/-- Outcomes that judging comes to, however many workers there are: what is done is dealt out to the findings, and each outcome
is told by the replies to the requests about its finding. -/
theorem dealt_of_judgeAll {workers : Nat} {outcomes : List Outcome}
    (h : judgeAll c workers code token fs s = (.ok outcomes, t)) :
    ∃ dealt, t.trace = s.trace ++ dealt.map Prod.snd ∧ Dealt c code fs dealt ∧
      ∀ (i : Nat) (o : Outcome), outcomes[i]? = some o → ∃ f r, fs[i]? = some f ∧
        Backed c.levels (replies (share i dealt)) r ∧ outcomeOf f r = .ok o := by
  obtain ⟨ts, hcome, hreaches⟩ := reaches_of_judgeAll h
  obtain ⟨dealt, htrace, hdealt, htold⟩ := dealt_of_reaches hreaches
  have hscope : (scope workers token fs s).2.trace = s.trace := by
    rw [scope]
    split <;> rfl
  refine ⟨dealt, htrace.trans (by rw [hscope]), hdealt, fun i o ho => ?_⟩
  obtain ⟨⟨f, progress⟩, htask, rfl⟩ := hcome i o ho
  obtain ⟨hf, r, hbacked, hr⟩ := htold i _ htask
  exact ⟨f, r, hf, hbacked, hr.symm⟩

end Judge
end Adjudication
