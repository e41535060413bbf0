import Adjudication.Time.Timeline

/-!
Tokens that nothing cancels: neither the token nor one of its ancestors has its flag set, a deadline, or a
cancellation to come. Such a token never counts as cancelled. Moving the clock and waiting keep it so, whatever the
type of numbers that time is counted in, and a child of such a token is such a token.
-/

namespace Adjudication.Time.Timeline

open Seconds (add)

variable {σ : Type} {t u : Timeline σ} {id : TokenId}

/-! ### Ancestors -/

/-- Ancestors are told by parents alone. -/
theorem lineage_congr (h : ∀ i : TokenId, (t.tokens[i]?).map Token.parent = (u.tokens[i]?).map Token.parent) :
    ∀ (fuel : Nat) (id : TokenId), t.lineage fuel id = u.lineage fuel id
  | 0, _ => rfl
  | fuel + 1, id => by
    have hid := h id
    simp only [lineage]
    cases ht : t.tokens[id]? with
    | none =>
      cases hu : u.tokens[id]? with
      | none => rfl
      | some b => simp [ht, hu] at hid
    | some a =>
      cases hu : u.tokens[id]? with
      | none => simp [ht, hu] at hid
      | some b =>
        have hp : a.parent = b.parent := by simpa [ht, hu] using hid
        simp only [hp]
        cases b.parent with
        | none => rfl
        | some parent => simp only [lineage_congr h fuel parent]

theorem chain_congr (hlen : t.tokens.length = u.tokens.length)
    (h : ∀ i : TokenId, (t.tokens[i]?).map Token.parent = (u.tokens[i]?).map Token.parent) (id : TokenId) :
    t.chain id = u.chain id := by
  rw [chain, chain, hlen, lineage_congr h]

/-- A token and its ancestors are there. -/
theorem lt_of_mem_lineage : ∀ {fuel : Nat} {id i : TokenId}, i ∈ t.lineage fuel id → (i : Nat) < t.tokens.length
  | 0, _, _, hi => by simp [lineage] at hi
  | fuel + 1, id, i, hi => by
    rw [lineage] at hi
    split at hi
    next => simp at hi
    next token htoken =>
      have hid : (id : Nat) < t.tokens.length := (List.getElem?_eq_some_iff.1 htoken).1
      split at hi
      next =>
        obtain rfl : i = id := by simpa using hi
        exact hid
      next =>
        rcases List.mem_cons.1 hi with rfl | hi
        · exact hid
        · exact lt_of_mem_lineage hi

theorem lt_of_mem_chain {other : TokenId} (h : id ∈ t.chain other) : (id : Nat) < t.tokens.length := lt_of_mem_lineage h

theorem getElem?_cancel (t : Timeline σ) (id i : TokenId) :
    (t.cancel id).tokens[i]? =
      if id = i then (t.tokens[i]?).map fun token => { token with flagged := true } else t.tokens[i]? := by
  simp only [cancel, List.getElem?_modify]
  split
  · simp
  · cases t.tokens[i]? <;> simp

theorem chain_cancel (t : Timeline σ) (other id : TokenId) : (t.cancel other).chain id = t.chain id := by
  refine chain_congr (by simp [cancel]) (fun i => ?_) id
  rw [getElem?_cancel]
  split
  next => cases t.tokens[i]? <;> rfl
  next => rfl

/-! ### Tokens that nothing cancels -/

/-- Nothing cancels a token. -/
def Calm (t : Timeline σ) (id : TokenId) : Prop :=
  ∀ i ∈ t.chain id, (∀ token, t.tokens[i]? = some token → token.flagged = false ∧ token.deadline = none) ∧
    ∀ e ∈ t.scheduled, e.2 ≠ i

instance (t : Timeline σ) (id : TokenId) : Decidable (t.Calm id) :=
  decidable_of_iff (∀ i ∈ t.chain id, ((t.tokens[i]?).all fun token => !token.flagged && token.deadline.isNone) = true ∧
    ∀ e ∈ t.scheduled, e.2 ≠ i) (by simp [Calm, Option.all_eq_true])

theorem Calm.of_tokens_eq (h : t.Calm id) (htokens : u.tokens = t.tokens) (hs : ∀ e ∈ u.scheduled, e ∈ t.scheduled) :
    u.Calm id := by
  have hchain : u.chain id = t.chain id := chain_congr (by rw [htokens]) (fun i => by rw [htokens]) id
  intro i hi
  rw [hchain] at hi
  exact ⟨fun token htoken => (h i hi).1 token (by rw [← htokens]; exact htoken), fun e he => (h i hi).2 e (hs e he)⟩

/-- The cancellation of another token that is no ancestor leaves a token alone. -/
theorem Calm.cancel (h : t.Calm id) {other : TokenId} (ho : other ∉ t.chain id) : (t.cancel other).Calm id := by
  intro i hi
  rw [chain_cancel] at hi
  have hne : other ≠ i := fun he => ho (he ▸ hi)
  refine ⟨fun token htoken => ?_, (h i hi).2⟩
  rw [getElem?_cancel, if_neg hne] at htoken
  exact (h i hi).1 token htoken

variable [Seconds σ]

/-- Asking about tokens that are not cancelled changes nothing. -/
theorem anyCancelled_of_fst : ∀ {ids : List TokenId}, (t.anyCancelled ids).1 = false → t.anyCancelled ids = (false, t)
  | [], _ => rfl
  | id :: rest, h => by
    rw [anyCancelled] at h ⊢
    split
    next htoken =>
      rw [htoken] at h
      exact anyCancelled_of_fst h
    next token htoken =>
      rw [htoken] at h
      dsimp only at h ⊢
      split
      next hflag => simp [hflag] at h
      next hflag =>
        rw [if_neg hflag] at h
        split
        next hreached => simp [hreached] at h
        next hreached =>
          rw [if_neg hreached] at h
          exact anyCancelled_of_fst h

theorem isCancelled_of_fst (h : (t.isCancelled id).1 = false) : t.isCancelled id = (false, t) := anyCancelled_of_fst h

theorem anyCancelled_of_calm : ∀ {ids : List TokenId},
    (∀ i ∈ ids, ∀ token, t.tokens[i]? = some token → token.flagged = false ∧ token.deadline = none) →
    t.anyCancelled ids = (false, t)
  | [], _ => rfl
  | i :: rest, h => by
    have hrest : t.anyCancelled rest = (false, t) := anyCancelled_of_calm fun j hj => h j (.tail _ hj)
    cases htoken : t.tokens[i]? with
    | none => simp only [anyCancelled, htoken, hrest]
    | some token =>
      obtain ⟨hflag, hdeadline⟩ := h i (.head _) token htoken
      simp [anyCancelled, htoken, hflag, hdeadline, reached, hrest]

/-- A token that nothing cancels is not cancelled, and asking changes nothing. -/
theorem isCancelled_of_calm (h : t.Calm id) : t.isCancelled id = (false, t) :=
  anyCancelled_of_calm fun i hi => (h i hi).1

/-- The entry that is split off and the entries without it are all the entries that there have been. -/
theorem perm_of_splitDue {goal : σ} : ∀ {entries rest : List (σ × TokenId)} {e : σ × TokenId},
    splitDue goal entries = some (e, rest) → entries.Perm (e :: rest)
  | [], _, _, h => by simp [splitDue] at h
  | entry :: entries, rest, e, h => by
    simp only [splitDue] at h
    split at h
    next other others hsplit =>
      split at h
      · obtain ⟨rfl, rfl⟩ : entry = e ∧ entries = rest := by simpa using h
        exact .refl _
      · obtain ⟨rfl, rfl⟩ : other = e ∧ entry :: others = rest := by simpa using h
        exact ((perm_of_splitDue hsplit).cons entry).trans (.swap other entry others)
    next =>
      split at h
      · obtain ⟨rfl, rfl⟩ : entry = e ∧ entries = rest := by simpa using h
        exact .refl _
      · simp at h

theorem mem_of_splitDue {goal : σ} {entries rest : List (σ × TokenId)} {e : σ × TokenId}
    (h : splitDue goal entries = some (e, rest)) : e ∈ entries ∧ ∀ x ∈ rest, x ∈ entries :=
  ⟨(perm_of_splitDue h).mem_iff.2 (.head _), fun _ hx => (perm_of_splitDue h).mem_iff.2 (.tail _ hx)⟩

/-- Moving the clock sets off the cancellations of other tokens only. -/
theorem Calm.moveTo (target : σ) (waiting : Option TokenId) : ∀ (fuel : Nat) {t : Timeline σ}, t.Calm id →
    (t.moveTo target waiting fuel).Calm id
  | 0, t, h => h.of_tokens_eq rfl fun e he => he
  | fuel + 1, t, h => by
    simp only [Timeline.moveTo]
    split
    next => exact h.of_tokens_eq rfl fun e he => he
    next instant other rest hsplit =>
      obtain ⟨hmem, hsub⟩ := mem_of_splitDue hsplit
      have hother : other ∉ t.chain id := fun hi => (h other hi).2 _ hmem rfl
      have hmoved : ({ t with now := Seconds.larger t.now instant, scheduled := rest } : Timeline σ).Calm id :=
        h.of_tokens_eq rfl hsub
      have hchain : ({ t with now := Seconds.larger t.now instant, scheduled := rest } : Timeline σ).chain id =
          t.chain id :=
        chain_congr (t := { t with now := Seconds.larger t.now instant, scheduled := rest }) (u := t) rfl
          (fun _ => rfl) id
      have hcancelled := hmoved.cancel (hchain ▸ hother)
      split
      · exact hcancelled
      · exact hcancelled.moveTo target waiting fuel

theorem Calm.advance (h : t.Calm id) (seconds : σ) : (t.advance seconds).Calm id := h.moveTo _ _ _

/-- A round of a wait on a token that nothing cancels never ends it by a cancellation. -/
theorem Calm.waitRound (h : t.Calm id) (goal : σ) :
    Timeline.waitRound id goal t = .done false t ∨ ∃ slice u, Timeline.waitRound id goal t = .again slice u ∧ u.Calm id := by
  simp only [Timeline.waitRound, isCancelled_of_calm h, Bool.false_eq_true, if_false]
  split
  · exact .inl rfl
  · exact .inr ⟨_, _, rfl, h.moveTo _ _ _⟩

theorem Calm.waitRounds (goal : σ) : ∀ (patience : Nat) {t u : Timeline σ} {b : Bool}, t.Calm id →
    Timeline.waitRounds id goal patience t = some (b, u) → b = false ∧ u.Calm id
  | 0, _, _, _, _, hw => by simp [Timeline.waitRounds] at hw
  | patience + 1, t, u, b, h, hw => by
    rcases h.waitRound goal with hround | ⟨slice, v, hround, hv⟩
    · obtain ⟨rfl, rfl⟩ : false = b ∧ t = u := by simpa [Timeline.waitRounds, hround] using hw
      exact ⟨rfl, h⟩
    · exact hv.waitRounds goal patience (by simpa [Timeline.waitRounds, hround] using hw)

/-- A wait on a token that nothing cancels lasts to its end. -/
theorem Calm.wait (h : t.Calm id) {patience : Nat} {seconds : σ} {b : Bool}
    (hw : t.wait patience id seconds = some (b, u)) : b = false ∧ u.Calm id :=
  h.waitRounds _ patience hw

/-! ### Children -/

/-- Parents are older than their children. -/
def Forest (t : Timeline σ) : Prop :=
  ∀ (i parent : Nat) (token : Token σ), t.tokens[i]? = some token → token.parent = some parent → parent < i

/-- A new token leaves the ancestors of an older one as they are. -/
theorem lineage_addToken (h : t.Forest) (deadline : Option σ) (parent : Option TokenId) :
    ∀ (fuel id : Nat), id < t.tokens.length →
      (t.addToken deadline parent).2.lineage fuel id = t.lineage fuel id
  | 0, _, _ => rfl
  | fuel + 1, id, hid => by
    have hget : (t.addToken deadline parent).2.tokens[id]? = some t.tokens[id] := by
      simp only [addToken, List.getElem?_append_left hid, List.getElem?_eq_getElem hid]
    simp only [lineage, hget, List.getElem?_eq_getElem hid]
    cases hparent : t.tokens[id].parent with
    | none => rfl
    | some older =>
      have := h id older _ (List.getElem?_eq_getElem hid) hparent
      simp only [lineage_addToken h deadline parent fuel older (Nat.lt_trans this hid)]

omit [Seconds σ] in
/-- Where parents are older than their children, more fuel finds no more ancestors. -/
theorem lineage_of_le (h : t.Forest) : ∀ {fuel more : Nat} {id : Nat}, id < fuel → fuel ≤ more →
    t.lineage more id = t.lineage fuel id
  | fuel + 1, more + 1, id, hid, hle => by
    rw [lineage, lineage]
    cases htoken : t.tokens[id]? with
    | none => rfl
    | some token =>
      dsimp only
      cases hparent : token.parent with
      | none => rfl
      | some parent =>
        have hlt : parent < fuel := Nat.lt_of_lt_of_le (h id parent token htoken hparent) (Nat.lt_succ_iff.1 hid)
        dsimp only
        rw [lineage_of_le h hlt (Nat.le_of_succ_le_succ hle)]

/-- A new token leaves the chains of older ones as they are. -/
theorem chain_addToken (h : t.Forest) (deadline : Option σ) (parent : Option TokenId) {id : Nat}
    (hid : id < t.tokens.length) : (t.addToken deadline parent).2.chain id = t.chain id := by
  have hlength : (t.addToken deadline parent).2.tokens.length = t.tokens.length + 1 := by simp [addToken]
  rw [chain, hlength, lineage_addToken h deadline parent _ id hid, lineage_of_le h hid (Nat.le_succ _), chain]

/-- A new child comes before its parent and that one's ancestors. -/
theorem chain_child (h : t.Forest) {id : Nat} (hid : id < t.tokens.length) :
    (t.addToken none (some id)).2.chain t.tokens.length = t.tokens.length :: t.chain id := by
  have hlen : (t.addToken none (some id)).2.tokens.length = t.tokens.length + 1 := by simp [addToken]
  have hget : (t.addToken none (some id)).2.tokens[t.tokens.length]? = some ⟨false, none, some id⟩ := by
    simp [addToken]
  rw [chain, hlen, lineage, hget]
  simp only [lineage_addToken h none (some id) _ id hid, chain]

/-- A child of a token that nothing cancels is such a token. -/
theorem Calm.child {id : Nat} (h : t.Calm id) (hf : t.Forest) (hid : id < t.tokens.length)
    (hs : ∀ e ∈ t.scheduled, e.2 < t.tokens.length) : (t.addToken none (some id)).2.Calm t.tokens.length := by
  intro i hi
  rw [chain_child hf hid] at hi
  rcases List.mem_cons.1 hi with rfl | hi
  · refine ⟨fun token htoken => ?_, fun e he => Nat.ne_of_lt (hs e he)⟩
    obtain rfl : ⟨false, none, some id⟩ = token := by simpa [addToken] using htoken
    exact ⟨rfl, rfl⟩
  · have hlt := lt_of_mem_chain hi
    refine ⟨fun token htoken => (h i hi).1 token ?_, (h i hi).2⟩
    simpa [addToken, List.getElem?_append_left hlt] using htoken

end Adjudication.Time.Timeline
