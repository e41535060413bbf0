import Adjudication.Proofs.Act
import Adjudication.Proofs.Scene
import Adjudication.Proofs.Time.Accounted

/-!
What tokens answer over a run of operations. A registry keeps what has been done to tokens and nothing of what has been
asked: how each was made, which have been cancelled, and the time. Looking at a token sets flags, yet whatever is asked,
and however often, the answers are those that the registry gives.
-/

namespace Adjudication.Time

open Seconds (Linear add sub le lt larger)

variable {σ : Type}

/-! ### Operations -/

/-- What is done with tokens and with the clock that they live by. -/
inductive Operation (σ : Type) where
  | make (deadline : Option σ) (parent : Option TokenId)
  | cancel (id : TokenId)
  | look (id : TokenId)
  | remain (id : TokenId)
  | heed (id : TokenId)
  | pass (seconds : σ)
  deriving DecidableEq, Repr

/-- What an operation gives. -/
inductive Answer (σ : Type) where
  | made (id : TokenId)
  | done
  | told (cancelled : Bool)
  | left (time : Option σ)
  deriving DecidableEq, Repr

namespace Operation

/-- The token that an operation asks about. All it may leave behind are the flags of tokens whose deadlines have been
reached. -/
def asks? : Operation σ → Option TokenId
  | look id | remain id | heed id => some id
  | make _ _ | cancel _ | pass _ => none

/-- What of a run is done and not asked. -/
def acts (ops : List (Operation σ)) : List (Operation σ) := ops.filter fun op => op.asks?.isNone

variable [Seconds σ]

def perform : Operation σ → Run σ (Answer σ)
  | make deadline parent => return .made (← Run.newToken deadline parent)
  | cancel id => do Run.cancel id; return .done
  | look id => return .told (← Run.isCancelled id)
  | remain id => return .left (← Run.remaining (some id))
  | heed id => do Run.heed (some id); return .done
  | pass seconds => do Run.advance seconds; return .done

/-- The scene after a run of operations, also where one of them has ended with a failure. -/
abbrev performed (ops : List (Operation σ)) (s : Scene σ) : Scene σ := Act.after perform ops s

/-- What an operation gives after a run. -/
def answer (op : Operation σ) (s : Scene σ) : Except Failure (Answer σ) := (op.perform s).1

end Operation

/-! ### The registry -/

/-- The time, how each token was made, by its deadline and its parent, and which tokens have been cancelled. -/
structure Registry (σ : Type) where
  now : σ
  made : List (Option σ × Option TokenId)
  cancelled : List TokenId

namespace Registry

/-- A token and its ancestors. -/
inductive Above (r : Registry σ) : TokenId → TokenId → Prop where
  | self {id : TokenId} (h : (id : Nat) < r.made.length) : r.Above id id
  | parent {id parent i : TokenId} {deadline : Option σ} (h : r.made[id]? = some (deadline, some parent))
      (hi : r.Above parent i) : r.Above id i

/-- A token has a deadline. -/
def Ends (r : Registry σ) (i : TokenId) (d : σ) : Prop := ∃ parent, r.made[i]? = some (some d, parent)

variable [Seconds σ]

/-- A token or one of its ancestors has been cancelled, or its deadline has been reached. -/
def Cancelled (r : Registry σ) (id : TokenId) : Prop :=
  ∃ i, r.Above id i ∧ (i ∈ r.cancelled ∨ ∃ d, r.Ends i d ∧ le d r.now = true)

/-- The time until a deadline, nothing if it has been reached. -/
def left (r : Registry σ) (d : σ) : σ := larger Seconds.zero (sub d r.now)

/-- The least time that is left until a deadline of a token or of an ancestor. -/
def Remaining (r : Registry σ) (id : TokenId) : Option σ → Prop
  | none => ∀ i, r.Above id i → ∀ d, ¬r.Ends i d
  | some time => (∃ i d, r.Above id i ∧ r.Ends i d ∧ time = r.left d) ∧
      ∀ i d, r.Above id i → r.Ends i d → le time (r.left d) = true

/-- What an operation adds. -/
def note (r : Registry σ) : Operation σ → Registry σ
  | .make deadline parent => { r with made := r.made ++ [(deadline.map (add r.now), parent)] }
  | .cancel id => { r with cancelled := r.cancelled ++ [id] }
  | .pass seconds => { r with now := add r.now seconds }
  | .look _ | .remain _ | .heed _ => r

/-- A parent is there when its child is made, a token when it is cancelled, and the clock moves forward. -/
def Allows (r : Registry σ) : Operation σ → Prop
  | .make _ parent => ∀ p ∈ parent, (p : Nat) < r.made.length
  | .cancel id => (id : Nat) < r.made.length
  | .pass seconds => le Seconds.zero seconds = true
  | .look _ | .remain _ | .heed _ => True

/-- Each operation of a run is allowed where it comes. -/
def AllowsAll (r : Registry σ) : List (Operation σ) → Prop
  | [] => True
  | op :: ops => r.Allows op ∧ (r.note op).AllowsAll ops

instance (r : Registry σ) : (op : Operation σ) → Decidable (r.Allows op)
  | .make _ parent => inferInstanceAs (Decidable (∀ p ∈ parent, (p : Nat) < r.made.length))
  | .cancel id => inferInstanceAs (Decidable ((id : Nat) < r.made.length))
  | .pass seconds => inferInstanceAs (Decidable (le Seconds.zero seconds = true))
  | .look _ | .remain _ | .heed _ => inferInstanceAs (Decidable True)

instance decidableAllowsAll : (ops : List (Operation σ)) → (r : Registry σ) → Decidable (r.AllowsAll ops)
  | [], _ => inferInstanceAs (Decidable True)
  | op :: ops, r =>
    have := decidableAllowsAll ops (r.note op)
    inferInstanceAs (Decidable (r.Allows op ∧ (r.note op).AllowsAll ops))

/-- The registry of a run that starts without tokens. -/
def ofRun (now : σ) (ops : List (Operation σ)) : Registry σ := ops.foldl note ⟨now, [], []⟩

/-! ### How a registry grows -/

section Growth

variable {r q : Registry σ} {op : Operation σ} {ops : List (Operation σ)} {id i : TokenId} {d : σ}

omit [Seconds σ] in
theorem Above.lt (h : r.Above id i) : (id : Nat) < r.made.length := by
  cases h with
  | self h => exact h
  | parent h _ => exact (List.getElem?_eq_some_iff.1 h).1

omit [Seconds σ] in
/-- Above a token without a parent there is the token itself. -/
theorem above_iff_of_root {deadline : Option σ} (h : r.made[id]? = some (deadline, none)) : r.Above id i ↔ i = id := by
  constructor
  · rintro (_ | ⟨hparent, -⟩)
    · rfl
    · rw [h] at hparent
      cases hparent
  · rintro rfl
    exact .self (List.getElem?_eq_some_iff.1 h).1

omit [Seconds σ] in
/-- Above a token with a parent there are the token itself and all above its parent. -/
theorem above_iff_of_parent {deadline : Option σ} {parent : TokenId} (h : r.made[id]? = some (deadline, some parent)) :
    r.Above id i ↔ i = id ∨ r.Above parent i := by
  constructor
  · rintro (_ | ⟨hparent, hi⟩)
    · exact .inl rfl
    · rw [h] at hparent
      cases hparent
      exact .inr hi
  · rintro (rfl | hi)
    · exact .self (List.getElem?_eq_some_iff.1 h).1
    · exact .parent h hi

theorem made_note (r : Registry σ) (op : Operation σ) : ∃ more, (r.note op).made = r.made ++ more := by
  cases op with
  | make deadline parent => exact ⟨_, rfl⟩
  | cancel id | look id | remain id | heed id | pass seconds => exact ⟨[], (List.append_nil _).symm⟩

theorem getElem?_made_note {entry : Option σ × Option TokenId} (h : r.made[i]? = some entry) :
    (r.note op).made[i]? = some entry := by
  obtain ⟨more, hmore⟩ := made_note r op
  rw [hmore, List.getElem?_append_left (List.getElem?_eq_some_iff.1 h).1, h]

theorem Above.note (h : r.Above id i) : (r.note op).Above id i := by
  induction h with
  | self h => exact .self (List.getElem?_eq_some_iff.1 (getElem?_made_note (List.getElem?_eq_getElem h))).1
  | parent h _ ih => exact .parent (getElem?_made_note h) ih

theorem Ends.note (h : r.Ends i d) : (r.note op).Ends i d := h.imp fun _ h => getElem?_made_note h

theorem mem_cancelled_note : i ∈ (r.note op).cancelled ↔ i ∈ r.cancelled ∨ .cancel i = op := by
  cases op with
  | cancel id => simp [note]
  | make deadline parent | look id | remain id | heed id | pass seconds => simp [note]

theorem le_now_note (ho : Linear σ) (h : r.Allows op) : le r.now (r.note op).now = true := by
  cases op with
  | pass seconds => exact ho.le_add r.now h
  | make deadline parent | cancel id | look id | remain id | heed id => exact ho.le_refl r.now

/-- What is cancelled stays so. -/
theorem Cancelled.note (ho : Linear σ) (hop : r.Allows op) (h : r.Cancelled id) : (r.note op).Cancelled id := by
  obtain ⟨i, hi, hcancelled | ⟨d, hd, hle⟩⟩ := h
  · exact ⟨i, hi.note, .inl (mem_cancelled_note.2 (.inl hcancelled))⟩
  · exact ⟨i, hi.note, .inr ⟨d, hd.note, ho.le_trans hle (le_now_note ho hop)⟩⟩

theorem Cancelled.foldl_note (ho : Linear σ) : ∀ (ops : List (Operation σ)) {r : Registry σ}, r.AllowsAll ops →
    r.Cancelled id → (ops.foldl Registry.note r).Cancelled id
  | [], _, _, h => h
  | _ :: ops, _, ⟨hop, hops⟩, h => foldl_note ho ops hops (h.note ho hop)

theorem mem_cancelled_foldl : ∀ {ops : List (Operation σ)} {r : Registry σ},
    i ∈ (ops.foldl note r).cancelled ↔ i ∈ r.cancelled ∨ .cancel i ∈ ops
  | [], r => by simp
  | op :: ops, r => by
    rw [List.foldl_cons, mem_cancelled_foldl, mem_cancelled_note, List.mem_cons, or_assoc]

/-- The tokens that are cancelled in a run are those that it names. -/
theorem mem_cancelled_ofRun {now : σ} : i ∈ (ofRun now ops).cancelled ↔ .cancel i ∈ ops := by
  simp [ofRun, mem_cancelled_foldl]

theorem allowsAll_append : ∀ {ops more : List (Operation σ)} {r : Registry σ},
    r.AllowsAll (ops ++ more) ↔ r.AllowsAll ops ∧ (ops.foldl note r).AllowsAll more
  | [], more, r => by simp [AllowsAll]
  | op :: ops, more, r => by
    rw [List.cons_append, AllowsAll, AllowsAll, allowsAll_append, List.foldl_cons, and_assoc]

theorem ofRun_append (now : σ) (ops more : List (Operation σ)) :
    ofRun now (ops ++ more) = more.foldl note (ofRun now ops) := List.foldl_append

/-! Two registries that differ in what is cancelled only. -/

/-- The time and how tokens were made are the same. -/
def Agrees (r q : Registry σ) : Prop := r.now = q.now ∧ r.made = q.made

theorem Agrees.note (h : r.Agrees q) (op : Operation σ) : (r.note op).Agrees (q.note op) := by
  obtain ⟨hnow, hmade⟩ := h
  cases op with
  | make deadline parent => exact ⟨hnow, by simp only [Registry.note, hnow, hmade]⟩
  | pass seconds => exact ⟨by simp only [Registry.note, hnow], hmade⟩
  | cancel id | look id | remain id | heed id => exact ⟨hnow, hmade⟩

theorem Agrees.foldl_note : ∀ (ops : List (Operation σ)) {r q : Registry σ}, r.Agrees q →
    (ops.foldl Registry.note r).Agrees (ops.foldl Registry.note q)
  | [], _, _, h => h
  | op :: ops, _, _, h => foldl_note ops (h.note op)

theorem Agrees.allows (h : r.Agrees q) (hop : r.Allows op) : q.Allows op := by
  cases op with
  | make deadline parent => exact fun p hp => h.2 ▸ hop p hp
  | cancel id => exact Nat.lt_of_lt_of_eq hop (congrArg List.length h.2)
  | pass seconds => exact hop
  | look id | remain id | heed id => trivial

theorem Agrees.allowsAll : ∀ {ops : List (Operation σ)} {r q : Registry σ}, r.Agrees q → r.AllowsAll ops →
    q.AllowsAll ops
  | [], _, _, _, _ => trivial
  | op :: _, _, _, h, ⟨hop, hops⟩ => ⟨h.allows hop, (h.note op).allowsAll hops⟩

omit [Seconds σ] in
theorem Agrees.above (h : r.Agrees q) (hi : r.Above id i) : q.Above id i := by
  induction hi with
  | self hid => exact .self (h.2 ▸ hid)
  | parent hparent _ ih => exact .parent (h.2 ▸ hparent) ih

/-! What is asked leaves no mark. -/

theorem note_of_asks {subject : TokenId} (h : op.asks? = some subject) : r.note op = r := by
  cases op with
  | look id | remain id | heed id => rfl
  | make deadline parent | cancel id | pass seconds => cases h

theorem allows_of_asks {subject : TokenId} (h : op.asks? = some subject) : r.Allows op := by
  cases op with
  | look id | remain id | heed id => trivial
  | make deadline parent | cancel id | pass seconds => cases h

theorem foldl_note_acts : ∀ (ops : List (Operation σ)) (r : Registry σ),
    (Operation.acts ops).foldl note r = ops.foldl note r
  | [], _ => rfl
  | op :: ops, r => by
    have ih := foldl_note_acts ops (r.note op)
    cases hasks : op.asks? with
    | none => simpa [Operation.acts, List.filter_cons, hasks] using ih
    | some subject =>
      rw [note_of_asks hasks] at ih
      simpa [Operation.acts, List.filter_cons, hasks, note_of_asks hasks] using ih

theorem allowsAll_acts : ∀ (ops : List (Operation σ)) (r : Registry σ), r.AllowsAll (Operation.acts ops) ↔ r.AllowsAll ops
  | [], _ => .rfl
  | op :: ops, r => by
    have ih := allowsAll_acts ops (r.note op)
    cases hasks : op.asks? with
    | none => simpa [Operation.acts, List.filter_cons, hasks, AllowsAll] using fun _ => ih
    | some subject =>
      rw [note_of_asks hasks] at ih
      simpa [Operation.acts, List.filter_cons, hasks, AllowsAll, note_of_asks hasks, allows_of_asks hasks] using ih

end Growth
end Registry

/-! ### The least time left -/

namespace Timeline

variable [Seconds σ] {t u : Timeline σ} {id : TokenId}

/-- What the least time left to one of some tokens is. -/
def Least (t : Timeline σ) (ids : List TokenId) : Option σ → Prop
  | none => ∀ i ∈ ids, ∀ d, t.deadline? i ≠ some d
  | some time => (∃ i d, i ∈ ids ∧ t.deadline? i = some d ∧ time = larger Seconds.zero (sub d t.now)) ∧
      ∀ i d, i ∈ ids → t.deadline? i = some d → le time (larger Seconds.zero (sub d t.now)) = true

theorem Least.cons_of_none {ids : List TokenId} {least : Option σ} (h : t.Least ids least) (hid : t.deadline? id = none) :
    t.Least (id :: ids) least := by
  have hother : ∀ i d, i ∈ id :: ids → t.deadline? i = some d → i ∈ ids := by
    intro i d hi hd
    rcases List.mem_cons.1 hi with rfl | hi
    · rw [hid] at hd
      cases hd
    · exact hi
  cases least with
  | none => exact fun i hi d hd => h i (hother i d hi hd) d hd
  | some time =>
    obtain ⟨⟨i, d, hi, hd, htime⟩, hleast⟩ := h
    exact ⟨⟨i, d, .tail _ hi, hd, htime⟩, fun i d hi hd => hleast i d (hother i d hi hd) hd⟩

theorem least_leastRemaining (ho : Linear σ) (t : Timeline σ) : ∀ ids : List TokenId, t.Least ids (t.leastRemaining ids)
  | [] => fun _ hi => absurd hi List.not_mem_nil
  | id :: rest => by
    have hrest := least_leastRemaining ho t rest
    cases hid : t.deadline? id with
    | none =>
      rw [leastRemaining, show (t.tokens[id]?).bind Token.deadline = none from hid]
      exact hrest.cons_of_none hid
    | some d =>
      rw [leastRemaining, show (t.tokens[id]?).bind Token.deadline = some d from hid]
      dsimp only
      generalize hown : larger Seconds.zero (sub d t.now) = own
      have hself : ∀ e, t.deadline? id = some e → le own (larger Seconds.zero (sub e t.now)) = true := by
        rintro e he
        obtain rfl := Option.some.inj (hid.symm.trans he)
        exact hown ▸ ho.le_refl own
      cases hinherited : t.leastRemaining rest with
      | none =>
        rw [hinherited] at hrest
        refine ⟨⟨id, d, .head _, hid, hown.symm⟩, fun i e hi he => ?_⟩
        rcases List.mem_cons.1 hi with rfl | hi
        · exact hself e he
        · exact absurd he (hrest i hi e)
      | some other =>
        rw [hinherited] at hrest
        obtain ⟨⟨j, c, hj, hc, hother⟩, hleast⟩ := hrest
        dsimp only
        split
        next hlt =>
          refine ⟨⟨j, c, .tail _ hj, hc, hother⟩, fun i e hi he => ?_⟩
          rcases List.mem_cons.1 hi with rfl | hi
          · exact ho.le_trans (ho.le_of_lt hlt) (hself e he)
          · exact hleast i e hi he
        next hlt =>
          refine ⟨⟨id, d, .head _, hid, hown.symm⟩, fun i e hi he => ?_⟩
          rcases List.mem_cons.1 hi with rfl | hi
          · exact hself e he
          · exact ho.le_trans (ho.le_of_not_lt hlt) (hleast i e hi he)

theorem leastRemaining_congr (hnow : t.now = u.now) (h : ∀ i, t.deadline? i = u.deadline? i) :
    ∀ ids : List TokenId, t.leastRemaining ids = u.leastRemaining ids
  | [] => rfl
  | id :: rest => by
    have hid : (t.tokens[id]?).bind Token.deadline = (u.tokens[id]?).bind Token.deadline := h id
    simp only [leastRemaining, leastRemaining_congr hnow h rest, hid, hnow]

/-- A token is an old one or the new one. -/
theorem getElem?_addToken {deadline : Option σ} {parent : Option TokenId} {i : Nat} {token : Token σ}
    (h : (t.addToken deadline parent).2.tokens[i]? = some token) :
    t.tokens[i]? = some token ∨ i = t.tokens.length ∧ token = ⟨false, deadline.map (add t.now), parent⟩ := by
  have h := List.getElem?_append.symm.trans h
  split at h
  next => exact .inl h
  next hi =>
    obtain ⟨hlt, htoken⟩ := List.getElem?_eq_some_iff.1 h
    rw [List.length_singleton] at hlt
    exact .inr ⟨by omega, by simpa using htoken.symm⟩

/-- Where no cancellation is to come, the clock is moved by the whole length. -/
theorem now_advance_of_idle (h : t.scheduled = []) (seconds : σ) : (t.advance seconds).now = add t.now seconds := by
  rw [advance, h]
  rfl

end Timeline

/-! ### A timeline and its registry -/

/-- A registry tells how the tokens of a timeline have been made, and a flag is set only where it tells a reason. -/
structure Mirrors (r : Registry σ) (t : Timeline σ) [Seconds σ] : Prop where
  now : t.now = r.now
  made : t.tokens.map Token.fixed = r.made
  idle : t.scheduled = []
  older : t.Forest
  called : ∀ i ∈ r.cancelled, t.Flagged i
  reason : ∀ i, t.Flagged i → i ∈ r.cancelled ∨ ∃ d, r.Ends i d ∧ le d r.now = true

namespace Mirrors

open Operation Timeline

variable [Seconds σ] {r q : Registry σ} {t u : Timeline σ} {id i : TokenId}

theorem made_getElem? (h : Mirrors r t) (i : TokenId) : r.made[i]? = (t.tokens[i]?).map Token.fixed := by
  rw [← h.made, List.getElem?_map]

theorem length (h : Mirrors r t) : t.tokens.length = r.made.length := by
  simpa using congrArg List.length h.made

theorem deadline?_eq_some (h : Mirrors r t) {d : σ} : t.deadline? i = some d ↔ r.Ends i d := by
  rw [Registry.Ends, h.made_getElem?, Timeline.deadline?]
  cases t.tokens[i]? <;> simp [Token.fixed]

theorem mem_lineage (h : Mirrors r t) : ∀ {fuel : Nat} {id : TokenId}, ((id : Nat) < t.tokens.length → id < fuel) →
    (i ∈ t.lineage fuel id ↔ r.Above id i)
  | 0, id, hid => by
    have habove : ¬r.Above id i := fun hi => Nat.not_lt_zero _ (hid (h.length ▸ hi.lt))
    simpa [lineage] using habove
  | fuel + 1, id, hid => by
    have hmade := h.made_getElem? id
    rw [lineage]
    cases htoken : t.tokens[id]? with
    | none =>
      have hid : t.tokens.length ≤ (id : Nat) := List.getElem?_eq_none_iff.1 htoken
      have habove : ¬r.Above id i := fun hi => absurd (h.length ▸ hi.lt) (Nat.not_lt.2 hid)
      simpa using habove
    | some token =>
      rw [htoken] at hmade
      cases hparent : token.parent with
      | none =>
        have hroot : r.made[id]? = some (token.deadline, none) := by rw [hmade, ← hparent]; rfl
        simp [Registry.above_iff_of_root hroot, hparent]
      | some parent =>
        have hchild : r.made[id]? = some (token.deadline, some parent) := by rw [hmade, ← hparent]; rfl
        have hlt : parent < fuel :=
          Nat.lt_of_lt_of_le (h.older id parent token htoken hparent)
            (Nat.lt_succ_iff.1 (hid (List.getElem?_eq_some_iff.1 htoken).1))
        simp only [Registry.above_iff_of_parent hchild, hparent, List.mem_cons, mem_lineage h fun _ => hlt]

/-- The chain of a token consists of what the registry has above it. -/
theorem mem_chain (h : Mirrors r t) : i ∈ t.chain id ↔ r.Above id i := h.mem_lineage fun hid => hid

/-- A look at a token tells whether the registry has it as cancelled. -/
theorem isCancelled_iff (h : Mirrors r t) : (t.isCancelled id).1 = true ↔ r.Cancelled id := by
  rw [isCancelled_eq_true_iff]
  constructor
  · rintro (⟨i, hi, hflag⟩ | ⟨i, hi, d, hd, hle⟩)
    · exact ⟨i, h.mem_chain.1 hi, h.reason i hflag⟩
    · exact ⟨i, h.mem_chain.1 hi, .inr ⟨d, h.deadline?_eq_some.1 hd, h.now ▸ hle⟩⟩
  · rintro ⟨i, hi, hcalled | ⟨d, hd, hle⟩⟩
    · exact .inl ⟨i, h.mem_chain.2 hi, h.called i hcalled⟩
    · exact .inr ⟨i, h.mem_chain.2 hi, d, h.deadline?_eq_some.2 hd, h.now ▸ hle⟩

theorem remaining (ho : Linear σ) (h : Mirrors r t) : r.Remaining id (t.remaining id) := by
  have hleast := least_leastRemaining ho t (t.chain id)
  rw [Timeline.remaining]
  generalize t.leastRemaining (t.chain id) = least at hleast
  cases least with
  | none => exact fun i hi d hd => hleast i (h.mem_chain.2 hi) d (h.deadline?_eq_some.2 hd)
  | some time =>
    obtain ⟨⟨i, d, hi, hd, htime⟩, hall⟩ := hleast
    rw [h.now] at htime hall
    exact ⟨⟨i, d, h.mem_chain.1 hi, h.deadline?_eq_some.1 hd, htime⟩,
      fun i d hi hd => hall i d (h.mem_chain.2 hi) (h.deadline?_eq_some.2 hd)⟩

/-- Without tokens there is nothing to tell. -/
theorem of_tokens_eq_nil (htokens : t.tokens = []) (hidle : t.scheduled = []) : Mirrors (.ofRun t.now []) t where
  now := rfl
  made := by rw [htokens]; rfl
  idle := hidle
  older i parent token htoken := by simp [htokens] at htoken
  called _ hi := absurd hi List.not_mem_nil
  reason i := by
    rintro ⟨token, htoken, -⟩
    simp [htokens] at htoken

/-! #### One operation -/

/-- Tokens go on and none is made. -/
theorem of_accounted {given : TokenId → Prop} (ho : Linear σ) (h : Mirrors r t) (hu : Accounted given t u)
    (hnow : u.now = q.now) (hmade : q.made = r.made) (hsub : ∀ i ∈ r.cancelled, i ∈ q.cancelled)
    (hcalled : ∀ i ∈ q.cancelled, i ∈ r.cancelled ∨ u.Flagged i) (hgiven : ∀ i, given i → i ∈ q.cancelled) :
    Mirrors q u where
  now := hnow
  made := hu.fixed.trans (h.made.trans hmade.symm)
  idle := List.eq_nil_iff_forall_not_mem.2 fun e he => absurd (h.idle ▸ hu.fewer e he) List.not_mem_nil
  older := hu.forest h.older
  called i hi := (hcalled i hi).elim (fun hi => hu.flagged i (h.called i hi)) fun hi => hi
  reason i hi := by
    have hends : ∀ d, r.Ends i d ↔ q.Ends i d := by
      intro d
      rw [Registry.Ends, Registry.Ends, hmade]
    rcases hu.reason i hi with (hflag | ⟨d, hd, hle⟩ | ⟨e, he, -⟩) | hi
    · rcases h.reason i hflag with hi | ⟨d, hd, hle⟩
      · exact .inl (hsub i hi)
      · exact .inr ⟨d, (hends d).1 hd, hnow ▸ ho.le_trans hle (h.now ▸ hu.forward)⟩
    · exact .inr ⟨d, (hends d).1 (h.deadline?_eq_some.1 hd), hnow ▸ hle⟩
    · exact absurd (h.idle ▸ he) List.not_mem_nil
    · exact .inl (hgiven i hi)

/-- A token is made. -/
theorem addToken (h : Mirrors r t) (deadline : Option σ) {parent : Option TokenId}
    (hparent : ∀ p ∈ parent, (p : Nat) < r.made.length) :
    Mirrors (r.note (.make deadline parent)) (t.addToken deadline parent).2 := by
  have hold : ∀ i, t.Flagged i → (t.addToken deadline parent).2.Flagged i := by
    rintro i ⟨token, htoken, hflag⟩
    exact ⟨token, (List.getElem?_append_left (List.getElem?_eq_some_iff.1 htoken).1).trans htoken, hflag⟩
  refine ⟨h.now, ?_, h.idle, fun i p token htoken hp => ?_, fun i hi => hold i (h.called i hi), ?_⟩
  · simp [Timeline.addToken, Registry.note, h.made, h.now, Token.fixed]
  · rcases getElem?_addToken htoken with htoken | ⟨rfl, rfl⟩
    · exact h.older i p token htoken hp
    · exact h.length ▸ hparent p hp
  · rintro i ⟨token, htoken, hflag⟩
    rcases getElem?_addToken htoken with htoken | ⟨-, rfl⟩
    · rcases h.reason i ⟨token, htoken, hflag⟩ with hi | ⟨d, hd, hle⟩
      · exact .inl hi
      · exact .inr ⟨d, hd.note, hle⟩
    · cases hflag

variable {s : Scene σ} {op : Operation σ}

theorem perform (ho : Linear σ) (h : Mirrors r s.timeline) (hop : r.Allows op) :
    Mirrors (r.note op) (op.perform s).2.timeline := by
  have hlook : ∀ id, Mirrors r (s.timeline.isCancelled id).2 := by
    intro id
    have hasked : Accounted (fun _ => False) s.timeline (s.timeline.isCancelled id).2 :=
      accounted_isCancelled ho s.timeline id
    exact h.of_accounted ho hasked ((now_isCancelled s.timeline id).trans h.now) rfl (fun _ hi => hi)
      (fun _ hi => .inl hi) fun _ hi => hi.elim
  cases op with
  | make deadline parent => exact h.addToken deadline hop
  | cancel id =>
    refine h.of_accounted ho (accounted_cancel ho s.timeline id) h.now rfl (fun i hi => ?_) (fun i hi => ?_) fun i hi => ?_
    · exact List.mem_append_left _ hi
    · refine (List.mem_append.1 hi).imp_right fun hi => (flagged_cancel _ _).2 (.inr ⟨List.mem_singleton.1 hi, ?_⟩)
      exact h.length ▸ hop
    · exact List.mem_append_right _ (List.mem_singleton.2 hi)
  | look id => exact hlook id
  | remain id => exact h
  | heed id =>
    have hrun : ((Operation.heed id).perform s).2.timeline = (s.timeline.isCancelled id).2 := by
      rw [Operation.perform, Act.bind_run, Run.heed_run]
      cases (s.timeline.isCancelled id).1 <;> rfl
    exact hrun ▸ hlook id
  | pass seconds =>
    refine h.of_accounted ho (accounted_advance ho s.timeline hop) ?_ rfl (fun _ hi => hi) (fun _ hi => .inl hi)
      fun _ hi => hi.elim
    exact (now_advance_of_idle h.idle seconds).trans (by rw [h.now]; rfl)

/-! #### A run of operations -/

theorem performed (ho : Linear σ) : ∀ (ops : List (Operation σ)) {r : Registry σ} {s : Scene σ}, Mirrors r s.timeline →
    r.AllowsAll ops → Mirrors (ops.foldl Registry.note r) (performed ops s).timeline
  | [], _, _, h, _ => h
  | _ :: ops, _, _, h, ⟨hop, hops⟩ => performed ho ops (h.perform ho hop) hops

theorem ofRun (ho : Linear σ) (htokens : s.timeline.tokens = []) (hidle : s.timeline.scheduled = [])
    {ops : List (Operation σ)} (hops : (Registry.ofRun s.timeline.now []).AllowsAll ops) :
    Mirrors (.ofRun s.timeline.now ops) (Operation.performed ops s).timeline :=
  (of_tokens_eq_nil htokens hidle).performed ho ops hops

end Mirrors

/-! ### Answers -/

namespace Operation

variable [Seconds σ] {r q : Registry σ} {s s' : Scene σ} {id : TokenId} {op : Operation σ} {ops : List (Operation σ)}

theorem answer_look (id : TokenId) (s : Scene σ) : (look id).answer s = .ok (.told (s.timeline.isCancelled id).1) := rfl

theorem answer_remain (id : TokenId) (s : Scene σ) : (remain id).answer s = .ok (.left (s.timeline.remaining id)) := rfl

theorem answer_heed (id : TokenId) (s : Scene σ) :
    (heed id).answer s = if (s.timeline.isCancelled id).1 then .error (.cancelled .verification) else .ok .done := by
  rw [answer, perform, Act.bind_run, Run.heed_run]
  cases (s.timeline.isCancelled id).1 <;> rfl

theorem answer_look_eq_true_iff (h : Mirrors r s.timeline) : (look id).answer s = .ok (.told true) ↔ r.Cancelled id := by
  rw [answer_look, ← h.isCancelled_iff]
  simp

/-- What an operation gives is settled by the registry, as far as it tells of the token that is asked about. -/
theorem answer_congr (h : Mirrors r s.timeline) (h' : Mirrors q s'.timeline) (hagrees : r.Agrees q)
    (hcancelled : ∀ id, op.asks? = some id → (r.Cancelled id ↔ q.Cancelled id)) : op.answer s = op.answer s' := by
  have hlook : ∀ id, op.asks? = some id → (s.timeline.isCancelled id).1 = (s'.timeline.isCancelled id).1 := fun id hid =>
    Bool.eq_iff_iff.2 (h.isCancelled_iff.trans ((hcancelled id hid).trans h'.isCancelled_iff.symm))
  have hfixed : s.timeline.tokens.map Token.fixed = s'.timeline.tokens.map Token.fixed :=
    h.made.trans (hagrees.2.trans h'.made.symm)
  cases op with
  | make deadline parent =>
    exact congrArg (fun n => Except.ok (Answer.made n)) (by simpa using congrArg List.length hfixed)
  | cancel id | pass seconds => rfl
  | look id => rw [answer_look, answer_look, hlook id rfl]
  | heed id => rw [answer_heed, answer_heed, hlook id rfl]
  | remain id =>
    have hdeadlines : ∀ i, s.timeline.deadline? i = s'.timeline.deadline? i := fun i => by
      rw [Timeline.deadline?_eq, Timeline.deadline?_eq, ← List.getElem?_map, ← List.getElem?_map, hfixed]
    have hchain : s.timeline.chain id = s'.timeline.chain id := by
      refine Timeline.chain_congr (by simpa using congrArg List.length hfixed) (fun i => ?_) id
      have hi := congrArg (fun made => (made[i]?).map Prod.snd) hfixed
      simp only [List.getElem?_map, Option.map_map] at hi
      exact hi
    have hnow : s.timeline.now = s'.timeline.now := h.now.trans (hagrees.1.trans h'.now.symm)
    rw [answer_remain, answer_remain, Timeline.remaining, Timeline.remaining, hchain,
      Timeline.leastRemaining_congr hnow hdeadlines]

/-- The cancellation of a token concerns those below it only. -/
theorem cancelled_insert (now : σ) (ops more : List (Operation σ)) {other : TokenId}
    (hid : ¬(Registry.ofRun now (ops ++ more)).Above id other) :
    (Registry.ofRun now (ops ++ cancel other :: more)).Agrees (.ofRun now (ops ++ more)) ∧
      ((Registry.ofRun now (ops ++ cancel other :: more)).Cancelled id ↔
        (Registry.ofRun now (ops ++ more)).Cancelled id) := by
  have hagrees : (Registry.ofRun now (ops ++ cancel other :: more)).Agrees (.ofRun now (ops ++ more)) := by
    rw [Registry.ofRun_append, Registry.ofRun_append, List.foldl_cons]
    exact Registry.Agrees.foldl_note more ⟨rfl, rfl⟩
  have hmem : ∀ {i}, i ≠ other →
      (i ∈ (Registry.ofRun now (ops ++ cancel other :: more)).cancelled ↔
        i ∈ (Registry.ofRun now (ops ++ more)).cancelled) := by
    intro i hi
    simp [Registry.mem_cancelled_ofRun, hi]
  have hends : ∀ i d, (Registry.ofRun now (ops ++ cancel other :: more)).Ends i d ↔
      (Registry.ofRun now (ops ++ more)).Ends i d := by
    intro i d
    rw [Registry.Ends, Registry.Ends, hagrees.2]
  refine ⟨hagrees, ?_⟩
  simp only [Registry.Cancelled, hends, hagrees.1]
  constructor
  · rintro ⟨i, hi, hcancelled⟩
    have habove := hagrees.above hi
    refine ⟨i, habove, hcancelled.imp_left (hmem ?_).1⟩
    rintro rfl
    exact hid habove
  · rintro ⟨i, hi, hcancelled⟩
    refine ⟨i, Registry.Agrees.above ⟨hagrees.1.symm, hagrees.2.symm⟩ hi, hcancelled.imp_left (hmem ?_).2⟩
    rintro rfl
    exact hid hi

/-- Tokens over any run of operations that starts without tokens. A token is told cancelled exactly if the registry of the
run has it so: it or one of its ancestors has been cancelled or has come to its deadline. The time left to it is the least
that is left to it and its ancestors. A token that is told cancelled is told so after any further operations; a
cancellation that is put into the run changes no answer about a token that is not below the cancelled one; and two runs
that differ in what is asked only get the same answers from then on. -/
theorem answers_of_registry (ho : Linear σ) (htokens : s.timeline.tokens = []) (hidle : s.timeline.scheduled = [])
    (hops : (Registry.ofRun s.timeline.now []).AllowsAll ops) (id : TokenId) :
    (∃ b, (look id).answer (performed ops s) = .ok (.told b) ∧
      (b = true ↔ (Registry.ofRun s.timeline.now ops).Cancelled id)) ∧
    ((Registry.ofRun s.timeline.now ops).Cancelled id →
      (heed id).answer (performed ops s) = .error (.cancelled .verification)) ∧
    (¬(Registry.ofRun s.timeline.now ops).Cancelled id → (heed id).answer (performed ops s) = .ok .done) ∧
    (∃ time, (remain id).answer (performed ops s) = .ok (.left time) ∧
      (Registry.ofRun s.timeline.now ops).Remaining id time) ∧
    (∀ more, (Registry.ofRun s.timeline.now []).AllowsAll (ops ++ more) →
      (look id).answer (performed ops s) = .ok (.told true) →
      (look id).answer (performed (ops ++ more) s) = .ok (.told true)) ∧
    (∀ other more, (Registry.ofRun s.timeline.now []).AllowsAll (ops ++ cancel other :: more) →
      ¬(Registry.ofRun s.timeline.now (ops ++ more)).Above id other →
      ∀ op : Operation σ, op.asks? = some id →
        op.answer (performed (ops ++ cancel other :: more) s) = op.answer (performed (ops ++ more) s)) ∧
    ∀ ops' : List (Operation σ), acts ops' = acts ops →
      ∀ op : Operation σ, op.answer (performed ops' s) = op.answer (performed ops s) := by
  have hmirrors : ∀ {ops}, (Registry.ofRun s.timeline.now []).AllowsAll ops →
      Mirrors (.ofRun s.timeline.now ops) (performed ops s).timeline := fun hops => .ofRun ho htokens hidle hops
  have hruns := hmirrors hops
  refine ⟨⟨_, answer_look _ _, hruns.isCancelled_iff⟩, fun hc => ?_, fun hc => ?_,
    ⟨_, answer_remain _ _, hruns.remaining ho⟩, fun more hmore htold => ?_, fun other more hmore hid op hop => ?_,
    fun ops' heq op => ?_⟩
  · rw [answer_heed, if_pos (hruns.isCancelled_iff.2 hc)]
  · rw [answer_heed, if_neg (mt hruns.isCancelled_iff.1 hc)]
  · rw [answer_look_eq_true_iff hruns] at htold
    rw [answer_look_eq_true_iff (hmirrors hmore), Registry.ofRun_append]
    exact htold.foldl_note ho more (Registry.allowsAll_append.1 hmore).2
  · obtain ⟨hagrees, hcancelled⟩ := cancelled_insert s.timeline.now ops more hid
    have hwithout : (Registry.ofRun s.timeline.now []).AllowsAll (ops ++ more) := by
      obtain ⟨hops, -, hrest⟩ := Registry.allowsAll_append.1 hmore
      have hagrees : ∀ r : Registry σ, (r.note (cancel other)).Agrees r := fun r => ⟨rfl, rfl⟩
      exact Registry.allowsAll_append.2 ⟨hops, (hagrees _).allowsAll hrest⟩
    refine answer_congr (hmirrors hmore) (hmirrors hwithout) hagrees fun i hi => ?_
    obtain rfl := Option.some.inj (hop.symm.trans hi)
    exact hcancelled
  · have hops' : (Registry.ofRun s.timeline.now []).AllowsAll ops' := by
      rw [← Registry.allowsAll_acts, heq, Registry.allowsAll_acts]
      exact hops
    have hsame : Registry.ofRun s.timeline.now ops' = .ofRun s.timeline.now ops := by
      rw [Registry.ofRun, ← Registry.foldl_note_acts, heq, Registry.foldl_note_acts, Registry.ofRun]
    exact answer_congr (hmirrors hops') hruns (hsame ▸ ⟨rfl, rfl⟩) fun i _ => by rw [hsame]

/-- A scene in exact time, before any token is made. -/
def bareScene : Scene Int := { Scene.ofService (.ofScripts 0 [] []) .nothing with timeline := .start }

/-- Three tokens, each the parent of the next one; the first ends after three seconds, which go by, and the second is
cancelled. -/
def rehearsal : List (Operation Int) :=
  [make (some 3000000) none, make none (some 0), look 1, make none (some 1), cancel 1, look 2, pass 2000000, look 0,
    remain 1, pass 1000000, heed 0]

/-- At the end of the rehearsal all three are cancelled, and so they would be if nothing had been asked. -/
theorem answers_rehearsed :
    (∀ id ∈ [0, 1, 2], (heed id).answer (performed rehearsal bareScene) = .error (.cancelled .verification)) ∧
      ∀ op : Operation Int, op.answer (performed (acts rehearsal) bareScene) = op.answer (performed rehearsal bareScene) := by
  have hops : (Registry.ofRun 0 []).AllowsAll rehearsal := by decide
  have hall := fun id => answers_of_registry (s := bareScene) linear_int rfl rfl hops id
  have htop : (Registry.ofRun 0 rehearsal).Ends 0 3000000 := ⟨none, rfl⟩
  have hself : ∀ id ∈ [0, 1, 2], (Registry.ofRun 0 rehearsal).Above id 0 := by
    have h₀ : (Registry.ofRun 0 rehearsal).Above 0 0 := .self (by decide)
    have h₁ : (Registry.ofRun 0 rehearsal).Above 1 0 := .parent rfl h₀
    have h₂ : (Registry.ofRun 0 rehearsal).Above 2 0 := .parent rfl h₁
    simp [h₀, h₁, h₂]
  refine ⟨fun id hid => (hall id).2.1 ⟨0, hself id hid, .inr ⟨_, htop, by decide⟩⟩, ?_⟩
  exact (hall 0).2.2.2.2.2.2 _ rfl

end Operation
end Adjudication.Time
