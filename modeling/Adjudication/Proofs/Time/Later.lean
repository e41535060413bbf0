import Adjudication.Proofs.Time.Ordered
import Mathlib.Order.Defs.Unbundled

/-!
Tokens over time. Whatever the clock goes through, tokens keep their deadlines and their parents, a flag that has been set
stays set, and a cancellation to come either is still to come or has set the flag of its token. So a token that is found
cancelled once is found cancelled ever after, and one that is not found cancelled has met none of the things that cancel
it.
-/

namespace Adjudication.Time

variable {σ : Type}

/-- What a token has for good. -/
def Token.fixed (token : Token σ) : Option σ × Option TokenId := (token.deadline, token.parent)

namespace Timeline

open Seconds (Linear add le larger)

variable {t u v : Timeline σ} {id i : TokenId}

/-! ### What cancels a token -/

/-- The flag of a token is set. -/
def Flagged (t : Timeline σ) (i : TokenId) : Prop := ∃ token, t.tokens[i]? = some token ∧ token.flagged = true

/-- The deadline of a token. -/
def deadline? (t : Timeline σ) (i : TokenId) : Option σ := (t.tokens[i]?).bind Token.deadline

/-- A token has been cancelled: its flag or that of an ancestor is set. -/
def Called (t : Timeline σ) (id : TokenId) : Prop := ∃ i ∈ t.chain id, t.Flagged i

/-- At an instant, the deadline of a token or of an ancestor has been reached. -/
def Expired [Seconds σ] (t : Timeline σ) (id : TokenId) (instant : σ) : Prop :=
  ∃ i ∈ t.chain id, ∃ d, t.deadline? i = some d ∧ le d instant = true

/-- At an instant, a cancellation to come of a token or of an ancestor is due. -/
def Due [Seconds σ] (t : Timeline σ) (id : TokenId) (instant : σ) : Prop :=
  ∃ e ∈ t.scheduled, e.2 ∈ t.chain id ∧ le e.1 instant = true

/-- A token has been cancelled, or no cancellation to come is due. It is so whenever the clock has been moved. -/
def Settled [Seconds σ] (t : Timeline σ) (id : TokenId) : Prop := t.Called id ∨ ¬t.Due id t.now

/-- Up to an instant, no cancellation to come falls due that is not overdue. -/
def Quiet [Seconds σ] (t : Timeline σ) (id : TokenId) (instant : σ) : Prop :=
  ∀ e ∈ t.scheduled, e.2 ∈ t.chain id → le e.1 instant = true → le e.1 t.now = true

theorem flagged_cancel (t : Timeline σ) (id : TokenId) :
    (t.cancel id).Flagged i ↔ t.Flagged i ∨ i = id ∧ (id : Nat) < t.tokens.length := by
  simp only [Flagged, getElem?_cancel]
  by_cases hid : id = i
  · subst hid
    cases htoken : t.tokens[id]? with
    | none => simpa using htoken
    | some token =>
      have hlt := (List.getElem?_eq_some_iff.1 htoken).1
      simp [hlt]
  · rw [if_neg hid]
    constructor
    · exact fun h => .inl h
    · rintro (h | ⟨rfl, -⟩)
      · exact h
      · exact absurd rfl hid

/-! ### Later on -/

/-- How tokens go on from one instant to a later one. -/
structure Later (t u : Timeline σ) : Prop where
  fixed : u.tokens.map Token.fixed = t.tokens.map Token.fixed
  flagged : ∀ i, t.Flagged i → u.Flagged i
  fewer : ∀ e ∈ u.scheduled, e ∈ t.scheduled
  setOff : ∀ e ∈ t.scheduled, (e.2 : Nat) < t.tokens.length → e ∈ u.scheduled ∨ u.Flagged e.2

theorem Later.length (h : t.Later u) : u.tokens.length = t.tokens.length := by
  simpa using congrArg List.length h.fixed

theorem Later.getElem? (h : t.Later u) (i : Nat) : (u.tokens[i]?).map Token.fixed = (t.tokens[i]?).map Token.fixed := by
  rw [← List.getElem?_map, ← List.getElem?_map, h.fixed]

theorem deadline?_eq (t : Timeline σ) (i : TokenId) :
    t.deadline? i = ((t.tokens[i]?).map Token.fixed).bind Prod.fst := by
  rw [deadline?]
  cases t.tokens[i]? <;> rfl

theorem Later.deadline? (h : t.Later u) (i : TokenId) : u.deadline? i = t.deadline? i := by
  rw [deadline?_eq, deadline?_eq, h.getElem?]

theorem Later.chain (h : t.Later u) (id : TokenId) : u.chain id = t.chain id := by
  refine chain_congr h.length (fun i => ?_) id
  have hi := congrArg (Option.map Prod.snd) (h.getElem? i)
  rwa [Option.map_map, Option.map_map] at hi

/-- Tokens that are below older ones only stay so. -/
theorem Later.forest (h : t.Later u) (ht : t.Forest) : u.Forest := by
  intro i parent token htoken hparent
  have hi := h.getElem? i
  rw [htoken] at hi
  obtain ⟨old, hold, hfixed⟩ := Option.map_eq_some_iff.1 hi.symm
  exact ht i parent old hold ((congrArg Prod.snd hfixed).trans hparent)

instance : IsPreorder (Timeline σ) Later where
  refl t := ⟨rfl, fun _ h => h, fun _ h => h, fun _ h _ => .inl h⟩
  trans t u v h h' :=
    { fixed := h'.fixed.trans h.fixed
      flagged := fun i hi => h'.flagged i (h.flagged i hi)
      fewer := fun e he => h.fewer e (h'.fewer e he)
      setOff := fun e he hlt => by
        rcases h.setOff e he hlt with hu | hu
        · exact h'.setOff e hu (h.length ▸ hlt)
        · exact .inr (h'.flagged _ hu) }

theorem Later.called (h : t.Later u) (hc : t.Called id) : u.Called id := by
  obtain ⟨i, hi, hflag⟩ := hc
  exact ⟨i, h.chain id ▸ hi, h.flagged i hflag⟩

/-- The cancellation of a token that is there. -/
theorem called_cancel (h : i ∈ t.chain id) : (t.cancel i).Called id :=
  ⟨i, (chain_cancel t i id).symm ▸ h, (flagged_cancel t i).2 (.inr ⟨rfl, lt_of_mem_chain h⟩)⟩

/-- A cancellation that was to come is still to come, unless the token has been cancelled. -/
theorem Later.pending (h : t.Later u) (hu : ¬u.Called id) {e : σ × TokenId} (he : e ∈ t.scheduled)
    (hid : e.2 ∈ t.chain id) : e ∈ u.scheduled := by
  rcases h.setOff e he (lt_of_mem_chain hid) with hstill | hflag
  · exact hstill
  · exact absurd ⟨e.2, h.chain id ▸ hid, hflag⟩ hu

theorem later_now (t : Timeline σ) (now : σ) : t.Later { t with now } :=
  ⟨rfl, fun _ h => h, fun _ h => h, fun _ h _ => .inl h⟩

theorem fixed_cancel (t : Timeline σ) (id : TokenId) : (t.cancel id).tokens.map Token.fixed = t.tokens.map Token.fixed := by
  refine List.ext_getElem? fun i => ?_
  rw [List.getElem?_map, List.getElem?_map, getElem?_cancel]
  split
  next => cases t.tokens[i]? <;> rfl
  next => rfl

theorem later_cancel (t : Timeline σ) (id : TokenId) : t.Later (t.cancel id) :=
  ⟨fixed_cancel t id, fun _ h => (flagged_cancel t id).2 (.inl h), fun _ h => h, fun _ h _ => .inl h⟩

variable [Seconds σ]

theorem Later.expired {instant : σ} (h : t.Later u) (he : t.Expired id instant) : u.Expired id instant := by
  obtain ⟨i, hi, d, hd, hle⟩ := he
  exact ⟨i, h.chain id ▸ hi, d, (h.deadline? i).trans hd, hle⟩

theorem Later.due {instant : σ} (h : t.Later u) (hu : ¬u.Called id) (hd : t.Due id instant) : u.Due id instant := by
  obtain ⟨e, he, hid, hle⟩ := hd
  exact ⟨e, h.pending hu he hid, h.chain id ▸ hid, hle⟩

/-- The cancellation that is split off sets the flag of its token. -/
theorem later_splitDue {goal : σ} {e : σ × TokenId} {rest : List (σ × TokenId)}
    (h : splitDue goal t.scheduled = some (e, rest)) (now : σ) :
    t.Later (({ t with now, scheduled := rest } : Timeline σ).cancel e.2) where
  fixed := fixed_cancel _ _
  flagged i hi := (flagged_cancel _ _).2 (.inl hi)
  fewer := (mem_of_splitDue h).2
  setOff other hother hlt := by
    rcases List.mem_cons.1 ((perm_of_splitDue h).mem_iff.1 hother) with rfl | hrest
    · exact .inr ((flagged_cancel _ _).2 (.inr ⟨rfl, hlt⟩))
    · exact .inl hrest

theorem later_moveTo (target : σ) (waiting : Option TokenId) : ∀ (fuel : Nat) (t : Timeline σ),
    t.Later (t.moveTo target waiting fuel)
  | 0, t => later_now t target
  | fuel + 1, t => by
    rw [moveTo]
    split
    next => exact later_now t target
    next instant other rest hsplit =>
      have hfirst := later_splitDue hsplit (larger t.now instant)
      dsimp only at hfirst ⊢
      split
      · exact hfirst
      · exact IsTrans.trans _ _ _ hfirst (later_moveTo target waiting fuel _)

theorem later_advance (t : Timeline σ) (seconds : σ) : t.Later (t.advance seconds) := later_moveTo _ _ _ t

/-! ### Looking at a token -/

/-- What a look at tokens comes to: none of them is cancelled, or the flag of one is set, or the deadline of one has been
reached, and then its flag is set. -/
inductive Look (t : Timeline σ) (ids : List TokenId) : Bool × Timeline σ → Prop where
  | clear (hflag : ∀ i ∈ ids, ¬t.Flagged i)
      (hdeadline : ∀ i ∈ ids, ∀ d, t.deadline? i = some d → ¬le d t.now = true) : Look t ids (false, t)
  | flagged {i : TokenId} (hi : i ∈ ids) (hflag : t.Flagged i) : Look t ids (true, t)
  | expired {i : TokenId} {d : σ} (hi : i ∈ ids) (hd : t.deadline? i = some d) (hle : le d t.now = true) :
      Look t ids (true, t.cancel i)

theorem Look.cons {ids : List TokenId} {r : Bool × Timeline σ} (h : Look t ids r) (hflag : ¬t.Flagged id)
    (hdeadline : ∀ d, t.deadline? id = some d → ¬le d t.now = true) : Look t (id :: ids) r := by
  cases h with
  | clear hflags hdeadlines =>
    exact .clear (List.forall_mem_cons.2 ⟨hflag, hflags⟩)
      (List.forall_mem_cons.2 ⟨hdeadline, hdeadlines⟩)
  | flagged hi h => exact .flagged (.tail _ hi) h
  | expired hi hd hle => exact .expired (.tail _ hi) hd hle

theorem look (t : Timeline σ) : ∀ ids : List TokenId, Look t ids (t.anyCancelled ids)
  | [] => .clear (fun _ hi => absurd hi List.not_mem_nil) (fun _ hi => absurd hi List.not_mem_nil)
  | id :: rest => by
    have hrest := look t rest
    rw [anyCancelled]
    cases htoken : t.tokens[id]? with
    | none =>
      refine hrest.cons ?_ fun d hd => ?_
      · rintro ⟨token, h, -⟩
        simp [htoken] at h
      · simp [deadline?, htoken] at hd
    | some token =>
      have hdeadline : t.deadline? id = token.deadline := by simp [deadline?, htoken]
      dsimp only
      split
      next hflag => exact .flagged (.head _) ⟨token, htoken, hflag⟩
      next hflag =>
        split
        next hreached =>
          cases hd : token.deadline with
          | none => simp [reached, hd] at hreached
          | some d => exact .expired (.head _) (hdeadline.trans hd) (by simpa [reached, hd] using hreached)
        next hreached =>
          refine hrest.cons ?_ fun d hd hle => hreached ?_
          · rintro ⟨other, h, hother⟩
            obtain rfl := Option.some.inj (htoken.symm.trans h)
            exact hflag hother
          · rw [← hdeadline, hd]
            exact hle

/-- A token counts as cancelled if it has been cancelled or its deadline has been reached. -/
theorem isCancelled_eq_true_iff : (t.isCancelled id).1 = true ↔ t.Called id ∨ t.Expired id t.now := by
  have hlook := look t (t.chain id)
  rw [isCancelled]
  generalize t.anyCancelled (t.chain id) = r at hlook
  cases hlook with
  | clear hflag hdeadline =>
    refine ⟨fun h => absurd h Bool.false_ne_true, ?_⟩
    rintro (⟨i, hi, h⟩ | ⟨i, hi, d, hd, hle⟩)
    · exact absurd h (hflag i hi)
    · exact absurd hle (hdeadline i hi d hd)
  | flagged hi hflag => exact ⟨fun _ => .inl ⟨_, hi, hflag⟩, fun _ => rfl⟩
  | expired hi hd hle => exact ⟨fun _ => .inr ⟨_, hi, _, hd, hle⟩, fun _ => rfl⟩

theorem isCancelled_eq_false_iff : (t.isCancelled id).1 = false ↔ ¬t.Called id ∧ ¬t.Expired id t.now := by
  rw [← not_or, ← isCancelled_eq_true_iff, Bool.not_eq_true]

/-- A token that has been found cancelled has been cancelled from then on. -/
theorem called_of_isCancelled (h : (t.isCancelled id).1 = true) : (t.isCancelled id).2.Called id := by
  have hlook := look t (t.chain id)
  rw [isCancelled] at h ⊢
  generalize t.anyCancelled (t.chain id) = r at h hlook
  cases hlook with
  | clear _ _ => cases h
  | flagged hi hflag => exact ⟨_, hi, hflag⟩
  | expired hi _ _ => exact called_cancel hi

theorem later_isCancelled (t : Timeline σ) (id : TokenId) : t.Later (t.isCancelled id).2 := by
  have hlook := look t (t.chain id)
  rw [isCancelled]
  generalize t.anyCancelled (t.chain id) = r at hlook
  cases hlook with
  | clear _ _ => exact Std.Refl.refl t
  | flagged _ _ => exact Std.Refl.refl t
  | expired _ _ _ => exact later_cancel t _

/-! ### Keeping an eye on a token -/

/-- How the clock goes on with an eye on a token: unless the token has been cancelled, no cancellation of it has fallen due
on the way. -/
structure Watched (id : TokenId) (t u : Timeline σ) : Prop extends Later t u where
  quiet : u.Called id ∨ t.Quiet id u.now

instance : IsPreorder (Timeline σ) (Watched id) where
  refl t := ⟨Std.Refl.refl t, .inr fun _ _ _ h => h⟩
  trans t u v h h' := by
    refine ⟨IsTrans.trans _ _ _ h.toLater h'.toLater, ?_⟩
    by_cases hv : v.Called id
    · exact .inl hv
    have hu : ¬u.Called id := fun hu => hv (h'.called hu)
    refine .inr fun e he hid hle => h.quiet.resolve_left hu e he hid ?_
    exact h'.quiet.resolve_left hv e (h.pending hu he hid) (h.chain id ▸ hid) hle

theorem Later.watched_of_now (h : t.Later u) (hnow : u.now = t.now) : Watched id t u :=
  ⟨h, .inr fun _ _ _ hle => hnow ▸ hle⟩

theorem Later.watched_of_settled (h : t.Later u) (hu : u.Settled id) : Watched id t u := by
  refine ⟨h, ?_⟩
  by_cases hcalled : u.Called id
  · exact .inl hcalled
  · exact .inr fun e he hid hle =>
      absurd ⟨e, h.pending hcalled he hid, h.chain id ▸ hid, hle⟩ (hu.resolve_left hcalled)

theorem watched_cancel (t : Timeline σ) (other : TokenId) : Watched id t (t.cancel other) :=
  (later_cancel t other).watched_of_now rfl

theorem watched_isCancelled (t : Timeline σ) (other : TokenId) : Watched id t (t.isCancelled other).2 :=
  (later_isCancelled t other).watched_of_now (now_isCancelled t other)

/-- Up to an instant, nothing has cancelled a token: it has not been cancelled, no deadline has been reached, and no
cancellation to come has fallen due. -/
structure Uncancelled (t : Timeline σ) (id : TokenId) (instant : σ) : Prop where
  called : ¬t.Called id
  expired : ¬t.Expired id instant
  quiet : t.Quiet id instant

theorem uncancelled_of_isCancelled (h : (t.isCancelled id).1 = false) : t.Uncancelled id t.now :=
  ⟨(isCancelled_eq_false_iff.1 h).1, (isCancelled_eq_false_iff.1 h).2, fun _ _ _ hle => hle⟩

/-- What has not cancelled a token later on has not cancelled it before. -/
theorem Watched.uncancelled (h : Watched id t u) {instant : σ} (hu : u.Uncancelled id instant) :
    t.Uncancelled id instant where
  called ht := hu.called (h.called ht)
  expired ht := hu.expired (h.expired ht)
  quiet e he hid hle := h.quiet.resolve_left hu.called e he hid
    (hu.quiet e (h.pending hu.called he hid) (h.chain id ▸ hid) hle)

theorem not_le_of_splitDue {goal : σ} : ∀ {entries : List (σ × TokenId)}, splitDue goal entries = none →
    ∀ e ∈ entries, ¬le e.1 goal = true
  | [], _, _, he => absurd he List.not_mem_nil
  | entry :: entries, h, e, he => by
    simp only [splitDue] at h
    split at h
    next => split at h <;> simp at h
    next hrest =>
      split at h
      next => simp at h
      next hentry =>
        rcases List.mem_cons.1 he with rfl | he
        · exact hentry
        · exact not_le_of_splitDue hrest e he

omit [Seconds σ] in
theorem mem_chain_self (t : Timeline σ) (id : TokenId) : id ∈ t.chain id ∨ t.chain id = [] := by
  rw [chain]
  cases t.tokens.length with
  | zero => exact .inr rfl
  | succ fuel =>
    rw [lineage]
    split
    next => exact .inr rfl
    next =>
      split
      · exact .inl (.head _)
      · exact .inl (.head _)

/-- A move of the clock with enough fuel leaves no cancellation that is due, unless it ends on the way, at the
cancellation of the token that is waited on. -/
theorem settled_moveTo (target : σ) {waiting : Option TokenId} (hwaiting : ∀ i, waiting = some i → i = id) :
    ∀ (fuel : Nat) {t : Timeline σ}, t.scheduled.length ≤ fuel → (t.moveTo target waiting fuel).Settled id
  | 0, t, hfuel => by
    refine .inr ?_
    rintro ⟨e, he, -⟩
    have hnil : t.scheduled = [] := List.length_eq_zero_iff.1 (Nat.le_zero.1 hfuel)
    exact absurd (hnil ▸ he : e ∈ []) List.not_mem_nil
  | fuel + 1, t, hfuel => by
    rw [moveTo]
    split
    next hnone =>
      refine .inr ?_
      rintro ⟨e, he, -, hle⟩
      exact not_le_of_splitDue hnone e he hle
    next instant other rest hsplit =>
      have hlength := (perm_of_splitDue hsplit).length_eq
      dsimp only
      split
      next heq =>
        obtain rfl := hwaiting other heq
        have hself := mem_chain_self ({ t with now := larger t.now instant, scheduled := rest } : Timeline σ) other
        rcases hself with hself | hnil
        · exact .inl (called_cancel hself)
        · refine .inr ?_
          rintro ⟨e, -, hid, -⟩
          rw [chain_cancel, hnil] at hid
          exact absurd hid List.not_mem_nil
      next =>
        refine settled_moveTo target hwaiting fuel (Nat.le_of_succ_le_succ (Nat.le_trans (Nat.le_of_eq ?_) hfuel))
        exact hlength.symm

theorem settled_advance (t : Timeline σ) (seconds : σ) (id : TokenId) : (t.advance seconds).Settled id :=
  settled_moveTo _ (fun _ h => by cases h) _ (Nat.le_refl _)

theorem watched_advance (t : Timeline σ) (seconds : σ) : Watched id t (t.advance seconds) :=
  (later_advance t seconds).watched_of_settled (settled_advance t seconds id)

theorem waitRounds_watched (goal : σ) : ∀ (patience : Nat) {t u : Timeline σ} {b : Bool},
    waitRounds id goal patience t = some (b, u) → Watched id t u ∧ if b then u.Called id else (u.isCancelled id).1 = false
  | 0, _, _, _, hw => by simp [waitRounds] at hw
  | patience + 1, t, u, b, hw => by
    rw [waitRounds] at hw
    rcases waitRound_cases id goal t with hround | ⟨-, slice, target, hround, -⟩
    · rw [hround] at hw
      obtain ⟨rfl, rfl⟩ := Prod.ext_iff.1 (Option.some.inj hw)
      refine ⟨watched_isCancelled t id, ?_⟩
      cases hc : (t.isCancelled id).1 with
      | true => exact called_of_isCancelled hc
      | false =>
        rw [isCancelled_of_fst hc]
        exact congrArg Prod.fst (isCancelled_of_fst hc)
    · rw [hround] at hw
      obtain ⟨hwatched, hb⟩ := waitRounds_watched goal patience hw
      have hmove : Watched id t (t.moveTo target (some id) t.scheduled.length) :=
        (later_moveTo _ _ _ t).watched_of_settled
          (settled_moveTo target (fun _ h => (Option.some.inj h).symm) _ (Nat.le_refl _))
      exact ⟨IsTrans.trans _ _ _ hmove hwatched, hb⟩

/-- A wait on a token tells whether the token is cancelled when it ends. -/
theorem wait_watched {patience : Nat} {seconds : σ} {b : Bool} (h : t.wait patience id seconds = some (b, u)) :
    Watched id t u ∧ if b then u.Called id else (u.isCancelled id).1 = false := waitRounds_watched _ patience h

end Timeline
end Adjudication.Time
