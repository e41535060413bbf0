import Adjudication.Proofs.Time.Later

/-!
Why a flag is set. Where time is ordered and goes forward, the flag of a token is set for a reason: it has been set before,
a deadline of the token has been reached, a cancellation of it that was to come has fallen due, or somebody has set it.
-/

namespace Adjudication.Time.Timeline

open Seconds (Linear le larger)

variable {σ : Type} [Seconds σ] {t u v : Timeline σ} {id i : TokenId}

/-- Up to an instant, there is a reason for a token's flag to be set: it is set already, or a deadline or a cancellation
of the token comes. -/
def Bound (t : Timeline σ) (i : TokenId) (instant : σ) : Prop :=
  t.Flagged i ∨ (∃ d, t.deadline? i = some d ∧ le d instant = true) ∨ ∃ e ∈ t.scheduled, e.2 = i ∧ le e.1 instant = true

/-- How the clock goes forward while every flag is set for a reason, or is one of those that are `given`. -/
structure Accounted (given : TokenId → Prop) (t u : Timeline σ) : Prop extends Later t u where
  forward : le t.now u.now = true
  reason : ∀ i, u.Flagged i → t.Bound i u.now ∨ given i

variable {given given' : TokenId → Prop}

theorem Later.bound (ho : Linear σ) (h : t.Later u) {first last : σ} (hle : le first last = true)
    (hu : u.Flagged i → t.Bound i first ∨ given i) (hb : u.Bound i last) : t.Bound i last ∨ given i := by
  rcases hb with hflag | ⟨d, hd, hdue⟩ | ⟨e, he, hi, hdue⟩
  · rcases hu hflag with (hflag | ⟨d, hd, hdue⟩ | ⟨e, he, hi, hdue⟩) | hgiven
    · exact .inl (.inl hflag)
    · exact .inl (.inr (.inl ⟨d, hd, ho.le_trans hdue hle⟩))
    · exact .inl (.inr (.inr ⟨e, he, hi, ho.le_trans hdue hle⟩))
    · exact .inr hgiven
  · exact .inl (.inr (.inl ⟨d, (h.deadline? i).symm.trans hd, hdue⟩))
  · exact .inl (.inr (.inr ⟨e, h.fewer e he, hi, hdue⟩))

theorem Accounted.trans (ho : Linear σ) (h : Accounted given t u) (h' : Accounted given' u v) :
    Accounted (fun i => given i ∨ given' i) t v where
  toLater := IsTrans.trans _ _ _ h.toLater h'.toLater
  forward := ho.le_trans h.forward h'.forward
  reason i hi := by
    rcases h'.reason i hi with hb | hgiven
    · exact (h.toLater.bound ho h'.forward (h.reason i) hb).imp_right .inl
    · exact .inr (.inr hgiven)

theorem Accounted.mono (h : Accounted given t u) (hgiven : ∀ i, given i → given' i) : Accounted given' t u :=
  ⟨h.toLater, h.forward, fun i hi => (h.reason i hi).imp_right (hgiven i)⟩

theorem accounted_refl (ho : Linear σ) (t : Timeline σ) : Accounted given t t :=
  ⟨Std.Refl.refl t, ho.le_refl _, fun _ hi => .inl (.inl hi)⟩

theorem accounted_now {now : σ} (h : le t.now now = true) : Accounted given t { t with now } :=
  ⟨later_now t now, h, fun _ hi => .inl (.inl hi)⟩

/-- Somebody cancels a token. -/
theorem accounted_cancel (ho : Linear σ) (t : Timeline σ) (id : TokenId) : Accounted (· = id) t (t.cancel id) where
  toLater := later_cancel t id
  forward := ho.le_refl _
  reason i hi := by
    rcases (flagged_cancel t id).1 hi with hflag | ⟨rfl, -⟩
    · exact .inl (.inl hflag)
    · exact .inr rfl

theorem accounted_isCancelled (ho : Linear σ) (t : Timeline σ) (id : TokenId) :
    Accounted given t (t.isCancelled id).2 := by
  have hlook := look t (t.chain id)
  rw [isCancelled]
  generalize t.anyCancelled (t.chain id) = r at hlook
  cases hlook with
  | clear _ _ => exact accounted_refl ho t
  | flagged _ _ => exact accounted_refl ho t
  | @expired j d _ hd hle =>
    refine ⟨later_cancel t j, ho.le_refl _, ?_⟩
    intro i hi
    rcases (flagged_cancel t j).1 hi with hflag | ⟨rfl, -⟩
    · exact .inl (.inl hflag)
    · exact .inl (.inr (.inl ⟨d, hd, hle⟩))

theorem accounted_moveTo (ho : Linear σ) {target : σ} (waiting : Option TokenId) : ∀ (fuel : Nat) {t : Timeline σ},
    le t.now target = true → Accounted (fun _ => False) t (t.moveTo target waiting fuel)
  | 0, _, htarget => accounted_now htarget
  | fuel + 1, t, htarget => by
    rw [moveTo]
    split
    next => exact accounted_now htarget
    next instant other rest hsplit =>
      have hdue : le instant target = true := le_of_splitDue hsplit
      have hmoved : le (larger t.now instant) target = true := ho.larger_le htarget hdue
      have hfirst : Accounted (fun _ => False) t
          (({ t with now := larger t.now instant, scheduled := rest } : Timeline σ).cancel other) := by
        refine ⟨later_splitDue hsplit _, ho.le_larger_left _ _, ?_⟩
        intro i hi
        rcases (flagged_cancel _ _).1 hi with hflag | ⟨rfl, -⟩
        · exact .inl (.inl hflag)
        · exact .inl (.inr (.inr ⟨(instant, i), (mem_of_splitDue hsplit).1, rfl, ho.le_larger_right _ _⟩))
      dsimp only
      split
      · exact hfirst
      · exact (hfirst.trans ho (accounted_moveTo ho waiting fuel hmoved)).mono fun _ h => h.elim (fun h => h) fun h => h

theorem accounted_advance (ho : Linear σ) (t : Timeline σ) {seconds : σ} (h : le Seconds.zero seconds = true) :
    Accounted (fun _ => False) t (t.advance seconds) := accounted_moveTo ho none _ (ho.le_add t.now h)

theorem accounted_waitRounds (ho : Linear σ) (goal : σ) (patience : Nat) {t u : Timeline σ} {b : Bool}
    (hw : waitRounds id goal patience t = some (b, u)) : Accounted (fun _ => False) t u :=
  waitRounds_related (R := Accounted fun _ => False) (fun h h' => (h.trans ho h').mono fun _ hi => (or_self_iff).1 hi)
    (fun t => accounted_isCancelled ho t id) (fun _ _ htarget => accounted_moveTo ho _ _ (htarget ho.toOrdered)) goal
    patience hw

theorem accounted_wait (ho : Linear σ) {patience : Nat} {seconds : σ} {b : Bool}
    (h : t.wait patience id seconds = some (b, u)) : Accounted (fun _ => False) t u := accounted_waitRounds ho _ patience h

/-- Where a token counts as cancelled in the end, there is a reason for it or one of the flags that are given is its own or
that of an ancestor. -/
theorem Accounted.of_isCancelled (h : Accounted given t u) (hc : (u.isCancelled id).1 = true) :
    ∃ i ∈ t.chain id, t.Bound i u.now ∨ given i := by
  rcases isCancelled_eq_true_iff.1 hc with ⟨i, hi, hflag⟩ | ⟨i, hi, d, hd, hle⟩
  · exact ⟨i, h.chain id ▸ hi, h.reason i hflag⟩
  · exact ⟨i, h.chain id ▸ hi, .inl (.inr (.inl ⟨d, (h.deadline? i).symm.trans hd, hle⟩))⟩

/-- A new token is no reason for the flag of an old one to be set. -/
theorem bound_addToken {deadline : Option σ} {parent : Option TokenId} (hi : (i : Nat) < t.tokens.length) {instant : σ} :
    (t.addToken deadline parent).2.Bound i instant ↔ t.Bound i instant := by
  have hsame : (t.addToken deadline parent).2.tokens[i]? = t.tokens[i]? := List.getElem?_append_left hi
  simp only [Bound, Flagged, Timeline.deadline?, hsame]
  rfl

end Adjudication.Time.Timeline
