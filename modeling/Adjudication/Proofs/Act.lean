import Adjudication.Retry

/-!
How a computation with a state and failures runs. A sequence is run part by part up to the first failure; a row of
computations made one after the other comes to all their values, or to the first failure among them, and each of
them starts in the state that the ones before it have left.
-/

namespace Adjudication.Act

variable {S ε ε' α β : Type}

@[simp]
theorem pure_run (a : α) (s : S) : (pure a : Act S ε α) s = (.ok a, s) := rfl

@[simp]
theorem throw_run (e : ε) (s : S) : (throw e : Act S ε α) s = (.error e, s) := rfl

theorem get_run (s : S) : (get : Act S ε S) s = (.ok s, s) := rfl

/-! ### Results

A result is a value or a failure together with the state that is left; it stands under the monad that passes the state
on, where the equations of pairs are not found by themselves. -/

@[simp]
theorem ok_eq_ok {a b : α} {s t : S} : @Eq (Id (Except ε α × S)) (.ok a, s) (.ok b, t) ↔ a = b ∧ s = t := by
  show (Except.ok a, s) = (Except.ok b, t) ↔ _
  simp

@[simp]
theorem error_eq_error {e f : ε} {s t : S} :
    @Eq (Id (Except ε α × S)) (.error e, s) (.error f, t) ↔ e = f ∧ s = t := by
  show (Except.error e, s) = (Except.error f, t) ↔ _
  simp

@[simp]
theorem ok_ne_error {a : α} {e : ε} {s t : S} : ¬@Eq (Id (Except ε α × S)) (.ok a, s) (.error e, t) :=
  fun h => by simpa using congrArg Prod.fst h

@[simp]
theorem error_ne_ok {a : α} {e : ε} {s t : S} : ¬@Eq (Id (Except ε α × S)) (.error e, s) (.ok a, t) :=
  fun h => by simpa using congrArg Prod.fst h

/-! ### Sequences -/

theorem bind_run (x : Act S ε α) (f : α → Act S ε β) (s : S) :
    (x >>= f) s = match x s with
      | (.ok a, t) => f a t
      | (.error e, t) => (.error e, t) := by
  show ExceptT.bindCont f (x s).1 (x s).2 = _
  rcases x s with ⟨_ | _, _⟩ <;> rfl

theorem bind_of_ok {x : Act S ε α} {f : α → Act S ε β} {s t : S} {a : α} (h : x s = (.ok a, t)) :
    (x >>= f) s = f a t := by
  rw [bind_run, h]

theorem bind_of_error {x : Act S ε α} {f : α → Act S ε β} {s t : S} {e : ε} (h : x s = (.error e, t)) :
    (x >>= f) s = (.error e, t) := by
  rw [bind_run, h]

/-- A sequence that comes to a value has come to one in each of its parts. -/
theorem bind_eq_ok {x : Act S ε α} {f : α → Act S ε β} {s t : S} {b : β} (h : (x >>= f) s = (.ok b, t)) :
    ∃ a u, x s = (.ok a, u) ∧ f a u = (.ok b, t) := by
  rcases hx : x s with ⟨e | a, u⟩
  · rw [bind_of_error hx] at h
    exact absurd h error_ne_ok
  · exact ⟨a, u, rfl, (bind_of_ok hx).symm.trans h⟩

/-- A run whose value passes a test gives a value that passes it. -/
theorem eq_ok_of_any {x : Except ε α × S} {test : α → Bool} (h : x.1.toOption.any test = true) :
    ∃ a t, x = (.ok a, t) ∧ test a = true := by
  obtain ⟨r, t⟩ := x
  cases r with
  | error e => cases h
  | ok a => exact ⟨a, t, rfl, h⟩

/-- A change of what failures are called changes nothing else. -/
theorem adapt_run (f : ε → ε') (x : Act S ε α) (s : S) :
    (ExceptT.adapt f x : Act S ε' α) s = ((x s).1.mapError f, (x s).2) := rfl

/-! ### One after the other -/

/-- The state that computations made one after the other leave, whatever each comes to. -/
def after (f : α → Act S ε β) (xs : List α) (s : S) : S := xs.foldl (fun s x => (f x s).2) s

@[simp]
theorem after_nil (f : α → Act S ε β) (s : S) : after f [] s = s := rfl

@[simp]
theorem after_cons (f : α → Act S ε β) (x : α) (xs : List α) (s : S) :
    after f (x :: xs) s = after f xs (f x s).2 := rfl

theorem mapM_cons_of_ok {f : α → Act S ε β} {x : α} {xs : List α} {s t : S} {b : β} (h : f x s = (.ok b, t)) :
    (x :: xs).mapM f s = ((xs.mapM f t).1.map (b :: ·), (xs.mapM f t).2) := by
  rw [List.mapM_cons, bind_of_ok h, bind_run]
  rcases xs.mapM f t with ⟨_ | _, _⟩ <;> rfl

theorem mapM_cons_of_error {f : α → Act S ε β} {x : α} {xs : List α} {s t : S} {e : ε}
    (h : f x s = (.error e, t)) : (x :: xs).mapM f s = (.error e, t) := by
  rw [List.mapM_cons, bind_of_error h]

/-- If each of them comes to a value where it starts, all of them come to these values. -/
theorem mapM_of_forall_ok (f : α → Act S ε β) : ∀ (xs : List α) (s : S),
    (∀ i (hi : i < xs.length), ∃ b, (f xs[i] (after f (xs.take i) s)).1 = .ok b) →
    ∃ bs, xs.mapM f s = (.ok bs, after f xs s) ∧ bs.length = xs.length ∧
      ∀ i (hi : i < xs.length) (hb : i < bs.length), (f xs[i] (after f (xs.take i) s)).1 = .ok bs[i]
  | [], s, _ => ⟨[], rfl, rfl, fun i hi => by simp at hi⟩
  | x :: xs, s, h => by
    obtain ⟨b, hb⟩ := h 0 (by simp)
    have hx : f x s = (.ok b, (f x s).2) := Prod.ext hb rfl
    obtain ⟨bs, hbs, hlen, hall⟩ := mapM_of_forall_ok f xs (f x s).2 fun i hi =>
      h (i + 1) (Nat.succ_lt_succ hi)
    refine ⟨b :: bs, ?_, by simp [hlen], ?_⟩
    · rw [mapM_cons_of_ok hx, hbs, after_cons]
      rfl
    · rintro (_ | i) hi hb'
      · exact hb
      · exact hall i (Nat.lt_of_succ_lt_succ hi) (Nat.lt_of_succ_lt_succ hb')

/-! ### What is gathered -/

/-- What a row of results comes to, where `R i` tells what the one at `i` may be: all values in their order, or the
failure that follows some values. -/
def Gathered (R : Nat → Except ε β → Prop) (n : Nat) : Except ε (List β) → Prop
  | .ok bs => bs.length = n ∧ ∀ (i : Nat) (b : β), bs[i]? = some b → R i (.ok b)
  | .error e => ∃ bs : List β, bs.length < n ∧ (∀ (i : Nat) (b : β), bs[i]? = some b → R i (.ok b)) ∧
      R bs.length (.error e)

theorem Gathered.cons {R : Nat → Except ε β → Prop} {n : Nat} {b : β} {x : Except ε (List β)} (hb : R 0 (.ok b))
    (h : Gathered (fun i => R (i + 1)) n x) : Gathered R (n + 1) (x.map (b :: ·)) := by
  have hcons : ∀ bs : List β, (∀ (i : Nat) (b : β), bs[i]? = some b → R (i + 1) (.ok b)) →
      ∀ (i : Nat) (b' : β), (b :: bs)[i]? = some b' → R i (.ok b') := by
    rintro bs hbs (_ | i) b' hi
    · obtain rfl : b = b' := by simpa using hi
      exact hb
    · exact hbs i b' (by simpa using hi)
  cases x with
  | ok bs => exact ⟨congrArg (· + 1) h.1, hcons bs h.2⟩
  | error e =>
    obtain ⟨bs, hlen, hbs, he⟩ := h
    exact ⟨b :: bs, Nat.succ_lt_succ hlen, hcons bs hbs, he⟩

/-- Computations made one after the other gather what each of them comes to where it starts. -/
theorem mapM_gathered (f : α → Act S ε β) : ∀ (xs : List α) (s : S) (R : Nat → Except ε β → Prop),
    (∀ i (hi : i < xs.length), R i (f xs[i] (after f (xs.take i) s)).1) → Gathered R xs.length (xs.mapM f s).1
  | [], _, _, _ => ⟨rfl, fun i b hb => by simp at hb⟩
  | x :: xs, s, R, h => by
    have hx : R 0 (f x s).1 := h 0 (Nat.succ_pos _)
    rcases hr : f x s with ⟨e | b, t⟩
    · rw [mapM_cons_of_error hr]
      rw [hr] at hx
      exact ⟨[], Nat.succ_pos _, fun i b hb => by simp at hb, hx⟩
    · rw [mapM_cons_of_ok hr]
      rw [hr] at hx
      refine .cons hx (mapM_gathered f xs t (fun i => R (i + 1)) fun i hi => ?_)
      have hrest := h (i + 1) (Nat.succ_lt_succ hi)
      rw [List.take_succ_cons, after_cons, hr] at hrest
      exact hrest

/-- Results that are given beforehand are gathered in one way. -/
theorem Gathered.eq_mapM : ∀ {rs : List (Except ε β)} {x : Except ε (List β)},
    Gathered (fun i r => rs[i]? = some r) rs.length x → x = rs.mapM id
  | [], .ok bs, ⟨hlen, _⟩ => by
    obtain rfl := List.length_eq_zero_iff.1 hlen
    rfl
  | [], .error e, ⟨_, hlen, _⟩ => absurd hlen (Nat.not_lt_zero _)
  | r :: rs, .ok [], ⟨hlen, _⟩ => by simp at hlen
  | r :: rs, .ok (b :: bs), ⟨hlen, h⟩ => by
    obtain rfl : r = .ok b := by simpa using h 0 b rfl
    have hrest : Gathered (fun i r => rs[i]? = some r) rs.length (.ok bs) :=
      ⟨by simpa using hlen, fun i b' hb => by simpa using h (i + 1) b' (by simpa using hb)⟩
    rw [List.mapM_cons, ← hrest.eq_mapM]
    rfl
  | r :: rs, .error e, ⟨[], _, _, he⟩ => by
    obtain rfl : r = .error e := by simpa using he
    rfl
  | r :: rs, .error e, ⟨b :: bs, hlen, h, he⟩ => by
    obtain rfl : r = .ok b := by simpa using h 0 b rfl
    have hrest : Gathered (fun i r => rs[i]? = some r) rs.length (.error e : Except ε (List β)) :=
      ⟨bs, by simpa using hlen, fun i b' hb => by simpa using h (i + 1) b' (by simpa using hb), by simpa using he⟩
    rw [List.mapM_cons, ← hrest.eq_mapM]
    rfl

end Adjudication.Act
