import Adjudication.Proofs.Json.Numbers

/-!
What the readers of JSON do when they read something: a value is a string, an atom or a container, a member is a name and a
value, an item is a value, and each is followed by what its container has left.
-/

namespace Adjudication.Json

open Sign

variable {levels fuel : Nat} {s rest : List Nat}

theorem map_eq_ok {ε α β : Type} {x : Except ε α} {f : α → β} {b : β} (h : x.map f = .ok b) : ∃ a, x = .ok a ∧ f a = b := by
  cases x with
  | error e => cases h
  | ok a => exact ⟨a, rfl, Except.ok.inj h⟩

/-- A reading whose value is made of another one. -/
theorem mapped_eq_ok {α β : Type} {r : Reading α} {b : β} (f : α → β)
    (h : (r.map fun p => (f p.1, p.2)) = .ok (b, rest)) : ∃ a, r = .ok (a, rest) ∧ b = f a := by
  obtain ⟨⟨a, left⟩, hr, ha⟩ := map_eq_ok h
  obtain ⟨rfl, rfl⟩ := Prod.mk.inj ha
  exact ⟨a, hr, rfl⟩

/-- How a value is read. -/
inductive ReadsValue (levels fuel : Nat) (rest : List Nat) : List Nat → Json → Prop
  | string {tail : List Nat} {t : Text.Wide} (h : readString (quotation :: tail) tail = .ok (t, rest)) :
    ReadsValue levels fuel rest (quotation :: tail) (ofWide t)
  | atom {s : List Nat} {v : Json} (h : readAtom s = .ok (v, rest)) : ReadsValue levels fuel rest s v
  | noMembers {tail : List Nat} (h : skipSpace tail = closeBrace :: rest) :
    ReadsValue levels fuel rest (openBrace :: tail) (.obj [])
  | members {tail : List Nat} {ms : Members} (h : readMembers (levels - 1) fuel (skipSpace tail) = .ok (ms, rest)) :
    ReadsValue levels fuel rest (openBrace :: tail) (.obj (Members.ofWritten ms))
  | noItems {tail : List Nat} (h : skipSpace tail = closeBracket :: rest) :
    ReadsValue levels fuel rest (openBracket :: tail) (.arr [])
  | items {tail : List Nat} {items : List Json} (h : readItems (levels - 1) fuel (skipSpace tail) = .ok (items, rest)) :
    ReadsValue levels fuel rest (openBracket :: tail) (.arr items)

theorem readsValue {v : Json} (h : readValue levels (fuel + 1) s = .ok (v, rest)) : ReadsValue levels fuel rest s v := by
  rw [readValue.eq_def] at h
  dsimp only at h
  split at h
  next tail =>
    obtain ⟨t, ht, rfl⟩ := mapped_eq_ok ofWide h
    exact .string ht
  next tail =>
    split at h
    · cases h
    · split at h
      next hclose =>
        obtain ⟨rfl, rfl⟩ := Prod.mk.inj (Except.ok.inj h)
        exact .noMembers hclose
      next =>
        obtain ⟨ms, hms, rfl⟩ := mapped_eq_ok (fun ms => Json.obj (Members.ofWritten ms)) h
        exact .members hms
  next tail =>
    split at h
    · cases h
    · split at h
      next hclose =>
        obtain ⟨rfl, rfl⟩ := Prod.mk.inj (Except.ok.inj h)
        exact .noItems hclose
      next =>
        obtain ⟨items, hitems, rfl⟩ := mapped_eq_ok Json.arr h
        exact .items hitems
  next => exact .atom h

/-- How members are read: a name, a colon, a value, and then the end or other members. -/
structure ReadsMembers (levels fuel : Nat) (s : List Nat) (ms : Members) (rest : List Nat) where
  tail : List Nat
  name : Text.Wide
  named : List Nat
  before : List Nat
  value : Json
  left : List Nat
  begins : s = quotation :: tail
  name_eq : readString s tail = .ok (name, named)
  colon_eq : skipSpace named = colon :: before
  value_eq : readValue levels fuel (skipSpace before) = .ok (value, left)
  ends : (skipSpace left = closeBrace :: rest ∧ ms = [(name, value)]) ∨ ∃ after more, skipSpace left = comma :: after ∧
    readMembers levels fuel (skipSpace after) = .ok (more, rest) ∧ ms = (name, value) :: more

theorem readsMembers {ms : Members} (h : readMembers levels (fuel + 1) s = .ok (ms, rest)) :
    Nonempty (ReadsMembers levels fuel s ms rest) := by
  rw [readMembers.eq_def] at h
  dsimp only at h
  split at h
  next tail =>
    split at h
    · cases h
    next name named hname =>
      split at h
      next before hcolon =>
        split at h
        · cases h
        next value left hvalue =>
          refine ⟨⟨tail, name, named, before, value, left, rfl, hname, hcolon, hvalue, ?_⟩⟩
          split at h
          next hclose =>
            obtain ⟨rfl, rfl⟩ := Prod.mk.inj (Except.ok.inj h)
            exact .inl ⟨hclose, rfl⟩
          next after hcomma =>
            obtain ⟨more, hmore, rfl⟩ := mapped_eq_ok ((name, value) :: ·) h
            exact .inr ⟨after, more, hcomma, hmore, rfl⟩
          next => cases h
      next => cases h
  next => cases h

/-- How items are read: a value, and then the end or other items. -/
theorem readItems_eq_ok {items : List Json} (h : readItems levels (fuel + 1) s = .ok (items, rest)) :
    ∃ value left, readValue levels fuel s = .ok (value, left) ∧
      ((skipSpace left = closeBracket :: rest ∧ items = [value]) ∨ ∃ after more, skipSpace left = comma :: after ∧
        readItems levels fuel (skipSpace after) = .ok (more, rest) ∧ items = value :: more) := by
  rw [readItems.eq_def] at h
  dsimp only at h
  split at h
  · cases h
  next value left hvalue =>
    refine ⟨value, left, hvalue, ?_⟩
    split at h
    next hclose =>
      obtain ⟨rfl, rfl⟩ := Prod.mk.inj (Except.ok.inj h)
      exact .inl ⟨hclose, rfl⟩
    next after hcomma =>
      obtain ⟨more, hmore, rfl⟩ := mapped_eq_ok (value :: ·) h
      exact .inr ⟨after, more, hcomma, hmore, rfl⟩
    next => cases h

end Adjudication.Json
