import Adjudication.Schema.Scalar

/-!
Checks against a schema. A check of several fields passes just if each of them does, and what has been written for a field
passes its check.
-/

namespace Adjudication.Schema

variable {α : Type}

@[simp] theorem Checked.map_ok {δ β : Type} (f : α → β) (a : α) : f <$> (Checked.ok a : Checked δ α) = .ok (f a) := rfl

@[simp] theorem Checked.seq_ok {δ β : Type} (f : α → β) (a : α) : (Checked.ok f : Checked δ (α → β)) <*> .ok a = .ok (f a) := rfl

@[simp] theorem Checked.under_ok {δ : Type} (step : Step) (a : α) : (Checked.ok a : Checked δ α).under step = .ok a := rfl

theorem Checked.map_eq_ok {δ β : Type} {f : α → β} {c : Checked δ α} {b : β} (h : f <$> c = .ok b) :
    ∃ a, c = .ok a ∧ f a = b := by
  cases c with
  | ok a => exact ⟨a, rfl, Checked.ok.inj h⟩
  | faulty faults => cases h

theorem Checked.seq_eq_ok {δ β : Type} {f : Checked δ (α → β)} {c : Checked δ α} {b : β} (h : f <*> c = .ok b) :
    ∃ g a, f = .ok g ∧ c = .ok a ∧ g a = b := by
  cases f with
  | ok g =>
    cases c with
    | ok a => exact ⟨g, a, rfl, rfl, Checked.ok.inj h⟩
    | faulty faults => cases h
  | faulty faults => cases c <;> cases h

theorem Checked.under_eq_ok {δ : Type} {step : Step} {c : Checked δ α} {a : α} (h : c.under step = .ok a) : c = .ok a := by
  cases c with
  | ok b => exact congrArg Checked.ok (Checked.ok.inj h)
  | faulty faults => cases h

theorem Checked.under_eq_ok_iff {δ : Type} {step : Step} {c : Checked δ α} {a : α} : c.under step = .ok a ↔ c = .ok a :=
  ⟨Checked.under_eq_ok, fun h => (congrArg (Checked.under step) h).trans rfl⟩

theorem Checked.bind_eq_ok {δ β : Type} {c : Checked δ α} {f : α → Checked δ β} {b : β} (h : c.bind f = .ok b) :
    ∃ a, c = .ok a ∧ f a = .ok b := by
  cases c with
  | ok a => exact ⟨a, rfl, h⟩
  | faulty faults => cases h

/-- Validation passes just what its check passes. -/
theorem validate_eq_ok_iff {δ : Type} {title : String} {check : δ → Checked δ α} {d : δ} {a : α} :
    validate title check d = .ok a ↔ check d = .ok a := by
  rw [validate]
  cases check d <;> simp

theorem record_obj (name : String) (ms : Json.Members) (fields : Json.Members → Checked Json α) :
    record name (.obj ms) fields = fields ms := rfl

theorem record_eq_ok {δ : Type} [Shaped δ] {name : String} {d : δ} {fields : List (Text.Wide × δ) → Checked δ α} {a : α}
    (h : record name d fields = .ok a) : ∃ ms, shape d = .table ms ∧ fields ms = .ok a := by
  rw [record] at h
  split at h
  next ms hshape => exact ⟨ms, hshape, h⟩
  next => cases h

/-- A field that has to be there is there, and its value has passed. -/
theorem exists_of_required {δ : Type} {whole : δ} {ms : List (Text.Wide × δ)} {name : String} {check : δ → Checked δ α}
    {a : α} (h : required whole ms name check = .ok a) : ∃ v, member? name ms = some v ∧ check v = .ok a := by
  rw [required] at h
  split at h
  next v hv => exact ⟨v, hv, Checked.under_eq_ok h⟩
  next => cases h

/-- A field with a default has it, or its value has passed. -/
theorem eq_or_exists_of_defaulted {δ : Type} {ms : List (Text.Wide × δ)} {name : String} {value : α}
    {check : δ → Checked δ α} {a : α} (h : defaulted ms name value check = .ok a) : a = value ∨ ∃ v, check v = .ok a := by
  rw [defaulted] at h
  split at h
  next v _ => exact .inr ⟨v, Checked.under_eq_ok h⟩
  next => exact .inl (Checked.ok.inj h).symm

theorem required_eq_ok {whole : Json} {ms : Json.Members} {name : String} {check : Json → Checked Json α} {v : Json} {a : α}
    (hv : ms.get? (.text name) = some v) (h : check v = .ok a) : required whole ms name check = .ok a := by
  rw [required, member?_eq_get?, hv]
  dsimp only
  rw [h]
  rfl

theorem defaulted_eq_ok {ms : Json.Members} {name : String} {value : α} {check : Json → Checked Json α} {v : Json} {a : α}
    (hv : ms.get? (.text name) = some v) (h : check v = .ok a) : defaulted ms name value check = .ok a := by
  rw [defaulted, member?_eq_get?, hv]
  dsimp only
  rw [h]
  rfl

/-- A field with a default has it if there is no value, and else what its value passes as. -/
theorem defaulted_eq_ok_iff {ms : Json.Members} {name : String} {value : α} {check : Json → Checked Json α} {a : α} :
    defaulted ms name value check = .ok a ↔
      ms.get? (.text name) = none ∧ a = value ∨ ∃ d, ms.get? (.text name) = some d ∧ check d = .ok a := by
  rw [defaulted, member?_eq_get?]
  cases ms.get? (.text name) with
  | none => simp [eq_comm]
  | some d => simp [Checked.under_eq_ok_iff]

theorem nullable_eq_ok_iff {check : Json → Checked Json α} {d : Json} {o : Option α} :
    nullable check d = .ok o ↔ d = .null ∧ o = none ∨ d ≠ .null ∧ ∃ a, check d = .ok a ∧ o = some a := by
  have hsome : (some <$> check d = .ok o) ↔ ∃ a, check d = .ok a ∧ o = some a := by
    cases check d with
    | ok a => simp [eq_comm]
    | faulty faults => exact iff_of_false nofun nofun
  cases d with
  | null => simp [nullable, shape, eq_comm]
  | _ => simp [nullable, shape, hsome]

theorem nullable_ofOption {f : α → Json} {check : Json → Checked Json α} {o : Option α} (hf : ∀ a, f a ≠ .null)
    (h : ∀ a ∈ o, check (f a) = .ok a) : nullable check (.ofOption f o) = .ok o := by
  cases o with
  | none => rfl
  | some a =>
    have hshape : ∀ {d : Json}, shape d = .null → d = .null := fun {d} hd => by
      cases d <;> first | rfl | cases hd
    rw [Json.ofOption, nullable]
    split
    next hnull => exact absurd (hshape hnull) (hf a)
    next =>
      rw [h a rfl]
      rfl

/-- What a row of items passes as has passed item by item. -/
theorem exists_of_mem_each {δ : Type} {check : δ → Checked δ α} {items : List δ} {values : List α}
    (h : each check items = .ok values) : ∀ a ∈ values, ∃ d, check d = .ok a := by
  rw [each] at h
  generalize 0 = i at h
  induction items generalizing i values with
  | nil =>
    obtain rfl := Checked.ok.inj h
    exact List.forall_mem_nil _
  | cons d items ih =>
    obtain ⟨make, rest, hmake, hrest, rfl⟩ := Checked.seq_eq_ok h
    obtain ⟨first, hfirst, rfl⟩ := Checked.map_eq_ok hmake
    exact List.forall_mem_cons.2 ⟨⟨d, Checked.under_eq_ok hfirst⟩, ih (i + 1) hrest⟩

theorem exists_of_mem_tupleOf {δ : Type} [Shaped δ] {check : δ → Checked δ α} {d : δ} {values : List α}
    (h : tupleOf check d = .ok values) : ∀ a ∈ values, ∃ v, check v = .ok a := by
  rw [tupleOf] at h
  split at h
  next items _ => exact exists_of_mem_each h
  next => cases h

theorem each_map {f : α → Json} {check : Json → Checked Json α} {items : List α} (h : ∀ a ∈ items, check (f a) = .ok a) :
    each check (items.map f) = .ok items := by
  have hgo : ∀ i, each.go check i (items.map f) = .ok items := by
    induction items with
    | nil => exact fun i => rfl
    | cons a items ih =>
      intro i
      obtain ⟨ha, hrest⟩ := List.forall_mem_cons.1 h
      rw [List.map_cons, each.go, ha, ih hrest]
      rfl
  exact hgo 0

theorem tupleOf_map {f : α → Json} {check : Json → Checked Json α} {items : List α} (h : ∀ a ∈ items, check (f a) = .ok a) :
    tupleOf check (.arr (items.map f)) = .ok items := each_map h

theorem shape_str (s : String) : shape (Json.str s) = .text s := rfl

theorem textOf?_str (s : String) : textOf? (Json.str s) = some (some s) := rfl

theorem text_ofWide (t : Text.Wide) : text (Json.ofWide t) = .ok t := by cases t <;> rfl

theorem integer_int (i : Int) : integer (Json.int i) = .ok i := rfl

theorem nullable_ofWide (o : Option Text.Wide) : nullable text (Json.ofOption .ofWide o) = .ok o :=
  nullable_ofOption (fun t => by cases t <;> simp [Json.ofWide]) fun t _ => text_ofWide t

theorem nullable_int (o : Option Int) : nullable integer (Json.ofOption .int o) = .ok o :=
  nullable_ofOption (fun _ => by simp) fun i _ => integer_int i

/-! ### Probabilities -/

theorem bounds_of_probability {δ : Type} [Shaped δ] {d : δ} {x : Float} (h : probability d = .ok x) : 0.0 ≤ x ∧ x ≤ 1.0 := by
  rw [probability] at h
  cases hn : number d with
  | faulty faults =>
    rw [hn] at h
    cases h
  | ok y =>
    rw [hn] at h
    simp only [Checked.bind] at h
    split at h
    · cases h
    · split at h
      · cases h
      next hone hzero =>
        obtain rfl := Checked.ok.inj h
        exact ⟨Decidable.not_not.1 hzero, Decidable.not_not.1 hone⟩

/-- What has passed for a probability passes again as the double that it was taken for. -/
theorem probability_double {δ : Type} [Shaped δ] {d : δ} {x : Float} (h : probability d = .ok x) :
    probability (Json.double x) = .ok x := by
  obtain ⟨hzero, hone⟩ := bounds_of_probability h
  have hnumber : number (Json.double x) = .ok x := rfl
  rw [probability, hnumber]
  simp only [Checked.bind]
  rw [if_neg (not_not_intro hone), if_neg (not_not_intro hzero)]

end Adjudication.Schema
