import Adjudication.Proofs.Json.Readers

/-!
Integers that are read are short: reading refuses the others, and a value has no integers but those that stand in its text.
Nor is anything read that lies too deep.
-/

namespace Adjudication.Json

open Decimal (Short)
open Sign

/-- A value all of whose integers are short. -/
inductive Brief : Json → Prop
  | null : Brief null
  | bool (b : Bool) : Brief (bool b)
  | int {i : Int} (h : Short i) : Brief (int i)
  | double (x : Float) : Brief (double x)
  | str (s : String) : Brief (str s)
  | torn (t : Text.Torn) : Brief (torn t)
  | arr {items : List Json} (h : ∀ v ∈ items, Brief v) : Brief (arr items)
  | obj {ms : Members} (h : ∀ m ∈ ms, Brief m.2) : Brief (obj ms)

variable {s rest : List Nat} {v : Json} {levels : Nat}

/-! ### Parts of a value -/

theorem Brief.short {i : Int} (h : Brief (.int i)) : Short i := by
  cases h with
  | int h => exact h

theorem Brief.item {items : List Json} (h : Brief (.arr items)) : ∀ v ∈ items, Brief v := by
  cases h with
  | arr h => exact h

theorem Brief.get? {ms : Members} (h : Brief (.obj ms)) {name : Text.Wide} (hv : ms.get? name = some v) : Brief v := by
  cases h with
  | obj h =>
    induction ms with
    | nil => cases hv
    | cons m ms ih =>
      obtain ⟨hm, hms⟩ := List.forall_mem_cons.1 h
      rw [Members.get?] at hv
      split at hv
      · exact Option.some.inj hv ▸ hm
      · exact ih hv hms

theorem brief_ofWide (t : Text.Wide) : Brief (ofWide t) := by
  cases t with
  | text s => exact .str s
  | torn t => exact .torn t

theorem brief_put {ms : Members} (h : ∀ m ∈ ms, Brief m.2) (name : Text.Wide) (hv : Brief v) :
    ∀ m ∈ ms.put name v, Brief m.2 := by
  induction ms with
  | nil => exact List.forall_mem_singleton.2 hv
  | cons m ms ih =>
    obtain ⟨hm, hms⟩ := List.forall_mem_cons.1 h
    rw [Members.put]
    split
    · exact List.forall_mem_cons.2 ⟨hv, hms⟩
    · exact List.forall_mem_cons.2 ⟨hm, ih hms⟩

theorem brief_ofWritten {written : Members} (h : ∀ m ∈ written, Brief m.2) : Brief (.obj (Members.ofWritten written)) := by
  suffices hfold : ∀ ms : Members, (∀ m ∈ ms, Brief m.2) →
      ∀ m ∈ written.foldl (fun ms m => Members.put m.1 m.2 ms) ms, Brief m.2 from
    .obj (hfold [] (by simp))
  induction written with
  | nil => exact fun ms hms => hms
  | cons m written ih =>
    obtain ⟨hm, hwritten⟩ := List.forall_mem_cons.1 h
    exact fun ms hms => ih hwritten _ (brief_put hms m.1 hm)

/-! ### Reading -/

theorem isDigit_of_mem_digitRun {c : Char} (h : c ∈ digitRun s) : Decimal.isDigit c = true := by
  obtain ⟨code, hcode, rfl⟩ := List.mem_map.1 h
  have hdigit := List.all_eq_true.1 (List.all_takeWhile (l := s) (p := isDigit)) code hcode
  obtain ⟨hleast, hgreatest⟩ : 0x30 ≤ code ∧ code ≤ 0x39 := by simpa [isDigit] using hdigit
  obtain rfl | rfl | rfl | rfl | rfl | rfl | rfl | rfl | rfl | rfl : code = 0x30 ∨ code = 0x31 ∨ code = 0x32 ∨ code = 0x33 ∨
      code = 0x34 ∨ code = 0x35 ∨ code = 0x36 ∨ code = 0x37 ∨ code = 0x38 ∨ code = 0x39 := by omega
  all_goals rfl

theorem isDigit_of_mem_wholeOf {c : Char} (h : c ∈ wholeOf s) : Decimal.isDigit c = true := by
  rw [wholeOf] at h
  split at h
  · obtain rfl := List.mem_singleton.1 h
    rfl
  · exact isDigit_of_mem_digitRun h

theorem brief_of_readMagnitude {negative : Bool} {start : List Nat} (h : readMagnitude negative start s = .ok (v, rest)) :
    Brief v := by
  rw [readMagnitude_eq] at h
  dsimp only at h
  split at h
  · cases h
  · split at h
    · split at h
      · cases h
      next hlimit =>
        obtain ⟨rfl, -⟩ := Prod.mk.inj (Except.ok.inj h)
        have hvalue : Decimal.valueOf (wholeOf s) < 10 ^ Decimal.digitLimit :=
          Nat.lt_of_lt_of_le (Decimal.valueOf_lt fun c => isDigit_of_mem_wholeOf)
            (Nat.pow_le_pow_right (by decide) (Nat.not_lt.1 hlimit))
        refine .int (Decimal.short_iff.2 ?_)
        split
        · rwa [Int.natAbs_neg]
        · exact hvalue
    · obtain ⟨rfl, -⟩ := Prod.mk.inj (Except.ok.inj h)
      exact .double _

theorem brief_of_readAtom (h : readAtom s = .ok (v, rest)) : Brief v := by
  have hword : ∀ {w u}, Brief u → readAtom.word s w u = .ok (v, rest) → Brief v := fun hu hw =>
    (word_eq_ok.1 hw).2 ▸ hu
  cases s with
  | nil => cases h
  | cons c tail =>
    rw [readAtom_cons] at h
    split at h
    · exact hword .null h
    · exact hword (.bool _) h
    · exact hword (.bool _) h
    · exact hword (.double _) h
    · exact hword (.double _) h
    · split at h
      · obtain ⟨rfl, -⟩ := Prod.mk.inj (Except.ok.inj h)
        exact .double _
      · exact brief_of_readMagnitude h
    · exact brief_of_readMagnitude h

/-- Whatever the fuel, what is read is brief: values, members and items. -/
theorem brief_of_reading (fuel : Nat) : ∀ levels : Nat,
    (∀ {s rest v}, readValue levels fuel s = .ok (v, rest) → Brief v) ∧
      (∀ {s rest ms}, readMembers levels fuel s = .ok (ms, rest) → ∀ m ∈ ms, Brief m.2) ∧
        ∀ {s rest items}, readItems levels fuel s = .ok (items, rest) → ∀ v ∈ items, Brief v := by
  induction fuel with
  | zero => exact fun levels => ⟨nofun, nofun, nofun⟩
  | succ fuel ih =>
    intro levels
    refine ⟨fun {s rest v} h => ?_, fun {s rest ms} h => ?_, fun {s rest items} h => ?_⟩
    · cases readsValue h with
      | string => exact brief_ofWide _
      | atom hatom => exact brief_of_readAtom hatom
      | noMembers => exact .obj (by simp)
      | members hms => exact brief_ofWritten ((ih _).2.1 hms)
      | noItems => exact .arr (by simp)
      | items hitems => exact .arr ((ih _).2.2 hitems)
    · obtain ⟨r⟩ := readsMembers h
      have hvalue := (ih _).1 r.value_eq
      obtain ⟨-, hms⟩ | ⟨after, more, -, hmore, hms⟩ := r.ends
      · rw [hms]
        exact List.forall_mem_singleton.2 hvalue
      · rw [hms]
        exact List.forall_mem_cons.2 ⟨hvalue, (ih _).2.1 hmore⟩
    · obtain ⟨value, left, hvalue, ⟨-, rfl⟩ | ⟨after, more, -, hmore, rfl⟩⟩ := readItems_eq_ok h
      · exact List.forall_mem_singleton.2 ((ih _).1 hvalue)
      · exact List.forall_mem_cons.2 ⟨(ih _).1 hvalue, (ih _).2.2 hmore⟩

theorem brief_of_readWide {text : Text.Wide} (h : readWide levels text = .ok v) : Brief v := by
  have hread : readCodes levels text.codes = .ok v := mapError_eq_ok.1 h
  rw [readCodes] at hread
  split at hread
  · cases hread
  · split at hread
    · cases hread
    next value left hvalue =>
      split at hread
      · exact Except.ok.inj hread ▸ (brief_of_reading _ _).1 hvalue
      · cases hread

/-! ### Nesting -/

/-- More brackets than there are levels go beyond the limits. -/
theorem readValue_brackets {levels fuel n : Nat} (hlevels : levels < n) (hfuel : 2 * levels < fuel) :
    readValue levels fuel (List.replicate n openBracket) = .error (.excess (.nesting .array)) := by
  induction levels generalizing fuel n with
  | zero =>
    obtain ⟨n, rfl⟩ := Nat.exists_eq_add_one.2 hlevels
    obtain ⟨fuel, rfl⟩ := Nat.exists_eq_add_one.2 hfuel
    rfl
  | succ levels ih =>
    obtain ⟨n, rfl⟩ : ∃ k, n = k + 2 := ⟨n - 2, by omega⟩
    obtain ⟨fuel, rfl⟩ : ∃ k, fuel = k + 2 := ⟨fuel - 2, by omega⟩
    have hitem : readValue levels fuel (List.replicate (n + 1) openBracket) = .error (.excess (.nesting .array)) :=
      ih (by omega) (by omega)
    have hskip : skipSpace (List.replicate (n + 1) openBracket) = openBracket :: List.replicate n openBracket := rfl
    rw [List.replicate_succ, readValue, if_neg (Nat.succ_ne_zero levels), hskip]
    show Except.map _ (readItems levels (fuel + 1) (List.replicate (n + 1) openBracket)) = _
    rw [readItems, hitem]
    rfl

theorem readWide_brackets {n : Nat} (h : levels < n) :
    readWide levels (String.ofList (List.replicate n '[')) = .error (.excess (.nesting .array)) := by
  have hcodes : Text.Wide.codes (String.ofList (List.replicate n '[')) = List.replicate n openBracket :=
    (Text.codesOf_ofList _).trans List.map_replicate
  have hread : readCodes levels (List.replicate n openBracket) = .error (.excess (.nesting .array)) := by
    obtain ⟨n, rfl⟩ := Nat.exists_eq_add_one.2 (Nat.zero_lt_of_lt h)
    have hskip : skipSpace (List.replicate (n + 1) openBracket) = List.replicate (n + 1) openBracket := rfl
    have hfuel : 2 * levels < 2 * (List.replicate (n + 1) openBracket).length + 2 := by
      rw [List.length_replicate]
      omega
    rw [readCodes, if_neg (by simp [List.replicate_succ, openBracket, byteOrderMark]), hskip, readValue_brackets h hfuel]
  rw [readWide, hcodes, hread]
  rfl

end Adjudication.Json
