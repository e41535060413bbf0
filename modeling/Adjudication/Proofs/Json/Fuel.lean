import Adjudication.Proofs.Json.Readers

/-!
Reading goes forward: what a reader leaves is the end of what it was given. Each value, member and item takes something, and
so fuel of twice the length is enough: with more of it the same is read, or the same fault is found.
-/

namespace Adjudication.Json

open Sign

variable {levels fuel : Nat} {s start rest : List Nat} {v : Json}

/-! ### What is left -/

theorem skipSpace_suffix (s : List Nat) : skipSpace s <:+ s := List.dropWhile_suffix _

theorem suffix_of_skipSpace {code : Nat} (h : skipSpace s = code :: rest) : rest <:+ s :=
  (List.suffix_cons code rest).trans (h ▸ skipSpace_suffix s)

theorem suffix_of_scanBody {pieces : List Piece} (h : scanBody start s = .ok (pieces, rest)) : rest <:+ s := by
  fun_induction scanBody start s generalizing pieces rest with
  | case2 =>
    obtain ⟨-, rfl⟩ := Prod.mk.inj (Except.ok.inj h)
    exact List.suffix_cons _ _
  | case4 _ _ _ _ _ _ _ _ hafter _ ih =>
    obtain ⟨-, rfl⟩ := Prod.mk.inj (Except.ok.inj h)
    exact (ih hafter).trans ⟨[_, _, _, _, _, _], rfl⟩
  | case9 _ _ _ _ _ _ _ hafter ih =>
    obtain ⟨-, rfl⟩ := Prod.mk.inj (Except.ok.inj h)
    exact (ih hafter).trans ⟨[_, _], rfl⟩
  | case12 _ _ _ _ _ _ _ hafter ih =>
    obtain ⟨-, rfl⟩ := Prod.mk.inj (Except.ok.inj h)
    exact (ih hafter).trans (List.suffix_cons _ _)
  | _ => cases h

theorem suffix_of_readString {t : Text.Wide} (h : readString start s = .ok (t, rest)) : rest <:+ s := by
  obtain ⟨pieces, hpieces, -⟩ := mapped_eq_ok (fun pieces => Text.Wide.ofCodes (codesOfPieces pieces)) h
  exact suffix_of_scanBody hpieces

theorem splitFraction_suffix (s : List Nat) : (splitFraction s).2 <:+ s := by
  rw [splitFraction.eq_def]
  split
  next tail =>
    dsimp only
    split
    · exact List.suffix_rfl
    · exact (List.dropWhile_suffix _).trans (List.suffix_cons _ _)
  · exact List.suffix_rfl

theorem splitExponentSign_suffix (s : List Nat) : (splitExponentSign s).2 <:+ s := by
  rw [splitExponentSign.eq_def]
  split
  · exact List.suffix_cons _ _
  · exact List.suffix_cons _ _
  · exact List.suffix_rfl

theorem splitExponent_suffix (s : List Nat) : (splitExponent s).2 <:+ s := by
  cases s with
  | nil => exact List.suffix_rfl
  | cons c s =>
    rw [splitExponent_cons]
    split
    · split
      · exact List.suffix_rfl
      · exact ((List.dropWhile_suffix _).trans (splitExponentSign_suffix s)).trans (List.suffix_cons _ _)
    · exact List.suffix_rfl

theorem suffix_of_readMagnitude {negative : Bool} (h : readMagnitude negative start s = .ok (v, rest)) : rest <:+ s := by
  have hleft : (splitExponent (splitFraction (s.drop (wholeOf s).length)).2).2 <:+ s :=
    ((splitExponent_suffix _).trans (splitFraction_suffix _)).trans (List.drop_suffix _ _)
  rw [readMagnitude_eq] at h
  dsimp only at h
  split at h
  · cases h
  · split at h
    · split at h
      · cases h
      · exact (Prod.mk.inj (Except.ok.inj h)).2 ▸ hleft
    · exact (Prod.mk.inj (Except.ok.inj h)).2 ▸ hleft

theorem suffix_of_afterWord? {word : String} (h : afterWord? word s = some rest) : rest <:+ s := by
  rw [afterWord?] at h
  split at h
  · exact Option.some.inj h ▸ List.drop_suffix _ _
  · cases h

theorem suffix_of_readAtom (h : readAtom s = .ok (v, rest)) : rest <:+ s := by
  have hword : ∀ {w u}, readAtom.word s w u = .ok (v, rest) → rest <:+ s := fun hw =>
    suffix_of_afterWord? (word_eq_ok.1 hw).1
  cases s with
  | nil => cases h
  | cons c tail =>
    rw [readAtom_cons] at h
    split at h
    · exact hword h
    · exact hword h
    · exact hword h
    · exact hword h
    · exact hword h
    · split at h
      next left hinfinity =>
        obtain ⟨-, rfl⟩ := Prod.mk.inj (Except.ok.inj h)
        exact (suffix_of_afterWord? hinfinity).trans (List.suffix_cons _ _)
      next => exact (suffix_of_readMagnitude h).trans (List.suffix_cons _ _)
    · exact suffix_of_readMagnitude h

/-- Whatever the fuel, what is left is the end of what was given: of values, members and items. -/
theorem suffix_of_reading (fuel : Nat) : ∀ levels : Nat,
    (∀ {s rest v}, readValue levels fuel s = .ok (v, rest) → rest <:+ s) ∧
      (∀ {s rest ms}, readMembers levels fuel s = .ok (ms, rest) → rest <:+ s) ∧
        ∀ {s rest items}, readItems levels fuel s = .ok (items, rest) → rest <:+ s := by
  induction fuel with
  | zero => exact fun levels => ⟨nofun, nofun, nofun⟩
  | succ fuel ih =>
    intro levels
    refine ⟨fun {s rest v} h => ?_, fun {s rest ms} h => ?_, fun {s rest items} h => ?_⟩
    · cases readsValue h with
      | string hstring => exact (suffix_of_readString hstring).trans (List.suffix_cons _ _)
      | atom hatom => exact suffix_of_readAtom hatom
      | noMembers hclose => exact (suffix_of_skipSpace hclose).trans (List.suffix_cons _ _)
      | members hms => exact (((ih _).2.1 hms).trans (skipSpace_suffix _)).trans (List.suffix_cons _ _)
      | noItems hclose => exact (suffix_of_skipSpace hclose).trans (List.suffix_cons _ _)
      | items hitems => exact (((ih _).2.2 hitems).trans (skipSpace_suffix _)).trans (List.suffix_cons _ _)
    · obtain ⟨r⟩ := readsMembers h
      have hname := (suffix_of_readString r.name_eq).trans (List.suffix_cons quotation r.tail)
      rw [← r.begins] at hname
      have hbefore : r.before <:+ s := (suffix_of_skipSpace r.colon_eq).trans hname
      have hleft : r.left <:+ s := (((ih _).1 r.value_eq).trans (skipSpace_suffix _)).trans hbefore
      obtain ⟨hclose, -⟩ | ⟨after, more, hcomma, hmore, -⟩ := r.ends
      · exact (suffix_of_skipSpace hclose).trans hleft
      · exact (((ih _).2.1 hmore).trans (skipSpace_suffix _)).trans ((suffix_of_skipSpace hcomma).trans hleft)
    · obtain ⟨value, left, hvalue, ⟨hclose, -⟩ | ⟨after, more, hcomma, hmore, -⟩⟩ := readItems_eq_ok h
      · exact (suffix_of_skipSpace hclose).trans ((ih _).1 hvalue)
      · exact (((ih _).2.2 hmore).trans (skipSpace_suffix _)).trans ((suffix_of_skipSpace hcomma).trans ((ih _).1 hvalue))

/-! ### Fuel -/

theorem length_skipSpace_le (s : List Nat) : (skipSpace s).length ≤ s.length := (skipSpace_suffix s).length_le

/-- A value is read with one more unit of fuel as before if the members and the items in it are. -/
theorem readValue_succ
    (hmembers : ∀ t : List Nat, 2 * t.length + 1 ≤ fuel →
      readMembers (levels - 1) (fuel + 1) t = readMembers (levels - 1) fuel t)
    (hitems : ∀ t : List Nat, 2 * t.length + 2 ≤ fuel →
      readItems (levels - 1) (fuel + 1) t = readItems (levels - 1) fuel t) (h : 2 * s.length + 1 ≤ fuel + 1) :
    readValue levels (fuel + 1 + 1) s = readValue levels (fuel + 1) s := by
  rw [readValue.eq_def levels (fuel + 1 + 1), readValue.eq_def levels (fuel + 1)]
  dsimp only
  split
  · rfl
  next tail =>
    have htail := length_skipSpace_le tail
    rw [List.length_cons] at h
    split
    · rfl
    · split
      · rfl
      · rw [hmembers _ (by omega)]
  next tail =>
    have htail := length_skipSpace_le tail
    rw [List.length_cons] at h
    split
    · rfl
    · split
      · rfl
      · rw [hitems _ (by omega)]
  · rfl

/-- So are members if the values and the members after them are. -/
theorem readMembers_succ
    (hvalue : ∀ t : List Nat, 2 * t.length + 1 ≤ fuel → readValue levels (fuel + 1) t = readValue levels fuel t)
    (hmembers : ∀ t : List Nat, 2 * t.length + 1 ≤ fuel → readMembers levels (fuel + 1) t = readMembers levels fuel t)
    (h : 2 * s.length + 1 ≤ fuel + 1) : readMembers levels (fuel + 1 + 1) s = readMembers levels (fuel + 1) s := by
  rw [readMembers.eq_def levels (fuel + 1 + 1), readMembers.eq_def levels (fuel + 1)]
  dsimp only
  split
  next tail =>
    rw [List.length_cons] at h
    cases hname : readString (quotation :: tail) tail with
    | error f => rfl
    | ok r =>
      obtain ⟨name, named⟩ := r
      have hnamed := (suffix_of_readString hname).length_le
      dsimp only
      split
      next before hcolon =>
        have hbefore := (suffix_of_skipSpace hcolon).length_le
        have hskipped := length_skipSpace_le before
        rw [hvalue _ (by omega)]
        cases hread : readValue levels fuel (skipSpace before) with
        | error f => rfl
        | ok r =>
          obtain ⟨value, left⟩ := r
          have hleft := ((suffix_of_reading fuel levels).1 hread).length_le
          dsimp only
          split
          · rfl
          next after hcomma =>
            have hafter := (suffix_of_skipSpace hcomma).length_le
            have hskipped' := length_skipSpace_le after
            rw [hmembers _ (by omega)]
          · rfl
      · rfl
  · rfl

/-- So are items if the values and the items after them are. -/
theorem readItems_succ
    (hvalue : ∀ t : List Nat, 2 * t.length + 1 ≤ fuel → readValue levels (fuel + 1) t = readValue levels fuel t)
    (hitems : ∀ t : List Nat, 2 * t.length + 2 ≤ fuel → readItems levels (fuel + 1) t = readItems levels fuel t)
    (h : 2 * s.length + 2 ≤ fuel + 1) : readItems levels (fuel + 1 + 1) s = readItems levels (fuel + 1) s := by
  rw [readItems.eq_def levels (fuel + 1 + 1), readItems.eq_def levels (fuel + 1)]
  dsimp only
  rw [hvalue _ (by omega)]
  cases hread : readValue levels fuel s with
  | error f => rfl
  | ok r =>
    obtain ⟨value, left⟩ := r
    have hleft := ((suffix_of_reading fuel levels).1 hread).length_le
    dsimp only
    split
    · rfl
    next after hcomma =>
      have hafter := congrArg List.length hcomma
      have hskipped := length_skipSpace_le left
      have hskipped' := length_skipSpace_le after
      rw [List.length_cons] at hafter
      rw [hitems _ (by omega)]
    · rfl

/-- One more unit of fuel changes nothing where there is enough: for values, members and items. -/
theorem reading_succ (fuel : Nat) : ∀ levels : Nat,
    (∀ s : List Nat, 2 * s.length + 1 ≤ fuel → readValue levels (fuel + 1) s = readValue levels fuel s) ∧
      (∀ s : List Nat, 2 * s.length + 1 ≤ fuel → readMembers levels (fuel + 1) s = readMembers levels fuel s) ∧
        ∀ s : List Nat, 2 * s.length + 2 ≤ fuel → readItems levels (fuel + 1) s = readItems levels fuel s := by
  induction fuel with
  | zero => exact fun levels => ⟨fun _ h => by omega, fun _ h => by omega, fun _ h => by omega⟩
  | succ fuel ih =>
    intro levels
    exact ⟨fun _ => readValue_succ (ih _).2.1 (ih _).2.2, fun _ => readMembers_succ (ih _).1 (ih _).2.1,
      fun _ => readItems_succ (ih _).1 (ih _).2.2⟩

/-- Any two amounts of fuel that are enough read the same value. -/
theorem readValue_fuel {fuel fuel' : Nat} (h : 2 * s.length + 1 ≤ fuel) (h' : 2 * s.length + 1 ≤ fuel') :
    readValue levels fuel s = readValue levels fuel' s := by
  have hleast : ∀ fuel, 2 * s.length + 1 ≤ fuel → readValue levels fuel s = readValue levels (2 * s.length + 1) s := by
    intro fuel h
    induction fuel, h using Nat.le_induction with
    | base => rfl
    | succ fuel h ih => rw [(reading_succ fuel levels).1 s h, ih]
  rw [hleast fuel h, hleast fuel' h']

end Adjudication.Json
