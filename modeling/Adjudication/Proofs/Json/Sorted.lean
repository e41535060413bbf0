import Adjudication.Proofs.Json.RoundTrip
import Mathlib.Data.List.Nodup

/-!
Values that are the same but for the order in which members stand. Sorting gives all of them the same value, which is one of
them, and it keeps them apart from all others.
-/

namespace Adjudication.Json

variable {v w : Json} {ms ns : Members} {name : Text.Wide} {levels : Nat}

/-- Values that are the same but for the order in which members stand, each name standing once. -/
inductive Alike : Json → Json → Prop where
  | null : Alike null null
  | bool (b : Bool) : Alike (bool b) (bool b)
  | int (i : Int) : Alike (int i) (int i)
  | double (x : Float) : Alike (double x) (double x)
  | str (s : String) : Alike (str s) (str s)
  | torn (t : Text.Torn) : Alike (torn t) (torn t)
  | arr {items others : List Json} (hlength : items.length = others.length)
      (h : ∀ (i : Nat) (v w : Json), items[i]? = some v → others[i]? = some w → Alike v w) : Alike (arr items) (arr others)
  | obj {ms ns : Members} (hms : ms.names.Nodup) (hns : ns.names.Nodup) (hnames : ∀ name, name ∈ ms.names ↔ name ∈ ns.names)
      (h : ∀ (name : Text.Wide) (v w : Json), (name, v) ∈ ms → (name, w) ∈ ns → Alike v w) : Alike (obj ms) (obj ns)

/-! ### Members -/

theorem Members.mem_names_iff : name ∈ ms.names ↔ ∃ v, (name, v) ∈ ms := by
  simp [names]

theorem Members.mem_names_of_mem (h : (name, v) ∈ ms) : name ∈ ms.names := mem_names_iff.2 ⟨v, h⟩

theorem Members.eq_of_nodup (hms : ms.names.Nodup) (hv : (name, v) ∈ ms) (hw : (name, w) ∈ ms) : v = w :=
  congrArg Prod.snd (List.inj_on_of_nodup_map hms hv hw rfl)

theorem sortedItems_eq_map (items : List Json) : sortedItems items = items.map sorted := by
  induction items with
  | nil => rfl
  | cons v rest ih => rw [sortedItems, ih, List.map_cons]

theorem sortedMembers_eq_map (ms : Members) : sortedMembers ms = ms.map fun m => (m.1, sorted m.2) := by
  induction ms with
  | nil => rfl
  | cons m rest ih => rw [sortedMembers, ih, List.map_cons]

theorem names_sortedMembers (ms : Members) : (sortedMembers ms).names = ms.names := by
  rw [sortedMembers_eq_map, Members.names, List.map_map]
  rfl

theorem mem_sortedMembers_iff : (name, w) ∈ sortedMembers ms ↔ ∃ v, (name, v) ∈ ms ∧ sorted v = w := by
  simp only [sortedMembers_eq_map, List.mem_map, Prod.mk.injEq, Prod.exists]
  constructor
  · rintro ⟨other, v, hv, rfl, hw⟩
    exact ⟨v, hv, hw⟩
  · rintro ⟨v, hv, hw⟩
    exact ⟨name, v, hv, rfl, hw⟩

theorem sorted_obj (ms : Members) : sorted (obj ms) = obj ((sortedMembers ms).mergeSort noLater) := by rw [sorted]

theorem noLater_iff {a b : Text.Wide × Json} : noLater a b = true ↔ List.le a.1.codes b.1.codes := by
  rw [noLater, Bool.not_eq_true', List.lex_eq_false_iff_ge]
  exact Iff.rfl

theorem noLater_trans {a b c : Text.Wide × Json} (hab : noLater a b = true) (hbc : noLater b c = true) :
    noLater a c = true :=
  noLater_iff.2 (List.le_trans (noLater_iff.1 hab) (noLater_iff.1 hbc))

theorem noLater_total (a b : Text.Wide × Json) : (noLater a b || noLater b a) = true := by
  rw [Bool.or_eq_true, noLater_iff, noLater_iff]
  exact List.le_total _ _

theorem codes_eq_of_noLater {a b : Text.Wide × Json} (hab : noLater a b = true) (hba : noLater b a = true) :
    a.1.codes = b.1.codes :=
  List.le_antisymm (noLater_iff.1 hab) (noLater_iff.1 hba)

theorem pairwise_noLater (ms : Members) : (ms.mergeSort noLater).Pairwise fun a b => noLater a b = true := by
  refine List.pairwise_mergeSort (fun a b c hab hbc => ?_) (fun a b => ?_) ms
  · exact noLater_trans hab hbc
  · exact noLater_total a b

theorem names_mergeSort (ms : Members) : List.Perm (Members.names (ms.mergeSort noLater)) ms.names :=
  (List.mergeSort_perm ms noLater).map Prod.fst

/-- Members with the same names and the same values come to stand in the same order. -/
theorem mergeSort_eq_of_mem_iff (hms : ms.names.Nodup) (hns : ns.names.Nodup)
    (hmem : ∀ m, m ∈ ms ↔ m ∈ ns) : ms.mergeSort noLater = ns.mergeSort noLater := by
  have hperm : List.Perm ms ns := (List.perm_ext_iff_of_nodup (.of_map Prod.fst hms) (.of_map Prod.fst hns)).2 hmem
  have hsorted : List.Perm (ms.mergeSort noLater) (ns.mergeSort noLater) :=
    ((List.mergeSort_perm _ _).trans hperm).trans (List.mergeSort_perm _ _).symm
  refine hsorted.eq_of_pairwise ?_ (pairwise_noLater _) (pairwise_noLater _)
  -- Members whose names have the same code points are the same.
  rintro ⟨name, v⟩ ⟨other, w⟩ ha hb hab hba
  rw [List.mem_mergeSort] at ha hb
  rw [← hmem] at hb
  obtain rfl : name = other := Text.Wide.codes_injective (codes_eq_of_noLater hab hba)
  rw [Members.eq_of_nodup hms ha hb]

/-! ### Sorted values -/

/-- Members under names of others, sorted to the same values, are among the others once both are sorted. -/
theorem mem_sortedMembers_of_names {m : Text.Wide × Json} (hnames : ∀ name, name ∈ ms.names → name ∈ ns.names)
    (h : ∀ (name : Text.Wide) (v w : Json), (name, v) ∈ ms → (name, w) ∈ ns → sorted w = sorted v)
    (hm : m ∈ sortedMembers ms) : m ∈ sortedMembers ns := by
  obtain ⟨v, hv, hsorted⟩ := mem_sortedMembers_iff.1 hm
  obtain ⟨w, hw⟩ := Members.mem_names_iff.1 (hnames _ (Members.mem_names_of_mem hv))
  exact mem_sortedMembers_iff.2 ⟨w, hw, (h _ _ _ hv hw).trans hsorted⟩

/-- What is alike is sorted to the same value. -/
theorem Alike.sorted_eq (h : Alike v w) : sorted v = sorted w := by
  induction h with
  | null | bool | int | double | str | torn => rfl
  | arr hlength h ih =>
    rw [sorted, sorted, sortedItems_eq_map, sortedItems_eq_map]
    refine congrArg Json.arr (List.ext_getElem (by simpa using hlength) fun i hi ho => ?_)
    rw [List.getElem_map, List.getElem_map]
    exact ih i _ _ (List.getElem?_eq_getElem _) (List.getElem?_eq_getElem _)
  | @obj ms ns hms hns hnames h ih =>
    rw [sorted_obj, sorted_obj]
    refine congrArg Json.obj (mergeSort_eq_of_mem_iff ?_ ?_ fun m => ⟨fun hm => ?_, fun hm => ?_⟩)
    · rwa [names_sortedMembers]
    · rwa [names_sortedMembers]
    · refine mem_sortedMembers_of_names (fun name => (hnames name).1) (fun name v w hv hw => ?_) hm
      exact (ih name v w hv hw).symm
    · refine mem_sortedMembers_of_names (fun name => (hnames name).2) (fun name w v hw hv => ?_) hm
      exact ih name v w hv hw

/-- What is sorted to neither an array nor an object is left as it is. -/
theorem eq_of_sorted_eq (harr : ∀ items, v ≠ arr items) (hobj : ∀ ms, v ≠ obj ms) (h : v = sorted w) : w = v := by
  cases w with
  | arr items => exact absurd h (sorted.eq_1 items ▸ harr _)
  | obj ms => exact absurd h (sorted_obj ms ▸ hobj _)
  | _ => exact h.symm

/-- Of members that are sorted to the same, one under the same name is sorted to the same value. -/
theorem exists_mem_of_mergeSort_eq (h : (sortedMembers ms).mergeSort noLater = (sortedMembers ns).mergeSort noLater)
    (hv : (name, v) ∈ ms) : ∃ w, (name, w) ∈ ns ∧ sorted w = sorted v := by
  have hm : (name, sorted v) ∈ (sortedMembers ms).mergeSort noLater :=
    List.mem_mergeSort.2 (mem_sortedMembers_iff.2 ⟨v, hv, rfl⟩)
  rw [h, List.mem_mergeSort] at hm
  exact mem_sortedMembers_iff.1 hm

/-- What is sorted to the same value is alike. -/
theorem Legible.alike_of_sorted_eq (hv : Legible levels v) : ∀ {more : Nat} {w : Json}, Legible more w →
    sorted v = sorted w → Alike v w := by
  induction hv with
  | null | bool | int | double | str | torn =>
    intro more w _ h
    rw [eq_of_sorted_eq (by simp [sorted]) (by simp [sorted]) h]
    constructor
  | @arr levels items hitems ih =>
    intro more w hw h
    cases hw with
    | null | bool | int | double | str | torn => simp [sorted] at h
    | obj => simp [sorted] at h
    | @arr _ others hothers =>
      rw [sorted, sorted, sortedItems_eq_map, sortedItems_eq_map] at h
      have hmap : items.map sorted = others.map sorted := Json.arr.inj h
      have hlength : items.length = others.length := by simpa using congrArg List.length hmap
      refine .arr hlength fun i v w hi ho => ?_
      have hi' := congrArg (fun l : List Json => l[i]?) hmap
      simp only [List.getElem?_map, hi, ho, Option.map_some, Option.some.injEq] at hi'
      exact ih v (List.mem_of_getElem? hi) (hothers w (List.mem_of_getElem? ho)) hi'
  | @obj levels ms hnames hlegible ih =>
    intro more w hw h
    cases hw with
    | null | bool | int | double | str | torn => simp [sorted] at h
    | arr => simp [sorted] at h
    | @obj _ ns hnames' hlegible' =>
      rw [sorted_obj, sorted_obj] at h
      have hsame := Json.obj.inj h
      refine .obj hnames hnames' (fun name => ⟨fun hn => ?_, fun hn => ?_⟩) fun name u w hu hw => ?_
      · obtain ⟨u, hu⟩ := Members.mem_names_iff.1 hn
        obtain ⟨w, hw, -⟩ := exists_mem_of_mergeSort_eq hsame hu
        exact Members.mem_names_of_mem hw
      · obtain ⟨w, hw⟩ := Members.mem_names_iff.1 hn
        obtain ⟨u, hu, -⟩ := exists_mem_of_mergeSort_eq hsame.symm hw
        exact Members.mem_names_of_mem hu
      · obtain ⟨w', hw', hsorted⟩ := exists_mem_of_mergeSort_eq hsame hu
        obtain rfl := Members.eq_of_nodup hnames' hw hw'
        exact ih _ hu (hlegible' _ hw) hsorted.symm

/-- A sorted value is the value but for the order in which members stand. -/
theorem Legible.sorted_alike (h : Legible levels v) : Alike (sorted v) v := by
  induction h with
  | null | bool | int | double | str | torn => constructor
  | @arr levels items _ ih =>
    rw [sorted, sortedItems_eq_map]
    refine .arr (List.length_map _) fun i w v hw hv => ?_
    rw [List.getElem?_map, hv] at hw
    exact Option.some.inj hw ▸ ih v (List.mem_of_getElem? hv)
  | @obj levels ms hnames _ ih =>
    rw [sorted_obj]
    have hperm := names_mergeSort (sortedMembers ms)
    rw [names_sortedMembers] at hperm
    refine .obj (hperm.nodup_iff.2 hnames) hnames (fun name => hperm.mem_iff) fun name w v hw hv => ?_
    obtain ⟨v', hv', rfl⟩ := mem_sortedMembers_iff.1 (List.mem_mergeSort.1 hw)
    obtain rfl := Members.eq_of_nodup hnames hv hv'
    exact ih _ hv

/-- What is alike to a legible value is legible. -/
theorem Alike.legible (h : Alike v w) : ∀ {levels : Nat}, Legible levels w → Legible levels v := by
  induction h with
  | null | bool | int | double | str | torn => exact fun h => h
  | @arr items others hlength h ih =>
    intro levels hw
    cases hw with
    | arr hothers =>
      refine .arr fun v hv => ?_
      obtain ⟨i, hi, rfl⟩ := List.mem_iff_getElem.1 hv
      have hi' : i < others.length := hlength ▸ hi
      exact ih i _ _ (List.getElem?_eq_getElem hi) (List.getElem?_eq_getElem hi') (hothers _ (List.getElem_mem hi'))
  | @obj ms ns hms hns hnames h ih =>
    intro levels hw
    cases hw with
    | obj _ hlegible =>
      refine .obj hms fun m hm => ?_
      obtain ⟨w, hw⟩ := Members.mem_names_iff.1 ((hnames m.1).1 (Members.mem_names_of_mem hm))
      exact ih _ _ _ hm hw (hlegible _ hw)

/-- What is alike to a value in which nothing is torn is so as well. -/
theorem Alike.isWhole (h : Alike v w) : w.isWhole = true → v.isWhole = true := by
  induction h with
  | null | bool | int | double | str | torn => exact fun h => h
  | @arr items others hlength h ih =>
    intro hw
    rw [isWhole_arr, List.all_eq_true] at hw ⊢
    intro v hv
    obtain ⟨i, hi, rfl⟩ := List.mem_iff_getElem.1 hv
    have hi' : i < others.length := hlength ▸ hi
    exact ih i _ _ (List.getElem?_eq_getElem hi) (List.getElem?_eq_getElem hi') (hw _ (List.getElem_mem hi'))
  | @obj ms ns hms hns hnames h ih =>
    intro hw
    rw [isWhole_obj, List.all_eq_true] at hw ⊢
    rintro ⟨name, v⟩ hm
    obtain ⟨w, hmem⟩ := Members.mem_names_iff.1 ((hnames name).1 (Members.mem_names_of_mem hm))
    obtain ⟨hname, hvalue⟩ := Bool.and_eq_true_iff.1 (hw _ hmem)
    exact Bool.and_eq_true_iff.2 ⟨hname, ih _ _ _ hm hmem hvalue⟩

/-- Members that stand in another order are alike. -/
theorem Legible.alike_of_perm (h : Legible levels (.obj ms)) (hperm : List.Perm ns ms) : Alike (.obj ns) (.obj ms) := by
  cases h with
  | obj hnames hlegible =>
    have hsame : List.Perm ns.names ms.names := hperm.map Prod.fst
    refine .obj (hsame.nodup_iff.2 hnames) hnames (fun name => hsame.mem_iff) fun name v w hv hw => ?_
    obtain rfl := Members.eq_of_nodup hnames (hperm.mem_iff.1 hv) hw
    exact (hlegible _ hw).alike_of_sorted_eq (hlegible _ hw) rfl

end Adjudication.Json
