import Mathlib.Data.List.Induction
import Mathlib.Data.List.Nodup
import Adjudication.Yaml.Overlay

/-!
A table laid over another one, seen from the ways into the two. A way goes from table to table by names. What lies at its
end after an overlay depends on what lies there in the two tables, and on nothing else: a value of the upper table is laid
over what there is in the lower one; where the upper table has nothing, the lower one shows, unless something that is no
table stands in the way. Laying a table over another one twice is laying it once.
-/

namespace Adjudication.Yaml

variable {name : String} {way : List String} {base ms : Members} {under : Option Yaml} {v w : Yaml}

/-! ### Names -/

theorem lookup_cons (name : String) (m : String × Yaml) (ms : Members) :
    Schema.lookup name (m :: ms) = if m.1 = name then some m.2 else Schema.lookup name ms := by
  by_cases h : m.1 = name <;> simp [Schema.lookup, h]

theorem lookup_put_cons (name : String) (base : Members) (m : String × Yaml) :
    Schema.lookup name (put m.1 (overlayMember base m) base) =
      if m.1 = name then some (layer (Schema.lookup name base) m.2) else Schema.lookup name base := by
  obtain ⟨key, v⟩ := m
  by_cases h : key = name
  · subst h
    rw [if_pos rfl, lookup_put]
    rfl
  · rw [if_neg h, lookup_put_of_ne h]

/-- What lies under a name after an overlay: every value of that name is laid over what was there before it. -/
theorem lookup_overlay (name : String) : ∀ (ms base : Members), Schema.lookup name (overlay base ms) =
    ms.foldl (fun under m => if m.1 = name then some (layer under m.2) else under) (Schema.lookup name base)
  | [], _ => rfl
  | m :: rest, base => by
    rw [overlay, lookup_overlay name rest, lookup_put_cons]
    rfl

/-- A name that nothing is laid over keeps its value. -/
theorem lookup_overlay_of_none (h : Schema.lookup name ms.reverse = none) :
    Schema.lookup name (overlay base ms) = Schema.lookup name base := by
  rw [lookup_overlay]
  induction ms using List.reverseRecOn with
  | nil => rfl
  | append_singleton ms m ih =>
    rw [List.reverse_append, List.reverse_singleton, List.singleton_append, lookup_cons] at h
    split at h
    · cases h
    next hm => rw [List.foldl_append, List.foldl_cons, List.foldl_nil, if_neg hm, ih h]

/-- Of the values that are laid over a name the last one comes to lie on top. -/
theorem lookup_overlay_of_some {v : Yaml} (h : Schema.lookup name ms.reverse = some v) :
    ∃ under, Schema.lookup name (overlay base ms) = some (layer under v) := by
  rw [lookup_overlay]
  induction ms using List.reverseRecOn with
  | nil => cases h
  | append_singleton ms m ih =>
    rw [List.reverse_append, List.reverse_singleton, List.singleton_append, lookup_cons] at h
    rw [List.foldl_append, List.foldl_cons, List.foldl_nil]
    split at h
    next hm =>
      obtain rfl := Option.some.inj h
      exact ⟨_, if_pos hm⟩
    next hm =>
      rw [if_neg hm]
      exact ih h

/-- A table stays a table, whatever it is laid over. -/
theorem layer_table (under : Option Yaml) (part : Members) : ∃ laid, layer under (table part) = table laid := by
  cases under with
  | none => exact ⟨_, rfl⟩
  | some v => cases v <;> exact ⟨_, rfl⟩

/-! ### Tables without repeated names -/

/-- A value in which no table has a name twice, as far as it is made of tables. -/
inductive Tidy : Yaml → Prop
  | leaf {v : Yaml} (h : ∀ ms, v ≠ table ms) : Tidy v
  | node {ms : Members} (hnames : (ms.map Prod.fst).Nodup) (h : ∀ m ∈ ms, Tidy m.2) : Tidy (table ms)

theorem Tidy.nodup (h : Tidy (table ms)) : (ms.map Prod.fst).Nodup := by
  cases h with
  | leaf h => exact absurd rfl (h ms)
  | node hnames _ => exact hnames

theorem Tidy.of_mem (h : Tidy (table ms)) {m : String × Yaml} (hm : m ∈ ms) : Tidy m.2 := by
  cases h with
  | leaf h => exact absurd rfl (h ms)
  | node _ h => exact h m hm

theorem mem_of_lookup (h : Schema.lookup name ms = some v) : (name, v) ∈ ms := by
  obtain ⟨m, hm, rfl⟩ := Option.map_eq_some_iff.1 h
  have hname : m.1 = name := by simpa using List.find?_some hm
  subst hname
  exact List.mem_of_find?_eq_some hm

theorem lookup_eq_none_iff : Schema.lookup name ms = none ↔ name ∉ ms.map Prod.fst := by
  rw [Schema.lookup, Option.map_eq_none_iff, List.find?_eq_none, List.mem_map]
  constructor
  · rintro h ⟨m, hm, rfl⟩
    exact h m hm (decide_eq_true rfl)
  · intro h m hm he
    exact h ⟨m, hm, of_decide_eq_true he⟩

/-- A name that stands once has the value that stands with it. -/
theorem lookup_of_mem (hnames : (ms.map Prod.fst).Nodup) {m : String × Yaml} (hm : m ∈ ms) :
    Schema.lookup m.1 ms = some m.2 := by
  induction ms with
  | nil => cases hm
  | cons first rest ih =>
    rw [List.map_cons, List.nodup_cons] at hnames
    rw [lookup_cons]
    rcases List.mem_cons.1 hm with rfl | hrest
    · rw [if_pos rfl]
    · have hne : first.1 ≠ m.1 := fun he => hnames.1 (he ▸ List.mem_map_of_mem hrest)
      rw [if_neg hne, ih hnames.2 hrest]

/-- Where no name stands twice, the value of a name is laid over the one that lies under it, and other names keep theirs. -/
theorem lookup_overlay_of_nodup (hnames : (ms.map Prod.fst).Nodup) (name : String) (base : Members) :
    Schema.lookup name (overlay base ms) =
      match Schema.lookup name ms with
      | some v => some (layer (Schema.lookup name base) v)
      | none => Schema.lookup name base := by
  induction ms generalizing base with
  | nil => rfl
  | cons m rest ih =>
    rw [List.map_cons, List.nodup_cons] at hnames
    rw [overlay, ih hnames.2, lookup_put_cons, lookup_cons]
    by_cases hm : m.1 = name
    · have hnone : Schema.lookup name rest = none := lookup_eq_none_iff.2 (hm ▸ hnames.1)
      rw [if_pos hm, if_pos hm, hnone]
    · rw [if_neg hm, if_neg hm]

/-! ### Ways -/

/-- What lies at the end of a way of names. -/
def at? : List String → Yaml → Option Yaml
  | [], v => some v
  | name :: way, table ms => (Schema.lookup name ms).bind (at? way)
  | _ :: _, _ => none

@[simp] theorem at?_nil (v : Yaml) : at? [] v = some v := by
  rw [at?]

@[simp] theorem at?_cons_table (name : String) (way : List String) (ms : Members) :
    at? (name :: way) (table ms) = (Schema.lookup name ms).bind (at? way) := by
  rw [at?]

theorem at?_cons_of_not_table (h : ∀ ms, v ≠ table ms) (name : String) (way : List String) : at? (name :: way) v = none := by
  rw [at?]
  exact h

/-- Only a table has something at the end of a longer way. -/
theorem exists_table_of_at? (h : at? (name :: way) v = some w) :
    ∃ ms next, v = table ms ∧ Schema.lookup name ms = some next ∧ at? way next = some w := by
  cases v with
  | table ms =>
    rw [at?_cons_table, Option.bind_eq_some_iff] at h
    obtain ⟨next, hnext, hw⟩ := h
    exact ⟨ms, next, rfl, hnext, hw⟩
  | _ => cases h

/-- Something that is no table stands in a way, before its end. -/
def CutOff (way : List String) (v : Yaml) : Prop :=
  ∃ first w, first <+: way ∧ first ≠ way ∧ at? first v = some w ∧ ∀ ms, w ≠ table ms

theorem not_cutOff_nil : ¬ CutOff [] v := by
  rintro ⟨first, w, hfirst, hne, -, -⟩
  exact hne (List.prefix_nil.1 hfirst)

theorem cutOff_of_not_table (h : ∀ ms, v ≠ table ms) (name : String) (way : List String) : CutOff (name :: way) v :=
  ⟨[], v, List.nil_prefix, (List.cons_ne_nil _ _).symm, at?_nil v, h⟩

/-- A way out of a table is cut off where its rest is. -/
theorem cutOff_cons_table_iff : CutOff (name :: way) (table ms) ↔ ∃ next, Schema.lookup name ms = some next ∧
    CutOff way next := by
  constructor
  · rintro ⟨first, w, hfirst, hne, hat, hw⟩
    rcases List.prefix_cons_iff.1 hfirst with rfl | ⟨rest, rfl, hrest⟩
    · obtain rfl := Option.some.inj ((at?_nil _).symm.trans hat)
      exact absurd rfl (hw ms)
    · obtain ⟨ms, next, hms, hnext, hat⟩ := exists_table_of_at? hat
      obtain rfl := table.inj hms
      exact ⟨next, hnext, rest, w, hrest, fun he => hne (he ▸ rfl), hat, hw⟩
  · rintro ⟨next, hnext, first, w, hfirst, hne, hat, hw⟩
    refine ⟨name :: first, w, List.cons_prefix_cons.2 ⟨rfl, hfirst⟩, fun he => hne (List.cons.inj he).2, ?_, hw⟩
    rw [at?_cons_table, hnext]
    exact hat

/-! ### What lies at the end of a way after an overlay -/

/-- The members that a table is laid over. -/
def membersUnder : Option Yaml → Members
  | some (table base) => base
  | _ => []

theorem put_of_not_mem (h : name ∉ base.map Prod.fst) (v : Yaml) : put name v base = base ++ [(name, v)] := by
  induction base with
  | nil => rfl
  | cons first base ih =>
    rw [List.map_cons, List.mem_cons, not_or] at h
    rw [put, if_neg (Ne.symm h.1), ih h.2, List.cons_append]

/-- Members of new names, each standing once, come behind those that are there. -/
theorem overlay_append (hnames : (ms.map Prod.fst).Nodup) (hbase : ∀ m ∈ ms, m.1 ∉ base.map Prod.fst) :
    overlay base ms = base ++ ms := by
  induction ms generalizing base with
  | nil => simp
  | cons m rest ih =>
    rw [List.map_cons, List.nodup_cons] at hnames
    have hm : m.1 ∉ base.map Prod.fst := hbase m List.mem_cons_self
    have hput : put m.1 (overlayMember base m) base = base ++ [m] := by
      rw [overlayMember, lookup_eq_none_iff.2 hm, layer_none, put_of_not_mem hm]
    rw [overlay, hput, ih hnames.2, List.append_assoc, List.singleton_append]
    intro next hnext
    rw [List.map_append, List.mem_append, not_or]
    refine ⟨hbase next (List.mem_cons_of_mem _ hnext), fun hlast => hnames.1 ?_⟩
    rw [← List.mem_singleton.1 hlast]
    exact List.mem_map_of_mem hnext

theorem overlay_nil_left (hnames : (ms.map Prod.fst).Nodup) : overlay [] ms = ms :=
  overlay_append hnames fun _ _ => List.not_mem_nil

theorem layer_table_eq (hnames : (ms.map Prod.fst).Nodup) (under : Option Yaml) :
    layer under (table ms) = table (overlay (membersUnder under) ms) := by
  cases under with
  | none => exact (layer_none _).trans (congrArg table (overlay_nil_left hnames).symm)
  | some u =>
    cases u with
    | table base => rfl
    | _ => exact congrArg table (overlay_nil_left hnames).symm

theorem lookup_membersUnder (name : String) (way : List String) (under : Option Yaml) :
    (Schema.lookup name (membersUnder under)).bind (at? way) = under.bind (at? (name :: way)) := by
  cases under with
  | none => rfl
  | some u =>
    cases u with
    | table base => exact (at?_cons_table name way base).symm
    | _ => rfl

/-- What the upper value has at the end of a way is laid over what the lower one has there. -/
theorem at?_layer_of_some (hv : Tidy v) (h : at? way v = some w) :
    at? way (layer under v) = some (layer (under.bind (at? way)) w) := by
  induction way generalizing under v with
  | nil =>
    obtain rfl := Option.some.inj ((at?_nil v).symm.trans h)
    cases under <;> simp
  | cons name way ih =>
    obtain ⟨ms, next, rfl, hnext, hat⟩ := exists_table_of_at? h
    have hlookup := lookup_overlay_of_nodup hv.nodup name (membersUnder under)
    rw [hnext] at hlookup
    rw [layer_table_eq hv.nodup, at?_cons_table, hlookup, Option.bind_some,
      ih (hv.of_mem (mem_of_lookup hnext)) hat, lookup_membersUnder]

/-- Where the upper value has nothing, the lower one shows, unless the way is cut off. -/
theorem at?_layer_of_none (hv : Tidy v) (h : at? way v = none) (hcut : ¬ CutOff way v) :
    at? way (layer under v) = under.bind (at? way) := by
  induction way generalizing under v with
  | nil =>
    rw [at?_nil] at h
    cases h
  | cons name way ih =>
    obtain ⟨ms, rfl⟩ : ∃ ms, v = table ms := by
      by_contra hnot
      exact hcut (cutOff_of_not_table (fun ms he => hnot ⟨ms, he⟩) name way)
    have hlookup := lookup_overlay_of_nodup hv.nodup name (membersUnder under)
    rw [layer_table_eq hv.nodup, at?_cons_table, hlookup, ← lookup_membersUnder]
    rw [at?_cons_table] at h
    cases hnext : Schema.lookup name ms with
    | none => rfl
    | some next =>
      rw [hnext] at h
      exact ih (hv.of_mem (mem_of_lookup hnext)) h fun hrest => hcut (cutOff_cons_table_iff.2 ⟨next, hnext, hrest⟩)

/-- Nothing shows at the end of a way that is cut off. -/
theorem at?_layer_of_cutOff (hv : Tidy v) (h : CutOff way v) : at? way (layer under v) = none := by
  induction way generalizing under v with
  | nil => exact absurd h not_cutOff_nil
  | cons name way ih =>
    by_cases htable : ∃ ms, v = table ms
    · obtain ⟨ms, rfl⟩ := htable
      obtain ⟨next, hnext, hrest⟩ := cutOff_cons_table_iff.1 h
      have hlookup := lookup_overlay_of_nodup hv.nodup name (membersUnder under)
      rw [hnext] at hlookup
      rw [layer_table_eq hv.nodup, at?_cons_table, hlookup, Option.bind_some,
        ih (hv.of_mem (mem_of_lookup hnext)) hrest]
    · have hleaf : ∀ ms, v ≠ table ms := fun ms he => htable ⟨ms, he⟩
      rw [layer_of_not_table under hleaf, at?_cons_of_not_table hleaf]

/-! ### Laying over twice -/

theorem put_of_lookup (h : Schema.lookup name ms = some v) : put name v ms = ms := by
  induction ms with
  | nil => cases h
  | cons m rest ih =>
    rw [lookup_cons] at h
    rw [put]
    split at h
    next hm =>
      obtain rfl := Option.some.inj h
      rw [if_pos hm, ← hm]
    next hm => rw [if_neg hm, ih h]

/-- Values that already lie on top change nothing. -/
theorem overlay_eq_self (h : ∀ m ∈ ms, Schema.lookup m.1 base = some (layer (Schema.lookup m.1 base) m.2)) :
    overlay base ms = base := by
  induction ms with
  | nil => rfl
  | cons m rest ih =>
    obtain ⟨hm, hrest⟩ := List.forall_mem_cons.1 h
    have hput : put m.1 (layer (Schema.lookup m.1 base) m.2) base = base := put_of_lookup hm
    rw [overlay, overlayMember, hput, ih hrest]

/-- If its values lie on top once they are laid over, so does a table as a whole. -/
theorem overlay_overlay_of_layer (hnames : (ms.map Prod.fst).Nodup)
    (h : ∀ m ∈ ms, ∀ under, layer (some (layer under m.2)) m.2 = layer under m.2) (base : Members) :
    overlay (overlay base ms) ms = overlay base ms := by
  refine overlay_eq_self fun m hm => ?_
  have hlookup := lookup_overlay_of_nodup hnames m.1 base
  rw [lookup_of_mem hnames hm] at hlookup
  rw [hlookup, h m hm]

theorem layer_layer (hv : Tidy v) (under : Option Yaml) : layer (some (layer under v)) v = layer under v := by
  induction hv generalizing under with
  | leaf hleaf => rw [layer_of_not_table _ hleaf, layer_of_not_table _ hleaf]
  | node hnames _ ih =>
    rw [layer_table_eq hnames under, layer_table_eq hnames]
    exact congrArg table (overlay_overlay_of_layer hnames ih _)

theorem overlay_overlay (h : Tidy (table ms)) (base : Members) : overlay (overlay base ms) ms = overlay base ms :=
  overlay_overlay_of_layer h.nodup (fun _ hm => layer_layer (h.of_mem hm)) base

/-! ### The laws of an overlay -/

/-- What is so of a table laid over another one. -/
structure Laid (base ms laid : Members) : Prop where
  /-- What the upper table has, and is no table, counts. -/
  told : ∀ way v, at? way (table ms) = some v → (∀ part, v ≠ table part) → at? way (table laid) = some v
  /-- What the lower table has counts where the upper one neither has anything nor cuts the way off. -/
  kept : ∀ way v, at? way (table base) = some v → at? way (table ms) = none → ¬ CutOff way (table ms) →
    at? way (table laid) = some v
  /-- There is no way to anything but those in one of the two. -/
  known : ∀ way v, at? way (table laid) = some v →
    (∃ w, at? way (table base) = some w) ∨ ∃ w, at? way (table ms) = some w

theorem laid_overlay (h : Tidy (table ms)) (base : Members) : Laid base ms (overlay base ms) := by
  have hlayer : table (overlay base ms) = layer (some (table base)) (table ms) := rfl
  constructor
  case told =>
    intro way v hv hleaf
    rw [hlayer, at?_layer_of_some h hv, layer_of_not_table _ hleaf]
  case kept =>
    intro way v hv hnone hcut
    rw [hlayer, at?_layer_of_none h hnone hcut]
    exact hv
  case known =>
    intro way v hv
    rw [hlayer] at hv
    cases hms : at? way (table ms) with
    | some w => exact .inr ⟨w, rfl⟩
    | none =>
      refine .inl ⟨v, ?_⟩
      by_cases hcut : CutOff way (table ms)
      · rw [at?_layer_of_cutOff h hcut] at hv
        cases hv
      · rw [at?_layer_of_none h hms hcut] at hv
        exact hv

end Adjudication.Yaml
