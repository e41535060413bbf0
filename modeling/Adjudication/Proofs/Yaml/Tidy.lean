import Adjudication.Proofs.Yaml.Overlay
import Mathlib.Control.Lawful

/-!
No table that is read has a name twice. A table is filled member by member, a later value taking the place of one that is
there, so the names stay different; and what is known of an anchor is the value that has been read for it.
-/

namespace Adjudication.Yaml

variable {name : String} {ms : Members} {v : Yaml}

/-! ### Tables that are filled -/

theorem map_put (name : String) (v : Yaml) (ms : Members) : (put name v ms).map Prod.fst =
    if name ∈ ms.map Prod.fst then ms.map Prod.fst else ms.map Prod.fst ++ [name] := by
  induction ms with
  | nil => rfl
  | cons m rest ih =>
    rw [put]
    by_cases hm : m.1 = name
    · simp [hm]
    · rw [if_neg hm, List.map_cons, ih]
      by_cases hrest : name ∈ rest.map Prod.fst
      · rw [if_pos hrest, List.map_cons, if_pos (List.mem_cons_of_mem _ hrest)]
      · have hnew : name ∉ m.1 :: rest.map Prod.fst := List.not_mem_cons_of_ne_of_not_mem (Ne.symm hm) hrest
        rw [if_neg hrest, List.map_cons, if_neg hnew, List.cons_append]

theorem mem_put {m : String × Yaml} (h : m ∈ put name v ms) : m = (name, v) ∨ m ∈ ms := by
  induction ms with
  | nil => exact .inl (List.mem_singleton.1 h)
  | cons first rest ih =>
    rw [put] at h
    split at h
    · exact (List.mem_cons.1 h).imp_right (List.mem_cons_of_mem _)
    · rcases List.mem_cons.1 h with rfl | hrest
      · exact .inr List.mem_cons_self
      · exact (ih hrest).imp_right (List.mem_cons_of_mem _)

theorem Tidy.put (h : Tidy (.table ms)) (hv : Tidy v) (name : String) : Tidy (.table (put name v ms)) := by
  refine .node ?_ fun m hm => ?_
  · rw [map_put]
    split
    · exact h.nodup
    next hnew => exact List.nodup_append.2 ⟨h.nodup, List.nodup_singleton _, fun a ha b hb he => hnew (by simp_all)⟩
  · rcases mem_put hm with rfl | hm
    · exact hv
    · exact h.of_mem hm

theorem tidy_nil : Tidy (.table []) := .node List.nodup_nil (List.forall_mem_nil _)

theorem tidy_membersOf {pairs : List (Yaml × Yaml)} (h : ∀ p ∈ pairs, Tidy p.2) : Tidy (.table (membersOf pairs)) := by
  rw [membersOf]
  refine List.foldlRecOn (motive := fun ms => Tidy (.table ms)) pairs _ tidy_nil fun ms hms p hp => ?_
  split
  · exact hms.put (h p hp) _
  · exact hms

/-! ### What is known of anchors -/

/-- A result that is tidy where it is a value. -/
def Found.Tidy (r : Found Yaml) : Prop := ∀ v, r = .ok v → Yaml.Tidy v

/-- What has been read is tidy. -/
def Known.Tidy (known : Known) : Prop := ∀ k ∈ known, Found.Tidy k.2

/-- A reading that comes to what has a property, and keeps what is known tidy. -/
def Keeps {α : Type} (x : StateM Known α) (P : α → Prop) : Prop :=
  ∀ known : Known, known.Tidy → P (x.run known).1 ∧ Known.Tidy (x.run known).2

section

variable {α β : Type} {P : α → Prop} {Q : β → Prop}

theorem keeps_pure {a : α} (h : P a) : Keeps (pure a) P := fun _ hknown => ⟨h, hknown⟩

theorem Keeps.bind {x : StateM Known α} {f : α → StateM Known β} (hx : Keeps x P) (hf : ∀ a, P a → Keeps (f a) Q) :
    Keeps (x >>= f) Q := by
  intro known hknown
  obtain ⟨hvalue, hleft⟩ := hx known hknown
  exact hf _ hvalue _ hleft

theorem Keeps.mono {P' : α → Prop} {x : StateM Known α} (hx : Keeps x P) (h : ∀ a, P a → P' a) : Keeps x P' :=
  fun known hknown => (hx known hknown).imp_left (h _)

theorem keeps_mapM {f : α → StateM Known β} : ∀ {items : List α}, (∀ a ∈ items, Keeps (f a) Q) →
    Keeps (items.mapM f) fun values => ∀ b ∈ values, Q b
  | [], _ => by
    rw [List.mapM_nil]
    exact keeps_pure (List.forall_mem_nil _)
  | a :: rest, h => by
    rw [List.mapM_cons]
    obtain ⟨ha, hrest⟩ := List.forall_mem_cons.1 h
    exact ha.bind fun b hb => (keeps_mapM hrest).bind fun bs hbs => keeps_pure (List.forall_mem_cons.2 ⟨hb, hbs⟩)

theorem keeps_get : Keeps get Known.Tidy := fun _ hknown => ⟨hknown, hknown⟩

end

theorem Found.mem_of_all {α : Type} : ∀ {rs : List (Found α)} {values : List α}, Found.all rs = .ok values →
    ∀ a ∈ values, .ok a ∈ rs
  | [], values, h => by
    obtain rfl := Except.ok.inj h
    exact List.forall_mem_nil _
  | r :: rest, values, h => by
    rw [Found.all] at h
    rcases hboth : Found.both r (Found.all rest) with e | ⟨first, others⟩
    · rw [hboth] at h
      cases h
    · rw [hboth] at h
      obtain rfl := Except.ok.inj h
      obtain ⟨hr, hrest⟩ := Found.both_eq_ok_iff.1 hboth
      refine List.forall_mem_cons.2 ⟨hr ▸ List.mem_cons_self, fun a ha => List.mem_cons_of_mem _ ?_⟩
      exact Found.mem_of_all hrest a ha

/-! ### Nodes -/

theorem tidy_error {e : Nat × Fault} : Found.Tidy (.error e) := fun _ h => by cases h

theorem tidy_ok_iff : Found.Tidy (.ok v) ↔ Yaml.Tidy v :=
  ⟨fun h => h v rfl, fun h _ he => Except.ok.inj he ▸ h⟩

theorem Found.Tidy.deeper {r : Found Yaml} (h : r.Tidy) : (Found.deeper r).Tidy := by
  cases r with
  | error e => exact tidy_error
  | ok v => exact h

theorem tidy_map {α : Type} {f : α → Yaml} (hf : ∀ a, Yaml.Tidy (f a)) (r : Found α) : Found.Tidy (r.map f) := by
  cases r with
  | error e => exact tidy_error
  | ok a => exact tidy_ok_iff.2 (hf a)

theorem tidy_of_map {α : Type} {f : α → Yaml} {x : Except Fault α} (h : f <$> x = .ok v) (hf : ∀ a, Yaml.Tidy (f a)) :
    Yaml.Tidy v := by
  cases x with
  | error e => cases h
  | ok a => exact Except.ok.inj h ▸ hf a

theorem tidy_list (items : List Yaml) : Yaml.Tidy (list items) := .leaf nofun

theorem tidy_set (items : List Yaml) : Yaml.Tidy (set items) := .leaf nofun

/-- What is read off a scalar is no table. -/
theorem tidy_ofScalar {start : Mark} {tag : Tag} {s : String} (h : ofScalar start tag s = .ok v) : Yaml.Tidy v := by
  rw [ofScalar.eq_def] at h
  split at h
  · exact Except.ok.inj h ▸ .leaf nofun
  · exact tidy_of_map h fun _ => .leaf nofun
  · exact tidy_of_map h fun _ => .leaf nofun
  · exact tidy_of_map h fun _ => .leaf nofun
  · exact Except.ok.inj h ▸ .leaf nofun
  · exact tidy_of_map h fun _ => .leaf nofun
  · exact tidy_of_map h fun _ => .leaf nofun
  · cases h

theorem tidy_ofTorn {start : Mark} {tag : Tag} {t : Text.Torn} (h : ofTorn start tag t = .ok v) : Yaml.Tidy v := by
  rw [ofTorn.eq_def] at h
  dsimp only at h
  split at h
  · exact Except.ok.inj h ▸ .leaf nofun
  · cases h
  · cases h
  · cases h
  · exact Except.ok.inj h ▸ .leaf nofun
  · cases h
  · cases h
  · cases h

theorem tidy_ofLeaf {d : Document} {n : Node} {fuel : Nat} (h : ofLeaf d n fuel = .ok v) : Yaml.Tidy v := by
  rw [ofLeaf] at h
  split at h
  · exact tidy_ofScalar h
  · cases htext : scalarText d n fuel with
    | error e =>
      rw [htext] at h
      cases h
    | ok t =>
      rw [htext] at h
      simp only [bind, Except.bind] at h
      split at h
      · cases h
      · cases t with
        | text s => exact tidy_ofScalar h
        | torn codes => exact tidy_ofTorn h

theorem tidy_ofExcept {r : Except Fault Yaml} (h : ∀ v, r = .ok v → Yaml.Tidy v) : Found.Tidy (Found.ofExcept r) := by
  cases r with
  | error e => exact tidy_error
  | ok v => exact tidy_ok_iff.2 (h v rfl)

theorem tidy_hollow (tag : Tag) : Yaml.Tidy (hollow tag) := by
  rw [hollow.eq_def]
  split
  · exact tidy_nil
  · exact .leaf nofun
  · exact .leaf nofun

/-- A member, or a row of them, with tidy values. -/
def TidyMember (r : Found (Yaml × Yaml)) : Prop := ∀ p, r = .ok p → Yaml.Tidy p.2

def TidyRow (r : Found (List (Yaml × Yaml))) : Prop := ∀ ps, r = .ok ps → ∀ p ∈ ps, Yaml.Tidy p.2

theorem tidyMember_both {key value : Found Yaml} (h : Found.Tidy value) : TidyMember (Found.both key value) := by
  rintro ⟨k, v⟩ hboth
  exact h v (Found.both_eq_ok_iff.1 hboth).2

theorem tidyRow_all {rs : List (Found (Yaml × Yaml))} (h : ∀ r ∈ rs, TidyMember r) : TidyRow (Found.all rs) :=
  fun _ hps p hp => h _ (Found.mem_of_all hps p hp) p rfl

theorem tidy_table_of_row {r : Found (List (Yaml × Yaml))} (h : TidyRow r) :
    Found.Tidy (r.deeper.map fun ps => table (membersOf ps)) := by
  cases r with
  | error e => exact tidy_error
  | ok ps => exact tidy_ok_iff.2 (tidy_membersOf (h ps rfl))

section

variable {d : Document} {around : Around} {fuel : Nat} (ih : ∀ around n, Keeps (ofNode d around n fuel) Found.Tidy)

include ih in
theorem keeps_member (m : Node × Node) {key : StateM Known (Found Yaml)} (hkey : Keeps key fun _ => True) :
    Keeps (do return Found.both (← key) (← ofNode d around m.2 fuel)) TidyMember :=
  hkey.bind fun _ _ => (ih around m.2).bind fun _ hvalue => keeps_pure (tidyMember_both hvalue)

theorem keeps_row {found : Except Fault (List (Node × Node))} {member : Node × Node → StateM Known (Found (Yaml × Yaml))}
    (h : ∀ m, Keeps (member m) TidyMember) :
    Keeps (match found with
      | .error f => return Found.fault f
      | .ok ms => return Found.all (← ms.mapM member)) TidyRow := by
  cases found with
  | error f => exact keeps_pure fun _ hps => by cases hps
  | ok ms => exact (keeps_mapM fun m _ => h m).bind fun rs hrs => keeps_pure (tidyRow_all hrs)

end

/-- Reading a node comes to a tidy value, if what is known is tidy. -/
theorem keeps_ofNode (d : Document) (around : Around) (n : Node) (fuel : Nat) :
    Keeps (ofNode d around n fuel) Found.Tidy := by
  induction fuel generalizing around n with
  | zero => exact keeps_pure (tidy_ok_iff.2 (.leaf nofun))
  | succ fuel ih =>
    have hany : ∀ around n, Keeps (ofNode d around n fuel) fun _ => True := fun around n => (ih around n).mono fun _ _ => trivial
    have hmany : ∀ {items : List Node} {f : Node → StateM Known (Found Yaml)}, (∀ i, Keeps (f i) fun _ => True) →
        Keeps (items.mapM f) fun _ => True := fun hf => (keeps_mapM fun i _ => hf i).mono fun _ _ => trivial
    rw [ofNode.eq_def]
    dsimp only
    split
    next name =>
      refine keeps_get.bind fun known hknown => ?_
      split
      next k hk => exact keeps_pure (hknown k (List.mem_of_find?_eq_some hk))
      next =>
        split
        · exact keeps_pure (tidy_ok_iff.2 (tidy_hollow _))
        · refine (ih _ _).bind fun r hr => ?_
          split
          · refine Keeps.bind (P := fun _ => True) (fun known hknown => ⟨trivial, ?_⟩) fun _ _ => keeps_pure hr
            exact List.forall_mem_cons.2 ⟨hr, hknown⟩
          · exact keeps_pure hr
    next =>
      split
      case h_1 =>
        exact (hmany fun i => hany around i).bind fun _ _ => keeps_pure (tidy_map tidy_list _)
      case h_2 => exact keeps_pure tidy_error
      case h_3 =>
        refine Keeps.bind (P := TidyRow) (keeps_row fun m => ?_) fun r hr => keeps_pure (tidy_table_of_row hr)
        split
        · exact keeps_member ih m (keeps_pure trivial)
        · exact keeps_member ih m (hany around m.1)
      case h_4 =>
        refine Keeps.bind (P := TidyRow) (keeps_row fun m => ?_) fun _ _ => keeps_pure (tidy_map (fun _ => tidy_set _) _)
        split
        · exact keeps_member ih m (keeps_pure trivial)
        · exact keeps_member ih m (hany around m.1)
      case h_5 => exact keeps_pure tidy_error
      case h_6 => exact keeps_pure tidy_error
      case h_7 =>
        refine (hmany fun i => ?_).bind fun _ _ => keeps_pure (tidy_map tidy_list _)
        split
        · exact (hany around _).bind fun _ _ => (hany around _).bind fun _ _ => keeps_pure trivial
        · exact keeps_pure trivial
        · exact keeps_pure trivial
      case h_8 => exact keeps_pure tidy_error
      case h_9 => exact keeps_pure (tidy_ofExcept fun v hv => tidy_ofLeaf hv)

/-- No table that is read off a text has a name twice. -/
theorem tidy_ofText {levels : Nat} {s : List Char} (h : ofText levels s = .ok v) : Yaml.Tidy v := by
  rw [ofText] at h
  cases hd : Document.ofText levels s with
  | error e =>
    rw [hd] at h
    cases h
  | ok found =>
    rw [hd] at h
    simp only [bind, Except.bind] at h
    cases found with
    | none => exact Except.ok.inj h ▸ .leaf nofun
    | some d =>
      dsimp only at h
      split at h
      next w hw =>
        have hkeeps := (keeps_ofNode d ⟨[], false⟩ d.root (8 * s.length + 8) [] (List.forall_mem_nil _)).1
        exact Except.ok.inj h ▸ hkeeps w hw
      next => cases h

end Adjudication.Yaml
