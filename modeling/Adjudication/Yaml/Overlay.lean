import Adjudication.Yaml.Value

/-!
Laying one table over another: a value counts before the one that lies under it, except that where both are tables
the upper one is laid over the lower one in turn.
-/

namespace Adjudication.Yaml

abbrev Members := List (String × Yaml)

mutual

def overlay (base : Members) : Members → Members
  | [] => base
  | m :: rest => overlay (put m.1 (overlayMember base m) base) rest

/-- What a member comes to over the members that lie under it. -/
def overlayMember (base : Members) : String × Yaml → Yaml
  | (name, v) => layer (Schema.lookup name base) v

/-- A value over what lies under it, if anything does. -/
def layer (under : Option Yaml) : Yaml → Yaml
  | table ms =>
    match under with
    | some (table base) => table (overlay base ms)
    | _ => table ms
  | v => v

end

@[simp] theorem overlay_nil (base : Members) : overlay base [] = base := rfl

/-- With nothing under it, a value stays as it is. -/
theorem layer_none (v : Yaml) : layer none v = v := by
  cases v <;> rfl

/-- Anything but a table hides what lies under it. -/
theorem layer_of_not_table {v : Yaml} (under : Option Yaml) (h : ∀ ms, v ≠ table ms) : layer under v = v := by
  cases v with
  | table ms => exact absurd rfl (h ms)
  | _ => rfl

end Adjudication.Yaml
