import Adjudication.Judge.Service
import Mathlib.Data.List.Basic

/-!
The turns of a judge's service. A service answers by what has been asked before, so the same request may be answered
differently each time that it is made. A service that goes by scripts takes no other turns than its scripts have.
-/

namespace Adjudication.Judge

variable {σ : Type} {service : Service σ} {request : Request}

namespace Service

/-! ### The same request again and again -/

/-- A service after a request has been made so many times. -/
def after (service : Service σ) (request : Request) : Nat → Service σ
  | 0 => service
  | i + 1 => (service.after request i).rest request

/-- The turns on a request that is made again and again, counted from 0. -/
def answer (service : Service σ) (request : Request) (i : Nat) : Turn σ := (service.after request i).turn request

theorem after_eq (service : Service σ) (request : Request) (i : Nat) :
    service.after request i = { service with asked := List.replicate i request ++ service.asked } := by
  induction i with
  | zero => rfl
  | succ i ih =>
    rw [after, ih]
    rfl

theorem after_after (service : Service σ) (request : Request) (i k : Nat) :
    (service.after request i).after request k = service.after request (i + k) := by
  rw [after_eq, after_eq, after_eq, Nat.add_comm, List.replicate_add, List.append_assoc]

theorem answer_eq (service : Service σ) (request : Request) (i : Nat) :
    service.answer request i = service.respond (List.replicate i request ++ service.asked) request := by
  rw [answer, after_eq]
  rfl

theorem count_asked_after (service : Service σ) (request other : Request) (i : Nat) :
    (service.after request i).asked.count other = service.asked.count other + if request = other then i else 0 := by
  rw [after_eq, List.count_append, List.count_replicate, Nat.add_comm]
  simp only [beq_iff_eq]

/-- The turns on a request depend on nothing but how often it has been made before. -/
def Counts (service : Service σ) (request : Request) : Prop :=
  ∀ before other, before.count request = other.count request →
    service.respond before request = service.respond other request

/-- The turns on a request are all the same. -/
def Constant (service : Service σ) (request : Request) : Prop :=
  ∀ before other, service.respond before request = service.respond other request

theorem Constant.counts (h : service.Constant request) : service.Counts request := fun before other _ => h before other

/-! ### Kinds of turns -/

/-- A service that takes no other turns than those of a kind. -/
def Only (P : Turn σ → Prop) (service : Service σ) : Prop :=
  ∀ before request, P (service.respond before request)

variable {P Q : Turn σ → Prop}

theorem Only.mono (h : service.Only P) (hPQ : ∀ turn, P turn → Q turn) : service.Only Q :=
  fun before request => hPQ _ (h before request)

theorem Only.after (h : service.Only P) (request : Request) (i : Nat) : (service.after request i).Only P := by
  rw [after_eq]
  exact h

theorem Only.answer (h : service.Only P) (request : Request) (i : Nat) : P (service.answer request i) := by
  rw [answer_eq]
  exact h _ _

/-! ### Scripts -/

variable {zero : σ} {scripts : List (String × Script σ)} {fallback : Script σ}

theorem step_of_forall {script : Script σ} (hstandard : P (standard zero)) (h : ∀ turn ∈ script, P turn) (n : Nat) :
    P (step zero script n) := by
  rw [step]
  cases hget : script[min n (script.length - 1)]? with
  | none => exact hstandard
  | some turn => exact h turn (List.mem_of_getElem? hget)

/-- A service that goes by scripts takes their steps and the standard one. -/
theorem only_ofScripts (hstandard : P (standard zero)) (hscripts : ∀ entry ∈ scripts, ∀ turn ∈ entry.2, P turn)
    (hfallback : ∀ turn ∈ fallback, P turn) : (ofScripts zero scripts fallback).Only P := by
  intro before request
  simp only [ofScripts]
  split
  next script hlookup =>
    obtain ⟨entry, hentry, rfl⟩ := Option.map_eq_some_iff.1 hlookup
    exact step_of_forall hstandard (hscripts entry (List.mem_of_find?_eq_some hentry)) _
  next => exact step_of_forall hstandard hfallback _

/-- Where there is one script for all checks, the turns on a request are the steps of that script. -/
theorem answer_ofScripts (zero : σ) (fallback : Script σ) (request : Request) (i : Nat) :
    (ofScripts zero [] fallback).answer request i = step zero fallback i := by
  rw [answer_eq]
  show step zero fallback ((List.replicate i request ++ []).countP fun _ => true) = _
  rw [List.countP_true, List.append_nil, List.length_replicate]

end Service
end Adjudication.Judge
