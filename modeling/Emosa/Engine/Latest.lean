import Emosa.Engine.ReconcileSpec

/-!
# Emosa.Engine.Latest

The loop of `reconcile` looks at every operation and, for each, at every later one. At most one of
them is acted on: the pod's latest operation that was sent, when it is in a state to be followed.

* `latest`, `target?`: that operation.
* `reconcileFrom_eq`: the loop is `follow` of it.
-/

namespace Emosa

open Durable List

variable {I : Type} [IntentType I]

def Operation.sentIn (pod : String) (op : Operation I) : Bool :=
  op.podId = pod ∧ op.state.reconciled

/-- The pod's latest operation that was sent. -/
def Engine.latest (pod : String) (rows : List (Operation I)) : Option (Operation I) :=
  (rows.filter (·.sentIn pod)).getLast?

theorem State.reconciled_of_followed {s : State} (h : s.followed = true) : s.reconciled = true := by
  cases s <;> first | rfl | cases h

namespace Engine

variable {pod : String}

theorem latest_append (old later : List (Operation I)) :
    latest pod (old ++ later) = (latest pod later).or (latest pod old) := by
  simp [latest]

variable {rest : List (Operation I)}

section

variable (op : Operation I)

theorem latest_cons_of_any (h : rest.any (·.sentIn pod) = true) :
    latest pod (op :: rest) = latest pod rest := by
  have hne : rest.filter (·.sentIn pod) ≠ [] := by
    obtain ⟨q, hq, hs⟩ := any_eq_true.mp h
    exact ne_nil_of_mem (mem_filter.mpr ⟨hq, hs⟩)
  unfold latest
  rw [filter_cons]
  split
  · rw [getLast?_cons_of_ne_nil hne]
  · rfl

variable (h : rest.any (·.sentIn pod) = false)
include h

theorem latest_eq_none : latest pod rest = none := by
  have hnil : rest.filter (·.sentIn pod) = [] := by
    rw [filter_eq_nil_iff]
    intro q hq hs
    have hany : rest.any (·.sentIn pod) = true := any_eq_true.mpr ⟨q, hq, hs⟩
    rw [h] at hany
    cases hany
  rw [latest, hnil]
  rfl

theorem latest_cons_of_none :
    latest pod (op :: rest) = if op.sentIn pod then some op else none := by
  have hnone := latest_eq_none h
  unfold latest at hnone ⊢
  rw [filter_cons]
  split
  · rw [getLast?_eq_none_iff] at hnone
    rw [hnone]
    rfl
  · exact hnone

omit h in
theorem latest_mem {rows : List (Operation I)} {op : Operation I} (h : latest pod rows = some op) :
    op ∈ rows ∧ op.sentIn pod = true := mem_filter.mp (mem_of_getLast? h)

/-- The operation a pass acts on. -/
def target? (pod : String) (rows : List (Operation I)) : Option (Operation I) :=
  (latest pod rows).filter (·.state.followed)

omit h in
theorem target?_cons_of_any (h : rest.any (·.sentIn pod) = true) :
    target? pod (op :: rest) = target? pod rest := by
  rw [target?, latest_cons_of_any op h]
  rfl

theorem target?_eq_none : target? pod rest = none := by
  rw [target?, latest_eq_none h]
  rfl

theorem target?_cons_of_none :
    target? pod (op :: rest) =
      if op.podId = pod ∧ op.state.followed = true then some op else none := by
  rw [target?, latest_cons_of_none op h]
  split
  · rename_i hs
    simp only [Operation.sentIn, decide_eq_true_eq] at hs
    simp [Option.filter_some, hs.1]
  · rename_i hs
    rw [if_neg]
    · rfl
    rintro ⟨hpod, hf⟩
    apply hs
    simp [Operation.sentIn, hpod, State.reconciled_of_followed hf]

end

theorem reconcileFrom_eq (env : Env I) (snap : Snapshot) (rows : List (Operation I)) :
    reconcileFrom env pod snap rows =
      match target? pod rows with
      | some op => follow env pod snap op
      | none => pure () := by
  induction rows with
  | nil => rfl
  | cons op rest ih =>
    have hsent : (rest.any fun p => decide (p.podId = pod ∧ p.state.reconciled = true)) =
        rest.any (·.sentIn pod) := rfl
    unfold reconcileFrom
    rw [ih, hsent]
    cases hany : rest.any (·.sentIn pod) with
    | true => simp [target?_cons_of_any op hany]
    | false =>
      rw [target?_eq_none hany, target?_cons_of_none op hany]
      by_cases hf : op.podId = pod ∧ op.state.followed = true
      · simp [hf]
      · simp only [Bool.false_eq_true, not_false_eq_true, and_true, hf, if_false]

end Engine
end Emosa
