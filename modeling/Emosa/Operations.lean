import Emosa.Model

/-!
# Emosa.Operations

The lifecycle of an operation: every change of state goes through `transition`, which follows the
table `State.next` and asks for the evidence the new state needs. `Moves` is the relation the table
spells out, with a record rewritten in its own state allowed too.
-/

namespace Emosa

def State.next : State → List State
  | .requested => [.validated, .rejected, .cancelled]
  | .validated => [.submitted, .rejected, .ownershipConflict, .cancelled, .observedApplied]
  | .submitted => [.configCommitted, .indeterminate, .failed, .ownershipConflict]
  | .configCommitted => [.observedApplied, .failed, .timedOut, .ownershipConflict]
  | .indeterminate =>
      [.configCommitted, .observedApplied, .ownershipConflict, .failed, .timedOut]
  | _ => []

def State.Moves (s t : State) : Prop := s = t ∨ t ∈ s.next

instance (s t : State) : Decidable (s.Moves t) := inferInstanceAs (Decidable (_ ∨ _))

variable {I : Type}

def transition (op : Operation I) (target : State) (evidence : Record := ∅) :
    Except EmosaError (Operation I) :=
  if target ∉ op.state.next then
    .error ⟨.preconditionFailed, s!"invalid transition {op.state.value} → {target.value}"⟩
  else if target = .submitted ∧ op.attempts = [] then
    .error ⟨.preconditionFailed, "durable attempt association required"⟩
  else if target = .configCommitted ∧ !evidence.holds "transaction_validated" then
    .error ⟨.preconditionFailed, "validated transaction results required"⟩
  else if target = .observedApplied ∧
      !(evidence.holds "fresh" && evidence.holds "predicate_satisfied") then
    .error ⟨.preconditionFailed, "fresh application evidence required"⟩
  else if target = .observedApplied ∧ op.state = .validated ∧ !evidence.holds "observed_noop" then
    .error ⟨.preconditionFailed, "no-op needs observed evidence"⟩
  else if target = .timedOut ∧ !op.deadlineElapsed then
    .error ⟨.preconditionFailed, "application deadline has not elapsed"⟩
  else .ok { op with state := target }

theorem transition_ok {op op' : Operation I} {target : State} {evidence : Record}
    (h : transition op target evidence = .ok op') :
    op' = { op with state := target } ∧ target ∈ op.state.next ∧
      (target = .timedOut → op.deadlineElapsed = true) := by
  unfold transition at h
  split at h; · cases h
  rename_i hnext
  split at h; · cases h
  split at h; · cases h
  split at h; · cases h
  split at h; · cases h
  split at h; · cases h
  rename_i htime
  cases h
  refine ⟨rfl, Decidable.not_not.mp hnext, fun ht => ?_⟩
  simpa [ht] using htime

theorem transition_of_next {op : Operation I} {target : State} {evidence : Record}
    (hnext : target ∈ op.state.next) (h₁ : target ≠ .submitted) (h₂ : target ≠ .configCommitted)
    (h₃ : target ≠ .observedApplied) (h₄ : target ≠ .timedOut) :
    transition op target evidence = .ok { op with state := target } := by
  simp [transition, hnext, h₁, h₂, h₃, h₄]

theorem State.active_of_next {s t : State} (h : t ∈ s.next) : s.active = true := by
  cases s <;> first | rfl | simp [State.next] at h

end Emosa
