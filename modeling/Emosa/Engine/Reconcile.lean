import Emosa.Engine.Execute

/-!
# Emosa.Engine.Reconcile

`reconcile`: one pass over the journal with a snapshot of the pod. Before the snapshot arrives the
call has read nothing, so it is one segment. It follows the pod's most recent operation that was
sent: it settles one of an earlier start, times out one past its deadline, records a conflict where
the configuration it owns is gone, and records the evidence where it is observed applied.
-/

namespace Emosa

open Durable

variable {I : Type} [IntentType I]

/-- The states a pass acts on. -/
def State.followed : State → Bool
  | .configCommitted | .indeterminate | .timedOut | .observedApplied => true
  | _ => false

namespace Engine

/-- The operation was planned under another mapping than the pod's backend has now. -/
def remapped (env : Env I) (op : Operation I) (pod : String) : Bool :=
  match (env.mapping pod).filter (· ≠ ""), op.plan.bind (·.some? "mapping") with
  | some mapping, some planned => !planned.equal (.str mapping)
  | _, _ => false

/-- The deadline has passed. A process that does not know the operation's deadline sets it from
the journaled one. -/
def expired (env : Env I) (op : Operation I) : M I Bool := do
  match (← memory).deadlines.get? op.operationId with
  | some deadline => pure (deadline ≤ env.monotonic)
  | none =>
    let deadline := env.monotonic + max 0 (op.deadlineAt - env.utc)
    remember fun e => { e with deadlines := e.deadlines.set op.operationId deadline }
    pure (deadline ≤ env.monotonic)

/-- A record under a pass, and whether it is to be saved. -/
structure Pass (I : Type) where
  op : Operation I
  changed : Bool

/-- The deadline's mark on a write not yet observed; a committed one times out. -/
def lapse (expired : Bool) (op : Operation I) : Except EmosaError (Pass I) :=
  if expired ∧ (op.state = .configCommitted ∨ op.state = .indeterminate) then do
    let pass : Pass I := if op.deadlineElapsed then ⟨op, false⟩
      else ⟨{ op with originalOutcome := some op.state, deadlineElapsed := true }, true⟩
    if op.state = .configCommitted then
      let late ← transition pass.op .timedOut
      pure ⟨{ late with reason := some Reason.applyTimeout.value }, pass.changed⟩
    else pure pass
  else pure ⟨op, false⟩

/-- Past the deadline and not applied, a write of unknown outcome times out. -/
def giveUp (snap : Snapshot) (target : Record) (pass : Pass I) : Except EmosaError (Pass I) :=
  if snap.ready ∧ pass.op.state = .indeterminate ∧ pass.op.deadlineElapsed ∧
      ¬ (configMatches snap.config target ∧ snap.observed.fresh ∧
        snap.observed.satisfies target) then do
    let late ← transition pass.op .timedOut
    pure ⟨{ late with reason := some Reason.applyTimeout.value }, true⟩
  else pure pass

/-- The configuration the operation owns is not the pod's any more. -/
def drifted (env : Env I) (pod : String) (snap : Snapshot) (target : Record) (op : Operation I) :
    Bool :=
  !configMatches snap.config target &&
  (op.state = .configCommitted || op.state = .observedApplied || op.state = .timedOut) &&
  !writtenOnAnotherStart op snap.start? && !remapped env op pod

/-- The conflict is recorded; a committed operation ends in it. -/
def claimLost (pod : String) (snap : Snapshot) (pass : Pass I) : M I (Pass I) := do
  commit (.conflict pod
    { operationId := pass.op.operationId
      reason := some "owned configuration changed"
      instanceId := snap.start? })
  let op ← if pass.op.state = .configCommitted then liftE (transition pass.op .ownershipConflict)
    else pure pass.op
  if op.reason = some Reason.ownershipConflict.value then pure ⟨op, pass.changed⟩
  else pure ⟨{ op with reason := some Reason.ownershipConflict.value }, true⟩

/-- The record with the evidence, and the note of a late application. -/
def witnessed (snap : Snapshot) (op : Operation I) : Operation I :=
  { op with
    applicationEvidence := some (evidence snap false)
    lateResolution := if op.deadlineElapsed then some "applied_after_deadline"
      else op.lateResolution }

/-- The record in its new state. A timed-out one stays so. -/
def resolved (snap : Snapshot) (op : Operation I) : Except Exn (Operation I) :=
  if (witnessed snap op).state = .timedOut then .ok (witnessed snap op)
  else (transition (witnessed snap op) .observedApplied (evidence snap false)).mapError .emosa

/-- What is known of who wrote the configuration: without a reply, only that it is there. -/
def attributed (snap : Snapshot) (op : Operation I) : Except Exn (Pass I) :=
  match op.commitEvidence.get? "attribution" with
  | none => .error .other
  | some attribution =>
    if attribution = .str "unknown" then
      let noted := (evidence snap false).set "attribution" (.str "current_condition_only")
      .ok ⟨{ op with applicationEvidence := some noted }, true⟩
    else
      let reason := if op.deadlineElapsed then some Reason.applyTimeout.value else none
      .ok ⟨{ op with reason := reason }, true⟩

def noteApplied (snap : Snapshot) (op : Operation I) : Except Exn (Pass I) := do
  attributed snap (← resolved snap op)

/-- What a ready and fresh snapshot says about the operation. -/
def observe (env : Env I) (pod : String) (snap : Snapshot) (target : Record) (pass : Pass I) :
    M I (Pass I) :=
  if snap.ready ∧ snap.observed.fresh then
    if drifted env pod snap target pass.op then claimLost pod snap pass
    else if configMatches snap.config target ∧ snap.observed.satisfies target ∧
        pass.op.applicationEvidence.isNone then
      lift (noteApplied snap pass.op)
    else pure pass
  else pure pass

/-- A pass over the operation once its deadline was looked at. -/
def judge (env : Env I) (pod : String) (snap : Snapshot) (pass : Pass I) : M I (Pass I) :=
  match IntentType.target env.vault pass.op.intent with
  | .error _ =>
    if pass.op.blockedForResubmission then pure pass
    else pure ⟨{ pass.op with blockedForResubmission := true }, true⟩
  | .ok target => do
    let pass ← liftE (giveUp snap target pass)
    observe env pod snap target pass

def follow (env : Env I) (pod : String) (snap : Snapshot) (op : Operation I) : M I Unit := do
  if ← settleRestarted op snap.start? then pure ()
  else
    let late ← expired env op
    let pass ← liftE (lapse late op)
    let pass ← judge env pod snap pass
    if pass.changed then Store.save pass.op else pure ()

/-- The loop over the operations: one is followed when no later one replaces it. -/
def reconcileFrom (env : Env I) (pod : String) (snap : Snapshot) : List (Operation I) → M I Unit
  | [] => pure ()
  | op :: rest => do
    if op.podId = pod ∧ op.state.followed ∧
        ¬ rest.any (fun p => p.podId = pod ∧ p.state.reconciled) then
      follow env pod snap op
    reconcileFrom env pod snap rest

def reconcile (env : Env I) (pod : String) (reply : Except Exn Snapshot) : M I Snapshot := do
  if pod ∉ (← memory).backends then raise .other
  else
    let snap ← lift reply
    see pod snap
    reconcileFrom env pod snap (← journal).operations
    pure snap

end Engine
end Emosa
