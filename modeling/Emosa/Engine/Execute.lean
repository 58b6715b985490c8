import Emosa.Engine.Basic

/-!
# Emosa.Engine.Execute

`execute` as the segments between its suspensions. It suspends where it asks a WSC guard, the
backend's plan, snapshot or submission; a suspended call is a `Task`: its own copy of the record and
the `Stage` it waits in. While it waits, any other call may run and the journal may change under its
copy. `resume` continues it with the reply.

* `catching`: the handler of the validation. It rejects the call's own copy of the record.
* `closing`: the `finally` of the call, run when it ends and not when it suspends.
-/

namespace Emosa

open Durable

variable {I : Type} [IntentType I]

/-- What a suspended execution waits for. -/
inductive Stage where
  | guard
  | plan
  | snapshot
  | recheck (snap : Snapshot)
  | submit (attempt : Attempt)

structure Task (I : Type) where
  op : Operation I
  stage : Stage

/-- How a segment ends, exceptions apart. -/
inductive Next (I : Type) where
  | done (op : Operation I)
  | await (task : Task I)

inductive Reply where
  | guard (r : Except Exn Unit)
  | plan (r : Except Exn Record)
  | snapshot (r : Except Exn Snapshot)
  | submit (r : Except Exn SubmitResult)

def Stage.expects : Stage → Reply → Bool
  | .guard, .guard _ | .plan, .plan _ | .snapshot, .snapshot _ | .recheck _, .guard _
  | .submit _, .submit _ => true
  | _, _ => false

namespace Engine

/-- Runs `m`; where it raises the program's own error the operation is rejected with its code. What
follows `m` is outside the handler. -/
def catching {α : Type} (op : Operation I) (m : M I α) (next : α → M I (Next I)) : M I (Next I) := do
  match ← attempt m with
  | .ok a => next a
  | .error (.emosa e) => do
    let op ← reject op e.code
    pure (.done op)
  | .error x => raise x

/-- The WSC exchange is still live. True: its guard is to be asked. -/
def checkWsc (op : Operation I) : M I Bool := do
  if op.initiatingInterface ≠ "wsc-component" then pure false
  else
    let live := ((← journal).receipts.get? op.operationId).any (·.processId = (← memory).processId)
    if live ∧ op.operationId ∈ (← memory).wscGuards then pure true
    else fail .notReady "WSC exchange authority is no longer live"

/-- `plan` up to the backend's answer. -/
def checkPlan (pod : String) : M I Unit := do
  if pod ∉ (← memory).backends then fail .unsupportedOperation "unknown pod"
  else if (← owned pod).isSome then fail .ownershipConflict "ownership must be re-qualified"
  else pure ()

def evidence (snap : Snapshot) (noop : Bool) : Record :=
  let r := ((((∅ : Record).set "fresh" (.bool snap.observed.fresh)).set
    "predicate_satisfied" (.bool true)).set "generation" (.int snap.generation)).set
    "revision" (.int snap.observed.revision)
  let r := ((r.set "received_at" (.str snap.observed.receivedAt)).set
    "source" (.str snap.observed.source)).set "provenance" (.str snap.observed.provenance)
  let r := if noop then r.set "observed_noop" (.bool true) else r
  match snap.start? with
  | some start => r.set "instance" (.str start)
  | none => r

def unknownAttribution : Record := (∅ : Record).set "attribution" (.str "unknown")

/-- The IDs an attempt draws. -/
structure Draw where
  attemptId : String
  transactionId : String

/-- From the journaled validation: nothing to do, or the attempt is journaled and then sent. -/
def submitting (env : Env I) (draw : Draw) (op : Operation I) (snap : Snapshot) :
    M I (Next I) := do
  let target ← liftE (IntentType.target env.vault op.intent)
  if snap.observed.satisfies target ∧ configMatches snap.config target then
    let seen := evidence snap true
    let op ← liftE (transition op .observedApplied seen)
    let op := { op with changed := some false, applicationEvidence := some seen }
    Store.save op
    pure (.done op)
  else
    let attempt : Attempt := ⟨draw.attemptId, draw.transactionId, snap.generation⟩
    let op := { op with attempts := op.attempts ++ [attempt] }
    let op ← liftE (transition op .submitted)
    let op := { op with commitEvidence := unknownAttribution }
    Store.save op
    pure (.await ⟨op, .submit attempt⟩)

/-- After the second check: the journal is read again, a cancelled operation is left alone. -/
def validated (env : Env I) (draw : Draw) (op : Operation I) (snap : Snapshot) : M I (Next I) :=
  catching op (Store.get op.operationId) fun current => do
    if current.state ≠ .requested then pure (.done current)
    else
      let op := { op with schemaFingerprint := some snap.schemaFingerprint }
      catching op (liftE (transition op .validated)) fun op =>
        catching op (Store.save op) fun _ => submitting env draw op snap

def planning (op : Operation I) : M I (Next I) :=
  catching op (checkPlan op.podId) fun _ => pure (.await ⟨op, .plan⟩)

/-- The snapshot's own checks; true: the WSC guard is asked once more. -/
def admitSnapshot (op : Operation I) (reply : Except Exn Snapshot) : M I (Snapshot × Bool) := do
  let snap ← lift reply
  see op.podId snap
  if snap.ready = false then fail .notReady "fresh complete snapshot required"
  else
    let asked ← checkWsc op
    pure (snap, asked)

/-- A refusal the pod's database replied with becomes the commit evidence. -/
def refused (op : Operation I) (result : SubmitResult) : Operation I :=
  if result.evidence.get? "attribution" = some (.str "reply") ∧
      result.evidence.holds "database_error" then
    { op with commitEvidence := result.evidence }
  else op

def unknownOutcome (op : Operation I) : M I (Operation I) := do
  let op ← liftE (transition op .indeterminate)
  pure { op with reason := some Reason.outcomeUnknown.value }

/-- The record after the backend's answer to a submission. -/
def outcome (op : Operation I) (reply : Except Exn SubmitResult) : M I (Operation I) :=
  match reply with
  | .error .other => raise .other
  | .error _ => unknownOutcome op
  | .ok result =>
    match result.status with
    | .committed => do
      let op ← liftE (transition op .configCommitted result.evidence)
      pure { op with commitEvidence := result.evidence, changed := some true }
    | .conflict => do
      let op ← liftE (transition op .ownershipConflict)
      let op := refused { op with reason := some Reason.ownershipConflict.value } result
      commit (.conflict op.podId { operationId := op.operationId, reason := result.reason })
      pure op
    | .rejected => do
      let op ← liftE (transition op .failed)
      pure (refused { op with reason := result.reason } result)
    | .unknown => unknownOutcome op

def settleOutcome (op : Operation I) (reply : Except Exn SubmitResult) : M I (Next I) := do
  let op ← outcome op reply
  Store.save op
  pure (.done op)

/-- The `finally` of `execute`: the pod is free, and the guard of an operation that is no longer
REQUESTED goes. -/
def close (op : Operation I) : M I Unit := do
  remember fun e => { e with busy := e.busy.filter (· ≠ op.podId) }
  let current ← Store.get op.operationId
  if current.state ≠ .requested then
    remember fun e => { e with wscGuards := e.wscGuards.filter (· ≠ op.operationId) }

def closing (op : Operation I) (m : M I (Next I)) : M I (Next I) := do
  match ← attempt m with
  | .ok (.await task) => pure (.await task)
  | .ok (.done result) => do
    close op
    pure (.done result)
  | .error x => do
    close op
    raise x

/-- Up to the first wait, without the `finally`. -/
def beginning (op : Operation I) : M I (Next I) := do
  if op.podId ∉ (← memory).backends then raise .other
  else catching op (checkWsc op) fun asked =>
    if asked then pure (.await ⟨op, .guard⟩) else planning op

/-- The first segment of `execute`. -/
def execute (id : String) : M I (Next I) := do
  let op ← Store.get id
  if op.state ≠ .requested then pure (.done op)
  else if op.podId ∈ (← memory).busy then fail .busy "pod already executing"
  else
    remember fun e => { e with busy := op.podId :: e.busy }
    closing op (beginning op)

/-- The segment after the reply, without the `finally`. With a reply it does not wait for the
execution stays where it is. -/
def continuing (env : Env I) (draw : Draw) (task : Task I) (reply : Reply) : M I (Next I) :=
  match task.stage, reply with
  | .guard, .guard r => catching task.op (lift r) fun _ => planning task.op
  | .plan, .plan r =>
    catching task.op (lift r) fun plan =>
      pure (.await ⟨{ task.op with plan := some plan }, .snapshot⟩)
  | .snapshot, .snapshot r =>
    catching task.op (admitSnapshot task.op r) fun (snap, asked) =>
      if asked then pure (.await ⟨task.op, .recheck snap⟩)
      else validated env draw task.op snap
  | .recheck snap, .guard r => catching task.op (lift r) fun _ => validated env draw task.op snap
  | .submit _, .submit r => settleOutcome task.op r
  | _, _ => pure (.await task)

def resume (env : Env I) (draw : Draw) (task : Task I) (reply : Reply) : M I (Next I) :=
  closing task.op (continuing env draw task reply)

end Engine
end Emosa
