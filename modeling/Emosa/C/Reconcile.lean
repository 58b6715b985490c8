import Emosa.C.Engine
import Emosa.Engine.Reconcile

/-!
# Emosa.C.Reconcile

The reconciliation pass in C, and runs of the engine: calls one after the other, and processes that
end between two of them. A pass follows the pod's latest operation that was sent, when it is in a
state to be followed.
-/

namespace Emosa.C

open Durable

variable {I : Type} [IntentType I]

/-- The deadline has passed. A process without a slot for the operation sets one from the journaled
deadline. -/
def emEngineExpired (env : EmEnv I) (op : Operation I) (p : Process I) : Bool × Process I :=
  match timer p.memory op.operationId with
  | some t => (t.deadline ≤ env.monotonic, p)
  | none =>
    let deadline := env.monotonic + max 0 (op.deadlineAt - env.utc)
    (deadline ≤ env.monotonic, { p with memory := setTimer p.memory op.operationId deadline })

def lapse (expired : Bool) (op : Operation I) : Engine.Pass I :=
  if expired ∧ (op.state = .configCommitted ∨ op.state = .indeterminate) then
    let pass : Engine.Pass I := if op.deadlineElapsed then ⟨op, false⟩
      else ⟨{ op with originalOutcome := some op.state, deadlineElapsed := true }, true⟩
    if op.state = .configCommitted then
      ⟨because (moved pass.op .timedOut) .applyTimeout, pass.changed⟩
    else pass
  else ⟨op, false⟩

/-- Past the deadline and not applied, a write of unknown outcome times out. -/
def giveUp (snap : Snapshot) (target : Record) (pass : Engine.Pass I) : Engine.Pass I :=
  if snap.ready ∧ pass.op.state = .indeterminate ∧ pass.op.deadlineElapsed ∧
      !(emMatches snap.config target && emSnapshotSatisfies snap target) then
    ⟨because (moved pass.op .timedOut) .applyTimeout, true⟩
  else pass

/-- The configuration the operation owns is not the pod's any more. -/
def lost (e : EmEngine) (snap : Snapshot) (target : Record) (op : Operation I) : Bool :=
  !emMatches snap.config target &&
  (op.state = .configCommitted || op.state = .observedApplied || op.state = .timedOut) &&
  !restarted op snap && !remapped e op

def claimLost (snap : Snapshot) (pass : Engine.Pass I) (p : Process I) :
    Engine.Pass I × Process I :=
  let p := p.commit (.conflict p.memory.podId
    { operationId := pass.op.operationId
      reason := some "owned configuration changed"
      instanceId := snap.instanceId })
  let op := if pass.op.state = .configCommitted then moved pass.op .ownershipConflict else pass.op
  if op.reason = some Reason.ownershipConflict.value then (⟨op, pass.changed⟩, p)
  else (⟨because op .ownershipConflict, true⟩, p)

/-- The operation is observed applied. A timed-out one stays so. -/
def noteApplied (snap : Snapshot) (op : Operation I) : Engine.Pass I :=
  let evidence := emEngineEvidence snap false
  let op := if op.deadlineElapsed then
      { op with lateResolution := some "applied_after_deadline" } else op
  let op := if op.state = .timedOut then op else moved op .observedApplied evidence
  if str op.commitEvidence "attribution" = some "unknown" then
    let noted := evidence.set "attribution" (.str "current_condition_only")
    ⟨{ op with applicationEvidence := some noted }, true⟩
  else
    let reason := if op.deadlineElapsed then some Reason.applyTimeout.value else none
    ⟨{ op with reason := reason, applicationEvidence := some evidence }, true⟩

def observe (snap : Snapshot) (target : Record) (pass : Engine.Pass I) (p : Process I) :
    Engine.Pass I × Process I :=
  if snap.ready ∧ snap.observed.fresh then
    if lost p.memory snap target pass.op then claimLost snap pass p
    else if emMatches snap.config target ∧ emSnapshotSatisfies snap target ∧
        pass.op.applicationEvidence.isNone then (noteApplied snap pass.op, p)
    else (pass, p)
  else (pass, p)

def judge (env : EmEnv I) (snap : Snapshot) (pass : Engine.Pass I) (p : Process I) :
    Engine.Pass I × Process I :=
  match env.target pass.op.intent with
  | .error _ =>
    if pass.op.blockedForResubmission then (pass, p)
    else (⟨{ pass.op with blockedForResubmission := true }, true⟩, p)
  | .ok target => observe snap target (giveUp snap target pass) p

def follow (env : EmEnv I) (snap : Snapshot) (op : Operation I) (p : Process I) : Process I :=
  match settleRestarted op snap.instanceId p with
  | some (_, p) => p
  | none =>
    let (late, p) := emEngineExpired env op p
    let (pass, p) := judge env snap (lapse late op) p
    if pass.changed then emEngineSave pass.op p else p

def latest (pod : String) (rows : List (Operation I)) : Option (Operation I) :=
  (rows.filter fun q => q.podId = pod ∧ q.state.reconciled).getLast?

def emEngineReconcile (env : EmEnv I) (reply : Option Snapshot) (p : Process I) : Process I :=
  match reply with
  | none => p
  | some snap =>
    let p := rememberInstance snap p
    match (latest p.memory.podId p.journal.operations).filter (·.state.followed) with
    | some op => follow env snap op p
    | none => p

/-! ## Runs -/

inductive EmCall (I : Type) where
  | request (env : EmEnv I) (r : Engine.Request I)
  | execute (env : EmEnv I) (id : String) (answers : Answers)
  | reconcile (env : EmEnv I) (reply : Option Snapshot)
  | cancel (id : String)
  | recover
  | restart (processId : String)
  | guard (wscOp : Option String)
  | remap (mapping : Option String)

/-- A request whose drawn ID was drawn before cannot be made. -/
def emStep (p : Process I) : EmCall I → Process I
  | .request env r =>
    if p.journal.issued.contains r.operationId then p else (emEngineRequest env r p).2
  | .execute env id answers => (emEngineExecute env id answers p).2
  | .reconcile env reply => emEngineReconcile env reply p
  | .cancel id => emEngineCancel id p
  | .recover => emEngineRecover p
  | .restart processId =>
    { p with memory :=
      { podId := p.memory.podId, processId := processId, mapping := p.memory.mapping } }
  | .guard wscOp => { p with memory := { p.memory with wscOp := wscOp } }
  | .remap mapping => { p with memory := { p.memory with mapping := mapping } }

def emInit (pod processId : String) : Process I :=
  ⟨{ podId := pod, processId := processId }, {}, []⟩

def emRun (p : Process I) (calls : List (EmCall I)) : Process I := runs emStep p calls

end Emosa.C
