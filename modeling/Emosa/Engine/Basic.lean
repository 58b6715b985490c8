import Emosa.Store

/-!
# Emosa.Engine.Basic

The engine of a scope and the calls of it that run without suspending: `request`, `cancel` and
`recover`. What the engine holds in memory (deadlines, the pods with an operation in execution, the
start of OpenSync last seen, live WSC authority) ends with the process; the journal does not.

A call is a program over the journal (`M`). An exception ends it where it is raised and keeps what
was committed before. The call's surroundings come in an `Env`: the secrets, the clock readings of
the segment, and the mapping each pod's backend plans under.
-/

namespace Emosa

open Durable

/-- What the process holds in memory. The first three are fixed when it starts. -/
structure Engine where
  processId : String
  backends : List String
  maxOperations : Nat := 10000
  deadlines : Dict String ℚ := ∅
  busy : List String := []
  quiesced : Bool := false
  instances : Dict String String := ∅
  wscGuards : List String := []

structure Env (I : Type) where
  vault : Vault I
  utc : ℚ
  monotonic : ℚ
  mapping : String → Option String := fun _ => none

variable {I : Type} [IntentType I]

/-- The engine in memory, its journal and what it has committed. -/
abbrev EngineProc (I : Type) := Proc Engine (Journal I) (Write I)

abbrev M (I : Type) [IntentType I] (α : Type) := Prog Engine (Journal I) (Write I) Exn α

def fail {α : Type} (code : Reason) (message : String) : M I α := raise (.emosa ⟨code, message⟩)

def liftE {α : Type} (r : Except EmosaError α) : M I α := lift (r.mapError .emosa)

namespace Store

def get (id : String) : M I (Operation I) := do
  match (← journal).get? id with
  | some op => pure op
  | none => fail .notFound "operation not found"

def save (op : Operation I) : M I Unit :=
  if op.valid then commit (.save op) else fail .invalidInput "invalid operation contract"

/-- The receipt is the one of this operation in this process. -/
def bound (processId : String) (op : Operation I) (r : Receipt) : Except Exn Bool :=
  if op.initiatingInterface ≠ "wsc-component" ∨ r.processId ≠ processId ∨
      r.exchangeId ≠ op.idempotencyKey ∨ r.podId ≠ op.podId then .ok false
  else match IntentType.radioId op.intent with
    | none => .error .other
    | some radio => .ok (r.radioId = radio ∧ r.bssId = (IntentType.bssId op.intent).getD radio ∧
        op.requestSource = "wsc-component:" ++ r.controllerAl)

def add (op : Operation I) (receipt : Option Receipt) : M I Unit := do
  if op.valid = false then fail .invalidInput "invalid operation contract"
  else
    match receipt with
    | some r =>
      if r.valid = false then fail .invalidInput "invalid wsc-receipt contract"
      else if (← lift (bound (← memory).processId op r)) = false then
        fail .invalidInput "WSC receipt and operation binding differ"
      else pure ()
    | none =>
      if op.initiatingInterface = "wsc-component" then
        fail .invalidInput "WSC operation requires its atomic receipt"
      else pure ()
    if (← memory).maxOperations ≤ (← journal).operations.length then
      fail .busy "journal operation budget exhausted; archive before reuse"
    else commit (.add op receipt)

end Store

namespace Engine

/-- The start of the pod's OpenSync in the snapshot, when it names one. -/
def see (pod : String) (snap : Snapshot) : M I Unit :=
  match snap.start? with
  | some start => remember fun e => { e with instances := e.instances.set pod start }
  | none => pure ()

/-- The conflict was seen on an earlier start of the pod's OpenSync than `current`. -/
def outdated (record : Ownership) (current : Option String) : Bool :=
  match record.instanceId.filter (· ≠ ""), current with
  | some seen, some current => seen ≠ current
  | _, _ => false

/-- The pod's recorded ownership conflict. One of an earlier start is released. -/
def owned (pod : String) : M I (Option Ownership) := do
  match (← journal).ownership.get? pod with
  | none => pure none
  | some record =>
    if outdated record ((← memory).instances.get? pod) then
      commit (.release pod)
      pure none
    else pure (some record)

def writtenOnAnotherStart (op : Operation I) (current : Option String) : Bool :=
  match (op.applicationEvidence.bind (·.some? "instance")).or (op.commitEvidence.some? "instance"),
    current with
  | some written, some current => !written.equal (.str current)
  | _, _ => false

/-- An unfinished write of an earlier start than `current` fails at once. -/
def settleRestarted (op : Operation I) (current : Option String) : M I Bool := do
  if (op.state = .configCommitted ∨ op.state = .indeterminate) ∧
      writtenOnAnotherStart op current = true then
    let op ← liftE (transition op .failed)
    Store.save { op with reason := some Reason.notReady.value }
    pure true
  else pure false

def settleOthers (pod id : String) (current : Option String) : List (Operation I) → M I Unit
  | [] => pure ()
  | p :: rest => do
    if p.podId = pod ∧ p.operationId ≠ id then
      let _ ← settleRestarted p current
    settleOthers pod id current rest

def reject (op : Operation I) (reason : Reason) : M I (Operation I) := do
  let op ← liftE (transition op .rejected)
  let op := { op with reason := some reason.value }
  Store.save op
  pure op

/-- Another operation holds the pod, or the engine takes none. -/
def held (e : Engine) (j : Journal I) (pod id : String) : Bool :=
  e.quiesced || e.busy.contains pod ||
    j.operations.any fun p => p.podId = pod ∧ p.state.active ∧ p.operationId ≠ id

structure Request (I : Type) where
  operationId : String
  intent : I
  source : String
  key : String
  runId : String
  deadline : ℚ := 30
  initiatingInterface : String := "semantic"
  wscReceipt : Option Receipt := none

def Request.podId (r : Request I) : String := IntentType.podId r.intent

/-- The record a request adds. -/
def Request.operation (r : Request I) (env : Env I) (fingerprint : String) : Operation I where
  operationId := r.operationId
  runId := r.runId
  requestSource := r.source
  initiatingInterface := r.initiatingInterface
  intent := r.intent
  intentFingerprint := fingerprint
  idempotencyKey := r.key
  deadlineAt := env.utc + r.deadline

/-- The request once its operation is journaled: earlier starts' writes are settled, and the
operation is rejected where the pod is held or its ownership is in conflict. -/
def grant (r : Request I) (op : Operation I) : M I (Operation I) := do
  let current := (← memory).instances.get? r.podId
  settleOthers r.podId op.operationId current (← journal).operations
  if held (← memory) (← journal) r.podId op.operationId then reject op .busy
  else if (← owned r.podId).isSome then reject op .ownershipConflict
  else pure op

/-- `_request`. -/
def requestInternal (env : Env I) (r : Request I) : M I (Operation I) := do
  liftE (IntentType.validate r.intent)
  if r.initiatingInterface ≠ "semantic" ∧
      (r.initiatingInterface ≠ "wsc-component" ∨ r.wscReceipt = none) then
    fail .missingPrerequisite "missing component WSC receipt"
  else if r.source = "" ∨ r.key = "" ∨ 128 < r.key.length ∨
      ¬ (0 < r.deadline ∧ r.deadline ≤ 3600) then
    fail .invalidInput "invalid source, idempotency key or deadline"
  else if r.podId ∉ (← memory).backends then
    fail .unsupportedOperation "pod outside configured allowlist"
  else
    let target ← liftE (IntentType.target env.vault r.intent)
    let fingerprint := env.vault.fingerprintIntent r.intent target
    match (← journal).lookup r.source r.podId r.key with
    | some old =>
      if old.intentFingerprint ≠ fingerprint then
        fail .invalidInput "idempotency key reused for different intent"
      else pure old
    | none =>
      let op := r.operation env fingerprint
      Store.add op r.wscReceipt
      remember fun e =>
        { e with deadlines := e.deadlines.set op.operationId (env.monotonic + r.deadline) }
      grant r op

/-- The public request: only the semantic interface. -/
def request (env : Env I) (r : Request I) : M I (Operation I) :=
  if r.initiatingInterface ≠ "semantic" then
    fail .missingPrerequisite "P0 wire binding is not implemented"
  else requestInternal env { r with wscReceipt := none }

def cancel (id : String) : M I (Operation I) := do
  let op ← Store.get id
  let op ← liftE (transition op .cancelled)
  Store.save op
  pure op

/-- What `recover` does with one operation: one whose submission is unknown is left to
observation, an unsent one is cancelled. -/
def recoverOne (op : Operation I) : M I Unit := do
  if op.initiatingInterface = "wsc-component" ∧ op.state = .requested then
    let op ← liftE (transition op .cancelled)
    Store.save op
  else if op.state = .submitted then
    let op ← liftE (transition op .indeterminate)
    Store.save { op with
      commitEvidence := (∅ : Record).set "attribution" (.str "unknown")
      reason := some Reason.outcomeUnknown.value }
  else if op.state = .validated then
    let op ← liftE (transition op .cancelled)
    Store.save op
  else pure ()

def recoverFrom : List (Operation I) → M I Unit
  | [] => pure ()
  | op :: rest => do
    recoverOne op
    recoverFrom rest

def recover : M I Unit := do
  recoverFrom (← journal).operations

end Engine
end Emosa
