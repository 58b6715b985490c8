import Emosa.Engine.Basic

/-!
# Emosa.C.Engine

The engine in C. Its calls do not interleave: the backend's answers come back inside the call, so
each call is a function of the process, its clock readings and those answers. Nothing is raised; a
transition that is not permitted leaves the record as it is, and a record that the contract refuses
is not saved.

Where it differs from the other one, it is modelled as it is written: `emEngineExecute` does not look
at the pod's ownership, one operation at most is followed by a pass, deadlines are kept in 64 slots,
and a start or an error text is what the JSON holds as a string.
-/

namespace Emosa.C

open Durable

variable {I : Type} [IntentType I]

def emMaxOperations : Nat := 10000
def emEngineTimers : Nat := 64

/-- A value that counts as true. Every array and every object does. -/
def truthy : Value → Bool
  | .null => false
  | .bool b => b
  | .int n => n != 0
  | .str s => s != ""
  | .rows _ | .tables _ | .texts _ | .fields _ => true

def holds (r : Record) (key : String) : Bool := (r.get? key).any truthy

/-- The text under `key`, when there is one. -/
def str (r : Record) (key : String) : Option String :=
  match r.get? key with
  | some (.str s) => some s
  | _ => none

/-! ## The journal -/

def emJournalHoldsRows (op : Operation I) : Bool :=
  (match op.commitEvidence.get? "created" with
    | some (.tables l) => !l.isEmpty
    | _ => false) &&
  decide (op.commitEvidence.get? "released" ≠ some (.bool true))

/-- The tables are those of the other journal; retention reads the evidence in its own way. -/
structure EmJournal (I : Type) extends Journal I

instance : Replay (EmJournal I) (Write I) :=
  ⟨fun j w => ⟨j.toJournal.written emJournalHoldsRows w⟩⟩

structure EmTimer where
  id : String
  deadline : ℚ

/-- What the process holds in memory. `lastInstance` is empty while no start is known; `wscOp` is
the operation whose exchange has a live guard. -/
structure EmEngine where
  podId : String
  processId : String
  mapping : Option String := none
  busy : Bool := false
  timers : List EmTimer := []
  wscOp : Option String := none
  lastInstance : String := ""

abbrev Process (I : Type) := Proc EmEngine (EmJournal I) (Write I)

/-- The clock readings of a call, and the backend's targets and fingerprints. -/
structure EmEnv (I : Type) where
  target : I → Except Reason Record
  fingerprint : I → Record → Option String
  utc : ℚ
  monotonic : ℚ

def timer (e : EmEngine) (id : String) : Option EmTimer := e.timers.find? (·.id = id)

/-- A full table loses its oldest slot; an ID that is too long is stored as none. -/
def setTimer (e : EmEngine) (id : String) (deadline : ℚ) : EmEngine :=
  if (timer e id).isSome then
    { e with timers := e.timers.map fun t => if t.id = id then { t with deadline := deadline } else t }
  else
    let kept := if e.timers.length = emEngineTimers then e.timers.drop 1 else e.timers
    { e with timers := kept ++ [⟨if id.utf8ByteSize ≤ 36 then id else "", deadline⟩] }

def emEngineSave (op : Operation I) (p : Process I) : Process I :=
  if op.valid then p.commit (.save op) else p

def bound (processId : String) (op : Operation I) (r : Receipt) : Bool :=
  op.initiatingInterface = "wsc-component" && r.processId = processId &&
  r.exchangeId = op.idempotencyKey && r.podId = op.podId &&
  some r.radioId = IntentType.radioId op.intent &&
  some r.bssId = (IntentType.bssId op.intent).or (IntentType.radioId op.intent) &&
  op.requestSource = "wsc-component:" ++ r.controllerAl

def emJournalAdd (op : Operation I) (receipt : Option Receipt) (p : Process I) :
    Except Reason (Process I) :=
  if op.valid = false ∨ receipt.any (!·.valid) then .error .invalidInput
  else if receipt.any (!bound p.memory.processId op ·) then .error .invalidInput
  else if receipt = none ∧ op.initiatingInterface = "wsc-component" then .error .invalidInput
  else if emMaxOperations ≤ p.journal.operations.length then .error .busy
  else .ok (p.commit (.add op receipt))

/-! ## Records and snapshots -/

def emTransition (op : Operation I) (target : State) (evidence : Record := ∅) :
    Option (Operation I) :=
  if target ∉ op.state.next then none
  else if target = .submitted ∧ op.attempts = [] then none
  else if target = .configCommitted ∧ !holds evidence "transaction_validated" then none
  else if target = .observedApplied ∧
      !(holds evidence "fresh" && holds evidence "predicate_satisfied") then none
  else if target = .observedApplied ∧ op.state = .validated ∧ !holds evidence "observed_noop" then
    none
  else if target = .timedOut ∧ !op.deadlineElapsed then none
  else some { op with state := target }

def moved (op : Operation I) (target : State) (evidence : Record := ∅) : Operation I :=
  (emTransition op target evidence).getD op

def because (op : Operation I) (reason : Reason) : Operation I :=
  { op with reason := some reason.value }

def emMatches (values target : Record) : Bool :=
  target.entries.all fun e => (values.get? e.1).any (· == e.2)

def emSnapshotSatisfies (snap : Snapshot) (target : Record) : Bool :=
  snap.observed.fresh && emMatches snap.observed.values target

def emEngineEvidence (snap : Snapshot) (observedNoop : Bool) : Record :=
  let r := ((((∅ : Record).set "fresh" (.bool snap.observed.fresh)).set
    "predicate_satisfied" (.bool true)).set "generation" (.int snap.generation)).set
    "revision" (.int snap.observed.revision)
  let r := ((r.set "received_at" (.str snap.observed.receivedAt)).set
    "source" (.str snap.observed.source)).set "provenance" (.str snap.observed.provenance)
  let r := if observedNoop then r.set "observed_noop" (.bool true) else r
  match snap.instanceId with
  | some start => r.set "instance" (.str start)
  | none => r

def rememberInstance (snap : Snapshot) (p : Process I) : Process I :=
  match snap.instanceId with
  | some start => { p with memory := { p.memory with lastInstance := start } }
  | none => p

/-- The pod's recorded conflict. One of an earlier start is released. -/
def currentOwnership (p : Process I) : Option Ownership × Process I :=
  match p.journal.ownership.get? p.memory.podId with
  | none => (none, p)
  | some record =>
    if p.memory.lastInstance ≠ "" ∧ record.instanceId.any (· ≠ p.memory.lastInstance) then
      (none, p.commit (.release p.memory.podId))
    else (some record, p)

def writtenInstance (op : Operation I) : Option String :=
  (op.applicationEvidence.bind (str · "instance")).or (str op.commitEvidence "instance")

def restarted (op : Operation I) (snap : Snapshot) : Bool :=
  match writtenInstance op, snap.instanceId with
  | some written, some start => written ≠ start
  | _, _ => false

def settleRestarted (op : Operation I) (current : Option String) (p : Process I) :
    Option (Operation I × Process I) :=
  match writtenInstance op, current with
  | some written, some current =>
    if (op.state = .configCommitted ∨ op.state = .indeterminate) ∧ current ≠ "" ∧
        written ≠ current then
      (emTransition op .failed).map fun op =>
        let op := because op .notReady
        (op, emEngineSave op p)
    else none
  | _, _ => none

def remapped (e : EmEngine) (op : Operation I) : Bool :=
  match e.mapping, op.plan.bind (str · "mapping") with
  | some mapping, some planned => planned ≠ mapping
  | _, _ => false

def reject (op : Operation I) (reason : Reason) (p : Process I) : Operation I × Process I :=
  let op := because (moved op .rejected) reason
  (op, emEngineSave op p)

/-! ## Requests -/

def newOperation (env : EmEnv I) (r : Engine.Request I) (fingerprint : String) : Operation I where
  operationId := r.operationId
  runId := r.runId
  requestSource := r.source
  initiatingInterface := r.initiatingInterface
  intent := r.intent
  intentFingerprint := fingerprint
  idempotencyKey := r.key
  deadlineAt := env.utc + r.deadline

/-- The loop over the other operations of the pod: earlier starts' writes are settled, and the result
says whether one of them still holds the pod. -/
def settleOthers (id : String) : Bool → List (Operation I) → Process I → Bool × Process I
  | active, [], p => (active, p)
  | active, q :: rest, p =>
    if q.podId = p.memory.podId ∧ q.operationId ≠ id then
      match settleRestarted q (some p.memory.lastInstance) p with
      | some (q, p) => settleOthers id (active || q.state.active) rest p
      | none => settleOthers id (active || q.state.active) rest p
    else settleOthers id active rest p

def grant (op : Operation I) (p : Process I) : Operation I × Process I :=
  match settleOthers op.operationId p.memory.busy p.journal.operations p with
  | (true, p) => reject op .busy p
  | (false, p) =>
    match currentOwnership p with
    | (some _, p) => reject op .ownershipConflict p
    | (none, p) => (op, p)

def emEngineRequest (env : EmEnv I) (r : Engine.Request I) (p : Process I) :
    Except Reason (Operation I) × Process I :=
  match env.target r.intent with
  | .error why => (.error why, p)
  | .ok target =>
    if r.initiatingInterface ≠ "semantic" ∧
        (r.initiatingInterface ≠ "wsc-component" ∨ r.wscReceipt = none) then
      (.error .missingPrerequisite, p)
    else if r.source = "" ∨ r.key = "" ∨ 128 < r.key.utf8ByteSize ∨
        ¬ (0 < r.deadline ∧ r.deadline ≤ 3600) then (.error .invalidInput, p)
    else if r.podId ≠ p.memory.podId then (.error .unsupportedOperation, p)
    else
      match env.fingerprint r.intent target with
      | none => (.error .invalidInput, p)
      | some fingerprint =>
        match p.journal.lookup r.source p.memory.podId r.key with
        | some old =>
          if old.intentFingerprint ≠ fingerprint then (.error .invalidInput, p) else (.ok old, p)
        | none =>
          let op := newOperation env r fingerprint
          match emJournalAdd op r.wscReceipt p with
          | .error why => (.error why, p)
          | .ok p =>
            let e := setTimer p.memory op.operationId (env.monotonic + r.deadline)
            let (op, p) := grant op { p with memory := e }
            (.ok op, p)

/-! ## Execution -/

structure SubmitAnswer where
  status : SubmitStatus
  evidence : Record := ∅
  reason : Reason := .outcomeUnknown

structure Answers where
  guard : Bool := true
  plan : Except Reason Record
  snapshot : Option Snapshot
  guardAgain : Bool := true
  attemptId : String
  transactionId : String
  submit : SubmitAnswer

def checkWsc (op : Operation I) (guard : Bool) (p : Process I) : Bool :=
  op.initiatingInterface ≠ "wsc-component" ||
  ((p.journal.receipts.get? op.operationId).any (·.processId = p.memory.processId) &&
    p.memory.wscOp = some op.operationId && guard)

/-- The plan and the snapshot, or why the operation is rejected. -/
def validate (op : Operation I) (answers : Answers) (p : Process I) :
    Except Reason (Record × Snapshot) × Process I :=
  if !checkWsc op answers.guard p then (.error .notReady, p)
  else
    match answers.plan, answers.snapshot with
    | .error why, _ => (.error why, p)
    | .ok _, none => (.error .notReady, p)
    | .ok plan, some snap =>
      let p := rememberInstance snap p
      if !snap.ready ∨ !checkWsc op answers.guardAgain p then (.error .notReady, p)
      else (.ok (plan, snap), p)

def refused (op : Operation I) (answer : SubmitAnswer) : Operation I :=
  if str answer.evidence "attribution" = some "reply" ∧
      (str answer.evidence "database_error").any (· ≠ "") then
    { op with commitEvidence := answer.evidence }
  else op

def outcome (op : Operation I) (answer : SubmitAnswer) (p : Process I) :
    Operation I × Process I :=
  match answer.status with
  | .committed =>
    match emTransition op .configCommitted answer.evidence with
    | some op => ({ op with commitEvidence := answer.evidence, changed := some true }, p)
    | none => (op, p)
  | .conflict =>
    let op := refused (because (moved op .ownershipConflict) .ownershipConflict) answer
    (op, p.commit (.conflict p.memory.podId
      { operationId := op.operationId, reason := some answer.reason.value }))
  | .rejected => (refused (because (moved op .failed) answer.reason) answer, p)
  | .unknown => (because (moved op .indeterminate) .outcomeUnknown, p)

/-- The record as it is sent. -/
def prepared (op : Operation I) (answers : Answers) (snap : Snapshot) : Operation I :=
  let attempt : Attempt := ⟨answers.attemptId, answers.transactionId, snap.generation⟩
  { moved { op with attempts := op.attempts ++ [attempt] } .submitted with
    commitEvidence := (∅ : Record).set "attribution" (.str "unknown") }

/-- From the journaled validation. -/
def submitting (env : EmEnv I) (op : Operation I) (answers : Answers) (snap : Snapshot)
    (p : Process I) : Operation I × Process I :=
  match env.target op.intent with
  | .error why => reject op why p
  | .ok target =>
    if emSnapshotSatisfies snap target && emMatches snap.config target then
      let evidence := emEngineEvidence snap true
      let op := { moved op .observedApplied evidence with
        changed := some false, applicationEvidence := some evidence }
      (op, emEngineSave op p)
    else
      let op := prepared op answers snap
      let (op, p) := outcome op answers.submit (emEngineSave op p)
      (op, emEngineSave op p)

def validated (op : Operation I) (plan : Record) (snap : Snapshot) : Operation I :=
  moved { op with
    plan := some plan
    schemaFingerprint := if snap.schemaFingerprint = "" then none
      else some snap.schemaFingerprint } .validated

def setBusy (busy : Bool) (p : Process I) : Process I :=
  { p with memory := { p.memory with busy := busy } }

def emEngineExecute (env : EmEnv I) (id : String) (answers : Answers) (p : Process I) :
    Option (Operation I) × Process I :=
  match p.journal.get? id with
  | none => (none, p)
  | some op =>
    if op.state ≠ .requested ∨ p.memory.busy then (some op, p)
    else
      match validate op answers (setBusy true p) with
      | (.error why, p) =>
        let (op, p) := reject op why p
        (some op, setBusy false p)
      | (.ok (plan, snap), p) =>
        let op := validated op plan snap
        let (op, p) := submitting env op answers snap (emEngineSave op p)
        (some op, setBusy false p)

def emEngineCancel (id : String) (p : Process I) : Process I :=
  match (p.journal.get? id).bind (emTransition · .cancelled) with
  | some op => emEngineSave op p
  | none => p

/-- What `emEngineRecover` makes of a record, when it saves one. -/
def recovered (op : Operation I) : Option (Operation I) :=
  if op.initiatingInterface = "wsc-component" ∧ op.state = .requested then some (moved op .cancelled)
  else if op.state = .submitted then
    some (because { moved op .indeterminate with
      commitEvidence := (∅ : Record).set "attribution" (.str "unknown") } .outcomeUnknown)
  else if op.state = .validated then some (moved op .cancelled)
  else none

def recoverFrom : List (Operation I) → Process I → Process I
  | [], p => p
  | op :: rest, p =>
    match recovered op with
    | some op => recoverFrom rest (emEngineSave op p)
    | none => recoverFrom rest p

def emEngineRecover (p : Process I) : Process I := recoverFrom p.journal.operations p

end Emosa.C
