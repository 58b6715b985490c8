import Mathlib.Data.Rat.Floor
import Emosa.Wire.Bridge
import Emosa.Wire.Coordinator

/-!
# Emosa.Wire.ReportingPolicy

The Multi-AP Policy Config Request: what a controller wants reported, and the periods in which a report
is due. A policy is persisted before its Ack; each period is counted once, as a report transmitted or
as one without a report.

`schedule` and `ticked` are beside the source's state: when the periods began to be counted and what
had been counted before, and the last tick that looked at them. Nothing reads them but the statements.
The record's budget and the database are one reading (`saves`).
-/

namespace Emosa.Wire
namespace ReportingPolicy

open Durable (Prog Proc At Replay read self change commit attempt raise)
open Reports (ReportStamp)
open Wsc (PeerBinding)

/-! ## Policies -/

structure MetricRadio where
  ruid : Bytes
  rcpiThreshold : Nat
  rcpiHysteresisDb : Nat
  utilizationThreshold : Nat
  includeTraffic : Bool
  includeLink : Bool
  includeWifi6Status : Bool
  deriving DecidableEq

structure Metrics where
  intervalSeconds : Nat
  radios : List MetricRadio
  deriving DecidableEq

structure SteeringRadio where
  ruid : Bytes
  policy : Nat
  utilizationThreshold : Nat
  rcpiThreshold : Nat
  deriving DecidableEq

structure Steering where
  localDisallowed : List Bytes
  btmDisallowed : List Bytes
  radios : List SteeringRadio
  deriving DecidableEq

structure Qos where
  mscsDisallowed : List Bytes
  scsDisallowed : List Bytes
  deriving DecidableEq

structure NotApplied where
  kind : Nat
  length : Nat
  deriving DecidableEq

/-- The policies by kind of TLV. -/
structure Policy where
  metrics : Option Metrics := none
  steering : Option Steering := none
  qos : Option (List Qos) := none
  notApplied : Option (List NotApplied) := none
  deriving DecidableEq

def Policy.merge (old update : Policy) : Policy where
  metrics := update.metrics.or old.metrics
  steering := update.steering.or old.steering
  qos := update.qos.or old.qos
  notApplied := update.notApplied.or old.notApplied

def Policy.interval (p : Policy) : Nat := (p.metrics.map Metrics.intervalSeconds).getD 0

def address (value : Bytes) : Except EmosaError Bytes :=
  if value.length ≠ 6 ∨ value.all (· = 0) ∨ (value.getD 0 0).toNat % 2 = 1 then
    invalid "policy requires a unicast MAC address"
  else .ok value

/-- A counted list of stations, and the octets after it. -/
def addresses (data : Bytes) : Except EmosaError (List Bytes × Bytes) :=
  match data with
  | [] => invalid "truncated policy station list"
  | count :: _ =>
    if data.length < 1 + 6 * count.toNat then invalid "truncated policy station list"
    else do
      let values ← ((List.range count.toNat).map fun i => (data.drop (1 + 6 * i)).take 6).mapM address
      if ¬ values.Nodup then invalid "duplicate policy station identity"
      else return (values, data.drop (1 + 6 * count.toNat))

def addMetricRadio (ruids : List Bytes) (radios : List MetricRadio) (entry : Bytes) :
    Except EmosaError (List MetricRadio) := do
  let octet := fun i => (entry.getD i 0).toNat
  if ¬ ruids.contains (entry.take 6) ∨ octet 6 > 220 then
    invalid "foreign or repeated radio, or reserved RCPI threshold"
  else
    let ruid ← address (entry.take 6)
    if (radios.map MetricRadio.ruid).contains ruid then
      invalid "foreign or repeated radio, or reserved RCPI threshold"
    else
      return radios ++ [{
        ruid := ruid
        rcpiThreshold := octet 6
        rcpiHysteresisDb := octet 7
        utilizationThreshold := octet 8
        includeTraffic := octet 9 / 128 % 2 == 1
        includeLink := octet 9 / 64 % 2 == 1
        includeWifi6Status := octet 9 / 32 % 2 == 1 }]

def decodeMetrics (data : Bytes) (ruids : List Bytes) (seen : Bool) : Except EmosaError Metrics := do
  let count := (data.getD 1 0).toNat
  if seen ∨ data.length < 2 ∨ data.length ≠ 2 + count * 10 then
    invalid "duplicate or malformed metric reporting policy"
  else if count > ruids.length then
    .error ⟨.unsupportedOperation, "more radios than the agent has"⟩
  else
    let radios ← ((List.range count).map fun i => (data.drop (2 + 10 * i)).take 10).foldlM
      (addMetricRadio ruids) []
    return ⟨(data.getD 0 0).toNat, radios⟩

def addSteeringRadio (ruids : List Bytes) (radios : List SteeringRadio) (entry : Bytes) :
    Except EmosaError (List SteeringRadio) := do
  let octet := fun i => (entry.getD i 0).toNat
  if ¬ ruids.contains (entry.take 6) ∨ octet 6 > 2 ∨ octet 8 > 220 then
    invalid "foreign or repeated radio, or reserved steering field"
  else
    let ruid ← address (entry.take 6)
    if (radios.map SteeringRadio.ruid).contains ruid then
      invalid "foreign or repeated radio, or reserved steering field"
    else return radios ++ [⟨ruid, octet 6, octet 7, octet 8⟩]

def decodeSteering (data : Bytes) (ruids : List Bytes) (seen : Bool) :
    Except EmosaError Steering := do
  if seen then invalid "duplicate steering policy"
  else
    let (localDisallowed, data) ← addresses data
    let (btmDisallowed, data) ← addresses data
    let count := (data.getD 0 0).toNat
    if data = [] ∨ data.length ≠ 1 + 9 * count then invalid "malformed steering radio list"
    else if count > ruids.length then
      .error ⟨.unsupportedOperation, "more radios than the agent has"⟩
    else
      let radios ← ((List.range count).map fun i => (data.drop (1 + 9 * i)).take 9).foldlM
        (addSteeringRadio ruids) []
      return ⟨localDisallowed, btmDisallowed, radios⟩

def decodeQos (data : Bytes) : Except EmosaError Qos := do
  let (mscs, data) ← addresses data
  let (scs, reserved) ← addresses data
  if reserved.length ≠ 20 then invalid "malformed QoS management policy reserved field"
  else return ⟨mscs, scs⟩

def addPolicy (ruids : List Bytes) (result : Policy) (tlv : Tlv) : Except EmosaError Policy := do
  if tlv.kind = 0x8A then
    return { result with metrics := some (← decodeMetrics tlv.value ruids result.metrics.isSome) }
  else if tlv.kind = 0x89 then
    return { result with steering := some (← decodeSteering tlv.value ruids result.steering.isSome) }
  else if tlv.kind = 0xDB then
    return { result with qos := some (result.qos.getD [] ++ [← decodeQos tlv.value]) }
  else
    return { result with
      notApplied := some (result.notApplied.getD [] ++ [⟨tlv.kind, tlv.value.length⟩]) }

/-- The whole request is decoded before anything of it is recorded. -/
def decodePolicy (tlvs : List Tlv) (ruids : List Bytes) : Except EmosaError Policy :=
  tlvs.foldlM (addPolicy ruids) {}

/-- `json.dumps` of the request. -/
def requestText (tlvs : List Tlv) : String :=
  "[" ++ ", ".intercalate (tlvs.map fun t =>
    "\x7b\"kind\": " ++ toString t.kind ++ ", \"value\": \"" ++ Handover.hexBytes t.value ++
      "\"\x7d") ++ "]"

/-! ## The record -/

/-- Whom the record is for: the controller, the agent and the fronthaul radio. -/
structure Identity where
  controller : Bytes
  localAl : Bytes
  ruid : Bytes
  deriving DecidableEq

inductive AttemptStatus where
  | reservedOutcomeUnknown
  | unavailableOrSendIncomplete (reason : Option Reason)
  | transmittedControllerReceiptUnverified
  deriving DecidableEq

structure Attempt where
  due : ℚ
  status : AttemptStatus
  deriving DecidableEq

structure Value where
  identity : Identity
  policy : Policy := {}
  receiptCount : Nat := 0
  nextDue : Option ℚ := none
  periodsDueWithoutReport : Nat := 0
  reportsTransmitted : Nat := 0
  lastUnfulfilledDue : Option ℚ := none
  latestReportAttempt : Option Attempt := none
  bootId : String
  scheduleRebases : Nat := 0
  latestMid : Option Nat := none
  latestRequest : List Tlv := []
  deriving DecidableEq

/-- The periods counted so far. -/
def Value.counted (v : Value) : Nat := v.reportsTransmitted + v.periodsDueWithoutReport

/-- When the periods began to be counted, and what had been counted before. -/
structure Schedule where
  start : ℚ := 0
  before : Nat := 0

structure ReportingPolicyCoordinator where
  binding : PeerBinding
  bootId : String
  reporting : Bool
  closed : Bool := false
  /-- The requests of the last five seconds: the digest, and until when. -/
  recent : Dict Nat (String × ℚ) := ∅
  value : Option Value := none
  schedule : Schedule := {}
  ticked : Option ℚ := none

structure Snapshot where
  stamp : ReportStamp
  fronthaul : Bytes
  further : List Bytes

def Snapshot.ruids (s : Snapshot) : List Bytes := s.fronthaul :: s.further

inductive Event where
  /-- A policy was persisted in place of another. -/
  | saved (old new : Value)
  /-- A frame of the Ack went out, of a request received before or of a new one. -/
  | acked (mid : Nat) (tlvs : List Tlv) (again : Bool)

instance : Replay (List Event) Event := ⟨fun log e => log ++ [e]⟩

/-- `saves` is what a save raises, `reporter` what the periodic report does. -/
structure World extends Outside Snapshot where
  saves : Nat → Option Exn
  reporter : Nat → Option Exn
  sha256 : String → String

abbrev PolicyAct := Act ReportingPolicyCoordinator (List Event) Event

namespace ReportingPolicyCoordinator

variable (world : World)

/-- The kept record at the session's start: the schedule starts now. -/
def started (c : ReportingPolicyCoordinator) (kept : Option Value) (now : ℚ) :
    ReportingPolicyCoordinator :=
  match kept with
  | none => c
  | some v =>
    { c with
      value := some { v with
        bootId := c.bootId
        nextDue := if v.policy.interval = 0 then none else some (now + v.policy.interval)
        periodsDueWithoutReport := 0
        lastUnfulfilledDue := none
        scheduleRebases := v.scheduleRebases + 1
        latestReportAttempt := none
        reportsTransmitted := 0 }
      schedule := ⟨now, 0⟩ }

def snapshot : PolicyAct Snapshot := do
  let current ← read world.current
  let c ← self
  match current with
  | some s => if c.closed then refuse .notReady "reporting policy source unavailable" else pure s
  | none => refuse .notReady "reporting policy source unavailable"

def identity (c : ReportingPolicyCoordinator) (s : Snapshot) : Identity :=
  ⟨c.binding.controllerAl, c.binding.localAl, s.fronthaul⟩

/-- The periods that have come by `now`, the first of them at `due`. -/
def periods (now due : ℚ) (interval : Nat) : Nat := (⌊(now - due) / interval⌋ + 1).toNat

/-- The periods are counted before anything is sent. -/
def reserved (v : Value) (reporting : Bool) (due : ℚ) (n : Nat) : Value :=
  let last := due + (n - 1 : ℚ) * v.policy.interval
  { v with
    periodsDueWithoutReport := v.periodsDueWithoutReport + n
    nextDue := some (due + n * v.policy.interval)
    lastUnfulfilledDue := some last
    latestReportAttempt :=
      if reporting then some ⟨last, .reservedOutcomeUnknown⟩ else v.latestReportAttempt }

/-- The last of the periods got its report. -/
def fulfilled (v : Value) (prior : Option ℚ) (due : ℚ) (n : Nat) : Value :=
  { v with
    periodsDueWithoutReport := v.periodsDueWithoutReport - 1
    reportsTransmitted := v.reportsTransmitted + 1
    lastUnfulfilledDue := if n > 1 then some (due + (n - 2 : ℚ) * v.policy.interval) else prior
    latestReportAttempt :=
      v.lastUnfulfilledDue.map (⟨·, .transmittedControllerReceiptUnverified⟩) }

def missed (v : Value) (reason : Option Reason) : Value :=
  { v with
    latestReportAttempt := v.lastUnfulfilledDue.map (⟨·, .unavailableOrSendIncomplete reason⟩) }

def setValue (v : Value) : PolicyAct Unit := change fun c => { c with value := some v }

/-- The periods from `due` on that have come. -/
def account (now due : ℚ) (v : Value) : PolicyAct Unit := do
  let c ← self
  if v.policy.interval = 0 then raise .other
  else
    let n := periods now due v.policy.interval
    let v' := reserved v c.reporting due n
    change fun c => { c with value := some v', ticked := some now }
    if c.reporting then
      match ← read world.reporter with
      | none => setValue (fulfilled v' v.lastUnfulfilledDue due n)
      | some .other => raise .other
      | some (.emosa e) => setValue (missed v' (some e.code))
      | some _ => setValue (missed v' none)
    else pure ()

def tick : PolicyAct Unit := do
  let now ← world.now
  change fun c => { c with recent := c.recent.filter fun _ e => now < e.2 }
  let c ← self
  match c.value with
  | none => pure ()
  | some v =>
    if c.closed then pure ()
    else
      match ← attempt (snapshot world) with
      | .error (.emosa _) => pure ()
      | .error e => raise e
      | .ok s =>
        if v.identity ≠ c.identity s then pure ()
        else
          match v.nextDue with
          | some due =>
            if now ≥ due then account world now due v
            else change fun c => { c with ticked := some now }
          | none => change fun c => { c with ticked := some now }

/-- What a request starts from: the record, unless it is for somebody else. -/
def base (c : ReportingPolicyCoordinator) (s : Snapshot) : Value :=
  match c.value with
  | some v => if v.identity ≠ c.identity s then { identity := c.identity s, bootId := c.bootId } else v
  | none => { identity := c.identity s, bootId := c.bootId }

/-- The record with a policy received at `now`. An unchanged metrics policy leaves the schedule. -/
def received (v : Value) (update : Policy) (message : Message) (now : ℚ) : Value :=
  let policy := v.policy.merge update
  { v with
    policy := policy
    latestMid := some message.mid
    latestRequest := message.tlvs
    receiptCount := v.receiptCount + 1
    nextDue :=
      if policy.metrics ≠ v.policy.metrics then
        if policy.interval = 0 then none else some (now + policy.interval)
      else v.nextDue }

/-- The reading a changed metrics policy is scheduled from. -/
def rescheduledAt (v : Value) (update : Policy) : PolicyAct ℚ :=
  if (v.policy.merge update).metrics ≠ v.policy.metrics then world.now else pure 0

/-- Persists a record in place of another, or raises. -/
def persist (old new : Value) (now : ℚ) : PolicyAct Unit := do
  match ← read world.saves with
  | some e => raise e
  | none =>
    commit (.saved old new)
    change fun c => { c with
      value := some new
      schedule :=
        if new.policy.metrics ≠ old.policy.metrics then ⟨now, old.counted⟩ else c.schedule }

/-- A request that has not been received before. -/
def receive (message : Message) (s : Snapshot) (update : Policy) (digest : String) :
    PolicyAct Unit := do
  let c ← self
  if c.recent.length ≥ 64 then refuse .notReady "policy request budget exhausted"
  else
    let old := c.base s
    let now ← rescheduledAt world old update
    let current ← snapshot world
    let at' ← world.now
    liftE (s.stamp.check current.stamp at')
    persist world old (received old update message now) now
    let at' ← world.now
    change fun c => { c with recent := c.recent.set message.mid (digest, at' + 5) }

def sendAck (message : Message) (s : Snapshot) (receivedAt : ℚ) (again : Bool) :
    PolicyAct PUnit := do
  let c ← self
  let frames ← liftE (fragmentMessage c.binding.controllerAl c.binding.localAl 0x8000 message.mid []
    false 1500)
  let report : PreparedReport :=
    ⟨0x8000, message.mid, s.stamp, min (receivedAt + 1) s.stamp.validUntil, frames⟩
  report.send
    (fun _ => do
      world.sendFrame
      commit (.acked message.mid message.tlvs again))
    (do return (← snapshot world).stamp) world.now

def handle (message : Message) (receivedAt : ℚ) : PolicyAct Unit := do
  if message.messageType ≠ 0x8003 then pure ()
  else
    tick world
    let s ← snapshot world
    let c ← self
    if message.source ≠ c.binding.controllerAl ∨ message.destination ≠ c.binding.localAl ∨
        message.relay then
      liftE (invalid "policy from an unbound controller or envelope")
    else
      let now ← world.now
      if now ≥ receivedAt + 1 then refuse .notReady "policy Ack deadline expired"
      else if (requestText message.tlvs).length > 8192 then
        liftE (invalid "policy request exceeds budget")
      else
        let digest := world.sha256 (requestText message.tlvs)
        let update ← liftE (decodePolicy message.tlvs s.ruids)
        match c.recent.get? message.mid with
        | some prior =>
          if prior.1 ≠ digest then liftE (invalid "conflicting policy request MID")
          else sendAck world message s receivedAt true
        | none =>
          receive world message s update digest
          sendAck world message s receivedAt false

def close : PolicyAct Unit := change fun c => { c with closed := true, recent := ∅ }

end ReportingPolicyCoordinator

/-! ## Runs -/

inductive Call where
  | handle (message : Message) (receivedAt : ℚ)
  | tick
  | close

def Call.act (world : World) : Call → PolicyAct Unit
  | .handle message receivedAt => ReportingPolicyCoordinator.handle world message receivedAt
  | .tick => ReportingPolicyCoordinator.tick world
  | .close => ReportingPolicyCoordinator.close

abbrev Process := Proc (At ReportingPolicyCoordinator) (List Event) Event

def step (world : World) (p : Process) (call : Call) : Process :=
  match call.act world p with
  | .ok _ p' => p'
  | .error _ p' => p'

/-- The coordinator of a session, from the record kept. -/
def opening (world : World) (binding : PeerBinding) (bootId : String) (reporting : Bool)
    (kept : Option Value) : Process :=
  let c : ReportingPolicyCoordinator := { binding, bootId, reporting }
  ⟨⟨c.started kept (world.clock 0), 1⟩, [], []⟩

end ReportingPolicy
end Emosa.Wire
