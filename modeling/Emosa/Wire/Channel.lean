import Emosa.Wire.Coordinator

/-!
# Emosa.Wire.Channel

Channel Selection: the preferences and power limits a controller gives for a pod's radios. Every radio
is operable on its current channel only, so a request is accepted or declined for each radio it names;
what is accepted goes into one durable record before the response.

* `selectedPolicy`: what a request says of each radio.
* `ChannelCoordinator`: queries, selection requests, scans, the Operating Channel Report and its Ack.

A request whose radios have been judged is a write (`Judged`); what it does to the record is
`Judged.save`. The record's budget and the database are one reading (`saves`).
-/

namespace Emosa.Wire
namespace Channel

open Durable (Prog Proc At Replay read self change commit attempt raise)
open Reports (ReportStamp)
open Wsc (PeerBinding)

/-! ## Radios -/

def classChannels : Nat → List Nat
  | 81 => [1, 2, 3, 4, 5, 6, 7, 8, 9, 10, 11, 12, 13]
  | 115 => [36, 40, 44, 48]
  | 124 => [149, 153, 157, 161]
  | 125 => [149, 153, 157, 161, 165, 169, 173, 177]
  | _ => []

def bandClasses : List (List Nat) := [[81], [115, 124, 125]]

/-- The classes a radio operating in this class advertises. -/
def advertised (operatingClass : Nat) : List Nat :=
  (bandClasses.find? (·.contains operatingClass)).getD []

/-- Operating parameters inside the sole-channel contract. -/
def operable (ruid : Bytes) (operatingClass channel : Nat) (txPowerDbm : Int) : Bool :=
  ruid.length == 6 && ruid.any (· ≠ 0) && (ruid.getD 0 0).toNat % 2 == 0 &&
    (classChannels operatingClass).contains channel && decide (-128 ≤ txPowerDbm ∧ txPowerDbm ≤ 127)

/-- `bound`: the pod reports no power, and `txPowerDbm` is the maximum its capabilities have. -/
structure OperatingRadio where
  ruid : Bytes
  operatingClass : Nat
  channel : Nat
  txPowerDbm : Int
  bound : Bool := false
  valid : operable ruid operatingClass channel txPowerDbm = true
  deriving DecidableEq

def OperatingRadio.tlv (r : OperatingRadio) : Tlv :=
  ⟨0x8F, r.ruid ++ packB 1 ++ packB r.operatingClass ++ packB r.channel ++
    packB (r.txPowerDbm % 256).toNat⟩

structure ClassCapability where
  operatingClass : Nat
  nonOperable : List Nat
  maxEirpDbm : Int

structure RadioCapability where
  ruid : Bytes
  classes : List ClassCapability

structure Snapshot where
  stamp : ReportStamp
  contextToken : String
  capabilities : List RadioCapability
  operatingRadios : List OperatingRadio

/-- A reported radio has no operating parameters yet. -/
def unmeasured (s : Snapshot) : Bool :=
  s.capabilities.any fun c => ¬ (s.operatingRadios.map OperatingRadio.ruid).contains c.ruid

def byRuid (radios : List OperatingRadio) : Dict Bytes OperatingRadio :=
  radios.foldl (fun d r => d.set r.ruid r) ∅

def soleChannel (c : ClassCapability) (channel : Nat) : Bool :=
  let others := (classChannels c.operatingClass).filter (· ≠ channel)
  c.nonOperable.all others.contains && others.all c.nonOperable.contains

def radio (measured : Dict Bytes OperatingRadio) (cap : RadioCapability) :
    Except EmosaError OperatingRadio :=
  match measured.get? cap.ruid with
  | none => .error ⟨.notReady, "measured operating parameters unavailable"⟩
  | some r =>
    if cap.classes.map ClassCapability.operatingClass ≠ advertised r.operatingClass ∨
        ¬ cap.classes.all (soleChannel · r.channel) then
      .error ⟨.unsupportedOperation, "a sole-channel capability contract is required"⟩
    else if cap.classes.any (r.txPowerDbm > ·.maxEirpDbm) then
      .error ⟨.notReady, "observed power exceeds advertised capability"⟩
    else .ok r

def radios (s : Snapshot) : Except EmosaError (List OperatingRadio) :=
  let measured := byRuid s.operatingRadios
  if s.operatingRadios = [] ∨ unmeasured s then
    .error ⟨.notReady, "measured operating parameters unavailable"⟩
  else if measured.length ≠ s.capabilities.length then
    .error ⟨.notReady, "channel capability identity mismatch"⟩
  else s.capabilities.mapM (radio measured)

/-! ## Requests -/

structure Preference where
  operatingClass : Nat
  channels : List Nat
  preference : Nat
  reason : Nat
  deriving DecidableEq

structure Ignored where
  operatingClass : Nat
  channels : List Nat
  deriving DecidableEq

/-- What a request says of one radio. `decline` is why it is not carried out. -/
structure Policy where
  preferences : Option (List Preference) := none
  powerLimitDbm : Option Int := none
  ignored : List Ignored := []
  decline : Option String := none
  deriving DecidableEq

/-- The groups of a Channel Preference TLV read so far; `specified` has the class and channel pairs
already given. -/
structure Groups where
  entry : Policy
  preferences : List Preference := []
  specified : List (Nat × Nat) := []

/-- One group: the class, its channels, and the octet with preference and reason. -/
def group (r : OperatingRadio) (opclass : Nat) (channels : List Nat) (value : Nat) (g : Groups) :
    Except EmosaError Groups :=
  let score := value / 16
  let reason := value % 16
  if score = 15 ∨ reason > 13 ∨ (6 ≤ reason ∧ reason ≤ 10) then
    invalid "reserved preference or agent-only reason in controller request"
  else if ¬ (advertised r.operatingClass).contains opclass then
    .ok { g with entry := { g.entry with ignored := g.entry.ignored ++ [⟨opclass, channels⟩] } }
  else
    let own := classChannels opclass
    if ¬ channels.Nodup ∨ ¬ channels.all own.contains then
      invalid "channels outside the operating class"
    else
      let applies := (if channels = [] then own else channels).map fun c => (opclass, c)
      if applies.any g.specified.contains then
        invalid "overlapping controller channel preferences"
      else
        .ok {
          entry :=
            if applies.contains (opclass, r.channel) ∧ score = 0 then
              { g.entry with
                decline := some "controller forbids the sole advertised operable channel" }
            else g.entry
          preferences := g.preferences ++ [⟨opclass, channels, score, reason⟩]
          specified := g.specified ++ applies }

def groups (r : OperatingRadio) : Nat → Bytes → Groups → Except EmosaError Groups
  | 0, body, g => if body ≠ [] then invalid "trailing channel preference octets" else .ok g
  | count + 1, body, g =>
    match body with
    | opclass :: n :: rest =>
      if rest = [] then invalid "truncated channel preference group"
      else if n.toNat > 13 ∨ body.length < 3 + n.toNat then
        invalid "invalid channel preference count"
      else do
        let channels := (rest.take n.toNat).map UInt8.toNat
        let g ← group r opclass.toNat channels (rest.getD n.toNat 0).toNat g
        groups r count (rest.drop (n.toNat + 1)) g
    | _ => invalid "truncated channel preference group"

/-- The policies by radio, in the order first named. -/
abbrev Named := Dict Bytes Policy

def Named.policy (named : Named) (ruid : Bytes) : Policy := (named.get? ruid).getD {}

def addPreferences (known : Dict Bytes OperatingRadio) (named : Named) (value : Bytes) :
    Except EmosaError Named :=
  let ruid := value.take 6
  match value.drop 6, known.get? ruid with
  | count :: body, some r =>
    if (named.policy ruid).preferences.isSome then
      invalid "duplicate, truncated or foreign channel preferences"
    else if count.toNat > 8 then invalid "channel preference group budget exceeded"
    else do
      let g ← groups r count.toNat body { entry := named.policy ruid }
      return named.set ruid { g.entry with preferences := some g.preferences }
  | _, _ => invalid "duplicate, truncated or foreign channel preferences"

def signed (o : UInt8) : Int := if o.toNat < 128 then o.toNat else o.toNat - 256

def addPowerLimit (known : Dict Bytes OperatingRadio) (named : Named) (value : Bytes) :
    Except EmosaError Named :=
  let ruid := value.take 6
  match value.drop 6, known.get? ruid with
  | [limit], some r =>
    let entry := named.policy ruid
    if entry.powerLimitDbm.isSome then invalid "duplicate, truncated or foreign power limit"
    else
      .ok (named.set ruid {
        entry with
        powerLimitDbm := some (signed limit)
        decline :=
          if signed limit < r.txPowerDbm then
            some (entry.decline.getD "power actuation requires a qualified mapping")
          else entry.decline })
  | _, _ => invalid "duplicate, truncated or foreign power limit"

def addTlv (known : Dict Bytes OperatingRadio) (named : Named) (tlv : Tlv) :
    Except EmosaError Named :=
  if tlv.kind = 0x8B then addPreferences known named tlv.value
  else if tlv.kind = 0x8D then addPowerLimit known named tlv.value
  else .error ⟨.unsupportedOperation, "unimplemented channel configuration companion"⟩

/-- What a request says of the radios it names; of every radio when it names none. -/
def selectedPolicy (tlvs : List Tlv) (radios : List OperatingRadio) :
    Except EmosaError (List (Bytes × Policy)) := do
  let named ← tlvs.foldlM (addTlv (byRuid radios)) ∅
  if named.entries = [] then
    return (radios.foldl (fun d r => d.set r.ruid (Named.policy d r.ruid)) (∅ : Named)).entries
  else return named.entries

/-! ## The durable record -/

structure Stored where
  ruid : Bytes
  preferences : List Preference
  powerLimitDbm : Option Int
  ignored : List Ignored
  deriving DecidableEq

inductive Status where
  | rebootDefault
  | acceptedNoAdjustment
  deriving DecidableEq

structure Record where
  status : Status
  mid : Option Nat := none
  controller : Bytes
  localAl : Bytes
  radios : List Stored
  context : Option String := none

/-- A request whose radios were judged, in the context of its report. -/
structure Judged where
  binding : PeerBinding
  mid : Nat
  tlvs : List Tlv
  radios : List OperatingRadio
  context : String

namespace Judged

variable (w : Judged)

def policies : List (Bytes × Policy) := (selectedPolicy w.tlvs w.radios).toOption.getD []

def accepted : List Stored :=
  (w.policies.filter (·.2.decline.isNone)).map fun e =>
    ⟨e.1, e.2.preferences.getD [], e.2.powerLimitDbm, e.2.ignored⟩

def declined : List (Bytes × Policy) := w.policies.filter (·.2.decline.isSome)

/-- The record is written as a whole, with the radios accepted now; not at all when there are none. -/
def save (old : Option Record) : Option Record :=
  if w.accepted = [] then old
  else some {
    status := .acceptedNoAdjustment
    mid := some w.mid
    controller := w.binding.controllerAl
    localAl := w.binding.localAl
    radios := w.accepted
    context := some w.context }

end Judged

/-- The record, and the requests judged. -/
structure Ledger where
  record : Option Record
  judged : List Judged := []

instance : Replay Ledger Judged := ⟨fun l w => ⟨w.save l.record, l.judged ++ [w]⟩⟩

/-! ## The coordinator -/

structure PendingOperating where
  radios : List OperatingRadio
  context : String
  deadline : ℚ
  retryAt : ℚ
  mids : List Nat := []
  transmissions : Nat := 0

/-- A request: its message type and MID. -/
abbrev RequestKey := Nat × Nat

structure Waiting where
  message : Message
  receivedAt : ℚ
  context : String

structure ChannelCoordinator where
  binding : PeerBinding
  pending : Option PendingOperating := none
  lastDecline : Option (Nat × String) := none
  lastOperating : Option (List OperatingRadio) := none
  queries : Dict RequestKey ℚ := ∅
  waiting : Dict RequestKey Waiting := ∅
  closed : Bool := false

inductive Event where
  | duplicateRequest
  | requestBudgetExhausted
  | waitBudgetExhausted
  | waitingForObservation
  | preferenceReportSent
  | selectionDeclined
  | selectionAccepted
  | scanNotSupportedReported
  | staleOperatingAckRejected
  | operatingChannelAcknowledged

/-- The world of a channel coordinator: `mids` are the MIDs it takes, `utc` the times of its scan
reports, `saves` what a save raises. -/
structure World extends Outside Snapshot where
  mids : Nat → Nat
  utc : Nat → Bytes
  saves : Nat → Option Exn

abbrev ChannelAct := Act ChannelCoordinator Ledger Judged

namespace ChannelCoordinator

variable (world : World)

/-- The published report; `snapshot` of the source. -/
def snapshot : ChannelAct Snapshot := do
  let current ← read world.current
  let c ← self
  match current with
  | some s => if c.closed then refuse .notReady "channel report source lost" else pure s
  | none => refuse .notReady "channel report source lost"

def stamp : ChannelAct ReportStamp := do
  return (← snapshot world).stamp

def send (kind mid : Nat) (tlvs : List Tlv) (s : Snapshot) (deadline : ℚ) : ChannelAct PUnit := do
  let c ← self
  let frames ← liftE (fragmentMessage c.binding.controllerAl c.binding.localAl kind mid tlvs false 1500)
  let report : PreparedReport := ⟨kind, mid, s.stamp, min deadline s.stamp.validUntil, frames⟩
  report.send (fun _ => world.sendFrame) (stamp world) world.now

def transmit (s : Snapshot) (pending : PendingOperating) : ChannelAct Unit := do
  let mid ← read world.mids
  send world 0x8008 mid (pending.radios.map OperatingRadio.tlv) s pending.deadline
  let now ← world.now
  change fun c => { c with
    pending := some { pending with
      mids := pending.mids ++ [mid]
      transmissions := pending.transmissions + 1
      retryAt := now + 3 / 10 } }

def notify (s : Snapshot) (radios : List OperatingRadio) : ChannelAct Unit := do
  let now ← world.now
  let pending : PendingOperating := ⟨radios, s.contextToken, now + 1, now, [], 0⟩
  change fun c => { c with pending := some pending }
  transmit world s pending
  change fun c => { c with lastOperating := some radios }

def moved : ChannelAct Unit :=
  change fun c => { c with lastOperating := some (c.lastOperating.getD []) }

/-- Whether the save of a judged request goes through, or what it raises. -/
def persist (w : Judged) : ChannelAct Unit := do
  if w.accepted ≠ [] then
    match ← read world.saves with
    | none => commit w
    | some e => raise e
  else commit w

def responses (w : Judged) : List Tlv :=
  w.policies.map fun e => ⟨0x8E, e.1 ++ packB (if e.2.decline.isSome then 2 else 0)⟩

def answerQuery (message : Message) (receivedAt : ℚ) (s : Snapshot) : ChannelAct Event := do
  if message.tlvs ≠ [] then
    liftE (invalid "channel preference query must not carry configuration")
  else
    send world 0x8005 message.mid [] s (receivedAt + 1)
    let now ← world.now
    change fun c => { c with queries := c.queries.set (message.messageType, message.mid) (now + 5) }
    return .preferenceReportSent

def answerSelection (message : Message) (receivedAt : ℚ) (s : Snapshot) : ChannelAct Event := do
  let radios ← liftE (radios s)
  let _ ← liftE (selectedPolicy message.tlvs radios)
  let current ← stamp world
  let now ← world.now
  liftE (s.stamp.check current now)
  let now ← world.now
  if now ≥ receivedAt + 1 then refuse .notReady "channel response deadline expired"
  else
    let c ← self
    let w : Judged := ⟨c.binding, message.mid, message.tlvs, radios, s.contextToken⟩
    persist world w
    change fun c => { c with
      lastDecline := match w.declined with
        | [] => c.lastDecline
        | e :: _ => e.2.decline.map (message.mid, ·) }
    send world 0x8007 message.mid (responses w) s (receivedAt + 1)
    let now ← world.now
    change fun c => { c with queries := c.queries.set (message.messageType, message.mid) (now + 5) }
    notify world s radios
    return if w.declined = [] then .selectionAccepted else .selectionDeclined

def answer (message : Message) (receivedAt : ℚ) (s : Snapshot) : ChannelAct Event :=
  if message.messageType = 0x8004 then answerQuery world message receivedAt s
  else answerSelection world message receivedAt s

/-- A request that waits for a measurement: answered, kept or given up. -/
def tickWaiting (now : ℚ) (key : RequestKey) (q : Waiting) : ChannelAct PUnit := do
  let forget : ChannelAct PUnit := change fun c => { c with waiting := c.waiting.erase key }
  if now ≥ q.receivedAt + 1 then forget
  else
    let outcome ← attempt (do
      let s ← snapshot world
      if s.contextToken ≠ q.context then refuse .notReady "queued channel context changed"
      else if unmeasured s then pure ()
      else
        forget
        let _ ← answer world q.message q.receivedAt s
        pure ())
    match outcome with
    | .ok _ => pure ()
    | .error (.emosa _) => forget
    | .error e => raise e

/-- The report after an autonomous change. -/
def tickIdle : ChannelAct Unit := do
  let c ← self
  if c.lastOperating ≠ none ∧ ¬ c.closed then
    let found ← attempt (do
      let s ← snapshot world
      let radios ← liftE (radios s)
      return (s, radios))
    match found with
    | .error (.emosa _) => pure ()
    | .error e => raise e
    | .ok (s, radios) => if some radios ≠ c.lastOperating then notify world s radios else pure ()
  else pure ()

def tickPending (now : ℚ) (pending : PendingOperating) : ChannelAct Unit := do
  let found ← attempt (do
    let s ← snapshot world
    let radios ← liftE (radios s)
    if s.contextToken ≠ pending.context ∨ radios ≠ pending.radios then
      refuse .notReady "operating report context changed"
    else return s)
  match found with
  | .error (.emosa _) => change fun c => { c with pending := none }
  | .error e => raise e
  | .ok s =>
    if now ≥ pending.deadline then change fun c => { c with pending := none }
    else if now ≥ pending.retryAt ∧ pending.transmissions < 3 then transmit world s pending
    else pure ()

def tick : ChannelAct Unit := do
  let now ← world.now
  change fun c => { c with queries := c.queries.filter fun _ expiry => now < expiry }
  let c ← self
  c.waiting.entries.forM fun e => tickWaiting world now e.1 e.2
  let c ← self
  match c.pending with
  | none => tickIdle world
  | some pending => tickPending world now pending

/-! A Channel Scan Request is answered with "scan not supported". -/

/-- The classes of one radio of a scan request, from the given octet on. -/
def scanClasses (data : Bytes) : Nat → Nat → Except EmosaError (List (Nat × List Nat) × Nat)
  | 0, offset => .ok ([], offset)
  | count + 1, offset =>
    if data.length < offset + 2 ∨ data.length < offset + 2 + (data.getD (offset + 1) 0).toNat then
      invalid "truncated channel scan operating class"
    else do
      let n := (data.getD (offset + 1) 0).toNat
      let channels := ((data.drop (offset + 2)).take n).map UInt8.toNat
      let (classes, next) ← scanClasses data count (offset + 2 + n)
      return (((data.getD offset 0).toNat, channels) :: classes, next)

def scanRadios (data : Bytes) :
    Nat → Nat → Except EmosaError (List (Bytes × List (Nat × List Nat)) × Nat)
  | 0, offset => .ok ([], offset)
  | count + 1, offset =>
    if data.length < offset + 7 then invalid "truncated channel scan radio"
    else do
      let (classes, next) ← scanClasses data (data.getD (offset + 6) 0).toNat (offset + 7)
      let (radios, last) ← scanRadios data count next
      return (((data.drop offset).take 6, classes) :: radios, last)

def decodeScanRequest (tlvs : List Tlv) : Except EmosaError (List (Bytes × List (Nat × List Nat))) :=
  match (tlvs.filter (·.kind = 0xA6)).map Tlv.value with
  | [data] =>
    if data.length < 2 then invalid "one Channel Scan Request TLV required"
    else do
      let (radios, last) ← scanRadios data (data.getD 1 0).toNat 2
      if last ≠ data.length then invalid "trailing channel scan request octets" else return radios
  | _ => invalid "one Channel Scan Request TLV required"

/-- The results for one radio: status 1 for each class and channel. -/
def scanResults (r : OperatingRadio) (classes : List (Nat × List Nat)) : List Tlv :=
  (if classes = [] then [(r.operatingClass, [r.channel])] else classes).flatMap fun c =>
    (if c.2 ≠ [] then c.2 else if c.1 = r.operatingClass then [r.channel] else []).map fun channel =>
      ⟨0xA7, r.ruid ++ packB c.1 ++ packB channel ++ packB 1⟩

def scan (message : Message) (receivedAt : ℚ) : ChannelAct Event := do
  tick world
  let s ← snapshot world
  let c ← self
  if (c.queries.get? (message.messageType, message.mid)).isSome then return .duplicateRequest
  else
    let now ← world.now
    if now ≥ receivedAt + 1 then refuse .notReady "channel scan Ack deadline expired"
    else
      let known := byRuid (← liftE (radios s))
      let requested ← liftE (decodeScanRequest message.tlvs)
      let utc ← read world.utc
      let results := requested.flatMap fun e =>
        match known.get? e.1 with
        | none => []
        | some r => scanResults r e.2
      send world 0x8000 message.mid [] s (receivedAt + 1)
      let now ← world.now
      change fun c => { c with queries := c.queries.set (message.messageType, message.mid) (now + 5) }
      let mid ← read world.mids
      let now ← world.now
      send world 0x801C mid (⟨0xA8, packB utc.length ++ utc⟩ :: results) s (now + 1)
      return .scanNotSupportedReported

def handleRequest (message : Message) (receivedAt : ℚ) : ChannelAct Event := do
  tick world
  let s ← snapshot world
  let key := (message.messageType, message.mid)
  let c ← self
  if (c.queries.get? key).isSome ∨ (c.waiting.get? key).isSome then return .duplicateRequest
  else if c.queries.length + c.waiting.length ≥ 64 then return .requestBudgetExhausted
  else
    let now ← world.now
    if now ≥ receivedAt + 1 then refuse .notReady "channel response deadline expired"
    else if message.messageType = 0x8006 ∧ unmeasured s then
      -- The first sample may come within the wire deadline; repeats extend nothing.
      if c.waiting.length ≥ 4 then return .waitBudgetExhausted
      else
        change fun c => { c with
          waiting := c.waiting.set key ⟨message, receivedAt, s.contextToken⟩ }
        return .waitingForObservation
    else answer world message receivedAt s

def handle (message : Message) (receivedAt : ℚ) : ChannelAct (Option Event) := do
  if message.messageType = 0x801B then return some (← scan world message receivedAt)
  else if message.messageType ≠ 0x8004 ∧ message.messageType ≠ 0x8006 then return none
  else return some (← handleRequest world message receivedAt)

/-- The report that is acknowledged is no longer the current one. -/
def stale (pending : PendingOperating) (s : Snapshot) (now : ℚ) : ChannelAct Bool := do
  if now ≥ pending.deadline ∨ s.contextToken ≠ pending.context then return true
  else
    let radios ← liftE (radios s)
    return radios ≠ pending.radios

/-- The Ack of an Operating Channel Report, as its message was put together. -/
def ack (message : Message) (ingress : String) (generation : Nat) : ChannelAct (Option Event) := do
  let c ← self
  liftE (c.binding.check message ingress generation)
  match c.pending with
  | none => return none
  | some pending =>
    if ¬ pending.mids.contains message.mid then return none
    else
      let s ← snapshot world
      let now ← world.now
      if ← stale pending s now then
        change fun c => { c with pending := none }
        return some .staleOperatingAckRejected
      else if message.messageType ≠ 0x8000 ∨ message.relay ∨
          message.tlvs.any (fun t => [0xAB, 0xAC, 0xA3, 0xBC].contains t.kind) then
        liftE (invalid "invalid operating channel acknowledgment")
      else
        change fun c => { c with pending := none }
        return some .operatingChannelAcknowledged

def close : ChannelAct Unit :=
  change fun c => { c with closed := true, pending := none, waiting := ∅ }

end ChannelCoordinator

/-! ## Runs -/

inductive Call where
  | handle (message : Message) (receivedAt : ℚ)
  | tick
  | ack (message : Message) (ingress : String) (generation : Nat)
  | moved
  | close

/-- A call as its caller makes it: what it returns and what it raises do not concern the record. -/
def Call.act (world : World) : Call → ChannelAct Unit
  | .handle message receivedAt => do
    let _ ← ChannelCoordinator.handle world message receivedAt
  | .tick => ChannelCoordinator.tick world
  | .ack message ingress generation => do
    let _ ← ChannelCoordinator.ack world message ingress generation
  | .moved => ChannelCoordinator.moved
  | .close => ChannelCoordinator.close

abbrev Process := Proc (At ChannelCoordinator) Ledger Judged

def step (world : World) (p : Process) (call : Call) : Process :=
  match call.act world p with
  | .ok _ p' => p'
  | .error _ p' => p'

/-- The record a coordinator starts with: the default, unless the one before it is kept. -/
def firstRecord (binding : PeerBinding) (resetPolicy : Bool) (kept : Option Record) : Option Record :=
  if resetPolicy then
    some {
      status := .rebootDefault
      controller := binding.controllerAl
      localAl := binding.localAl
      radios := [] }
  else kept

def session (world : World) (binding : PeerBinding) (record : Option Record) (calls : List Call) :
    Ledger :=
  (Durable.runs (step world) ⟨⟨{ binding }, 0⟩, ⟨record, []⟩, []⟩ calls).journal

end Channel
end Emosa.Wire
