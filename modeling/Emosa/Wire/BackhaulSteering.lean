import Emosa.Wire.Coordinator

/-!
# Emosa.Wire.BackhaulSteering

Backhaul Steering Requests: a controller asks for the pod's backhaul station to be moved to another
BSS. A request is acknowledged, handed to the executor, and answered once the outcome of the move is
known, or at its deadline. The move under way and the answers given are the agent's, shared by the
coordinators of its sessions one after another.

* `Event`: what the executor was asked, and what went out to the controller.

A session is a number: each has its own binding, and its executor is taken away when it is closed.
-/

namespace Emosa.Wire
namespace BackhaulSteering

open Durable (Prog Proc At Replay read self change commit)
open Reports (ReportStamp)
open Wsc (PeerBinding)

def requestType : Nat := 0x8019
def responseType : Nat := 0x801A
def ackType : Nat := 0x8000

/-- The backhaul STA cannot operate on the channel. -/
def channelNotOperable : Nat := 4
/-- Rejected, or the association with the target failed. -/
def associationFailed : Nat := 6

def channelRefusals : List String := ["no_station_on_band", "channel_not_operable"]

structure Request where
  station : Bytes
  target : Bytes
  operatingClass : Nat
  channel : Nat
  deriving DecidableEq

def isUnicast (value : Bytes) : Bool :=
  value.length == 6 && value.any (· ≠ 0) && (value.getD 0 0).toNat % 2 == 0

def decodeRequest (tlvs : List Tlv) : Except EmosaError Request :=
  match (tlvs.filter (·.kind = 0x9E)).map Tlv.value with
  | [value] =>
    if value.length ≠ 14 then invalid "one Backhaul Steering Request TLV required"
    else if ¬ isUnicast (value.take 6) then invalid "backhaul STA must be a unicast MAC address"
    else .ok {
      station := value.take 6
      target := (value.drop 6).take 6
      operatingClass := (value.getD 12 0).toNat
      channel := (value.getD 13 0).toNat }
  | _ => invalid "one Backhaul Steering Request TLV required"

/-- The response names the STA associated after the move, else the one of the request. -/
def responseTlvs (request : Request) (error : Nat) (station : Option Bytes) : List Tlv :=
  let named := match station with
    | some (o :: mac) => o :: mac
    | _ => request.station
  ⟨0x9F, named ++ request.target ++ packB (if error = 0 then 0 else 1)⟩ ::
    if error = 0 then [] else [⟨0xA3, packB error ++ named⟩]

/-- Why a request cannot be handed over. -/
def refusal (request : Request) (stations : List Bytes) : Option String :=
  if ¬ stations.contains request.station then some "not_backhaul_station"
  else if ¬ isUnicast request.target then some "invalid_target"
  else none

def refusalCode (reason : String) : Nat :=
  if channelRefusals.contains reason then channelNotOperable else associationFailed

structure Pending where
  mid : Nat
  request : Request
  deadline : ℚ
  deriving DecidableEq

structure Answer where
  request : Request
  error : Nat
  expiry : ℚ
  station : Option Bytes

/-- The agent's, across its sessions. -/
structure Shared where
  pending : Option Pending := none
  answered : Dict Nat Answer := ∅
  /-- The sessions that were closed. -/
  closed : List Nat := []

structure Snapshot where
  stamp : ReportStamp
  /-- The backhaul stations of the reported topology, by radio. -/
  backhaulStations : List (Bytes × Bytes)

/-- A move that is over: the pod's State shows the station on the target, or why it failed. -/
inductive Outcome where
  | applied
  | failed (reason : String)
  deriving DecidableEq

def errorOf : Option Outcome → Nat
  | some .applied => 0
  | _ => associationFailed

inductive Event where
  /-- The executor was asked, and did or did not start the move. -/
  | executed (mid : Nat) (accepted : Bool) (time : ℚ)
  /-- A response went out completely. -/
  | answered (mid : Nat) (error : Nat) (time : ℚ)
  /-- The move is recorded as unanswered. -/
  | unanswered (mid : Nat)
  deriving DecidableEq

instance : Replay (List Event) Event := ⟨fun log e => log ++ [e]⟩

/-- `executor` is why the move was not started; `associated` the STA the pod is on. -/
structure World extends Outside Snapshot where
  binding : Nat → PeerBinding
  executor : Nat → Option String
  outcome : Nat → Option Outcome
  associated : Nat → Option Bytes

abbrev SteerAct := Act Shared (List Event) Event

section

variable (world : World) (session : Nat)

def snapshot : SteerAct Snapshot := do
  match ← read world.current with
  | none => refuse .notReady "the pod's state is not available"
  | some s => pure s

def send (messageType mid : Nat) (tlvs : List Tlv) (s : Snapshot) (deadline : ℚ) :
    SteerAct PUnit := do
  let b := world.binding session
  let frames ← liftE (fragmentMessage b.controllerAl b.localAl messageType mid tlvs false 1500)
  let report : PreparedReport := ⟨messageType, mid, s.stamp, min deadline s.stamp.validUntil, frames⟩
  report.send (fun _ => world.sendFrame)
    (world.stamp Snapshot.stamp "the pod's state is not available") world.now

def respond (mid : Nat) (request : Request) (error : Nat) (s : Snapshot) (station : Option Bytes) :
    SteerAct Unit := do
  let now ← world.now
  send world session responseType mid (responseTlvs request error station) s (now + 1)
  commit (.answered mid error now)
  change fun c => { c with
    answered := c.answered.set mid ⟨request, error, now + 30, station⟩ }

/-- The executor of a session, asked for a move. -/
def execute (mid : Nat) (now : ℚ) : SteerAct (Option String) := do
  let c ← self
  if c.closed.contains session then return some "session_closed"
  else
    let reason ← read world.executor
    commit (.executed mid reason.isNone now)
    return reason

/-- A request that was acknowledged and is not a repeat. -/
def start (message : Message) (request : Request) (s : Snapshot) (now : ℚ) : SteerAct Unit := do
  let c ← self
  let reason ← match refusal request (s.backhaulStations.map Prod.snd), c.pending with
    | some reason, _ => pure (some reason)
    | none, some _ => pure (some "move_in_progress")
    | none, none => execute world session message.mid now
  match reason with
  | some reason => respond world session message.mid request (refusalCode reason) s none
  | none => change fun c => { c with pending := some ⟨message.mid, request, now + 120⟩ }

def handle (message : Message) (receivedAt : ℚ) : SteerAct Unit := do
  if message.messageType ≠ requestType then pure ()
  else if message.source ≠ (world.binding session).controllerAl ∨
      message.destination ≠ (world.binding session).localAl ∨ message.relay then
    liftE (invalid "backhaul steering request from an unbound controller or envelope")
  else
    let now ← world.now
    if now ≥ receivedAt + 1 then refuse .notReady "backhaul steering Ack deadline expired"
    else
      change fun c => { c with answered := c.answered.filter fun _ a => now < a.expiry }
      let request ← liftE (decodeRequest message.tlvs)
      let s ← snapshot world
      send world session ackType message.mid [] s (receivedAt + 1)
      let c ← self
      match c.answered.get? message.mid, c.pending with
      | some a, _ => respond world session message.mid a.request a.error s a.station
      | none, some q =>
        -- The repeat of the move under way is only acknowledged.
        if q.mid = message.mid then pure () else start world session message request s now
      | none, none => start world session message request s now

/-- The STA a successful move ended on. -/
def stationAfter (result : Option Outcome) : SteerAct (Option Bytes) :=
  if result = some .applied then read world.associated else pure none

/-- Answers a move whose outcome is known, or at its deadline. -/
def tick : SteerAct Unit := do
  let c ← self
  match c.pending with
  | none => pure ()
  | some q =>
    let now ← world.now
    let result ← read world.outcome
    if result = none ∧ now < q.deadline then pure ()
    else
      match ← read world.current with
      | none =>
        if now < q.deadline + 30 then pure ()
        else
          change fun c => { c with pending := none }
          commit (.unanswered q.mid)
      | some s =>
        change fun c => { c with pending := none }
        let station ← stationAfter world result
        respond world session q.mid q.request (errorOf result) s station

def close : SteerAct Unit := change fun c => { c with closed := session :: c.closed }

end

/-! ## Runs -/

inductive Call where
  | handle (session : Nat) (message : Message) (receivedAt : ℚ)
  | tick (session : Nat)
  | close (session : Nat)

def Call.act (world : World) : Call → SteerAct Unit
  | .handle session message receivedAt => BackhaulSteering.handle world session message receivedAt
  | .tick session => BackhaulSteering.tick world session
  | .close session => BackhaulSteering.close session

abbrev Process := Proc (At Shared) (List Event) Event

def step (world : World) (p : Process) (call : Call) : Process :=
  match call.act world p with
  | .ok _ p' => p'
  | .error _ p' => p'

def fresh : Process := ⟨⟨{}, 0⟩, [], []⟩

end BackhaulSteering
end Emosa.Wire
