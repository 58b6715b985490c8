import Mathlib.Data.Prod.Lex
import Mathlib.Data.Rat.Defs
import Mathlib.Algebra.Order.Ring.Rat
import Emosa.Lib.Dict
import Emosa.Lib.Durable
import Emosa.Wire.Cmdu

/-!
# Emosa.Wire.ReportSource

`ReportSource`: the facts about a pod that reports are made from, published under a lease. A
publication replaces the one before it; what is read back shows only what is still in date, and its
token says so.

What a report needs besides, the source hands on as it got it: `κ`, `τ` and `ο` are the rest of the
capabilities, of the topology and of a radio's operating parameters. The clock is read several times
in one call (`Reads`). Arguments of other types and numbers that are not finite are `none`.
-/

namespace Emosa.Reports

open Wire (Bytes invalid)

/-! ## Facts -/

structure EarlyRadio where
  ruid : Bytes
  maxBss : Nat
  deriving DecidableEq

structure EarlyCapabilities (κ : Type) where
  radios : List EarlyRadio
  rest : κ
  deriving DecidableEq

structure OperationalRadio where
  ruid : Bytes
  bsses : List Bytes
  deriving DecidableEq

structure AssociatedClient where
  mac : Bytes
  seconds : Nat
  deriving DecidableEq

structure BssClients where
  bssid : Bytes
  clients : List AssociatedClient
  deriving DecidableEq

structure TopologyFacts (τ : Type) where
  alMac : Bytes
  operational : List OperationalRadio
  clients : List BssClients
  inventoryComplete : Bool
  rest : τ
  deriving DecidableEq

structure OperatingRadio (ο : Type) where
  ruid : Bytes
  rest : ο
  deriving DecidableEq

variable {κ τ ο : Type}

/-- The BSSes stay, without their clients. -/
def withoutClients (clients : List BssClients) : List BssClients :=
  clients.map fun b => ⟨b.bssid, []⟩

/-! ## Stamps -/

structure ReportStamp where
  token : String
  observedAt : ℚ
  validUntil : ℚ
  deriving DecidableEq

def ReportStamp.new (token : String) (observedAt validUntil : ℚ) : Except EmosaError ReportStamp :=
  if ¬ (1 ≤ token.length ∧ token.length ≤ 256) then invalid "invalid report source token"
  else if ¬ (0 < validUntil - observedAt ∧ validUntil - observedAt ≤ 2) then
    invalid "report freshness budget must be positive and at most two seconds"
  else .ok ⟨token, observedAt, validUntil⟩

def ReportStamp.check (s current : ReportStamp) (now : ℚ) : Except EmosaError Unit :=
  if current.token = s.token ∧ (s.observedAt ≤ now ∧ now < s.validUntil) ∧
      (current.observedAt ≤ now ∧ now < current.validUntil) then .ok ()
  else .error ⟨.notReady, "report source changed or expired before delivery"⟩

structure ReportSnapshot (κ τ ο : Type) where
  stamp : ReportStamp
  capabilities : EarlyCapabilities κ
  topology : TopologyFacts τ
  contextToken : String
  operatingRadios : List (OperatingRadio ο)
  telemetryValidUntil : Option ℚ
  topologyValidUntil : Option ℚ
  generation : Nat
  heldRadios : List Bytes

/-! ## Publications -/

/-- The connection's generation and the database's revision, in that order. -/
abbrev Revision := ℕ ×ₗ ℕ

structure Facts (κ τ ο : Type) where
  capabilities : EarlyCapabilities κ
  topology : TopologyFacts τ
  operatingRadios : List (OperatingRadio ο)
  telemetryValidUntil : Option ℚ
  topologyValidUntil : Option ℚ
  deriving DecidableEq

structure Publication (κ τ ο : Type) where
  revision : Revision
  facts : Facts κ τ ο
  observedAt : ℚ
  lifetime : ℚ := 1
  lineage : Option Nat := none
  heldRadios : List Bytes := []

/-- Who the source reports to, about which pod, from which inputs. -/
structure Identity where
  localAl : Bytes
  peer : String
  podId : String
  inputsDigest : String
  deriving DecidableEq

structure ReportSource (κ τ ο : Type) where
  identity : Identity
  /-- The identity it was made with. -/
  made : Identity
  instanceId : String
  epoch : Nat := 0
  snapshot : Option (ReportSnapshot κ τ ο) := none
  revision : Option Revision := none
  lastFacts : Option (Facts κ τ ο) := none
  lastObserved : Option ℚ := none

def ReportSource.new (identity : Identity) (instanceId : String) : ReportSource κ τ ο :=
  { identity := identity, made := identity, instanceId := instanceId }

/-- The readings of the clock in one call, in the order they are taken. -/
structure Reads where
  /-- Whether the publication before has lapsed. -/
  lapse : ℚ
  /-- The new stamp. -/
  fresh : ℚ
  /-- The stamp that is read back. -/
  stamp : ℚ
  topology : ℚ
  telemetry : ℚ
  lapse_le : lapse ≤ fresh
  fresh_le : fresh ≤ stamp
  stamp_le : stamp ≤ topology
  topology_le : topology ≤ telemetry

namespace ReportSource

variable (s : ReportSource κ τ ο)

def invalidate : ReportSource κ τ ο := { s with snapshot := none, epoch := s.epoch + 1 }

def capacities (capabilities : EarlyCapabilities κ) : Dict Bytes Nat :=
  capabilities.radios.foldl (fun d r => d.set r.ruid r.maxBss) ∅

def token (instanceId : String) (epoch : Nat) (revision : Revision) : String :=
  s!"{instanceId}/{epoch}/{(ofLex revision).1}/{(ofLex revision).2}"

section Publish

variable [DecidableEq κ] [DecidableEq τ] [DecidableEq ο]

/-- The publication is in order, before its facts are compared. -/
def inOrder (p : Publication κ τ ο) : Bool :=
  decide (s.identity = s.made) && decide (0 < p.lifetime ∧ p.lifetime ≤ 2) &&
  s.lastObserved.all (· ≤ p.observedAt) && s.revision.all (· ≤ p.revision) &&
  decide (p.facts.topology.alMac = s.identity.localAl)

/-- The radios of the three inventories and of the held ones agree. -/
def checkRadios (p : Publication κ τ ο) : Except EmosaError Unit :=
  let capacity := capacities p.facts.capabilities
  let operating := p.facts.operatingRadios.map OperatingRadio.ruid
  let operational := p.facts.topology.operational
  if ¬ operating.Nodup ∨ ¬ operating.all (capacity.get? · |>.isSome) then
    invalid "operating radio inventory does not match capabilities"
  else if ¬ p.heldRadios.all (capacity.get? · |>.isSome) then
    invalid "held radios are not reported radios"
  else if ¬ (capacity.keys.all fun r => (operational.map OperationalRadio.ruid).contains r) ∨
      ¬ operational.all (fun r => (capacity.get? r.ruid).any (r.bsses.length ≤ ·)) then
    invalid "capability and topology radio inventories disagree"
  else .ok ()

/-- The published snapshot has lapsed: even when nobody polled in the gap, the peer's context is not
kept. -/
def lapsed (now : ℚ) : ReportSource κ τ ο :=
  if s.snapshot.any (·.stamp.validUntil ≤ now) then s.invalidate else s

def checked (p : Publication κ τ ο) : Except EmosaError Unit := do
  if s.inOrder p then checkRadios p
  else invalid "invalid or out-of-order report publication"
  if s.revision = some p.revision ∧ s.lastFacts ≠ some p.facts then
    invalid "report facts changed without a new source revision"
  else .ok ()

def context (p : Publication κ τ ο) : String :=
  match p.lineage with
  | none => s!"{s.instanceId}/{s.epoch}/{(ofLex p.revision).1}"
  | some lineage => s!"{s.instanceId}/lineage-{lineage}"

def accept (p : Publication κ τ ο) (stamp : ReportStamp) : ReportSource κ τ ο :=
  { s with
    revision := some p.revision
    lastObserved := some p.observedAt
    lastFacts := some p.facts
    snapshot := some
      { stamp := stamp
        capabilities := p.facts.capabilities
        topology := p.facts.topology
        contextToken := s.context p
        operatingRadios := p.facts.operatingRadios
        telemetryValidUntil := p.facts.telemetryValidUntil
        topologyValidUntil := p.facts.topologyValidUntil
        generation := (ofLex p.revision).1
        heldRadios := p.heldRadios } }

/-- The publication's stamp, in force now. -/
def stamped (p : Publication κ τ ο) (now : ℚ) : Except EmosaError ReportStamp := do
  let stamp ← ReportStamp.new (token s.instanceId s.epoch p.revision) p.observedAt
    (p.observedAt + p.lifetime)
  stamp.check stamp now
  return stamp

end Publish

/-! ## Reading -/

def expiredTopology : String := "/topology-expired"
def expiredTelemetry : String := "/telemetry-expired"

/-- What is left of the snapshot at its topology's deadline. Before it, the stamp ends with it. -/
def topologyAt (now : ℚ) (snap : ReportSnapshot κ τ ο) :
    Except EmosaError (ReportSnapshot κ τ ο) :=
  match snap.topologyValidUntil with
  | none => .ok snap
  | some deadline =>
    let stamp := snap.stamp
    if deadline ≤ now then do
      let stamp ← ReportStamp.new (stamp.token ++ expiredTopology) stamp.observedAt stamp.validUntil
      return { snap with
        stamp := stamp
        topology := { snap.topology with inventoryComplete := false }
        topologyValidUntil := none }
    else do
      let stamp ← ReportStamp.new stamp.token stamp.observedAt (min stamp.validUntil deadline)
      return { snap with stamp := stamp }

/-- What is left at the telemetry's deadline: the observations that rest on it go. -/
def telemetryAt (now : ℚ) (snap : ReportSnapshot κ τ ο) :
    Except EmosaError (ReportSnapshot κ τ ο) :=
  match snap.telemetryValidUntil with
  | none => .ok snap
  | some deadline =>
    let stamp := snap.stamp
    if deadline ≤ now then do
      let stamp ← ReportStamp.new (stamp.token ++ expiredTelemetry) stamp.observedAt stamp.validUntil
      return { snap with
        stamp := stamp
        topology := { snap.topology with
          inventoryComplete := false, clients := withoutClients snap.topology.clients }
        operatingRadios := []
        telemetryValidUntil := none }
    else do
      let stamp ← ReportStamp.new stamp.token stamp.observedAt (min stamp.validUntil deadline)
      return { snap with stamp := stamp }

def current (r : Reads) : Except EmosaError (Option (ReportSnapshot κ τ ο)) × ReportSource κ τ ο :=
  if s.identity ≠ s.made then (.ok none, s.invalidate)
  else
    match s.snapshot with
    | none => (.ok none, s)
    | some snap =>
      match snap.stamp.check snap.stamp r.stamp with
      | .error _ => (.ok none, s.invalidate)
      | .ok _ => (do return some (← telemetryAt r.telemetry (← topologyAt r.topology snap)), s)

/-! ## Runs -/

/-- How a call ends. A publication that passes its checks is accepted, whatever is read back. -/
inductive Outcome (κ τ ο : Type) where
  | refused (e : EmosaError)
  | accepted (p : Publication κ τ ο) (read : Except EmosaError (Option (ReportSnapshot κ τ ο)))
  | read (read : Except EmosaError (Option (ReportSnapshot κ τ ο)))
  | done

variable [DecidableEq κ] [DecidableEq τ] [DecidableEq ο]

def publish (args : Option (Publication κ τ ο)) (r : Reads) : Outcome κ τ ο × ReportSource κ τ ο :=
  match args with
  | none => (.refused ⟨.invalidInput, "invalid or out-of-order report publication"⟩, s.invalidate)
  | some p =>
    match s.checked p with
    | .error e => (.refused e, s.invalidate)
    | .ok _ =>
      match (s.lapsed r.lapse).stamped p r.fresh with
      | .error e => (.refused e, (s.lapsed r.lapse).invalidate)
      | .ok stamp =>
        let out := ((s.lapsed r.lapse).accept p stamp).current r
        (.accepted p out.1, out.2)

/-- A call, or a change of who the source reports to. -/
inductive Call (κ τ ο : Type) where
  | publish (args : Option (Publication κ τ ο)) (r : Reads)
  | current (r : Reads)
  | invalidate
  | rebind (identity : Identity)

def call : Call κ τ ο → Outcome κ τ ο × ReportSource κ τ ο
  | .publish args r => s.publish args r
  | .current r => (.read (s.current r).1, (s.current r).2)
  | .invalidate => (.done, s.invalidate)
  | .rebind identity => (.done, { s with identity := identity })

end ReportSource

end Emosa.Reports
