import Mathlib.Data.Rat.Floor
import Emosa.Wire.WscExchange

/-!
# Emosa.Wire.Topology

The Topology Response: the checks of a complete inventory, and its TLVs. An inventory that passes is
encoded value by value, one TLV for each; the neighbor lists of each interface are TLVs of their own.

* `encodeTopology`, `encodeValue`: the IEEE 1905 and EasyMesh values.
* `topology`: the TLVs of an inventory, or why there are none.
-/

namespace Emosa.Wire

open Wsc (PeerBinding)

/-! ## Values -/

structure LocalInterface where
  mac : Bytes
  mediaType : Nat
  mediaSpecific : Bytes

structure DeviceInformation where
  alMac : Bytes
  interfaces : List LocalInterface

structure Non1905Neighbors where
  localInterface : Bytes
  neighbors : List Bytes

structure Neighbor where
  alMac : Bytes
  bridgesPresent : Bool

structure Neighbors1905 where
  localInterface : Bytes
  neighbors : List Neighbor

inductive TopologyValue where
  | device (d : DeviceInformation)
  | bridging (tuples : List (List Bytes))
  | non1905 (n : Non1905Neighbors)
  | neighbors1905 (n : Neighbors1905)

def TopologyValue.kind : TopologyValue → Nat
  | .device _ => 3
  | .bridging _ => 4
  | .non1905 _ => 6
  | .neighbors1905 _ => 7

/-- The octets of media-specific information a media type has. -/
def mediaLength (mediaType : Nat) : Option Nat :=
  if 0x100 ≤ mediaType ∧ mediaType ≤ 0x107 then some 10
  else if mediaType = 0x200 ∨ mediaType = 0x201 then some 7
  else if mediaType = 0 ∨ mediaType = 1 ∨ mediaType = 0x108 ∨ mediaType = 0x109 ∨
      mediaType = 0x300 ∨ mediaType = 0xFFFF then some 0
  else none

/-- `_media`, sending. -/
def checkMedia (i : LocalInterface) : Except EmosaError Unit := do
  let _ ← uint i.mediaType 16 "media type"
  match mediaLength i.mediaType with
  | none => .error ⟨.unsupportedOperation, "reserved media value; ignore entire TLV"⟩
  | some length =>
    if i.mediaSpecific.length ≠ length then invalid "incorrect media-specific information length"
    else if 0x100 ≤ i.mediaType ∧ i.mediaType ≤ 0x107 then
      let role := (i.mediaSpecific.getD 6 0).toNat
      if ¬ [0, 4, 8, 9, 10].contains (role / 16) then
        .error ⟨.unsupportedOperation, "reserved Wi-Fi role; ignore entire TLV"⟩
      else if role % 16 ≠ 0 then invalid "reserved Wi-Fi role bits must be zero on transmission"
      else .ok ()
    else .ok ()

def topologyCount (n : Nat) : Except EmosaError Bytes := do
  return packB (← uint n 8 "topology count")

def addInterface (data : Bytes) (i : LocalInterface) : Except EmosaError Bytes := do
  checkMedia i
  let address ← mac i.mac
  return data ++ (address ++ packH i.mediaType ++ packB i.mediaSpecific.length ++ i.mediaSpecific)

def addAddress (data address : Bytes) : Except EmosaError Bytes := do
  return data ++ (← mac address)

def addGroup (data : Bytes) (group : List Bytes) : Except EmosaError Bytes := do
  let count ← topologyCount group.length
  group.foldlM addAddress (data ++ count)

def addNeighbor (data : Bytes) (n : Neighbor) : Except EmosaError Bytes := do
  let address ← mac n.alMac
  return data ++ (address ++ packB (if n.bridgesPresent then 0x80 else 0))

def encodeUnbounded : TopologyValue → Except EmosaError Bytes
  | .device d => do
    let al ← mac d.alMac
    let count ← topologyCount d.interfaces.length
    d.interfaces.foldlM addInterface (al ++ count)
  | .bridging tuples => do
    let count ← topologyCount tuples.length
    tuples.foldlM addGroup count
  | .non1905 n => do
    let address ← mac n.localInterface
    if n.neighbors.length > (maxValue - 6) / 6 then
      invalid "neighbor list exceeds the TLV value budget"
    else n.neighbors.foldlM addAddress address
  | .neighbors1905 n => do
    let address ← mac n.localInterface
    if n.neighbors.length > (maxValue - 6) / 7 then
      invalid "neighbor list exceeds the TLV value budget"
    else n.neighbors.foldlM addNeighbor address

def encodeTopology (value : TopologyValue) : Except EmosaError Bytes := do
  let data ← encodeUnbounded value
  if data.length > maxValue then invalid "topology value exceeds the TLV length budget"
  else return data

structure OperationalBss where
  apMac : Bytes
  ssid : Bytes

structure OperationalRadio where
  ruid : Bytes
  bsses : List OperationalBss

structure ConfiguredBss where
  bssid : Bytes
  flags : Nat
  ssid : Bytes

structure ConfiguredRadio where
  ruid : Bytes
  bsses : List ConfiguredBss

structure AssociatedClient where
  mac : Bytes
  associationSeconds : Int

structure BssClients where
  bssid : Bytes
  clients : List AssociatedClient

inductive EasyMeshValue where
  | supportedServices (services : List Nat)
  | operational (radios : List OperationalRadio)
  | configuration (radios : List ConfiguredRadio)
  | clients (bsses : List BssClients)
  | profile (n : Nat)

def EasyMeshValue.kind : EasyMeshValue → Nat
  | .supportedServices _ => 0x80
  | .operational _ => 0x83
  | .configuration _ => 0xB7
  | .clients _ => 0x84
  | .profile _ => 0xB3

def maxValueBytes : Nat := 16384

def invalidValue {α : Type} : Except EmosaError α := invalid "invalid EasyMesh TLV value"

def octet (n : Nat) : Except EmosaError Bytes :=
  if n ≤ 255 then .ok (packB n) else invalidValue

def u16 (n : Nat) : Except EmosaError Bytes :=
  if n ≤ 65535 then .ok (packH n) else invalidValue

def sixOctets (value : Bytes) : Except EmosaError Bytes :=
  if value.length = 6 then .ok value else invalidValue

def bounded (value : Bytes) : Except EmosaError Bytes :=
  if value.length > maxValueBytes then
    .error ⟨.unsupportedOperation, "EasyMesh value exceeds local byte budget"⟩
  else .ok value

def addService (value : Bytes) (service : Nat) : Except EmosaError Bytes := do
  let o ← octet service
  if service = 0 ∨ service = 1 then return value ++ o else invalidValue

def addOperationalBss (value : Bytes) (b : OperationalBss) : Except EmosaError Bytes := do
  let address ← sixOctets b.apMac
  if b.ssid.length > 32 then invalidValue
  else bounded (value ++ (address ++ packB b.ssid.length ++ b.ssid))

def addOperationalRadio (value : Bytes) (r : OperationalRadio) : Except EmosaError Bytes := do
  let ruid ← sixOctets r.ruid
  let count ← octet r.bsses.length
  r.bsses.foldlM addOperationalBss (value ++ (ruid ++ count))

def addConfiguredBss (value : Bytes) (b : ConfiguredBss) : Except EmosaError Bytes := do
  if b.ssid.length > 32 then invalidValue
  else
    let flags ← octet b.flags
    if b.flags % 4 ≠ 0 then invalidValue
    else
      let address ← sixOctets b.bssid
      bounded (value ++ (address ++ (flags ++ packB 0 ++ packB b.ssid.length) ++ b.ssid))

def addConfiguredRadio (value : Bytes) (r : ConfiguredRadio) : Except EmosaError Bytes := do
  let ruid ← sixOctets r.ruid
  let count ← octet r.bsses.length
  r.bsses.foldlM addConfiguredBss (value ++ (ruid ++ count))

def addClient (value : Bytes) (c : AssociatedClient) : Except EmosaError Bytes := do
  if c.associationSeconds < 0 then invalidValue
  else
    let address ← sixOctets c.mac
    bounded (value ++ (address ++ packH (min c.associationSeconds.toNat 65535)))

def addBss (value : Bytes) (b : BssClients) : Except EmosaError Bytes := do
  let address ← sixOctets b.bssid
  let count ← u16 b.clients.length
  b.clients.foldlM addClient (value ++ (address ++ count))

def encodeValueUnbounded : EasyMeshValue → Except EmosaError Bytes
  | .supportedServices services => do
    let count ← octet services.length
    services.foldlM addService count
  | .operational radios => do
    let count ← octet radios.length
    radios.foldlM addOperationalRadio count
  | .configuration radios => do
    let count ← octet radios.length
    radios.foldlM addConfiguredRadio count
  | .clients bsses => do
    let count ← octet bsses.length
    bsses.foldlM addBss count
  | .profile n => do
    let value ← octet n
    if n = 1 ∨ n = 2 ∨ n = 3 then return value else invalidValue

def encodeValue (value : EasyMeshValue) : Except EmosaError Bytes := do
  bounded (← encodeValueUnbounded value)

def topologyTlv (value : TopologyValue) : Except EmosaError Tlv := do
  return ⟨value.kind, ← encodeTopology value⟩

def easyMeshTlv (value : EasyMeshValue) : Except EmosaError Tlv := do
  return ⟨value.kind, ← encodeValue value⟩

/-! ## The inventory -/

inductive MessageSet where
  | easyMesh61
  | r1
  deriving DecidableEq, Repr

/-- `backhaulRadios` has the backhaul station of each radio with one, the one in use first;
`associatedAt` when a station associated. -/
structure TopologyFacts where
  device : DeviceInformation
  bridges : List (List Bytes)
  non1905 : List Non1905Neighbors
  neighbors1905 : List Neighbors1905
  operational : List OperationalRadio
  configuration : List ConfiguredRadio
  clients : List BssClients
  inventoryComplete : Bool
  poweredOffInterfacesAbsent : Bool
  l2NeighborRecordsAbsent : Bool
  mldBackhaulVbssTidPolicyAbsent : Bool
  backhaulRadios : List (Bytes × Option Bytes) := []
  associatedAt : List (Bytes × ℚ) := []

def require (condition : Bool) (detail : String) : Except EmosaError Unit :=
  if condition then .ok () else .error ⟨.notReady, detail⟩

def identity (value : Bytes) : Except EmosaError Unit :=
  if value.length ≠ 6 ∨ value.all (· = 0) ∨ (value.getD 0 0).toNat % 2 = 1 then
    invalid "report identity must be a nonzero unicast MAC"
  else .ok ()

def unique (values : List Bytes) : Except EmosaError Unit := do
  values.forM identity
  require (decide values.Nodup) "duplicate identity in report inventory"

/-- Seconds since the association, as reported at `now`. -/
def aged (since : Dict Bytes ℚ) (now : ℚ) (c : AssociatedClient) : AssociatedClient :=
  match since.get? c.mac with
  | none => c
  | some at' => { c with associationSeconds := min 65535 (max 0 (now - at').floor) }

def agedClients (facts : TopologyFacts) (now : ℚ) : List BssClients :=
  let since := facts.associatedAt.foldl (fun d e => d.set e.1 e.2) (∅ : Dict Bytes ℚ)
  facts.clients.map fun b => { b with clients := b.clients.map (aged since now) }

/-- The facts a response at `now` reports. -/
def TopologyFacts.at (facts : TopologyFacts) (now : Option ℚ) : TopologyFacts :=
  match now with
  | none => facts
  | some t =>
    if facts.associatedAt = [] then facts else { facts with clients := agedClients facts t }

namespace TopologyFacts

def interfaces (facts : TopologyFacts) : List Bytes := facts.device.interfaces.map LocalInterface.mac

def bsses (facts : TopologyFacts) : List Bytes :=
  facts.operational.flatMap fun r => r.bsses.map OperationalBss.apMac

/-- `operational` and `configured`: the SSIDs by radio and BSS. -/
def operationalSsids (facts : TopologyFacts) : Dict (Bytes × Bytes) Bytes :=
  (facts.operational.flatMap fun r => r.bsses.map fun b => ((r.ruid, b.apMac), b.ssid)).foldl
    (fun d e => d.set e.1 e.2) ∅

def configuredSsids (facts : TopologyFacts) : Dict (Bytes × Bytes) Bytes :=
  (facts.configuration.flatMap fun r => r.bsses.map fun b => ((r.ruid, b.bssid), b.ssid)).foldl
    (fun d e => d.set e.1 e.2) ∅

def sameSsids (facts : TopologyFacts) : Bool :=
  facts.operationalSsids.entries.all (fun e => facts.configuredSsids.get? e.1 = some e.2) &&
    facts.configuredSsids.entries.all fun e => facts.operationalSsids.get? e.1 = some e.2

def sameSet (a b : List Bytes) : Bool := a.all b.contains && b.all a.contains

/-- The interface is the BSS's own access point. -/
def serves (i : LocalInterface) (bssid : Bytes) : Bool :=
  0x100 ≤ i.mediaType && i.mediaType ≤ 0x107 && i.mediaSpecific.length = 10 &&
    i.mediaSpecific.take 6 = bssid && i.mediaSpecific.getD 6 0 = 0

def checkBss (facts : TopologyFacts) (bssid : Bytes) : Except EmosaError Unit :=
  require (match facts.device.interfaces.filter (·.mac = bssid) with
    | [i] => serves i bssid
    | _ => false) "active BSS is missing its matching local AP interface"

/-- The checks of one neighbor list. -/
def checkNeighbors (facts : TopologyFacts) (localInterface : Bytes) (addresses : List Bytes) :
    Except EmosaError Unit := do
  require (facts.interfaces.contains localInterface) "neighbor list uses an absent interface"
  unique addresses
  require (addresses.length ≤ 256) "neighbor inventory exceeds local budget"

/-- What an inventory has to pass. -/
def check (facts : TopologyFacts) (binding : PeerBinding) : Except EmosaError Unit := do
  require (facts.inventoryComplete && facts.poweredOffInterfacesAbsent &&
    facts.l2NeighborRecordsAbsent && facts.mldBackhaulVbssTidPolicyAbsent)
    "topology inventory or conditional procedure facts are unavailable"
  require (facts.device.alMac = binding.localAl) "topology AL differs from represented agent"
  require (1 ≤ facts.interfaces.length && facts.interfaces.length ≤ 64)
    "local interface inventory exceeds selected scope"
  unique facts.interfaces
  unique facts.bridges.flatten
  require (facts.bridges.flatten.all facts.interfaces.contains)
    "bridging tuple references an absent interface"
  unique (facts.non1905.map Non1905Neighbors.localInterface)
  facts.non1905.forM fun n => facts.checkNeighbors n.localInterface n.neighbors
  unique (facts.neighbors1905.map Neighbors1905.localInterface)
  facts.neighbors1905.forM fun n =>
    facts.checkNeighbors n.localInterface (n.neighbors.map Neighbor.alMac)
  require (1 ≤ facts.operational.length && facts.operational.length ≤ 32 &&
    facts.configuration.length = facts.operational.length)
    "complete operational/configured radio inventories are required"
  unique (facts.operational.map OperationalRadio.ruid)
  unique (facts.configuration.map ConfiguredRadio.ruid)
  unique facts.bsses
  unique (facts.configuration.flatMap fun r => r.bsses.map ConfiguredBss.bssid)
  require (facts.sameSsids && sameSet (facts.operational.map OperationalRadio.ruid)
    (facts.configuration.map ConfiguredRadio.ruid))
    "operational and BSS configuration reports disagree"
  require (facts.configuration.all fun r => r.bsses.all fun b => b.flags = 0x40 || b.flags = 0x80)
    "topology report supports pure fronthaul or backhaul non-MBSSID BSSs"
  facts.bsses.forM facts.checkBss
  unique (facts.clients.map BssClients.bssid)
  require (sameSet (facts.clients.map BssClients.bssid) facts.bsses)
    "explicit client inventory required for every active BSS (including empty lists)"
  let clients := facts.clients.flatMap fun b => b.clients.map AssociatedClient.mac
  unique clients
  require (clients.length ≤ 256) "client inventory exceeds local report budget"

/-- The IEEE 1905 values of the response, in order. -/
def topologyValues (facts : TopologyFacts) : List TopologyValue :=
  [.device facts.device] ++
    (if facts.interfaces.length > 1 ∨ facts.bridges ≠ [] then [.bridging facts.bridges] else []) ++
    facts.non1905.map .non1905 ++ facts.neighbors1905.map .neighbors1905

/-- The EasyMesh values before the backhaul station. The R1 set has no BSS Configuration Report. -/
def easyMeshValues (facts : TopologyFacts) (messageSet : MessageSet) : List EasyMeshValue :=
  [.supportedServices [1], .operational facts.operational] ++
    (if messageSet = .r1 then [] else [.configuration facts.configuration]) ++
    [.clients facts.clients]

/-- The Backhaul STA Radio Capabilities of the radio in use. -/
def backhaulTlvs (facts : TopologyFacts) : List Tlv :=
  match facts.backhaulRadios with
  | [] => []
  | (ruid, some (o :: mac)) :: _ => [⟨0xCB, ruid ++ (packB 0x80 ++ o :: mac)⟩]
  | (ruid, _) :: _ => [⟨0xCB, ruid ++ packB 0⟩]

def profileValues (messageSet : MessageSet) : List EasyMeshValue :=
  if messageSet = .r1 then [] else [.profile 1]

/-- The TLVs of an inventory that passed. -/
def tlvs (facts : TopologyFacts) (messageSet : MessageSet) : Except EmosaError (List Tlv) := do
  let ieee ← facts.topologyValues.mapM topologyTlv
  let easyMesh ← (facts.easyMeshValues messageSet).mapM easyMeshTlv
  let profile ← (profileValues messageSet).mapM easyMeshTlv
  return ieee ++ easyMesh ++ facts.backhaulTlvs ++ profile

end TopologyFacts

def topology (facts : TopologyFacts) (binding : PeerBinding) (messageSet : MessageSet)
    (now : Option ℚ) : Except EmosaError (List Tlv) := do
  (facts.at now).check binding
  (facts.at now).tlvs messageSet

end Emosa.Wire
