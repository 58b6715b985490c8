import Mathlib.Data.Nat.Bitwise
import Emosa.Errors

/-!
# Emosa.Wire.Cmdu

The IEEE 1905.1 envelope: TLVs, fragments, Ethernet frames, and the TLV-boundary fragmentation of
a message. Octet strings are lists of `UInt8`; an integer the code bounds with `uint` is a `Nat`
here and is bounded by the same check.

* `parseTlvs`: the TLVs of one fragment payload. Reserved length bits are masked; only a final
  fragment holds an end marker, and what follows it is padding.
* `fragmentMessage`: greedy packing of whole TLVs into frames of at most `mtu` octets.
-/

namespace Emosa.Wire

abbrev Bytes := List UInt8

def etherType : Nat := 0x893A
def headerSize : Nat := 8
def maxCmdu : Nat := 1500
def maxValue : Nat := 0x3FFF
def maxTlvs : Nat := 256
def endMarker : Bytes := [0, 0, 0]

def invalid {α : Type} (message : String) : Except EmosaError α := .error ⟨.invalidInput, message⟩

def uint (value bits : Nat) (label : String) : Except EmosaError Nat :=
  if value < 2 ^ bits then .ok value else invalid ("invalid " ++ label)

def mac (value : Bytes) : Except EmosaError Bytes :=
  if value.length = 6 then .ok value else invalid "MAC address must contain six octets"

/-- Network order (`struct` format `!B` and `!H`). -/
def packB (n : Nat) : Bytes := [UInt8.ofNat n]
def packH (n : Nat) : Bytes := [UInt8.ofNat (n / 256), UInt8.ofNat n]
def unpackH (hi lo : UInt8) : Nat := hi.toNat * 256 + lo.toNat

structure Tlv where
  kind : Nat
  value : Bytes
  deriving DecidableEq, Repr

def Tlv.encode (tlv : Tlv) : Except EmosaError Bytes := do
  let _ ← uint tlv.kind 8 "TLV type"
  if tlv.kind = 0 ∨ tlv.value.length > maxValue then
    invalid "invalid TLV value or explicit end marker"
  else
    .ok (packB tlv.kind ++ packH tlv.value.length ++ tlv.value)

/-- The loop of `parseTlvs`: `rest` is the payload from the current offset on. -/
def parseTlvsFrom (final : Bool) (tlvs : List Tlv) (rest : Bytes) : Except EmosaError (List Tlv) :=
  match rest with
  | [] =>
    if final then invalid "missing final end marker"
    else if tlvs = [] then invalid "empty non-final fragment"
    else .ok tlvs
  | kind :: hi :: lo :: rest =>
    -- 1905.1a section 6.4: the reserved bits of the length are ignored on receipt
    let length := unpackH hi lo &&& maxValue
    if kind = 0 then
      if length ≠ 0 ∨ final = false then invalid "invalid or non-final end marker" else .ok tlvs
    else if rest.length < length then
      invalid "truncated TLV value or unsupported octet-boundary fragmentation"
    else if tlvs.length ≥ maxTlvs then invalid "TLV count exceeds local budget"
    else parseTlvsFrom final (tlvs ++ [⟨kind.toNat, rest.take length⟩]) (rest.drop length)
  | _ => invalid "truncated TLV header"
termination_by rest.length
decreasing_by
  simp only [List.length_drop, List.length_cons]
  omega

def parseTlvs (payload : Bytes) (final : Bool) : Except EmosaError (List Tlv) :=
  parseTlvsFrom final [] payload

structure Fragment where
  destination : Bytes
  source : Bytes
  messageType : Nat
  mid : Nat
  fid : Nat
  last : Bool
  relay : Bool
  payload : Bytes
  version : Nat := 0
  deriving DecidableEq, Repr

def Fragment.encode (part : Fragment) : Except EmosaError Bytes := do
  let destination ← mac part.destination
  let source ← mac part.source
  let messageType ← uint part.messageType 16 "message type"
  let mid ← uint part.mid 16 "MID"
  let fid ← uint part.fid 8 "FID"
  if part.version ≠ 0 then invalid "cannot transmit reserved version or invalid flags"
  else if part.payload.length > maxCmdu - headerSize then
    invalid "fragment exceeds Ethernet CMDU budget"
  else
    let flags := (if part.last then 0x80 else 0) ||| (if part.relay then 0x40 else 0)
    let header := packB 0 ++ packB 0 ++ packH messageType ++ packH mid ++ packB fid ++ packB flags
    .ok (destination ++ source ++ packH etherType ++ header ++ part.payload)

/-- Ethernet II octets, without FCS or VLAN tags; unknown versions are preserved. -/
def decodeFrame (frame : Bytes) : Except EmosaError Fragment :=
  if ¬ (22 ≤ frame.length ∧ frame.length ≤ 14 + maxCmdu) then
    invalid "truncated or oversized Ethernet frame"
  else if unpackH (frame.getD 12 0) (frame.getD 13 0) ≠ etherType then
    invalid "not an untagged IEEE 1905 Ethernet frame"
  else
    let flags := frame.getD 21 0
    .ok {
      destination := frame.take 6
      source := (frame.drop 6).take 6
      messageType := unpackH (frame.getD 16 0) (frame.getD 17 0)
      mid := unpackH (frame.getD 18 0) (frame.getD 19 0)
      fid := (frame.getD 20 0).toNat
      last := flags &&& 0x80 ≠ 0
      relay := flags &&& 0x40 ≠ 0
      payload := frame.drop 22
      version := (frame.getD 14 0).toNat }

/-- The packing loop of `fragmentMessage`. Room for the end marker is left in every chunk, since
any of them may turn out to be the last. -/
def packTlvs (budget : Nat) : List Tlv → List Bytes → Bytes → Except EmosaError (List Bytes)
  | [], chunks, current => .ok (chunks ++ [current ++ endMarker])
  | tlv :: tlvs, chunks, current => do
    let encoded ← tlv.encode
    if encoded.length + endMarker.length > budget then
      invalid "TLV too large for supported TLV-boundary fragmentation"
    else if current.length + encoded.length + endMarker.length > budget then
      packTlvs budget tlvs (chunks ++ [current]) encoded
    else
      packTlvs budget tlvs chunks (current ++ encoded)

def fragmentMessage (destination source : Bytes) (messageType mid : Nat) (tlvs : List Tlv)
    (relay : Bool) (mtu : Nat) : Except EmosaError (List Bytes) := do
  if ¬ (14 ≤ mtu ∧ mtu ≤ maxCmdu) then invalid "invalid CMDU MTU"
  else if tlvs.length > maxTlvs then invalid "TLV count exceeds local budget"
  else
    let chunks ← packTlvs (mtu - headerSize) tlvs [] []
    if chunks.length > 64 then invalid "fragment count exceeds local budget"
    else
      chunks.zipIdx.mapM fun (payload, fid) =>
        Fragment.encode {
          destination, source, messageType, mid, fid
          last := fid == chunks.length - 1
          relay, payload }

end Emosa.Wire
