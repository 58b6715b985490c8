import Mathlib.Algebra.Order.Ring.Rat
import Emosa.Lib.Dict
import Emosa.Wire.CmduCorrect

/-!
# Emosa.Wire.Reassembler

Fixed-deadline, bounded reassembly contexts. A context is opened by the first fragment of a
message (ingress, source, destination, type and MID together) and dropped when the message is
complete or its deadline passes. Conflicting fragments poison it: its fragments go, and it refuses
everything until that deadline.

A call takes its clock readings as arguments: `feed` reads the clock in `expire` (`now`) and once
more when it opens a context (`opened`). A refused frame may still change the state, so a result
comes beside the state and not instead of it.

* `judge`: what a context does with a fragment, in the order of the checks.
* `Reassembler.call`, `run`: calls of the two public methods, one after another.
-/

namespace Emosa.Wire

structure Message where
  destination : Bytes
  source : Bytes
  messageType : Nat
  mid : Nat
  relay : Bool
  tlvs : List Tlv
  fragments : Nat
  deriving DecidableEq, Repr

/-- A context. `parts` keeps each fragment as its last flag and its TLVs, so reserved bits and
padding do not take part in comparisons. -/
structure Assembly where
  started : ℚ
  relay : Bool
  parts : Dict Nat (Bool × List Tlv) := ∅
  last : Option Nat := none
  size : Nat := 0
  poisoned : Bool := false

structure Key where
  ingress : String
  source : Bytes
  destination : Bytes
  messageType : Nat
  mid : Nat
  deriving DecidableEq, Repr

/-- The budgets of a reassembler, as its constructor accepts them. -/
structure Limits where
  timeout : ℚ
  maxContexts : Nat
  maxBytes : Nat
  maxMessageBytes : Nat
  maxFragments : Nat
  timeout_range : 0 < timeout ∧ timeout ≤ 60
  contexts_range : 1 ≤ maxContexts ∧ maxContexts ≤ 1024
  fragments_range : 1 ≤ maxFragments ∧ maxFragments ≤ 256
  bytes_range : 1 ≤ maxMessageBytes ∧ maxMessageBytes ≤ maxBytes ∧ maxBytes ≤ 16777216

structure Reassembler where
  limits : Limits
  contexts : Dict Key Assembly := ∅
  buffered : Int := 0

/-- The constructor: budgets out of range are refused. -/
def Reassembler.new (timeout : ℚ) (maxContexts maxBytes maxMessageBytes maxFragments : Nat) :
    Except EmosaError Reassembler :=
  if h₁ : (0 < timeout ∧ timeout ≤ 60) ∧ (1 ≤ maxContexts ∧ maxContexts ≤ 1024) then
    if h₂ : (1 ≤ maxFragments ∧ maxFragments ≤ 256) ∧
        (1 ≤ maxMessageBytes ∧ maxMessageBytes ≤ maxBytes ∧ maxBytes ≤ 16777216) then
      .ok { limits := ⟨timeout, maxContexts, maxBytes, maxMessageBytes, maxFragments,
              h₁.1, h₁.2, h₂.1, h₂.2⟩ }
    else invalid "invalid reassembly size budget"
  else invalid "invalid reassembly timeout or context budget"

def defaultLimits : Limits where
  timeout := 5
  maxContexts := 64
  maxBytes := 2 * 1024 * 1024
  maxMessageBytes := 65536
  maxFragments := 64
  timeout_range := by decide +kernel
  contexts_range := by decide
  fragments_range := by decide
  bytes_range := by decide

def Assembly.store (state : Assembly) (part : Fragment) (tlvs : List Tlv) : Assembly :=
  { state with
    parts := state.parts.set part.fid (part.last, tlvs)
    size := state.size + tlvBytes tlvs
    last := if part.last then some part.fid else state.last }

/-- The last fragment is known and as many fragments are stored as it asks for. -/
def Assembly.complete (state : Assembly) : Bool :=
  state.last.any fun last => state.parts.length == last + 1

/-- The TLVs of the stored fragments `0..last`, in order. -/
def Assembly.values (state : Assembly) (last : Nat) : List Tlv :=
  (List.range (last + 1)).flatMap fun fid => ((state.parts.get? fid).map Prod.snd).getD []

/-- A frame as `feed` takes it: decoded, of the only version that is interpreted. -/
def receive (frame : Bytes) : Except EmosaError Fragment := do
  let part ← decodeFrame frame
  if part.version ≠ 0 then
    .error ⟨.unsupportedOperation, "reserved CMDU version; no dispatch"⟩
  else .ok part

def Fragment.key (part : Fragment) (ingress : String) : Key where
  ingress := ingress
  source := part.source
  destination := part.destination
  messageType := part.messageType
  mid := part.mid

namespace Reassembler

/-- `self.buffered -= self.contexts.pop(key).size` -/
def pop (r : Reassembler) (key : Key) : Reassembler :=
  match r.contexts.get? key with
  | some state => { r with buffered := r.buffered - state.size, contexts := r.contexts.erase key }
  | none => r

def expired (r : Reassembler) (now : ℚ) : List Key :=
  (r.contexts.filter fun _ state => decide (now - state.started ≥ r.limits.timeout)).keys

def expire (r : Reassembler) (now : ℚ) : Reassembler × Nat :=
  ((r.expired now).foldl pop r, (r.expired now).length)

abbrev Result := Except EmosaError (Option Message)

def poison (r : Reassembler) (key : Key) (state : Assembly) (reason : String) : Reassembler × Result :=
  ({ r with
      buffered := r.buffered - state.size
      contexts := r.contexts.set key { state with parts := ∅, size := 0, poisoned := true } },
    invalid reason)

inductive Verdict where
  | quarantined
  | poison (reason : String)
  | duplicate
  | store (tlvs : List Tlv)
  deriving DecidableEq, Repr

/-- The checks of `feed` on a fragment of an open context, in their order. -/
def judge (r : Reassembler) (state : Assembly) (part : Fragment) : Verdict :=
  if state.poisoned then .quarantined
  else if part.fid ≥ r.limits.maxFragments ∨ part.relay ≠ state.relay then
    .poison "fragment index or relay mismatch"
  else
    match parseTlvs part.payload part.last with
    | .error _ => .poison "invalid fragment TLV boundaries or end marker"
    | .ok tlvs =>
      match state.parts.get? part.fid with
      | some stored =>
        if stored ≠ (part.last, tlvs) then .poison "conflicting duplicate fragment" else .duplicate
      | none =>
        if state.last.any fun last => part.fid > last || (part.last && part.fid ≠ last) then
          .poison "inconsistent final fragment"
        else if part.last && state.parts.keys.any fun fid => fid > part.fid then
          .poison "final fragment precedes stored fragments"
        else if state.size + tlvBytes tlvs > r.limits.maxMessageBytes ∨
            r.buffered + tlvBytes tlvs > r.limits.maxBytes then
          .poison "reassembly byte budget exhausted"
        else if state.parts.total (fun _ item => item.2.length) + tlvs.length > maxTlvs then
          .poison "reassembled TLV count exceeds local budget"
        else .store tlvs

/-- Keep a fragment, and deliver the message it completes. -/
def store (r : Reassembler) (key : Key) (state : Assembly) (part : Fragment) (tlvs : List Tlv) :
    Reassembler × Result :=
  let state := state.store part tlvs
  let r := { r with
    buffered := r.buffered + tlvBytes tlvs
    contexts := r.contexts.set key state }
  match state.last with
  | none => (r, .ok none)
  | some last =>
    if state.parts.length ≠ last + 1 then (r, .ok none)
    else
      ({ r with buffered := r.buffered - state.size, contexts := r.contexts.erase key },
        .ok (some {
          destination := part.destination
          source := part.source
          messageType := part.messageType
          mid := part.mid
          relay := part.relay
          tlvs := state.values last
          fragments := last + 1 }))

def accept (r : Reassembler) (key : Key) (state : Assembly) (part : Fragment) : Reassembler × Result :=
  match r.judge state part with
  | .quarantined => (r, invalid "conflicting message is quarantined until its original deadline")
  | .poison reason => r.poison key state reason
  | .duplicate => (r, .ok none)
  | .store tlvs => r.store key state part tlvs

/-- The context of `key`, opened at `opened` when there is none. -/
def openContext (r : Reassembler) (key : Key) (part : Fragment) (opened : ℚ) :
    Except EmosaError (Reassembler × Assembly) :=
  match r.contexts.get? key with
  | some state => .ok (r, state)
  | none =>
    if r.contexts.length ≥ r.limits.maxContexts then
      .error ⟨.busy, "reassembly context budget exhausted"⟩
    else
      let state : Assembly := { started := opened, relay := part.relay }
      .ok ({ r with contexts := r.contexts.set key state }, state)

def feed (r : Reassembler) (now opened : ℚ) (ingress : String) (frame : Bytes) : Reassembler × Result :=
  let r := (r.expire now).1
  match receive frame with
  | .error e => (r, .error e)
  | .ok part =>
    match r.openContext (part.key ingress) part opened with
    | .error e => (r, .error e)
    | .ok (r, state) => r.accept (part.key ingress) state part

end Reassembler

/-! ## Runs -/

inductive Call where
  | feed (now opened : ℚ) (ingress : String) (frame : Bytes)
  | expire (now : ℚ)
  deriving DecidableEq

inductive Reply where
  | fed (result : Reassembler.Result)
  | expired (count : Nat)

def Reassembler.call (r : Reassembler) : Call → Reassembler × Reply
  | .feed now opened ingress frame => ((r.feed now opened ingress frame).1, .fed (r.feed now opened ingress frame).2)
  | .expire now => ((r.expire now).1, .expired (r.expire now).2)

def Reassembler.run (r : Reassembler) (calls : List Call) : Reassembler :=
  calls.foldl (fun r c => (r.call c).1) r

end Emosa.Wire
