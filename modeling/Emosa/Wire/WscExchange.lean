import Mathlib.Data.Rat.Defs
import Emosa.Lib.Dialogue
import Emosa.Wire.Reassembler
import Emosa.Wire.WscRadio

/-!
# Emosa.Wire.WscExchange

`WscExchange`: one M1 transcript, one radio, one accepted M2 set. The radio, the peer and the budgets
are fixed when it is made (`WscSetup`). What it accepted stays with its state (`Accepted`), so that
there is a candidate exactly when there is a configuration. A closed exchange never reads its
transcript again.

`sha256` digests the messages of a set. The clock is read once in a call.
-/

namespace Emosa.Wsc

open Wire (Bytes Message Tlv mac invalid)

/-! ## Messages -/

def wscType : Nat := 0x0009

/-- Configuration that can be neither dropped nor applied in part. -/
def configurationCompanions : List Nat := [0xB5, 0xB6, 0xE0, 0xE1, 0xEB, 0xEC]
def securityEnvelopes : List Nat := [0xAB, 0xAC]

def unicast (value : Bytes) : Except EmosaError Bytes := do
  let value ← mac value
  if value = List.replicate 6 0 ∨ value.headD 0 &&& 1 ≠ 0 then
    invalid "expected a nonzero unicast identity"
  else .ok value

/-- The value of a TLV that must be there once. -/
def one (message : Message) (kind : Nat) : Except EmosaError Bytes :=
  match message.tlvs.filter (·.kind = kind) with
  | [tlv] => .ok tlv.value
  | _ => invalid "missing or repeated required EasyMesh TLV"

def header (message : Message) (kind : Nat) : Except EmosaError Unit :=
  if message.messageType ≠ kind ∨ message.relay ≠ false then
    invalid "unexpected autoconfiguration message addressing or type"
  else do
    let _ ← unicast message.source
    let _ ← unicast message.destination
    if message.tlvs.any (securityEnvelopes.contains ·.kind) then
      .error ⟨.unsupportedOperation, "DPP security processing is not implemented"⟩
    else .ok ()

structure PeerBinding where
  ingress : String
  generation : Nat
  localAl : Bytes
  controllerAl : Bytes
  sourceMacs : List Bytes
  deriving DecidableEq

def PeerBinding.check (b : PeerBinding) (message : Message) (ingress : String) (generation : Nat) :
    Except EmosaError Unit :=
  if ingress ≠ b.ingress ∨ generation ≠ b.generation ∨ message.destination ≠ b.localAl ∨
      ¬ b.sourceMacs.contains message.source then
    invalid "message does not match the selected peer/link generation"
  else .ok ()

def payloads (message : Message) : List Bytes :=
  (message.tlvs.filter (·.kind = 0x11)).map Tlv.value

/-! ## The exchange -/

structure WscSetup where
  binding : PeerBinding
  ruid : Bytes
  maxBss : Nat
  multiBss : Bool
  sharedM2Session : Bool
  transcript : M1Transcript
  deadline : ℚ
  maxTransmissions : Nat

abbrev Additional := List (Role × ExistingBssCandidate)

structure Accepted (δ : Type) where
  /-- Of the latest set that decoded to the configuration. -/
  digest : δ
  candidate : ExistingBssCandidate
  additional : Additional
  configuration : RadioPayloadSet
  deriving DecidableEq

inductive Phase (δ : Type) where
  | waiting
  | received (a : Accepted δ)
  | closed
  deriving DecidableEq

structure WscExchange (δ : Type) where
  transmissions : Nat := 0
  phase : Phase δ := .waiting

structure ExchangeResult where
  duplicate : Bool
  ruid : Bytes
  candidate : ExistingBssCandidate
  additional : Additional := []
  deriving DecidableEq

namespace WscSetup

variable (u : WscSetup)

def payloadBudget : Nat := if u.multiBss then maxM2Payloads else min u.maxBss maxM2Payloads

/-- The message is one of this radio's peer. -/
def addressed (message : Message) (ingress : String) (generation : Nat) : Except EmosaError Unit := do
  u.binding.check message ingress generation
  header message wscType

def named (message : Message) : Except EmosaError Unit := do
  let ruid ← one message 0x82
  if ruid ≠ u.ruid then invalid "M2 Radio Identifier differs from the initiating radio" else .ok ()

/-- The set is within what the radio can take. An AP MLD Configuration of no AP MLD configures
nothing. -/
def scope (message : Message) : Except EmosaError Unit :=
  if message.tlvs.any fun t =>
      configurationCompanions.contains t.kind && !(t.kind == 0xE0 && t.value == [0]) then
    .error ⟨.unsupportedOperation, "complete M2 request has unsupported configuration TLVs"⟩
  else if ¬ (1 ≤ (payloads message).length ∧ (payloads message).length ≤ u.payloadBudget) then
    invalid "WSC payload count exceeds advertised radio scope or local budget"
  else .ok ()

/-- The configuration of a radio, with the candidates it maps to. A multi-BSS radio's primary is the
first fronthaul BSS. -/
def mapped (radio : RadioPayloadSet) : Except EmosaError (ExistingBssCandidate × Additional) :=
  if u.multiBss then do
    let pairs ← radio.radioCandidates
    match pairs.find? (·.1 = .fronthaul) with
    | some primary => .ok (primary.2, pairs.eraseP (·.1 = .fronthaul))
    | none => unsupported
  else do
    let candidate ← radio.existingFronthaulCandidate
    return (candidate, [])

def decoded (messages : List Bytes) :
    Except EmosaError (RadioPayloadSet × ExistingBssCandidate × Additional) := do
  let radio ← decodeRadioPayloads u.transcript messages u.payloadBudget u.sharedM2Session
  let candidates ← u.mapped radio
  return (radio, candidates)

end WscSetup

namespace WscExchange

variable {δ : Type} [DecidableEq δ] (sha256 : Bytes → δ) (u : WscSetup) (x : WscExchange δ)

def close : WscExchange δ := { x with phase := .closed }

/-- A failed parameter configuration never goes on with its transcript. -/
def failed : WscExchange δ :=
  match x.phase with
  | .waiting => x.close
  | .received _ | .closed => x

/-- The exchange at a reading of the clock. -/
def live (now : ℚ) : WscExchange δ := if u.deadline ≤ now then x.close else x

def restart {α : Type} : Except EmosaError α :=
  .error ⟨.notReady, "exchange closed; restart discovery with fresh M1"⟩

def pack32 (n : Nat) : Bytes :=
  [UInt8.ofNat (n / 16777216), UInt8.ofNat (n / 65536), UInt8.ofNat (n / 256), UInt8.ofNat n]

/-- The complete messages, each with its length before it. -/
def digestOf (messages : List Bytes) : δ :=
  sha256 (messages.flatMap fun value => pack32 value.length ++ value)

abbrev Answer := Except EmosaError ExchangeResult

def request (now : ℚ) : Except EmosaError Unit × WscExchange δ :=
  let x := x.live u now
  match x.phase with
  | .closed => (restart, x)
  | .received _ => (.error ⟨.notReady, "exchange transmission budget exhausted"⟩, x)
  | .waiting =>
    if u.maxTransmissions ≤ x.transmissions then
      (.error ⟨.notReady, "exchange transmission budget exhausted"⟩, x)
    else (.ok (), { x with transmissions := x.transmissions + 1 })

/-- A set after one was accepted. A registrar may encrypt the same set anew, so what is compared is
the configuration as a whole. -/
def receiveAgain (a : Accepted δ) (messages : List Bytes) : Answer × WscExchange δ :=
  let digest := digestOf sha256 messages
  if digest = a.digest then (.ok { duplicate := true, ruid := u.ruid, candidate := a.candidate }, x)
  else
    match u.decoded messages with
    | .error e => (.error e, x)
    | .ok decoded =>
      if decoded.1 ≠ a.configuration then
        (invalid "conflicting M2 after a complete request was already accepted", x)
      else
        (.ok ⟨true, u.ruid, a.candidate, a.additional⟩,
          { x with phase := .received { a with digest := digest } })

def receiveFirst (messages : List Bytes) : Answer × WscExchange δ :=
  match u.decoded messages with
  | .error e => (.error e, x.close)
  | .ok (radio, candidate, additional) =>
    (.ok ⟨false, u.ruid, candidate, additional⟩,
      { x with phase := .received ⟨digestOf sha256 messages, candidate, additional, radio⟩ })

/-- The checks that refuse a message and leave the exchange as it is. -/
def checks (message : Message) (ingress : String) (generation : Nat) : Except EmosaError Unit := do
  u.addressed message ingress generation
  if x.transmissions = 0 then invalid "M2 received before this exchange sent M1"
  else u.named message

def receiveSet (messages : List Bytes) : Answer × WscExchange δ :=
  match x.phase with
  | .waiting => x.receiveFirst sha256 u messages
  | .received a => x.receiveAgain sha256 u a messages
  | .closed => (restart, x)

/-- A message at an exchange that has not ended. -/
def receiveLive (message : Message) (ingress : String) (generation : Nat) : Answer × WscExchange δ :=
  match x.checks u message ingress generation with
  | .error e => (.error e, x)
  | .ok _ =>
    match u.scope message with
    | .error e => (.error e, x.failed)
    | .ok _ => x.receiveSet sha256 u (payloads message)

def receive (now : ℚ) (message : Message) (ingress : String) (generation : Nat) :
    Answer × WscExchange δ :=
  let x := x.live u now
  match x.phase with
  | .closed => (restart, x)
  | .waiting | .received _ => x.receiveLive sha256 u message ingress generation

/-! ## Runs -/

inductive Call where
  | request (now : ℚ)
  | receive (now : ℚ) (message : Message) (ingress : String) (generation : Nat)
  | close

def call : Call → Option Answer × WscExchange δ
  | .request now => (none, (x.request u now).2)
  | .receive now message ingress generation =>
    let out := x.receive sha256 u now message ingress generation
    (some out.1, out.2)
  | .close => (none, x.close)

abbrev Entry := Dialogue.Entry Call (Option Answer)

def log (cs : List Call) : List Entry := Dialogue.trace (call sha256 u) ({} : WscExchange δ) cs

def afterCalls (cs : List Call) : WscExchange δ := Dialogue.after (call sha256 u) {} cs

def setOf : Call → Option (List Bytes)
  | .receive _ message _ _ => some (payloads message)
  | .request _ | .close => none

/-- The set of an entry that ended with a result, and the result. -/
def resultOf (e : Entry) : Option (List Bytes × ExchangeResult) :=
  match setOf e.call, e.answer with
  | some messages, some (.ok r) => some (messages, r)
  | _, _ => none

def results (log : List Entry) : List (List Bytes × ExchangeResult) := log.filterMap resultOf

end WscExchange

end Emosa.Wsc
