import Mathlib.Algebra.Order.Ring.Rat
import Mathlib.Data.String.Basic
import Emosa.Errors
import Emosa.Lib.Dict

/-!
# Emosa.Model

The records the engine works on: intents and their targets, observations and snapshots of a pod,
and operations. A scope's intent is any type with `IntentType`; `Intent` (one AP BSS) is the one
the engine has by default.

Clock readings are seconds: a UTC timestamp and a monotonic reading are rational numbers. Fields of
an operation that nothing reads (timestamps besides the deadline, timings, the constant version
texts, the client verdict) are not part of the record here.
-/

namespace Emosa

/-- The JSON values of configurations and evidence. `rows` is a list of lists of texts (the target
of further BSSes), `tables` an object of such lists (the rows a window created, by table), `texts` a
list and `fields` an object of texts. -/
inductive Value where
  | null
  | bool (b : Bool)
  | int (n : Int)
  | str (s : String)
  | rows (l : List (List String))
  | tables (l : List (String × List String))
  | texts (l : List String)
  | fields (l : List (String × Option String))
  deriving DecidableEq, Repr

namespace Value

/-- The number a value counts as in a comparison: a Boolean is one too. -/
def number? : Value → Option Int
  | .bool b => some (if b then 1 else 0)
  | .int n => some n
  | _ => none

/-- `==` of the source. -/
def equal (a b : Value) : Bool :=
  match a.number?, b.number? with
  | some x, some y => x == y
  | _, _ => a == b

def truthy : Value → Bool
  | .null => false
  | .bool b => b
  | .int n => n != 0
  | .str s => s != ""
  | .rows l => !l.isEmpty
  | .tables l => !l.isEmpty
  | .texts l => !l.isEmpty
  | .fields l => !l.isEmpty

end Value

abbrev Record := Dict String Value

namespace Record

/-- `evidence.get(key)` used as a condition. -/
def holds (r : Record) (key : String) : Bool := (r.get? key).any Value.truthy

/-- The value under `key`, unless it reads as false. -/
def some? (r : Record) (key : String) : Option Value := (r.get? key).filter Value.truthy

end Record

inductive State where
  | requested
  | validated
  | submitted
  | configCommitted
  | observedApplied
  | rejected
  | failed
  | timedOut
  | indeterminate
  | ownershipConflict
  | cancelled
  deriving DecidableEq, Repr

def State.value : State → String
  | .requested => "REQUESTED"
  | .validated => "VALIDATED"
  | .submitted => "SUBMITTED"
  | .configCommitted => "CONFIG_COMMITTED"
  | .observedApplied => "OBSERVED_APPLIED"
  | .rejected => "REJECTED"
  | .failed => "FAILED"
  | .timedOut => "TIMED_OUT"
  | .indeterminate => "INDETERMINATE"
  | .ownershipConflict => "OWNERSHIP_CONFLICT"
  | .cancelled => "CANCELLED"

/-- `ACTIVE`: an operation that holds its pod. -/
def State.active : State → Bool
  | .requested | .validated | .submitted | .configCommitted | .indeterminate => true
  | _ => false

/-- The secrets an intent refers to, and the fingerprints taken of them and of whole intents. -/
structure Vault (I : Type) where
  resolve : String → Except EmosaError String
  fingerprint : String → String
  fingerprintIntent : I → Record → String

/-- What the engine asks of a scope's intents. `wellFormed` is the journal contract's check of the
record; a WSC receipt is bound to `radioId` and `bssId` where the intent has them. -/
class IntentType (I : Type) where
  podId : I → String
  radioId : I → Option String
  bssId : I → Option String
  wellFormed : I → Bool
  validate : I → Except EmosaError Unit
  target : Vault I → I → Except EmosaError Record

/-- A further BSS of the same radio. -/
structure Bss where
  role : String
  ssid : String
  secretRef : String
  deriving DecidableEq, Repr

structure Intent where
  podId : String
  radioId : String
  bssId : String
  ssid : String
  secretRef : String
  enabled : Bool := true
  securityMode : String := "wpa2-psk"
  additional : Option (List Bss) := none
  deriving DecidableEq, Repr

/-- 1 to 32 UTF-8 octets, none of them NUL. -/
def validSsid (ssid : String) : Bool :=
  1 ≤ ssid.utf8ByteSize && ssid.utf8ByteSize ≤ 32 && !ssid.toList.contains (Char.ofNat 0)

def checkAdditional (additional : List Bss) : Except EmosaError Unit :=
  if additional.length > 7 then
    .error ⟨.invalidInput, "at most seven additional BSSes"⟩
  else if additional.any fun b =>
      !(b.role == "fronthaul" || b.role == "backhaul") || !validSsid b.ssid || b.secretRef == "" then
    .error ⟨.invalidInput, "invalid additional BSS"⟩
  else .ok ()

/-- Sorted role, SSID and key fingerprint of the further BSSes. -/
def additionalTarget {I : Type} (additional : List Bss) (vault : Vault I) :
    Except EmosaError (List (List String)) := do
  let rows ← additional.mapM fun b => do
    let secret ← vault.resolve b.secretRef
    return [b.role, b.ssid, vault.fingerprint secret]
  return rows.mergeSort fun a b => decide (a ≤ b)

namespace Intent

def validate (i : Intent) : Except EmosaError Unit :=
  if !validSsid i.ssid then
    .error ⟨.invalidInput, "SSID must contain 1–32 UTF-8 bytes, no NUL"⟩
  else do
    if let some additional := i.additional then checkAdditional additional
    if i.securityMode ≠ "wpa2-psk" ∨ i.enabled ≠ true then
      .error ⟨.unsupportedOperation, "only enabled existing WPA2-PSK APs"⟩
    else if i.podId = "" ∨ i.radioId = "" ∨ i.bssId = "" ∨ i.secretRef = "" then
      .error ⟨.invalidInput, "explicit resource and secret references required"⟩
    else .ok ()

def target (vault : Vault Intent) (i : Intent) : Except EmosaError Record := do
  i.validate
  let secret ← vault.resolve i.secretRef
  let bss : Record := ((((∅ : Record).set "ssid" (.str i.ssid)).set "enabled" (.bool i.enabled)).set
    "mode" (.str "ap")).set "security_mode" (.str i.securityMode)
  let bss := bss.set "credential_fingerprint" (.str (vault.fingerprint secret))
  match i.additional with
  | none => return bss
  | some additional => return bss.set "additional" (.rows (← additionalTarget additional vault))

/-- The contract's pattern of a secret reference. The pattern's end also matches before a final
line break. -/
def secretRefMatches (s : String) : Bool :=
  let chars := if s.toList.getLast? = some '\n' then s.toList.dropLast else s.toList
  match chars with
  | [] => false
  | c :: rest => c.isAlphanum && rest.length ≤ 95 &&
      rest.all fun c => c.isAlphanum || c == '_' || c == '.' || c == '-'

def named (s : String) : Bool := 1 ≤ s.length && s.length ≤ 128

/-- The contract's check of the record of an `Intent`. -/
def wellFormed (i : Intent) : Bool :=
  named i.podId && named i.radioId && named i.bssId &&
  (1 ≤ i.ssid.length && i.ssid.length ≤ 32) && secretRefMatches i.secretRef &&
  (i.securityMode == "wpa2-psk" || i.securityMode == "wpa3-sae") &&
  match i.additional with
  | none => true
  | some l => l.length ≤ 7 && l.all fun b =>
      (b.role == "fronthaul" || b.role == "backhaul") &&
      (1 ≤ b.ssid.length && b.ssid.length ≤ 32) && secretRefMatches b.secretRef

instance : IntentType Intent where
  podId := Intent.podId
  radioId i := some i.radioId
  bssId i := some i.bssId
  wellFormed := wellFormed
  validate := validate
  target := target

end Intent

structure Observation where
  values : Record
  source : String
  receivedAt : String
  fresh : Bool
  provenance : String
  revision : Int := 0

/-- Every target value is the one in `values` (`_matches`; a missing one reads as null). -/
def configMatches (values target : Record) : Bool :=
  target.entries.all fun e => ((values.get? e.1).getD .null).equal e.2

def Observation.satisfies (o : Observation) (target : Record) : Bool :=
  o.fresh && target.entries.all fun e => (o.values.get? e.1).any (·.equal e.2)

structure Snapshot where
  config : Record
  observed : Observation
  ready : Bool
  generation : Int
  schemaFingerprint : String
  /-- Which start of the pod's OpenSync, when known. -/
  instanceId : Option String := none

/-- The start a snapshot names; an empty name is none. -/
def Snapshot.start? (snap : Snapshot) : Option String := snap.instanceId.filter (· ≠ "")

inductive SubmitStatus where
  | committed
  | conflict
  | rejected
  | unknown
  deriving DecidableEq, Repr

structure SubmitResult where
  status : SubmitStatus
  evidence : Record
  reason : Option String := none

structure Attempt where
  attemptId : String
  transactionId : String
  sessionGeneration : Int
  deriving DecidableEq, Repr

structure Operation (I : Type) where
  operationId : String
  runId : String
  requestSource : String
  initiatingInterface : String
  intent : I
  intentFingerprint : String
  idempotencyKey : String
  deadlineAt : ℚ
  state : State := .requested
  reason : Option String := none
  schemaFingerprint : Option String := none
  attempts : List Attempt := []
  commitEvidence : Record := (∅ : Record).set "attribution" (.str "not_submitted")
  applicationEvidence : Option Record := none
  changed : Option Bool := none
  deadlineElapsed : Bool := false
  originalOutcome : Option State := none
  lateResolution : Option String := none
  blockedForResubmission : Bool := false
  plan : Option Record := none

namespace Operation

variable {I : Type} [IntentType I]

def podId (op : Operation I) : String := IntentType.podId op.intent

/-- The journal contract's check of the record (`validate("operation", ..)`). -/
def valid (op : Operation I) : Bool :=
  op.operationId ≠ "" && op.runId ≠ "" && op.requestSource ≠ "" && op.initiatingInterface ≠ "" &&
  op.idempotencyKey ≠ "" && IntentType.wellFormed op.intent &&
  (op.attempts.all fun a => a.attemptId ≠ "" && a.transactionId ≠ "" && 1 ≤ a.sessionGeneration) &&
  match op.commitEvidence.get? "attribution" with
  | some (.str s) => s == "not_submitted" || s == "unknown" || s == "reply"
  | _ => false

end Operation

end Emosa
