import Mathlib.Data.List.Sort
import Emosa.Lib.Dict
import Emosa.Wire.Cmdu

/-!
# Emosa.Wire.WscRadio

The M2 payload set of one radio, decoded: each message authenticated and decrypted under the M1
transcript, then the roles and settings of its BSSes, and what of them the agent can map.

The cryptography is the transcript's: `M1Transcript.authenticate` verifies and decrypts one message,
or refuses it.

* `decodeRadioPayloads`: the set as a whole, or nothing of it.
* `RadioPayloadSet.radioCandidates`, `existingFronthaulCandidate`: the mappings of the two scopes.
-/

namespace Emosa.Wsc

open Wire (Bytes)

structure Attribute where
  kind : Nat
  value : Bytes
  deriving DecidableEq, Repr

def invalidMessage {α : Type} : Except EmosaError α :=
  .error ⟨.invalidInput, "invalid WSC message payload"⟩

/-! ## Attributes -/

def vendorExtension : Nat := 0x1049
def publicKey : Nat := 0x1032
def wfaId : Bytes := [0x00, 0x37, 0x2A]
def maxVendorSubelements : Nat := 4096

/-- The subelements of one extension, from the current offset on, after those found before. -/
def subelementsFrom (found : List Attribute) (rest : Bytes) : Except EmosaError (List Attribute) :=
  match rest with
  | [] => .ok found
  | kind :: length :: rest =>
    if rest.length < length.toNat then invalidMessage
    else if found.length = maxVendorSubelements then invalidMessage
    else subelementsFrom (found ++ [⟨kind.toNat, rest.take length.toNat⟩]) (rest.drop length.toNat)
  | _ => invalidMessage
termination_by rest.length
decreasing_by
  simp only [List.length_drop, List.length_cons]
  omega

/-- Other vendors' extensions stay as they are. -/
def vendorSubelements (attributes : List Attribute) : Except EmosaError (List Attribute) :=
  attributes.foldlM (fun found a =>
    if a.kind ≠ vendorExtension then .ok found
    else if ¬ (4 ≤ a.value.length ∧ a.value.length ≤ 1024) then invalidMessage
    else if a.value.take 3 ≠ wfaId then .ok found
    else subelementsFrom found (a.value.drop 3)) []

/-- A consumed attribute: its kind, the lengths it may have, and whether it must be there. -/
structure Field where
  kind : Nat
  shortest : Nat
  longest : Nat
  required : Bool := true

/-- The consumed fields of a list of attributes, each at most once. -/
def singletons (lengths : List Field) (attributes : List Attribute) :
    Except EmosaError (Dict Nat Bytes) := do
  let fields ← attributes.foldlM (fun (fields : Dict Nat Bytes) a =>
    match lengths.find? (·.kind = a.kind) with
    | none => .ok fields
    | some f =>
      if (fields.get? a.kind).isSome then invalidMessage
      else if ¬ (f.shortest ≤ a.value.length ∧ a.value.length ≤ f.longest) then invalidMessage
      else .ok (fields.set a.kind a.value)) ∅
  if lengths.any fun f => f.required && (fields.get? f.kind).isNone then invalidMessage
  else .ok fields

def fromBytes (value : Bytes) : Nat := value.foldl (fun n b => n * 256 + b.toNat) 0

structure ApSettings where
  ssid : Bytes
  authenticationType : Nat
  encryptionType : Nat
  networkKey : Bytes
  macAddress : Bytes
  attributes : List Attribute
  deriving DecidableEq, Repr

def apSettingsFields : List Field :=
  [⟨0x1045, 0, 32, true⟩, ⟨0x1003, 2, 2, true⟩, ⟨0x100F, 2, 2, true⟩, ⟨0x1027, 0, 64, true⟩,
    ⟨0x1020, 6, 6, true⟩, ⟨0x1028, 1, 1, false⟩, ⟨0x102A, 0, 64, false⟩, ⟨0x1012, 2, 2, false⟩]

def ApSettings.parse (attributes : List Attribute) : Except EmosaError ApSettings := do
  let settings ← singletons apSettingsFields attributes
  let value := fun kind => (settings.get? kind).getD []
  if (settings.get? 0x102A).isSome ∧ (settings.get? 0x1012).isNone then invalidMessage
  else
    return {
      ssid := value 0x1045
      authenticationType := fromBytes (value 0x1003)
      encryptionType := fromBytes (value 0x100F)
      networkKey := value 0x1027
      macAddress := value 0x1020
      attributes := attributes }

/-! ## Envelopes -/

/-- A message that verified under the transcript, with its decrypted settings. -/
structure Envelope where
  registrarNonce : Bytes
  bssIndex : Option Nat
  configData : List Attribute
  attributes : List Attribute
  deriving DecidableEq, Repr

structure M1Transcript where
  authenticate : Bytes → Except EmosaError Envelope
  /-- The types M1 advertises. -/
  authenticationTypes : Nat
  encryptionTypes : Nat

def maxM2Payloads : Nat := 16

def M1Transcript.authenticateM2Envelopes (t : M1Transcript) (messages : List Bytes) (maxBss : Nat)
    (sharedSession : Bool) : Except EmosaError (List Envelope) :=
  if ¬ (1 ≤ maxBss ∧ maxBss ≤ maxM2Payloads) then invalidMessage
  else if ¬ (1 ≤ messages.length ∧ messages.length ≤ maxBss) then invalidMessage
  else do
    let results ← messages.mapM t.authenticate
    let nonces := results.map Envelope.registrarNonce
    let indexes := results.filterMap Envelope.bssIndex
    let publics := ((results.flatMap Envelope.attributes).filter (·.kind = publicKey)).map (·.value)
    -- One registrar session over the whole set, or one for each message.
    if sharedSession = true ∧
        (nonces.dedup.length ≠ 1 ∨ publics.dedup.length ≠ 1 ∨ ¬ messages.Nodup) then invalidMessage
    else if sharedSession = false ∧ ¬ nonces.Nodup then invalidMessage
    else if ¬ indexes.Nodup then invalidMessage
    else .ok results

/-! ## The set -/

def multiAp : Nat := 0x06
def backhaulSta : Nat := 0x80
def backhaulBss : Nat := 0x40
def fronthaulBss : Nat := 0x20
def teardown : Nat := 0x10
def profile1Disallowed : Nat := 0x08
def profile2Disallowed : Nat := 0x04

structure BssPayload where
  bssIndex : Option Nat
  multiApFlags : Nat
  settings : ApSettings
  deriving DecidableEq, Repr

/-- What is to be configured, without a binding to a pod's radio. -/
structure ExistingBssCandidate where
  ssid : String
  passphrase : String
  bssIndex : Option Nat
  deriving DecidableEq, Repr

inductive Action where
  | configure | teardown
  deriving DecidableEq, Repr

structure RadioPayloadSet where
  action : Action
  bsses : List BssPayload
  advertisedAuthenticationTypes : Nat
  advertisedEncryptionTypes : Nat
  deriving DecidableEq, Repr

inductive Role where
  | fronthaul | backhaul
  deriving DecidableEq, Repr

def Role.name : Role → String
  | .fronthaul => "fronthaul"
  | .backhaul => "backhaul"

def unsupportedScope : String := "radio WSC payload set exceeds existing fronthaul PSK scope"

def unsupported {α : Type} : Except EmosaError α := .error ⟨.unsupportedOperation, unsupportedScope⟩

def unsupportedFor {α : Type} (detail : String) : Except EmosaError α :=
  .error ⟨.unsupportedOperation, unsupportedScope ++ ": " ++ detail⟩

/-- A number as `0x` and at least so many hexadecimal digits. -/
def hexText (width n : Nat) : String :=
  let digits := Nat.toDigits 16 n
  "0x" ++ String.ofList (List.replicate (width - digits.length) '0' ++ digits)

/-! ## Texts -/

def continued (b : UInt8) : Bool := 0x80 ≤ b.toNat && b.toNat < 0xC0

/-- The characters of a UTF-8 text: shortest forms only, no surrogates. -/
def decodeUtf8 : Bytes → Option (List Char)
  | [] => some []
  | a :: rest =>
    if a.toNat < 0x80 then (decodeUtf8 rest).map (Char.ofNat a.toNat :: ·)
    else
      match rest with
      | b :: rest =>
        if 0xC2 ≤ a.toNat ∧ a.toNat < 0xE0 ∧ continued b then
          (decodeUtf8 rest).map (Char.ofNat ((a.toNat - 0xC0) * 64 + (b.toNat - 0x80)) :: ·)
        else
          match rest with
          | c :: rest =>
            let n := (a.toNat - 0xE0) * 4096 + (b.toNat - 0x80) * 64 + (c.toNat - 0x80)
            if 0xE0 ≤ a.toNat ∧ a.toNat < 0xF0 ∧ continued b ∧ continued c then
              if 0x800 ≤ n ∧ ¬ (0xD800 ≤ n ∧ n ≤ 0xDFFF) then
                (decodeUtf8 rest).map (Char.ofNat n :: ·)
              else none
            else
              match rest with
              | d :: rest =>
                let n := (a.toNat - 0xF0) * 262144 + (b.toNat - 0x80) * 4096 +
                  (c.toNat - 0x80) * 64 + (d.toNat - 0x80)
                if 0xF0 ≤ a.toNat ∧ continued b ∧ continued c ∧ continued d ∧ 0x10000 ≤ n ∧
                    n ≤ 0x10FFFF then
                  (decodeUtf8 rest).map (Char.ofNat n :: ·)
                else none
              | [] => none
          | [] => none
      | [] => none

def decodeAscii (value : Bytes) : Option (List Char) :=
  if value.all (·.toNat < 0x80) then some (value.map fun b => Char.ofNat b.toNat) else none

/-- One trailing NUL is a C string's terminator. -/
def withoutNul (value : Bytes) : Bytes :=
  if value.getLast? = some 0 then value.dropLast else value

namespace RadioPayloadSet

variable (s : RadioPayloadSet)

/-- The candidate of a BSS, or what of it is outside the mapping. -/
def pskCandidate (bss : BssPayload) : Except String ExistingBssCandidate :=
  let settings := bss.settings
  let extra := (settings.attributes.map Attribute.kind).filter fun k => k = 0x102A ∨ k = 0x1012
  let key := withoutNul settings.networkKey
  let rawSsid := withoutNul settings.ssid
  if settings.authenticationType ≠ 0x20 ∨ settings.encryptionType ≠ 0x08 ∨
      s.advertisedAuthenticationTypes &&& 0x20 = 0 ∨ s.advertisedEncryptionTypes &&& 0x08 = 0 then
    .error s!"authentication {hexText 4 settings.authenticationType} encryption {hexText 4 settings.encryptionType}"
  else if extra ≠ [] then
    .error ("settings attribute " ++
      ",".intercalate ((extra.insertionSort (· ≤ ·)).map (hexText 4)))
  else
    match decodeUtf8 rawSsid, decodeAscii key with
    | some ssid, some passphrase =>
      if ¬ (1 ≤ rawSsid.length ∧ rawSsid.length ≤ 32) then
        .error "SSID length outside the mapping limits"
      else if Char.ofNat 0 ∈ ssid then .error "SSID with an embedded NUL outside the mapping limits"
      else if 0 ∈ key then .error "passphrase with NUL padding outside the mapping limits"
      else if ¬ (8 ≤ key.length ∧ key.length ≤ 63) then
        .error "passphrase length outside the mapping limits"
      else if ¬ key.all (fun b => 0x20 ≤ b.toNat && b.toNat ≤ 0x7E) then
        .error "passphrase characters outside the mapping limits"
      else .ok ⟨String.ofList ssid, String.ofList passphrase, bss.bssIndex⟩
    | _, _ => .error "SSID or key encoding"

def existingFronthaulCandidate : Except EmosaError ExistingBssCandidate :=
  match s.bsses with
  | [bss] =>
    if s.action ≠ .configure ∨ bss.multiApFlags ≠ fronthaulBss then unsupported
    else
      match s.pskCandidate bss with
      | .ok candidate => .ok candidate
      | .error detail => unsupportedFor detail
  | _ => unsupported

/-- The role of a BSS. The bits for a backhaul station, and for those it does not let in, are
accepted on a backhaul BSS. -/
def roleOf (flags : Nat) : Option Role :=
  if flags = fronthaulBss then some .fronthaul
  else if flags &&& (0xFF ^^^ (profile1Disallowed ||| profile2Disallowed ||| backhaulSta)) =
      backhaulBss then some .backhaul
  else none

/-- One BSS, at its place in the set. -/
def radioCandidate (place : Nat) (bss : BssPayload) :
    Except EmosaError (Role × ExistingBssCandidate) :=
  match roleOf bss.multiApFlags with
  | none => unsupportedFor s!"BSS {place}: Multi-AP role {hexText 2 bss.multiApFlags}"
  | some role =>
    match s.pskCandidate bss with
    | .ok candidate => .ok (role, candidate)
    | .error detail => unsupportedFor s!"BSS {place} ({role.name}): {detail}"

def radioCandidates : Except EmosaError (List (Role × ExistingBssCandidate)) :=
  if s.action ≠ .configure ∨ s.bsses = [] then unsupported
  else do
    let pairs ← s.bsses.zipIdx.mapM fun b => s.radioCandidate b.2 b.1
    if pairs.any (·.1 = .fronthaul) then .ok pairs else unsupported

end RadioPayloadSet

def invalidSet {α : Type} : Except EmosaError α :=
  .error ⟨.invalidInput, "invalid radio WSC payload set"⟩

/-- The role bits of one message: inside the encrypted settings, once, and nowhere else. -/
def roleFlags (envelope : Envelope) : Except EmosaError Nat := do
  let outside ← vendorSubelements envelope.attributes
  if outside.any (·.kind = multiAp) then invalidSet
  else do
    let inside ← vendorSubelements envelope.configData
    match (inside.filter (·.kind = multiAp)).map (·.value) with
    | [[flags]] => .ok (flags.toNat &&& 0xFC)
    | _ => invalidSet

/-- Every message is authenticated before any role is read. -/
def decodeRadioPayloads (t : M1Transcript) (messages : List Bytes) (maxBss : Nat)
    (sharedSession : Bool) : Except EmosaError RadioPayloadSet := do
  let envelopes ← t.authenticateM2Envelopes messages maxBss sharedSession
  let roles ← envelopes.mapM roleFlags
  if roles.any (· &&& teardown ≠ 0) then
    if envelopes.length ≠ 1 then invalidSet
    else .ok ⟨.teardown, [], t.authenticationTypes, t.encryptionTypes⟩
  else do
    let bsses ← (envelopes.zip roles).mapM fun e => do
      let settings ← ApSettings.parse e.1.configData
      return ⟨e.1.bssIndex, e.2, settings⟩
    return ⟨.configure, bsses, t.authenticationTypes, t.encryptionTypes⟩

end Emosa.Wsc
