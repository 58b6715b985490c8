import Emosa.Engine.Basic
import Emosa.Fleet.Secrets
import Emosa.Wire.WscExchange

/-!
# Emosa.Wire.Bridge

`WscComponentBridge`: one WSC exchange into at most one journaled operation. The passphrases of the
M2 set are stored first, each under a reference of its own; then the operation that names them is
planned and journaled. A call waits three times, for the source's context, for the plan and for the
context again; meanwhile the rest of the agent goes on (`Step.elsewhere`). Every step of a call may
raise, that of its handler too, and its journaling may be interrupted after any number of its commits.

The scope's intent is any type with `Carrier`: `Intent` for a radio with a primary BSS, `RadioIntent`
for a further radio.
-/

namespace Emosa

/-- The BSSes a further radio serves from its own M2 set. -/
structure RadioIntent where
  podId : String
  radioId : String
  additional : List Bss := []
  deriving DecidableEq, Repr

namespace RadioIntent

def validate (i : RadioIntent) : Except EmosaError Unit :=
  if i.podId = "" ∨ i.radioId = "" then
    .error ⟨.invalidInput, "explicit pod and radio references required"⟩
  else checkAdditional i.additional

def target (vault : Vault RadioIntent) (i : RadioIntent) : Except EmosaError Record := do
  i.validate
  return (∅ : Record).set "additional" (.rows (← additionalTarget i.additional vault))

def wellFormed (i : RadioIntent) : Bool :=
  Intent.named i.podId && Intent.named i.radioId && i.additional.length ≤ 7 &&
  i.additional.all fun b =>
    (b.role == "fronthaul" || b.role == "backhaul") &&
    (1 ≤ b.ssid.length && b.ssid.length ≤ 32) && Intent.secretRefMatches b.secretRef

instance : IntentType RadioIntent where
  podId := RadioIntent.podId
  radioId i := some i.radioId
  bssId _ := none
  wellFormed := wellFormed
  validate := validate
  target := target

end RadioIntent

namespace Handover

open Durable Wsc
open Wire (Bytes Message)

structure ComponentTarget where
  podId : String
  radioId : String
  bssId : String
  deriving DecidableEq, Repr

/-- An intent an M2 set is handed over as. `primary`: the scope has a BSS of its own, besides the
further ones. -/
class Carrier (I : Type) [IntentType I] where
  primary : Bool
  make : ComponentTarget → (ssid ref : String) → Option (List Bss) → I
  /-- The secret references it names. -/
  refs : I → List String
  podId_make : ∀ t ssid ref additional, IntentType.podId (make t ssid ref additional) = t.podId
  refs_make : ∀ t ssid ref additional, refs (make t ssid ref additional) =
    (if primary then [ref] else []) ++ (additional.getD []).map Bss.secretRef
  length_refs : ∀ i, IntentType.wellFormed i = true → (refs i).length ≤ 8

instance : Carrier Intent where
  primary := true
  make t ssid ref additional := ⟨t.podId, t.radioId, t.bssId, ssid, ref, true, "wpa2-psk", additional⟩
  refs i := i.secretRef :: (i.additional.getD []).map Bss.secretRef
  podId_make _ _ _ _ := rfl
  refs_make _ _ _ _ := rfl
  length_refs i hi := by
    have hlen : (i.additional.getD []).length ≤ 7 := by
      cases hadd : i.additional with
      | none => simp
      | some l =>
        simp only [IntentType.wellFormed, Intent.wellFormed, hadd, Bool.and_eq_true,
          decide_eq_true_eq] at hi
        exact hi.2.1
    rw [List.length_cons, List.length_map]
    omega

instance : Carrier RadioIntent where
  primary := false
  make t _ _ additional := ⟨t.podId, t.radioId, additional.getD []⟩
  refs i := i.additional.map Bss.secretRef
  podId_make _ _ _ _ := rfl
  refs_make _ _ _ _ := rfl
  length_refs i hi := by
    simp only [IntentType.wellFormed, RadioIntent.wellFormed, Bool.and_eq_true,
      decide_eq_true_eq] at hi
    rw [List.length_map]
    omega

/-! ## Secrets -/

abbrev Secrets := Dict String String

/-- `isprintable` of an ASCII text. -/
def printable (value : String) : Bool := value.toList.all fun c => 0x20 ≤ c.toNat && c.toNat ≤ 0x7E

def usable (value : String) : Bool := 8 ≤ value.length && value.length ≤ 63 && printable value

/-- A whole match of `wsc-[a-f0-9]{32}(-[1-7])?`. -/
def isReceived (ref : String) : Bool :=
  match ref.toList with
  | 'w' :: 's' :: 'c' :: '-' :: rest =>
    (rest.take 32).length == 32 && ((rest.take 32).all fun c => c.isDigit || ('a' ≤ c && c ≤ 'f')) &&
    match rest.drop 32 with
    | [] => true
    | ['-', d] => '1' ≤ d && d ≤ '7'
    | _ => false
  | _ => false

/-- A new reference, never replacing one. Where the store raises, it leaves nothing behind. -/
def persistReceived (raised : String → Option Exn) (secrets : Secrets) (ref value : String) :
    Except Exn Secrets :=
  if ¬ (isReceived ref = true ∧ usable value = true) then
    .error (.emosa ⟨.invalidInput, "invalid received credential reference/value"⟩)
  else if (secrets.get? ref).isSome then .error .other
  else
    match raised ref with
    | some e => .error e
    | none => .ok (secrets.set ref value)

def forget (secrets : Secrets) (ref : String) : Secrets :=
  if Fleet.isReference ref then secrets.erase ref else secrets

/-- Removes the references one after another; a removal that raises ends it. -/
def forgetAll (raised : String → Option Exn) : List String → Secrets → Option Exn × Secrets
  | [], secrets => (none, secrets)
  | ref :: rest, secrets =>
    match if Fleet.isReference ref then raised ref else none with
    | some e => (some e, secrets)
    | none => forgetAll raised rest (forget secrets ref)

def resolve (secrets : Secrets) (ref : String) : Except EmosaError String :=
  if Fleet.isReference ref = false then .error ⟨.invalidInput, "invalid secret reference"⟩
  else
    match secrets.get? ref with
    | none => .error ⟨.missingPrerequisite, "secret reference unavailable"⟩
    | some value =>
      if usable value then .ok value
      else .error ⟨.invalidInput, "qualified PSK is 8–63 printable ASCII bytes"⟩

/-- The keyed fingerprints of the store. -/
structure Fingerprints (I : Type) where
  fingerprint : String → String
  fingerprintIntent : I → Record → String

/-! ## The set -/

/-- The BSSes of the set that have a slot: each role fills its slots in the order received. -/
def fit : (Role → Nat) → List (Role × ExistingBssCandidate) → List (Role × ExistingBssCandidate)
  | _, [] => []
  | free, p :: rest =>
    if 0 < free p.1 then p :: fit (Function.update free p.1 (free p.1 - 1)) rest else fit free rest

/-- A backend without a profile takes the whole set. -/
def fitted (slots : Option (List Role)) (pairs : List (Role × ExistingBssCandidate)) :
    List (Role × ExistingBssCandidate) :=
  match slots with
  | none => pairs
  | some roles => fit (fun role => roles.count role) pairs

structure ScopeContext where
  generation : Nat
  schemaFingerprint : String
  bindingToken : String
  deriving DecidableEq, Repr

structure BridgeSetup where
  exchange : WscSetup
  exchangeId : String
  target : ComponentTarget
  slots : Option (List Role)
  runId : String
  deadline : ℚ := 30
  processId : String

def hexBytes (value : Bytes) : String :=
  String.ofList (value.flatMap fun b => [Nat.digitChar (b.toNat / 16), Nat.digitChar (b.toNat % 16)])

namespace BridgeSetup

variable (u : BridgeSetup)

def ref : String := "wsc-" ++ u.exchangeId

def source : String := "wsc-component:" ++ hexBytes u.exchange.binding.controllerAl

def extra (n : Nat) : String := s!"{u.ref}-{n}"

/-- The further BSSes of a result. A radio without a primary BSS fits its first fronthaul BSS with
the others. -/
def pairs (primary : Bool) (result : ExchangeResult) : List (Role × ExistingBssCandidate) :=
  fitted u.slots
    (if primary then result.additional else (.fronthaul, result.candidate) :: result.additional)

def receipt : Receipt where
  processId := u.processId
  exchangeId := u.exchangeId
  controllerAl := hexBytes u.exchange.binding.controllerAl
  podId := u.target.podId
  radioId := u.target.radioId
  bssId := u.target.bssId

/-- Stores the passphrases of the further BSSes from the `n`th on. With an exception come the
references stored before it. -/
def persistExtras (raised : String → Option Exn) :
    Nat → List (Role × ExistingBssCandidate) → Secrets → List String →
      Except Exn (List Bss) × Secrets × List String
  | _, [], secrets, refs => (.ok [], secrets, refs)
  | n, (role, candidate) :: rest, secrets, refs =>
    match persistReceived raised secrets (u.extra n) candidate.passphrase with
    | .error e => (.error e, secrets, refs)
    | .ok secrets =>
      let out := persistExtras raised (n + 1) rest secrets (refs ++ [u.extra n])
      (out.1.map (⟨role.name, candidate.ssid, u.extra n⟩ :: ·), out.2)

end BridgeSetup

/-! ## The bridge -/

/-- Where a call of `receive` waits. `before`: the secrets as they would be without it. -/
inductive Task (I : Type) where
  | authority (message : Message) (ingress : String) (generation : Nat) (before : Secrets)
  | planning (intent : I) (refs : List String) (before : Secrets)
  | confirming (intent : I) (refs : List String) (before : Secrets)

def Task.isPlanning {I : Type} : Task I → Bool
  | .planning _ _ _ => true
  | .authority _ _ _ _ | .confirming _ _ _ => false

/-- The bridge and the agent around it. The last two fields are not the program's: the M2 set that
was accepted, and how many operations the bridge journaled. -/
structure World (I δ : Type) where
  exchange : WscExchange δ := {}
  context : Option ScopeContext := none
  operationId : Option String := none
  task : Option (Task I) := none
  secrets : Secrets
  engine : Engine
  journal : Journal I
  m2 : Option ExchangeResult := none
  adds : Nat := 0

/-- A request that is stopped after some of its commits. -/
structure Interrupt where
  commits : Nat
  raised : Exn
  memory : Engine

/-- What a call's handler meets itself: exceptions of the journal's lookup and of the removal of a
reference. -/
structure Handler where
  lookup : Option Exn := none
  removal : String → Option Exn := fun _ => none

/-- What ends a wait, and what the step after it meets: the source's context, the plan, the store's
exceptions, the clocks, the ID drawn for the operation, an interruption of the request, and the
handler's own exceptions. -/
structure Turn where
  context : Except Exn ScopeContext
  plan : Except Exn Unit := .ok ()
  raised : String → Option Exn := fun _ => none
  now : ℚ
  utc : ℚ
  monotonic : ℚ
  operationId : String
  interrupt : Option Interrupt := none
  handler : Handler := {}

/-- A call that ended, or that waits. -/
inductive Outcome (I : Type) where
  | ended (result : Except Exn (Operation I))
  | waits

section Program

variable {I δ : Type} [IntentType I] [Carrier I] [DecidableEq δ]
variable (sha256 : Bytes → δ) (fps : Fingerprints I) (u : BridgeSetup)

def notReady (message : String) : Exn := .emosa ⟨.notReady, message⟩

/-- What `_bound` checks before it asks for the context. -/
def sameProcess (w : World I δ) : Except Exn Unit :=
  if w.engine.processId = u.processId then .ok ()
  else .error (notReady "component belongs to a previous adapter process")

/-- The context a wait ended with is the exchange's. A gap ends its authority. -/
def bound (w : World I δ) (t : Turn) : Except Exn ScopeContext × WscExchange δ :=
  match t.context with
  | .error e => (.error e, w.exchange.close)
  | .ok current =>
    let x := w.exchange.live u.exchange t.now
    if x.phase = .closed then
      (.error (notReady "exchange closed; restart discovery with fresh M1"), x)
    else if current.generation < 1 ∨ current.schemaFingerprint = "" ∨ current.bindingToken = "" ∨
        (w.context.isSome ∧ w.context ≠ some current) then
      (.error (notReady "component source binding changed"), x.close)
    else (.ok current, x)

/-- What the handler makes of the stored credentials, and the exception that ends it. A credential is
never removed if its operation was committed. -/
def cleanUp (w : World I δ) (h : Handler) (created : Bool) (refs : List String) :
    Option Exn × World I δ :=
  if created = true ∧ w.operationId = none then
    match h.lookup with
    | some e => (some e, w)
    | none =>
      match w.journal.lookup u.source u.target.podId u.exchangeId with
      | none =>
        let (e, secrets) := forgetAll h.removal refs w.secrets
        (e, { w with secrets := secrets })
      | some existing => (none, { w with operationId := some existing.operationId })
  else (none, w)

/-- The call's handler. Where it raises itself, the exchange stays open. -/
def fail (w : World I δ) (h : Handler) (created authenticated : Bool) (refs : List String) (e : Exn) :
    Outcome I × World I δ :=
  match cleanUp u w h created refs with
  | (some e, w) => (.ended (.error e), { w with task := none })
  | (none, w) =>
    let w := if authenticated = true ∧ w.operationId = none then
      { w with exchange := w.exchange.close } else w
    (.ended (.error e), { w with task := none })

/-- The intent, with its credentials stored: the call waits for the plan. -/
def awaitPlan (w : World I δ) (result : ExchangeResult) (additional : Option (List Bss))
    (refs : List String) (before : Secrets) : Outcome I × World I δ :=
  let intent := Carrier.make u.target result.candidate.ssid u.ref additional
  (.waits, { w with task := some (.planning intent refs before) })

/-- Stores the credentials of an authenticated set. -/
def persist (w : World I δ) (result : ExchangeResult) (t : Turn) (before : Secrets) :
    Outcome I × World I δ :=
  let primary := Carrier.primary I
  match if primary then persistReceived t.raised w.secrets u.ref result.candidate.passphrase
    else .ok w.secrets with
  | .error e => fail u w t.handler false true [u.ref] e
  | .ok secrets =>
    let refs := if primary then [u.ref] else []
    if u.exchange.multiBss then
      match u.persistExtras t.raised 1 (u.pairs primary result) secrets refs with
      | (.error e, secrets, refs) => fail u { w with secrets := secrets } t.handler true true refs e
      | (.ok additional, secrets, refs) =>
        awaitPlan u { w with secrets := secrets } result (some additional) refs before
    else awaitPlan u { w with secrets := secrets } result none refs before

/-- The set is authenticated: it is handed over, unless it was. -/
def authenticated (w : World I δ) (result : ExchangeResult) (t : Turn) (before : Secrets) :
    Outcome I × World I δ :=
  match w.operationId with
  | some id =>
    match w.journal.get? id with
    | some op => (.ended (.ok op), { w with task := none })
    | none => fail u w t.handler false true [] (.emosa ⟨.notFound, "operation not found"⟩)
  | none => persist u w result t before

def afterAuthority (w : World I δ) (message : Message) (ingress : String) (generation : Nat)
    (before : Secrets) (t : Turn) : Outcome I × World I δ :=
  match bound u w t with
  | (.error e, x) => fail u { w with exchange := x } t.handler false false [] e
  | (.ok _, x) =>
    match x.receive sha256 u.exchange t.now message ingress generation with
    | (.error e, x) => fail u { w with exchange := x } t.handler false false [] (.emosa e)
    | (.ok result, x) =>
      let m2 := if result.duplicate then w.m2 else some result
      authenticated u { w with exchange := x, m2 := m2 } result t before

def requestOf (intent : I) (t : Turn) : Engine.Request I where
  operationId := t.operationId
  intent := intent
  source := u.source
  key := u.exchangeId
  runId := u.runId
  deadline := u.deadline
  initiatingInterface := "wsc-component"
  wscReceipt := some u.receipt

def envOf (w : World I δ) (t : Turn) : Env I where
  vault := ⟨resolve w.secrets, fps.fingerprint, fps.fingerprintIntent⟩
  utc := t.utc
  monotonic := t.monotonic

def ran (w : World I δ) (intent : I) (t : Turn) :
    Except Exn (Operation I) × Engine × List (Write I) :=
  let p : Proc Engine (Journal I) (Write I) := ⟨w.engine, w.journal, []⟩
  match Engine.requestInternal (envOf fps w t) (requestOf u intent t) p with
  | .ok op p => (.ok op, p.memory, p.written)
  | .error e p => (.error e, p.memory, p.written)

def requested (w : World I δ) (intent : I) (t : Turn) :
    Except Exn (Operation I) × Engine × List (Write I) :=
  let out := ran fps u w intent t
  match t.interrupt with
  | none => out
  | some i => (.error i.raised, i.memory, out.2.2.take i.commits)

def isAdd : Write I → Bool
  | .add _ _ => true
  | .save _ | .conflict _ _ | .release _ => false

/-- The operation is journaled, and the call returns it. -/
def journal (w : World I δ) (intent : I) (refs : List String) (t : Turn) : Outcome I × World I δ :=
  let (result, memory, commits) := requested fps u w intent t
  let w := { w with
    engine := memory
    journal := replay w.journal commits
    adds := w.adds + commits.countP isAdd }
  match result with
  | .error e => fail u w t.handler true true refs e
  | .ok op =>
    (.ended (.ok op), { w with
      operationId := some op.operationId
      engine := { w.engine with wscGuards := op.operationId :: w.engine.wscGuards }
      task := none })

def afterConfirmed (w : World I δ) (intent : I) (refs : List String) (t : Turn) :
    Outcome I × World I δ :=
  match bound u w t with
  | (.error e, x) => fail u { w with exchange := x } t.handler true true refs e
  | (.ok _, x) => journal fps u { w with exchange := x } intent refs t

def resume (w : World I δ) (t : Turn) : Outcome I × World I δ :=
  match w.task with
  | none => (.waits, w)
  | some (.authority message ingress generation before) =>
    afterAuthority sha256 u w message ingress generation before t
  | some (.planning intent refs before) =>
    match t.plan, sameProcess u w with
    | .error e, _ | .ok _, .error e => fail u w t.handler true true refs e
    | .ok _, .ok _ => (.waits, { w with task := some (.confirming intent refs before) })
  | some (.confirming intent refs _) => afterConfirmed fps u w intent refs t

def receive (w : World I δ) (message : Message) (ingress : String) (generation : Nat) :
    Outcome I × World I δ :=
  if w.task.isSome then (.ended (.error (.emosa ⟨.busy, "one WSC component handoff at a time"⟩)), w)
  else
    match u.exchange.binding.check message ingress generation with
    | .error e => fail u w {} false false [] (.emosa e)
    | .ok _ =>
      if w.context = none then fail u w {} false false [] (notReady "component has not sent M1")
      else
        match sameProcess u w with
        | .error e => fail u w {} false false [] e
        | .ok _ => (.waits, { w with task := some (.authority message ingress generation w.secrets) })

/-- `start`: the context is taken and M1 sent, or the exchange ends. -/
def start (w : World I δ) (t : Turn) (sent : Bool) : World I δ :=
  match sameProcess u w, bound u w t with
  | .error _, _ => w
  | .ok _, (.error _, x) => { w with exchange := x }
  | .ok _, (.ok context, x) =>
    match x.request u.exchange t.now with
    | (.error _, x) => { w with context := some context, exchange := x.close }
    | (.ok _, x) => { w with context := some context, exchange := if sent then x else x.close }

/-! ## Runs -/

def edit (secrets : Secrets) (e : String × Option String) : Secrets :=
  match e.2 with
  | some value => secrets.set e.1 value
  | none => secrets.erase e.1

def Task.edited (edits : List (String × Option String)) : Task I → Task I
  | .authority message ingress generation before =>
    .authority message ingress generation (edits.foldl edit before)
  | .planning intent refs before => .planning intent refs (edits.foldl edit before)
  | .confirming intent refs before => .confirming intent refs (edits.foldl edit before)

inductive Step (I : Type) where
  | start (t : Turn) (sent : Bool)
  | receive (message : Message) (ingress : String) (generation : Nat)
  | resume (t : Turn)
  | close
  /-- The rest of the agent. -/
  | elsewhere (edits : List (String × Option String)) (engine : Engine) (journal : Journal I)

/-- A step, and the outcome of the call it makes or resumes. -/
def act (w : World I δ) : Step I → Outcome I × World I δ
  | .start t sent => (.waits, start u w t sent)
  | .receive message ingress generation => receive u w message ingress generation
  | .resume t => resume sha256 fps u w t
  | .close => (.waits, { w with exchange := w.exchange.close })
  | .elsewhere edits engine journal =>
    (.waits, { w with
      secrets := edits.foldl edit w.secrets
      engine := engine
      journal := journal
      task := w.task.map (Task.edited edits) })

def step (w : World I δ) (s : Step I) : World I δ := (act sha256 fps u w s).2

end Program

end Handover
end Emosa
