import Emosa.Engine.Drive
import Emosa.Lib.Log
import Emosa.Wire.Bridge

/-!
# Emosa.Wire.Onboarding

`OnboardingSession`: one attempt of a pod's agent to come under a controller. It searches, is
admitted by a Response, sends its Early AP Capability Report and its M1, hands over the M2 set it
gets for it, and from then on reports.

Every step looks at the report source, many steps look more than once, and a look may end the
session in the middle of a step (`look`). A step's inputs are what it meets: the source and the
clocks at each of its looks, the frames it takes and the sends that raise.

The session's `log` and what its controller was told of clients (`Clients.told`) are not the
program's: they record what it did.
-/

namespace Emosa.Onboarding

open Durable
open Wire (Bytes Message)
open Handover (BridgeSetup Carrier notReady)

/-! ## The source -/

inductive State where
  | waitingSource
  | discovering
  | admitting
  | awaitingM2
  | provisioning
  | closed
  | sourceLost
  | failed
  | incompatible
  deriving DecidableEq, Repr

/-- The states in which the session takes nothing any more. -/
def State.isOver : State → Bool
  | .closed | .sourceLost | .failed | .incompatible => true
  | .waitingSource | .discovering | .admitting | .awaitingM2 | .provisioning => false

inductive MessageSet where
  | r1
  | easymesh61
  deriving DecidableEq, Repr

structure OperatingClass where
  operatingClass : Nat
  maxEirp : Nat
  nonOperableChannels : List Nat
  deriving DecidableEq, Repr

/-- A radio's capabilities. `other`: its HT, advanced, VHT, HE and EHT capabilities, as encoded. -/
structure Radio where
  ruid : Bytes
  maxBss : Nat
  operatingClasses : List OperatingClass
  other : Bytes
  deriving DecidableEq

/-- `device`: the capabilities of the device itself, as encoded. -/
structure Capabilities where
  radios : List Radio
  device : Bytes
  deriving DecidableEq

def Radio.identity (r : Radio) : Radio :=
  { r with operatingClasses := r.operatingClasses.map fun c => { c with nonOperableChannels := [] } }

/-- `capabilities_identity`: all but the operable channels. -/
def Capabilities.identity (c : Capabilities) : Capabilities :=
  { c with radios := c.radios.map Radio.identity }

def operableChannelsMoved (before after : Capabilities) : List Bytes :=
  (before.radios.zip after.radios).filterMap fun (b, a) =>
    if b.operatingClasses ≠ a.operatingClasses then some a.ruid else none

structure Stamp where
  token : String
  observedAt : ℚ
  validUntil : ℚ
  deriving DecidableEq

def Stamp.check (s current : Stamp) (now : ℚ) : Bool :=
  current.token = s.token ∧ (s.observedAt ≤ now ∧ now < s.validUntil) ∧
    (current.observedAt ≤ now ∧ now < current.validUntil)

/-- A client: its BSSID and its own address. -/
abbrev Client := Bytes × Bytes

/-- What the source publishes. `operational`: the topology it observed, as encoded. -/
structure Published where
  contextToken : String
  generation : Nat
  stamp : Stamp
  capabilities : Capabilities
  operational : Bytes := []
  inventoryComplete : Bool := true
  clients : List Client := []
  deriving DecidableEq

/-- The source at one look: its binding is still the session's, what it publishes, and the clock,
read twice where it publishes nothing. -/
structure Reading where
  bound : Bool := true
  current : Option Published
  now : ℚ
  later : ℚ

/-! ## The session -/

/-- The Search of `DiscoveryExchange`. -/
inductive Phase where
  | waiting
  | received
  | closed
  deriving DecidableEq, Repr

structure Discovery where
  deadline : ℚ
  transmissions : Nat := 0
  phase : Phase := .waiting

def Discovery.timeout : ℚ := 5

def Discovery.maxTransmissions : Nat := 3

def Discovery.close (d : Discovery) : Discovery := { d with phase := .closed }

def Discovery.live (d : Discovery) (now : ℚ) : Discovery := if d.deadline ≤ now then d.close else d

/-- `_transmit`. -/
def Discovery.request (d : Discovery) (now : ℚ) : Option Discovery × Discovery :=
  let d := d.live now
  if d.phase ≠ .waiting ∨ Discovery.maxTransmissions ≤ d.transmissions then (none, d)
  else
    let d := { d with transmissions := d.transmissions + 1 }
    (some d, d)

structure ClientReannouncement where
  mark : Option Nat := none
  done : Bool := false
  deriving DecidableEq, Repr

namespace ClientReannouncement

def provisioned (r : ClientReannouncement) (responses : Nat) : ClientReannouncement :=
  if r.mark = none then { r with mark := some responses } else r

/-- The answer of `due`, which is `true` once. -/
def due (r : ClientReannouncement) (responses : Nat) : Bool :=
  !r.done && r.mark.any (· < responses)

def asked (r : ClientReannouncement) (responses : Nat) : ClientReannouncement :=
  if r.due responses then { r with done := true } else r

end ClientReannouncement

/-- The clients the session remembers, its re-announcement, the Topology Responses it sent, and the
Client Association Events it sent: `true` for a join. -/
structure Clients where
  last : List Client := []
  reannounce : ClientReannouncement := {}
  responses : Nat := 0
  told : List (Bool × Client) := []

/-- The fronthaul's WSC exchange, with the bridge it is handed over by. -/
structure Provisioning (I δ : Type) where
  setup : BridgeSetup
  world : Handover.World I δ
  closed : Bool := false

/-- What the session did. -/
inductive Event where
  | entered (s : State)
  | discovering (deadline : ℚ)
  | search (now : ℚ)
  | response (issues : List String)
  /-- The frames of an Early AP Capability Report, and those of them that were sent. -/
  | early (frames sent : List Bytes)
  | m1
  /-- A snapshot of another database generation, with what the session was before it. -/
  | wentOn (s : State) (context : String) (capabilities : Option Capabilities) (snapshot : Published)
  deriving DecidableEq

structure Setup where
  messageSet : MessageSet
  reconnectWindow : Option ℚ := none
  /-- A factory for the exchanges of further radios was given. -/
  furtherRadios : Bool := false

structure Session (I δ : Type) where
  state : State := .waitingSource
  context : Option String := none
  capabilities : Option Capabilities := none
  generation : Option Nat := none
  awaySince : Option ℚ := none
  notifyDue : Bool := false
  channelMoves : List Bytes := []
  discovery : Option Discovery := none
  nextSearch : ℚ := 0
  /-- The report coordinator exists. -/
  reports : Bool := false
  provisioning : Option (Provisioning I δ) := none
  nextRadio : Nat := 1
  radioAwaiting : Bool := false
  lastTopology : Option Bytes := none
  clients : Clients := {}
  log : List Event := []

def Provisioning.close {I δ : Type} (p : Provisioning I δ) : Provisioning I δ :=
  { p with
    closed := true
    world := { p.world with
      exchange := p.world.exchange.close
      engine := { p.world.engine with
        wscGuards := p.world.engine.wscGuards.filter fun id => some id ≠ p.world.operationId } } }

namespace Session

section Looks

variable {I δ : Type} (v : Setup)

def note (x : Session I δ) (e : Event) : Session I δ := { x with log := x.log ++ [e] }

def enter (x : Session I δ) (s : State) : Session I δ := { x with state := s }.note (.entered s)

def close (x : Session I δ) : Session I δ :=
  { x with
    discovery := x.discovery.map Discovery.close
    provisioning := x.provisioning.map Provisioning.close
    radioAwaiting := false }.enter .closed

def lost (x : Session I δ) : Session I δ := x.close.enter .sourceLost

/-- Only a provisioned session is held through its pod's reconnection and kept. -/
def keeps (x : Session I δ) : Bool := x.state = .provisioning ∧ v.reconnectWindow.isSome

/-- The snapshot's capabilities are taken over, with the radios whose operable channels moved. -/
def take (x : Session I δ) (s : Published) : Session I δ :=
  if some s.capabilities = x.capabilities then x
  else
    let moved := (x.capabilities.map (operableChannelsMoved · s.capabilities)).getD []
    { x with
      capabilities := some s.capabilities
      channelMoves := (x.channelMoves ++ moved).eraseDups }

def snapshot (x : Session I δ) (r : Reading) : Option Published × Session I δ :=
  match x.context, if r.bound then r.current else none with
  | none, published => (published, x)
  | some _, none =>
    if x.keeps v = false ∨ r.bound = false then (none, x.lost)
    else
      let since := x.awaySince.getD r.now
      let x := { x with awaySince := some since }
      if r.later < since + v.reconnectWindow.getD 0 then (none, x) else (none, x.lost)
  | some context, some s =>
    if s.contextToken ≠ context then (none, x.lost)
    else if some s.capabilities ≠ x.capabilities ∧ (x.keeps v = false ∨
        some s.capabilities.identity ≠ x.capabilities.map Capabilities.identity) then (none, x.lost)
    else if some s.generation ≠ x.generation ∨ x.awaySince.isSome then
      if x.keeps v = false then (none, (x.take s).lost)
      else (some s, { x.take s with
        generation := some s.generation
        awaySince := none
        notifyDue := true })
    else (some s, x.take s)

/-- The events of a look: the session went on with another database generation. -/
def lookEvents (x : Session I δ) (s : Published) : List Event :=
  match x.context with
  | some context =>
    if some s.generation ≠ x.generation then [.wentOn x.state context x.capabilities s] else []
  | none => []

def look (x : Session I δ) (r : Reading) : Option Published × Session I δ :=
  match x.snapshot v r with
  | (some s, x') => (some s, { x' with log := x'.log ++ x.lookEvents s })
  | (none, x') => (none, x')

/-- Looks, each of which has to give a snapshot. -/
def looked (x : Session I δ) : List Reading → Bool × Session I δ
  | [] => (true, x)
  | r :: rest =>
    match x.look v r with
    | (some _, x) => x.looked rest
    | (none, x) => (false, x)

/-- Looks whose outcomes the session does not use. -/
def watched (x : Session I δ) (rs : List Reading) : Session I δ :=
  rs.foldl (fun x r => (x.look v r).2) x

end Looks

/-! ## Sending -/

/-- A look whose stamp is compared, with the clock read after it. -/
structure Check where
  reading : Reading
  now : ℚ

/-- One frame: the check before it, whether sending it raises, and the check after it. -/
structure Attempt where
  before : Check
  raised : Bool := false
  after : Check

section Sends

variable {I δ : Type} (v : Setup)

def checked (stamp : Stamp) (x : Session I δ) (c : Check) : Bool × Session I δ :=
  match x.look v c.reading with
  | (some s, x) => (stamp.check s.stamp c.now, x)
  | (none, x) => (false, x)

/-- The frames of a message, checked before and, where `again`, after each. -/
def sendAll (again : Bool) (stamp : Stamp) (x : Session I δ) : List Attempt → Bool × Session I δ
  | [] => (true, x)
  | a :: rest =>
    match x.checked v stamp a.before with
    | (false, x) => (false, x)
    | (true, x) =>
      if a.raised then (false, x)
      else if again then
        match x.checked v stamp a.after with
        | (false, x) => (false, x)
        | (true, x) => x.sendAll again stamp rest
      else x.sendAll again stamp rest

variable {v : Setup} {P : Session I δ → Prop} (hlook : ∀ {x}, P x → ∀ r, P (x.look v r).2)
  {x : Session I δ} (h : P x)
include hlook h

/-- A session's looks keep what each of them keeps, and so do the sends, which only look. -/
theorem looked_keeps (rs : List Reading) : P (x.looked v rs).2 := by
  induction rs generalizing x with
  | nil => exact h
  | cons r rs ih =>
    have hr := hlook h r
    unfold looked
    split <;> rename_i hy <;> rw [hy] at hr
    · exact ih hr
    · exact hr

theorem watched_keeps (rs : List Reading) : P (x.watched v rs) := by
  induction rs generalizing x with
  | nil => exact h
  | cons r rs ih => exact ih (hlook h r)

theorem checked_keeps (stamp : Stamp) (c : Check) : P (x.checked v stamp c).2 := by
  have hr := hlook h c.reading
  unfold checked
  split <;> rename_i hy <;> rw [hy] at hr <;> exact hr

theorem sendAll_keeps (again : Bool) (stamp : Stamp) (frames : List Attempt) :
    P (x.sendAll v again stamp frames).2 := by
  induction frames generalizing x with
  | nil => exact h
  | cons a frames ih =>
    have hbefore := checked_keeps hlook h stamp a.before
    unfold sendAll
    split <;> rename_i y hy <;> rw [hy] at hbefore
    · exact hbefore
    · have hafter := checked_keeps hlook hbefore stamp a.after
      split_ifs
      · exact hbefore
      · split <;> rename_i z hz <;> rw [hz] at hafter
        · exact hafter
        · exact ih hafter
      · exact ih hbefore

end Sends

/-- The frames of a prepared report that are sent, and whether all are. For each one: whether the
checks before it pass and sending it does not raise, and whether the checks after it pass. -/
def sendReport : List Bytes → List (Bool × Bool) → List Bytes × Bool
  | [], _ => ([], true)
  | _ :: _, [] => ([], false)
  | frame :: frames, (sent, after) :: rest =>
    if sent = false then ([], false)
    else if after = false then ([frame], false)
    else
      let out := sendReport frames rest
      (frame :: out.1, out.2)

/-! ## Tick -/

structure RadioInput where
  /-- The factory makes the exchange, and it agrees with the reports. -/
  made : Bool
  looks : List Reading
  sent : Bool

structure TickInput where
  first : Reading
  /-- The capabilities can be encoded. -/
  capable : Bool := true
  /-- The clock where discovery begins, at its deadline's check, at the next Search's, at the
  transmission and after it. -/
  created : ℚ := 0
  now : ℚ := 0
  due : ℚ := 0
  transmitted : ℚ := 0
  searched : ℚ := 0
  search : List Attempt := []
  radio : RadioInput := ⟨true, [], true⟩
  moved : List Attempt := []
  topology : List Attempt := []
  announced : Client → List Attempt := fun _ => []

/-- How a tick ends: without a snapshot, with an exception, with the session, or at its end. -/
inductive Ticked where
  | idle
  | raised
  | ended
  | completed (s : Published)
  deriving DecidableEq

/-- Python's order of tuples of bytes. -/
def clientLe (c d : Client) : Bool :=
  let key (c : Client) : List Nat := (c.1 ++ c.2).map UInt8.toNat
  !decide (key d < key c)

/-- `sorted(clients ^ last)`. -/
def differing (clients last : List Client) : List Client :=
  (clients.dedup.filter (· ∉ last) ++ last.filter (· ∉ clients)).insertionSort
    fun c d => clientLe c d = true

/-- A client set after one that joined or left. -/
def put (set : List Client) (e : Bool × Client) : List Client :=
  if e.1 then (if e.2 ∈ set then set else set ++ [e.2]) else set.filter (· ≠ e.2)

def joined (clients : List Client) (c : Client) : Bool := c ∈ clients

section Ticks

variable {I δ : Type} (v : Setup)

def begin (x : Session I δ) (s : Published) (i : TickInput) : Option (Session I δ) :=
  if x.state ≠ .waitingSource then some x
  else if i.capable = false ∨ (s.capabilities.radios.length ≠ 1 ∧ v.furtherRadios = false) then none
  else
    let d : Discovery := { deadline := i.created + Discovery.timeout }
    some (({ x with
      context := some s.contextToken
      capabilities := some s.capabilities
      generation := some s.generation
      discovery := some d }.note (.discovering d.deadline)).enter .discovering)

def fail (x : Session I δ) : Session I δ := x.close.enter .failed

def searching (x : Session I δ) (s : Published) (i : TickInput) : Session I δ :=
  match x.state, x.discovery with
  | .discovering, some d =>
    if d.deadline ≤ i.now then x.enter .failed
    else if x.nextSearch ≤ i.due ∧ d.transmissions < 3 then
      match d.request i.transmitted with
      | (none, d) => { x with discovery := some d }.fail
      | (some _, d) =>
        match ({ x with discovery := some d }.note (.search i.transmitted)).sendAll v true s.stamp
          i.search with
        | (true, x) => { x with nextSearch := i.searched + 1 }
        | (false, x) => x.fail
    else x
  | _, _ => x

/-- `_next_radio`. -/
def startRadio (x : Session I δ) (i : RadioInput) : Session I δ :=
  if v.furtherRadios = false ∨ x.radioAwaiting = true ∨
      (x.capabilities.map (·.radios.length)).getD 0 ≤ x.nextRadio then x
  else
    let x := { x with nextRadio := x.nextRadio + 1 }
    if i.made = false then x.fail
    else
      match ({ x with radioAwaiting := true }.note .m1).looked v i.looks with
      | (true, x) => if i.sent then x else x.fail
      | (false, x) => x.fail

/-- The unsolicited Channel Preference Report. -/
def reportMoves (x : Session I δ) (s : Published) (frames : List Attempt) : Bool × Session I δ :=
  if x.channelMoves = [] then (true, x)
  else
    match x.sendAll v false s.stamp frames with
    | (true, x) => (true, { x with channelMoves := [] })
    | (false, x) => (false, x)

def notifyTopology (x : Session I δ) (s : Published) (frames : List Attempt) : Bool × Session I δ :=
  if some s.operational = x.lastTopology ∧ x.notifyDue = false then (true, x)
  else
    match x.sendAll v false s.stamp frames with
    | (true, x) => (true, { x with lastTopology := some s.operational, notifyDue := false })
    | (false, x) => (false, x)

def tell (x : Session I δ) (joined : Bool) (c : Client) : Session I δ :=
  { x with clients := { x.clients with
      last := put x.clients.last (joined, c)
      told := x.clients.told ++ [(joined, c)] } }

def announceClients (s : Published) (frames : Client → List Attempt) (x : Session I δ) :
    List Client → Bool × Session I δ
  | [] => (true, x)
  | c :: rest =>
    match x.sendAll v true s.stamp (frames c) with
    | (false, x) => (false, x)
    | (true, x) => (x.tell (joined s.clients c) c).announceClients s frames rest

/-- The re-announcement, where it is due: the session remembers no client. -/
def reannounce (x : Session I δ) : Session I δ :=
  let c := x.clients
  { x with clients := { c with
      last := if c.reannounce.due c.responses then [] else c.last
      reannounce := c.reannounce.asked c.responses } }

/-- What is notified once the M1 was sent. -/
def notify (x : Session I δ) (s : Published) (i : TickInput) : Bool × Session I δ :=
  match x.reportMoves v s i.moved with
  | (false, x) => (false, x)
  | (true, x) =>
    match x.notifyTopology v s i.topology with
    | (false, x) => (false, x)
    | (true, x) =>
      let x := x.reannounce
      if s.inventoryComplete then
        x.announceClients v s i.announced (differing s.clients x.clients.last)
      else (true, x)

def announce (x : Session I δ) (s : Published) (i : TickInput) : Ticked × Session I δ :=
  if x.provisioning.isNone then (.completed s, x)
  else
    let y := if x.state = .provisioning then x.startRadio v i.radio else x
    if x.state = .provisioning ∧ y.state ≠ .provisioning then (.ended, y)
    else
      match y.notify v s i with
      | (true, y) => (.completed s, y)
      | (false, y) => (.raised, y)

def tick (x : Session I δ) (i : TickInput) : Ticked × Session I δ :=
  if x.state.isOver then (.idle, x)
  else
    match x.look v i.first with
    | (none, x) => (.idle, x)
    | (some s, x) =>
      match x.begin v s i with
      | none => (.raised, x)
      | some x => (x.searching v s i).announce v s i

end Ticks

/-! ## Receive -/

structure Advertisement where
  selectedResponseIssues : List String
  profile : Nat
  band : Nat

def r3ControllerFields : List String :=
  ["controller_capability_absent", "kib_mib_support_absent",
    "early_ap_capability_bit_absent_for_non_dpp_search"]

def nonDppAdmission (set : MessageSet) (a : Advertisement) : List String :=
  let issues := a.selectedResponseIssues.erase "security_capability_absent"
  let issues := if set = .r1 then issues.filter (· ∉ r3ControllerFields) else issues
  if (set ≠ .r1 ∧ a.profile ≠ 1) ∨ a.band ≠ 0 then issues ++ ["outside_profile1_24ghz_contract"]
  else issues

/-- A wait of the bridge for its context: the scope's own, and then a look at the source. -/
structure Wait where
  turn : Handover.Turn
  reading : Reading

structure ResponseInput (I : Type) where
  now : ℚ
  /-- The Response, if it can be read and answers a Search. -/
  advertisement : Option Advertisement
  earlyFrames : List Bytes
  early : List (Bool × Bool)
  /-- What the factory makes, if it does not raise, and whether it agrees with the reports. -/
  bridge : Option BridgeSetup
  agrees : Bool := true
  secrets : Handover.Secrets
  engine : Engine
  journal : Journal I
  again : Reading
  turn : Handover.Turn
  looks : List Reading
  sent : Bool := true

/-- A WSC message for the fronthaul's exchange. -/
structure WscInput where
  /-- Within the exchange's rate, for it, and complete. -/
  taken : Bool := true
  message : Message
  ingress : String
  generation : Nat
  waits : List Wait
  /-- What the execution meets: the guard's waits and the backend. -/
  turn : Handover.Turn
  guards : List Wait
  replies : Engine.Replies

inductive Frame (I : Type) where
  | response (j : ResponseInput I)
  | wsc (j : WscInput)
  /-- A WSC message for a further radio's exchange, and whether it ends the wait for its M2. -/
  | radioWsc (looks : List Reading) (taken : Bool)
  /-- A Topology Query, and whether it is answered. -/
  | topologyQuery (answered : Bool)
  | other (looks : List Reading)

structure ReceiveInput (I : Type) where
  /-- From the session's controller, well formed and within its rate. -/
  accepted : Bool := true
  first : Reading
  frame : Frame I

section Receives

variable {I δ : Type} [IntentType I] [Carrier I] [DecidableEq δ]
variable (v : Setup) (sha256 : Bytes → δ) (fps : Handover.Fingerprints I)

/-- Runs a call of the fronthaul's bridge. -/
def withBridge {α : Type} (x : Session I δ) (none : α)
    (f : BridgeSetup → Handover.World I δ → α × Handover.World I δ) : α × Session I δ :=
  match x.provisioning with
  | .none => (none, x)
  | some p =>
    let out := f p.setup p.world
    (out.1, { x with provisioning := some { p with world := out.2 } })

def failAdmission (x : Session I δ) : Session I δ := if x.state = .admitting then x.fail else x

def sourceLostError : Except Exn Handover.ScopeContext :=
  .error (notReady "discovery report source lost")

/-- The bridge's `start` sends its M1. -/
def started (u : BridgeSetup) (w : Handover.World I δ) (t : Handover.Turn) : Bool :=
  match Handover.sameProcess u w, Handover.bound u w t with
  | .ok _, (.ok _, x) => (x.request u.exchange t.now).1.isOk
  | _, _ => false

def start (x : Session I δ) (j : ResponseInput I) : Bool × Session I δ :=
  let (ok, x) := (x.note .m1).looked v j.looks
  let t := if ok then j.turn else { j.turn with context := sourceLostError }
  x.withBridge false fun u w => (started u w t && j.sent, Handover.start u w t j.sent)

def sendEarly (x : Session I δ) (j : ResponseInput I) : Bool × Session I δ :=
  if v.messageSet = .r1 then (true, x)
  else
    let out := sendReport j.earlyFrames j.early
    (out.2, x.note (.early j.earlyFrames out.1))

/-- The session with a new exchange for the fronthaul. -/
def attach (x : Session I δ) (u : BridgeSetup) (j : ResponseInput I) : Session I δ :=
  { x with provisioning := some {
      setup := u
      world := { secrets := j.secrets, engine := j.engine, journal := j.journal } } }

/-- The exchange is made and its M1 sent. -/
def makeBridge (x : Session I δ) (j : ResponseInput I) : Session I δ :=
  match j.bridge, j.agrees with
  | some u, true =>
    let x := ((x.attach u j).look v j.again).2
    if x.state = .sourceLost then x
    else
      match x.start v j with
      | (true, x) => x.enter .awaitingM2
      | (false, x) => x.failAdmission
  | _, _ => x.failAdmission

def onAdmission (x : Session I δ) (j : ResponseInput I) : Session I δ :=
  match ({ x with reports := true }.enter .admitting).sendEarly v j with
  | (true, x) => x.makeBridge v j
  | (false, x) => x.failAdmission

def receiveResponse (x : Session I δ) (j : ResponseInput I) : Session I δ :=
  match x.state, x.discovery with
  | .discovering, some d =>
    let d := d.live j.now
    if d.phase = .closed then { x with discovery := some d }
    else
      match j.advertisement with
      | none => { x with discovery := some d }
      | some a =>
        let issues := nonDppAdmission v.messageSet a
        let x := { x with discovery := some { d with phase := .received } }.note (.response issues)
        if issues ≠ [] then x.enter .incompatible else x.onAdmission v j
  | _, _ => x

/-- Where the bridge's call waits. -/
def task (x : Session I δ) : Option (Handover.Task I) := x.provisioning.bind (·.world.task)

/-- `admitted_context`. -/
def admitted (x : Session I δ) (w : Wait) : Handover.Turn × Session I δ :=
  match w.turn.context with
  | .error _ => (w.turn, x)
  | .ok _ =>
    match x.look v w.reading with
    | (some _, x) => (w.turn, x)
    | (none, x) => ({ w.turn with context := sourceLostError }, x)

/-- A call of the bridge, from one of its waits on. -/
def handOver (x : Session I δ) : List Wait → Handover.Outcome I → Except Exn (Operation I) × Session I δ
  | _, .ended r => (r, x)
  | [], .waits => (.error .other, x)
  | w :: rest, .waits =>
    match x.task with
    | none => (.error .other, x)
    | some task =>
      -- for the plan it does not ask for its context
      let (t, x) := if task.isPlanning then (w.turn, x) else x.admitted v w
      let (o, x) := x.withBridge (.ended (.error .other)) fun u w => Handover.resume sha256 fps u w t
      x.handOver rest o

/-- The bridge's guard, asked by the execution of its operation. -/
def guard (x : Session I δ) (w : Wait) : Except Exn Unit × Session I δ :=
  match x.provisioning with
  | none => (.error .other, x)
  | some p =>
    match Handover.sameProcess p.setup p.world with
    | .error e => (.error e, x)
    | .ok _ =>
      let (t, x) := x.admitted v w
      x.withBridge (.error .other) fun u w =>
        let out := Handover.bound u w t
        (out.1.map fun _ => (), { w with exchange := out.2 })

/-- A segment of a call of the engine. -/
def segment {α : Type} (x : Session I δ) (m : M I α) : Except Exn α × Session I δ :=
  x.withBridge (.error .other) fun _ w =>
    match m ⟨w.engine, w.journal, []⟩ with
    | .ok a p => (.ok a, { w with engine := p.memory, journal := p.journal })
    | .error e p => (.error e, { w with engine := p.memory, journal := p.journal })

/-- What an execution that waits is answered, and the guard's waits left. -/
def reply (x : Session I δ) (b : Engine.Replies) (guards : List Wait) :
    Stage → Reply × List Wait × Session I δ
  | .guard | .recheck _ =>
    match guards with
    | [] => (.guard (.error .other), [], x)
    | w :: rest =>
      let (r, x) := x.guard v w
      (.guard r, rest, x)
  | .plan => (.plan b.plan, guards, x)
  | .snapshot => (.snapshot b.snapshot, guards, x)
  | .submit _ => (.submit b.submit, guards, x)

def finish (env : Env I) (b : Engine.Replies) (x : Session I δ) :
    Nat → List Wait → Next I → Except Exn (Operation I) × Session I δ
  | _, _, .done op => (.ok op, x)
  | 0, _, .await _ => (.error .other, x)
  | n + 1, guards, .await task =>
    let (r, guards, x) := x.reply v b guards task.stage
    match x.segment (Engine.resume env b.draw task r) with
    | (.ok next, x) => x.finish env b n guards next
    | (.error e, x) => (.error e, x)

def execute (x : Session I δ) (j : WscInput) (id : String) : Except Exn (Operation I) × Session I δ :=
  match x.provisioning with
  | none => (.error .other, x)
  | some p =>
    let env := Handover.envOf fps p.world j.turn
    match x.segment (Engine.execute id) with
    | (.ok next, x) => x.finish v env j.replies Engine.stages j.guards next
    | (.error e, x) => (.error e, x)

/-- M2 was accepted and its operation journaled. -/
def provisioned (x : Session I δ) : Session I δ :=
  let x := x.enter .provisioning
  if x.reports then
    { x with clients := { x.clients with
        reannounce := x.clients.reannounce.provisioned x.clients.responses } }
  else x

def receiveWsc (x : Session I δ) (j : WscInput) : Session I δ :=
  match x.provisioning with
  | none => x
  | some p =>
    if p.closed = true ∨ j.taken = false then x
    else
      let (o, x) := x.withBridge (.ended (.error .other)) fun u w =>
        Handover.receive u w j.message j.ingress j.generation
      match x.handOver v sha256 fps j.waits o with
      | (.error _, x) => x
      | (.ok op, x) =>
        match x.execute v fps j op.operationId with
        | (.error _, x) => x
        | (.ok _, x) => x.provisioned

def receive (x : Session I δ) (i : ReceiveInput I) : Session I δ :=
  if x.state.isOver ∨ i.accepted = false then x
  else
    match x.look v i.first with
    | (none, x) => x
    | (some _, x) =>
      match i.frame with
      | .response j => x.receiveResponse v j
      | .wsc j => x.receiveWsc v sha256 fps j
      | .radioWsc looks taken =>
        let x := x.watched v looks
        if taken then { x with radioAwaiting := false } else x
      | .topologyQuery answered =>
        if x.reports = true ∧ answered = true then
          { x with clients := { x.clients with responses := x.clients.responses + 1 } }
        else x
      | .other looks => x.watched v looks

/-! ## Runs -/

inductive Step (I : Type) where
  | tick (i : TickInput)
  | receive (i : ReceiveInput I)
  | close
  /-- The rest of the agent. -/
  | elsewhere (edits : List (String × Option String)) (engine : Engine) (journal : Journal I)

def step (x : Session I δ) : Step I → Session I δ
  | .tick i => (x.tick v i).2
  | .receive i => x.receive v sha256 fps i
  | .close => x.close
  | .elsewhere edits engine journal =>
    (x.withBridge () fun u w =>
      ((), Handover.step sha256 fps u w (.elsewhere edits engine journal))).2

end Receives

end Session
end Emosa.Onboarding
