import Mathlib.Data.List.Sort
import Emosa.Scope.Site

/-!
# Emosa.Scope.Watch

The probe watch: the stations the controller asked about get a watch row on the pod. `ProbeWatch`
remembers when each was last asked about; a tick settles the last write against what the pod shows,
and makes the next one where the stations to watch are not those the pod watches.

A station is the text of a MAC address, as the agent's wire side writes it. The rows of the pod's
database are seen through a `WatchView`, and of a submission's evidence the lists of stations added and
removed are left out: nothing reads them.
-/

namespace Emosa

open Durable

/-! ## Intents -/

def hexDigit (c : Char) : Bool := c.isDigit || ('a' ≤ c && c ≤ 'f')

/-- Six pairs of lower-case digits, a colon between two of them. -/
def macChars (chars : List Char) : Bool :=
  chars.length == 17 && chars.zipIdx.all fun e => if e.2 % 3 = 2 then e.1 == ':' else hexDigit e.1

/-- The pattern of a MAC address. Its end also matches before a final line break. -/
def macMatches (s : String) : Bool :=
  macChars (if s.toList.getLast? = some '\n' then s.toList.dropLast else s.toList)

/-- The pattern of an interface's name. -/
def ifNameMatches (s : String) : Bool :=
  let chars := if s.toList.getLast? = some '\n' then s.toList.dropLast else s.toList
  1 ≤ chars.length && chars.length ≤ 15 &&
    chars.all fun c => c.isAlphanum || c == '.' || c == '_' || c == '-'

def maxWatched : Nat := 32

/-- The bands a telemetry scope is configured with. -/
inductive Band where
  | b24
  | b5
  | b5l
  | b5u
  | b6
  deriving DecidableEq, Repr

namespace Band

def groupColumn : Band → Option String
  | b24 => some "if_name_2g"
  | b5 | b5l | b5u => some "if_name_5g"
  | b6 => none

end Band

structure WatchIntent where
  podId : String
  ifName : String
  band : Band
  stations : List String
  deriving DecidableEq, Repr

namespace WatchIntent

def validate (i : WatchIntent) : Except EmosaError Unit :=
  if i.ifName = "" ∨ i.band.groupColumn = none then
    .error ⟨.invalidInput, "watch VIF or band invalid"⟩
  else if i.stations.length > maxWatched then
    .error ⟨.invalidInput, "too many watched stations"⟩
  else if ¬ i.stations.Nodup ∨ ¬ i.stations.all macMatches then
    .error ⟨.invalidInput, "watched stations must be lower-case MACs"⟩
  else .ok ()

def joined (stations : List String) : String := ",".intercalate stations

def target (i : WatchIntent) : Except EmosaError Record := do
  i.validate
  return (∅ : Record).set "watched" (.str (joined i.stations))

/-- The contract's check of the record. -/
def wellFormed (i : WatchIntent) : Bool :=
  Intent.named i.podId && ifNameMatches i.ifName && i.band.groupColumn.isSome &&
  i.stations.length ≤ 32 && decide i.stations.Nodup && i.stations.all macMatches

instance : IntentType WatchIntent where
  podId := podId
  radioId _ := none
  bssId _ := none
  wellFormed := wellFormed
  validate := validate
  target _ := target

end WatchIntent

/-! ## The pod -/

/-- A MAC address as text. -/
abbrev Station := { s : String // macChars s.toList = true }

/-- What a read of the pod gives: its watch rows, the stations another row or an association excludes,
and the start of its OpenSync. A pod that is not bound shows what it showed last, and is not ready. -/
structure WatchView where
  watched : String
  blocked : List String := []
  associated : List String := []
  ready : Bool := true
  generation : Int := 1
  revision : Int := 0
  receivedAt : String := ""
  schemaFingerprint : String := ""
  start : String
  /-- A hash cut to its first digits. -/
  start_short : start.length ≤ 16 := by decide

def WatchView.snapshot (v : WatchView) : Snapshot where
  config := (∅ : Record).set "watched" (.str v.watched)
  observed :=
    { values := (∅ : Record).set "watched" (.str v.watched)
      source := "ovsdb"
      receivedAt := v.receivedAt
      fresh := v.ready
      provenance := "owm:Band_Steering_Clients(cs_params emosa=watch)"
      revision := v.revision }
  ready := v.ready
  generation := v.generation
  schemaFingerprint := v.schemaFingerprint

/-- How a submission ends. -/
inductive Submitted where
  /-- The pod cannot be read or planned for any more. -/
  | raised (x : Exn)
  | otherSession
  | lost
  /-- The results do not pass, with the database's own text where it gave one. -/
  | failed (code : Reason) (error : Option String)
  | committed

/-- `WatchBackend.submit`. A failed wait refuses the write. -/
def Submitted.result (transactionId : String) : Submitted → Except Exn SubmitResult
  | .raised x => .error x
  | .otherSession => .ok ⟨.rejected, ∅, some Reason.notReady.value⟩
  | .lost => .ok ⟨.unknown, (∅ : Record).set "attribution" (.str "unknown"),
      some Reason.outcomeUnknown.value⟩
  | .failed code error =>
    let failed := failedCheck code error
    if failed.status = .conflict then .ok ⟨.rejected, failed.evidence, some code.value⟩
    else .ok failed
  | .committed => .ok ⟨.committed, (((∅ : Record).set "attribution" (.str "reply")).set
      "transaction_validated" (.bool true)).set "transaction_id" (.str transactionId), none⟩

/-! ## `ProbeWatch` -/

namespace ProbeWatch

def source : String := "probe-watch"
def ttl : ℚ := 600
def minInterval : ℚ := 10
def deadline : ℚ := 30
def maxAsked : Nat := 256

/-- What the agent's configuration and the pod's profile give the scope. `sha` is the digest's text. -/
structure Setting where
  podId : String
  ifName : String
  band : Band
  runId : String
  sha : String → String
  pod_named : Intent.named podId = true := by decide
  ifName_matches : ifNameMatches ifName = true := by decide
  run_named : runId ≠ "" := by decide

structure Watch extends Site WatchIntent where
  asked : Dict Station ℚ := ∅
  lastRequest : Option ℚ := none
  waiting : Option String := none

/-- Oldest first. -/
def Older (a b : Station × ℚ) : Prop := a.2 ≤ b.2

instance (a b : Station × ℚ) : Decidable (Older a b) := inferInstanceAs (Decidable (a.2 ≤ b.2))

/-- By time, and by address where the times are equal. -/
def Before (a b : Station × ℚ) : Prop := a.2 < b.2 ∨ a.2 = b.2 ∧ a.1.val ≤ b.1.val

instance (a b : Station × ℚ) : Decidable (Before a b) :=
  inferInstanceAs (Decidable (a.2 < b.2 ∨ a.2 = b.2 ∧ a.1.val ≤ b.1.val))

/-- The stations beyond the most recently asked about are forgotten. -/
def forget (asked : Dict Station ℚ) : Dict Station ℚ :=
  let oldest := (asked.entries.insertionSort Older).take (asked.length - maxAsked)
  asked.filter fun mac _ => !(oldest.map Prod.fst).contains mac

def ask (now : ℚ) (stations : List Station) (w : Watch) : Watch :=
  let asked := stations.foldl (fun d mac => d.set mac now) w.asked
  { w with asked := forget asked }

/-- Asked about lately, and not excluded. -/
def eligible (now : ℚ) (v : WatchView) (e : Station × ℚ) : Bool :=
  decide (now - e.2 ≤ ttl) && !(v.blocked ++ v.associated).contains e.1.val

def lastWatched (recent : List (Station × ℚ)) : List String :=
  ((recent.drop (recent.length - maxWatched)).map fun e => e.1.val).insertionSort (· ≤ ·)

def wanted (now : ℚ) (v : WatchView) (asked : Dict Station ℚ) : List String :=
  lastWatched ((asked.entries.filter (eligible now v)).insertionSort Before)

/-- The evidence that the write is applied. -/
def applied (v : WatchView) (op : Operation WatchIntent) : Record :=
  let seen := (Engine.evidence v.snapshot false).set "instance" (.str v.start)
  if op.state = .indeterminate then seen.set "attribution" (.str "current_condition_only") else seen

def settle (env : Env WatchIntent) (v : WatchView) (op : Operation WatchIntent) : M WatchIntent Unit := do
  if op.state ≠ .configCommitted ∧ op.state ≠ .indeterminate then pure ()
  else
    let target ← liftE op.intent.target
    if v.ready ∧ v.snapshot.observed.satisfies target ∧ configMatches v.snapshot.config target then
      let op' ← liftE (transition op .observedApplied (applied v op))
      Store.save { op' with applicationEvidence := some (applied v op), reason := none }
    else if ← Engine.expired env op then
      let late := { op with originalOutcome := some op.state, deadlineElapsed := true }
      let op' ← liftE (transition late .timedOut)
      Store.save { op' with reason := some Reason.applyTimeout.value }
    else pure ()

def settleLatest (env : Env WatchIntent) (v : WatchView) (w : Watch) : Except Exn Unit × Watch :=
  match w.latest with
  | none => (.ok (), w)
  | some op =>
    let out := w.call (settle env v op)
    (out.1, { w with toSite := out.2 })

/-- What a tick meets: the pod as it is read, the clock readings, the ID drawn for a request, and the
replies to its execution. -/
structure Tick where
  /-- None: the read raises. -/
  view : Option WatchView
  env : Env WatchIntent
  /-- The reading `wanted` takes, and the one the interval is measured with. -/
  asking : ℚ
  now : ℚ
  operationId : String
  operationId_named : operationId ≠ "" := by decide
  plan : Except Exn Record
  snapshot : Except Exn Snapshot
  submitted : Submitted
  draw : Engine.Draw

def Tick.replies (t : Tick) : Engine.Replies where
  plan := t.plan
  snapshot := t.snapshot
  submit := t.submitted.result t.draw.transactionId
  draw := t.draw

/-- The key of a write: the start, the number of records, and the stations. -/
def key (s : Setting) (start : String) (records : Nat) (stations : List String) : String :=
  s!"{start}:{records}:" ++ String.ofList ((s.sha (WatchIntent.joined stations)).toList.take 12)

def intent (s : Setting) (stations : List String) : WatchIntent where
  podId := s.podId
  ifName := s.ifName
  band := s.band
  stations := stations.insertionSort (· ≤ ·)

def request (s : Setting) (t : Tick) (v : WatchView) (w : Watch) : Engine.Request WatchIntent :=
  let stations := wanted t.asking v w.asked
  { operationId := t.operationId
    intent := intent s stations
    source := source
    key := key s v.start w.journal.operations.length stations
    runId := s.runId
    deadline := deadline }

/-- The interval since the last request is over. -/
def spaced (now : ℚ) (w : Watch) : Bool :=
  w.lastRequest.all fun last => minInterval ≤ now - last

def wait (why : String) (w : Watch) : Watch := { w with waiting := some why }

/-- The tick from the settled journal on. -/
def write (s : Setting) (t : Tick) (v : WatchView) (w : Watch) : Watch :=
  if v.ready = false then wait "pod not bound" w
  else if (w.journal.ownership.get? s.podId).isSome then
    wait "another manager changed the configuration: admit the pod anew" w
  else if w.latest.any (·.state.active) then wait "write in progress" w
  else if WatchIntent.joined (wanted t.asking v w.asked) = v.watched then { w with waiting := none }
  else if spaced t.now w = false then wait "next write after the minimum interval" w
  else
    let out := w.call (Engine.perform t.env (request s t v w) t.replies)
    let w := { w with toSite := out.2, lastRequest := some t.now }
    if out.1 matches .ok _ then { w with waiting := none } else w

def tick (s : Setting) (t : Tick) (w : Watch) : Watch :=
  match t.view with
  | none => w
  | some v =>
    match settleLatest t.env v w with
    | (.error _, w) => w
    | (.ok _, w) => write s t v w

/-- The object of a new agent process. -/
def start (s : Setting) (processId : String) (j : Journal WatchIntent) : Watch :=
  { toSite := Site.start processId s.podId j }

/-- A call of the scope, or a new agent process. A tick that draws an ID drawn before does not
happen. -/
inductive Event where
  | ask (now : ℚ) (stations : List Station)
  | tick (t : Tick)
  | restart (processId : String)

def step (s : Setting) (w : Watch) : Event → Watch
  | .ask now stations => ask now stations w
  | .tick t => if w.journal.issued.contains t.operationId then w else tick s t w
  | .restart processId => start s processId w.journal

def run (s : Setting) (processId : String) (es : List Event) : Watch :=
  runs (step s) (start s processId {}) es

end ProbeWatch

end Emosa
