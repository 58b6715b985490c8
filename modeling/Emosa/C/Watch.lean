import Emosa.C.Drive
import Emosa.Scope.Watch

/-!
# Emosa.C.Watch

The probe watch in C. The stations asked about are kept in 256 slots; a full table loses the one asked
about longest ago. The slots that are due are sorted by time alone with `qsort`, which leaves open how
stations asked about at one time are ordered.

* `ask`, `wanted`: the slots.
* `emWatchTick`: the scope's tick.
-/

namespace Emosa.C

open Durable
open ProbeWatch (maxAsked minInterval source Setting)

/-! ## Stations -/

/-- The slots in use. Each has a station of its own. -/
abbrev Asked := { slots : List (Station × ℚ) // (slots.map Prod.fst).Nodup }

/-- `qsort` by time. -/
structure ByTime where
  sort : List (Station × ℚ) → List (Station × ℚ)
  perm : ∀ l, (sort l).Perm l
  sorted : ∀ l, (sort l).Pairwise fun a b => a.2 ≤ b.2

/-- The first slot with the least time, `best` being that of the slots before `slot`. -/
def oldestFrom (best : Nat) (time : ℚ) (slot : Nat) : List (Station × ℚ) → Nat
  | [] => best
  | e :: rest =>
    if e.2 < time then oldestFrom slot e.2 (slot + 1) rest else oldestFrom best time (slot + 1) rest

def oldest : List (Station × ℚ) → Nat
  | [] => 0
  | e :: rest => oldestFrom 0 e.2 1 rest

def note (now : ℚ) (slots : List (Station × ℚ)) (mac : Station) : List (Station × ℚ) :=
  match slots.findIdx? (·.1 = mac) with
  | some i => slots.set i (mac, now)
  | none => if slots.length = maxAsked then slots.set (oldest slots) (mac, now)
    else slots ++ [(mac, now)]

theorem note_nodup {slots : List (Station × ℚ)} (h : (slots.map Prod.fst).Nodup) (now : ℚ)
    (mac : Station) : ((note now slots mac).map Prod.fst).Nodup := by
  unfold note
  cases hi : slots.findIdx? (·.1 = mac) with
  | some i =>
    obtain ⟨hlt, hmac, -⟩ := List.findIdx?_eq_some_iff_getElem.mp hi
    have hsame : (slots.map Prod.fst).set i mac = slots.map Prod.fst := by
      have hlt' : i < (slots.map Prod.fst).length := by rwa [List.length_map]
      have hget : (slots.map Prod.fst)[i] = mac := by simpa using hmac
      rw [← hget, List.set_getElem_self]
    simpa only [List.map_set, hsame] using h
  | none =>
    have hnew : mac ∉ slots.map Prod.fst := by
      intro hmem
      obtain ⟨e, he, hmac⟩ := List.mem_map.mp hmem
      have hne := List.findIdx?_eq_none_iff.mp hi e he
      simp [hmac] at hne
    simp only
    split
    · rw [List.map_set]
      exact h.set hnew
    · rw [List.map_append, List.nodup_append]
      refine ⟨h, List.nodup_singleton _, fun a ha b hb he => hnew ?_⟩
      have hmac : a = mac := he.trans (List.mem_singleton.mp hb)
      exact hmac ▸ ha

def ask (now : ℚ) (stations : List Station) (asked : Asked) : Asked :=
  stations.foldl (fun asked mac => ⟨note now asked.val mac, note_nodup asked.property now mac⟩) asked

def wanted (q : ByTime) (now : ℚ) (v : WatchView) (asked : Asked) : List String :=
  ProbeWatch.lastWatched (q.sort (asked.val.filter (ProbeWatch.eligible now v)))

/-! ## The scope -/

/-- The station is an address, and follows the one before it. -/
def ascending : Option String → List String → Bool
  | _, [] => true
  | last, mac :: rest => macChars mac.toList && last.all (· < mac) && ascending (some mac) rest

def watchTarget (i : WatchIntent) : Except Reason Record :=
  if i.ifName = "" ∨ i.band.groupColumn = none ∨ i.stations.length > maxWatched then
    .error .invalidInput
  else if ascending none i.stations then
    .ok ((∅ : Record).set "watched" (.str (WatchIntent.joined i.stations)))
  else .error .invalidInput

/-- `submit`. A plan that fails at submission leaves the outcome open. -/
def submitAnswer (transactionId : String) : Submitted → SubmitAnswer
  | .raised _ => ⟨.unknown, ∅, .outcomeUnknown⟩
  | .otherSession => ⟨.rejected, ∅, .notReady⟩
  | .lost => ⟨.unknown, (∅ : Record).set "attribution" (.str "unknown"), .outcomeUnknown⟩
  | .failed code error =>
    ⟨if code = .outcomeUnknown then .unknown else .rejected, (failedCheck code error).evidence, code⟩
  | .committed => ⟨.committed, (((∅ : Record).set "attribution" (.str "reply")).set
      "transaction_validated" (.bool true)).set "transaction_id" (.str transactionId),
      .outcomeUnknown⟩

/-- The scope of one pod, and how the process sorts and fingerprints. -/
structure EmSetting extends Setting where
  byTime : ByTime
  fingerprint : WatchIntent → Record → String

structure EmWatch where
  process : Process WatchIntent
  asked : Asked := ⟨[], List.nodup_nil⟩
  lastRequest : Option ℚ := none
  waiting : Option String := none

/-- What a tick meets. -/
structure EmTick where
  /-- None: nothing was read of the pod so far. -/
  view : Option WatchView
  utc : ℚ
  monotonic : ℚ
  asking : ℚ
  now : ℚ
  operationId : String
  operationId_named : operationId ≠ "" := by decide
  plan : Except Reason Record
  snapshot : Option Snapshot
  attemptId : String
  transactionId : String
  submitted : Submitted

def EmTick.env (s : EmSetting) (t : EmTick) : EmEnv WatchIntent where
  target := watchTarget
  fingerprint i target := some (s.fingerprint i target)
  utc := t.utc
  monotonic := t.monotonic

def EmTick.answers (t : EmTick) : Answers where
  plan := t.plan
  snapshot := t.snapshot
  attemptId := t.attemptId
  transactionId := t.transactionId
  submit := submitAnswer t.transactionId t.submitted

namespace EmWatch

def latest (w : EmWatch) : Option (Operation WatchIntent) :=
  w.process.journal.operations.getLast?

def appliedEvidence (v : WatchView) (op : Operation WatchIntent) : Record :=
  let seen := (emEngineEvidence v.snapshot false).set "instance" (.str v.start)
  if op.state = .indeterminate then seen.set "attribution" (.str "current_condition_only") else seen

def late (op : Operation WatchIntent) : Operation WatchIntent :=
  because (moved { op with originalOutcome := some op.state, deadlineElapsed := true } .timedOut)
    .applyTimeout

def shows (v : WatchView) : Except Reason Record → Bool
  | .ok target => v.ready && emSnapshotSatisfies v.snapshot target && emMatches v.snapshot.config target
  | .error _ => false

def settle (env : EmEnv WatchIntent) (v : WatchView) (op : Operation WatchIntent)
    (p : Process WatchIntent) : Process WatchIntent :=
  if op.state ≠ .configCommitted ∧ op.state ≠ .indeterminate then p
  else if shows v (env.target op.intent) then
    emEngineSave { moved op .observedApplied (appliedEvidence v op) with
      applicationEvidence := some (appliedEvidence v op), reason := none } p
  else
    match emEngineExpired env op p with
    | (true, p) => emEngineSave (late op) p
    | (false, p) => p

def settled (s : EmSetting) (t : EmTick) (v : WatchView) (w : EmWatch) : EmWatch :=
  match w.latest with
  | none => w
  | some op => { w with process := settle (t.env s) v op w.process }

def intent (s : Setting) (stations : List String) : WatchIntent := ⟨s.podId, s.ifName, s.band, stations⟩

def request (s : EmSetting) (t : EmTick) (v : WatchView) (w : EmWatch) : Engine.Request WatchIntent :=
  let stations := wanted s.byTime t.asking v w.asked
  { operationId := t.operationId
    intent := intent s.toSetting stations
    source := source
    key := ProbeWatch.key s.toSetting v.start w.process.journal.operations.length stations
    runId := s.runId
    deadline := ProbeWatch.deadline }

def spaced (now : ℚ) (w : EmWatch) : Bool := w.lastRequest.all fun last => minInterval ≤ now - last

def waitFor (why : Option String) (w : EmWatch) : EmWatch := { w with waiting := why }

/-- The tick from the settled journal on. -/
def write (s : EmSetting) (t : EmTick) (v : WatchView) (w : EmWatch) : EmWatch :=
  if v.ready = false then waitFor (some "pod not bound") w
  else if (w.process.journal.ownership.get? s.podId).isSome then
    waitFor (some "another manager changed the configuration: admit the pod anew") w
  else if w.latest.any (·.state.active) then waitFor (some "write in progress") w
  else if WatchIntent.joined (wanted s.byTime t.asking v w.asked) = v.watched then waitFor none w
  else if spaced t.now w = false then waitFor (some "next write after the minimum interval") w
  else
    { w with
      process := emPerform (t.env s) (request s t v w) t.answers w.process
      lastRequest := some t.now
      waiting := none }

def emWatchTick (s : EmSetting) (t : EmTick) (w : EmWatch) : EmWatch :=
  match t.view with
  | none => w
  | some v => write s t v (settled s t v w)

def emWatchOpen (s : Setting) (processId : String) (j : EmJournal WatchIntent) : EmWatch :=
  { process := emOpen s.podId processId j }

inductive EmEvent where
  | ask (now : ℚ) (stations : List Station)
  | tick (t : EmTick)
  | restart (processId : String)

def step (s : EmSetting) (w : EmWatch) : EmEvent → EmWatch
  | .ask now stations => { w with asked := C.ask now stations w.asked }
  | .tick t => if w.process.journal.issued.contains t.operationId then w else emWatchTick s t w
  | .restart processId => emWatchOpen s.toSetting processId w.process.journal

def run (s : EmSetting) (processId : String) (es : List EmEvent) : EmWatch :=
  runs (step s) (emWatchOpen s.toSetting processId {}) es

end EmWatch

end Emosa.C
