import Emosa.Engine.Reconcile

/-!
# Emosa.Engine.World

Runs of one engine on one journal. A `Call` is one segment: a call that does not suspend, the first
segment of `execute`, or the reply to a suspended one. Calls follow each other in any order, so the
segments of concurrent executions interleave in every way. The process may die inside any call,
after any number of its commits; the next one starts with `recover` on what was committed.

* `World.step`: an `Action` in a world. A call that cannot be made (the process is down, there is
  no task that waits for such a reply, the drawn ID was drawn before) changes nothing.
* `World.moments`: the journals between the commits of an action.
-/

namespace Emosa

open Durable

variable {I : Type} [IntentType I]

/-- What the next process is started with. -/
structure Setup where
  processId : String
  backends : List String
  maxOperations : Nat := 10000

def Setup.engine (s : Setup) : Engine :=
  { processId := s.processId, backends := s.backends, maxOperations := s.maxOperations }

/-- `sent` is what was handed to the backend: the calls of `submit`, in order. -/
structure World (I : Type) where
  journal : Journal I := {}
  engine : Engine
  up : Bool := true
  tasks : List (Task I) := []
  sent : List (String × Attempt) := []

inductive Call (I : Type) where
  | request (r : Engine.Request I)
  | execute (id : String)
  | resume (task : Nat) (reply : Reply) (draw : Engine.Draw)
  | reconcile (pod : String) (reply : Except Exn Snapshot)
  | cancel (id : String)
  | recover
  | quiesce (on : Bool)
  | authorize (id : String)
  | revoke (id : String)

/-- A call to its end, or a call in which the process dies after `commits` of its commits. -/
inductive Action (I : Type) where
  | call (env : Env I) (c : Call I)
  | crash (env : Env I) (c : Call I) (commits : Nat) (next : Setup)

def Action.env : Action I → Env I
  | .call env _ | .crash env _ _ _ => env

/-- The call an action makes, to its end or not. -/
def Action.made : Action I → Call I
  | .call _ c | .crash _ c _ _ => c

namespace World

/-- The call can be made. `recover` is what a process starts with, and nothing else is. -/
def enabled (w : World I) : Call I → Bool
  | .recover => !w.up
  | .request r => w.up && !w.journal.issued.contains r.operationId
  | .resume k reply _ => w.up && (w.tasks[k]?).any (·.stage.expects reply)
  | _ => w.up

/-- The task a call leaves suspended. -/
def Next.task? : Next I → Option (Task I)
  | .done _ => none
  | .await task => some task

def body (w : World I) (env : Env I) : Call I → M I (Option (Task I))
  | .request r => do
    let _ ← Engine.requestInternal env r
    pure none
  | .execute id => do pure (Next.task? (← Engine.execute id))
  | .resume k reply draw =>
    match w.tasks[k]? with
    | some task => do pure (Next.task? (← Engine.resume env draw task reply))
    | none => pure none
  | .reconcile pod reply => do
    let _ ← Engine.reconcile env pod reply
    pure none
  | .cancel id => do
    let _ ← Engine.cancel id
    pure none
  | .recover => do
    Engine.recover
    pure none
  | .quiesce on => do
    remember fun e => { e with quiesced := on }
    pure none
  | .authorize id => do
    remember fun e => { e with wscGuards := id :: e.wscGuards }
    pure none
  | .revoke id => do
    remember fun e => { e with wscGuards := e.wscGuards.filter (· ≠ id) }
    pure none

/-- The process after the call, and the task it leaves suspended if any. -/
def outcome (w : World I) (env : Env I) (c : Call I) :
    Proc Engine (Journal I) (Write I) × Except Exn (Option (Task I)) :=
  match w.body env c ⟨w.engine, w.journal, []⟩ with
  | .ok task p => (p, .ok task)
  | .error x p => (p, .error x)

/-- The tasks a call does not resume. -/
def others (w : World I) : Call I → List (Task I)
  | .resume k _ _ => w.tasks.eraseIdx k
  | _ => w.tasks

def sends : Except Exn (Option (Task I)) → List (String × Attempt)
  | .ok (some ⟨op, .submit attempt⟩) => [(op.operationId, attempt)]
  | _ => []

def call (w : World I) (env : Env I) (c : Call I) : World I :=
  if w.enabled c then
    let (p, result) := w.outcome env c
    { journal := p.journal
      engine := p.memory
      up := w.up || result matches .ok _
      tasks := w.others c ++ (match result with | .ok (some task) => [task] | _ => [])
      sent := w.sent ++ sends result }
  else w

def writes (w : World I) (env : Env I) (c : Call I) : List (Write I) :=
  if w.enabled c then (w.outcome env c).1.written else []

def crash (w : World I) (env : Env I) (c : Call I) (commits : Nat) (next : Setup) : World I :=
  { journal := replay w.journal ((w.writes env c).take commits)
    engine := next.engine
    up := false
    tasks := []
    sent := w.sent }

def step (w : World I) : Action I → World I
  | .call env c => w.call env c
  | .crash env c commits next => w.crash env c commits next

def commits (w : World I) : Action I → List (Write I)
  | .call env c => w.writes env c
  | .crash env c commits _ => (w.writes env c).take commits

/-- The journals after each commit of the action. -/
def moments (w : World I) (a : Action I) : List (Journal I) :=
  Durable.moments w.journal (w.commits a)

def run (w : World I) (as : List (Action I)) : World I := runs step w as

theorem run_append (w : World I) (as : List (Action I)) (a : Action I) :
    w.run (as ++ [a]) = (w.run as).step a := by
  simp [run, runs]

/-- Every journal of a run after the first. -/
def trail : World I → List (Action I) → List (Journal I)
  | _, [] => []
  | w, a :: as => w.moments a ++ trail (w.step a) as

def init (s : Setup) : World I := { engine := s.engine }

end World

/-! ## A small deployment

One pod, a vault that gives back what it is asked for, and a pod that shows nothing yet. -/

namespace Sample

def vault : Vault Intent := ⟨fun ref => .ok ref, fun secret => secret, fun _ _ => "fingerprint"⟩

def env (now : ℚ) : Env Intent := { vault := vault, utc := now, monotonic := now }

def intent : Intent := ⟨"pod", "radio", "bss", "ssid", "ref", true, "wpa2-psk", none⟩

def request (id key : String) : Engine.Request Intent :=
  { operationId := id, intent := intent, source := "cli", key := key, runId := "run" }

def setup : Setup := ⟨"process", ["pod"], 10000⟩

def draw : Engine.Draw := ⟨"attempt", "transaction"⟩

/-- The pod before any write: ready, its State fresh. -/
def bare : Snapshot :=
  { config := ∅, observed := ⟨∅, "ovsdb", "now", true, "p", 0⟩, ready := true, generation := 1,
    schemaFingerprint := "schema", instanceId := some "one" }

def target : Record :=
  ((((((∅ : Record).set "ssid" (.str "ssid")).set "enabled" (.bool true)).set "mode" (.str "ap")).set
    "security_mode" (.str "wpa2-psk")).set "credential_fingerprint" (.str "ref"))

/-- The pod with the intent's configuration, and its State showing it. -/
def configured : Snapshot :=
  { bare with config := target, observed := ⟨target, "ovsdb", "now", true, "p", 0⟩ }

/-- An operation is requested and executed, up to the snapshot it meets. -/
def executed (id key : String) (snap : Snapshot) : List (Action Intent) :=
  [.call (env 0) (.request (request id key)),
    .call (env 0) (.execute id),
    .call (env 0) (.resume 0 (.plan (.ok ∅)) draw),
    .call (env 0) (.resume 0 (.snapshot (.ok snap)) draw)]

end Sample

end Emosa
