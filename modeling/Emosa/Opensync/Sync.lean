import Emosa.Opensync.Session

/-!
# Emosa.Opensync.Sync

The calls of the session, as a machine whose step is one pass over the connection. A call first
synchronizes (`_sync`): it waits until it is connected, reads the schema and starts the monitor
unless that was done on this connection, and then takes the notifications that have arrived. A
snapshot is then the cache; a transaction is sent and waits for its reply.

`World` adds what the server has told on the connection, for the statements about the cache.
-/

namespace Emosa.Opensync

variable {V : Type}

inductive Call where
  | snapshot
  | transact (id : String) (generation : Option Nat) (discard : Bool)
  deriving DecidableEq, Repr

/-- Where the worker is: between calls, in one of the loops of `_sync`, or waiting for the reply to a
transaction. -/
inductive Phase where
  | idle
  | connecting (call : Call)
  | schema (call : Call) (w : Session.Wait)
  | monitor (call : Call) (w : Session.Wait)
  | draining (call : Call) (left : Nat)
  | transacting (w : Session.Wait)

structure Client (V : Type) where
  session : Session V
  phase : Phase := .idle

/-- `sent`: the request that follows the pass, if one does, is written to the connection. -/
inductive Input (V : Type) where
  | call (c : Call)
  | reconnect
  | pass (a : Arrival V) (sent : Bool)
  | stop
  | expire

def monitorName (generation : Nat) : String := "emosa-" ++ toString generation

/-- The tables and columns to monitor that the schema has. -/
def Schema.select (schema : Schema V) (columns : Selected) : Selected :=
  columns.entries.foldl (fun selected e =>
    match schema.columns e.1 with
    | some known => selected.set e.1 (e.2.filter fun c => known.contains c)
    | none => selected) ∅

def Payload.updates? : Payload V → Option (Updates V)
  | .updates u => some u
  | _ => none

namespace Client

/-- The call ends with an exception. A snapshot is then not ready; it handles no exception but the
program's own, a loss and a timeout. -/
def fails (s : Session V) (call : Call) (e : Exn) : Client V :=
  match call, e with
  | .snapshot, .other => { session := s }
  | .snapshot, _ => { session := { s with ready := false } }
  | .transact _ _ _, _ => { session := s }

def ask (s : Session V) (call : Call) (sent : Bool) (next : Session.Wait → Phase) : Client V :=
  if sent then
    { session := { s with nextId := s.nextId + 1 }
      phase := next ⟨.number s.nextId, s.generation, false⟩ }
  else fails s call .connection

/-- Connected: the monitor is started, unless it is. -/
def start (s : Session V) (call : Call) (sent : Bool) : Client V :=
  if s.ready then { session := s, phase := .draining call 128 } else ask s call sent (.schema call)

/-- The schema is there: the monitor of what it has of the wanted columns is requested. -/
def choose (s : Session V) (call : Call) (payload : Payload V) (sent : Bool) : Client V :=
  match payload with
  | .schema schema =>
    let s := { s with schema := some schema }
    if !s.readOnly && !schema.qualified then
      fails s call (.emosa ⟨.schemaMismatch, "the pod's schema is not the profile's generation"⟩)
    else
      ask { s with
          selected := schema.select s.monitorColumns
          monitorId := some (monitorName s.generation) } call sent (.monitor call)
  | _ => fails s call (.emosa ⟨.schemaMismatch, "invalid OVSDB schema"⟩)

/-- The monitor's first reply: the cache is made from it alone. -/
def fill (s : Session V) (call : Call) (payload : Payload V) : Client V :=
  match s.update payload.updates? true with
  | (s, .error e) => fails s call e
  | (s, .ok ()) => { session := { s with ready := true }, phase := .draining call 128 }

/-- The notifications are taken: a snapshot is done, a transaction is sent. -/
def finish (s : Session V) (call : Call) (sent : Bool) : Client V :=
  if s.ready = false then
    fails s call (.emosa ⟨.notReady, "connection lost while draining monitor"⟩)
  else
    match call with
    | .snapshot => { session := s }
    | .transact id generation discard =>
      if generation.isSome ∧ generation ≠ some s.generation then { session := s }
      else if sent then
        { session := s, phase := .transacting ⟨.text id, s.generation, discard⟩ }
      else { session := s }

def pass (c : Client V) (a : Arrival V) (sent : Bool) : Client V :=
  match c.phase with
  | .idle => c
  | .connecting call =>
    match c.session.pump a with
    | (s, .error e) => fails s call e
    | (s, .ok _) => if s.connected then start s call sent else { session := s, phase := c.phase }
  | .schema call w =>
    match c.session.hear w a with
    | (s, some (.error e)) => fails s call e
    | (s, some (.ok payload)) => choose s call payload sent
    | (s, none) => { session := s, phase := c.phase }
  | .monitor call w =>
    match c.session.hear w a with
    | (s, some (.error e)) => fails s call e
    | (s, some (.ok payload)) => fill s call payload
    | (s, none) => { session := s, phase := c.phase }
  | .draining call left =>
    match c.session.pump a with
    | (s, .error e) => fails s call e
    | (s, .ok _) =>
      if s.revision = c.session.revision ∨ left ≤ 1 then finish s call sent
      else { session := s, phase := .draining call (left - 1) }
  | .transacting w =>
    match c.session.hear w a with
    | (s, some _) => { session := s }
    | (s, none) => { session := s, phase := c.phase }

/-- The session is being closed: the waits look at it, the notifications are taken to their end. -/
def stop (c : Client V) : Client V :=
  match c.phase with
  | .connecting call => fails c.session call (.emosa ⟨.notReady, "session shutting down"⟩)
  | .schema call _ | .monitor call _ => fails c.session call .connection
  | .transacting _ => { session := c.session }
  | _ => c

def expire (c : Client V) : Client V :=
  match c.phase with
  | .connecting call => fails c.session call (.emosa ⟨.notReady, "OVSDB endpoint did not connect"⟩)
  | .schema call _ | .monitor call _ => fails c.session.invalidate call .timeout
  | .transacting _ => { session := c.session.invalidate }
  | _ => c

def step (c : Client V) : Input V → Client V
  | .call call =>
    match c.phase with
    | .idle => { c with phase := .connecting call }
    | _ => c
  | .reconnect =>
    match c.phase with
    | .idle => { c with session := c.session.invalidate }
    | _ => c
  | .pass a sent => c.pass a sent
  | .stop => c.stop
  | .expire => c.expire

end Client

/-! ## The server -/

/-- What the message of a step says of the database: it is the reply to the monitor request, it
reports a commit, or neither. -/
inductive Told (V : Type) where
  | answers (db : Db V)
  | commits (db : Db V)
  | silent

/-- `history`: the database at the monitor's reply and after each commit reported since, on this
connection; `columns`: what its monitor covers. -/
structure World (V : Type) where
  client : Client V
  history : List (Db V) := []
  columns : Selected := ∅

structure Event (V : Type) where
  input : Input V
  told : Told V := .silent

namespace World

def step (w : World V) (e : Event V) : World V :=
  let client := w.client.step e.input
  let history := if client.session.generation = w.client.session.generation then w.history else []
  match e.told with
  | .answers db =>
    { client := client, history := history ++ [db], columns := w.client.session.selected }
  | .commits db => { client := client, history := history ++ [db], columns := w.columns }
  | .silent => { client := client, history := history, columns := w.columns }

/-- The step's message is the server's, in its place: the reply to the monitor request reports the
database as a whole, a later update, once a pass takes it, the next commit. A message that is neither is
anything but a reply to the monitor request; where it is an update of a ready session's monitor, it is
a faulty one. -/
def Served (w : World V) (e : Event V) : Prop :=
  match e.told with
  | .answers db => ∃ call wait u size sent,
      w.client.phase = .monitor call wait ∧
      e.input = .pass ⟨.same, .message (.reply wait.id (.updates u)) size⟩ sent ∧
      Replica.Reports (delta u) (fun _ => none) (monitored w.client.session.selected db)
  | .commits db => ∃ before u size sent,
      w.client.phase ≠ .idle ∧
      w.history.getLast? = some before ∧
      e.input = .pass ⟨.same, .message (.update
        [.text (monitorName w.client.session.generation), .updates u]) size⟩ sent ∧
      Replica.Reports (delta u) (monitored w.columns before) (monitored w.columns db)
  | .silent => ∀ link m size sent, e.input = .pass ⟨link, .message m size⟩ sent →
      (∀ call wait payload, w.client.phase = .monitor call wait → m ≠ .reply wait.id payload) ∧
      ∀ p q rest, m = .update (p :: q :: rest) →
        (w.client.session.meet link).ready = true →
        p.names (w.client.session.meet link).monitorId = true →
        (w.client.session.meet link).Faulty q size

def run (w : World V) (es : List (Event V)) : World V := Durable.runs step w es

def init (monitorColumns : Selected) (rowLimit messageLimit : Nat) (pinned readOnly : Bool) :
    World V :=
  { client := { session :=
      { monitorColumns := monitorColumns, rowLimit := rowLimit, messageLimit := messageLimit,
        pinned := pinned, readOnly := readOnly } } }

end World

end Emosa.Opensync
