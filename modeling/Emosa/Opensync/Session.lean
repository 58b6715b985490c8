import Mathlib.Algebra.BigOperators.Fin
import Emosa.Store
import Emosa.Opensync.Tables

/-!
# Emosa.Opensync.Session

The OVSDB session of the agent: its cache of the monitored tables, and the wait for the reply to a
request. One `pump` is one pass over the connection: it may find the connection gone or replaced,
and it takes at most one message. An update of the session's own monitor goes into the cache as a
whole or not at all; one that does not pass ends the connection (`invalidate`).

What the JSON-RPC library does inside a pass comes in an `Arrival`. The reconnect it is asked for is
made by its next pass, so a connection that is over (`forced`) is never the same in that pass.
-/

namespace Emosa.Opensync

variable {V : Type}

/-- What the session reads of the pod's schema: the columns of its tables, whether every column of a
row decodes, and whether it is the schema of the profile's generation. -/
structure Schema (V : Type) where
  columns : String → Option (List String)
  valid : String → Row V → Bool
  qualified : Bool

inductive Id where
  | number (n : Nat)
  | text (s : String)
  deriving DecidableEq, Repr

/-- An error of the database: a text, never an empty one. -/
structure DatabaseError where
  text : String
  nonempty : text ≠ ""
  deriving DecidableEq

/-- The result of one operation of a transaction. `other` is what is not an object. -/
inductive OpResult where
  | object (error : Option DatabaseError) (count : Option Int)
  | other
  deriving DecidableEq

/-- The result a reply carries, by what it reads as. -/
inductive Payload (V : Type) where
  | schema (s : Schema V)
  | updates (u : Updates V)
  | results (l : List OpResult)
  | other

/-- A parameter of a notification. `loose` are updates that are not in the protocol's form and read as
`u` all the same: whatever a row's change is, it is a deletion where it has no "new", and a list of
pairs is as good a "new" as a row. `other` is what cannot be read. -/
inductive Param (V : Type) where
  | text (s : String)
  | null
  | updates (u : Updates V)
  | loose (u : Updates V)
  | other

/-- A message. The library answers echo requests itself. -/
inductive Message (V : Type) where
  | update (params : List (Param V))
  | notify
  | reply (id : Id) (result : Payload V)
  | error (id : Id)
  | request (id : Id)

/-- The connection a pass finds: the one before, none, or another, its peer's certificate the pinned
one or not. -/
inductive Link where
  | same
  | gone
  | fresh (pinned : Bool)
  deriving DecidableEq, Repr

/-- What a pass reads. A broken connection may be replaced in the same pass, unnoticed before the
next one. -/
inductive Received (V : Type) where
  | nothing
  | broken (again : Bool)
  | message (m : Message V) (size : Nat)

structure Arrival (V : Type) where
  link : Link
  received : Received V

/-- The first five fields are the session's configuration. -/
structure Session (V : Type) where
  monitorColumns : Selected
  rowLimit : Nat := 10000
  messageLimit : Nat := 16777216
  pinned : Bool := false
  readOnly : Bool := false
  cache : Tables V := ∅
  ready : Bool := false
  generation : Nat := 0
  revision : Nat := 0
  monitorId : Option String := none
  schema : Option (Schema V) := none
  selected : Selected := ∅
  connected : Bool := false
  forced : Bool := false
  nextId : Nat := 0

def Param.names (p : Param V) (monitorId : Option String) : Bool :=
  match p with
  | .text s => monitorId = some s
  | .null => monitorId = none
  | _ => false

def Param.updates? : Param V → Option (Updates V)
  | .updates u | .loose u => some u
  | _ => none

/-- The message has the id of the request. -/
def Message.answers (m : Message V) (id : Id) : Bool :=
  match m with
  | .reply id' _ | .error id' | .request id' => id' = id
  | _ => false

/-- What the request made of the message that has its id. -/
def Message.result : Message V → Except Exn (Payload V)
  | .reply _ payload => .ok payload
  | .error _ => .error (.emosa ⟨.preconditionFailed, "OVSDB request rejected"⟩)
  | _ => .ok .other

namespace Session

def invalidate (s : Session V) : Session V :=
  { s with ready := false, monitorId := none, forced := true }

/-- A row of an update onto the table's rows; every column of the row it gives has to decode. -/
def admitRow (s : Session V) (table : String) (rows : Rows V) (e : String × Option (Row V)) :
    Option (Rows V) :=
  if e.2.isNone || s.schema.any (·.valid table (((applyRow rows e).get? e.1).getD ∅)) then
    some (applyRow rows e)
  else none

def admitTable (s : Session V) (candidate : Tables V) (e : String × Dict String (Option (Row V))) :
    Option (Tables V) :=
  if (s.selected.get? e.1).isNone then none
  else (e.2.entries.foldlM (s.admitRow e.1) ((candidate.get? e.1).getD ∅)).map (candidate.set e.1)

/-- The cache an update gives, where it passes: known tables, rows that decode, within the budget. -/
def admitted (s : Session V) (initial : Bool) (updates : Updates V) : Option (Tables V) :=
  (updates.entries.foldlM s.admitTable (if initial then ∅ else s.cache)).filter fun candidate =>
    (candidate.entries.map fun e => e.2.length).sum ≤ s.rowLimit

def update (s : Session V) (updates : Option (Updates V)) (initial : Bool) :
    Session V × Except Exn Unit :=
  match updates.bind (s.admitted initial) with
  | none => (s.invalidate,
      .error (.emosa ⟨.notReady, "monitor continuity lost; resynchronization required"⟩))
  | some candidate => ({ s with cache := candidate, revision := s.revision + 1 }, .ok ())

/-- The update has a table that is not monitored, a row that does not decode, or takes the cache over
its budget. -/
def Bad (s : Session V) (u : Updates V) : Prop :=
  (∃ table changes, u.get? table = some changes ∧ s.selected.get? table = none) ∨
  (∃ table changes uuid new, u.get? table = some changes ∧ changes.get? uuid = some (some new) ∧
    ¬ s.schema.any (·.valid table
      (mergeRow ((((s.cache.get? table).getD ∅).get? uuid).getD ∅) new))) ∨
  s.rowLimit < ((applyTables s.cache u).entries.map fun e => e.2.length).sum

/-- What a notification of the session's monitor has for its updates is malformed, fails validation
or is over a budget. -/
def Faulty (s : Session V) (q : Param V) (size : Nat) : Prop :=
  s.messageLimit < size ∨ ∀ u, q = .updates u → s.Bad u

/-- The connection of this pass. -/
def meet (s : Session V) : Link → Session V
  | .same =>
    if s.connected && !s.forced then s
    else { s with connected := false, forced := false, ready := false, monitorId := none }
  | .gone => { s with connected := false, forced := false, ready := false, monitorId := none }
  | .fresh _ =>
    { s with
      connected := true
      forced := false
      ready := false
      monitorId := none
      generation := s.generation + 1 }

def stranger (s : Session V) (link : Link) : Bool := s.pinned && link = .fresh false

/-- A message taken. Notifications are dealt with here, others are the caller's. -/
def take (s : Session V) (m : Message V) (size : Nat) :
    Session V × Except Exn (Option (Message V)) :=
  if s.messageLimit < size then
    (s.invalidate, .error (.emosa ⟨.notReady, "OVSDB decoded message budget exhausted"⟩))
  else
    match m with
    | .update [] => (s, .error .other)
    | .update (p :: rest) =>
      if p.names s.monitorId then
        match rest with
        | [] => (s, .error .other)
        | q :: _ =>
          let (s, result) := s.update q.updates? false
          (s, result.map fun _ => none)
      else (s, .ok none)
    | .notify => (s, .ok none)
    | m => (s, .ok (some m))

def pump (s : Session V) (a : Arrival V) : Session V × Except Exn (Option (Message V)) :=
  if s.stranger a.link then
    ((s.meet a.link).invalidate,
      .error (.emosa ⟨.preconditionFailed, "TLS peer certificate pin mismatch"⟩))
  else
    let s := s.meet a.link
    if s.connected = false then (s, .ok none)
    else
      match a.received with
      | .nothing => (s, .ok none)
      | .broken again => ({ s with ready := false, connected := again, forced := true }, .ok none)
      | .message m size => s.take m size

/-- A request under way: its id, the connection it was sent on, and whether its reply is to be
dropped (a fault the laboratory injects). -/
structure Wait where
  id : Id
  generation : Nat
  discard : Bool := false

/-- One turn of the loop of `_request`; a result ends it. -/
def hear (s : Session V) (w : Wait) (a : Arrival V) :
    Session V × Option (Except Exn (Payload V)) :=
  match s.pump a with
  | (s, .error e) => (s, some (.error e))
  | (s, .ok message) =>
    if s.generation ≠ w.generation ∨ s.connected = false then
      ({ s with ready := false }, some (.error .connection))
    else
      match message with
      | none => (s, none)
      | some m =>
        if m.answers w.id then
          if w.discard then (s.invalidate, some (.error .connection)) else (s, some m.result)
        else (s, none)

/-- What the loop of a request meets: a pass over the connection, or the session being closed. Its
deadline comes when there are no more turns. -/
inductive Turn (V : Type) where
  | pass (a : Arrival V)
  | stop

def request (w : Wait) : Session V → List (Turn V) → Session V × Except Exn (Payload V)
  | s, [] => (s.invalidate, .error .timeout)
  | s, .stop :: _ => (s, .error .connection)
  | s, .pass a :: turns =>
    match s.hear w a with
    | (s, some result) => (s, result)
    | (s, none) => request w s turns

end Session

end Emosa.Opensync
