import Emosa.Lib.DictOrder
import Emosa.Lib.Network
import Mathlib.Data.Rat.Defs

/-!
# Emosa.Fleet.Registry

The fleet's registry: the agent entry of every pod it has seen, by serial, with the port, the
interface, the AL MAC and the underlay it was given. The registry is a file. A call reads it, works
on what it read, and most calls write it again; `call` is the work, from the entries read to the
answer and the entries to be written.

The file is the dictionary it holds, in the order it is written in (by serial).
-/

namespace Emosa.Fleet

/-- A column of the pod's row: its text, missing, or unset (the empty set). -/
inductive Cell where
  | null
  | text (s : String)
  | unset
  deriving DecidableEq, Repr

/-- `169.254.N.0/24`, N from 1 to 254. -/
structure Underlay where
  n : Nat
  pos : 1 ≤ n
  le : n ≤ 254
  deriving DecidableEq

def Underlay.network (u : Underlay) : Network where
  base := 0xa9fe0000 + u.n * 256
  len := 24
  len_le := by decide
  base_lt := by have := u.le; omega
  aligned := by
    show 256 ∣ _
    omega

def Underlay.all : List Underlay :=
  (List.range 254).filterMap fun i => if h : i + 1 ≤ 254 then some ⟨i + 1, by omega, h⟩ else none

structure Entry where
  podId : String
  alMac : String
  port : Nat
  interface : String
  firstSeen : ℚ
  handovers : Nat := 0
  nodeId : Cell := .null
  model : Cell := .null
  firmware : Cell := .null
  lastSeen : ℚ := 0
  underlay : Option Underlay := none
  deriving DecidableEq

abbrev Agents := Dict String Entry

/-- The SHA-256 digest of a text. -/
abbrev Sha := String → Fin 32 → UInt8

def hexByte (b : UInt8) : String :=
  String.ofList [Nat.digitChar (b.toNat / 16), Nat.digitChar (b.toNat % 16)]

/-- The locally administered unicast AL MAC the serial gives at try `n`. -/
def alMac (sha : Sha) (serial : String) (n : Nat) : String :=
  let digest := sha ("emosa-agent-al:" ++ serial ++ ":" ++ toString n)
  "02:" ++ hexByte (digest 0) ++ ":" ++ hexByte (digest 1) ++ ":" ++ hexByte (digest 2) ++ ":" ++
    hexByte (digest 3) ++ ":" ++ hexByte (digest 4)

/-- The first that is not taken; none where all 256 tries are. -/
def deriveAl (sha : Sha) (serial : String) (taken : List String) : Option String :=
  ((List.range 256).map (alMac sha serial)).find? fun al => decide (al ∉ taken)

/-- The lowest that overlaps neither the GTP underlay nor one in use. -/
def freeUnderlay (gtp : Network) (used : List Underlay) : Option Underlay :=
  Underlay.all.find? fun u => !u.network.overlaps gtp && decide (u ∉ used)

/-- What of the fleet's configuration the registry is opened with. `low`, `high`: the agent ports,
both included. -/
structure Settings where
  low : Nat
  high : Nat
  reservedPorts : List Nat := []
  gtp : Option Network := none

def Settings.ports (s : Settings) : List Nat := List.range' s.low (s.high + 1 - s.low)

/-- `em<index>`, the port's place in the range. -/
def Settings.interface (s : Settings) (port : Nat) : String :=
  "em" ++ toString (s.ports.idxOf port + 1)

structure Identity where
  serial : String
  id : Cell := .null
  model : Cell := .null
  firmware : Cell := .null
  deriving DecidableEq

namespace Registry

/-- `sha` and the AL MACs no agent may have do not change over the fleet's life. -/
structure Fixed where
  sha : Sha
  reservedAls : List String

variable (f : Fixed) (s : Settings) (agents : Agents)

/-- The underlay of an entry: its own while it is clear of the GTP underlay, then the one the pod
already has where no other entry uses it, then the lowest free one. -/
def underlay (gtp : Network) (serial : String) (entry : Entry) (held : Option Underlay) :
    Option Underlay :=
  let used := (agents.erase serial).entries.filterMap fun e => e.2.underlay
  let clear (u : Underlay) : Bool := !u.network.overlaps gtp
  match entry.underlay.filter clear with
  | some mine => some mine
  | none =>
    match held.filter fun u => decide (u ∉ used) && clear u with
    | some u => some u
    | none => freeUnderlay gtp used

/-- The entry brought in line with the GTP underlay. -/
def place (gtp : Network) (serial : String) (entry : Entry) (held : Option Underlay) : Entry :=
  { entry with underlay := underlay agents gtp serial entry held }

def create (serial : String) (port : Nat) (now : ℚ) : Option Entry :=
  let taken := f.reservedAls ++ agents.entries.map fun e => e.2.alMac
  (deriveAl f.sha serial taken).map fun al =>
    { podId := serial, alMac := al, port := port, interface := s.interface port, firstSeen := now }

def seen (entry : Entry) (identity : Identity) (held : Option Underlay) (now : ℚ) : Entry :=
  let entry := { entry with
    nodeId := identity.id
    model := identity.model
    firmware := identity.firmware
    lastSeen := now
    handovers := entry.handovers + 1 }
  match s.gtp with
  | some gtp => place agents gtp identity.serial entry held
  | none => entry

def free : List Nat :=
  s.ports.filter fun p =>
    decide (p ∉ agents.entries.map fun e => e.2.port) && decide (p ∉ s.reservedPorts)

/-- An entry on a reserved port on the first free port. -/
def move (entry : Entry) : Option Entry :=
  match if entry.port ∈ s.reservedPorts then free s agents else [] with
  | [] => none
  | port :: _ => some { entry with port := port, interface := s.interface port }

/-- What a call returns of an entry: a copy, with the port it left. -/
structure Given where
  entry : Entry
  movedFrom : Option Nat := none
  deriving DecidableEq

/-- How `adopt` found the pod's entry. -/
inductive Placed where
  | adopted
  | registered
  | taken
  | reserved
  deriving DecidableEq, Repr

/-- `noAl`: the call raised, no AL MAC was free. -/
inductive Answer where
  | given (g : Option Given)
  | placed (how : Placed) (g : Option Given)
  | forgotten (e : Option Entry)
  | settled
  | noAl
  deriving DecidableEq

/-- What a call answers, and what it writes. -/
abbrev Outcome := Answer × Option Agents

/-- An entry found again, off its reserved port first; none when it is on one and none is free. -/
def seenMoved (entry : Entry) (identity : Identity) (held : Option Underlay) (now : ℚ) :
    Option (Given × Agents) :=
  match move s agents entry with
  | some moved =>
    let e := seen s agents moved identity held now
    some (⟨e, some entry.port⟩, agents.set identity.serial e)
  | none =>
    if entry.port ∈ s.reservedPorts then none
    else
      let e := seen s agents entry identity held now
      some (⟨e, none⟩, agents.set identity.serial e)

def admission (how : Option Given → Answer) (identity : Identity) (port : Nat)
    (held : Option Underlay) (now : ℚ) : Outcome :=
  match create f s agents identity.serial port now with
  | none => (.noAl, none)
  | some entry =>
    let e := seen s (agents.set identity.serial entry) entry identity held now
    (how (some ⟨e, none⟩), some (agents.set identity.serial e))

def again (how : Option Given → Answer) (entry : Entry) (identity : Identity)
    (held : Option Underlay) (now : ℚ) : Outcome :=
  match seenMoved s agents entry identity held now with
  | some (g, agents) => (how (some g), some agents)
  | none => (how none, none)

def assign (identity : Identity) (held : Option Underlay) (now : ℚ) : Outcome :=
  match agents.get? identity.serial with
  | some entry => again s agents .given entry identity held now
  | none =>
    match free s agents with
    | [] => (.given none, none)
    | port :: _ => admission f s agents .given identity port held now

def adopt (identity : Identity) (port : Nat) (held : Option Underlay) (now : ℚ) : Outcome :=
  match agents.get? identity.serial with
  | some entry => again s agents (.placed .registered) entry identity held now
  | none =>
    if port ∈ s.reservedPorts then (.placed .reserved none, none)
    else if port ∉ s.ports || agents.entries.any fun e => e.2.port == port then
      (.placed .taken none, none)
    else admission f s agents (.placed .adopted) identity port held now

def forget (serial : String) : Outcome :=
  (.forgotten (agents.get? serial), some (agents.erase serial))

/-- One entry of `settle`, and whether its underlay changed. -/
def settleOne (gtp : Network) (acc : Agents × Bool) (serial : String) : Agents × Bool :=
  match acc.1.get? serial with
  | none => acc
  | some entry =>
    let placed := place acc.1 gtp serial entry none
    (acc.1.set serial placed, acc.2 || decide (placed.underlay ≠ entry.underlay))

/-- Every entry's underlay, in the order of the serials. -/
def settle : Outcome :=
  match s.gtp with
  | none => (.settled, none)
  | some gtp =>
    let (placed, changed) := agents.sorted.keys.foldl (settleOne gtp) (agents, false)
    (.settled, if changed then some placed else none)

inductive Call where
  | assign (identity : Identity) (held : Option Underlay) (now : ℚ)
  | adopt (identity : Identity) (port : Nat) (held : Option Underlay) (now : ℚ)
  | forget (serial : String)
  | settle
  deriving DecidableEq

def call : Call → Outcome
  | .assign identity held now => assign f s agents identity held now
  | .adopt identity port held now => adopt f s agents identity port held now
  | .forget serial => forget agents serial
  | .settle => settle s agents

/-- The file after a call: rewritten, by serial, where the call writes it. -/
def written (agents : Agents) : Option Agents → Agents
  | none => agents
  | some new => new.sorted

def after (c : Call) : Agents := written agents (call f s agents c).2

end Registry
end Emosa.Fleet
