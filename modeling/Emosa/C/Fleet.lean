import Emosa.Fleet.Registry

/-!
# Emosa.C.Fleet

The registry of the fleet in C. It keeps its entries in an array, in the order they were read in or
made; an entry is found by its serial, and the calls change the array in place. `emRegistryLoad`
checks a file member by member and gives what it read before the first member that fails a check.

The file is the one of `Emosa.Fleet.Registry`: the text is written by serial there as here.
-/

namespace Emosa.C
namespace EmFleet

open Fleet Fleet.Registry

/-- `handovers` is an `unsigned`. -/
structure EmFleetEntry where
  podId : String
  alMac : String
  interface : String
  port : Nat
  handovers : UInt32 := 0
  nodeId : Option String := none
  model : Option String := none
  firmware : Option String := none
  firstSeen : ℚ
  lastSeen : ℚ := 0
  underlay : Option Underlay := none
  deriving DecidableEq

/-- `movedFrom`: the reserved port the last call moved its entry off, 0 for none. -/
structure EmRegistry where
  portLow : Nat
  portHigh : Nat
  reservedAl : String
  gtpUnderlay : Option Network
  reserved : List Nat
  movedFrom : Nat := 0
  entries : List EmFleetEntry := []

def serialChar (c : Char) (first : Bool) : Bool :=
  c.isAlphanum || (!first && (c == '.' || c == '_' || c == '-'))

def emSerialValid (serial : String) : Bool :=
  match serial.toList with
  | [] => false
  | c :: rest => serialChar c true && rest.length < 64 && rest.all fun c => serialChar c false

namespace EmRegistry

variable (sha : Sha) (r : EmRegistry)

def find (serial : String) : Option EmFleetEntry := r.entries.find? fun e => e.podId == serial

def update (e : EmFleetEntry) : EmRegistry :=
  { r with entries := r.entries.map fun x => if x.podId == e.podId then e else x }

def append (e : EmFleetEntry) : EmRegistry := { r with entries := r.entries ++ [e] }

def emDeriveAl (serial : String) (taken : List String) : Option String :=
  ((List.range 256).map (alMac sha serial)).find? fun al => !taken.any (· == al)

/-- The lowest underlay clear of `gtp` that no entry but `skip` has. -/
def emFreeUnderlay (gtp : Network) (skip : EmFleetEntry) : Option Underlay :=
  Underlay.all.find? fun u => !u.network.maskedEq gtp &&
    r.entries.all fun e => e.podId == skip.podId || decide (e.underlay ≠ some u)

/-- The entry in line with the GTP underlay, and whether its underlay changed. -/
def place (gtp : Network) (e : EmFleetEntry) (held : Option Underlay) : EmFleetEntry × Bool :=
  if e.underlay.any fun u => !u.network.maskedEq gtp then (e, false)
  else
    let keep := held.any fun u => !u.network.maskedEq gtp &&
      r.entries.all fun x => x.podId == e.podId || decide (x.underlay ≠ some u)
    let underlay := if keep then held else r.emFreeUnderlay gtp e
    ({ e with underlay := underlay }, decide (underlay ≠ e.underlay))

def emRegistryReserved (port : Nat) : Bool := decide (port ∈ r.reserved)

def emRegistryPortFree (port : Nat) : Bool :=
  decide (r.portLow ≤ port) && decide (port ≤ r.portHigh) && !r.emRegistryReserved port &&
    r.entries.all fun e => decide (e.port ≠ port)

def ports : List Nat := List.range' r.portLow (r.portHigh + 1 - r.portLow)

def interface (port : Nat) : String := "em" ++ toString (port - r.portLow + 1)

/-- The seed of a serial of at most 64 characters fits its buffer. -/
def create (serial : String) (port : Nat) (now : ℚ) : Option EmFleetEntry :=
  if serial.length > 64 then none
  else
    (emDeriveAl sha serial (r.reservedAl :: r.entries.map (·.alMac))).map fun al =>
      { podId := serial, alMac := al, port := port, interface := r.interface port, firstSeen := now }

/-- A row's column, where it is a text. -/
def rowText : Cell → Option String
  | .text s => some s
  | .null | .unset => none

def seen (e : EmFleetEntry) (identity : Identity) (now : ℚ) (held : Option Underlay) : EmFleetEntry :=
  let e := { e with
    nodeId := rowText identity.id
    model := rowText identity.model
    firmware := rowText identity.firmware
    lastSeen := now
    handovers := e.handovers + 1 }
  match r.gtpUnderlay with
  | some gtp => (r.place gtp e held).1
  | none => e

/-- The entry, off its reserved port, with the port it left; none when no other is free. -/
def moveOffReserved (e : EmFleetEntry) : Option (EmFleetEntry × Nat) :=
  if !r.emRegistryReserved e.port then some (e, 0)
  else (r.ports.find? r.emRegistryPortFree).map fun p =>
    ({ e with port := p, interface := r.interface p }, e.port)

def again (e : EmFleetEntry) (identity : Identity) (now : ℚ) (held : Option Underlay) :
    Option (EmFleetEntry × EmRegistry) :=
  (r.moveOffReserved e).map fun (moved, old) =>
    let r := r.update moved
    let e := r.seen moved identity now held
    (e, { r.update e with movedFrom := old })

def admission (identity : Identity) (port : Nat) (now : ℚ) (held : Option Underlay) :
    Option (EmFleetEntry × EmRegistry) :=
  (r.create sha identity.serial port now).map fun e =>
    let r := r.append e
    let e := r.seen e identity now held
    (e, { r.update e with movedFrom := 0 })

def emRegistryAssignHeld (identity : Identity) (now : ℚ) (held : Option Underlay) :
    Option (EmFleetEntry × EmRegistry) :=
  match r.find identity.serial with
  | some e => r.again e identity now held
  | none =>
    -- a port of 0 stands for none found
    match r.ports.find? fun p => p != 0 && r.emRegistryPortFree p with
    | none => none
    | some port => r.admission sha identity port now held

def emRegistryAdopt (identity : Identity) (port : Nat) (now : ℚ) (held : Option Underlay) :
    Placed × Option (EmFleetEntry × EmRegistry) :=
  match r.find identity.serial with
  | some e => (.registered, r.again e identity now held)
  | none =>
    (.adopted,
      if !r.emRegistryPortFree port then none else r.admission sha identity port now held)

def emRegistryForget (serial : String) : Option (EmFleetEntry × EmRegistry) :=
  (r.find serial).map fun e => (e, { r with entries := r.entries.filter fun x => x.podId != serial })

/-- Every entry's underlay, in the order of the array, and whether one changed. -/
def emRegistrySettle : EmRegistry × Bool :=
  match r.gtpUnderlay with
  | none => (r, false)
  | some gtp =>
    r.entries.foldl (fun acc e =>
      let placed := acc.1.place gtp e none
      (acc.1.update placed.1, placed.2 || acc.2)) (r, false)

/-! ## The file -/

def stringOrNull : Option String → Cell
  | some s => .text s
  | none => .null

def emFleetEntryJson (e : EmFleetEntry) : Entry where
  podId := e.podId
  alMac := e.alMac
  port := e.port
  interface := e.interface
  firstSeen := e.firstSeen
  handovers := e.handovers.toNat
  nodeId := stringOrNull e.nodeId
  model := stringOrNull e.model
  firmware := stringOrNull e.firmware
  lastSeen := e.lastSeen
  underlay := e.underlay

/-- The file's object, as a reader finds it. -/
def emRegistryDump : Agents :=
  (r.entries.foldl (fun d e => d.set e.podId (emFleetEntryJson e)) ∅ : Agents).sorted

/-- A string-or-null member. -/
def memberOptional : Cell → Bool
  | .null | .text _ => true
  | .unset => false

def memberNumber (low high v : ℚ) : Bool := decide (low ≤ v) && decide (v ≤ high)

def loadable (sofar : List EmFleetEntry) (key : String) (e : Entry) : Bool :=
  emSerialValid key && decide (e.podId.length < 65) && e.podId == key &&
    decide (e.alMac.length < 18) && decide (e.interface.length < 16) &&
    memberNumber 1 65535 e.port && memberNumber 1 4294967295 e.handovers &&
    memberNumber (-10 ^ 18) (10 ^ 18) e.firstSeen && memberNumber (-10 ^ 18) (10 ^ 18) e.lastSeen &&
    !sofar.any (fun x => x.podId == e.podId) && memberOptional e.nodeId && memberOptional e.model &&
    memberOptional e.firmware

def ofEntry (e : Entry) : EmFleetEntry where
  podId := e.podId
  alMac := e.alMac
  interface := e.interface
  port := e.port
  handovers := UInt32.ofNat e.handovers
  nodeId := rowText e.nodeId
  model := rowText e.model
  firmware := rowText e.firmware
  firstSeen := e.firstSeen
  lastSeen := e.lastSeen
  underlay := e.underlay

/-- Whether all members were good, and those read. -/
def emRegistryLoad (sofar : List EmFleetEntry) : List (String × Entry) → Bool × List EmFleetEntry
  | [] => (true, sofar)
  | (key, e) :: rest =>
    if loadable sofar key e then emRegistryLoad (sofar ++ [ofEntry e]) rest else (false, sofar)

end EmRegistry

/-! ## The calls of the fleet -/

/-- `unreadable`: the file is not a registry, and nothing was done. -/
inductive EmAnswer where
  | answered (a : Answer)
  | unreadable
  deriving DecidableEq

def EmRegistry.opened (f : Fixed) (s : Settings) : EmRegistry where
  portLow := s.low
  portHigh := s.high
  reservedAl := f.reservedAls.headD ""
  gtpUnderlay := s.gtp
  reserved := s.reservedPorts

def registryMax : Nat := 16 * 1024 * 1024

/-- `octets`: the size of the file's text. -/
def reload (f : Fixed) (s : Settings) (octets : Nat) (file : Agents) : Bool × EmRegistry :=
  if octets > registryMax then (false, EmRegistry.opened f s)
  else
    let (ok, entries) := EmRegistry.emRegistryLoad [] file.entries
    (ok, { EmRegistry.opened f s with entries := entries })

/-- The handover's copy of the entry, without the pod's own values. -/
def given (e : EmFleetEntry) (r : EmRegistry) : Given :=
  ⟨EmRegistry.emFleetEntryJson { e with nodeId := none, model := none, firmware := none },
    if r.movedFrom = 0 then none else some r.movedFrom⟩

/-- What the fleet makes of a call that gave no entry. -/
def refused (r : EmRegistry) (serial : String) : Option Nat → Answer
  | none => .given none
  | some port =>
    match r.find serial with
    | some own =>
      if r.emRegistryReserved own.port then .placed .registered none
      else if r.emRegistryReserved port then .placed .reserved none
      else .placed .taken none
    | none => if r.emRegistryReserved port then .placed .reserved none else .placed .taken none

/-- A pod at the front port, or at an agent port. -/
def emFleetIdentifyAt (f : Fixed) (s : Settings) (octets : Nat) (file : Agents) (identity : Identity)
    (port : Option Nat) (held : Option Underlay) (now : ℚ) : EmAnswer × Agents :=
  let (ok, r) := reload f s octets file
  if !ok then (.unreadable, file)
  else
    let (how, found) : (Option Given → Answer) × Option (EmFleetEntry × EmRegistry) :=
      match port with
      | none => (.given, r.emRegistryAssignHeld f.sha identity now held)
      | some port =>
        let (placed, found) := r.emRegistryAdopt f.sha identity port now held
        (.placed placed, found)
    match found with
    | none => (.answered (refused r identity.serial port), file)
    | some (e, r) => (.answered (how (some (given e r))), r.emRegistryDump)

def emFleetStartRegistered (f : Fixed) (s : Settings) (octets : Nat) (file : Agents) : EmAnswer × Agents :=
  let (ok, r) := reload f s octets file
  if !ok then (.unreadable, file)
  else
    let (r, changed) := r.emRegistrySettle
    (.answered .settled, if changed then r.emRegistryDump else file)

/-- The file is written whatever was found, also when it was not readable. -/
def emFleetForget (f : Fixed) (s : Settings) (octets : Nat) (file : Agents) (serial : String) :
    EmAnswer × Agents :=
  let (ok, r) := reload f s octets file
  match if ok then r.emRegistryForget serial else none with
  | none => (if ok then .answered (.forgotten none) else .unreadable, r.emRegistryDump)
  | some (e, r) => (.answered (.forgotten (some (EmRegistry.emFleetEntryJson e))), r.emRegistryDump)

def emCall (f : Fixed) (s : Settings) (octets : Nat) (file : Agents) : Call → EmAnswer × Agents
  | .assign identity held now => emFleetIdentifyAt f s octets file identity none held now
  | .adopt identity port held now => emFleetIdentifyAt f s octets file identity (some port) held now
  | .forget serial => emFleetForget f s octets file serial
  | .settle => emFleetStartRegistered f s octets file

end EmFleet
end Emosa.C
