import Emosa.Gtp.Leases

/-!
# Emosa.C.Gtp

The GRE termination point in C.

The C commands load the lease times from their file, walk the cJSON object and the arrays of
tunnels and leases where the reference walks dictionaries and sets, use -1 for a number that is
missing, and keep the lengths of the leases as doubles. Both files are read up to a size; of one that
is larger nothing is read.

`emGtpReconcile` ensures the tunnels of the lease file only, where the reference ensures those
of the kept leases as well.
-/

namespace Emosa.C
namespace EmGtp

open Gtp

def leasesMax : Nat := 4 * 1024 * 1024

def timesMax : Nat := 1024 * 1024

/-- `strtol` of a run of digits stops at the largest long. -/
def strtol (n : Nat) : Nat := min n (2 ^ 63 - 1)

/-- The seconds of `lease_time`, a product in a 64-bit long; -1 for an infinite lease. -/
def configured : LeaseTime → Int
  | .infinite => -1
  | .seconds n => strtol n
  | .minutes n => (strtol n * 60 : Int).bmod (2 ^ 64)
  | .hours n => (strtol n * 3600 : Int).bmod (2 ^ 64)

/-- -1 for an infinite lease; `now` is `time(NULL)`. -/
def leaseLength (config : Config) (environ : Environ) (now : Nat) : Int :=
  match environ.length, environ.expires with
  | some v, _ => strtol v
  | none, some v =>
    if 0 < strtol v then if now < strtol v then strtol v - now else 0
    else configured config.leaseTime
  | none, none => configured config.leaseTime

/-- The nearest number with a significand of 53 bits, of two the even one. -/
def double (n : Nat) : Nat :=
  let ulp := 2 ^ (n.log2 - 52)
  let q := n / ulp
  let rest := n % ulp
  (if ulp < 2 * rest ∨ ulp = 2 * rest ∧ q % 2 = 1 then q + 1 else q) * ulp

/-- The numbers of cJSON are doubles. -/
def loaded (lease : Lease) : Lease :=
  { lease with length := lease.length.map double, timed := fun h => by simpa using lease.timed h }

def timesLoad (size : Nat) (saved : Dict Ip Lease) : Dict Ip Lease :=
  if size ≤ timesMax then
    { entries := saved.entries.map fun e => (e.1, loaded e.2), nodup := by simpa [Function.comp_def] using saved.nodup }
  else ∅

def number (v : Option ℚ) (fallback : ℚ) : ℚ := v.getD fallback

def lengthOf (entry : Lease) : ℚ := number (entry.length.map fun n => (n : ℚ)) (-1)

def earlyOf (entry : Lease) : ℚ := number (entry.early.map fun t => (t : ℚ)) (-1)

/-- -1 when the lease ran its length. A start on the boot clock is never negative. -/
def earlyBy (times : Dict Ip Lease) (ip : Ip) (now : ℚ≥0) : Int :=
  match times.get? ip with
  | none => -1
  | some entry =>
    if lengthOf entry < 0 then -1
    else
      let margin : ℚ := if lengthOf entry / 4 < 60 then (⌊lengthOf entry⌋ / 4 : Int) else 60
      let left : ℚ := lengthOf entry - ((now : ℚ) - entry.start)
      if margin < left then ⌊left⌋ else -1

/-- 0xFFFFFFFF shifted left by what the prefix leaves, in 32 bits. -/
def prefixMask (bits : Nat) : Nat := if bits = 0 then 0 else (2 ^ 32 - 1) <<< (32 - bits) % 2 ^ 32

def validMac (mac : List Char) : Bool :=
  mac.length = 17 && mac.zipIdx.all fun (c, i) =>
    if i % 3 = 2 then c = ':'
    else ('0' ≤ c && c ≤ '9') || ('a' ≤ c && c ≤ 'f') || ('A' ≤ c && c ≤ 'F')

section Commands

variable (config : Config)

def ensure (tunnels : Dict Name Tunnel) (ip : Ip) : Dict Name Tunnel :=
  let name := tunnelName ip
  let current := tunnels.get? name
  let same := match current with
    | some t => t.here = config.address && t.remote = ip && !t.device.isSome
    | none => false
  if same then tunnels
  else (if current.isSome then tunnels.erase name else tunnels).set name ⟨config.address, ip, none⟩

def removeTunnel (tunnels : Dict Name Tunnel) (ip : Ip) : Dict Name Tunnel :=
  if (tunnels.get? (tunnelName ip)).isSome then tunnels.erase (tunnelName ip) else tunnels

/-- The walk over the entries, each one's successor taken before it is deleted. -/
def sweepFrom (now : ℚ≥0) : List (Ip × Lease) → State → State
  | [], g => g
  | (ip, entry) :: next, g =>
    if 0 ≤ earlyOf entry ∧ 0 ≤ lengthOf entry ∧ lengthOf entry ≤ now - earlyOf entry then
      sweepFrom now next ⟨removeTunnel g.tunnels ip, g.times.erase ip⟩
    else sweepFrom now next g

def sweep (g : State) (now : ℚ≥0) : State := sweepFrom now g.times.entries g

/-- A line is skipped when its MAC is longer than the 17 characters an entry holds. -/
def readLeases (file : List Line) (size : Nat) (now : Nat) : Dict Ip (List Char) :=
  if size ≤ leasesMax then
    file.foldl (fun l line =>
      if line.expiry ≠ 0 ∧ line.expiry ≤ now then l
      else if 17 < line.mac.length then l
      else l.set line.ip (lower line.mac)) ∅
  else ∅

def emGtpReconcile (saved : State) (file : List Line) (timesSize leasesSize : Nat)
    (r : Readings) : State :=
  let g := sweep { saved with times := timesLoad timesSize saved.times } r.sweep
  let l := readLeases file leasesSize ⌊r.wall⌋₊
  let tunnels := g.tunnels.entries.foldl (fun now t =>
    if (l.get? t.2.remote).isNone ∧ number ((g.times.get? t.2.remote).map earlyOf) (-1) < 0 then
      now.erase t.1
    else now) g.tunnels
  { g with tunnels := (l.keys.insertionSort Ip.Before).foldl (ensure config) tunnels }

/-- What a lease event changes before the sweep. -/
def leaseEvent (g : State) (action : Action) (mac : List Char) (ip : Ip) (environ : Environ)
    (r : Readings) : State :=
  match action with
  | .add | .old =>
    let length := leaseLength config environ ⌊r.wall⌋₊
    ⟨ensure config g.tunnels ip, (g.times.erase ip).set ip
      ⟨lower mac, r.event, if length < 0 then none else some (double length.toNat), none, nofun⟩⟩
  | .del =>
    if 0 ≤ earlyBy g.times ip r.event then
      { g with times := LeaseTimes.keep g.times ip r.keep }
    else ⟨removeTunnel g.tunnels ip, g.times.erase ip⟩
  | .other => g

/-- `none` where the source gives no list: the tunnels and the times' file are as they were. -/
def emGtpLease (saved : State) (action : Action) (mac : List Char) (ip : Ip) (environ : Environ)
    (timesSize : Nat) (r : Readings) : Option State :=
  let mask := prefixMask config.bits
  if ip.number &&& mask ≠ config.address.number &&& mask ∨ ¬ validMac mac then none
  else
    let g := { saved with times := timesLoad timesSize saved.times }
    some (sweep (leaseEvent config g action mac ip environ r) r.sweep)

end Commands

end EmGtp
end Emosa.C
