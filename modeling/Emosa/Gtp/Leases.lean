import Emosa.Lib.Dict
import Mathlib.Data.List.Sort
import Mathlib.Data.NNRat.Floor
import Mathlib.Data.String.Basic

/-!
# Emosa.Gtp.Leases

The GRE termination point: one gretap for each leased pod. dnsmasq runs `lease` at every lease
event, and `reconcile` brings the tunnels to the lease file.

The host's links are a dictionary of the gretaps by name, so `gretaps` is a look at it and `ip
link` an update; every `ip` command succeeds. Two clocks are read. `LeaseTimes` reads the boot
clock, which counts from the boot and is never negative; the lease file's expiries are compared
with the wall clock, which may step. Each command takes its readings as a record.
-/

namespace Emosa.Gtp

open List

/-- A dotted address by its octets. -/
structure Ip where
  a : UInt8
  b : UInt8
  c : UInt8
  d : UInt8
deriving DecidableEq, Repr

namespace Ip

def number (ip : Ip) : Nat :=
  ((ip.a.toNat * 256 + ip.b.toNat) * 256 + ip.c.toNat) * 256 + ip.d.toNat

def dotted (ip : Ip) : List Char :=
  Nat.toDigits 10 ip.a.toNat ++ '.' :: (Nat.toDigits 10 ip.b.toNat ++ '.' ::
    (Nat.toDigits 10 ip.c.toNat ++ '.' :: Nat.toDigits 10 ip.d.toNat))

/-- Addresses sort as text: 169.254.1.10 comes before 169.254.1.9. -/
def Before (x y : Ip) : Prop := x.dotted ≤ y.dotted

instance : DecidableRel Before := fun x y => inferInstanceAs (Decidable (x.dotted ≤ y.dotted))

end Ip

/-- The two runs of digits of a name `gtp<third>_<fourth>`. -/
structure Name where
  third : List Char
  fourth : List Char
deriving DecidableEq, Repr

def tunnelName (ip : Ip) : Name := ⟨Nat.toDigits 10 ip.c.toNat, Nat.toDigits 10 ip.d.toNat⟩

/-- A gretap as `ip -d link` shows it; `device` when it is pinned to one. -/
structure Tunnel where
  here : Ip
  remote : Ip
  device : Option String
deriving DecidableEq, Repr

/-- `underlay.lease_time`: digits with an optional unit, or `infinite`. -/
inductive LeaseTime where
  | infinite
  | seconds (n : Nat)
  | minutes (n : Nat)
  | hours (n : Nat)
deriving DecidableEq, Repr

namespace LeaseTime

/-- The seconds; `none` for an infinite lease. -/
def length : LeaseTime → Option Nat
  | .infinite => none
  | .seconds n => some n
  | .minutes n => some (n * 60)
  | .hours n => some (n * 3600)

end LeaseTime

/-- What the commands read of a configuration that `check` passed: the interface address with
its prefix length, in a link-local subnet, and the lease time. -/
structure Config where
  address : Ip
  bits : Nat
  leaseTime : LeaseTime
  linkLocal : 16 ≤ bits ∧ bits ≤ 32 ∧ address.a = 169 ∧ address.b = 254

namespace Config

variable (config : Config)

/-- `address in network`. -/
def Inside (ip : Ip) : Prop :=
  ip.number / 2 ^ (32 - config.bits) = config.address.number / 2 ^ (32 - config.bits)

instance (ip : Ip) : Decidable (config.Inside ip) := inferInstanceAs (Decidable (_ = _))

end Config

/-- `DNSMASQ_LEASE_LENGTH` and `DNSMASQ_LEASE_EXPIRES`, where they are set to digits. -/
structure Environ where
  length : Option Nat
  expires : Option Nat

/-- The seconds of a lease; `none` for an infinite one. `wall` is the reading of `time.time()`. -/
def leaseLength (config : Config) (environ : Environ) (wall : ℚ≥0) : Option Nat :=
  match environ.length, environ.expires with
  | some n, _ => some n
  | none, some e => if 0 < e then some (e - ⌊wall⌋₊) else config.leaseTime.length
  | none, none => config.leaseTime.length

/-- One lease of `lease-times.json`. Only a lease that has a length ends early. -/
structure Lease where
  mac : List Char
  start : ℚ≥0
  length : Option Nat
  early : Option ℚ≥0
  timed : early.isSome → length.isSome
deriving DecidableEq

/-- `min(EARLY_MARGIN, length // 4)`. -/
def margin (length : Nat) : Nat := min 60 (length / 4)

/-- The seconds left of a lease at a boot clock reading. -/
def left (length : Nat) (start now : ℚ≥0) : ℚ := length - ((now : ℚ) - start)

namespace LeaseTimes

def started (times : Dict Ip Lease) (ip : Ip) (mac : List Char) (length : Option Nat)
    (now : ℚ≥0) : Dict Ip Lease :=
  times.set ip ⟨mac, now, length, none, nofun⟩

def early (times : Dict Ip Lease) (ip : Ip) (now : ℚ≥0) : Option Int :=
  match times.get? ip with
  | none => none
  | some lease =>
    match lease.length with
    | none => none
    | some length =>
      if (margin length : ℚ) < left length lease.start now then
        some ⌊left length lease.start now⌋
      else none

def keep (times : Dict Ip Lease) (ip : Ip) (now : ℚ≥0) : Dict Ip Lease :=
  match times.get? ip with
  | none => times
  | some lease =>
    if h : lease.length.isSome then
      times.set ip { lease with early := some now, timed := fun _ => h }
    else times

/-- The lease was kept, and a whole length passed since. -/
def ended (lease : Lease) (now : ℚ≥0) : Bool :=
  match lease.early, lease.length with
  | some early, some length => (length : ℚ) ≤ now - early
  | _, _ => false

def gone (times : Dict Ip Lease) (now : ℚ≥0) : List Ip :=
  (times.filter fun _ lease => ended lease now).keys.insertionSort Ip.Before

def kept (times : Dict Ip Lease) : List Ip :=
  (times.filter fun _ lease => lease.early.isSome).keys

end LeaseTimes

/-- A line of dnsmasq's lease file: `EXPIRY MAC IP`. -/
structure Line where
  expiry : Nat
  mac : List Char
  ip : Ip
deriving DecidableEq

/-- An expiry of 0 never comes. -/
def Line.Current (line : Line) (wall : ℚ≥0) : Prop := line.expiry = 0 ∨ wall < line.expiry

instance (line : Line) (wall : ℚ≥0) : Decidable (line.Current wall) :=
  inferInstanceAs (Decidable (_ ∨ _))

def lower (text : List Char) : List Char := text.map Char.toLower

/-- The host's gretaps and this boot's lease times. -/
structure State where
  tunnels : Dict Name Tunnel
  times : Dict Ip Lease

/-- The current leases of the file: address to MAC. -/
def leases (file : List Line) (wall : ℚ≥0) : Dict Ip (List Char) :=
  file.foldl (fun found line =>
    if line.Current wall then found.set line.ip (lower line.mac) else found) ∅

/-- `[0-9a-f]{2}(:[0-9a-f]{2}){5}`, the whole text. -/
def macPattern (mac : List Char) : Bool :=
  mac.length = 17 && mac.zipIdx.all fun (c, i) =>
    if i % 3 = 2 then c = ':' else ('0' ≤ c && c ≤ '9') || ('a' ≤ c && c ≤ 'f')

inductive Action where
  | add
  | old
  | del
  | other
deriving DecidableEq, Repr

/-- The readings of one command: the boot clock where `started` or `early` reads it, where
`keep` does and where `gone` does, and the wall clock. -/
structure Readings where
  event : ℚ≥0
  keep : ℚ≥0
  sweep : ℚ≥0
  wall : ℚ≥0

section Commands

variable (config : Config)

/-- The tunnel of an address as `ensure` leaves it: routed by address, pinned to no device. -/
def tunnelTo (ip : Ip) : Tunnel := ⟨config.address, ip, none⟩

def ensure (tunnels : Dict Name Tunnel) (ip : Ip) : Dict Name Tunnel :=
  match tunnels.get? (tunnelName ip) with
  | some current =>
    if current = tunnelTo config ip then tunnels
    else (tunnels.erase (tunnelName ip)).set (tunnelName ip) (tunnelTo config ip)
  | none => tunnels.set (tunnelName ip) (tunnelTo config ip)

def remove (tunnels : Dict Name Tunnel) (ip : Ip) : Dict Name Tunnel :=
  match tunnels.get? (tunnelName ip) with
  | some _ => tunnels.erase (tunnelName ip)
  | none => tunnels

/-- `remove(ip)` and `leases.pop(ip, None)`. -/
def State.drop (g : State) (ip : Ip) : State := ⟨remove g.tunnels ip, g.times.erase ip⟩

def sweep (g : State) (now : ℚ≥0) : State :=
  (LeaseTimes.gone g.times now).foldl State.drop g

/-- What a lease event changes before the sweep. -/
def leaseEvent (g : State) (action : Action) (mac : List Char) (ip : Ip) (environ : Environ)
    (r : Readings) : State :=
  match action with
  | .add | .old =>
    ⟨ensure config g.tunnels ip,
      LeaseTimes.started g.times ip (lower mac) (leaseLength config environ r.wall) r.event⟩
  | .del =>
    match LeaseTimes.early g.times ip r.event with
    | some _ => { g with times := LeaseTimes.keep g.times ip r.keep }
    | none => g.drop ip
  | .other => g

def lease (g : State) (action : Action) (mac : List Char) (ip : Ip) (environ : Environ)
    (r : Readings) : Except String State :=
  if ¬ config.Inside ip ∨ ¬ macPattern (lower mac) then .error "lease outside the underlay"
  else .ok (sweep (leaseEvent config g action mac ip environ r) r.sweep)

/-- `ip link del` of every tunnel whose remote address is not wanted. -/
def removeOthers (tunnels : Dict Name Tunnel) (wanted : List Ip) : Dict Name Tunnel :=
  tunnels.entries.foldl (fun now entry =>
    if entry.2.remote ∈ wanted then now else now.erase entry.1) tunnels

def wanted (g : State) (file : List Line) (wall : ℚ≥0) : List Ip :=
  ((leases file wall).keys ++ LeaseTimes.kept g.times).dedup

def reconcile (g : State) (file : List Line) (r : Readings) : State :=
  let g := sweep g r.sweep
  let wanted := wanted g file r.wall
  { g with
    tunnels := (wanted.insertionSort Ip.Before).foldl (ensure config)
      (removeOthers g.tunnels wanted) }

end Commands

/-! ## What the commands leave -/

namespace Ip

theorem digits_dot (n : Nat) : '.' ∉ Nat.toDigits 10 n := fun h =>
  absurd (Nat.isDigit_of_mem_toDigits (by decide) (by decide) h) (by decide)

theorem digits_injective {x y : UInt8} (h : Nat.toDigits 10 x.toNat = Nat.toDigits 10 y.toNat) :
    x = y := by
  have hn := congrArg (fun digits => Nat.ofDigitChars 10 digits 0) h
  simp only [Nat.ofDigitChars_ten_toDigits] at hn
  exact UInt8.toNat_inj.mp hn

theorem dot_split {u v l r : List Char} (hu : '.' ∉ u) (hv : '.' ∉ v)
    (h : u ++ '.' :: l = v ++ '.' :: r) : u = v ∧ l = r := by
  induction u generalizing v with
  | nil =>
    cases v with
    | nil => simpa using h
    | cons c v => exact absurd (mem_cons.mpr (.inl (List.cons.inj h).1)) hv
  | cons c u ih =>
    cases v with
    | nil => exact absurd (mem_cons.mpr (.inl (List.cons.inj h).1.symm)) hu
    | cons c' v =>
      obtain ⟨hc, h⟩ := List.cons.inj h
      obtain ⟨huv, hlr⟩ := ih (fun hm => hu (.tail _ hm)) (fun hm => hv (.tail _ hm)) h
      exact ⟨by rw [hc, huv], hlr⟩

/-- No octet's digits hold a dot, so the text gives the octets back one by one. -/
theorem dotted_injective {x y : Ip} (h : x.dotted = y.dotted) : x = y := by
  obtain ⟨ha, h⟩ := dot_split (digits_dot _) (digits_dot _) h
  obtain ⟨hb, h⟩ := dot_split (digits_dot _) (digits_dot _) h
  obtain ⟨hc, hd⟩ := dot_split (digits_dot _) (digits_dot _) h
  cases x; cases y
  simp only [mk.injEq]
  exact ⟨digits_injective ha, digits_injective hb, digits_injective hc, digits_injective hd⟩

theorem Before.antisymm {x y : Ip} (h : x.Before y) (h' : y.Before x) : x = y :=
  dotted_injective (le_antisymm h h')

instance : Std.Total Before := ⟨fun x y => le_total x.dotted y.dotted⟩

instance : IsTrans Ip Before := ⟨fun _ _ _ h h' => le_trans h h'⟩

end Ip

section Lookups

variable (config : Config)

variable (tunnels : Dict Name Tunnel)

@[simp] theorem get?_ensure (ip : Ip) (n : Name) :
    (ensure config tunnels ip).get? n =
      if n = tunnelName ip then some (tunnelTo config ip) else tunnels.get? n := by
  unfold ensure
  cases h : tunnels.get? (tunnelName ip) with
  | none => exact Dict.get?_set ..
  | some current =>
    dsimp only
    split
    · rename_i hc
      split
      · rename_i hn; rw [hn, h, hc]
      · rfl
    · rw [Dict.get?_set]
      split
      · rfl
      · rename_i hn; exact Dict.get?_erase_ne _ hn

@[simp] theorem get?_remove (ip : Ip) (n : Name) :
    (remove tunnels ip).get? n = if n = tunnelName ip then none else tunnels.get? n := by
  unfold remove
  by_cases hn : n = tunnelName ip
  · rw [if_pos hn, hn]
    cases h : tunnels.get? (tunnelName ip) with
    | none => exact h
    | some current => exact Dict.get?_erase_self ..
  · rw [if_neg hn]
    cases tunnels.get? (tunnelName ip) with
    | none => rfl
    | some current => exact Dict.get?_erase_ne _ hn

/-- Of the addresses that share a name the last one ensured has the tunnel. -/
theorem get?_foldl_ensure (l : List Ip) (tunnels : Dict Name Tunnel) (n : Name) :
    (l.foldl (ensure config) tunnels).get? n =
      ((l.filter fun ip => tunnelName ip = n).getLast?.map (tunnelTo config)).or
        (tunnels.get? n) := by
  induction l using List.reverseRecOn with
  | nil => rfl
  | append_singleton l ip ih =>
    by_cases h : tunnelName ip = n
    · simp [h]
    · simp [h, Ne.symm h, ih]

theorem get?_foldl_drop (l : List Ip) (g : State) (n : Name) :
    (l.foldl State.drop g).tunnels.get? n =
      if n ∈ l.map tunnelName then none else g.tunnels.get? n := by
  induction l generalizing g with
  | nil => rfl
  | cons ip l ih =>
    rw [foldl_cons, ih]
    simp only [State.drop]
    by_cases h : n = tunnelName ip <;> simp [h]

theorem get?_times_foldl_drop (l : List Ip) (g : State) (ip : Ip) :
    (l.foldl State.drop g).times.get? ip = if ip ∈ l then none else g.times.get? ip := by
  induction l generalizing g with
  | nil => rfl
  | cons ip' l ih =>
    rw [foldl_cons, ih]
    by_cases h : ip = ip'
    · simp [h, State.drop]
    · simp [h, State.drop, Dict.get?_erase_ne]

theorem mem_gone {times : Dict Ip Lease} {now : ℚ≥0} {ip : Ip} :
    ip ∈ LeaseTimes.gone times now ↔
      ∃ lease, times.get? ip = some lease ∧ LeaseTimes.ended lease now = true := by
  rw [LeaseTimes.gone, mem_insertionSort, Dict.mem_keys_iff]
  simp only [Dict.get?_filter]

theorem get?_sweep_times (g : State) (now : ℚ≥0) (ip : Ip) :
    (sweep g now).times.get? ip = (g.times.get? ip).filter (! LeaseTimes.ended · now) := by
  rw [sweep, get?_times_foldl_drop]
  cases hl : g.times.get? ip with
  | none => simp
  | some lease =>
    by_cases he : LeaseTimes.ended lease now = true
    · rw [if_pos (mem_gone.mpr ⟨lease, hl, he⟩)]
      simp [Option.filter, he]
    · rw [if_neg]
      · simp [Option.filter, he]
      · intro hm
        obtain ⟨l, hl', he'⟩ := mem_gone.mp hm
        rw [hl] at hl'
        cases hl'
        exact he he'

theorem get?_sweep_times_some {g : State} {now : ℚ≥0} {ip : Ip} {lease : Lease} :
    (sweep g now).times.get? ip = some lease ↔
      g.times.get? ip = some lease ∧ LeaseTimes.ended lease now = false := by
  rw [get?_sweep_times]
  simp

theorem mem_kept {times : Dict Ip Lease} {ip : Ip} :
    ip ∈ LeaseTimes.kept times ↔ ∃ lease, times.get? ip = some lease ∧ lease.early.isSome := by
  rw [LeaseTimes.kept, Dict.mem_keys_iff]
  simp only [Dict.get?_filter]

theorem mem_leases {file : List Line} {wall : ℚ≥0} {ip : Ip} :
    ip ∈ (leases file wall).keys ↔ ∃ line ∈ file, line.Current wall ∧ line.ip = ip := by
  unfold leases
  induction file using List.reverseRecOn with
  | nil => simp [Dict.mem_keys_iff]
  | append_singleton file line ih =>
    rw [foldl_concat]
    by_cases h : line.Current wall
    · simp only [h, if_true, Dict.mem_keys_set, ih, mem_append, mem_singleton]
      constructor
      · rintro (rfl | ⟨l, hl, hc, rfl⟩)
        · exact ⟨line, .inr rfl, h, rfl⟩
        · exact ⟨l, .inl hl, hc, rfl⟩
      · rintro ⟨l, hl | rfl, hc, rfl⟩
        · exact .inr ⟨l, hl, hc, rfl⟩
        · exact .inl rfl
    · simp only [h, if_false, ih, mem_append, mem_singleton]
      constructor
      · rintro ⟨l, hl, hc, rfl⟩
        exact ⟨l, .inl hl, hc, rfl⟩
      · rintro ⟨l, hl | rfl, hc, rfl⟩
        · exact ⟨l, hl, hc, rfl⟩
        · exact absurd hc h

theorem mem_wanted {g : State} {file : List Line} {wall : ℚ≥0} {ip : Ip} :
    ip ∈ wanted g file wall ↔
      (∃ line ∈ file, line.Current wall ∧ line.ip = ip) ∨ ip ∈ LeaseTimes.kept g.times := by
  rw [wanted, mem_dedup, mem_append, mem_leases]

theorem get?_removeOthers (l : List Ip) (n : Name) :
    (removeOthers tunnels l).get? n = (tunnels.get? n).filter (·.remote ∈ l) := by
  rw [removeOthers, Dict.look_foldl (fun (d : Dict Name Tunnel) n => d.get? n)
    (fun found t => if t.remote ∈ l then found else none)
    (fun d n t => by split <;> simp)
    (fun d n t n' hn => by split <;> simp [Dict.get?_erase_ne _ hn])]
  cases h : tunnels.get? n with
  | none => rfl
  | some t => by_cases ht : t.remote ∈ l <;> simp [Option.filter]

end Lookups

end Emosa.Gtp
