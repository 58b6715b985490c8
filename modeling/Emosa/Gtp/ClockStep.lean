import Emosa.Lib.Except
import Emosa.Gtp.Leases
import Emosa.Lib.Durable
import Mathlib.Tactic.Linarith

/-!
# Emosa.Gtp.ClockStep

A step of the wall clock and the pods' tunnels, over whole runs in one boot.

`Host` pairs the termination point with what happened to each lease on the boot clock: its last
add or old event, the length dnsmasq granted it, and the del that came early. `Inv` ties the
lease times to that history, and every removal is then measured against the history. The one
place where the wall clock alone decides is `leases`, which `reconcile` asks what is current: a
line it takes for expired loses its tunnel whatever the boot clock says.
-/

namespace Emosa.Gtp

open LeaseTimes List

open Durable (runs Meets)

/-- A lease on the boot clock. `running` while it is added or renewed and not yet deleted. -/
structure Held where
  since : ℚ≥0
  length : Option Nat
  early : Option ℚ≥0
  running : Bool
deriving DecidableEq

/-- The lease ran its length up to the margin, or a whole length passed since an early del. -/
def Held.Done (held : Held) (now : ℚ≥0) : Prop :=
  ∃ length, held.length = some length ∧
    ((length : ℚ) - margin length ≤ now - held.since ∨
      ∃ early, held.early = some early ∧ (length : ℚ) ≤ now - early)

/-- `granted` is the length dnsmasq gave the lease; the hook is told it through `environ`. -/
inductive Command where
  | lease (action : Action) (mac : List Char) (ip : Ip) (environ : Environ)
      (granted : Option Nat) (r : Readings)
  | sweep (r : Readings)
  | reconcile (file : List Line) (r : Readings)

def Command.clock : Command → List ℚ≥0
  | .lease _ _ _ _ _ r => [r.event, r.keep, r.sweep]
  | .sweep r => [r.sweep]
  | .reconcile _ r => [r.sweep]

structure Host where
  g : State
  history : Dict Ip Held

/-- A boot begins with no tunnels and no lease times. -/
def Host.booted : Host := ⟨⟨∅, ∅⟩, ∅⟩

def Held.deleted (held : Held) (r : Readings) : Held :=
  { held with
    early :=
      if ∃ length ∈ held.length, (margin length : ℚ) < left length held.since r.event then some r.keep
      else held.early
    running := false }

def note (history : Dict Ip Held) (action : Action) (ip : Ip) (granted : Option Nat)
    (r : Readings) : Dict Ip Held :=
  match action with
  | .add | .old => history.set ip ⟨r.event, granted, none, true⟩
  | .del =>
    match history.get? ip with
    | none => history
    | some held => history.set ip (held.deleted r)
  | .other => history

section Runs

variable (config : Config)

def step (h : Host) : Command → Host
  | .lease action mac ip environ granted r =>
    match lease config h.g action mac ip environ r with
    | .error _ => h
    | .ok g => ⟨g, note h.history action ip granted r⟩
  | .sweep r => { h with g := sweep h.g r.sweep }
  | .reconcile file r => { h with g := reconcile config h.g file r }

/-- The file's lines are the running leases. -/
def Lists (file : List Line) (history : Dict Ip Held) : Prop :=
  ∀ ip, ip ∈ file.map Line.ip ↔ ∃ held, history.get? ip = some held ∧ held.running = true

/-- The hook is told at least the granted length: by the length in its environment, by the expiry
there and the wall clock, or by the configuration. -/
def Told (environ : Environ) (wall : ℚ≥0) (granted : Nat) : Prop :=
  match environ.length, environ.expires with
  | some length, _ => granted ≤ length
  | none, some (expires + 1) => granted ≤ expires + 1 - ⌊wall⌋₊
  | none, _ => ∃ length, config.leaseTime.length = some length ∧ granted ≤ length

/-- The hook is told the granted length, or more while the boot clock does not go back; no infinite
lease is deleted; and at a reconcile the wall clock has not passed the expiry of a line of the lease
file. -/
def Unstepped (h : Host) : Command → Prop
  | .lease action _ ip environ granted r =>
    match action with
    | .add | .old => ∀ length, granted = some length → Told config environ r.wall length
    | .del => ∀ held, h.history.get? ip = some held → held.length ≠ none ∧
        ∀ lease, h.g.times.get? ip = some lease → lease.length = held.length ∨ held.since ≤ r.keep
    | .other => True
  | .sweep _ => True
  | .reconcile file r => Lists file h.history ∧ ∀ line ∈ file, line.Current r.wall

def HasTunnel (tunnels : Dict Name Tunnel) (ip : Ip) : Prop :=
  ∃ n t, tunnels.get? n = some t ∧ t.remote = ip

/-- What a recorded lease has to do with its history. -/
structure Agrees (lease : Lease) (held : Held) : Prop where
  since : held.since = lease.start
  length : ∀ granted, held.length = some granted → ∃ n, lease.length = some n ∧ granted ≤ n
  running : held.running = lease.early.isNone
  ends : ∀ now, ended lease now = true → held.Done now

structure Inv (h : Host) : Prop where
  tunnel : ∀ n t, h.g.tunnels.get? n = some t →
    n = tunnelName t.remote ∧ t = tunnelTo config t.remote ∧
      ∃ lease, h.g.times.get? t.remote = some lease
  inside : ∀ ip lease, h.g.times.get? ip = some lease → config.Inside ip
  recorded : ∀ ip lease, h.g.times.get? ip = some lease →
    ∃ held, h.history.get? ip = some held ∧ Agrees lease held
  forgotten : ∀ ip held, h.g.times.get? ip = none → h.history.get? ip = some held →
    held.running = false

/-- A tunnel that goes from `h` to `h'` belonged to a lease that was done. -/
def Spares (clock : List ℚ≥0) (h h' : Host) : Prop :=
  ∀ ip, HasTunnel h.g.tunnels ip → ¬ HasTunnel h'.g.tunnels ip →
    ∃ held, h'.history.get? ip = some held ∧ ∃ now ∈ clock, held.Done now

end Runs

variable {config : Config}

theorem Told.length {environ : Environ} {wall : ℚ≥0} {granted : Nat}
    (h : Told config environ wall granted) :
    ∃ n, leaseLength config environ wall = some n ∧ granted ≤ n := by
  obtain ⟨length, expires⟩ := environ
  cases length with
  | some length => exact ⟨length, rfl, h⟩
  | none =>
    match expires with
    | some (expires + 1) => exact ⟨_, by simp only [leaseLength, Nat.succ_pos, if_true], h⟩
    | some 0 | none => exact h

theorem length_sub_margin_le {m n : Nat} (h : m ≤ n) :
    (m : ℚ) - margin m ≤ (n : ℚ) - margin n := by
  have hmargin : m + margin n ≤ n + margin m := by
    unfold margin
    omega
  have hcast : (m : ℚ) + margin n ≤ n + margin m := by exact_mod_cast hmargin
  linarith

theorem ended_iff {lease : Lease} {now : ℚ≥0} : ended lease now = true ↔
    ∃ early length, lease.early = some early ∧ lease.length = some length ∧
      (length : ℚ) ≤ now - early := by
  unfold ended
  cases lease.early <;> cases lease.length <;> simp

namespace Config

theorem number_div (ip : Ip) : ip.number / 2 ^ 16 = ip.a.toNat * 256 + ip.b.toNat := by
  have hc := ip.c.toNat_lt
  have hd := ip.d.toNat_lt
  unfold Ip.number
  omega

theorem Inside.octets {ip : Ip} (h : config.Inside ip) : ip.a = 169 ∧ ip.b = 254 := by
  obtain ⟨hlo, hhi, ha, hb⟩ := config.linkLocal
  have hpow : 2 ^ 16 = 2 ^ (32 - config.bits) * 2 ^ (config.bits - 16) := by
    rw [← pow_add]; congr 1; omega
  have hn : ip.number / 2 ^ 16 = config.address.number / 2 ^ 16 := by
    rw [hpow, ← Nat.div_div_eq_div_mul, h, Nat.div_div_eq_div_mul]
  rw [number_div, number_div, ha, hb] at hn
  have hlt := ip.b.toNat_lt
  have h169 : (169 : UInt8).toNat = 169 := rfl
  have h254 : (254 : UInt8).toNat = 254 := rfl
  exact ⟨UInt8.toNat_inj.mp (by rw [h169]; omega), UInt8.toNat_inj.mp (by rw [h254]; omega)⟩

theorem Inside.name_injective {ip ip' : Ip} (h : config.Inside ip) (h' : config.Inside ip')
    (hn : tunnelName ip = tunnelName ip') : ip = ip' := by
  obtain ⟨ha, hb⟩ := h.octets
  obtain ⟨ha', hb'⟩ := h'.octets
  obtain ⟨hc, hd⟩ := Name.mk.inj hn
  cases ip; cases ip'
  simp only [Ip.mk.injEq]
  exact ⟨ha.trans ha'.symm, hb.trans hb'.symm, Ip.digits_injective hc, Ip.digits_injective hd⟩

end Config

namespace Inv

variable {h : Host}

theorem booted : Inv config Host.booted where
  tunnel _ _ ht := by cases ht
  inside _ _ hl := by cases hl
  recorded _ _ hl := by cases hl
  forgotten _ _ _ hh := by cases hh

theorem sweep_tunnels_some (now : ℚ≥0) {n : Name} {t : Tunnel}
    (ht : (sweep h.g now).tunnels.get? n = some t) : h.g.tunnels.get? n = some t := by
  rw [sweep, get?_foldl_drop] at ht
  obtain ⟨-, ht⟩ := guard_passed ht
  exact ht

theorem early_none {times : Dict Ip Lease} {now : ℚ≥0} {lease : Lease} {length : Nat}
    (h : early times ip now = none) (hl : times.get? ip = some lease)
    (hlength : lease.length = some length) :
    (length : ℚ) - margin length ≤ now - lease.start := by
  simp only [early, hl, hlength] at h
  obtain ⟨hle, h⟩ := guard_passed h
  rw [left] at hle
  linarith

theorem early_some {times : Dict Ip Lease} {now : ℚ≥0} {k : Int}
    (h : early times ip now = some k) :
    ∃ lease length, times.get? ip = some lease ∧ lease.length = some length ∧
      (margin length : ℚ) < left length lease.start now := by
  unfold early at h
  split at h
  · cases h
  · rename_i lease hl
    split at h
    · cases h
    · rename_i length hlength
      split at h
      · rename_i hlt
        exact ⟨lease, length, hl, hlength, hlt⟩
      · cases h

theorem note_del (history : Dict Ip Held) (ip : Ip) (granted : Option Nat) (r : Readings) :
    (∀ ip', ip' ≠ ip → (note history .del ip granted r).get? ip' = history.get? ip') ∧
      ∀ held, (note history .del ip granted r).get? ip = some held → held.running = false := by
  unfold note
  cases hh : history.get? ip with
  | none => exact ⟨fun _ _ => rfl, fun held hs => by rw [hh] at hs; cases hs⟩
  | some held =>
    refine ⟨fun ip' hne => Dict.get?_set_ne _ _ hne, fun _ hs => ?_⟩
    rw [Dict.get?_set_self] at hs
    exact Option.some.inj hs ▸ rfl

variable (hinv : Inv config h)
include hinv

section

variable {ip : Ip}

theorem tunnel_of {n : Name} {t : Tunnel}
    (ht : h.g.tunnels.get? n = some t) (hip : config.Inside ip) (hn : n = tunnelName ip) :
    t.remote = ip := by
  obtain ⟨hname, -, lease, hl⟩ := hinv.tunnel n t ht
  exact (hinv.inside _ _ hl).name_injective hip (hname.symm.trans hn)

theorem sweep_tunnels (now : ℚ≥0) {n : Name} {t : Tunnel}
    (ht : h.g.tunnels.get? n = some t) :
    (sweep h.g now).tunnels.get? n =
      if t.remote ∈ gone h.g.times now then none else some t := by
  obtain ⟨hn, -, lease, hl⟩ := hinv.tunnel n t ht
  have hmem : n ∈ (gone h.g.times now).map tunnelName ↔
      t.remote ∈ gone h.g.times now := by
    rw [mem_map]
    constructor
    · rintro ⟨ip, hip, hname⟩
      obtain ⟨l, hl', -⟩ := mem_gone.mp hip
      rwa [hinv.tunnel_of ht (hinv.inside _ _ hl') hname.symm]
    · exact fun hip => ⟨t.remote, hip, hn.symm⟩
  rw [sweep, get?_foldl_drop, ht]
  simp only [hmem]

/-- The sweep drops a lease with its tunnel, and only one kept for a whole length. -/
theorem swept (now : ℚ≥0) :
    Inv config { h with g := sweep h.g now } ∧
      Spares [now] h { h with g := sweep h.g now } := by
  refine ⟨⟨?_, ?_, ?_, ?_⟩, ?_⟩
  · intro n t ht
    have ht' := sweep_tunnels_some now ht
    obtain ⟨hn, hto, lease, hl⟩ := hinv.tunnel n t ht'
    refine ⟨hn, hto, lease, get?_sweep_times_some.mpr ⟨hl, ?_⟩⟩
    rw [sweep_tunnels hinv now ht'] at ht
    cases he : ended lease now with
    | false => rfl
    | true => rw [if_pos (mem_gone.mpr ⟨lease, hl, he⟩)] at ht; cases ht
  · exact fun ip lease hl => hinv.inside ip lease (get?_sweep_times_some.mp hl).1
  · exact fun ip lease hl => hinv.recorded ip lease (get?_sweep_times_some.mp hl).1
  · intro ip held hnone hh
    cases hl : h.g.times.get? ip with
    | none => exact hinv.forgotten ip held hl hh
    | some lease =>
      -- a lease the sweep drops was kept, and a kept lease is not running
      obtain ⟨_, hheld, hagrees⟩ := hinv.recorded ip lease hl
      cases hh.symm.trans hheld
      rw [get?_sweep_times, hl] at hnone
      rw [hagrees.running]
      cases hearly : lease.early with
      | none => simp [ended, hearly] at hnone
      | some early => rfl
  · rintro ip ⟨n, t, ht, rfl⟩ hno
    obtain ⟨-, -, lease, hl⟩ := hinv.tunnel n t ht
    have hgone : t.remote ∈ gone h.g.times now := by
      by_contra hkept
      refine hno ⟨n, t, ?_, rfl⟩
      rw [sweep_tunnels hinv now ht, if_neg hkept]
    obtain ⟨l, hl', hended⟩ := mem_gone.mp hgone
    rw [hl] at hl'
    cases hl'
    obtain ⟨held, hheld, hagrees⟩ := hinv.recorded _ _ hl
    exact ⟨held, hheld, now, by simp, hagrees.ends now hended⟩

theorem record (hin : config.Inside ip) {lease : Lease} {held : Held} (hagrees : Agrees lease held)
    {tunnels : Dict Name Tunnel}
    (htunnels : ∀ n t, tunnels.get? n = some t →
      h.g.tunnels.get? n = some t ∨ n = tunnelName ip ∧ t = tunnelTo config ip) :
    Inv config ⟨⟨tunnels, h.g.times.set ip lease⟩, h.history.set ip held⟩ := by
  refine ⟨?_, ?_, ?_, ?_⟩
  · intro n t ht
    rw [Dict.get?_set]
    obtain ht' | ⟨rfl, rfl⟩ := htunnels n t ht
    · obtain ⟨hn, hto, l, hl⟩ := hinv.tunnel n t ht'
      refine ⟨hn, hto, ?_⟩
      split
      · exact ⟨_, rfl⟩
      · exact ⟨l, hl⟩
    · exact ⟨rfl, rfl, lease, if_pos rfl⟩
  · intro ip' l hl
    rw [Dict.get?_set] at hl
    split at hl
    · rename_i he; rwa [he]
    · exact hinv.inside ip' l hl
  · intro ip' l hl
    rw [Dict.get?_set] at hl ⊢
    split
    · rename_i he; rw [if_pos he] at hl; cases hl; exact ⟨held, rfl, hagrees⟩
    · rename_i hne; rw [if_neg hne] at hl; exact hinv.recorded ip' l hl
  · intro ip' held hnone hh
    rw [Dict.get?_set] at hnone hh
    obtain ⟨hne, hnone⟩ := guard_passed hnone
    rw [if_neg hne] at hh
    exact hinv.forgotten ip' held hnone hh

theorem started (hin : config.Inside ip) (mac : List Char) {length granted : Option Nat}
    (hlength : ∀ g, granted = some g → ∃ n, length = some n ∧ g ≤ n) (now : ℚ≥0)
    (clock : List ℚ≥0) :
    let h' : Host := ⟨⟨ensure config h.g.tunnels ip,
      started h.g.times ip mac length now⟩, h.history.set ip ⟨now, granted, none, true⟩⟩
    Inv config h' ∧ Spares clock h h' := by
  refine ⟨hinv.record hin ⟨rfl, hlength, rfl, fun now hended => by cases hended⟩ ?_, ?_⟩
  · intro n t ht
    rw [get?_ensure] at ht
    split at ht
    · rename_i hn
      cases ht
      exact .inr ⟨hn, rfl⟩
    · exact .inl ht
  · rintro ip' ⟨n, t, ht, rfl⟩ hno
    refine absurd ?_ hno
    by_cases hn : n = tunnelName ip
    · exact ⟨n, tunnelTo config ip, by rw [get?_ensure, if_pos hn],
        (hinv.tunnel_of ht hin hn).symm⟩
    · exact ⟨n, t, by rw [get?_ensure, if_neg hn]; exact ht, rfl⟩

/-- The del of a lease that has not run its recorded length keeps the tunnel. -/
theorem keeps {lease : Lease} {length granted : Nat} {held : Held} {r : Readings}
    (hl : h.g.times.get? ip = some lease) (hlength : lease.length = some length)
    (hheld : h.history.get? ip = some held) (hgranted : held.length = some granted)
    (hlt : (margin length : ℚ) < left length lease.start r.event)
    (hclock : lease.length = held.length ∨ held.since ≤ r.keep) (clock : List ℚ≥0) :
    let h' : Host := ⟨{ h.g with times := keep h.g.times ip r.keep },
      note h.history .del ip (some granted) r⟩
    Inv config h' ∧ Spares clock h h' := by
  obtain ⟨_, hheld', hagrees⟩ := hinv.recorded ip lease hl
  cases hheld.symm.trans hheld'
  obtain ⟨_, hlength', hle⟩ := hagrees.length granted hgranted
  cases hlength.symm.trans hlength'
  have hle : (granted : ℚ) ≤ length := by exact_mod_cast hle
  have hkeep : keep h.g.times ip r.keep =
      h.g.times.set ip { lease with early := some r.keep, timed := fun _ => by simp [hlength] } := by
    simp [keep, hl, hlength]
  refine ⟨?_, fun ip' ht hno => absurd ht hno⟩
  simp only [note, hheld]
  rw [hkeep]
  refine hinv.record (hinv.inside ip lease hl) ?_ fun n t ht => .inl ht
  refine ⟨hagrees.since, hagrees.length, rfl, fun now hended => ?_⟩
  obtain ⟨_, _, ⟨⟩, hn, hpassed⟩ := ended_iff.mp hended
  cases hlength.symm.trans hn
  refine ⟨granted, hgranted, ?_⟩
  by_cases hearly : (margin granted : ℚ) < left granted held.since r.event
  · exact .inr ⟨r.keep, if_pos ⟨granted, hgranted, hearly⟩, hle.trans hpassed⟩
  · -- The granted length has run, the recorded one has not: it is longer.
    left
    rcases hclock with heq | hclock
    · cases (hlength.symm.trans heq).trans hgranted
      exact absurd (hagrees.since ▸ hlt) hearly
    · have hclock : (held.since : ℚ) ≤ r.keep := by exact_mod_cast hclock
      have hmargin : (0 : ℚ) ≤ margin granted := Nat.cast_nonneg _
      show (granted : ℚ) - margin granted ≤ now - held.since
      linarith

theorem dropped (hin : config.Inside ip) {history : Dict Ip Held}
    (hother : ∀ ip', ip' ≠ ip → history.get? ip' = h.history.get? ip')
    (hself : ∀ held, history.get? ip = some held → held.running = false)
    {clock : List ℚ≥0}
    (hdone : ∀ lease, h.g.times.get? ip = some lease →
      ∃ held, history.get? ip = some held ∧ ∃ now ∈ clock, held.Done now) :
    let h' : Host := ⟨h.g.drop ip, history⟩
    Inv config h' ∧ Spares clock h h' := by
  have htimes : ∀ ip', (h.g.drop ip).times.get? ip' =
      if ip' = ip then none else h.g.times.get? ip' := by
    intro ip'
    split
    · rename_i he; rw [he]; exact Dict.get?_erase_self ..
    · rename_i hne; exact Dict.get?_erase_ne _ hne
  have htunnels : ∀ n, (h.g.drop ip).tunnels.get? n =
      if n = tunnelName ip then none else h.g.tunnels.get? n := get?_remove h.g.tunnels ip
  refine ⟨⟨?_, ?_, ?_, ?_⟩, ?_⟩
  · intro n t ht
    rw [htunnels] at ht
    obtain ⟨hne, ht⟩ := guard_passed ht
    obtain ⟨hn, hto, lease, hl⟩ := hinv.tunnel n t ht
    refine ⟨hn, hto, lease, ?_⟩
    rw [htimes, if_neg, hl]
    intro he
    exact hne (hn.trans (by rw [he]))
  · intro ip' lease hl
    rw [htimes] at hl
    obtain ⟨-, hl⟩ := guard_passed hl
    exact hinv.inside ip' lease hl
  · intro ip' lease hl
    rw [htimes] at hl
    obtain ⟨hne, hl⟩ := guard_passed hl
    rw [hother ip' hne]
    exact hinv.recorded ip' lease hl
  · intro ip' held hnone hh
    rw [htimes] at hnone
    split at hnone
    · rename_i he
      exact hself held (he ▸ hh)
    · rename_i hne
      rw [hother ip' hne] at hh
      exact hinv.forgotten ip' held hnone hh
  · rintro ip' ⟨n, t, ht, rfl⟩ hno
    have hn : n = tunnelName ip := by
      by_contra hne
      exact hno ⟨n, t, by dsimp only; rw [htunnels, if_neg hne]; exact ht, rfl⟩
    obtain ⟨-, -, lease, hl⟩ := hinv.tunnel n t ht
    rw [hinv.tunnel_of ht hin hn] at hl ⊢
    exact hdone lease hl

theorem event {action : Action} {mac : List Char}
    {environ : Environ} {granted : Option Nat} {r : Readings} (hin : config.Inside ip)
    (hok : Unstepped config h (.lease action mac ip environ granted r)) :
    let h' : Host := ⟨leaseEvent config h.g action mac ip environ r,
      note h.history action ip granted r⟩
    Inv config h' ∧ Spares [r.event, r.keep, r.sweep] h h' := by
  cases action with
  | add | old => exact hinv.started hin _ (fun length hg => (hok length hg).length) _ _
  | other => exact ⟨hinv, fun ip' ht hno => absurd ht hno⟩
  | del =>
    dsimp only [leaseEvent]
    cases hearly : early h.g.times ip r.event with
    | some k =>
      obtain ⟨lease, length, hl, hlength, hlt⟩ := early_some hearly
      obtain ⟨held, hheld, -⟩ := hinv.recorded ip lease hl
      obtain ⟨hne, hclock⟩ := hok held hheld
      obtain ⟨g, hg⟩ := Option.ne_none_iff_exists'.mp hne
      exact hinv.keeps hl hlength hheld hg hlt (hclock lease hl) _
    | none =>
      obtain ⟨hother, hself⟩ := note_del h.history ip granted r
      refine hinv.dropped hin hother hself fun lease hl => ?_
      obtain ⟨held, hheld, hagrees⟩ := hinv.recorded ip lease hl
      obtain ⟨g, hg⟩ := Option.ne_none_iff_exists'.mp (hok held hheld).1
      obtain ⟨length, hlength, hle⟩ := hagrees.length g hg
      have hran : (g : ℚ) - margin g ≤ r.event - held.since :=
        (length_sub_margin_le hle).trans (hagrees.since ▸ early_none hearly hl hlength)
      refine ⟨held.deleted r, ?_, r.event, by simp, g, hg, .inl hran⟩
      simp only [note, hheld, Dict.get?_set_self]

end

/-- The leases that run and the kept ones are those recorded. -/
theorem listed_or_kept {file : List Line} (hfile : Lists file h.history) :
    ip ∈ file.map Line.ip ∨ ip ∈ kept h.g.times ↔ ∃ lease, h.g.times.get? ip = some lease := by
  rw [hfile, mem_kept]
  constructor
  · rintro (⟨held, hh, hrun⟩ | ⟨lease, hl, -⟩)
    · cases hl : h.g.times.get? ip with
      | none => rw [hinv.forgotten ip held hl hh] at hrun; cases hrun
      | some lease => exact ⟨lease, rfl⟩
    · exact ⟨lease, hl⟩
  · rintro ⟨lease, hl⟩
    cases hearly : lease.early with
    | none =>
      obtain ⟨held, hheld, hagrees⟩ := hinv.recorded ip lease hl
      exact .inl ⟨held, hheld, by rw [hagrees.running, hearly]; rfl⟩
    | some early => exact .inr ⟨lease, hl, by simp [hearly]⟩

/-- Where no line of the file is expired, every tunnel is wanted, and the wanted addresses get
theirs. -/
theorem reconciled {file : List Line} {wall : ℚ≥0}
    (hfile : Lists file h.history) (hcurrent : ∀ line ∈ file, line.Current wall)
    (clock : List ℚ≥0) :
    let l := wanted h.g file wall
    let h' : Host := { h with g := { h.g with
      tunnels := (l.insertionSort Ip.Before).foldl (ensure config) (removeOthers h.g.tunnels l) } }
    Inv config h' ∧ Spares clock h h' ∧
      ∀ ip, ip ∈ file.map Line.ip ∨ ip ∈ kept h.g.times →
        h'.g.tunnels.get? (tunnelName ip) = some (tunnelTo config ip) := by
  intro l h'
  have hwanted : ∀ ip, ip ∈ l ↔ ip ∈ file.map Line.ip ∨ ip ∈ kept h.g.times := by
    intro ip
    rw [mem_wanted, mem_map]
    exact or_congr_left ⟨fun ⟨line, hm, _, hip⟩ => ⟨line, hm, hip⟩,
      fun ⟨line, hm, hip⟩ => ⟨line, hm, hcurrent line hm, hip⟩⟩
  have hrecorded : ∀ ip, ip ∈ l ↔ ∃ lease, h.g.times.get? ip = some lease := fun ip =>
    (hwanted ip).trans (hinv.listed_or_kept hfile)
  have hget : ∀ n, h'.g.tunnels.get? n =
      (((l.insertionSort Ip.Before).filter fun ip => tunnelName ip = n).getLast?.map
        (tunnelTo config)).or (h.g.tunnels.get? n) := by
    intro n
    rw [get?_foldl_ensure, get?_removeOthers]
    cases ht : h.g.tunnels.get? n with
    | none => rfl
    | some t =>
      obtain ⟨-, -, hl⟩ := hinv.tunnel n t ht
      simp [Option.filter, (hrecorded t.remote).mpr hl]
  have hto : ∀ ip ∈ l, h'.g.tunnels.get? (tunnelName ip) = some (tunnelTo config ip) := by
    intro ip hip
    obtain ⟨lease, hl⟩ := (hrecorded ip).mp hip
    rw [hget]
    cases hlast : ((l.insertionSort Ip.Before).filter fun x => tunnelName x = tunnelName ip).getLast?
      with
    | none =>
      rw [getLast?_eq_none_iff, filter_eq_nil_iff] at hlast
      exact absurd (by simp) (hlast ip (by rwa [mem_insertionSort]))
    | some x =>
      obtain ⟨hx, hname⟩ := mem_filter.mp (mem_of_getLast? hlast)
      obtain ⟨lx, hlx⟩ := (hrecorded x).mp ((mem_insertionSort _).mp hx)
      rw [(hinv.inside x lx hlx).name_injective (hinv.inside ip lease hl) (of_decide_eq_true hname)]
      rfl
  have hsome : ∀ n t, h'.g.tunnels.get? n = some t →
      h.g.tunnels.get? n = some t ∨ ∃ ip ∈ l, n = tunnelName ip ∧ t = tunnelTo config ip := by
    intro n t ht
    rw [hget, Option.or_eq_some_iff] at ht
    obtain ht | ⟨-, ht⟩ := ht
    · obtain ⟨ip, hlast, rfl⟩ := Option.map_eq_some_iff.mp ht
      obtain ⟨hm, hname⟩ := mem_filter.mp (mem_of_getLast? hlast)
      exact .inr ⟨ip, (mem_insertionSort _).mp hm, (of_decide_eq_true hname).symm, rfl⟩
    · exact .inl ht
  refine ⟨{ hinv with tunnel := ?_ }, ?_, fun ip hip =>
    hto ip ((hwanted ip).mpr hip)⟩
  · intro n t ht
    obtain ht | ⟨ip, hip, rfl, rfl⟩ := hsome n t ht
    · exact hinv.tunnel n t ht
    · exact ⟨rfl, rfl, (hrecorded ip).mp hip⟩
  · rintro ip ⟨n, t, ht, rfl⟩ hno
    obtain ⟨-, -, hl⟩ := hinv.tunnel n t ht
    exact absurd ⟨_, _, hto t.remote ((hrecorded _).mpr hl), rfl⟩ hno

end Inv

theorem Spares.trans {c c' clock : List ℚ≥0} {h h₁ h₂ : Host} (h₀₁ : Spares c h h₁)
    (h₁₂ : Spares c' h₁ h₂) (hh : h₂.history = h₁.history) (hc : c ⊆ clock) (hc' : c' ⊆ clock) :
    Spares clock h h₂ := by
  intro ip ht hno
  by_cases h₁t : HasTunnel h₁.g.tunnels ip
  · obtain ⟨held, hheld, now, hnow, hdone⟩ := h₁₂ ip h₁t hno
    exact ⟨held, hheld, now, hc' hnow, hdone⟩
  · obtain ⟨held, hheld, now, hnow, hdone⟩ := h₀₁ ip ht h₁t
    exact ⟨held, by rw [hh]; exact hheld, now, hc hnow, hdone⟩

/-- What a reconcile owes the addresses of the file and the kept ones. -/
def Serves (config : Config) (g : State) : Command → Prop
  | .reconcile file _ => ∀ ip, ip ∈ file.map Line.ip ∨ ip ∈ LeaseTimes.kept g.times →
      g.tunnels.get? (tunnelName ip) = some (tunnelTo config ip)
  | _ => True

theorem step_lease (h : Host) (action : Action) (mac : List Char) (ip : Ip) (environ : Environ)
    (granted : Option Nat) (r : Readings) :
    step config h (.lease action mac ip environ granted r) =
      if ¬ config.Inside ip ∨ ¬ macPattern (lower mac) then h
      else ⟨sweep (leaseEvent config h.g action mac ip environ r) r.sweep,
        note h.history action ip granted r⟩ := by
  by_cases hc : ¬ config.Inside ip ∨ ¬ macPattern (lower mac)
  · simp only [step, lease, if_pos hc]
  · simp only [step, lease, if_neg hc]

theorem inv_step {h : Host} {c : Command} (hinv : Inv config h) (hok : Unstepped config h c) :
    Inv config (step config h c) ∧ Spares c.clock h (step config h c) ∧
      Serves config (step config h c).g c := by
  cases c with
  | lease action mac ip environ granted r =>
    rw [step_lease]
    split
    · exact ⟨hinv, fun ip' ht hno => absurd ht hno, trivial⟩
    · rename_i hvalid
      have hin : config.Inside ip := not_not.mp fun hn => hvalid (.inl hn)
      obtain ⟨hinv₁, h₁⟩ := hinv.event hin hok
      obtain ⟨hinv₂, h₂⟩ := hinv₁.swept r.sweep
      exact ⟨hinv₂, h₁.trans h₂ rfl (List.Subset.refl _) (by simp [Command.clock]), trivial⟩
  | sweep r =>
    obtain ⟨hinv', hspares⟩ := hinv.swept r.sweep
    exact ⟨hinv', hspares, trivial⟩
  | reconcile file r =>
    obtain ⟨hinv₁, h₁⟩ := hinv.swept r.sweep
    obtain ⟨hinv₂, h₂, hserves⟩ := hinv₁.reconciled hok.1 hok.2 [r.sweep]
    exact ⟨hinv₂, h₁.trans h₂ rfl (List.Subset.refl _) (List.Subset.refl _), hserves⟩

/-- In every run of one boot whose commands meet `Unstepped`, a tunnel goes only when its lease
is done on the boot clock, and after a reconcile every address of the lease file and every kept
one has its tunnel. -/
theorem tunnel_outlives_clock_step (config : Config) (cs : List Command) (c : Command)
    (h : Meets (step config) (Unstepped config) .booted (cs ++ [c])) :
    let before := runs (step config) .booted cs
    let after := step config before c
    (∀ ip, HasTunnel before.g.tunnels ip → ¬ HasTunnel after.g.tunnels ip →
      ∃ held, after.history.get? ip = some held ∧ ∃ now ∈ c.clock, held.Done now) ∧
    ∀ file r, c = .reconcile file r →
      ∀ ip, ip ∈ file.map Line.ip ∨ ip ∈ LeaseTimes.kept after.g.times →
        after.g.tunnels.get? (tunnelName ip) = some (tunnelTo config ip) := by
  intro before after
  obtain ⟨hcs, hc, -⟩ := (Durable.meets_append _ _ _).mp h
  have hinv : Inv config before :=
    Durable.runs_invariant (P := Inv config) (fun _ _ hi ho => (inv_step hi ho).1) hcs .booted
  obtain ⟨-, hspares, hserves⟩ := inv_step hinv hc
  refine ⟨hspares, ?_⟩
  rintro file r rfl
  exact hserves

/-! One pod with a lease of an hour, and a reconcile ten seconds later. -/

namespace OnePod

theorem linkLocal : 16 ≤ 24 ∧ 24 ≤ 32 ∧ (169 : UInt8) = 169 ∧ (254 : UInt8) = 254 := by decide

def gateway : Config := ⟨⟨169, 254, 1, 1⟩, 24, .hours 1, linkLocal⟩

def pod : Ip := ⟨169, 254, 1, 5⟩

def mac : List Char := "02:00:00:00:00:05".toList

def added : Command := .lease .add mac pod ⟨some 3600, none⟩ (some 3600) ⟨0, 0, 0, 1000⟩

def file : List Line := [⟨4600, mac, pod⟩]

def reconciled (wall : ℚ≥0) : Command := .reconcile file ⟨10, 10, 10, wall⟩

def deleted : Command := .lease .del mac pod ⟨none, none⟩ none ⟨10, 10, 10, 9000⟩

theorem lists_added : Lists file (step gateway .booted added).history := by
  intro ip
  change _ ↔ ∃ held, ((∅ : Dict Ip Held).set pod ⟨0, some 3600, none, true⟩).get? ip = some held ∧ _
  by_cases h : ip = pod
  · simp [h, file]
  · simp [file, Dict.get?_set_ne _ _ h, h]

theorem lists_deleted : Lists [] (step gateway (step gateway .booted added) deleted).history := by
  have hhistory : (step gateway (step gateway .booted added) deleted).history =
      (∅ : Dict Ip Held).set pod ⟨0, some 3600, some 10, false⟩ := by decide +kernel
  intro ip
  rw [hhistory]
  by_cases h : ip = pod
  · simp [h]
  · simp [Dict.get?_set_ne _ _ h]

end OnePod

open OnePod

/-- The wall clock steps past the hour: `reconcile` takes the line for expired and removes the
tunnel, ten seconds into the lease. -/
theorem tunnel_lost_to_clock_step :
    let before := runs (step gateway) .booted [added]
    let after := step gateway before (reconciled 9000)
    Lists file before.history ∧
      HasTunnel before.g.tunnels pod ∧ ¬ HasTunnel after.g.tunnels pod ∧
      ∀ held, after.history.get? pod = some held →
        ∀ now ∈ (reconciled 9000).clock, ¬ held.Done now := by
  refine ⟨lists_added, ⟨tunnelName pod, tunnelTo gateway pod,
    by decide +kernel, rfl⟩, ?_, ?_⟩
  · have hempty : (step gateway (runs (step gateway) .booted [added])
        (reconciled 9000)).g.tunnels = ∅ := by decide +kernel
    rintro ⟨n, t, ht, -⟩
    cases ht
  · intro held hheld now hnow hdone
    dsimp only [runs] at hheld
    cases hheld
    have hten : now = 10 := mem_singleton.mp hnow
    subst hten
    obtain ⟨length, hlength, hran | ⟨early, hearly, -⟩⟩ := hdone
    · cases hlength
      exact absurd hran (by decide +kernel)
    · cases hearly

/-- The wall clock steps past the hour: dnsmasq deletes the lease ten seconds into it, and a reconcile
finds no line in the file. The tunnel stays. -/
theorem tunnel_outlives_clock_step_one_pod :
    Meets (step gateway) (Unstepped gateway) .booted
        ([added, deleted] ++ [.reconcile [] ⟨10, 10, 10, 9000⟩]) ∧
      (runs (step gateway) .booted [added, deleted,
        .reconcile [] ⟨10, 10, 10, 9000⟩]).g.tunnels.get? (tunnelName pod) =
          some (tunnelTo gateway pod) := by
  have hmeets : Meets (step gateway) (Unstepped gateway) .booted
      ([added, deleted] ++ [.reconcile [] ⟨10, 10, 10, 9000⟩]) := by
    refine ⟨?_, ?_, ⟨lists_deleted, nofun⟩, trivial⟩
    · rintro _ ⟨⟩
      exact Nat.le_refl 3600
    · rintro _ ⟨⟩
      exact ⟨nofun, fun lease hl => .inl (by cases hl; rfl)⟩
  exact ⟨hmeets, (tunnel_outlives_clock_step gateway [added, deleted] _
    hmeets).2 [] _ rfl pod (.inr (by decide +kernel))⟩

end Emosa.Gtp
