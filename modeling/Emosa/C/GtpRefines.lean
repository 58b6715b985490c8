import Emosa.C.Gtp
import Emosa.Lib.DictOrder
import Emosa.Lib.Durable
import Mathlib.Tactic.Linarith

/-!
# Emosa.C.GtpRefines

The termination point in C beside the one of `Emosa.Gtp`, command by command and over whole runs.

Both are compared by what is looked up in the tunnels and in the lease times (`Same`): the orders
of the entries differ, since the C code deletes and adds where the reference assigns. Every
command but one agrees outright once the files are within the sizes the C code reads.
`emGtpReconcile` leaves out the kept leases, so it agrees where each of them still has its tunnel.
-/

namespace Emosa.C
namespace EmGtp

open Gtp LeaseTimes List
open Durable (runs Meets)

structure Same (g g' : State) : Prop where
  tunnels : ∀ n, g.tunnels.get? n = g'.tunnels.get? n
  times : ∀ ip, g.times.get? ip = g'.times.get? ip

theorem ensure_eq (config : Config) : ensure config = Gtp.ensure config := by
  funext tunnels ip
  unfold ensure Gtp.ensure
  cases h : tunnels.get? (tunnelName ip) with
  | none => simp [h, tunnelTo]
  | some t =>
    obtain ⟨here, remote, device⟩ := t
    cases device <;> simp [h, tunnelTo]

theorem removeTunnel_eq : removeTunnel = remove := by
  funext tunnels ip
  unfold removeTunnel remove
  cases tunnels.get? (tunnelName ip) <;> rfl

theorem earlyOf_nonneg {entry : Lease} : 0 ≤ earlyOf entry ↔ entry.early.isSome := by
  unfold earlyOf number
  cases entry.early with
  | none | some => simp

theorem ended_iff (entry : Lease) (now : ℚ≥0) :
    (0 ≤ earlyOf entry ∧ 0 ≤ lengthOf entry ∧ lengthOf entry ≤ now - earlyOf entry) ↔
      ended entry now = true := by
  unfold ended earlyOf lengthOf number
  cases entry.early <;> cases entry.length <;> simp

theorem sweepFrom_eq (now : ℚ≥0) (es : List (Ip × Lease)) (g : State) :
    sweepFrom now es g =
      ((es.filter fun e => ended e.2 now).map Prod.fst).foldl State.drop g := by
  induction es generalizing g with
  | nil => rfl
  | cons e next ih =>
    obtain ⟨ip, entry⟩ := e
    rw [sweepFrom]
    simp only [ended_iff, ih, removeTunnel_eq]
    by_cases he : ended entry now = true
    · simp [he, State.drop]
    · simp [he]

theorem mem_swept {times : Dict Ip Lease} {now : ℚ≥0} {ip : Ip} :
    ip ∈ (times.entries.filter fun e => ended e.2 now).map Prod.fst ↔
      ip ∈ LeaseTimes.gone times now := by
  rw [LeaseTimes.gone, mem_insertionSort]
  rfl

theorem Same.gone {g g' : State} (h : Same g g') {now : ℚ≥0} {ip : Ip} :
    ip ∈ LeaseTimes.gone g.times now ↔ ip ∈ LeaseTimes.gone g'.times now := by
  rw [mem_gone, mem_gone, h.times]

theorem Same.sweep {g g' : State} (h : Same g g') (now : ℚ≥0) :
    Same (Gtp.sweep g now) (sweep g' now) := by
  refine ⟨fun n => ?_, fun ip => ?_⟩
  · rw [Gtp.sweep, EmGtp.sweep, sweepFrom_eq, get?_foldl_drop, get?_foldl_drop, h.tunnels]
    simp only [mem_map (f := tunnelName), mem_swept, h.gone]
  · rw [Gtp.sweep, EmGtp.sweep, sweepFrom_eq, get?_times_foldl_drop, get?_times_foldl_drop, h.times]
    simp only [mem_swept, h.gone]

theorem margin_eq (length : Nat) :
    (if (length : ℚ) / 4 < 60 then ((⌊(length : ℚ)⌋ / 4 : Int) : ℚ) else 60) = margin length := by
  have hlt : (length : ℚ) / 4 < 60 ↔ length < 240 := by
    rw [div_lt_iff₀ (by norm_num)]
    norm_num
  simp only [hlt, margin]
  split
  · rw [min_eq_right (by omega)]
    rfl
  · rw [min_eq_left (by omega)]
    rfl

/-- The margin is worked out on doubles; the time left is compared with the same one. -/
theorem earlyBy_nonneg (times : Dict Ip Lease) (ip : Ip) (now : ℚ≥0) :
    0 ≤ earlyBy times ip now ↔ (early times ip now).isSome := by
  unfold earlyBy early
  cases times.get? ip with
  | none => simp
  | some entry =>
    cases hlen : entry.length with
    | none => simp [lengthOf, number, hlen]
    | some length =>
      have hl : lengthOf entry = length := by simp [lengthOf, number, hlen]
      simp only [hl, margin_eq, left, hlen]
      rw [if_neg (by simp)]
      by_cases hlt : (margin length : ℚ) < length - ((now : ℚ) - entry.start)
      · have hpos : (0 : ℚ) ≤ length - ((now : ℚ) - entry.start) :=
          le_trans (Nat.cast_nonneg _) hlt.le
        simp [hlt, Int.floor_nonneg.mpr hpos]
      · simp [hlt]

/-- The expiry is within a long, and the length that is recorded within the whole doubles. -/
def Fits (config : Config) (environ : Environ) (wall : ℚ≥0) : Prop :=
  (∀ n, environ.expires = some n → n < 2 ^ 63) ∧
    ∀ n, Gtp.leaseLength config environ wall = some n → n ≤ 2 ^ 53

theorem double_of_le {n : Nat} (h : n ≤ 2 ^ 53) : double n = n := by
  rcases Nat.lt_or_eq_of_le h with hlt | rfl
  · have hlog : n.log2 - 52 = 0 := by
      rcases Nat.eq_zero_or_pos n with rfl | hpos
      · rfl
      · have := (Nat.log2_lt hpos.ne').mpr hlt
        omega
    simp [double, hlog, Nat.mod_one]
  · decide +kernel

theorem strtol_of_lt {n : Nat} (h : n < 2 ^ 63) : strtol n = n := by
  unfold strtol; omega

/-- How the C program records a length. -/
def recorded (length : Int) : Option Nat := if length < 0 then none else some (double length.toNat)

theorem recorded_eq {c : Int} {n : Nat} (h : c = n) (hn : n ≤ 2 ^ 53) : recorded c = some n := by
  subst h
  simp [recorded, double_of_le hn]

theorem configured_eq {time : LeaseTime} (h : ∀ n, time.length = some n → n ≤ 2 ^ 53) :
    recorded (configured time) = time.length := by
  -- a product of at most 2 ^ 53 is of a count that `strtol` takes, and within a long
  have hproduct : ∀ n k : Nat, 0 < k → n * k ≤ 2 ^ 53 →
      ((strtol n : Int) * k).bmod (2 ^ 64) = (n * k : Nat) := by
    intro n k hk hle
    have hn : n ≤ n * k := Nat.le_mul_of_pos_right n hk
    rw [strtol_of_lt (by omega), ← Int.natCast_mul]
    exact Int.bmod_eq_of_le (by omega) (by omega)
  cases time with
  | infinite => rfl
  | seconds n =>
    have hn : n ≤ 2 ^ 53 := h n rfl
    exact recorded_eq (congrArg (Nat.cast : Nat → Int) (strtol_of_lt (by omega))) hn
  | minutes n =>
    have hn := hproduct n 60 (by decide) (h _ rfl)
    exact recorded_eq (by unfold configured; exact_mod_cast hn) (h _ rfl)
  | hours n =>
    have hn := hproduct n 3600 (by decide) (h _ rfl)
    exact recorded_eq (by unfold configured; exact_mod_cast hn) (h _ rfl)

theorem leaseLength_eq {config : Config} {environ : Environ} {wall : ℚ≥0}
    (h : Fits config environ wall) :
    recorded (leaseLength config environ ⌊wall⌋₊) = Gtp.leaseLength config environ wall := by
  obtain ⟨hexpires, hlength⟩ := h
  obtain ⟨length, expires⟩ := environ
  cases length with
  | some v =>
    have hv : v ≤ 2 ^ 53 := hlength v rfl
    exact recorded_eq (by simp [leaseLength, strtol_of_lt (n := v) (by omega)]) hv
  | none =>
    cases expires with
    | none => exact configured_eq hlength
    | some v =>
      by_cases hv : 0 < v
      · simp only [Gtp.leaseLength, hv] at hlength ⊢
        refine recorded_eq ?_ (hlength _ rfl)
        simp only [leaseLength, strtol_of_lt (hexpires v rfl)]
        split <;> omega
      · simp only [Gtp.leaseLength, hv] at hlength
        simp only [Gtp.leaseLength, leaseLength, strtol_of_lt (hexpires v rfl), hv]
        exact configured_eq hlength

/-- The lengths saved are whole doubles. -/
def Exact (times : Dict Ip Lease) : Prop :=
  times.Each fun _ lease => ∀ n, lease.length = some n → n ≤ 2 ^ 53

theorem loaded_eq {lease : Lease} (h : ∀ n, lease.length = some n → n ≤ 2 ^ 53) :
    loaded lease = lease := by
  obtain ⟨mac, start, length, early, timed⟩ := lease
  cases length with
  | none => rfl
  | some n => simp [loaded, double_of_le (h n rfl)]

theorem timesLoad_eq {size : Nat} {saved : Dict Ip Lease} (hsize : size ≤ timesMax)
    (h : Exact saved) : timesLoad size saved = saved := by
  have hentries : saved.entries.map (fun e => (e.1, loaded e.2)) = saved.entries := by
    refine (map_congr_left fun e he => ?_).trans (map_id _)
    rw [loaded_eq (h e.1 e.2 (Dict.get?_eq_some_iff.mpr he))]
    rfl
  rw [timesLoad, if_pos hsize]
  cases saved
  simpa using hentries

theorem toNat_toLower (c : Char) :
    c.toLower.toNat = if 65 ≤ c.toNat ∧ c.toNat ≤ 90 then c.toNat + 32 else c.toNat := by
  have hcond : (c.val ≥ 'A'.val ∧ c.val ≤ 'Z'.val) ↔ 65 ≤ c.toNat ∧ c.toNat ≤ 90 := by
    rfl
  unfold Char.toLower
  split
  · rename_i h
    have hc := hcond.mp h
    rw [if_pos hc]
    show (c.val + 32).toNat = c.toNat + 32
    rw [UInt32.toNat_add]
    have h32 : (32 : UInt32).toNat = 32 := rfl
    have hval : c.val.toNat = c.toNat := rfl
    omega
  · rename_i h
    rw [if_neg fun hc => h (hcond.mpr hc)]

theorem char_le_iff (c d : Char) : c ≤ d ↔ c.toNat ≤ d.toNat := by
  rfl

theorem hex_lower (c : Char) :
    (('0' ≤ c.toLower && c.toLower ≤ '9') || ('a' ≤ c.toLower && c.toLower ≤ 'f')) =
      (('0' ≤ c && c ≤ '9') || ('a' ≤ c && c ≤ 'f') || ('A' ≤ c && c ≤ 'F') : Bool) := by
  have h9 : '9'.toNat = 57 := rfl
  have ha : 'a'.toNat = 97 := rfl
  have hf : 'f'.toNat = 102 := rfl
  have hA : 'A'.toNat = 65 := rfl
  have hF : 'F'.toNat = 70 := rfl
  rw [Bool.eq_iff_iff]
  simp only [Bool.or_eq_true, Bool.and_eq_true, decide_eq_true_eq, char_le_iff, toNat_toLower]
  split <;> omega

theorem colon_lower (c : Char) : c.toLower = ':' ↔ c = ':' := by
  rw [← Char.toNat_inj, ← Char.toNat_inj, toNat_toLower]
  have hcolon : ':'.toNat = 58 := rfl
  split <;> omega

/-- The C check looks at the text as it is, the reference at its lower case. -/
theorem validMac_eq (mac : List Char) : validMac mac = macPattern (lower mac) := by
  unfold validMac macPattern lower
  rw [length_map, zipIdx_map, all_map]
  congr 2
  funext ⟨c, i⟩
  simp only [Function.comp_apply, Prod.map_apply, id_eq, hex_lower, colon_lower]

theorem testBit_prefixMask {bits : Nat} (h0 : bits ≠ 0) (i : Nat) :
    (prefixMask bits).testBit i = (decide (i < 32) && decide (32 - bits ≤ i)) := by
  rw [prefixMask, if_neg h0, Nat.testBit_mod_two_pow, Nat.testBit_shiftLeft,
    Nat.testBit_two_pow_sub_one]
  by_cases h32 : i < 32
  · have hi : i - (32 - bits) < 32 := by omega
    simp [hi]
  · simp [h32]

theorem mask_eq_iff {bits : Nat} (h0 : bits ≠ 0) {x y : Nat} (hx : x < 2 ^ 32)
    (hy : y < 2 ^ 32) : x &&& prefixMask bits = y &&& prefixMask bits ↔
      x / 2 ^ (32 - bits) = y / 2 ^ (32 - bits) := by
  constructor
  · intro h
    refine Nat.eq_of_testBit_eq fun i => ?_
    rw [Nat.testBit_div_two_pow, Nat.testBit_div_two_pow]
    have hi := congrArg (fun n => n.testBit (i + (32 - bits))) h
    simp only [Nat.testBit_and, testBit_prefixMask h0] at hi
    by_cases h32 : i + (32 - bits) < 32
    · simpa [h32] using hi
    · have hle : 2 ^ 32 ≤ 2 ^ (i + (32 - bits)) := Nat.pow_le_pow_right (by decide) (by omega)
      rw [Nat.testBit_lt_two_pow (lt_of_lt_of_le hx hle),
        Nat.testBit_lt_two_pow (lt_of_lt_of_le hy hle)]
  · intro h
    refine Nat.eq_of_testBit_eq fun i => ?_
    rw [Nat.testBit_and, Nat.testBit_and, testBit_prefixMask h0]
    by_cases hi : 32 - bits ≤ i
    · have hd := congrArg (fun n => n.testBit (i - (32 - bits))) h
      simp only [Nat.testBit_div_two_pow, Nat.sub_add_cancel hi] at hd
      rw [hd]
    · simp [hi]

theorem number_lt (ip : Ip) : ip.number < 2 ^ 32 := by
  have ha := ip.a.toNat_lt
  have hb := ip.b.toNat_lt
  have hc := ip.c.toNat_lt
  have hd := ip.d.toNat_lt
  unfold Ip.number
  omega

theorem refused_iff (config : Config) (mac : List Char) (ip : Ip) :
    (ip.number &&& prefixMask config.bits ≠ config.address.number &&& prefixMask config.bits ∨
      ¬ validMac mac) ↔ (¬ config.Inside ip ∨ ¬ macPattern (lower mac)) := by
  have h0 : config.bits ≠ 0 := by have := config.linkLocal.1; omega
  rw [validMac_eq, Ne, mask_eq_iff h0 (number_lt _) (number_lt _)]
  rfl

section Commands

variable {config : Config} {g g' : State}

theorem Same.ensure (h : Same g g') (ip : Ip) (n : Name) :
    (Gtp.ensure config g.tunnels ip).get? n = (EmGtp.ensure config g'.tunnels ip).get? n := by
  rw [ensure_eq, get?_ensure, get?_ensure, h.tunnels]

theorem get?_erase (times : Dict Ip Lease) (ip ip' : Ip) :
    (times.erase ip).get? ip' = if ip' = ip then none else times.get? ip' := by
  split
  · rename_i he; rw [he]; exact Dict.get?_erase_self ..
  · rename_i hne; exact Dict.get?_erase_ne _ hne

theorem Same.drop (h : Same g g') (ip : Ip) :
    Same (g.drop ip) ⟨removeTunnel g'.tunnels ip, g'.times.erase ip⟩ := by
  refine ⟨fun n => ?_, fun ip' => ?_⟩
  · rw [removeTunnel_eq, State.drop, get?_remove, get?_remove, h.tunnels]
  · rw [State.drop, get?_erase, get?_erase, h.times]

theorem Same.keep (h : Same g g') (ip : Ip) (now : ℚ≥0) :
    Same { g with times := LeaseTimes.keep g.times ip now }
      { g' with times := LeaseTimes.keep g'.times ip now } := by
  refine ⟨h.tunnels, fun ip' => ?_⟩
  unfold LeaseTimes.keep
  rw [← h.times ip]
  cases g.times.get? ip with
  | none => exact h.times ip'
  | some lease =>
    dsimp only
    split
    · rw [Dict.get?_set, Dict.get?_set, h.times]
    · exact h.times ip'

theorem Same.event (h : Same g g') {environ : Environ} {r : Readings}
    (hfits : Fits config environ r.wall) (action : Action) (mac : List Char) (ip : Ip) :
    Same (Gtp.leaseEvent config g action mac ip environ r)
      (leaseEvent config g' action mac ip environ r) := by
  have hstarted : Same (Gtp.leaseEvent config g .add mac ip environ r)
      (leaseEvent config g' .add mac ip environ r) := by
    refine ⟨h.ensure ip, fun ip' => ?_⟩
    have hlength := leaseLength_eq hfits
    unfold recorded at hlength
    simp only [Gtp.leaseEvent, leaseEvent, started, hlength, Dict.get?_set, get?_erase, h.times]
    split <;> rfl
  cases action with
  | add | old => exact hstarted
  | other => exact h
  | del =>
    have hearly : early g.times ip r.event = early g'.times ip r.event := by
      unfold early
      rw [h.times]
    simp only [Gtp.leaseEvent, leaseEvent, earlyBy_nonneg, hearly]
    cases early g'.times ip r.event with
    | none => exact h.drop ip
    | some k => exact h.keep ip r.keep

end Commands

section Reconcile

variable {config : Config}

theorem expired_iff (line : Line) (wall : ℚ≥0) :
    (line.expiry ≠ 0 ∧ line.expiry ≤ ⌊wall⌋₊) ↔ ¬ line.Current wall := by
  rw [Line.Current, Nat.le_floor_iff zero_le, not_or, not_lt]

theorem readLeases_eq {file : List Line} {size : Nat} {wall : ℚ≥0} (hsize : size ≤ leasesMax)
    (hmac : ∀ line ∈ file, line.Current wall → line.mac.length ≤ 17) :
    readLeases file size ⌊wall⌋₊ = leases file wall := by
  rw [readLeases, if_pos hsize]
  refine foldl_ext _ _ _ fun l line hline => ?_
  simp only [expired_iff]
  by_cases hc : line.Current wall
  · have hfit : ¬ 17 < line.mac.length := not_lt.mpr (hmac line hline hc)
    simp [hfit]
  · simp [hc]

theorem unwanted_iff (g : State) (file : List Line) (wall : ℚ≥0) (ip : Ip) :
    (((leases file wall).get? ip).isNone ∧
      number ((g.times.get? ip).map earlyOf) (-1) < 0) ↔ ip ∉ wanted g file wall := by
  have hearly : number ((g.times.get? ip).map earlyOf) (-1) < 0 ↔
      ip ∉ kept g.times := by
    rw [mem_kept]
    cases g.times.get? ip with
    | none => simp [number]
    | some lease =>
      simp only [number, Option.map_some, Option.getD_some, Option.some.injEq, exists_eq_left',
        ← earlyOf_nonneg, not_le]
  rw [hearly, wanted, mem_dedup, mem_append, not_or, Option.isNone_iff_eq_none,
    Dict.get?_eq_none_iff]

theorem last_is_last {l : List Ip} (hl : l.Pairwise Ip.Before) {x y : Ip}
    (hx : l.getLast? = some x) (hy : y ∈ l) : y.Before x := by
  obtain ⟨init, rfl⟩ := getLast?_eq_some_iff.mp hx
  rw [mem_append, mem_singleton] at hy
  obtain hy | rfl := hy
  · exact (pairwise_append.mp hl).2.2 y hy x (by simp)
  · exact (Std.Total.total y y).elim id id

/-- A kept address whose tunnel is where `ensure` would put it: unpinned, in no swept lease's
place, and given up to no later address of the file. -/
structure Served (config : Config) (g : State) (file : List Line) (r : Readings) (ip : Ip) :
    Prop where
  tunnel : g.tunnels.get? (tunnelName ip) = some (tunnelTo config ip)
  spared : ∀ ip' lease, g.times.get? ip' = some lease → LeaseTimes.ended lease r.sweep = true →
    tunnelName ip' ≠ tunnelName ip
  first : ∀ line ∈ file, line.Current r.wall → tunnelName line.ip = tunnelName ip →
    ip.Before line.ip

/-- Every lease that stays kept and has no current line is served. -/
def KeptServed (config : Config) (g : State) (file : List Line) (r : Readings) : Prop :=
  ∀ ip lease, g.times.get? ip = some lease → lease.early.isSome →
    LeaseTimes.ended lease r.sweep = false →
    (∀ line ∈ file, line.Current r.wall → line.ip ≠ ip) → Served config g file r ip

theorem ensured_alike {L W : List Ip} {base : Option Tunnel} {n : Name}
    (hsub : ∀ ip ∈ L, ip ∈ W)
    (hrest : ∀ ip ∈ W, ip ∉ L → tunnelName ip = n → base = some (tunnelTo config ip) ∧
      ∀ ip' ∈ L, tunnelName ip' = n → ip.Before ip') :
    (((W.insertionSort Ip.Before).filter fun ip => tunnelName ip = n).getLast?.map
        (tunnelTo config)).or base =
      (((L.insertionSort Ip.Before).filter fun ip => tunnelName ip = n).getLast?.map
        (tunnelTo config)).or base := by
  have hmem : ∀ (l : List Ip) (x : Ip),
      x ∈ (l.insertionSort Ip.Before).filter (fun ip => tunnelName ip = n) ↔
        x ∈ l ∧ tunnelName x = n := by
    intro l x
    rw [mem_filter, mem_insertionSort, decide_eq_true_eq]
  have hsorted : ∀ l : List Ip,
      ((l.insertionSort Ip.Before).filter fun ip => tunnelName ip = n).Pairwise Ip.Before :=
    fun l => (pairwise_insertionSort _ l).filter _
  cases hW : ((W.insertionSort Ip.Before).filter fun ip => tunnelName ip = n).getLast? with
  | none =>
    cases hL : ((L.insertionSort Ip.Before).filter fun ip => tunnelName ip = n).getLast? with
    | none => rfl
    | some z =>
      obtain ⟨hz, hn⟩ := (hmem L z).mp (mem_of_getLast? hL)
      have hempty := getLast?_eq_none_iff.mp hW
      have := (hmem W z).mpr ⟨hsub z hz, hn⟩
      rw [hempty] at this
      cases this
  | some x =>
    obtain ⟨hx, hxn⟩ := (hmem W x).mp (mem_of_getLast? hW)
    cases hL : ((L.insertionSort Ip.Before).filter fun ip => tunnelName ip = n).getLast? with
    | none =>
      have hxL : x ∉ L := by
        intro hxL
        have := (hmem L x).mpr ⟨hxL, hxn⟩
        rw [getLast?_eq_none_iff.mp hL] at this
        cases this
      rw [(hrest x hx hxL hxn).1]
      rfl
    | some z =>
      obtain ⟨hz, hzn⟩ := (hmem L z).mp (mem_of_getLast? hL)
      have hzx : z.Before x := last_is_last (hsorted W) hW ((hmem W z).mpr ⟨hsub z hz, hzn⟩)
      have hxz : x.Before z := by
        by_cases hxL : x ∈ L
        · exact last_is_last (hsorted L) hL ((hmem L x).mpr ⟨hxL, hxn⟩)
        · exact (hrest x hx hxL hxn).2 z hz hzn
      rw [hxz.antisymm hzx]

theorem Same.reconcile {g g' : State} (h : Same g g') {file : List Line} {timesSize leasesSize : Nat}
    {r : Readings} (ht : timesSize ≤ timesMax) (hexact : Exact g'.times) (hl : leasesSize ≤ leasesMax)
    (hmac : ∀ line ∈ file, line.Current r.wall → line.mac.length ≤ 17)
    (hkept : KeptServed config g file r) :
    Same (Gtp.reconcile config g file r)
      (emGtpReconcile config g' file timesSize leasesSize r) := by
  have hs := h.sweep r.sweep
  have hwanted : ∀ ip, ip ∈ wanted (Gtp.sweep g r.sweep) file r.wall ↔
      ip ∈ wanted (EmGtp.sweep g' r.sweep) file r.wall := by
    intro ip
    rw [mem_wanted, mem_wanted, mem_kept, mem_kept, hs.times]
  refine ⟨fun n => ?_, ?_⟩
  · have hdel : ∀ (t : Dict Name Tunnel) (W : List Ip),
        t.entries.foldl (fun now e => if e.2.remote ∉ W then now.erase e.1 else now) t =
          removeOthers t W := fun t W => by simp only [removeOthers, ite_not]
    simp only [Gtp.reconcile, emGtpReconcile, timesLoad_eq ht hexact, readLeases_eq hl hmac,
      unwanted_iff, ensure_eq, hdel, get?_foldl_ensure, get?_removeOthers]
    simp only [← hs.tunnels, ← hwanted]
    refine ensured_alike (fun ip hip => mem_wanted.mpr (.inl (mem_leases.mp hip))) ?_
    rintro ip hip hnot rfl
    have hkeptip := (mem_wanted.mp hip).resolve_left fun hc => hnot (mem_leases.mpr hc)
    obtain ⟨lease, hlease, hearly⟩ := mem_kept.mp hkeptip
    obtain ⟨hlease, hended⟩ := get?_sweep_times_some.mp hlease
    have hserved := hkept ip lease hlease hearly hended fun line hline hc he =>
      hnot (mem_leases.mpr ⟨line, hline, hc, he⟩)
    refine ⟨?_, ?_⟩
    · have hspared : tunnelName ip ∉ (LeaseTimes.gone g.times r.sweep).map tunnelName := by
        rintro hm
        obtain ⟨ip', hgone, hname⟩ := mem_map.mp hm
        obtain ⟨lease', hlease', hended'⟩ := mem_gone.mp hgone
        exact hserved.spared ip' lease' hlease' hended' hname
      have htunnel : (Gtp.sweep g r.sweep).tunnels.get? (tunnelName ip) =
          some (tunnelTo config ip) := by
        rw [Gtp.sweep, get?_foldl_drop, if_neg hspared, hserved.tunnel]
      rw [htunnel]
      exact Option.filter_some_pos (decide_eq_true hip)
    · intro ip' hip' hname
      obtain ⟨line, hline, hc, rfl⟩ := mem_leases.mp hip'
      exact hserved.first line hline hc hname
  · intro ip
    simp only [emGtpReconcile, timesLoad_eq ht hexact]
    exact hs.times ip

end Reconcile

section Runs

inductive Command where
  | lease (action : Action) (mac : List Char) (ip : Ip) (environ : Environ) (timesSize : Nat)
      (r : Readings)
  | reconcile (file : List Line) (timesSize leasesSize : Nat) (r : Readings)

/-- The reference and the C program take one command with the same readings. A command that
fails leaves the tunnels and the saved times as they were. -/
def step (config : Config) (s : State × State) : Command → State × State
  | .lease action mac ip environ size r =>
    ((Gtp.lease config s.1 action mac ip environ r).toOption.getD s.1,
      (emGtpLease config s.2 action mac ip environ size r).getD s.2)
  | .reconcile file timesSize leasesSize r =>
    (Gtp.reconcile config s.1 file r, emGtpReconcile config s.2 file timesSize leasesSize r)

theorem Same.exact {g g' : State} (h : Same g g') (hg : Exact g.times) : Exact g'.times :=
  fun ip lease hlease => hg ip lease ((h.times ip).trans hlease)

theorem Exact.sweep {g : State} (h : Exact g.times) (now : ℚ≥0) : Exact (Gtp.sweep g now).times :=
  fun ip lease hlease => h ip lease (get?_sweep_times_some.mp hlease).1

theorem Exact.event {config : Config} {g : State} (h : Exact g.times) {environ : Environ}
    {r : Readings} (hfits : Fits config environ r.wall) (action : Action) (mac : List Char) (ip : Ip) :
    Exact (Gtp.leaseEvent config g action mac ip environ r).times := by
  cases action with
  | add | old => exact Dict.Each.set h hfits.2
  | other => exact h
  | del =>
    simp only [Gtp.leaseEvent]
    split
    · unfold LeaseTimes.keep
      split
      · exact h
      · rename_i lease hlease
        split
        · exact Dict.Each.set h (h ip lease hlease)
        · exact h
    · exact Dict.Each.erase h ip

end Runs

/-! One lease kept ten seconds into its hour, with and without its tunnel, and an empty file. -/

namespace OneKept

def gateway : Config := ⟨⟨169, 254, 1, 1⟩, 24, .hours 1, by decide⟩

def pod : Ip := ⟨169, 254, 1, 5⟩

def mac : List Char := "02:00:00:00:00:05".toList

def kept : Lease := ⟨mac, 0, some 3600, some 15, by decide⟩

def times : Dict Ip Lease := (∅ : Dict Ip Lease).set pod kept

def bare : State := ⟨∅, times⟩

def reconciled : Command := .reconcile [] 100 0 ⟨20, 20, 20, 5000⟩

end OneKept

open OneKept

end EmGtp
end Emosa.C
