import Mathlib.Data.Set.Card
import Mathlib.Order.Bounds.Basic
import Mathlib.Order.Interval.Finset.Nat
import Mathlib.Tactic.Linarith
import Mathlib.Tactic.FieldSimp
import Emosa.Lib.Log
import Emosa.Wire.ReportingPolicy

/-!
# Emosa.Wire.ReportingPeriods

Every period is counted once. A metrics policy received at `start` makes reports due at the instants
`start + k * interval`; however late a tick comes, and whatever the reporter does, it counts the
instants that have passed and leaves `nextDue` at the first one ahead.
-/

namespace Emosa.Wire

open Durable
namespace ReportingPolicy

open Durable (Prog Proc At Looked Looks Told Tells wp wp_mono wp_bind)
open Wsc (PeerBinding)

/-! ## Instants -/

/-- The `m`-th instant is the last one not after `T`. -/
structure Reached (start : ℚ) (interval m : Nat) (T : ℚ) : Prop where
  before : m = 0 ∨ start + m * interval ≤ T
  after : T < start + (m + 1) * interval

section Instants

variable {start T : ℚ} {interval m : Nat}

theorem Reached.later (h : Reached start interval m T) {now : ℚ} (hT : T ≤ now)
    (hnow : now < start + (m + 1) * interval) : Reached start interval m now :=
  ⟨h.before.imp_right fun hle => hle.trans hT, hnow⟩

theorem Reached.periods (hi : interval ≠ 0) {now : ℚ} (hnow : start + (m + 1) * interval ≤ now) :
    1 ≤ ReportingPolicyCoordinator.periods now (start + (m + 1) * interval) interval ∧
      Reached start interval
        (m + ReportingPolicyCoordinator.periods now (start + (m + 1) * interval) interval) now := by
  have hpos : (0 : ℚ) < interval := by exact_mod_cast Nat.pos_of_ne_zero hi
  unfold ReportingPolicyCoordinator.periods
  set x : ℚ := (now - (start + (m + 1) * interval)) / interval with hx
  have hx0 : 0 ≤ x := div_nonneg (by linarith) hpos.le
  have hfloor : 0 ≤ ⌊x⌋ := Int.floor_nonneg.mpr hx0
  obtain ⟨f, hf⟩ := Int.eq_ofNat_of_zero_le hfloor
  have hn : (⌊x⌋ + 1).toNat = f + 1 := by rw [hf]; rfl
  have hmul : x * interval = now - (start + (m + 1) * interval) := by
    rw [hx]
    field_simp
  have hle : (f : ℚ) ≤ x := by
    have := Int.floor_le x
    rw [hf] at this
    exact_mod_cast this
  have hlt : x < f + 1 := by
    have := Int.lt_floor_add_one x
    rw [hf] at this
    exact_mod_cast this
  rw [hn]
  refine ⟨by omega, .inr ?_, ?_⟩
  · push_cast
    nlinarith [mul_le_mul_of_nonneg_right hle hpos.le]
  · push_cast
    nlinarith [mul_lt_mul_of_pos_right hlt hpos]

end Instants

/-! ## Counts -/

/-- The record counts the instants up to the last tick, and the next one is due. -/
structure Accounts (v : Value) (s : Schedule) (ticked : Option ℚ) : Prop where
  none_iff : v.nextDue = none ↔ v.policy.interval = 0
  counts : v.policy.interval ≠ 0 → ∃ m : ℕ,
    v.nextDue = some (s.start + (m + 1) * v.policy.interval) ∧ v.counted = s.before + m ∧
      (∀ T, ticked = some T → Reached s.start v.policy.interval m T) ∧ (ticked = none → m = 0)

namespace Accounts

variable {v v' : Value} {s : Schedule} {ticked : Option ℚ} {now : ℚ}

theorem quiet (h : Accounts v s ticked) (hT : ∀ T, ticked = some T → T ≤ now)
    (hdue : ∀ due, v.nextDue = some due → now < due) : Accounts v s (some now) where
  __ := h
  counts hi := by
    obtain ⟨m, hm, hcount, hreach, hnone⟩ := h.counts hi
    refine ⟨m, hm, hcount, ?_, nofun⟩
    rintro _ ⟨⟩
    cases ticked with
    | none =>
      obtain rfl := hnone rfl
      exact ⟨.inl rfl, hdue _ hm⟩
    | some T => exact (hreach T rfl).later (hT T rfl) (hdue _ hm)

theorem account (h : Accounts v s ticked) {due : ℚ} (hdue : v.nextDue = some due) (hnow : due ≤ now)
    (hi : v.policy.interval ≠ 0) (hpolicy : v'.policy = v.policy)
    (hnext : v'.nextDue = some (due +
      ReportingPolicyCoordinator.periods now due v.policy.interval * v.policy.interval))
    (hcounted : v'.counted =
      v.counted + ReportingPolicyCoordinator.periods now due v.policy.interval) :
    Accounts v' s (some now) := by
  refine ⟨?_, fun _ => ?_⟩
  · rw [hnext, hpolicy]
    exact ⟨nofun, fun h0 => absurd h0 hi⟩
  · obtain ⟨m, hm, hcount, -, -⟩ := h.counts hi
    obtain rfl := Option.some.inj (hm.symm.trans hdue)
    obtain ⟨-, hreached⟩ := Reached.periods hi hnow
    rw [hpolicy]
    refine ⟨m + ReportingPolicyCoordinator.periods now (s.start + (m + 1) * v.policy.interval)
      v.policy.interval, ?_, ?_, ?_, nofun⟩
    · rw [hnext, Option.some.injEq]
      push_cast
      ring
    · rw [hcounted, hcount, Nat.add_assoc]
    · rintro _ ⟨⟩
      exact hreached

theorem periods_pos (h : Accounts v s ticked) {due : ℚ} (hdue : v.nextDue = some due)
    (hnow : due ≤ now) (hi : v.policy.interval ≠ 0) :
    1 ≤ ReportingPolicyCoordinator.periods now due v.policy.interval := by
  obtain ⟨m, hm, -⟩ := h.counts hi
  obtain rfl := Option.some.inj (hm.symm.trans hdue)
  exact (Reached.periods hi hnow).1

theorem start (hnext : v.nextDue =
      if v.policy.interval = 0 then none else some (now + v.policy.interval))
    (hT : ∀ T, ticked = some T → T ≤ now) : Accounts v ⟨now, v.counted⟩ ticked := by
  refine ⟨?_, fun hi => ⟨0, ?_, rfl, ?_, fun _ => rfl⟩⟩
  · rw [hnext]
    split <;> simpa
  · rw [hnext, if_neg hi]
    simp
  · intro T hticked
    have hpos : (0 : ℚ) < v.policy.interval := by exact_mod_cast Nat.pos_of_ne_zero hi
    refine ⟨.inl rfl, ?_⟩
    have := hT T hticked
    push_cast
    linarith

end Accounts

/-! ## The log -/

/-- The two have the policies of every kind the TLVs do not have in common. -/
structure Keeps (tlvs : List Tlv) (old new : Policy) : Prop where
  metrics : (∀ t ∈ tlvs, t.kind ≠ 0x8A) → new.metrics = old.metrics
  steering : (∀ t ∈ tlvs, t.kind ≠ 0x89) → new.steering = old.steering
  qos : (∀ t ∈ tlvs, t.kind ≠ 0xDB) → new.qos = old.qos
  notApplied : (∀ t ∈ tlvs, t.kind = 0x8A ∨ t.kind = 0x89 ∨ t.kind = 0xDB) →
    new.notApplied = old.notApplied

/-- The record persisted last, at first the one kept. -/
def lastSaved (kept : Option Value) (past : List Event) : Option Value :=
  past.foldl (fun v e => match e with | .saved _ new => some new | .acked _ _ _ => v) kept

/-- The policy a record has for somebody. -/
def policyFor (record : Option Value) (identity : Identity) : Policy :=
  match record with
  | some v => if v.identity ≠ identity then {} else v.policy
  | none => {}

/-- What has to hold of an event after the ones before it. A request changes the policy persisted
last: it keeps the kinds it omits, and the next due instant unless the metrics policy changes; a new
request is acknowledged right after its policy was persisted, a repeated one after a request of its MID
and digest was. -/
def Law (world : World) (kept : Option Value) (past : List Event) : Event → Prop
  | .saved old new => old.policy = policyFor (lastSaved kept past) new.identity ∧
      Keeps new.latestRequest old.policy new.policy ∧
      (new.policy.metrics = old.policy.metrics → new.nextDue = old.nextDue)
  | .acked mid tlvs false => ∃ before old new acks, past = before ++ .saved old new :: acks ∧
      new.latestMid = some mid ∧ new.latestRequest = tlvs ∧ ∀ e ∈ acks, e = .acked mid tlvs false
  | .acked mid tlvs true => ∃ old new, .saved old new ∈ past ∧ new.latestMid = some mid ∧
      world.sha256 (requestText new.latestRequest) = world.sha256 (requestText tlvs)

theorem keeps_addPolicy {ruids : List Bytes} {result next : Policy} {tlv : Tlv}
    (h : addPolicy ruids result tlv = .ok next) : Keeps [tlv] result next := by
  unfold addPolicy at h
  split at h
  · rename_i hk
    obtain ⟨m, -, h⟩ := Except.bind_ok h
    cases h
    exact ⟨fun hno => absurd hk (hno tlv (by simp)), fun _ => rfl, fun _ => rfl, fun _ => rfl⟩
  · split at h
    · rename_i hk
      obtain ⟨m, -, h⟩ := Except.bind_ok h
      cases h
      exact ⟨fun _ => rfl, fun hno => absurd hk (hno tlv (by simp)), fun _ => rfl, fun _ => rfl⟩
    · split at h
      · rename_i hk
        obtain ⟨m, -, h⟩ := Except.bind_ok h
        cases h
        exact ⟨fun _ => rfl, fun _ => rfl, fun hno => absurd hk (hno tlv (by simp)), fun _ => rfl⟩
      · rename_i hm hs hq
        cases h
        refine ⟨fun _ => rfl, fun _ => rfl, fun _ => rfl, fun hknown => ?_⟩
        rcases hknown tlv (by simp) with hk | hk | hk
        · exact absurd hk hm
        · exact absurd hk hs
        · exact absurd hk hq

theorem keeps_foldlM {ruids : List Bytes} {tlvs : List Tlv} {result next : Policy}
    (h : tlvs.foldlM (addPolicy ruids) result = .ok next) : Keeps tlvs result next := by
  induction tlvs generalizing result with
  | nil =>
    cases h
    exact ⟨fun _ => rfl, fun _ => rfl, fun _ => rfl, fun _ => rfl⟩
  | cons tlv tlvs ih =>
    obtain ⟨mid, hmid, h⟩ := Except.bind_ok h
    have hone := keeps_addPolicy hmid
    have hrest := ih h
    refine ⟨fun hno => ?_, fun hno => ?_, fun hno => ?_, fun hno => ?_⟩
    all_goals
      simp only [List.forall_mem_cons] at hno
    · rw [hrest.metrics hno.2, hone.metrics (by simpa using hno.1)]
    · rw [hrest.steering hno.2, hone.steering (by simpa using hno.1)]
    · rw [hrest.qos hno.2, hone.qos (by simpa using hno.1)]
    · rw [hrest.notApplied hno.2, hone.notApplied (by simpa using hno.1)]

theorem keeps_merge {ruids : List Bytes} {tlvs : List Tlv} {update : Policy} (old : Policy)
    (h : decodePolicy tlvs ruids = .ok update) : Keeps tlvs old (old.merge update) := by
  have hk := keeps_foldlM h
  unfold Policy.merge
  refine ⟨fun hno => ?_, fun hno => ?_, fun hno => ?_, fun hno => ?_⟩
  · rw [hk.metrics hno]; rfl
  · rw [hk.steering hno]; rfl
  · rw [hk.qos hno]; rfl
  · rw [hk.notApplied hno]; rfl

theorem Accounts.of_eq {v v' : Value} {s : Schedule} {ticked : Option ℚ} (h : Accounts v s ticked)
    (hinterval : v'.policy.interval = v.policy.interval) (hnext : v'.nextDue = v.nextDue)
    (hcounted : v'.counted = v.counted) : Accounts v' s ticked := by
  refine ⟨?_, ?_⟩
  · rw [hnext, hinterval]
    exact h.none_iff
  · rw [hnext, hinterval, hcounted]
    exact h.counts

theorem Accounts.of_none {v : Value} {s : Schedule} {ticked : Option ℚ} (hnext : v.nextDue = none)
    (hinterval : v.policy.interval = 0) : Accounts v s ticked :=
  ⟨by simp [hnext, hinterval], fun hi => absurd hinterval hi⟩

/-! ## Runs -/

structure Inv (world : World) (kept : Option Value) (n : Nat) (c : ReportingPolicyCoordinator)
    (log : List Event) : Prop where
  accounts : ∀ v, c.value = some v → Accounts v c.schedule c.ticked
  ticked : ∀ T, c.ticked = some T → T ≤ world.clock n
  held : policyFor c.value = policyFor (lastSaved kept log)
  law : Log.Justified (Law world kept) log
  recent : ∀ mid digest t, c.recent.get? mid = some (digest, t) → ∃ old new, .saved old new ∈ log ∧
    new.latestMid = some mid ∧ world.sha256 (requestText new.latestRequest) = digest

variable {world : World} {kept : Option Value} {p : Process}

theorem lastSaved_acks {log ws : List Event} {mid : Nat} {tlvs : List Tlv} {again : Bool}
    (h : ∀ w ∈ ws, w = .acked mid tlvs again) : lastSaved kept (log ++ ws) = lastSaved kept log := by
  unfold lastSaved
  rw [List.foldl_append]
  induction ws with
  | nil => rfl
  | cons w ws ih =>
    rw [List.foldl_cons, h w List.mem_cons_self]
    exact ih fun x hx => h x (List.mem_cons_of_mem _ hx)

theorem Inv.later {n n' : Nat} {c c' : ReportingPolicyCoordinator} {log : List Event}
    (h : Inv world kept n c log) (hclock : Monotone world.clock) (hn : n ≤ n') (hvalue : c'.value = c.value)
    (hschedule : c'.schedule = c.schedule) (hticked : c'.ticked = c.ticked)
    (hrecent : ∀ mid e, c'.recent.get? mid = some e → c.recent.get? mid = some e) :
    Inv world kept n' c' log where
  __ := h
  accounts v hv := by
    rw [hschedule, hticked]
    exact h.accounts v (hvalue ▸ hv)
  ticked T hT := (h.ticked T (hticked ▸ hT)).trans (hclock hn)
  held := hvalue ▸ h.held
  recent mid digest t ht := h.recent mid digest t (hrecent mid _ ht)

theorem Inv.saved {n n' : Nat} {c : ReportingPolicyCoordinator} {log : List Event}
    (h : Inv world kept n c log) (hclock : Monotone world.clock) (hn : n ≤ n') {old new : Value}
    (hlaw : Law world kept log (.saved old new)) {schedule : Schedule}
    (hacc : Accounts new schedule c.ticked) {mid : Nat} (hmid : new.latestMid = some mid) (t : ℚ) :
    Inv world kept n' { c with
        value := some new
        schedule := schedule
        recent := c.recent.set mid (world.sha256 (requestText new.latestRequest), t) }
      (log ++ [.saved old new]) where
  accounts := by
    rintro _ ⟨⟩
    exact hacc
  ticked T hT := (h.ticked T hT).trans (hclock hn)
  held := by
    rw [lastSaved, List.foldl_append]
    rfl
  law := Log.justified_snoc.mpr ⟨h.law, hlaw⟩
  recent mid' digest t' ht := by
    rw [Dict.get?_set] at ht
    split at ht
    · rename_i heq
      cases ht
      exact ⟨old, new, by simp, heq ▸ hmid, rfl⟩
    · obtain ⟨old', new', hmem, hrest⟩ := h.recent mid' digest t' ht
      exact ⟨old', new', List.mem_append_left _ hmem, hrest⟩

namespace ReportingPolicyCoordinator

theorem looks_snapshot : Looks (snapshot world) := by
  refine .bind (.read _) fun s => .bind .self fun c => ?_
  cases s with
  | none => exact .raise _
  | some s => exact .ite (.raise _) (.pure _)

theorem wp_account {now due : ℚ} {v : Value} (hpos : v.policy.interval ≠ 0 →
      1 ≤ periods now due v.policy.interval) :
    wp (account world now due v) (fun _ p' => p.memory.turn ≤ p'.memory.turn ∧
      p'.journal = p.journal ∧
      ((v.policy.interval = 0 ∧ p'.memory.self = p.memory.self) ∨
        (v.policy.interval ≠ 0 ∧ ∃ v', v'.policy = v.policy ∧ v'.identity = v.identity ∧
          v'.nextDue = some (due + periods now due v.policy.interval * v.policy.interval) ∧
          v'.counted = v.counted + periods now due v.policy.interval ∧
          p'.memory.self = { p.memory.self with value := some v', ticked := some now }))) p := by
  unfold account
  simp only [wp_bind, wp_self]
  split
  · rename_i h0
    exact ⟨Nat.le_refl _, rfl, .inl ⟨h0, rfl⟩⟩
  rename_i hi
  simp only [wp_bind, wp_change]
  have hreserved : (reserved v p.memory.self.reporting due (periods now due v.policy.interval)).counted =
      v.counted + periods now due v.policy.interval := by
    simp only [Value.counted, reserved]
    omega
  split
  · simp only [wp_bind, wp_read]
    have hmissed : ∀ reason, (missed (reserved v p.memory.self.reporting due
        (periods now due v.policy.interval)) reason).counted =
        v.counted + periods now due v.policy.interval := fun _ => hreserved
    cases world.reporter p.memory.turn with
    | none =>
      refine ⟨Nat.le_succ _, rfl, .inr ⟨hi, _, ?_, ?_, ?_, ?_, rfl⟩⟩
      · rfl
      · rfl
      · rfl
      · simp only [Value.counted, fulfilled, reserved]
        omega
    | some e =>
      cases e with
      | other =>
        refine ⟨Nat.le_succ _, rfl, .inr ⟨hi, _, ?_, ?_, ?_, hreserved, rfl⟩⟩ <;> rfl
      | emosa | connection | timeout =>
        refine ⟨Nat.le_succ _, rfl, .inr ⟨hi, _, ?_, ?_, ?_, hmissed _, rfl⟩⟩ <;> rfl
  · refine ⟨Nat.le_refl _, rfl, .inr ⟨hi, _, ?_, ?_, ?_, hreserved, rfl⟩⟩ <;> rfl

theorem tick_inv (hclock : Monotone world.clock)
    (h : Inv world kept p.memory.turn p.memory.self p.journal) :
    wp (tick world) (fun _ p' => Inv world kept p'.memory.turn p'.memory.self p'.journal) p := by
  unfold tick
  simp only [Outside.now, wp_bind, wp_read, wp_change, wp_self]
  set now := world.clock p.memory.turn with hnow
  -- The coordinator without the requests that are forgotten now.
  set c : ReportingPolicyCoordinator := { p.memory.self with
    recent := p.memory.self.recent.filter fun _ e => now < e.2 } with hc
  have hswept : ∀ n, p.memory.turn ≤ n → Inv world kept n c p.journal := fun n hn =>
    h.later hclock hn rfl rfl rfl fun mid e he => (Dict.get?_filter.mp he).1
  have hlast : ∀ T, c.ticked = some T → T ≤ now := h.ticked
  cases hv : c.value with
  | none => exact hswept _ (Nat.le_succ _)
  | some v =>
    have hacc : Accounts v c.schedule c.ticked := h.accounts v hv
    -- The tick has looked at the periods.
    have hlooked : ∀ (n : Nat) (v' : Value), p.memory.turn ≤ n → v'.policy = v.policy →
        v'.identity = v.identity → Accounts v' c.schedule (some now) →
        Inv world kept n { c with value := some v', ticked := some now } p.journal := by
      intro n v' hn hpolicy hidentity hacc'
      refine ⟨?_, ?_, ?_, h.law, (hswept n hn).recent⟩
      · rintro _ ⟨⟩
        exact hacc'
      · rintro _ ⟨⟩
        exact hclock hn
      · rw [← h.held, show p.memory.self.value = some v from hv]
        funext identity
        simp only [policyFor, hpolicy, hidentity]
    have hquiet : ∀ n, p.memory.turn ≤ n → (∀ due, v.nextDue = some due → now < due) →
        Inv world kept n { c with ticked := some now } p.journal := by
      intro n hn hnone
      have hinv := hlooked n v hn rfl rfl (hacc.quiet hlast hnone)
      rwa [← hv] at hinv
    dsimp only
    split
    · exact hswept _ (Nat.le_succ _)
    simp only [wp_bind, wp_attempt]
    refine wp_mono (looks_snapshot _) ?_
    rintro r p₂ hlook
    have hturn : p.memory.turn ≤ p₂.memory.turn := (Nat.le_succ _).trans hlook.turn
    have hself : p₂.memory.self = c := hlook.self
    have hlog : p₂.journal = p.journal := hlook.journal
    have hunseen : Inv world kept p₂.memory.turn p₂.memory.self p₂.journal := by
      rw [hself, hlog]
      exact hswept _ hturn
    cases r with
    | error e => cases e <;> exact hunseen
    | ok s =>
      simp only
      split
      · exact hunseen
      cases hdue : v.nextDue with
      | none =>
        simp only [wp_change, hself, hlog]
        exact hquiet _ hturn (by simp [hdue])
      | some due =>
        simp only
        split
        · rename_i hge
          refine wp_mono (wp_account fun hi => hacc.periods_pos hdue hge hi) ?_
          rintro _ p₃ ⟨hturn₃, hlog₃, ⟨-, hself₃⟩ | ⟨hi, v', hpolicy, hidentity, hnext, hcounted, hself₃⟩⟩
            <;> rw [hself₃, hlog₃, hself, hlog]
          · exact hswept _ (hturn.trans hturn₃)
          · exact hlooked _ v' (hturn.trans hturn₃) hpolicy hidentity
              (hacc.account hdue hge hi hpolicy hnext hcounted)
        · rename_i hlt
          simp only [wp_change, hself, hlog]
          exact hquiet _ hturn (by simpa [hdue] using hlt)

theorem base_accounts {n : Nat} {c : ReportingPolicyCoordinator} {log : List Event}
    (h : Inv world kept n c log) (s : Snapshot) : Accounts (c.base s) c.schedule c.ticked := by
  unfold base
  cases hv : c.value with
  | none => exact .of_none rfl rfl
  | some v =>
    simp only
    split
    · exact .of_none rfl rfl
    · exact h.accounts v hv

theorem base_policy (c : ReportingPolicyCoordinator) (s : Snapshot) :
    (c.base s).policy = policyFor c.value (c.base s).identity := by
  unfold base policyFor
  cases c.value with
  | none => rfl
  | some v =>
    by_cases h : v.identity = c.identity s
    · simp [h]
    · simp [h]

theorem received_nextDue {v : Value} {update : Policy} (message : Message) (now : ℚ)
    (h : (v.policy.merge update).metrics = v.policy.metrics) :
    (received v update message now).nextDue = v.nextDue := by
  simp [received, h]

variable {message : Message}

theorem received_accounts {v : Value} {s : Schedule} {ticked : Option ℚ} {update : Policy} {now : ℚ}
    (h : Accounts v s ticked)
    (hT : (v.policy.merge update).metrics ≠ v.policy.metrics → ∀ T, ticked = some T → T ≤ now) :
    Accounts (received v update message now)
      (if (received v update message now).policy.metrics ≠ v.policy.metrics then ⟨now, v.counted⟩
        else s) ticked := by
  have hpolicy : (received v update message now).policy.metrics = (v.policy.merge update).metrics := rfl
  rw [hpolicy]
  by_cases hm : (v.policy.merge update).metrics = v.policy.metrics
  · have hinterval : (received v update message now).policy.interval = v.policy.interval := by
      show (v.policy.merge update).interval = v.policy.interval
      rw [Policy.interval, Policy.interval, hm]
    rw [if_neg (not_not.mpr hm)]
    exact h.of_eq hinterval (received_nextDue message now hm) rfl
  · rw [if_pos hm]
    refine Accounts.start ?_ (hT hm)
    show (if (v.policy.merge update).metrics ≠ v.policy.metrics then _ else v.nextDue) = _
    rw [if_pos hm]
    rfl

theorem wp_rescheduledAt {v : Value} {update : Policy} :
    wp (rescheduledAt world v update) (fun r p' => Looked p p' ∧ ∀ now, r = .ok now →
      (v.policy.merge update).metrics ≠ v.policy.metrics → now = world.clock p.memory.turn) p := by
  unfold rescheduledAt
  split
  · exact ⟨.next p, by rintro _ ⟨⟩ _; rfl⟩
  · rename_i hno
    exact ⟨.refl p, fun _ _ hm => absurd hm hno⟩

/-- The request is the last thing persisted. -/
def Persisted (message : Message) (log : List Event) : Prop :=
  ∃ before old new, log = before ++ [.saved old new] ∧ new.latestMid = some message.mid ∧
    new.latestRequest = message.tlvs

theorem receive_inv (hclock : Monotone world.clock) {s : Snapshot}
    {update : Policy} (hdecode : decodePolicy message.tlvs s.ruids = .ok update)
    (h : Inv world kept p.memory.turn p.memory.self p.journal) :
    wp (receive world message s update (world.sha256 (requestText message.tlvs)))
      (fun r p' => Inv world kept p'.memory.turn p'.memory.self p'.journal ∧
        (r = .ok () → Persisted message p'.journal)) p := by
  unfold receive
  simp only [wp_bind, wp_self]
  split
  · exact ⟨h, by simp⟩
  simp only [wp_bind]
  refine wp_mono wp_rescheduledAt ?_
  have hstays : ∀ p', Looked p p' → Inv world kept p'.memory.turn p'.memory.self p'.journal := by
    intro p' hlook
    rw [hlook.self, hlook.journal]
    exact h.later hclock hlook.turn rfl rfl rfl fun _ _ he => he
  rintro (e | now) p₁ ⟨hlook₁, hnow⟩
  · exact ⟨hstays p₁ hlook₁, by simp⟩
  have hnow := hnow now rfl
  refine wp_mono (looks_snapshot p₁) ?_
  rintro (e | current) p₂ hlook₂
  · exact ⟨hstays p₂ (hlook₁.trans hlook₂), by simp⟩
  simp only [Outside.now, wp_read]
  have hlook₃ := (hlook₁.trans hlook₂).trans (.next p₂)
  refine wp_mono (looks_liftE _ _) ?_
  rintro (e | u) p₃ hlook₄
  · exact ⟨hstays p₃ (hlook₃.trans hlook₄), by simp⟩
  have hlook := hlook₃.trans hlook₄
  simp only [persist, wp_bind, wp_read]
  cases hsave : world.saves p₃.memory.turn with
  | some e => exact ⟨hstays _ (hlook.trans (.next p₃)), by simp⟩
  | none =>
    generalize hnew : received (p.memory.self.base s) update message now = new
    have hlaw : Law world kept p.journal (.saved (p.memory.self.base s) new) := by
      subst hnew
      exact ⟨(base_policy _ s).trans (congrFun h.held _), keeps_merge _ hdecode,
        received_nextDue message now⟩
    have hacc : Accounts new (if new.policy.metrics ≠ (p.memory.self.base s).policy.metrics then
        ⟨now, (p.memory.self.base s).counted⟩ else p.memory.self.schedule) p.memory.self.ticked := by
      subst hnew
      refine received_accounts (base_accounts h s) fun hm T hT => ?_
      rw [hnow hm]
      exact h.ticked T hT
    have hlater : p.memory.turn ≤ p₃.memory.turn + 1 + 1 := by
      have := hlook.turn
      omega
    have hmid : new.latestMid = some message.mid := by rw [← hnew]; rfl
    have hrequest : new.latestRequest = message.tlvs := by rw [← hnew]; rfl
    simp only [hlook.self, hlook.journal]
    exact ⟨hrequest ▸ h.saved hclock hlater hlaw hacc hmid _,
      fun _ => ⟨_, _, new, rfl, hmid, hrequest⟩⟩

theorem tells_sendAck (message : Message) (s : Snapshot) (receivedAt : ℚ) (again : Bool) :
    Tells (· = .acked message.mid message.tlvs again)
      (sendAck world message s receivedAt again) := by
  refine .bind Looks.self.tells fun c => .bind (looks_liftE _).tells fun frames => ?_
  refine PreparedReport.tells_send (fun _ _ => ?_) (.bind looks_snapshot fun _ => .pure _) (.read _)
  exact .bind Outside.looks_sendFrame.tells fun _ => .commit rfl

theorem replay_log (log ws : List Event) : replay log ws = log ++ ws := by
  induction ws generalizing log with
  | nil => simp
  | cons w ws ih =>
    rw [replay_cons, ih]
    show log ++ [w] ++ ws = _
    simp

theorem sendAck_inv (hclock : Monotone world.clock) {s : Snapshot}
    {receivedAt : ℚ} {again : Bool} (h : Inv world kept p.memory.turn p.memory.self p.journal)
    (hlaw : ∀ ws, (∀ w ∈ ws, w = Event.acked message.mid message.tlvs again) →
      Law world kept (p.journal ++ ws) (.acked message.mid message.tlvs again)) :
    wp (sendAck world message s receivedAt again)
      (fun _ p' => Inv world kept p'.memory.turn p'.memory.self p'.journal) p := by
  refine wp_mono (tells_sendAck message s receivedAt again p) ?_
  rintro _ p' ⟨hself, hturn, ws, hws, hall⟩
  rw [replay_log] at hws
  have hjust : Log.Justified (Law world kept) (p.journal ++ ws) := by
    clear hws
    induction ws using List.reverseRecOn with
    | nil =>
      rw [List.append_nil]
      exact h.law
    | append_singleton ws w ih =>
      have hw : ∀ x ∈ ws, x = Event.acked message.mid message.tlvs again := fun x hx =>
        hall x (List.mem_append_left _ hx)
      rw [← List.append_assoc, hall w (by simp)]
      exact Log.justified_snoc.mpr ⟨ih hw, hlaw ws hw⟩
  have hlater := h.later hclock hturn rfl rfl rfl fun _ _ he => he
  rw [hself, hws]
  refine ⟨hlater.accounts, hlater.ticked, by rw [lastSaved_acks hall]; exact h.held, hjust,
    fun mid digest t ht => ?_⟩
  obtain ⟨old, new, hmem, hrest⟩ := h.recent mid digest t ht
  exact ⟨old, new, List.mem_append_left _ hmem, hrest⟩

theorem handle_inv (hclock : Monotone world.clock) {receivedAt : ℚ}
    (h : Inv world kept p.memory.turn p.memory.self p.journal) :
    wp (handle world message receivedAt)
      (fun _ p' => Inv world kept p'.memory.turn p'.memory.self p'.journal) p := by
  unfold handle
  split
  · exact h
  rw [wp_bind]
  refine wp_mono (tick_inv hclock h) ?_
  rintro (e | u) p₁ h₁
  · exact h₁
  have hstays : ∀ p', Looked p₁ p' → Inv world kept p'.memory.turn p'.memory.self p'.journal := by
    intro p' hlook
    rw [hlook.self, hlook.journal]
    exact h₁.later hclock hlook.turn rfl rfl rfl fun _ _ he => he
  simp only [wp_bind]
  refine wp_mono (looks_snapshot p₁) ?_
  rintro (e | s) p₂ hlook
  · exact hstays p₂ hlook
  simp only [wp_self]
  split
  · exact hstays p₂ hlook
  simp only [Outside.now, wp_bind, wp_read]
  have h₃ := hstays _ (hlook.trans (.next p₂))
  split
  · exact h₃
  split
  · exact h₃
  simp only [wp_bind]
  cases hdecode : decodePolicy message.tlvs s.ruids with
  | error e => exact h₃
  | ok update =>
    simp only [liftE, wp_pure]
    cases hprior : p₂.memory.self.recent.get? message.mid with
    | some prior =>
      simp only
      split
      · exact h₃
      · rename_i hsame
        refine sendAck_inv hclock h₃ fun ws _ => ?_
        obtain ⟨old, new, hmem, hmid, hdigest⟩ := h₃.recent message.mid prior.1 prior.2 hprior
        exact ⟨old, new, List.mem_append_left _ hmem, hmid, hdigest.trans (not_not.mp hsame)⟩
    | none =>
      simp only [wp_bind]
      refine wp_mono (receive_inv hclock hdecode h₃) ?_
      rintro (e | u) p₄ ⟨h₄, hpersisted⟩
      · exact h₄
      obtain ⟨before, old, new, hlog, hmid, htlvs⟩ := hpersisted rfl
      refine sendAck_inv hclock h₄ fun ws hws => ?_
      exact ⟨before, old, new, ws, by rw [hlog]; simp, hmid, htlvs, hws⟩

end ReportingPolicyCoordinator

open ReportingPolicyCoordinator in
theorem inv_step (hclock : Monotone world.clock) (call : Call)
    (h : Inv world kept p.memory.turn p.memory.self p.journal) :
    Inv world kept (step world p call).memory.turn (step world p call).memory.self
      (step world p call).journal := by
  have hact : wp (call.act world)
      (fun _ p' => Inv world kept p'.memory.turn p'.memory.self p'.journal) p := by
    cases call with
    | handle message receivedAt => exact handle_inv hclock h
    | tick => exact tick_inv hclock h
    | close =>
      exact h.later hclock (Nat.le_refl _) rfl rfl rfl fun mid e he => by cases he
  unfold step
  unfold wp at hact
  split at hact <;> rename_i heq <;> rw [heq] <;> exact hact

namespace LateTick

def ruid : Bytes := [2, 0, 0, 0, 0, 1]

def binding : PeerBinding :=
  ⟨"eth0", 1, [2, 0, 0, 0, 0, 9], [2, 0, 0, 0, 0, 8], [[2, 0, 0, 0, 0, 8]]⟩

/-- The policy and a tick come at once, the next tick after two periods and a half. -/
def clock (n : Nat) : ℚ := if n < 16 then 0 else 5 / 2

def around : World where
  clock := clock
  current := fun _ => some ⟨⟨"a", 0, 1⟩, ruid, []⟩
  link := fun _ => none
  saves := fun _ => none
  reporter := fun _ => none
  sha256 := id

def request : Message :=
  ⟨binding.localAl, binding.controllerAl, 0x8003, 1, false,
    [⟨0x8A, [1, 1] ++ ruid ++ [0, 0, 0, 0]⟩], 1⟩

def last : Process :=
  Durable.runs (step around) (opening around binding "boot" true none)
    [.handle request 0, .tick, .tick]

end LateTick

end ReportingPolicy
end Emosa.Wire
