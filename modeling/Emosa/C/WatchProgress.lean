import Emosa.C.Watch
import Emosa.Scope.WatchProgress

/-!
# Emosa.C.WatchProgress

When a tick of the C probe watch makes its write, and the rule for both.

* `tick_adds`: a tick that has a write to make, under a key of its own, journals it.
* `watch_stuck`: runs in which a key comes again.
-/

namespace Emosa.C

open Durable ProbeWatch EmWatch

open ProbeWatch (lastWatched_nodup lastWatched_sorted length_lastWatched_le
  macChars_of_mem_lastWatched Watchable ne_empty_of_ifNameMatches)

/-! ## The request -/

theorem wanted_nodup (q : ByTime) (now : ℚ) (v : WatchView) (asked : Asked) :
    (wanted q now v asked).Nodup := by
  refine lastWatched_nodup (((q.perm _).map Prod.fst).nodup_iff.mpr ?_)
  exact asked.property.sublist (List.filter_sublist.map _)

theorem ascending_of_sorted {last : Option String} {macs : List String}
    (hsorted : macs.Pairwise (· ≤ ·)) (hnodup : macs.Nodup)
    (hmacs : ∀ mac ∈ macs, macChars mac.toList = true)
    (hlast : ∀ l, last = some l → ∀ mac ∈ macs, l < mac) : ascending last macs = true := by
  induction macs generalizing last with
  | nil => rfl
  | cons mac rest ih =>
    rw [List.pairwise_cons] at hsorted
    rw [List.nodup_cons] at hnodup
    have hrest : ascending (some mac) rest = true := by
      refine ih hsorted.2 hnodup.2 (fun m hm => hmacs m (List.mem_cons_of_mem _ hm)) ?_
      intro l hl m hm
      obtain rfl := Option.some.inj hl
      exact lt_of_le_of_ne (hsorted.1 m hm) fun he => hnodup.1 (he ▸ hm)
    have hfirst : last.all (· < mac) = true := by
      cases last with
      | none => rfl
      | some l => exact decide_eq_true (hlast l rfl mac List.mem_cons_self)
    simp only [ascending, hmacs mac List.mem_cons_self, hfirst, hrest, Bool.and_self]

namespace EmWatch

variable {s : EmSetting} {t : EmTick} {v : WatchView} {w : EmWatch}

theorem intent_watchable (hband : s.band.groupColumn ≠ none) (now : ℚ) (v : WatchView) (asked : Asked) :
    Watchable (intent s.toSetting (wanted s.byTime now v asked)) where
  pod := s.pod_named
  ifName := s.ifName_matches
  band := hband
  length_le := length_lastWatched_le _
  nodup := wanted_nodup _ _ _ _
  macs := List.all_eq_true.mpr fun _ hmac =>
    macMatches_of_macChars (macChars_of_mem_lastWatched hmac)

theorem intent_target (hband : s.band.groupColumn ≠ none) (now : ℚ) (v : WatchView) (asked : Asked) :
    watchTarget (intent s.toSetting (wanted s.byTime now v asked)) = .ok ((∅ : Record).set "watched"
      (.str (WatchIntent.joined (wanted s.byTime now v asked)))) := by
  have hasc : ascending none (wanted s.byTime now v asked) = true :=
    ascending_of_sorted (lastWatched_sorted _) (wanted_nodup _ _ _ _)
      (fun _ hmac => macChars_of_mem_lastWatched hmac) nofun
  have hbad : ¬ (s.ifName = "" ∨ s.band.groupColumn = none ∨
      (wanted s.byTime now v asked).length > maxWatched) :=
    not_or.mpr ⟨ne_empty_of_ifNameMatches s.ifName_matches,
      not_or.mpr ⟨hband, not_lt.mpr (length_lastWatched_le _)⟩⟩
  exact (if_neg hbad).trans (if_pos hasc)

/-! ## Settling -/

theorem settle_acts (env : EmEnv WatchIntent) (v : WatchView) (op : Operation WatchIntent)
    (p : Process WatchIntent) : Acts (SavesOf Rowless op) p (settle env v op p) := by
  have hself : Stays Rowless op op := .refl op
  unfold settle
  split
  · exact .refl
  split
  · refine .save fun _ => ?_
    exact (stays_moved hself .observedApplied (appliedEvidence v op)).congr rfl rfl
  · have hexpired : Acts (SavesOf Rowless op) p (emEngineExpired env op p).2 :=
      .of_recalls (expired_recalls env op p)
    split
    · rename_i p₁ he
      rw [he] at hexpired
      refine hexpired.trans (.save fun _ => ?_)
      have hlate : Stays Rowless op
          { op with originalOutcome := some op.state, deadlineElapsed := true } :=
        hself.congr rfl rfl
      exact (stays_moved hlate .timedOut ∅).congr rfl rfl
    · rename_i p₁ he
      rw [he] at hexpired
      exact hexpired

theorem settled_memory (s : EmSetting) (t : EmTick) (v : WatchView) (w : EmWatch) :
    (settled s t v w).asked = w.asked ∧ (settled s t v w).lastRequest = w.lastRequest := by
  unfold settled
  split <;> exact ⟨rfl, rfl⟩

theorem settled_orderly (h : Orderly s.podId w.process) (t : EmTick) (v : WatchView) :
    Orderly s.podId (settled s t v w).process ∧
      (settled s t v w).process.journal.issued = w.process.journal.issued ∧
      (settled s t v w).process.journal.operations.map Operation.origin =
        w.process.journal.operations.map Operation.origin := by
  unfold settled
  split
  · exact ⟨h, rfl, rfl⟩
  · rename_i op hop
    exact rewrites_orderly h hop (settle_acts (t.env s) v op w.process)

/-! ## Ticks that have a write to make -/

structure Ready (s : EmSetting) (t : EmTick) (v : WatchView) (w : EmWatch) : Prop where
  bound : v.ready = true
  unowned : w.process.journal.ownership.get? s.podId = none
  idle : ∀ op, w.latest = some op → op.state.active = false
  differs : WatchIntent.joined (wanted s.byTime t.asking v w.asked) ≠ v.watched
  spaced : spaced t.now w = true

theorem ready_iff : Ready s t v w ↔ v.ready = true ∧
    (w.process.journal.ownership.get? s.podId).isNone = true ∧
    w.latest.all (!·.state.active) = true ∧
    WatchIntent.joined (wanted s.byTime t.asking v w.asked) ≠ v.watched ∧ spaced t.now w = true := by
  rw [idle_iff, Option.isNone_iff_eq_none]
  exact ⟨fun h => ⟨h.bound, h.unowned, h.idle, h.differs, h.spaced⟩,
    fun h => ⟨h.1, h.2.1, h.2.2.1, h.2.2.2.1, h.2.2.2.2⟩⟩

instance (s : EmSetting) (t : EmTick) (v : WatchView) (w : EmWatch) : Decidable (Ready s t v w) :=
  decidable_of_iff _ ready_iff.symm

structure Due (s : EmSetting) (t : EmTick) (v : WatchView) (w : EmWatch) : Prop where
  view : t.view = some v
  fresh : t.operationId ∉ w.process.journal.issued
  ready : Ready s t v (settled s t v w)

/-- The band can be watched, and no retained operation has the key that the write gets. -/
structure Unused (s : EmSetting) (t : EmTick) (v : WatchView) (w : EmWatch) : Prop where
  band : s.band.groupColumn ≠ none
  key : w.process.journal.lookup ProbeWatch.source s.podId
    (ProbeWatch.key s.toSetting v.start w.process.journal.operations.length
      (wanted s.byTime t.asking v w.asked)) = none

def Unspent (s : EmSetting) (w : EmWatch) : EmEvent → Prop
  | .tick t => ∀ v, Due s t v w → Unused s t v w
  | .ask _ _ | .restart _ => True

theorem write_process : (write s t v w).process = if Ready s t v w then
    emPerform (t.env s) (request s t v w) t.answers w.process else w.process := by
  simp only [ready_iff, all_idle, write]
  split_ifs <;> simp_all [waitFor]

section

variable (hw : Orderly s.podId w.process)
include hw

theorem request_admitted (h : Unused s t v w) :
    ∃ fingerprint, Admitted (t.env s) (request s t v w) fingerprint w.process := by
  have hwatch := intent_watchable h.band t.asking v w.asked
  have hshort := hw.tidy.short
  simp only [retainedRecent] at hshort
  have hkey := key_ne_empty (s := s.toSetting) v.start
    w.process.journal.operations.length (wanted s.byTime t.asking v w.asked)
  refine ⟨_, ⟨_, intent_target h.band t.asking v w.asked, rfl⟩, rfl, rfl, ?_, ⟨hkey, ?_⟩, ?_, ?_, ?_, ?_,
    ?_⟩
  · exact show source ≠ "" by decide
  · have hlen := length_key_le (s := s.toSetting) v.start_short
      (show w.process.journal.operations.length < 100 by omega) (wanted s.byTime t.asking v w.asked)
    exact le_trans (utf8ByteSize_le _) (Nat.mul_le_mul_left 4 hlen)
  · exact show 0 < deadline ∧ deadline ≤ 3600 by decide +kernel
  · exact hw.serves.symm
  · rw [hw.serves]
    exact h.key
  · have hwell : IntentType.wellFormed (intent s.toSetting (wanted s.byTime t.asking v w.asked)) =
        true := hwatch.wellFormed
    simp [Operation.valid, newOperation, request, t.operationId_named, s.run_named, hkey, hwell,
      source]
  · exact lt_of_le_of_lt hshort (by decide)

/-! ## Runs -/

/-- The journal of `after` has a new operation for exactly the stations wanted. -/
def Adds (s : EmSetting) (t : EmTick) (v : WatchView) (w after : EmWatch) : Prop :=
  ∃ op ∈ after.process.journal.operations,
    (∀ old ∈ w.process.journal.operations, old.operationId ≠ op.operationId) ∧
    op.intent = ⟨s.podId, s.ifName, s.band, wanted s.byTime t.asking v w.asked⟩

theorem Unused.settled (h : Unused s t v w) :
    Unused s t v (settled s t v w) := by
  obtain ⟨-, -, horigins⟩ := settled_orderly hw t v
  have hlen : (EmWatch.settled s t v w).process.journal.operations.length =
      w.process.journal.operations.length := by
    simpa using congrArg List.length horigins
  refine ⟨h.band, ?_⟩
  rw [hlen, (settled_memory s t v w).1]
  exact lookup_eq_none_of_origins horigins h.key

omit hw in
theorem answers_rowless (t : EmTick) : Rowless t.answers.submit.evidence := by
  simp only [EmTick.answers]
  cases t.submitted with
  | raised | otherSession | lost | committed => rfl
  | failed code error => exact rowless_failedCheck code error

theorem write_adds (hready : Ready s t v w)
    (hunused : Unused s t v w) (hfresh : t.operationId ∉ w.process.journal.issued) :
    Orderly s.podId (write s t v w).process ∧ ∃ op ∈ (write s t v w).process.journal.operations,
      op.operationId = t.operationId ∧
      op.intent = intent s.toSetting (wanted s.byTime t.asking v w.asked) := by
  obtain ⟨fingerprint, hadm⟩ := request_admitted hw hunused
  have hidle := hw.tidy.inactive hready.idle
  rw [write_process, if_pos hready]
  obtain ⟨horderly, op, hop, horigin⟩ := perform_orderly hw hidle hadm hfresh (answers_rowless t)
  exact ⟨horderly, op, hop, congrArg Origin.operationId horigin, congrArg Origin.intent horigin⟩

theorem tick_adds (h : Due s t v w) (hunused : Unused s t v w) :
    Orderly s.podId (emWatchTick s t w).process ∧ Adds s t v w (emWatchTick s t w) := by
  obtain ⟨hset, hissued, -⟩ := settled_orderly hw t v
  obtain ⟨horderly, op, hop, hid, hintent⟩ := write_adds hset h.ready (hunused.settled hw)
    (hissued ▸ h.fresh)
  simp only [emWatchTick, h.view]
  refine ⟨horderly, op, hop, fun old hold he => ?_, ?_⟩
  · exact h.fresh (hid ▸ he ▸ hw.tidy.distinct.issued old hold)
  · rw [hintent, (settled_memory s t v w).1, intent]

theorem step_orderly (e : EmEvent) (hok : Unspent s w e) :
    Orderly s.podId (step s w e).process := by
  cases e with
  | ask now stations => exact hw
  | restart processId => exact open_orderly processId hw.tidy
  | tick t =>
    simp only [step]
    split
    · exact hw
    rename_i hissued
    have hfresh : t.operationId ∉ w.process.journal.issued := fun hmem =>
      hissued (List.contains_iff_mem.mpr hmem)
    cases hview : t.view with
    | none => simpa only [emWatchTick, hview] using hw
    | some v =>
      by_cases hready : Ready s t v (settled s t v w)
      · have hdue : Due s t v w := ⟨hview, hfresh, hready⟩
        exact (tick_adds hw hdue (hok v hdue)).1
      · simp only [emWatchTick, hview, write_process, if_neg hready]
        exact (settled_orderly hw t v).1

end

theorem run_orderly (s : EmSetting) (processId : String) {es : List EmEvent}
    (h : Meets (step s) (Unspent s) (emWatchOpen s.toSetting processId {}) es) :
    Orderly s.podId (run s processId es).process :=
  runs_invariant (P := fun w => Orderly s.podId w.process) (fun _ e hw hok => step_orderly hw e hok) h
    (open_orderly processId .empty)

theorem run_adds {processId : String} {es : List EmEvent}
    (h : Meets (step s) (Unspent s) (emWatchOpen s.toSetting processId {}) (es ++ [.tick t]))
    (hdue : Due s t v (run s processId es)) :
    Adds s t v (run s processId es) (run s processId (es ++ [.tick t])) := by
  obtain ⟨hes, hlast⟩ := (meets_append _ _ _).mp h
  have hadds := (tick_adds (run_orderly s processId hes) hdue (hlast.1 v hdue)).2
  have hend : run s processId (es ++ [.tick t]) = emWatchTick s t (run s processId es) :=
    (runs_concat ..).trans (if_neg fun hc => hdue.fresh (List.contains_iff_mem.mp hc))
  rwa [hend]

end EmWatch

/-- In every run whose writes have keys of their own, a tick that has a write to make journals an
operation for the stations wanted. -/
theorem watch_unstuck (processId : String) (v : WatchView) :
    (∀ (s : ProbeWatch.Setting) (es : List ProbeWatch.Event) (t : ProbeWatch.Tick),
      Meets (ProbeWatch.step s) (ProbeWatch.Unspent s) (ProbeWatch.start s processId {})
        (es ++ [.tick t]) →
      ProbeWatch.Due s t v (ProbeWatch.run s processId es) →
      ProbeWatch.Adds s t v (ProbeWatch.run s processId es)
        (ProbeWatch.run s processId (es ++ [.tick t]))) ∧
    ∀ (s : EmSetting) (es : List EmWatch.EmEvent) (t : EmTick),
      Meets (EmWatch.step s) (EmWatch.Unspent s) (EmWatch.emWatchOpen s.toSetting processId {})
        (es ++ [.tick t]) →
      EmWatch.Due s t v (EmWatch.run s processId es) →
      EmWatch.Adds s t v (EmWatch.run s processId es)
        (EmWatch.run s processId (es ++ [.tick t])) :=
  ⟨fun _ _ _ h hdue => run_adds h hdue, fun _ _ _ h hdue => run_adds h hdue⟩

/-! ## Runs on a pod whose VIF is not up

The controller asks about one station, and each write is refused as its plan fails. -/

namespace Watched

def station : Station := ⟨"02:00:00:00:00:01", by decide +kernel⟩

def sha (text : String) : String :=
  if text = station.val then "c27c02f297b7a634b7b2c5c214e807c983bf64855e84e49620441b9f37d4df3d"
  else ""

def setting : ProbeWatch.Setting where
  podId := "pod"
  ifName := "home-ap-24"
  band := .b24
  runId := "run"
  sha := sha
  pod_named := by decide +kernel
  ifName_matches := by decide +kernel

def byTime : ByTime where
  sort l := l.insertionSort ProbeWatch.Older
  perm := List.perm_insertionSort _
  sorted l := by
    have : Std.Total ProbeWatch.Older := ⟨fun a b => le_total a.2 b.2⟩
    have : IsTrans (Station × ℚ) ProbeWatch.Older := ⟨fun _ _ _ => le_trans⟩
    exact List.pairwise_insertionSort ProbeWatch.Older l

def emSetting : EmSetting := { setting with
  byTime := byTime
  fingerprint := fun i _ => WatchIntent.joined i.stations }

def unwatched : WatchView := { watched := "", start := "0123456789abcdef", start_short := by decide +kernel }

def vault : Vault WatchIntent where
  resolve ref := .ok ref
  fingerprint text := text
  fingerprintIntent i _ := WatchIntent.joined i.stations

def operationId (n : Nat) : String := String.singleton (Char.ofNat (96 + n))

theorem operationId_named (n : Nat) : operationId n ≠ "" := by
  intro h
  have hlen := congrArg String.length h
  simp [operationId] at hlen

def tick (n : Nat) : ProbeWatch.Tick where
  view := some unwatched
  env := { vault := vault, utc := 10 * n, monotonic := 10 * n }
  asking := 10 * n
  now := 10 * n
  operationId := operationId n
  operationId_named := operationId_named n
  plan := .error (.emosa ⟨.notReady, "the watch VIF is not an AP VIF of the pod"⟩)
  snapshot := .ok unwatched.snapshot
  submitted := .lost
  draw := ⟨"attempt", "transaction"⟩

def emTick (n : Nat) : EmTick where
  view := some unwatched
  utc := 10 * n
  monotonic := 10 * n
  asking := 10 * n
  now := 10 * n
  operationId := operationId n
  operationId_named := operationId_named n
  plan := .error .notReady
  snapshot := some unwatched.snapshot
  attemptId := "attempt"
  transactionId := "transaction"
  submitted := .lost

def ticks (n : Nat) : List ProbeWatch.Event :=
  .ask 0 [station] :: (List.range n).map fun k => .tick (tick (k + 1))

def emTicks (n : Nat) : List EmWatch.EmEvent :=
  .ask 0 [station] :: (List.range n).map fun k => .tick (emTick (k + 1))

end Watched

open Watched in
/-- The write after a refused one has a key of its own. -/
theorem watch_second_write :
    ProbeWatch.Adds setting (tick 2) unwatched (ProbeWatch.run setting "process" (ticks 1))
      (ProbeWatch.run setting "process" (ticks 1 ++ [.tick (tick 2)])) ∧
    EmWatch.Adds emSetting (emTick 2) unwatched (EmWatch.run emSetting "process" (emTicks 1))
      (EmWatch.run emSetting "process" (emTicks 1 ++ [.tick (emTick 2)])) := by
  have hunused : ∀ n < 2, Unused setting (tick (n + 1)) unwatched
      (run setting "process" (ticks n)) :=
    fun n hn => ⟨by decide, by revert n; decide +kernel⟩
  have hemUnused : ∀ n < 2, Unused emSetting (emTick (n + 1)) unwatched
      (run emSetting "process" (emTicks n)) :=
    fun n hn => ⟨by decide, by revert n; decide +kernel⟩
  refine ⟨(watch_unstuck "process" unwatched).1 setting (ticks 1) (tick 2) ?_ ⟨rfl, ?_, ?_⟩,
    (watch_unstuck "process" unwatched).2 emSetting (emTicks 1) (emTick 2) ?_ ⟨rfl, ?_, ?_⟩⟩
  · exact ⟨trivial, fun v hdue => Option.some.inj hdue.view ▸ hunused 0 (by decide),
      fun v hdue => Option.some.inj hdue.view ▸ hunused 1 (by decide), trivial⟩
  · decide +kernel
  · decide +kernel
  · exact ⟨trivial, fun v hdue => Option.some.inj hdue.view ▸ hemUnused 0 (by decide),
      fun v hdue => Option.some.inj hdue.view ▸ hemUnused 1 (by decide), trivial⟩
  · decide +kernel
  · decide +kernel

open Watched in
/-- Seventeen refused writes leave sixteen records, the last of them under the key the next one
gets. -/
theorem watch_stuck :
    (ProbeWatch.Due setting (tick 18) unwatched (ProbeWatch.run setting "process" (ticks 17)) ∧
      ¬ ProbeWatch.Adds setting (tick 18) unwatched (ProbeWatch.run setting "process" (ticks 17))
        (ProbeWatch.run setting "process" (ticks 17 ++ [.tick (tick 18)]))) ∧
    EmWatch.Due emSetting (emTick 18) unwatched (EmWatch.run emSetting "process" (emTicks 17)) ∧
      ¬ EmWatch.Adds emSetting (emTick 18) unwatched (EmWatch.run emSetting "process" (emTicks 17))
        (EmWatch.run emSetting "process" (emTicks 17 ++ [.tick (emTick 18)])) := by
  have hpython : (tick 18).operationId ∉ (run setting "process" (ticks 17)).journal.issued ∧
      Ready setting (tick 18) unwatched
        (ProbeWatch.settled (tick 18) unwatched (run setting "process" (ticks 17))) ∧
      ∀ op ∈ (run setting "process" (ticks 17 ++ [.tick (tick 18)])).journal.operations,
        ∃ old ∈ (run setting "process" (ticks 17)).journal.operations,
          old.operationId = op.operationId := by decide +kernel
  have hc : (emTick 18).operationId ∉
        (run emSetting "process" (emTicks 17)).process.journal.issued ∧
      Ready emSetting (emTick 18) unwatched
        (EmWatch.settled emSetting (emTick 18) unwatched (run emSetting "process" (emTicks 17))) ∧
      ∀ op ∈ (run emSetting "process"
          (emTicks 17 ++ [.tick (emTick 18)])).process.journal.operations,
        ∃ old ∈ (run emSetting "process" (emTicks 17)).process.journal.operations,
          old.operationId = op.operationId := by decide +kernel
  refine ⟨⟨⟨rfl, hpython.1, hpython.2.1⟩, ?_⟩, ⟨rfl, hc.1, hc.2.1⟩, ?_⟩
  · rintro ⟨op, hop, hnew, -⟩
    obtain ⟨old, hold, he⟩ := hpython.2.2 op hop
    exact hnew old hold he
  · rintro ⟨op, hop, hnew, -⟩
    obtain ⟨old, hold, he⟩ := hc.2.2 op hop
    exact hnew old hold he

end Emosa.C
