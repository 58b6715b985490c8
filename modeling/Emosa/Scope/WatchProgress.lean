import Emosa.Scope.Watch

/-!
# Emosa.Scope.WatchProgress

When a tick of the probe watch makes its write. The key of a write counts the journal's records, and
retention keeps that number from growing: an earlier write may have used the key, and then nothing is
journaled.

* `Due`: the tick that has a write to make.
* `Unspent`: the band can be watched, and no retained operation has the key the write gets.
* `tick_adds`: such a tick journals an operation for the stations wanted.
-/

namespace Emosa

open Durable Site List

/-! ## Stations -/

theorem newline_not_mem_of_macChars {chars : List Char} (h : macChars chars = true) : '\n' ∉ chars := by
  intro hmem
  simp only [macChars, Bool.and_eq_true, all_eq_true] at h
  rw [← zipIdx_map_fst 0 chars] at hmem
  obtain ⟨e, he, hnew⟩ := mem_map.mp hmem
  have hchar := h.2 e he
  rw [hnew] at hchar
  split at hchar <;> cases hchar

theorem macMatches_of_macChars {mac : String} (h : macChars mac.toList = true) :
    macMatches mac = true := by
  have hlast : mac.toList.getLast? ≠ some '\n' := fun hl =>
    newline_not_mem_of_macChars h (mem_of_getLast? hl)
  rw [macMatches, if_neg hlast]
  exact h

namespace ProbeWatch

variable {s : Setting} {t : Tick} {v : WatchView} {w : Watch} {now : ℚ} {asked : Dict Station ℚ}

section LastWatched

variable {recent : List (Station × ℚ)}

theorem lastWatched_perm (recent : List (Station × ℚ)) :
    (lastWatched recent).Perm ((recent.drop (recent.length - maxWatched)).map fun e => e.1.val) :=
  perm_insertionSort _ _

theorem lastWatched_nodup (h : (recent.map Prod.fst).Nodup) : (lastWatched recent).Nodup := by
  refine (lastWatched_perm recent).nodup_iff.mpr ?_
  have hdrop := (h.sublist ((drop_sublist (recent.length - maxWatched) _).map _)).map
    Subtype.val_injective
  rwa [map_map] at hdrop

theorem length_lastWatched_le (recent : List (Station × ℚ)) :
    (lastWatched recent).length ≤ maxWatched := by
  rw [(lastWatched_perm recent).length_eq, length_map, length_drop]
  omega

theorem macChars_of_mem_lastWatched {mac : String} (h : mac ∈ lastWatched recent) :
    macChars mac.toList = true := by
  obtain ⟨e, -, rfl⟩ := mem_map.mp ((lastWatched_perm recent).mem_iff.mp h)
  exact e.1.property

theorem lastWatched_sorted (recent : List (Station × ℚ)) :
    (lastWatched recent).Pairwise (· ≤ ·) := pairwise_insertionSort _ _

end LastWatched

theorem wanted_nodup (now : ℚ) (v : WatchView) (asked : Dict Station ℚ) : (wanted now v asked).Nodup := by
  refine lastWatched_nodup (((perm_insertionSort Before _).map Prod.fst).nodup_iff.mpr ?_)
  exact asked.nodup.sublist (filter_sublist.map _)

/-- It is in order already, so the intent's own sort changes nothing. -/
theorem wanted_sorted (now : ℚ) (v : WatchView) (asked : Dict Station ℚ) :
    (wanted now v asked).insertionSort (· ≤ ·) = wanted now v asked :=
  List.Pairwise.insertionSort_eq (lastWatched_sorted _)

/-! ## The request -/

theorem ne_empty_of_ifNameMatches {name : String} (h : ifNameMatches name = true) : name ≠ "" := by
  rintro rfl
  revert h
  decide

/-- The intent's stations can be watched. -/
structure Watchable (i : WatchIntent) : Prop where
  pod : Intent.named i.podId = true
  ifName : ifNameMatches i.ifName = true
  band : i.band.groupColumn ≠ none
  length_le : i.stations.length ≤ maxWatched
  nodup : i.stations.Nodup
  macs : i.stations.all macMatches = true

namespace Watchable

variable {i : WatchIntent}

theorem validate (h : Watchable i) : i.validate = .ok () := by
  rw [WatchIntent.validate, if_neg (not_or.mpr ⟨ne_empty_of_ifNameMatches h.ifName, h.band⟩),
    if_neg (not_lt.mpr h.length_le),
    if_neg (not_or.mpr ⟨not_not_intro h.nodup, not_not_intro h.macs⟩)]

theorem target (h : Watchable i) :
    i.target = .ok ((∅ : Record).set "watched" (.str (WatchIntent.joined i.stations))) := by
  rw [WatchIntent.target, h.validate]
  rfl

theorem wellFormed (h : Watchable i) : i.wellFormed = true := by
  simp only [WatchIntent.wellFormed, Bool.and_eq_true]
  exact ⟨⟨⟨⟨⟨h.pod, h.ifName⟩, Option.isSome_iff_ne_none.mpr h.band⟩,
    decide_eq_true h.length_le⟩, decide_eq_true h.nodup⟩, h.macs⟩

end Watchable

theorem intent_watchable (hband : s.band.groupColumn ≠ none) (now : ℚ) (v : WatchView)
    (asked : Dict Station ℚ) : Watchable (intent s (wanted now v asked)) where
  pod := s.pod_named
  ifName := s.ifName_matches
  band := hband
  length_le := by
    rw [intent, wanted_sorted]
    exact length_lastWatched_le _
  nodup := by
    rw [intent, wanted_sorted]
    exact wanted_nodup now v asked
  macs := by
    rw [intent, wanted_sorted]
    exact all_eq_true.mpr fun mac hmac =>
      macMatches_of_macChars (macChars_of_mem_lastWatched hmac)

/-- A number of records that retention allows has two digits at most. -/
theorem length_key_le {start : String} (hstart : start.length ≤ 16) {records : Nat}
    (hrecords : records < 100) (stations : List String) :
    (key s start records stations).length ≤ 32 := by
  have hdigits : (toString records).length ≤ 2 :=
    (Nat.length_repr_le_iff (by omega)).mpr hrecords
  have hdigest : ((s.sha (WatchIntent.joined stations)).toList.take 12).length ≤ 12 :=
    length_take_le _ _
  have hkey : (key s start records stations).length = start.length + 1 + (toString records).length +
      1 + ((s.sha (WatchIntent.joined stations)).toList.take 12).length := by
    simp only [key, String.length_append, String.length_ofList]
    rfl
  omega

theorem key_ne_empty (start : String) (records : Nat) (stations : List String) :
    key s start records stations ≠ "" := by
  intro h
  have hlen := congrArg String.length h
  simp only [key, String.length_append, toString] at hlen
  have hcolon : (":" : String).length = 1 := rfl
  have hempty : ("" : String).length = 0 := rfl
  omega

/-! ## Settling -/

theorem settle_rewrites (env : Env WatchIntent) (v : WatchView) (op : Operation WatchIntent)
    {setting : List String × Nat} :
    Rewrites setting Rowless op (fun _ => True) (settle env v op) := by
  have hself : Stays Rowless op op := .refl op
  suffices h : Works setting Rowless op (fun _ _ => True) (fun _ => True) (settle env v op) from
    (h.mono (fun _ h => h.1) fun _ h => h).effects
  refine .ite (fun _ => .pure trivial) fun _ => .andThen (liftE_effects fun _ _ => trivial)
    fun target => .ite (fun _ => ?_) fun _ => ?_
  · exact .bind (transition_effects hself _ _) fun op' h' => save_effects (h'.congr rfl rfl)
  · refine .bind (expired_effects env op) fun late _ => .ite (fun _ => ?_) fun _ => .pure trivial
    have hlate : Stays Rowless op
        { op with originalOutcome := some op.state, deadlineElapsed := true } := hself.congr rfl rfl
    exact .bind (transition_effects hlate _ _) fun op' h' => save_effects (h'.congr rfl rfl)

/-- What raises in it leaves the record as it is, and unfinished. -/
theorem settle_raises (env : Env WatchIntent) (v : WatchView) (op : Operation WatchIntent)
    (p : Proc Engine (Journal WatchIntent) (Write WatchIntent)) :
    wp (settle env v op) (fun r p' => ∀ x, r = .error x →
      p'.journal = p.journal ∧ op.state.active = true) p := by
  have hsave : ∀ (moved : Except EmosaError (Operation WatchIntent))
      (f : Operation WatchIntent → Operation WatchIntent)
      (p' : Proc Engine (Journal WatchIntent) (Write WatchIntent)), p'.journal = p.journal →
      op.state.active = true → wp (do let op' ← liftE moved; Store.save (f op') : M WatchIntent Unit)
        (fun r p'' => ∀ x, r = .error x → p''.journal = p.journal ∧ op.state.active = true) p' := by
    intro moved f p' hj hact
    rw [wp_bind, wp_liftE]
    cases moved with
    | error e => exact fun _ _ => ⟨hj, hact⟩
    | ok op' =>
      simp only [Store.save]
      split
      · exact fun x hx => by cases hx
      · exact fun _ _ => ⟨hj, hact⟩
  unfold settle
  split
  · exact fun x hx => by cases hx
  have hact : op.state.active = true := by
    cases hs : op.state <;> simp_all [State.active]
  rw [wp_bind, wp_liftE]
  cases op.intent.target with
  | error e => exact fun _ _ => ⟨rfl, hact⟩
  | ok target =>
    simp only
    split
    · exact hsave _ _ p rfl hact
    · rw [wp_bind]
      refine wp_expired fun late p₁ hj _ _ => ?_
      cases late with
      | false => exact fun x hx => by cases hx
      | true => exact hsave _ _ p₁ hj hact

def settled (t : Tick) (v : WatchView) (w : Watch) : Watch := (settleLatest t.env v w).2

theorem settled_memory (t : Tick) (v : WatchView) (w : Watch) :
    (settled t v w).asked = w.asked ∧ (settled t v w).lastRequest = w.lastRequest := by
  unfold settled settleLatest
  split <;> exact ⟨rfl, rfl⟩

theorem settled_orderly {pod : String} (h : Orderly pod w.toSite) (t : Tick) (v : WatchView) :
    Orderly pod (settled t v w).toSite ∧ (settled t v w).journal.issued = w.journal.issued ∧
      (settled t v w).journal.operations.map Operation.origin =
        w.journal.operations.map Operation.origin := by
  unfold settled settleLatest
  split
  · exact ⟨h, rfl, rfl⟩
  · rename_i op hop
    exact rewrites_orderly h hop (settle_rewrites t.env v op)

theorem settled_of_error {x : Exn} (h : (settleLatest t.env v w).1 = .error x) :
    ∃ op, (settled t v w).latest = some op ∧ op.state.active = true := by
  unfold settled
  unfold settleLatest at h ⊢
  split at h
  · cases h
  · rename_i op hop
    obtain ⟨hj, hact⟩ := call_of_wp (R := fun r _ j => ∀ x, r = .error x →
      j = w.journal ∧ op.state.active = true) (settle_raises t.env v op w.process) x h
    refine ⟨op, ?_, hact⟩
    exact (congrArg (fun j => j.operations.getLast?) hj).trans hop

/-! ## Ticks that have a write to make -/

/-- The settled scope has a write to make. -/
structure Ready (s : Setting) (t : Tick) (v : WatchView) (w : Watch) : Prop where
  bound : v.ready = true
  unowned : w.journal.ownership.get? s.podId = none
  idle : ∀ op, w.latest = some op → op.state.active = false
  differs : WatchIntent.joined (wanted t.asking v w.asked) ≠ v.watched
  spaced : spaced t.now w = true

theorem ready_iff : Ready s t v w ↔ v.ready = true ∧
    (w.journal.ownership.get? s.podId).isNone = true ∧ w.latest.all (!·.state.active) = true ∧
    WatchIntent.joined (wanted t.asking v w.asked) ≠ v.watched ∧ spaced t.now w = true := by
  rw [idle_iff, Option.isNone_iff_eq_none]
  exact ⟨fun h => ⟨h.bound, h.unowned, h.idle, h.differs, h.spaced⟩,
    fun h => ⟨h.1, h.2.1, h.2.2.1, h.2.2.2.1, h.2.2.2.2⟩⟩

instance (s : Setting) (t : Tick) (v : WatchView) (w : Watch) : Decidable (Ready s t v w) :=
  decidable_of_iff _ ready_iff.symm

/-- The tick has a write to make. -/
structure Due (s : Setting) (t : Tick) (v : WatchView) (w : Watch) : Prop where
  view : t.view = some v
  fresh : t.operationId ∉ w.journal.issued
  ready : Ready s t v (settled t v w)

/-- The band can be watched, and no retained operation has the key that the write gets. -/
structure Unused (s : Setting) (t : Tick) (v : WatchView) (w : Watch) : Prop where
  band : s.band.groupColumn ≠ none
  key : w.journal.lookup source s.podId
    (key s v.start w.journal.operations.length (wanted t.asking v w.asked)) = none

/-- A step whose write, if it has one to make, has a key of its own. -/
def Unspent (s : Setting) (w : Watch) : Event → Prop
  | .tick t => ∀ v, Due s t v w → Unused s t v w
  | .ask _ _ | .restart _ => True

theorem write_toSite : (write s t v w).toSite = if Ready s t v w then
    (w.call (Engine.perform t.env (request s t v w) t.replies)).2 else w.toSite := by
  simp only [ready_iff, all_idle, write]
  split_ifs <;> simp_all [wait]

theorem lookup_eq_none_of_origins {j j' : Journal WatchIntent} {origin pod k : String}
    (h : j'.operations.map Operation.origin = j.operations.map Operation.origin)
    (hnone : j.lookup origin pod k = none) : j'.lookup origin pod k = none := by
  rw [Journal.lookup, find?_eq_none] at hnone ⊢
  intro row hrow hmatch
  obtain ⟨old, hold, he⟩ := mem_map.mp (h ▸ mem_map_of_mem hrow)
  have hsource : old.requestSource = row.requestSource := congrArg Origin.requestSource he
  have hintent : old.intent = row.intent := congrArg Origin.intent he
  have hkey : old.idempotencyKey = row.idempotencyKey := congrArg Origin.idempotencyKey he
  refine hnone old hold ?_
  simp only [Operation.podId, hsource, hintent, hkey] at hmatch ⊢
  exact hmatch

theorem submitted_rowless (t : Tick) :
    ∀ result, t.replies.submit = .ok result → Rowless result.evidence := by
  intro result hresult
  simp only [Tick.replies] at hresult
  cases hs : t.submitted with
  | raised x => rw [hs] at hresult; cases hresult
  | otherSession | lost | committed => rw [hs] at hresult; cases hresult; rfl
  | failed code error =>
    rw [hs] at hresult
    have hrowless := rowless_failedCheck code error
    simp only [Submitted.result] at hresult
    split at hresult <;> cases hresult <;> exact hrowless

theorem tick_of_ok (hview : t.view = some v) (h : (settleLatest t.env v w).1 = .ok ()) :
    tick s t w = write s t v (settled t v w) := by
  simp only [tick, hview, settled]
  generalize settleLatest t.env v w = out at h
  obtain ⟨r, after⟩ := out
  cases h
  rfl

theorem tick_of_error {x : Exn} (hview : t.view = some v)
    (h : (settleLatest t.env v w).1 = .error x) : tick s t w = settled t v w := by
  simp only [tick, hview, settled]
  generalize settleLatest t.env v w = out at h
  obtain ⟨r, after⟩ := out
  cases h
  rfl

theorem tick_due (h : Due s t v w) : tick s t w = write s t v (settled t v w) := by
  cases hr : (settleLatest t.env v w).1 with
  | ok _ => exact tick_of_ok h.view hr
  | error x =>
    obtain ⟨op, hop, hact⟩ := settled_of_error hr
    rw [h.ready.idle op hop] at hact
    cases hact

section

variable (hw : Orderly s.podId w.toSite)
include hw

theorem request_admissible (h : Unused s t v w) :
    ∃ target, Engine.Admissible t.env (request s t v w) target w.process := by
  have hwatch := intent_watchable h.band t.asking v w.asked
  have hsetting := hw.setting
  have hshort := hw.tidy.short
  simp only [Engine.setting, Prod.mk.injEq] at hsetting
  simp only [retainedRecent] at hshort
  refine ⟨_, hwatch.validate, rfl, rfl, ?_, ⟨key_ne_empty _ _ _, ?_⟩, ?_, ?_, hwatch.target,
    h.key, fun fingerprint => ?_, ?_⟩
  · exact show source ≠ "" by decide
  · have hkey := length_key_le (s := s) v.start_short (show w.journal.operations.length < 100 by omega)
      (wanted t.asking v w.asked)
    exact le_trans hkey (by decide)
  · exact show 0 < deadline ∧ deadline ≤ 3600 by decide +kernel
  · exact hsetting.1 ▸ mem_singleton_self _
  · have hkey := key_ne_empty (s := s) v.start w.journal.operations.length
    have hwell : IntentType.wellFormed (intent s (wanted t.asking v w.asked)) = true :=
      hwatch.wellFormed
    simp [Operation.valid, Engine.Request.operation, request, t.operationId_named, s.run_named, hkey,
      hwell, source]
  · show w.journal.operations.length < w.engine.maxOperations
    omega

/-! ## Runs -/

/-- The journal of `after` has a new operation for exactly the stations wanted. -/
def Adds (s : Setting) (t : Tick) (v : WatchView) (w after : Watch) : Prop :=
  ∃ op ∈ after.journal.operations, (∀ old ∈ w.journal.operations, old.operationId ≠ op.operationId) ∧
    op.intent = ⟨s.podId, s.ifName, s.band, wanted t.asking v w.asked⟩

theorem Unused.settled (h : Unused s t v w) :
    Unused s t v (settled t v w) := by
  obtain ⟨-, -, horigins⟩ := settled_orderly hw t v
  have hlen : (ProbeWatch.settled t v w).journal.operations.length = w.journal.operations.length := by
    simpa using congrArg List.length horigins
  refine ⟨h.band, ?_⟩
  rw [hlen, (settled_memory t v w).1]
  exact lookup_eq_none_of_origins horigins h.key

theorem write_adds (hready : Ready s t v w)
    (hunused : Unused s t v w) (hfresh : t.operationId ∉ w.journal.issued) :
    Orderly s.podId (write s t v w).toSite ∧ ∃ op ∈ (write s t v w).journal.operations,
      op.operationId = t.operationId ∧ op.intent = intent s (wanted t.asking v w.asked) := by
  obtain ⟨target, hadm⟩ := request_admissible hw hunused
  have hidle := hw.tidy.inactive hready.idle
  rw [write_toSite, if_pos hready]
  obtain ⟨horderly, fingerprint, op, hop, horigin⟩ := perform_orderly hw hidle hadm rfl hfresh
    (submitted_rowless t)
  exact ⟨horderly, op, hop, congrArg Origin.operationId horigin, congrArg Origin.intent horigin⟩

theorem tick_adds (h : Due s t v w) (hunused : Unused s t v w) :
    Orderly s.podId (tick s t w).toSite ∧ Adds s t v w (tick s t w) := by
  obtain ⟨hset, hissued, -⟩ := settled_orderly hw t v
  obtain ⟨horderly, op, hop, hid, hintent⟩ := write_adds hset h.ready (hunused.settled hw)
    (hissued ▸ h.fresh)
  rw [tick_due h]
  refine ⟨horderly, op, hop, fun old hold he => ?_, ?_⟩
  · exact h.fresh (hid ▸ he ▸ hw.tidy.distinct.issued old hold)
  · rw [hintent, (settled_memory t v w).1, intent, wanted_sorted]

theorem tick_orderly (hfresh : t.operationId ∉ w.journal.issued)
    (hok : ∀ v, Due s t v w → Unused s t v w) : Orderly s.podId (tick s t w).toSite := by
  cases hview : t.view with
  | none => simpa only [tick, hview] using hw
  | some v =>
    obtain ⟨hset, -, -⟩ := settled_orderly hw t v
    cases hr : (settleLatest t.env v w).1 with
    | error x => rwa [tick_of_error hview hr]
    | ok _ =>
      by_cases hready : Ready s t v (settled t v w)
      · have hdue : Due s t v w := ⟨hview, hfresh, hready⟩
        exact (tick_adds hw hdue (hok v hdue)).1
      · rwa [tick_of_ok hview hr, write_toSite, if_neg hready]

theorem step_orderly (e : Event) (hok : Unspent s w e) :
    Orderly s.podId (step s w e).toSite := by
  cases e with
  | ask now stations => exact hw
  | restart processId => exact start_orderly processId hw.tidy
  | tick t =>
    simp only [step]
    split
    · exact hw
    · rename_i hfresh
      refine tick_orderly hw (fun hmem => hfresh ?_) hok
      exact contains_iff_mem.mpr hmem

end

theorem run_orderly (s : Setting) (processId : String) {es : List Event}
    (h : Meets (step s) (Unspent s) (start s processId {}) es) :
    Orderly s.podId (run s processId es).toSite :=
  runs_invariant (P := fun w => Orderly s.podId w.toSite) (fun _ e hw hok => step_orderly hw e hok)
    h (start_orderly processId .empty)

theorem run_adds {processId : String} {es : List Event}
    (h : Meets (step s) (Unspent s) (start s processId {}) (es ++ [.tick t]))
    (hdue : Due s t v (run s processId es)) :
    Adds s t v (run s processId es) (run s processId (es ++ [.tick t])) := by
  obtain ⟨hes, hlast⟩ := (meets_append _ _ _).mp h
  have hadds := (tick_adds (run_orderly s processId hes) hdue (hlast.1 v hdue)).2
  have hend : run s processId (es ++ [.tick t]) = tick s t (run s processId es) :=
    (runs_concat ..).trans (if_neg fun hc => hdue.fresh (contains_iff_mem.mp hc))
  rwa [hend]

end ProbeWatch

end Emosa
