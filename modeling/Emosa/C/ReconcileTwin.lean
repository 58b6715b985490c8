import Emosa.C.ExecuteTwin

/-!
# Emosa.C.ReconcileTwin

A reconciliation pass in both engines. The one finds the operation to follow by a scan of the rest of
the journal for each row, the other takes the latest that was sent; it is the same operation. Over it
both carry a record and whether it is to be saved (`SamePass`).

* `lapse_twin`, `giveUp_twin`, `observe_twin`, `judge_twin`, `follow_twin`: the parts of a pass.
* `reconcile_twin`: a pass that is `Fitting`.
-/

namespace Emosa.C

open Durable Engine Option

variable {I : Type} [IntentType I] {pod : String} {busy : Bool}
variable {p : EngineProc I} {q : Process I} {a b : Operation I}
variable {env : Env I} {snap : Snapshot} {target : Record} {x y : Engine.Pass I}

/-- What both have made of the operation so far. -/
structure SamePass (x y : Engine.Pass I) : Prop where
  alike : Alike x.op y.op
  changed : y.changed = x.changed
  fit : Fit x.op
  sent : x.op.state ≠ .requested

theorem SamePass.state (h : SamePass x y) : y.op.state = x.op.state := h.alike.state

omit [IntentType I] in
theorem State.followed_sent {s : State} (h : s.followed = true) : s ≠ .requested := fun he => by
  rw [he] at h
  cases h

theorem SamePass.timeout (h : SamePass x y)
    (hst : x.op.state = .configCommitted ∨ x.op.state = .indeterminate)
    (hlate : x.op.deadlineElapsed = true) (changed : Bool) :
    transition x.op .timedOut = .ok { x.op with state := .timedOut } ∧
      SamePass ⟨{ x.op with state := .timedOut, reason := some Reason.applyTimeout.value }, changed⟩
        ⟨because (moved y.op .timedOut) .applyTimeout, changed⟩ := by
  have ht : transition x.op .timedOut = .ok { x.op with state := .timedOut } := by
    rcases hst with hst | hst <;> simp [transition, hst, State.next, hlate]
  obtain ⟨plan, fingerprint, he, hplan⟩ := h.alike.moves ht
  refine ⟨ht, ⟨plan, fingerprint, by rw [because, he], hplan⟩, rfl, ?_, by simp⟩
  exact { h.fit with observed := by simp }

def marked (op : Operation I) : Engine.Pass I :=
  if op.deadlineElapsed then ⟨op, false⟩
  else ⟨{ op with originalOutcome := some op.state, deadlineElapsed := true }, true⟩

omit [IntentType I] in
theorem marked_elapsed (op : Operation I) :
    (marked op).op.deadlineElapsed = true ∧ (marked op).op.state = op.state ∧
      (marked op).op.intent = op.intent := by
  unfold marked
  split
  · rename_i h
    exact ⟨h, rfl, rfl⟩
  · exact ⟨rfl, rfl, rfl⟩

theorem SamePass.marked (hab : Alike a b) (hfit : Fit a) (hst : a.state ≠ .requested) :
    SamePass (marked a) (marked b) := by
  obtain ⟨plan, fingerprint, rfl, hplan⟩ := hab
  unfold C.marked
  by_cases hlate : a.deadlineElapsed = true
  · rw [if_pos hlate, if_pos hlate]
    exact ⟨⟨plan, fingerprint, rfl, hplan⟩, rfl, hfit, hst⟩
  · rw [if_neg hlate, if_neg hlate]
    exact ⟨⟨plan, fingerprint, rfl, hplan⟩, rfl, { hfit with }, hst⟩

/-- A pass up to the snapshot: the operation is still one to be followed. -/
structure Judged (a : Operation I) (x y : Engine.Pass I) : Prop extends SamePass x y where
  followed : x.op.state.followed = true
  intent : x.op.intent = a.intent

omit [IntentType I] in
theorem lapse_eq (late : Bool) (op : Operation I) :
    lapse late op = if late = true ∧ (op.state = .configCommitted ∨ op.state = .indeterminate) then
      if op.state = .configCommitted then
        ⟨because (moved (marked op).op .timedOut) .applyTimeout, (marked op).changed⟩
      else marked op
    else ⟨op, false⟩ := rfl

omit [IntentType I] in
theorem engine_lapse_eq (late : Bool) (op : Operation I) :
    Engine.lapse late op =
      if late = true ∧ (op.state = .configCommitted ∨ op.state = .indeterminate) then
        if op.state = .configCommitted then do
          let late ← transition (marked op).op .timedOut
          pure ⟨{ late with reason := some Reason.applyTimeout.value }, (marked op).changed⟩
        else pure (marked op)
      else pure ⟨op, false⟩ := rfl

theorem lapse_twin (hab : Alike a b) (hfit : Fit a) (hf : a.state.followed = true) (late : Bool) :
    ∃ x, Engine.lapse late a = .ok x ∧ Judged a x (lapse late b) := by
  have hsent := State.followed_sent hf
  obtain ⟨helapsed, hstate, hintent⟩ := marked_elapsed a
  have hmarked := SamePass.marked hab hfit hsent
  rw [engine_lapse_eq, lapse_eq, hab.state]
  by_cases hdue : late = true ∧ (a.state = .configCommitted ∨ a.state = .indeterminate)
  · rw [if_pos hdue, if_pos hdue]
    by_cases hcommitted : a.state = .configCommitted
    · obtain ⟨ht, hpass⟩ := hmarked.timeout (by rw [hstate]; exact hdue.2) helapsed (marked a).changed
      rw [if_pos hcommitted, if_pos hcommitted, ht, hmarked.changed]
      exact ⟨_, rfl, hpass, rfl, hintent⟩
    · rw [if_neg hcommitted, if_neg hcommitted]
      exact ⟨_, rfl, hmarked, hstate ▸ hf, hintent⟩
  · rw [if_neg hdue, if_neg hdue]
    exact ⟨_, rfl, ⟨hab, rfl, hfit, hsent⟩, hf, rfl⟩

/-- Both find the same things in the snapshot. -/
structure Compared (snap : Snapshot) (target : Record) : Prop where
  config : configMatches snap.config target = emMatches snap.config target
  observed : snap.observed.satisfies target = emSnapshotSatisfies snap target

theorem giveUp_twin (h : Judged a x y) (hcomp : Compared snap target) :
    ∃ x', Engine.giveUp snap target x = .ok x' ∧ Judged a x' (giveUp snap target y) := by
  have hlate : y.op.deadlineElapsed = x.op.deadlineElapsed := by
    obtain ⟨plan, fingerprint, he, -⟩ := h.alike
    rw [he]
  have happlied : (configMatches snap.config target = true ∧ snap.observed.fresh = true ∧
      snap.observed.satisfies target = true) ↔
      (emMatches snap.config target && emSnapshotSatisfies snap target) = true := by
    rw [hcomp.config, ← hcomp.observed, Bool.and_eq_true]
    refine and_congr_right fun _ => ⟨fun hc => hc.2, fun hc => ⟨?_, hc⟩⟩
    exact (Bool.and_eq_true_iff.mp hc).1
  unfold Engine.giveUp giveUp
  rw [h.state, hlate]
  by_cases hdue : snap.ready = true ∧ x.op.state = .indeterminate ∧ x.op.deadlineElapsed = true ∧
      ¬ (configMatches snap.config target = true ∧ snap.observed.fresh = true ∧
        snap.observed.satisfies target = true)
  · obtain ⟨ht, hpass⟩ := h.toSamePass.timeout (.inr hdue.2.1) hdue.2.2.1 true
    have hnot := Bool.not_eq_true _ ▸ mt happlied.mpr hdue.2.2.2
    have hdue' : snap.ready = true ∧ x.op.state = .indeterminate ∧ x.op.deadlineElapsed = true ∧
        (!(emMatches snap.config target && emSnapshotSatisfies snap target)) = true :=
      ⟨hdue.1, hdue.2.1, hdue.2.2.1, by rw [hnot]; rfl⟩
    rw [if_pos hdue, if_pos hdue', ht]
    exact ⟨_, rfl, hpass, rfl, h.intent⟩
  · have hdue' : ¬ (snap.ready = true ∧ x.op.state = .indeterminate ∧ x.op.deadlineElapsed = true ∧
        (!(emMatches snap.config target && emSnapshotSatisfies snap target)) = true) := by
      intro hc
      exact hdue ⟨hc.1, hc.2.1, hc.2.2.1, fun h' => by simp [happlied.mp h'] at hc⟩
    rw [if_neg hdue, if_neg hdue']
    exact ⟨_, rfl, h⟩

/-! ## What the snapshot shows -/

theorem restarted_eq (hab : Alike a b) (hfit : Fit a) (hstart : snap.instanceId ≠ some "") :
    restarted b snap = writtenOnAnotherStart a snap.start? := by
  have hwritten : writtenInstance b = writtenInstance a := by
    obtain ⟨plan, fingerprint, rfl, -⟩ := hab
    rfl
  unfold restarted
  rw [hwritten, start?_eq hstart]
  refine Eq.trans ?_ (writtenOnAnotherStart_eq hfit snap.instanceId).symm
  cases writtenInstance a <;> cases snap.instanceId <;> rfl

theorem remapped_eq (hab : Alike a b) (hfit : Fit a) (hst : a.state ≠ .rejected) {f : EmEngine}
    (hmap : env.mapping pod = f.mapping) (hne : f.mapping ≠ some "") :
    remapped f b = Engine.remapped env a pod := by
  have hplan : b.plan = a.plan := by
    obtain ⟨plan, fingerprint, rfl, hplan⟩ := hab
    exact hplan hst
  have hplanned : a.plan.bind (·.some? "mapping") = (a.plan.bind (str · "mapping")).map .str := by
    cases hp : a.plan with
    | none => rfl
    | some plan => exact some?_named (hfit.mapping plan hp)
  unfold remapped Engine.remapped
  rw [hplan, hplanned, hmap]
  cases hm : f.mapping with
  | none => rfl
  | some mapping =>
    have hmapping : mapping ≠ "" := fun he => hne (by rw [hm, he])
    rw [filter_some_pos (by simpa using hmapping)]
    cases a.plan.bind (str · "mapping") with
    | none => rfl
    | some planned =>
      simp only [Value.equal, Value.number?, beq_eq_decide]
      simp

theorem Judged.unrejected (h : Judged a x y) : x.op.state ≠ .rejected := fun he => by
  have hf := h.followed
  rw [he] at hf
  cases hf

theorem lost_eq (h : Judged a x y) (hcomp : Compared snap target)
    (hstart : snap.instanceId ≠ some "") {f : EmEngine} (hmap : env.mapping pod = f.mapping)
    (hne : f.mapping ≠ some "") :
    lost f snap target y.op = drifted env pod snap target x.op := by
  unfold lost drifted
  rw [← hcomp.config, h.state, restarted_eq h.alike h.fit hstart,
    remapped_eq h.alike h.fit h.unrejected hmap hne]

/-- A committed operation ends in the conflict. -/
def yielded (op : Operation I) : Operation I :=
  if op.state = .configCommitted then { op with state := .ownershipConflict } else op

theorem Judged.yielded (h : Judged a x y) :
    (if x.op.state = .configCommitted then transition x.op .ownershipConflict else .ok x.op) =
        .ok (yielded x.op) ∧
      Alike (yielded x.op)
        (if y.op.state = .configCommitted then moved y.op .ownershipConflict else y.op) ∧
      Fit (yielded x.op) ∧ (yielded x.op).state ≠ .requested := by
  unfold C.yielded
  rw [h.state]
  by_cases hst : x.op.state = .configCommitted
  · have ht : transition x.op .ownershipConflict = .ok { x.op with state := .ownershipConflict } :=
      transition_of_next (by simp [hst, State.next]) (by simp) (by simp) (by simp) (by simp)
    simp only [if_pos hst]
    exact ⟨ht, h.alike.moves ht, { h.fit with observed := by simp }, by simp⟩
  · simp only [if_neg hst]
    exact ⟨trivial, h.alike, h.fit, h.sent⟩

/-- The reason is written unless it is there. -/
def blamed (changed : Bool) (op : Operation I) : Engine.Pass I :=
  if op.reason = some Reason.ownershipConflict.value then ⟨op, changed⟩
  else ⟨because op .ownershipConflict, true⟩

theorem SamePass.blamed (hab : Alike a b) (hfit : Fit a) (hst : a.state ≠ .requested)
    (changed : Bool) : SamePass (blamed changed a) (blamed changed b) := by
  obtain ⟨plan, fingerprint, rfl, hplan⟩ := hab
  unfold C.blamed
  by_cases hreason : a.reason = some Reason.ownershipConflict.value
  · rw [if_pos hreason, if_pos hreason]
    exact ⟨⟨plan, fingerprint, rfl, hplan⟩, rfl, hfit, hst⟩
  · rw [if_neg hreason, if_neg hreason]
    exact ⟨⟨plan, fingerprint, rfl, hplan⟩, rfl, { hfit with }, hst⟩

/-- The record of the conflict. -/
def conflicted (snap : Snapshot) (op : Operation I) : Ownership where
  operationId := op.operationId
  reason := some "owned configuration changed"
  instanceId := snap.instanceId

theorem wp_claimLost {Q : Except Exn (Pass I) → EngineProc I → Prop}
    (hj : Judged a x y) (hstart : snap.instanceId ≠ some "") :
    wp (Engine.claimLost pod snap x) Q p ↔
      Q (.ok (blamed x.changed (yielded x.op))) (p.commit (.conflict pod (conflicted snap x.op))) := by
  have hleft := hj.yielded.1
  have htail : ∀ (op : Operation I) (p : EngineProc I),
      wp (if op.reason = some Reason.ownershipConflict.value then pure ⟨op, x.changed⟩
        else pure ⟨{ op with reason := some Reason.ownershipConflict.value }, true⟩) Q p ↔
      Q (.ok (blamed x.changed op)) p := by
    intro op p
    unfold blamed
    split <;> rfl
  unfold Engine.claimLost
  rw [start?_eq hstart, wp_bind, wp_commit]
  by_cases hst : x.op.state = .configCommitted
  · rw [if_pos hst] at hleft
    simp only [if_pos hst]
    rw [hleft]
    exact htail _ _
  · rw [if_neg hst] at hleft
    simp only [if_neg hst]
    rw [← Except.ok.inj hleft]
    exact htail _ _

theorem claimLost_eq (y : Pass I) (q : Process I) :
    claimLost snap y q =
      (blamed y.changed (if y.op.state = .configCommitted then moved y.op .ownershipConflict else y.op),
        q.commit (.conflict q.memory.podId (conflicted snap y.op))) := by
  unfold claimLost blamed
  dsimp only
  generalize (if y.op.state = .configCommitted then moved y.op .ownershipConflict else y.op) = op
  split <;> rfl

def Passed (pod : String) (busy : Bool) (out : Engine.Pass I × Process I)
    (r : Except Exn (Engine.Pass I)) (p' : EngineProc I) : Prop :=
  ∃ x, r = .ok x ∧ SamePass x out.1 ∧ Same pod busy p' out.2

theorem claimLost_twin (h : Same pod busy p q) (hj : Judged a x y)
    (hstart : snap.instanceId ≠ some "") :
    wp (Engine.claimLost pod snap x) (Passed pod busy (claimLost snap y q)) p := by
  obtain ⟨-, hab, hfit, hsent⟩ := hj.yielded
  have hrecord : conflicted snap y.op = conflicted snap x.op := by
    unfold conflicted
    rw [hj.alike.id]
  rw [wp_claimLost hj hstart, claimLost_eq, hj.changed, hrecord, h.memory.podId]
  exact ⟨_, rfl, SamePass.blamed hab hfit hsent x.changed, h.claim _ hstart⟩

theorem valid_attribution (h : a.valid = true) :
    ∃ s, a.commitEvidence.get? "attribution" = some (.str s) := by
  obtain ⟨-, h⟩ := Bool.and_eq_true_iff.mp h
  split at h
  · rename_i s hget
    exact ⟨s, hget⟩
  · cases h

/-- The note of a late application, and the state an observed application leads to. -/
def observed (op : Operation I) : Operation I :=
  { op with
    state := if op.state = .timedOut then .timedOut else .observedApplied
    lateResolution := if op.deadlineElapsed then some "applied_after_deadline"
      else op.lateResolution }

section

omit [IntentType I]

variable (hf : a.state.followed = true) (hnone : a.state ≠ .observedApplied)
include hf hnone

theorem transition_observed (htime : a.state ≠ .timedOut) (snap : Snapshot) (hfresh : snap.observed.fresh = true) :
    transition a .observedApplied (evidence snap false) =
      .ok { a with state := .observedApplied } := by
  obtain ⟨h₁, h₂, -⟩ := evidence_holds snap false
  rcases State.followed_cases hf with hst | hst | hst | hst
  · simp [transition, hst, State.next, h₁, h₂, hfresh]
  · simp [transition, hst, State.next, h₁, h₂, hfresh]
  · exact absurd hst htime
  · exact absurd hst hnone

theorem resolved_eq (hfresh : snap.observed.fresh = true) :
    resolved snap a =
      .ok { observed a with applicationEvidence := some (evidence snap false) } := by
  unfold resolved observed
  by_cases htime : a.state = .timedOut
  · have hstate : (witnessed snap a).state = .timedOut := htime
    rw [if_pos hstate, if_pos htime, ← htime]
    rfl
  · have hstate : ¬ (witnessed snap a).state = .timedOut := htime
    rw [if_neg hstate, if_neg htime,
      transition_observed (a := witnessed snap a) hf hnone htime snap hfresh]
    rfl

theorem observed_eq (snap : Snapshot) (hfresh : snap.observed.fresh = true) :
    (let op := if a.deadlineElapsed then { a with lateResolution := some "applied_after_deadline" }
        else a
     if op.state = .timedOut then op else moved op .observedApplied (evidence snap false)) =
      observed a := by
  have hlate : (if a.deadlineElapsed then { a with lateResolution := some "applied_after_deadline" }
      else a) = { a with lateResolution := if a.deadlineElapsed then some "applied_after_deadline"
        else a.lateResolution } := by
    split <;> rfl
  rw [hlate]
  unfold observed
  by_cases htime : a.state = .timedOut
  · rw [if_pos htime, if_pos htime, ← htime]
  · have ht := transition_observed (a := { a with
      lateResolution := if a.deadlineElapsed then some "applied_after_deadline"
        else a.lateResolution }) hf hnone htime snap hfresh
    rw [if_neg htime, if_neg htime, moved, (Alike.refl _).permitted ht]
    rfl

end

def credited (evidence : Record) (op : Operation I) : Operation I :=
  if op.commitEvidence.get? "attribution" = some (.str "unknown") then
    { op with applicationEvidence := some (evidence.set "attribution" (.str "current_condition_only")) }
  else
    { op with
      applicationEvidence := some evidence
      reason := if op.deadlineElapsed then some Reason.applyTimeout.value else none }

omit [IntentType I] in
theorem credited_state (evidence : Record) (op : Operation I) :
    (credited evidence op).state = op.state := by
  unfold credited
  split <;> rfl

omit [IntentType I] in
theorem Alike.credited (hab : Alike a b) (hst : a.state ≠ .rejected) (evidence : Record) :
    Alike (credited evidence (observed a)) (credited evidence (observed b)) := by
  obtain ⟨plan, fingerprint, rfl, hplan⟩ := hab
  unfold C.credited observed
  dsimp only
  split <;> exact ⟨plan, fingerprint, rfl, fun _ => hplan hst⟩

theorem Fit.credited (h : Fit a) {evidence : Record} (hev : named evidence "instance" = true) :
    Fit (credited evidence (C.observed a)) := by
  have hset : named (evidence.set "attribution" (.str "current_condition_only")) "instance" = true := by
    unfold named Record.some? at hev ⊢
    rw [Dict.get?_set_ne _ _ (by decide)]
    exact hev
  unfold C.credited
  split
  · exact ⟨h.valid, h.commit, fun _ he => some.inj he ▸ hset, h.rows, h.mapping,
      fun _ => by simp⟩
  · exact ⟨h.valid, h.commit, fun _ he => some.inj he ▸ hev, h.rows, h.mapping,
      fun _ => by simp⟩

theorem engine_noteApplied_eq (hj : Judged a x y) (hfresh : snap.observed.fresh = true)
    (hunseen : x.op.state ≠ .observedApplied) :
    Engine.noteApplied snap x.op = .ok ⟨credited (evidence snap false) (observed x.op), true⟩ := by
  obtain ⟨s, hget⟩ := valid_attribution hj.fit.valid
  have hresolved := resolved_eq hj.followed hunseen hfresh
  rw [Engine.noteApplied, hresolved]
  show attributed snap _ = _
  unfold attributed credited
  have hget' : (observed x.op).commitEvidence.get? "attribution" = some (.str s) := hget
  simp only [hget', some.injEq]
  split <;> rfl

theorem noteApplied_eq (hj : Judged a x y) (hstart : snap.instanceId ≠ some "")
    (hfresh : snap.observed.fresh = true) (hunseen : x.op.state ≠ .observedApplied) :
    noteApplied snap y.op = ⟨credited (evidence snap false) (observed y.op), true⟩ := by
  have hobserved := observed_eq (hj.state ▸ hj.followed) (hj.state ▸ hunseen)
    snap hfresh
  unfold noteApplied credited
  dsimp only
  rw [← evidence_eq hstart, hobserved]
  simp only [str_eq_some]
  split <;> rfl

theorem noteApplied_twin (hj : Judged a x y) (hstart : snap.instanceId ≠ some "")
    (hfresh : snap.observed.fresh = true) (hnone : x.op.applicationEvidence = none) :
    ∃ x', Engine.noteApplied snap x.op = .ok x' ∧ SamePass x' (noteApplied snap y.op) := by
  have hunseen : x.op.state ≠ .observedApplied := fun hc => hj.fit.observed hc hnone
  rw [engine_noteApplied_eq hj hfresh hunseen, noteApplied_eq hj hstart hfresh hunseen]
  refine ⟨_, rfl, hj.alike.credited hj.unrejected _, rfl, hj.fit.credited (evidence_named false), ?_⟩
  rw [credited_state]
  unfold observed
  split <;> simp

variable (h : Same pod busy p q)
include h

theorem expired_twin (hab : Alike a b) (hfit : Fit a)
    (ht : Timed p.memory q.memory a.operationId) :
    wp (expired env a) (fun r p' => r = .ok (emEngineExpired (twin env) b q).1 ∧
      Same pod busy p' (emEngineExpired (twin env) b q).2 ∧
      (emEngineExpired (twin env) b q).2.memory.mapping = q.memory.mapping) p := by
  have hdeadline : b.deadlineAt = a.deadlineAt := by
    obtain ⟨plan, fingerprint, he, -⟩ := hab
    rw [he]
  unfold expired emEngineExpired
  simp only [wp_bind, wp_memory]
  rw [hab.id, hdeadline]
  cases hslot : timer q.memory a.operationId with
  | some t =>
    have hid : t.id = a.operationId := by simpa using List.find?_some hslot
    have hne : a.operationId ≠ "" := by
      have hvalid := hfit.valid
      simp only [Operation.valid, Bool.and_eq_true, decide_eq_true_eq] at hvalid
      exact hvalid.1.1.1.1.1.1.1
    rw [← hid, h.memory.timers t (List.mem_of_find?_eq_some hslot) (hid ▸ hne)]
    exact ⟨rfl, h, rfl⟩
  | none =>
    rw [ht hslot]
    have hop : (setTimer q.memory a.operationId
        (env.monotonic + max 0 (a.deadlineAt - env.utc))).wscOp = q.memory.wscOp := by
      unfold setTimer
      split <;> rfl
    exact ⟨rfl, h.remember (h.memory.setTimer _ _) rfl hop, (setTimer_keeps _ _ _).2.1⟩

theorem target_twin :
    Option.Rel Alike (target? pod p.journal.operations)
      ((latest pod q.journal.operations).filter (·.state.followed)) := by
  have hsent : List.Forall₂ Alike (p.journal.operations.filter (·.sentIn pod))
      (q.journal.operations.filter fun row => row.podId = pod ∧ row.state.reconciled) := by
    refine Related.filter h.journal.rows fun x y hxy => ?_
    rw [Operation.sentIn, hxy.podId, hxy.state]
  have hlatest : Option.Rel Alike (Engine.latest pod p.journal.operations)
      (latest pod q.journal.operations) := Related.getLast? hsent
  unfold target?
  generalize Engine.latest pod p.journal.operations = l at hlatest ⊢
  generalize latest pod q.journal.operations = l' at hlatest ⊢
  cases hlatest with
  | none => exact .none
  | @some x y hxy =>
    rw [filter_some, filter_some, hxy.state]
    split
    · exact .some hxy
    · exact .none

variable (hmap : env.mapping pod = q.memory.mapping) (hne : q.memory.mapping ≠ some "")
include hmap hne

theorem observe_twin (hj : Judged a x y) (hcomp : Compared snap target)
    (hstart : snap.instanceId ≠ some "") :
    wp (Engine.observe env pod snap target x) (Passed pod busy (observe snap target y q)) p := by
  have hevidence : y.op.applicationEvidence = x.op.applicationEvidence := by
    obtain ⟨plan, fingerprint, he, -⟩ := hj.alike
    rw [he]
  unfold Engine.observe observe
  rw [lost_eq hj hcomp hstart hmap hne, ← hcomp.config, ← hcomp.observed, hevidence]
  by_cases hready : snap.ready = true ∧ snap.observed.fresh = true
  · rw [if_pos hready, if_pos hready]
    by_cases hlost : drifted env pod snap target x.op = true
    · rw [if_pos hlost, if_pos hlost]
      exact claimLost_twin h hj hstart
    · rw [if_neg hlost, if_neg hlost]
      by_cases hseen : configMatches snap.config target = true ∧ snap.observed.satisfies target = true ∧
          x.op.applicationEvidence.isNone = true
      · obtain ⟨x', hx', hpass⟩ := noteApplied_twin hj hstart hready.2
          (isNone_iff_eq_none.mp hseen.2.2)
        rw [if_pos hseen, if_pos hseen, hx']
        exact ⟨x', rfl, hpass, h⟩
      · rw [if_neg hseen, if_neg hseen]
        exact ⟨x, rfl, hj.toSamePass, h⟩
  · rw [if_neg hready, if_neg hready]
    exact ⟨x, rfl, hj.toSamePass, h⟩

theorem judge_twin (hj : Judged a x y) (hread : Readable env snap a.intent) :
    wp (Engine.judge env pod snap x) (Passed pod busy (judge (twin env) snap y q)) p := by
  have hintent : y.op.intent = x.op.intent := by
    obtain ⟨plan, fingerprint, he, -⟩ := hj.alike
    rw [he]
  unfold Engine.judge judge
  rw [hintent, hj.intent]
  cases htarget : IntentType.target env.vault a.intent with
  | error e =>
    rw [twin_target_error htarget]
    obtain ⟨plan, fingerprint, he, hplan⟩ := hj.alike
    have hblocked : y.op.blockedForResubmission = x.op.blockedForResubmission := by rw [he]
    simp only [hblocked]
    split
    · exact ⟨x, rfl, hj.toSamePass, h⟩
    · refine ⟨_, rfl, ⟨⟨plan, fingerprint, by rw [he], hplan⟩, rfl, ?_, hj.sent⟩, h⟩
      exact { hj.fit with }
  | ok target =>
    obtain ⟨hconfig, hsatisfies⟩ := hread.compares target htarget
    have hcomp : Compared snap target := ⟨hconfig, hsatisfies⟩
    obtain ⟨x', hx', hj'⟩ := giveUp_twin hj hcomp
    rw [twin_target htarget]
    simp only [hx']
    exact observe_twin h hmap hne hj' hcomp hread.start

/-! ## The pass -/

theorem follow_twin (hab : Alike a b) (hfit : Fit a)
    (hf : a.state.followed = true) (ht : Timed p.memory q.memory a.operationId)
    (hread : Readable env snap a.intent) :
    wp (Engine.follow env pod snap a)
      (fun r p' => r = .ok () ∧ Same pod busy p' (follow (twin env) snap b q)) p := by
  unfold Engine.follow follow
  rw [wp_bind]
  have hstart : snap.instanceId.filter (· ≠ "") = snap.start? := rfl
  have hsettles := settleRestarted_twin h hab hfit snap.instanceId
  rw [settleRestarted_eq hfit hab, hstart] at hsettles
  rw [settleRestarted_eq hfit hab, hstart]
  refine wp_mono hsettles ?_
  intro r p₁ hsettled
  obtain ⟨rfl, hp₁, hsame⟩ := hsettled
  cases hs : stranded snap.start? a with
  | true =>
    rw [hs] at hsame
    exact ⟨rfl, hsame⟩
  | false =>
    rw [hs] at hsame
    have hsame : Same pod busy p₁ q := hsame
    simp only [Bool.false_eq_true, if_false, wp_bind]
    have hmem : p₁ = p := by rw [hp₁, hs]; rfl
    refine wp_mono (expired_twin hsame hab hfit (hmem ▸ ht)) ?_
    obtain ⟨late, q₁⟩ := emEngineExpired (twin env) b q
    intro r p₂ hexpired
    obtain ⟨rfl, hsame₁, hmap₁⟩ := hexpired
    obtain ⟨x, hx, hj⟩ := lapse_twin hab hfit hf late
    dsimp only at hmap₁ ⊢
    rw [wp_liftE, hx]
    refine wp_mono (judge_twin hsame₁ (hmap.trans hmap₁.symm) (hmap₁ ▸ hne) hj hread) ?_
    intro r p₃ hpassed
    obtain ⟨x', rfl, hpass, hsame₂⟩ := hpassed
    have hchanged := hpass.changed
    dsimp only at hchanged ⊢
    rw [hchanged]
    split
    · rw [wp_save, if_pos hpass.fit.valid]
      exact ⟨rfl, hsame₂.save hpass.alike hpass.fit hpass.sent⟩
    · exact ⟨rfl, hsame₂⟩

theorem reconcile_twin (hstart : snap.instanceId ≠ some "")
    (htarget : ∀ op, target? pod p.journal.operations = some op →
      Readable env snap op.intent ∧ Timed p.memory q.memory op.operationId) :
    wp (reconcile env pod (.ok snap))
      (fun _ p' => Same pod busy p' (emEngineReconcile (twin env) (some snap) q)) p := by
  have hmapping : (rememberInstance snap q).memory.mapping = q.memory.mapping ∧
      (rememberInstance snap q).memory.timers = q.memory.timers := by
    unfold rememberInstance
    split <;> exact ⟨rfl, rfl⟩
  unfold reconcile emEngineReconcile
  simp only [wp_bind, wp_memory, h.memory.backends, List.mem_singleton, not_true_eq_false, if_false,
    wp_lift]
  refine wp_mono (see_twin h hstart) ?_
  intro r p₁ hseen
  obtain ⟨rfl, hj, hdeadlines, hsame⟩ := hseen
  simp only [wp_journal, reconcileFrom_eq, hsame.memory.podId]
  have hpair := target_twin hsame
  rw [hj] at hpair ⊢
  rcases Related.rel_cases hpair with ⟨hp, hq⟩ | ⟨a, b, hp, hq, hab⟩ <;> rw [hp, hq]
  · exact hsame
  obtain ⟨hread, ht⟩ := htarget a hp
  obtain ⟨hlatest, hf⟩ := filter_eq_some_iff.mp hp
  have hfit : Fit a := h.journal.fit a (latest_mem hlatest).1
  have ht' : Timed p₁.memory (rememberInstance snap q).memory a.operationId := by
    unfold Timed timer at ht ⊢
    rw [hmapping.2, hdeadlines]
    exact ht
  have hfollow := follow_twin hsame (hmap.trans hmapping.1.symm) (hmapping.1 ▸ hne) hab hfit hf ht'
    hread
  refine wp_mono hfollow ?_
  intro r p₂ hfollowed
  obtain ⟨rfl, hsame₂⟩ := hfollowed
  exact hsame₂

end Emosa.C
