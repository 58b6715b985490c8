import Emosa.C.Claims
import Emosa.Engine.Timeout

/-!
# Emosa.C.Timeout

Giving up a write of unknown outcome, in C. The pass has the same shape as the other engine's: the
record it has just timed out is the one it then looks for in the configuration.

* `frees_iff`: after the pass the pod is free exactly when the snapshot claims nothing.
* `unknown_write_frees_pod`: the same for both engines.
-/

namespace Emosa.C

open Durable Journal

variable {I : Type} [IntentType I] {p : Process I} {op : Operation I}
variable {env : EmEnv I} {snap : Snapshot} {target : Record}

def due (e : EmEngine) (env : EmEnv I) (op : Operation I) : Bool :=
  op.deadlineElapsed ||
  decide (((timer e op.operationId).map EmTimer.deadline).getD
    (env.monotonic + max 0 (op.deadlineAt - env.utc)) ≤ env.monotonic)

/-- The snapshot gives no reason to say that the configuration is applied, or that it was taken
away. -/
def silent (e : EmEngine) (snap : Snapshot) (target : Record) (op : Operation I) : Bool :=
  !snap.observed.fresh ||
  if emMatches snap.config target then !emSnapshotSatisfies snap target else remapped e op

/-- The pod's latest write has an unknown outcome, and the pod is otherwise free. -/
structure Unknown (p : Process I) (op : Operation I) : Prop where
  distinct : p.journal.Distinct
  valid : op.valid = true
  latest : latest p.memory.podId p.journal.operations = some op
  state : op.state = .indeterminate
  alone : ∀ q ∈ p.journal.operations, q.podId = p.memory.podId → q.state.active = true →
    q.operationId = op.operationId
  busy : p.memory.busy = false
  free : p.journal.ownership.get? p.memory.podId = none

/-- Every request that is journaled at all is journaled REQUESTED. -/
def Accepts (p : Process I) : Prop :=
  ∀ env (r : Engine.Request I), (emStep p (.request env r)).written ≠ p.written →
    (emStep p (.request env r)).journal.state? r.operationId = some .requested

/-! ## Requests -/

theorem settleRestarted_inactive (h : op.state.active = false) (current : Option String) :
    settleRestarted op current p = none := by
  have hnot : ¬ (op.state = .configCommitted ∨ op.state = .indeterminate) := by
    rintro (hs | hs) <;> rw [hs] at h <;> cases h
  unfold settleRestarted
  split
  · rw [if_neg fun hc => hnot hc.1]
  · rfl

theorem settleOthers_idle {id : String} {rows : List (Operation I)}
    (h : ∀ q ∈ rows, q.podId = p.memory.podId → q.operationId ≠ id → q.state.active = false) :
    settleOthers id false rows p = (false, p) := by
  induction rows with
  | nil => rfl
  | cons q rest ih =>
    have hrest := ih fun q' hq' => h q' (List.mem_cons_of_mem _ hq')
    unfold settleOthers
    split
    · rename_i hmine
      have hq := h q List.mem_cons_self hmine.1 hmine.2
      rw [settleRestarted_inactive hq]
      simpa [hq] using hrest
    · exact hrest

theorem grant_free (h : ∀ q ∈ p.journal.operations, q.podId = p.memory.podId →
      q.operationId ≠ op.operationId → q.state.active = false) (hbusy : p.memory.busy = false)
    (hfree : p.journal.ownership.get? p.memory.podId = none) : grant op p = (op, p) := by
  unfold grant
  rw [hbusy, settleOthers_idle h]
  simp only [currentOwnership, hfree]

/-- The pod takes requests: nothing holds it, and no conflict is recorded for it. -/
structure Open (p : Process I) : Prop where
  distinct : p.journal.Distinct
  idle : ∀ q ∈ p.journal.operations, q.podId = p.memory.podId → q.state.active = false
  busy : p.memory.busy = false
  free : p.journal.ownership.get? p.memory.podId = none

theorem request_open (h : Open p) (env : EmEnv I) (r : Engine.Request I)
    (hnone : p.journal.get? r.operationId = none) :
    (emEngineRequest env r p).2.written = p.written ∨
      (emEngineRequest env r p).2.journal.state? r.operationId = some .requested := by
  rcases request_cases env r p with he | ⟨op, hid, -, hst, -, -, he⟩ <;> rw [he]
  · exact .inl rfl
  have hget : (p.journal.toJournal.written emJournalHoldsRows (.add op r.wscReceipt)).get?
      op.operationId = some op := get?_written_add _ r.wscReceipt (hid.symm ▸ hnone)
  obtain ⟨hpod, -, hbusy, -⟩ := setTimer_keeps p.memory op.operationId (env.monotonic + r.deadline)
  rw [grant_free]
  · refine .inr ?_
    rw [← hid]
    exact (congrArg (Option.map Operation.state) hget).trans (by simp [hst])
  · intro q hq hqpod hne
    cases mem_written_add hq with
    | inl hm => exact h.idle q hm (hqpod.trans hpod)
    | inr he => exact absurd (congrArg Operation.operationId he) hne
  · exact hbusy.trans h.busy
  · show p.journal.ownership.get? (setTimer p.memory op.operationId _).podId = none
    rw [hpod]
    exact h.free

theorem accepts_of_open (h : Open p) : Accepts p := by
  intro env r hwritten
  simp only [emStep] at hwritten ⊢
  split at hwritten
  · exact absurd rfl hwritten
  · rename_i hfresh
    rw [if_neg hfresh]
    refine (request_open h env r (get?_fresh h.distinct.issued ?_)).resolve_left hwritten
    simpa using hfresh

/-! ## The pass -/

omit [IntentType I] in
theorem lapse_due {late : Bool} (hst : op.state = .indeterminate)
    (hdue : (op.deadlineElapsed || late) = true) :
    ∃ changed, lapse late op = ⟨op.marked, changed⟩ := by
  unfold lapse Operation.marked
  cases helapsed : op.deadlineElapsed with
  | true =>
    refine ⟨false, ?_⟩
    split
    · simp [hst]
    · rfl
  | false =>
    have hlate : late = true := by simpa [helapsed] using hdue
    simp [hlate, hst]

omit [IntentType I] in
theorem giveUp_due (changed : Bool) (hst : op.state = .indeterminate) (hready : snap.ready = true)
    (hnot : (emMatches snap.config target && emSnapshotSatisfies snap target) = false) :
    giveUp snap target ⟨op.marked, changed⟩ = ⟨op.givenUp, true⟩ := by
  have hstate : op.marked.state = .indeterminate := by rw [op.marked_same.2.2.1, hst]
  have hnext : State.timedOut ∈ op.marked.state.next := by rw [hstate]; decide
  have hmoved : moved op.marked .timedOut = { op.marked with state := .timedOut } := by
    simp [moved, emTransition, hnext, op.marked_elapsed]
  unfold giveUp
  rw [if_pos ⟨hready, hstate, op.marked_elapsed, by simp [hnot]⟩, hmoved]
  rfl

omit [IntentType I] in
theorem lost_givenUp (e : EmEngine) (hstart : restarted op snap = false) :
    lost e snap target op.givenUp = (!emMatches snap.config target && !remapped e op) := by
  obtain ⟨-, -, -, hplan, hev, hcommit⟩ := op.marked_same
  have hsame : restarted op.givenUp snap = false := by
    simp only [Operation.givenUp, hev, hcommit]
    exact hstart
  have hmap : remapped e op.givenUp = remapped e op := by
    simp only [remapped, Operation.givenUp, hplan]
  have hstate : op.givenUp.state = .timedOut := rfl
  simp [lost, hsame, hmap, hstate]

theorem observe_givenUp (hstart : restarted op snap = false) (hready : snap.ready = true)
    (hnot : (emMatches snap.config target && emSnapshotSatisfies snap target) = false) :
    observe snap target ⟨op.givenUp, true⟩ p =
      if silent p.memory snap target op then (⟨op.givenUp, true⟩, p)
      else (⟨because op.givenUp .ownershipConflict, true⟩, p.commit (.conflict p.memory.podId
        { operationId := op.operationId
          reason := some "owned configuration changed"
          instanceId := snap.instanceId })) := by
  have hid : op.givenUp.operationId = op.operationId := op.marked_same.1
  unfold observe silent
  simp only [hready, lost_givenUp p.memory hstart]
  cases hfresh : snap.observed.fresh with
  | false => simp
  | true =>
    cases hmatch : emMatches snap.config target with
    | true =>
      have hsat : emSnapshotSatisfies snap target = false := by simpa [hmatch] using hnot
      simp [hsat]
    | false =>
      cases hmap : remapped p.memory op with
      | true => simp
      | false =>
        have hreason : op.givenUp.reason ≠ some Reason.ownershipConflict.value := by
          simp only [Operation.givenUp]
          decide
        have hstate : op.givenUp.state ≠ .configCommitted := by simp [Operation.givenUp]
        simp [claimLost, hstate, hreason, hid]

structure GivenUp (snap : Snapshot) (target : Record) (op : Operation I) (p p' : Process I) :
    Prop where
  freed : silent p.memory snap target op = true →
    p'.journal.toJournal = p.journal.toJournal.apply (.save op.givenUp)
  blocked : silent p.memory snap target op = false →
    p'.journal.state? op.operationId ≠ some .timedOut ∨
      p'.journal.ownership.get? p.memory.podId ≠ none
  podId : p'.memory.podId = p.memory.podId
  busy : p'.memory.busy = p.memory.busy

theorem settleRestarted_same (hstart : restarted op snap = false) :
    settleRestarted op snap.instanceId p = none := by
  unfold restarted at hstart
  unfold settleRestarted
  split at hstart
  · simp only [decide_eq_false_iff_not] at hstart
    simp [hstart]
  · rfl

omit [IntentType I] in
theorem noteApplied_state (hst : op.state ≠ .timedOut) :
    (noteApplied snap op).op.operationId = op.operationId ∧
      (noteApplied snap op).op.state ≠ .timedOut := by
  have hlate : ∀ new : Operation I, new.operationId = op.operationId → new.state ≠ .timedOut →
      (if new.state = .timedOut then new
        else moved new .observedApplied (emEngineEvidence snap false)).operationId =
          op.operationId ∧
      (if new.state = .timedOut then new
        else moved new .observedApplied (emEngineEvidence snap false)).state ≠ .timedOut := by
    intro new hid hne
    rw [if_neg hne]
    rcases moved_cases new .observedApplied (emEngineEvidence snap false) with he | he
    · rw [he]
      exact ⟨hid, hne⟩
    · rw [he]
      exact ⟨hid, by simp⟩
  unfold noteApplied
  dsimp only
  have hnew : ∃ new : Operation I, (if op.deadlineElapsed then
      { op with lateResolution := some "applied_after_deadline" } else op) = new ∧
      new.operationId = op.operationId ∧ new.state ≠ .timedOut := by
    split <;> exact ⟨_, rfl, rfl, hst⟩
  obtain ⟨new, hn, hid, hne⟩ := hnew
  rw [hn]
  have hres := hlate new hid hne
  generalize (if new.state = .timedOut then new
    else moved new .observedApplied (emEngineEvidence snap false)) = res at hres ⊢
  split <;> exact hres

theorem observe_shown (pass : Engine.Pass I) (hst : pass.op.state ≠ .timedOut)
    (hmatch : emMatches snap.config target = true) :
    ∃ pass', observe snap target pass p = (pass', p) ∧
      pass'.op.operationId = pass.op.operationId ∧ pass'.op.state ≠ .timedOut := by
  have hlost : lost p.memory snap target pass.op = false := by simp [lost, hmatch]
  unfold observe
  simp only [hlost, Bool.false_eq_true, if_false]
  split
  · split
    · exact ⟨_, rfl, noteApplied_state hst⟩
    · exact ⟨_, rfl, rfl, hst⟩
  · exact ⟨_, rfl, rfl, hst⟩

theorem save_state {id : String} {new : Operation I} (h : p.journal.state? id ≠ some .timedOut)
    (hid : new.operationId = id) (hst : new.state ≠ .timedOut) :
    (emEngineSave new p).journal.state? id ≠ some .timedOut := by
  unfold emEngineSave
  split
  · cases hget : p.journal.get? id with
    | none =>
      have hsame : p.journal.toJournal.apply (.save new) = p.journal.toJournal :=
        get?_save_none (hid ▸ hget)
      exact fun hc => h (hsame ▸ hc)
    | some old =>
      have hsaved : (p.journal.toJournal.apply (.save new)).get? new.operationId = some new :=
        get?_save_self (hid.symm ▸ hget)
      intro hc
      have hc : ((p.journal.toJournal.apply (.save new)).get? id).map Operation.state =
        some .timedOut := hc
      rw [← hid, hsaved] at hc
      exact hst (Option.some.inj hc)
  · exact h

theorem follow_gives_up (hvalid : op.valid = true)
    (hget : p.journal.get? op.operationId = some op) (hst : op.state = .indeterminate)
    (hstart : restarted op snap = false) (hdue : due p.memory env op = true)
    (hready : snap.ready = true) (htarget : env.target op.intent = .ok target) :
    GivenUp snap target op p (follow env snap op p) := by
  obtain ⟨hid, hintent, hstate, -, -, -⟩ := op.marked_same
  unfold follow
  rw [settleRestarted_same hstart]
  have hlate : (op.deadlineElapsed || (emEngineExpired env op p).1) = true := by
    unfold emEngineExpired
    unfold due at hdue
    cases ht : timer p.memory op.operationId <;> rw [ht] at hdue <;> exact hdue
  have hexp := expired_recalls env op p
  generalize emEngineExpired env op p = out at hlate hexp ⊢
  obtain ⟨late, p₁⟩ := out
  obtain ⟨e, rfl, hpod, hmap, hbusy⟩ := hexp
  simp only
  obtain ⟨changed, hlapse⟩ := lapse_due hst hlate
  rw [hlapse]
  have hsilent : silent e snap target op = silent p.memory snap target op := by
    simp only [silent, remapped, hmap]
  simp only [judge, hintent, htarget]
  cases hshown : emMatches snap.config target && emSnapshotSatisfies snap target with
  | false =>
    rw [giveUp_due changed hst hready hshown, observe_givenUp hstart hready hshown]
    cases hs : silent e snap target op with
    | true =>
      simp only [if_true]
      rw [emEngineSave, if_pos (op.givenUp_valid.trans hvalid)]
      refine ⟨fun _ => rfl, fun hc => ?_, hpod, hbusy⟩
      rw [← hsilent, hs] at hc
      cases hc
    | false =>
      have hclaimed : ∀ r : Ownership, (p.journal.ownership.set e.podId r).get? p.memory.podId ≠
          none := by
        rw [hpod]
        simp
      simp only [Bool.false_eq_true, if_false, if_true]
      refine ⟨fun hc => ?_, fun _ => .inr ?_, ?_, ?_⟩
      · rw [← hsilent, hs] at hc
        cases hc
      · rw [emEngineSave]
        split <;> exact hclaimed _
      · rw [emEngineSave_memory]
        exact hpod
      · rw [emEngineSave_memory]
        exact hbusy
  | true =>
    simp only [Bool.and_eq_true] at hshown
    have hfresh : snap.observed.fresh = true := by
      have hsat := hshown.2
      simp only [emSnapshotSatisfies, Bool.and_eq_true] at hsat
      exact hsat.1
    have hloud : silent p.memory snap target op = false := by simp [silent, hfresh, hshown]
    have hkeep : giveUp snap target ⟨op.marked, changed⟩ = ⟨op.marked, changed⟩ := by
      unfold giveUp
      simp [hshown]
    have hmarked : op.marked.state ≠ .timedOut := by
      rw [hstate, hst]
      decide
    rw [hkeep]
    obtain ⟨pass, hobs, hpid, hpst⟩ := observe_shown
      ⟨op.marked, changed⟩ hmarked hshown.1
    rw [hobs]
    have hmemory : (if pass.changed then emEngineSave pass.op { p with memory := e }
        else { p with memory := e }).memory = e := by
      split
      · exact emEngineSave_memory ..
      · rfl
    refine ⟨fun hc => by simp [hloud] at hc, fun _ => .inl ?_, ?_, ?_⟩
    · -- whether it is saved or not, the record is not one that timed out
      split
      · refine save_state ?_ (hpid.trans hid) hpst
        rw [Journal.state?, show p.journal.get? op.operationId = some op from hget]
        simp [hst]
      · rw [Journal.state?, hget]
        simp [hst]
    · exact (congrArg EmEngine.podId hmemory).trans hpod
    · exact (congrArg EmEngine.busy hmemory).trans hbusy

section

variable (h : Unknown p op) (hdue : due p.memory env op = true) (hready : snap.ready = true)
variable (hstart : restarted op snap = false) (htarget : env.target op.intent = .ok target)
include h hdue hready hstart htarget

theorem reconcile_gives_up :
    GivenUp snap target op p (emEngineReconcile env (some snap) p) := by
  have hmem : op ∈ p.journal.operations := (List.mem_filter.mp (List.mem_of_getLast? h.latest)).1
  have htimers : (rememberInstance snap p).memory.timers = p.memory.timers := by
    unfold rememberInstance
    split <;> rfl
  obtain ⟨e, he, hpod, hmap, hbusy⟩ := rememberInstance_recalls snap p
  rw [he] at htimers
  have hfollowed : (latest e.podId p.journal.operations).filter (·.state.followed) = some op := by
    rw [hpod, h.latest]
    simp [h.state, State.followed]
  have hdue' : due e env op = true := by
    unfold due timer at hdue ⊢
    rwa [htimers]
  have hsilent : silent e snap target op = silent p.memory snap target op := by
    simp only [silent, remapped, hmap]
  simp only [emEngineReconcile, he, hfollowed]
  obtain ⟨hfreed, hblocked, hp, hb⟩ := follow_gives_up (p := { p with memory := e }) h.valid
    (h.distinct.get? hmem) h.state hstart hdue' hready htarget
  refine ⟨fun hs => hfreed (hsilent.trans hs), fun hs => ?_, hp.trans hpod, hb.trans hbusy⟩
  have hout := hblocked (hsilent.trans hs)
  rwa [show ({ p with memory := e } : Process I).memory.podId = p.memory.podId from hpod] at hout

theorem frees_iff :
    ((emStep p (.reconcile env (some snap))).journal.state? op.operationId = some .timedOut ∧
      (emStep p (.reconcile env (some snap))).journal.ownership.get? p.memory.podId = none ∧
      Accepts (emStep p (.reconcile env (some snap)))) ↔
    silent p.memory snap target op = true := by
  have hgive := reconcile_gives_up h hdue hready hstart htarget
  rw [show emStep p (.reconcile env (some snap)) = emEngineReconcile env (some snap) p from rfl]
  generalize emEngineReconcile env (some snap) p = p' at hgive ⊢
  constructor
  · rintro ⟨hstate, hnone, -⟩
    cases hs : silent p.memory snap target op with
    | true => rfl
    | false => exact ((hgive.blocked hs).elim (fun hc => hc hstate) (fun hc => hc hnone)).elim
  · intro hs
    have hmem : op ∈ p.journal.operations :=
      (List.mem_filter.mp (List.mem_of_getLast? h.latest)).1
    have hid : op.givenUp.operationId = op.operationId := op.marked_same.1
    have hsaved := hgive.freed hs
    have hdistinct : p'.journal.Distinct := by
      rw [hsaved]
      exact h.distinct.save _
    have hget : p'.journal.get? op.operationId = some op.givenUp := by
      rw [hsaved, ← hid]
      exact get?_save_self (hid.symm ▸ h.distinct.get? hmem)
    have hfree : p'.journal.ownership.get? p.memory.podId = none := by
      rw [hsaved]
      exact h.free
    refine ⟨by rw [Journal.state?, hget]; rfl, hfree,
      accepts_of_open ⟨hdistinct, fun q hq hqpod => ?_, hgive.busy.trans h.busy,
        hgive.podId.symm ▸ hfree⟩⟩
    rw [hsaved] at hq
    rcases mem_written_save_ne holdsRows hq with rfl | ⟨hm, hqid⟩
    · rfl
    · refine Bool.eq_false_of_not_eq_true fun hact => hqid (hid ▸ ?_)
      exact h.alone q hm (hqpod.trans hgive.podId) hact

end

/-- At the first pass past its deadline, a write of unknown outcome that the pod's latest operation
made stops blocking the pod exactly when the snapshot claims nothing: its State is not fresh, or it
has the configuration and does not show it yet, or the configuration was planned under another
mapping. -/
theorem unknown_write_frees_pod :
    (∀ (s : Setup) (as : List (Action I)), Meets World.step World.Uncut (World.init s) as →
      ∀ (env : Env I) (pod : String) (snap : Snapshot) (target : Record) (op : Operation I),
        ((World.init s).run as).Unknown pod op →
        Engine.due ((World.init s).run as).engine env op = true → snap.ready = true →
        Engine.writtenOnAnotherStart op snap.start? = false →
        IntentType.target env.vault op.intent = .ok target →
        ((((World.init s).run (as ++ [.call env (.reconcile pod (.ok snap))])).journal.state?
            op.operationId = some .timedOut ∧
          ((World.init s).run
            (as ++ [.call env (.reconcile pod (.ok snap))])).journal.ownership.get? pod = none ∧
          ((World.init s).run (as ++ [.call env (.reconcile pod (.ok snap))])).Accepts pod) ↔
        Engine.silent env pod snap target op = true)) ∧
    ∀ (p : Process I) (env : EmEnv I) (snap : Snapshot) (target : Record) (op : Operation I),
      Unknown p op → due p.memory env op = true → snap.ready = true → restarted op snap = false →
      env.target op.intent = .ok target →
      (((emStep p (.reconcile env (some snap))).journal.state? op.operationId = some .timedOut ∧
        (emStep p (.reconcile env (some snap))).journal.ownership.get? p.memory.podId = none ∧
        Accepts (emStep p (.reconcile env (some snap)))) ↔
      silent p.memory snap target op = true) := by
  refine ⟨fun s as has env pod snap target op h hdue hready hstart htarget => ?_,
    fun p env snap target op h hdue hready hstart htarget =>
      frees_iff h hdue hready hstart htarget⟩
  rw [World.run_append]
  exact World.frees_iff h hdue hready hstart htarget (World.one_run has)

/-- The reply to the only write of the pod is lost. -/
def replyLost : List (Action Intent) :=
  Sample.executed "a" "first" Sample.bare ++
    [.call (Sample.env 0) (.resume 0 (.submit (.error .connection)) Sample.draw)]

def emReplyLost : List (EmCall Intent) :=
  [.request (emEnv 0) (Sample.request "a" "first"), .execute (emEnv 0) "a" (answers Sample.bare)]

/-- The pod as before the write, its State not fresh. -/
def stale : Snapshot := { Sample.bare with observed := ⟨∅, "ovsdb", "now", false, "p", 0⟩ }

/-- The record of the lost write, in each engine. -/
def lostWrite : Operation Intent :=
  (Engine.target? "pod" ((World.init Sample.setup).run replyLost).journal.operations).get
    (by decide +kernel)

def emLostWrite : Operation Intent :=
  (latest "pod" (emRun (emInit "pod" "process") emReplyLost).journal.operations).get
    (by decide +kernel)

theorem stale_state_frees_pod :
    ((World.init Sample.setup).run
      (replyLost ++ [.call (Sample.env 60) (.reconcile "pod" (.ok stale))])).Accepts "pod" ∧
    Accepts (emStep (emRun (emInit "pod" "process") emReplyLost)
      (.reconcile (emEnv 60) (some stale))) := by
  refine ⟨?_, ?_⟩
  · have hfrees := unknown_write_frees_pod.1 Sample.setup replyLost
      ⟨trivial, trivial, trivial, trivial, trivial, trivial⟩ (Sample.env 60) "pod" stale
      Sample.target lostWrite
      ⟨by decide +kernel, by decide +kernel, (Option.some_get _).symm, by decide +kernel,
        by decide +kernel, by decide +kernel, by decide +kernel⟩
      (by decide +kernel) rfl (by decide +kernel) (by decide +kernel)
    exact (hfrees.mpr (by decide +kernel)).2.2
  · have hfrees := (unknown_write_frees_pod (I := Intent)).2
      (emRun (emInit "pod" "process") emReplyLost) (emEnv 60) stale Sample.target emLostWrite
      ⟨⟨by decide +kernel, by decide +kernel⟩, by decide +kernel, (Option.some_get _).symm,
        by decide +kernel, by decide +kernel, by decide +kernel, by decide +kernel⟩
      (by decide +kernel) rfl (by decide +kernel) (by decide +kernel)
    exact (hfrees.mpr (by decide +kernel)).2.2

/-- The write never lands. Past the deadline the pod is ready, its State fresh, its configuration the
one from before. -/
theorem given_up_and_blocked :
    ((((World.init Sample.setup).run (replyLost ++
        [.call (Sample.env 60) (.reconcile "pod" (.ok Sample.bare)),
          .call (Sample.env 60) (.request (Sample.request "b" "second"))])).journal.operations.map
        fun op => (op.operationId, op.state, op.reason)) =
      [("a", .timedOut, some Reason.ownershipConflict.value),
        ("b", .rejected, some Reason.ownershipConflict.value)]) ∧
    ((emRun (emInit "pod" "process") (emReplyLost ++ [.reconcile (emEnv 60) (some Sample.bare),
        .request (emEnv 60) (Sample.request "b" "second")])).journal.operations.map
        fun op => (op.operationId, op.state, op.reason)) =
      [("a", .timedOut, some Reason.ownershipConflict.value),
        ("b", .rejected, some Reason.ownershipConflict.value)] := by
  decide +kernel

end Emosa.C
