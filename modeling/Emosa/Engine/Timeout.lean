import Emosa.Engine.Latest
import Emosa.Engine.OneWriter

/-!
# Emosa.Engine.Timeout

A write of unknown outcome whose deadline has passed. The pass that gives it up goes on with the
record it has just timed out: where the pod's State is fresh and its configuration is not the
operation's, the same pass records a conflict, and the freed pod is blocked again.

* `follow_gives_up`: what the pass makes of such an operation, in both cases.
* `grant_free`: a request for a pod that nothing holds is left REQUESTED.
* `frees_iff`: the pod is free after the pass exactly when the snapshot claims nothing.
-/

namespace Emosa

open Durable Engine Option Journal

variable {I : Type}

namespace Engine

def deadline (e : Engine) (env : Env I) (op : Operation I) : ℚ :=
  (e.deadlines.get? op.operationId).getD (env.monotonic + max 0 (op.deadlineAt - env.utc))

/-- The operation's deadline has passed, now or at an earlier pass. -/
def due (e : Engine) (env : Env I) (op : Operation I) : Bool :=
  op.deadlineElapsed || decide (deadline e env op ≤ env.monotonic)

/-- The snapshot gives no reason to say that the configuration is applied, or that it was taken
away. -/
def silent (env : Env I) (pod : String) (snap : Snapshot) (target : Record) (op : Operation I) :
    Bool :=
  !snap.observed.fresh ||
  if configMatches snap.config target then !snap.observed.satisfies target
  else remapped env op pod

end Engine

namespace Operation

def marked (op : Operation I) : Operation I :=
  if op.deadlineElapsed then op
  else { op with originalOutcome := some op.state, deadlineElapsed := true }

/-- The record of an operation given up after its deadline. -/
def givenUp (op : Operation I) : Operation I :=
  { op.marked with state := .timedOut, reason := some Reason.applyTimeout.value }

theorem marked_elapsed (op : Operation I) : op.marked.deadlineElapsed = true := by
  unfold marked
  split
  · assumption
  · rfl

theorem marked_same (op : Operation I) :
    op.marked.operationId = op.operationId ∧ op.marked.intent = op.intent ∧
    op.marked.state = op.state ∧ op.marked.plan = op.plan ∧
    op.marked.applicationEvidence = op.applicationEvidence ∧
    op.marked.commitEvidence = op.commitEvidence := by
  unfold marked
  split <;> exact ⟨rfl, rfl, rfl, rfl, rfl, rfl⟩

end Operation

/-- The configuration is in place, and the State, fresh, satisfies it. -/
abbrev InPlace (snap : Snapshot) (target : Record) : Prop :=
  configMatches snap.config target = true ∧ snap.observed.fresh = true ∧
    snap.observed.satisfies target = true

section Pass

variable {p : EngineProc I} {env : Env I} {pod : String} {snap : Snapshot}
variable {target : Record} {op : Operation I}

theorem lapse_due {late : Bool} (hst : op.state = .indeterminate)
    (hdue : (op.deadlineElapsed || late) = true) :
    ∃ changed, lapse late op = .ok ⟨op.marked, changed⟩ := by
  unfold lapse Operation.marked
  cases helapsed : op.deadlineElapsed with
  | true =>
    refine ⟨false, ?_⟩
    split
    · simp [hst]
      rfl
    · rfl
  | false =>
    have hlate : late = true := by simpa [helapsed] using hdue
    refine ⟨true, ?_⟩
    simp [hlate, hst]
    rfl

theorem giveUp_due (changed : Bool) (hst : op.state = .indeterminate) (hready : snap.ready = true)
    (hnot : ¬ InPlace snap target) :
    giveUp snap target ⟨op.marked, changed⟩ = .ok ⟨op.givenUp, true⟩ := by
  have hstate : op.marked.state = .indeterminate := by rw [op.marked_same.2.2.1, hst]
  have hnext : State.timedOut ∈ op.marked.state.next := by rw [hstate]; decide
  have htrans : transition op.marked .timedOut = .ok { op.marked with state := .timedOut } := by
    simp [transition, hnext, op.marked_elapsed]
  unfold giveUp
  rw [if_pos ⟨hready, hstate, op.marked_elapsed, hnot⟩, htrans]
  rfl

/-- The configuration is not the operation's, and nothing but the pod's own change explains it. -/
theorem drifted_givenUp (hstart : writtenOnAnotherStart op snap.start? = false) :
    drifted env pod snap target op.givenUp =
      (!configMatches snap.config target && !Engine.remapped env op pod) := by
  obtain ⟨-, -, -, hplan, hev, hcommit⟩ := op.marked_same
  have hsame : writtenOnAnotherStart op.givenUp snap.start? = false := by
    simp only [Operation.givenUp, hev, hcommit]
    exact hstart
  have hmap : remapped env op.givenUp pod = remapped env op pod := by
    simp only [remapped, Operation.givenUp, hplan]
  have hstate : op.givenUp.state = .timedOut := rfl
  simp [drifted, hsame, hmap, hstate]

theorem noteApplied_state {pass : Pass I} (hst : op.state ≠ .timedOut)
    (h : noteApplied snap op = .ok pass) :
    pass.op.operationId = op.operationId ∧ pass.op.state = .observedApplied := by
  simp only [noteApplied, bind, Except.bind] at h
  split at h
  · cases h
  · rename_i mid hm
    unfold resolved at hm
    rw [if_neg (show (witnessed snap op).state ≠ .timedOut from hst)] at hm
    cases ht : transition (witnessed snap op) .observedApplied
        (evidence snap false) with
    | error e => rw [ht] at hm; cases hm
    | ok mid' =>
      rw [ht] at hm
      cases hm
      obtain ⟨rfl, -, -⟩ := transition_ok ht
      unfold attributed at h
      split at h
      · cases h
      · split at h <;> cases h <;> exact ⟨rfl, rfl⟩

variable [IntentType I]

theorem Operation.givenUp_valid (op : Operation I) : op.givenUp.valid = op.valid := by
  unfold Operation.givenUp Operation.marked
  split <;> rfl

theorem wp_expired_eq {Q : Except Exn Bool → EngineProc I → Prop}
    (h : ∀ p', p'.journal = p.journal → p'.memory.busy = p.memory.busy →
      p'.memory.quiesced = p.memory.quiesced →
      Q (.ok (decide (deadline p.memory env op ≤ env.monotonic))) p') :
    wp (expired env op) Q p := by
  simp only [expired, wp_bind, wp_memory]
  unfold deadline at h
  cases hd : p.memory.deadlines.get? op.operationId with
  | none | some deadline =>
    simp only [hd] at h
    exact h _ rfl rfl rfl

/-- What becomes of the operation. -/
structure GivenUp (env : Env I) (pod : String) (snap : Snapshot) (target : Record)
    (op : Operation I) (p p' : EngineProc I) : Prop where
  freed : Engine.silent env pod snap target op = true →
    p'.journal = p.journal.apply (.save op.givenUp)
  blocked : Engine.silent env pod snap target op = false →
    p'.journal.state? op.operationId ≠ some .timedOut ∨ p'.journal.ownership.get? pod ≠ none
  busy : p'.memory.busy = p.memory.busy
  quiesced : p'.memory.quiesced = p.memory.quiesced

theorem observe_givenUp {Q : Except Exn (Pass I) → EngineProc I → Prop}
    (hstart : writtenOnAnotherStart op snap.start? = false) (hready : snap.ready = true)
    (hnot : ¬ InPlace snap target) :
    wp (observe env pod snap target ⟨op.givenUp, true⟩) Q p ↔
      if silent env pod snap target op then Q (.ok ⟨op.givenUp, true⟩) p
      else Q (.ok ⟨{ op.givenUp with reason := some Reason.ownershipConflict.value }, true⟩)
        (p.commit (.conflict pod
          { operationId := op.operationId
            reason := some "owned configuration changed"
            instanceId := snap.start? })) := by
  have hid : op.givenUp.operationId = op.operationId := op.marked_same.1
  unfold observe silent
  simp only [hready, true_and, drifted_givenUp hstart]
  cases hfresh : snap.observed.fresh with
  | false => simp
  | true =>
    cases hmatch : configMatches snap.config target with
    | true =>
      have hsat : snap.observed.satisfies target = false := by
        simpa [hfresh, hmatch] using hnot
      simp [hsat]
    | false =>
      cases hmap : remapped env op pod with
      | true => simp
      | false =>
        have hstate : op.givenUp.state ≠ .configCommitted := by simp [Operation.givenUp]
        have hreason : op.givenUp.reason ≠ some Reason.ownershipConflict.value := by
          simp only [Operation.givenUp]
          decide
        simp only [claimLost, wp_bind, wp_commit, if_neg hstate, wp_pure, if_neg hreason, hid,
          Bool.not_false, Bool.and_self, if_true, Bool.not_true, Bool.or_self, Bool.false_eq_true,
          if_false]

theorem judge_shown (pass : Pass I) (hid : pass.op.operationId = op.operationId)
    (hst : pass.op.state = .indeterminate)
    (htarget : IntentType.target env.vault pass.op.intent = .ok target)
    (hshown : InPlace snap target) :
    wp (judge env pod snap pass) (fun r p' => p' = p ∧
      ∀ pass', r = .ok pass' → pass'.op.operationId = op.operationId ∧
        pass'.op.state ≠ .timedOut) p := by
  have hgive : giveUp snap target pass = .ok pass := by
    unfold giveUp
    rw [if_neg fun h => h.2.2.2 hshown]
    rfl
  have hdrift : drifted env pod snap target pass.op = false := by
    simp [drifted, hshown.1]
  have hsame : ∀ pass', (.ok pass : Except Exn (Pass I)) = .ok pass' →
      pass'.op.operationId = op.operationId ∧ pass'.op.state ≠ .timedOut := by
    rintro _ ⟨⟩
    exact ⟨hid, by rw [hst]; decide⟩
  unfold judge
  rw [htarget]
  simp only [wp_bind, wp_liftE, hgive]
  unfold observe
  split
  · simp only [hdrift, Bool.false_eq_true, if_false]
    split
    · rw [wp_lift]
      refine ⟨rfl, fun pass' hp => ?_⟩
      obtain ⟨hid', hst'⟩ := noteApplied_state (by rw [hst]; decide) hp
      exact ⟨hid'.trans hid, by rw [hst']; decide⟩
    · exact ⟨rfl, hsame⟩
  · exact ⟨rfl, hsame⟩

theorem follow_gives_up (hvalid : op.valid = true)
    (hget : p.journal.get? op.operationId = some op) (hst : op.state = .indeterminate)
    (hstart : writtenOnAnotherStart op snap.start? = false)
    (hdue : due p.memory env op = true) (hready : snap.ready = true)
    (htarget : IntentType.target env.vault op.intent = .ok target) :
    wp (follow env pod snap op) (fun _ p' => GivenUp env pod snap target op p p') p := by
  obtain ⟨hid, hintent, hstate, -, -, -⟩ := op.marked_same
  simp only [follow, wp_bind]
  rw [wp_settleRestarted hvalid, if_neg (by simp [hstart])]
  simp only [Bool.false_eq_true, if_false, wp_bind]
  refine wp_expired_eq fun p₁ hj hb hq => ?_
  obtain ⟨changed, hlapse⟩ := lapse_due hst hdue
  simp only [wp_liftE, hlapse]
  by_cases hshown : InPlace snap target
  · have hsilent : silent env pod snap target op = false := by
      simp [silent, hshown]
    -- the record that is journaled before and after is not one that timed out
    have hbefore : p.journal.state? op.operationId ≠ some .timedOut := by
      rw [Journal.state?, hget, map_some, hst]
      decide
    have hmarked : op.marked.state = .indeterminate := hstate.trans hst
    refine wp_mono (judge_shown ⟨op.marked, changed⟩ hid hmarked (hintent ▸ htarget) hshown) ?_
    rintro r p₂ ⟨rfl, hpass⟩
    have hloud : ¬ silent env pod snap target op = true := by simp [hsilent]
    have hkeep : GivenUp env pod snap target op p p₂ :=
      ⟨fun hc => absurd hc hloud, fun _ => .inl (by rw [hj]; exact hbefore), hb, hq⟩
    cases r with
    | error x => exact hkeep
    | ok pass =>
      obtain ⟨hpid, hpst⟩ := hpass pass rfl
      simp only
      split
      · rw [wp_save]
        split
        · refine ⟨fun hc => absurd hc hloud, fun _ => .inl ?_, hb, hq⟩
          have hsaved : (p₂.journal.apply (.save pass.op)).get? pass.op.operationId =
              some pass.op := by
            apply get?_save_self
            rw [hpid, hj]
            exact hget
          rw [hpid] at hsaved
          rw [Proc.commit_journal, Journal.state?, show Durable.apply p₂.journal (.save pass.op) =
            p₂.journal.apply (.save pass.op) from rfl, hsaved]
          simpa using hpst
        · exact hkeep
      · exact hkeep
  · have hgive := giveUp_due changed hst hready hshown
    simp only [judge, hintent, htarget, wp_bind, wp_liftE, hgive]
    rw [observe_givenUp hstart hready hshown]
    split
    · rename_i hsilent
      simp only [if_true]
      rw [wp_save, if_pos (op.givenUp_valid.trans hvalid)]
      refine ⟨fun _ => by rw [Proc.commit_journal, hj]; rfl, fun hc => ?_, hb, hq⟩
      rw [hsilent] at hc
      cases hc
    · rename_i hsilent
      have hclaimed : ∀ r : Ownership, (p₁.journal.ownership.set pod r).get? pod ≠ none := by
        simp
      simp only [if_true]
      rw [wp_save]
      split <;> exact ⟨fun hc => absurd hc hsilent, fun _ => .inr (hclaimed _), hb, hq⟩

theorem settleOthers_idle {Q : Except Exn Unit → EngineProc I → Prop}
    {id : String} {current : Option String} {rows : List (Operation I)}
    (hidle : ∀ q ∈ rows, q.podId = pod → q.operationId ≠ id → q.state.active = false)
    (h : Q (.ok ()) p) : wp (settleOthers pod id current rows) Q p := by
  induction rows with
  | nil => exact h
  | cons q rest ih =>
    have hrest := ih fun q' hq' => hidle q' (List.mem_cons_of_mem _ hq')
    simp only [settleOthers]
    split
    · rename_i hmine
      have hactive := hidle q List.mem_cons_self hmine.1 hmine.2
      have hnot : ¬ ((q.state = .configCommitted ∨ q.state = .indeterminate) ∧
          writtenOnAnotherStart q current = true) := by
        rintro ⟨hs | hs, -⟩ <;> rw [hs] at hactive <;> cases hactive
      simp only [settleRestarted, if_neg hnot]
      exact hrest
    · exact hrest

theorem grant_free {r : Request I} (hid : op.operationId = r.operationId)
    (hidle : ∀ q ∈ p.journal.operations, q.podId = r.podId → q.operationId ≠ r.operationId →
      q.state.active = false)
    (hquiet : p.memory.quiesced = false) (hbusy : r.podId ∉ p.memory.busy)
    (hfree : p.journal.ownership.get? r.podId = none) :
    wp (grant r op) (fun _ p' => p' = p) p := by
  have hheld : held p.memory p.journal r.podId op.operationId = false := by
    simp only [held, hquiet, Bool.or_eq_false_iff, List.any_eq_false, decide_eq_true_eq, not_and]
    refine ⟨by simpa using hbusy, fun q hq hpod hact hne => ?_⟩
    rw [hidle q hq hpod (hid ▸ hne)] at hact
    cases hact
  simp only [grant, wp_bind, wp_memory, wp_journal]
  refine settleOthers_idle (fun q hq hpod hne => hidle q hq hpod (hid ▸ hne)) ?_
  simp only [hheld, Bool.false_eq_true, if_false, wp_bind]
  rw [wp_owned, hfree]
  rfl

/-- The pod takes requests: nothing holds it, and no conflict is recorded for it. -/
structure Open (pod : String) (e : Engine) (j : Journal I) : Prop where
  idle : ∀ q ∈ j.operations, q.podId = pod → q.state.active = false
  quiet : e.quiesced = false
  busy : pod ∉ e.busy
  free : j.ownership.get? pod = none

theorem requestInternal_open {r : Request I} (hopen : Open r.podId p.memory p.journal)
    (hnone : p.journal.get? r.operationId = none) :
    wp (requestInternal env r) (fun _ p' => p'.written = p.written ∨
      p'.journal.state? r.operationId = some .requested) p := by
  refine wp_requestInternal (fun _ => .inl rfl) fun fingerprint hvalid => ?_
  have hget := get?_requested env hnone fingerprint
  refine wp_mono (grant_free rfl (fun q hq hpod hne => ?_) hopen.quiet hopen.busy hopen.free) ?_
  · cases mem_add hq with
    | inl hm => exact hopen.idle q hm hpod
    | inr he => exact absurd (congrArg Operation.operationId he) hne
  · rintro _ _ rfl
    exact .inr (congrArg (Option.map Operation.state) hget)

end Pass

namespace World

variable [IntentType I] {w : World I} {env : Env I} {pod : String} {snap : Snapshot} {target : Record}
variable {op : Operation I}

/-- Every request for the pod that is journaled at all is journaled REQUESTED. -/
def Accepts (w : World I) (pod : String) : Prop :=
  ∀ env (r : Engine.Request I), r.podId = pod → w.enabled (.request r) = true →
    w.writes env (.request r) ≠ [] →
    (w.step (.call env (.request r))).journal.state? r.operationId = some .requested

theorem accepts_of_open (hw : Inv w) (h : Open pod w.engine w.journal) : w.Accepts pod := by
  rintro env r rfl hen hwrites
  have hnone := hw.sound.get?_fresh (fresh_of_enabled hen)
  have hout : (w.outcome env (.request r)).1.written = [] ∨
      (w.outcome env (.request r)).1.journal.state? r.operationId = some .requested := by
    refine call_of_wp (Q := fun _ p => p.written = [] ∨
      p.journal.state? r.operationId = some .requested) ?_
    simp only [body, wp_bind]
    refine wp_mono (requestInternal_open h hnone) ?_
    rintro (x | op) p hp <;> exact hp
  rw [writes, if_pos hen] at hwrites
  rw [step, call, if_pos hen]
  exact hout.resolve_left hwrites

/-- The pod's latest write has an unknown outcome, and the pod is otherwise free. -/
structure Unknown (w : World I) (pod : String) (op : Operation I) : Prop where
  up : w.up = true
  backend : pod ∈ w.engine.backends
  latest : Engine.target? pod w.journal.operations = some op
  state : op.state = .indeterminate
  quiet : w.engine.quiesced = false
  busy : pod ∉ w.engine.busy
  free : w.journal.ownership.get? pod = none

variable (h : w.Unknown pod op) (hdue : due w.engine env op = true) (hready : snap.ready = true)
variable (hstart : writtenOnAnotherStart op snap.start? = false)
variable (htarget : IntentType.target env.vault op.intent = .ok target)
include h hdue hready hstart htarget

theorem reconcile_gives_up (hw : Inv w) :
    GivenUp env pod snap target op ⟨w.engine, w.journal, []⟩
      (w.outcome env (.reconcile pod (.ok snap))).1 := by
  obtain ⟨hlatest, -⟩ := filter_eq_some_iff.mp h.latest
  have hmem := (latest_mem hlatest).1
  refine call_of_wp (Q := fun _ p => GivenUp env pod snap target op ⟨w.engine, w.journal, []⟩ p) ?_
  simp only [body, wp_bind, reconcile, wp_memory, h.backend, not_true_eq_false, if_false,
    wp_lift]
  refine wp_see fun instances => ?_
  simp only [wp_journal, reconcileFrom_eq, h.latest]
  refine wp_mono (follow_gives_up (hw.sound.valid op hmem) (hw.sound.get? hmem) h.state hstart hdue
    hready htarget) ?_
  rintro (x | _) p ⟨hfreed, hblocked, hb, hq⟩ <;> exact ⟨hfreed, hblocked, hb, hq⟩

/-- After the pass that gives the operation up the pod is free exactly when the snapshot claims
nothing. -/
theorem frees_iff (hw : Inv w ∧ OneOf (fun _ => True) w.journal) :
    ((w.step (.call env (.reconcile pod (.ok snap)))).journal.state? op.operationId =
        some .timedOut ∧
      (w.step (.call env (.reconcile pod (.ok snap)))).journal.ownership.get? pod = none ∧
      (w.step (.call env (.reconcile pod (.ok snap)))).Accepts pod) ↔
    silent env pod snap target op = true := by
  have hgive := reconcile_gives_up h hdue hready hstart htarget hw.1
  have hinv := inv_step w (.call env (.reconcile pod (.ok snap))) hw.1
  have hstep : (w.step (.call env (.reconcile pod (.ok snap)))).journal =
        (w.outcome env (.reconcile pod (.ok snap))).1.journal ∧
      (w.step (.call env (.reconcile pod (.ok snap)))).engine =
        (w.outcome env (.reconcile pod (.ok snap))).1.memory := by
    rw [step, call, if_pos (show w.enabled (.reconcile pod (.ok snap)) = true from h.up)]
    exact ⟨rfl, rfl⟩
  generalize w.step (.call env (.reconcile pod (.ok snap))) = w' at hinv hstep ⊢
  obtain ⟨hjournal, hengine⟩ := hstep
  constructor
  · rintro ⟨hstate, hnone, -⟩
    cases hs : silent env pod snap target op with
    | true => rfl
    | false =>
      rw [hjournal] at hstate hnone
      exact ((hgive.blocked hs).elim (fun hc => hc hstate) (fun hc => hc hnone)).elim
  · intro hs
    obtain ⟨hlatest, -⟩ := filter_eq_some_iff.mp h.latest
    obtain ⟨hmem, hsent⟩ := latest_mem hlatest
    have hpod : op.podId = pod := by
      simp only [Operation.sentIn, decide_eq_true_eq] at hsent
      exact hsent.1
    have hid : op.givenUp.operationId = op.operationId := op.marked_same.1
    have hsaved : w'.journal = w.journal.apply (.save op.givenUp) := by
      rw [hjournal, hgive.freed hs]
    have hget : w'.journal.get? op.operationId = some op.givenUp := by
      rw [hsaved, ← hid]
      exact get?_save_self (hid.symm ▸ hw.1.sound.get? hmem)
    have hfree : w'.journal.ownership.get? pod = none := by
      rw [hsaved]
      exact h.free
    refine ⟨by rw [Journal.state?, hget]; rfl, hfree, accepts_of_open hinv ⟨?_, ?_, ?_, hfree⟩⟩
    · -- any other active operation of the pod would have held it beside this one
      intro q hq hqpod
      rw [hsaved] at hq
      rcases mem_written_save_ne holdsRows hq with rfl | ⟨hm, hqid⟩
      · rfl
      · have hop : op.state.active = true := by rw [h.state]; rfl
        refine Bool.eq_false_of_not_eq_true fun hact => hqid (hid ▸ ?_)
        exact hw.2 q hm op hmem trivial trivial (hqpod.trans hpod.symm) hact hop
    · rw [hengine, hgive.quiesced]
      exact h.quiet
    · rw [hengine, hgive.busy]
      exact h.busy

end World
end Emosa
