import Emosa.C.Timeout
import Emosa.Engine.Release

/-!
# Emosa.C.Release

The ownership period of a start, in C. The record of a conflict has the same two origins as in the
other engine, and a request drops it under the same condition.

* `Acts`: the process keeps its pod, and what it writes satisfies a predicate. `grant_acts` and
  `execute_acts` say it of requests and executions.
* `step_writes`: which conflicts each call may record.
* `blocked_on_new_start`: the record of a refused submission still blocks the pod on the next start.
-/

namespace Emosa.C

open Durable Engine Sample Option Journal

variable {I : Type} [IntentType I] {p : Process I} {op : Operation I}
variable {P : String → Ownership → Prop}

/-- Between the two, the process recorded no conflicts but those that `P` allows. -/
abbrev Recorded (P : String → Ownership → Prop) (p p' : Process I) : Prop := Wrote (Recording P) p p'

/-- What a call may record of a pod's ownership. -/
def EmCall.records (p : Process I) : EmCall I → String → Ownership → Prop
  | .execute _ _ answers, pod, record =>
    answers.submit.status = .conflict ∧ pod = p.memory.podId ∧ record.instanceId = none
  | .reconcile _ (some snap), pod, record =>
    pod = p.memory.podId ∧ record.instanceId = snap.instanceId
  | _, _, _ => False

/-! ## What a call does -/

/-- From `p` to `p'` the process keeps its pod, and its writes satisfy `P`. -/
structure Acts (P : Write I → Prop) (p p' : Process I) : Prop where
  wrote : Wrote P p p'
  pod : p'.memory.podId = p.memory.podId

section Acts

variable {known : Record → Prop} {op₀ : Operation I} {p₁ p₂ : Process I}

namespace Acts

variable {P : Write I → Prop}

theorem refl : Acts P p p := ⟨.refl, rfl⟩

theorem of_eq (hj : p₁.journal = p.journal) (hpod : p₁.memory.podId = p.memory.podId) :
    Acts P p p₁ := ⟨.of_eq hj, hpod⟩

theorem of_recalls (h : Recalls p p₁) : Acts P p p₁ := by
  obtain ⟨e, rfl, hpod, -⟩ := h
  exact .of_eq rfl hpod

theorem commit {w : Write I} (h : P w) : Acts P p (p.commit w) := ⟨.commit h, rfl⟩

theorem trans (h : Acts P p p₁) (h' : Acts P p₁ p₂) : Acts P p p₂ :=
  ⟨h.wrote.trans h'.wrote, h'.pod.trans h.pod⟩

theorem mono {P' : Write I → Prop} (h : Acts P p p₁) (hP : ∀ w, P w → P' w) : Acts P' p p₁ := by
  obtain ⟨⟨ws, hws, hall⟩, hpod⟩ := h
  exact ⟨⟨ws, hws, fun w hw => hP w (hall w hw)⟩, hpod⟩

theorem save (h : op.valid = true → P (.save op)) : Acts P p (emEngineSave op p) := by
  unfold emEngineSave
  split
  · rename_i hvalid
    exact .commit (h hvalid)
  · exact .refl

end Acts

omit [IntentType I] in
theorem stays_moved (h : Stays known op₀ op) (target : State) (evidence : Record) :
    Stays known op₀ (moved op target evidence) := by
  rcases moved_cases op target evidence with he | he <;> rw [he]
  · exact h
  · exact h.congr rfl rfl

omit [IntentType I] in
theorem stays_refused (h : Stays known op₀ op) {answer : SubmitAnswer}
    (hknown : known answer.evidence) : Stays known op₀ (refused op answer) := by
  unfold refused
  split
  · exact h.learn rfl hknown
  · exact h

theorem setBusy_acts (busy : Bool) (p : Process I) : Acts (Within known op₀ P) p (setBusy busy p) :=
  .of_eq rfl rfl

theorem save_acts (h : Stays known op₀ op) : Acts (Within known op₀ P) p (emEngineSave op p) :=
  .save fun _ => ⟨h, trivial⟩

theorem reject_acts (h : Stays known op₀ op) (reason : Reason) :
    Acts (Within known op₀ P) p (reject op reason p).2 ∧ Stays known op₀ (reject op reason p).1 := by
  have hnew : Stays known op₀ (because (moved op .rejected) reason) :=
    (stays_moved h .rejected ∅).congr rfl rfl
  exact ⟨save_acts hnew, hnew⟩

theorem currentOwnership_acts (p : Process I) :
    Acts (Within known op₀ P) p (currentOwnership p).2 := by
  unfold currentOwnership
  split
  · exact .refl
  · split
    · exact .commit ⟨trivial, trivial⟩
    · exact .refl

theorem settleOthers_acts {rows : List (Operation I)} (active : Bool) :
    Acts (fun w => Working known rows op w ∧ Recording P w) p
      (settleOthers op.operationId active rows p).2 := by
  refine settleOthers_rule (fun q hq hne p' _ hp' => hp'.trans ?_) .refl active
  refine .save fun _ => ⟨.inr ⟨rfl, q, hq, hne, ?_⟩, trivial⟩
  exact (Stays.refl q).congr rfl rfl

theorem grant_acts (op : Operation I) (p : Process I) :
    Acts (fun w => Working known p.journal.operations op w ∧ Recording P w) p (grant op p).2 ∧
      Stays known op (grant op p).1 := by
  have hself : Stays known op op := .refl op
  have hworking : ∀ w, Within known op P w →
      Working known p.journal.operations op w ∧ Recording P w :=
    fun _ h => ⟨SavesOf.working h.1 _, h.2⟩
  have hsettled : Acts (fun w => Working known p.journal.operations op w ∧ Recording P w) p
      (settleOthers op.operationId p.memory.busy p.journal.operations p).2 := settleOthers_acts _
  unfold grant
  split
  · rename_i p₁ he
    rw [he] at hsettled
    obtain ⟨hacts, hstays⟩ := reject_acts hself .busy
    exact ⟨hsettled.trans (hacts.mono hworking), hstays⟩
  · rename_i p₁ he
    rw [he] at hsettled
    have hown := (currentOwnership_acts p₁).mono hworking
    split
    · rename_i record p₂ ho
      rw [ho] at hown
      obtain ⟨hacts, hstays⟩ := reject_acts hself .ownershipConflict
      exact ⟨(hsettled.trans hown).trans (hacts.mono hworking), hstays⟩
    · rename_i p₂ ho
      rw [ho] at hown
      exact ⟨hsettled.trans hown, hself⟩

theorem outcome_acts (h : Stays known op₀ op) {answer : SubmitAnswer}
    (hknown : known answer.evidence)
    (hP : answer.status = .conflict → ∀ record, record.instanceId = none →
      P p.memory.podId record) :
    Acts (Within known op₀ P) p (outcome op answer p).2 ∧
      Stays known op₀ (outcome op answer p).1 := by
  unfold outcome
  split
  · split
    · rename_i new hnew
      obtain rfl := transition_some hnew
      exact ⟨.refl, h.learn rfl hknown⟩
    · exact ⟨.refl, h⟩
  · rename_i hstatus
    refine ⟨.commit ⟨trivial, hP hstatus _ rfl⟩, stays_refused ?_ hknown⟩
    exact (stays_moved h .ownershipConflict ∅).congr rfl rfl
  · refine ⟨.refl, stays_refused ?_ hknown⟩
    exact (stays_moved h .failed ∅).congr rfl rfl
  · exact ⟨.refl, (stays_moved h .indeterminate ∅).congr rfl rfl⟩

variable {answers : Answers} (hunknown : known unknownAttribution)
  (hknown : known answers.submit.evidence) (env : EmEnv I)
  (hP : answers.submit.status = .conflict → ∀ record, record.instanceId = none →
    P p.memory.podId record)
include hunknown hknown hP

theorem submitting_acts (h : Stays known op₀ op) (snap : Snapshot) :
    Acts (Within known op₀ P) p (submitting env op answers snap p).2 := by
  unfold submitting
  split
  · exact (reject_acts h _).1
  · split
    · exact save_acts ((stays_moved h .observedApplied (emEngineEvidence snap true)).congr rfl rfl)
    · have hprepared : Stays known op₀ (prepared op answers snap) := by
        have hattempt : Stays known op₀ { op with attempts := op.attempts ++
            [⟨answers.attemptId, answers.transactionId, snap.generation⟩] } := h.congr rfl rfl
        exact (stays_moved hattempt .submitted ∅).learn rfl hunknown
      obtain ⟨hacts, hstays⟩ := outcome_acts (p := emEngineSave (prepared op answers snap) p)
        hprepared hknown (by rwa [emEngineSave_memory])
      exact ((save_acts hprepared).trans hacts).trans (save_acts hstays)

/-- An execution saves records of its operation, and records a conflict where the pod answers the
submission with one. -/
theorem execute_acts {id : String} (hop : p.journal.get? id = some op) :
    Acts (Within known op P) p (emEngineExecute env id answers p).2 := by
  have hself : Stays known op op := .refl op
  unfold emEngineExecute
  rw [hop]
  simp only
  split
  · exact .refl
  have hval : Acts (Within known op P) p (validate op answers (setBusy true p)).2 :=
    (setBusy_acts true p).trans (.of_recalls (validate_recalls op answers _))
  split
  · rename_i why p₁ he
    rw [he] at hval
    exact (hval.trans (reject_acts hself why).1).trans (setBusy_acts false _)
  · rename_i plan snap p₁ he
    rw [he] at hval
    have hvalidated : Stays known op (validated op plan snap) := by
      refine stays_moved ?_ .validated ∅
      exact hself.congr rfl rfl
    exact ((hval.trans (save_acts hvalidated)).trans
      (submitting_acts hunknown hknown env (by rwa [emEngineSave_memory, hval.pod]) hvalidated
        snap)).trans (setBusy_acts false _)

end Acts

/-! ## Where conflicts are recorded -/

theorem save_writes (op : Operation I) : Recorded P p (emEngineSave op p) := by
  unfold emEngineSave
  split
  · exact .commit trivial
  · exact .refl

section

variable (env : EmEnv I)

theorem request_writes (r : Engine.Request I) (p : Process I) :
    Recorded P p (emEngineRequest env r p).2 := by
  rcases request_cases env r p with he | ⟨op, -, -, -, -, -, he⟩ <;> rw [he]
  · exact .refl
  · have hgrant : Acts (fun w => Working (fun _ => True) _ op w ∧ Recording P w) (journaled env r op p)
        (grant op (journaled env r op p)).2 := (grant_acts op _).1
    exact ((Wrote.commit trivial).trans (.of_eq rfl)).trans (hgrant.mono fun _ h => h.2).wrote

theorem execute_writes (id : String) (answers : Answers)
    (h : answers.submit.status = .conflict → ∀ record, record.instanceId = none →
      P p.memory.podId record) : Recorded P p (emEngineExecute env id answers p).2 := by
  cases hop : p.journal.get? id with
  | none =>
    unfold emEngineExecute
    rw [hop]
    exact .refl
  | some op =>
    have hacts : Acts (Within (fun _ => True) op P) p (emEngineExecute env id answers p).2 :=
      execute_acts trivial trivial env h hop
    exact (hacts.mono fun _ h => h.2).wrote

theorem cancel_writes (id : String) : Recorded P p (emEngineCancel id p) := by
  unfold emEngineCancel
  split
  · exact save_writes _
  · exact .refl

theorem recoverFrom_writes (rows : List (Operation I)) : Recorded P p (recoverFrom rows p) := by
  induction rows generalizing p with
  | nil => exact .refl
  | cons op rest ih =>
    unfold recoverFrom
    split
    · exact (save_writes _).trans ih
    · exact ih

variable (snap : Snapshot)
  (h : ∀ record, record.instanceId = snap.instanceId → P p.memory.podId record)
include h

theorem claimLost_writes (pass : Engine.Pass I) : Recorded P p (claimLost snap pass p).2 := by
  have hcommit : Recorded P p (p.commit (.conflict p.memory.podId
      { operationId := pass.op.operationId
        reason := some "owned configuration changed"
        instanceId := snap.instanceId })) := by
    refine .commit ?_
    exact h _ rfl
  unfold claimLost
  dsimp only
  generalize (if pass.op.state = .configCommitted then moved pass.op .ownershipConflict
    else pass.op) = op
  split <;> exact hcommit

theorem judge_writes (pass : Engine.Pass I) : Recorded P p (judge env snap pass p).2 := by
  unfold judge
  split
  · split <;> exact .refl
  · unfold observe
    split
    · split
      · exact claimLost_writes snap h _
      · split <;> exact .refl
    · exact .refl

theorem follow_writes (op : Operation I) : Recorded P p (follow env snap op p) := by
  unfold follow
  split
  · rename_i q p' hs
    obtain rfl := settleRestarted_some hs
    exact save_writes _
  · obtain ⟨e, he, hpod, -⟩ := expired_recalls env op p
    generalize emEngineExpired env op p = out at he
    obtain ⟨late, p₁⟩ := out
    obtain rfl := he
    have hjudge := judge_writes (p := { p with memory := e }) env snap
      (fun record hr => hpod ▸ h record hr) (lapse late op)
    have hall := (Wrote.of_eq rfl : Recorded P p { p with memory := e }).trans hjudge
    simp only
    split
    · exact hall.trans (save_writes _)
    · exact hall

theorem reconcile_writes : Recorded P p (emEngineReconcile env (some snap) p) := by
  obtain ⟨e, he, hpod, -⟩ := rememberInstance_recalls snap p
  simp only [emEngineReconcile, he]
  have hseen : Recorded P p { p with memory := e } := .of_eq rfl
  split
  · exact hseen.trans (follow_writes env snap (fun record hr => hpod ▸ h record hr) _)
  · exact hseen

end

theorem step_writes (p : Process I) (call : EmCall I) :
    Recorded (call.records p) p (emStep p call) := by
  cases call with
  | request env r =>
    simp only [emStep]
    split
    · exact .refl
    · exact request_writes env r p
  | execute env id answers => exact execute_writes env id answers fun hs _ hr => ⟨hs, rfl, hr⟩
  | reconcile env reply =>
    cases reply with
    | none => exact .refl
    | some snap => exact reconcile_writes env snap fun _ hr => ⟨rfl, hr⟩
  | cancel id => exact cancel_writes id
  | recover => exact recoverFrom_writes _
  | restart | guard | remap => exact .of_eq rfl

/-! ## Runs without refused submissions -/

def EmCall.Named : EmCall I → Prop
  | .reconcile _ (some snap) => snap.start? ≠ none
  | .execute _ _ answers => ∀ snap, answers.snapshot = some snap → snap.start? ≠ none
  | _ => True

/-- The call is not an execution that the pod refuses as a conflict. -/
def EmCall.Unrefused : EmCall I → Prop
  | .execute _ _ answers => answers.submit.status ≠ .conflict
  | _ => True

/-- Every ID in the journal was issued, and every recorded conflict names the start it was seen
on. -/
structure Dated (j : EmJournal I) : Prop where
  issued : ∀ op ∈ j.operations, op.operationId ∈ j.issued
  named : ∀ pod record, j.ownership.get? pod = some record →
    ∃ start, start ≠ "" ∧ record.instanceId = some start

theorem start_named {snap : Snapshot} (h : snap.start? ≠ none) :
    ∃ start, start ≠ "" ∧ snap.instanceId = some start := by
  obtain ⟨start, hstart⟩ := ne_none_iff_exists'.mp h
  obtain ⟨hinst, hne⟩ := filter_eq_some_iff.mp hstart
  exact ⟨start, by simpa using hne, hinst⟩

omit [IntentType I] in
theorem records_named {call : EmCall I} {pod : String} {record : Ownership} (hnamed : call.Named)
    (hun : call.Unrefused) (h : call.records p pod record) :
    ∃ env snap, call = .reconcile env (some snap) ∧ pod = p.memory.podId ∧ snap.start? ≠ none ∧
      record.instanceId = snap.instanceId := by
  unfold EmCall.records at h
  split at h
  · exact absurd h.1 hun
  · rename_i env snap
    exact ⟨env, snap, rfl, h.1, hnamed, h.2⟩
  · exact h.elim

theorem Dated.write {j : EmJournal I} (h : Dated j) {w : Write I}
    (hw : Recording (fun _ record => ∃ start, start ≠ "" ∧ record.instanceId = some start) w) :
    Dated (apply j w) := by
  refine ⟨fun op hop => ?_, fun pod record hrec => ?_⟩
  · cases w with
    | add new receipt =>
      rcases mem_written_add hop with hm | rfl
      · exact List.mem_cons_of_mem _ (h.issued op hm)
      · exact List.mem_cons_self
    | save new =>
      rcases mem_written_save emJournalHoldsRows hop with hm | ⟨rfl, old, hold, hid⟩
      · exact h.issued op hm
      · exact hid ▸ h.issued old hold
    | conflict | release => exact h.issued op hop
  · rcases ownership_written emJournalHoldsRows hrec with hold | rfl
    · exact h.named pod record hold
    · exact hw

theorem dated_step (call : EmCall I) (h : Dated p.journal) (hok : call.Named ∧ call.Unrefused) :
    Dated (emStep p call).journal := by
  refine (step_writes p call).preserves (fun j w hw hj => hj.write ?_) h
  cases w with
  | conflict pod record =>
    obtain ⟨env, snap, -, -, hsome, hrec⟩ := records_named hok.1 hok.2 hw
    obtain ⟨start, hne, hstart⟩ := start_named hsome
    exact ⟨start, hne, hrec.trans hstart⟩
  | add | save | release => trivial

theorem dated_run {pod processId : String} {calls : List (EmCall I)}
    (h : Meets emStep (fun _ call => call.Named ∧ call.Unrefused) (emInit pod processId) calls) :
    Dated (emRun (emInit pod processId) calls).journal := by
  have hinit : Dated (emInit pod processId : Process I).journal :=
    ⟨by simp [emInit], fun pod record h => by simp [emInit] at h⟩
  exact runs_invariant (P := fun p => Dated p.journal) (fun _ call hp hok => dated_step call hp hok) h
    hinit

/-! ## Requests -/

theorem settleOthers_get? (id : String) (active : Bool) (rows : List (Operation I)) :
    (settleOthers id active rows p).2.journal.get? id = p.journal.get? id ∧
      (settleOthers id active rows p).2.memory = p.memory ∧
      (settleOthers id active rows p).2.journal.ownership = p.journal.ownership := by
  refine settleOthers_rule (Q := fun p' => p'.journal.get? id = p.journal.get? id ∧
    p'.memory = p.memory ∧ p'.journal.ownership = p.journal.ownership)
    (fun q _ hne p' _ hp' => ?_) ⟨rfl, rfl, rfl⟩ active
  refine ⟨Eq.trans ?_ hp'.1, (emEngineSave_memory _ _).trans hp'.2.1,
    (emEngineSave_ownership _ _).trans hp'.2.2⟩
  unfold emEngineSave
  split
  · exact get?_save_ne p'.journal.toJournal (Ne.symm hne)
  · rfl

def Outdated (p : Process I) : Prop :=
  p.memory.lastInstance ≠ "" ∧ ∀ record, p.journal.ownership.get? p.memory.podId = some record →
    ∃ start, record.instanceId = some start ∧ start ≠ p.memory.lastInstance

theorem currentOwnership_outdated (h : Outdated p) :
    (currentOwnership p).1 = none ∧
      (currentOwnership p).2.journal.operations = p.journal.operations := by
  unfold currentOwnership
  split
  · exact ⟨rfl, rfl⟩
  · rename_i record hrec
    obtain ⟨start, hstart, hne⟩ := h.2 record hrec
    rw [if_pos ⟨h.1, by simp [hstart, hne]⟩]
    exact ⟨rfl, rfl⟩

theorem grant_outdated (h : Outdated p) (hget : p.journal.get? op.operationId = some op)
    (hvalid : op.valid = true) (hst : op.state = .requested) (hreason : op.reason = none) :
    NotClaimed op.operationId (grant op p).2.journal.toJournal := by
  have hsettled := settleOthers_get? (p := p) op.operationId p.memory.busy p.journal.operations
  unfold grant
  generalize settleOthers op.operationId p.memory.busy p.journal.operations p = out at hsettled ⊢
  obtain ⟨active, p₁⟩ := out
  obtain ⟨hget₁, hmem, hown⟩ := hsettled
  rw [hget] at hget₁
  cases active with
  | true =>
    intro op' hop'
    have hmoved := moved_requested hst .rejected (by decide)
    have hsaved : (emEngineSave (because (moved op .rejected) .busy) p₁).journal.get?
        op.operationId = some (because { op with state := .rejected } .busy) := by
      rw [hmoved, emEngineSave, if_pos (by exact hvalid)]
      exact get?_save_self hget₁
    rw [← some.inj (hsaved.symm.trans hop')]
    simp only [because]
    decide
  | false =>
    have hout₁ : Outdated p₁ := by
      unfold Outdated
      rw [hmem, hown]
      exact h
    have hfree := currentOwnership_outdated hout₁
    simp only
    generalize currentOwnership p₁ = out at hfree ⊢
    obtain ⟨record, p₂⟩ := out
    obtain ⟨rfl, hops⟩ := hfree
    intro op' hop'
    have hkept : p₂.journal.get? op.operationId = some op := by
      rw [← hget₁]
      exact congrArg (List.find? fun q : Operation I => q.operationId = op.operationId) hops
    rw [← some.inj (hkept.symm.trans hop'), hreason]
    simp

theorem request_outdated (h : Outdated p) (hissued : ∀ op ∈ p.journal.operations,
      op.operationId ∈ p.journal.issued) (env : EmEnv I) (r : Engine.Request I)
    (hfresh : p.journal.issued.contains r.operationId = false) :
    NotClaimed r.operationId (emEngineRequest env r p).2.journal.toJournal := by
  have hnone : p.journal.get? r.operationId = none :=
    get?_fresh hissued (by simpa using hfresh)
  have hsame : NotClaimed r.operationId p.journal.toJournal := fun op hop => by
    rw [hnone] at hop
    cases hop
  rcases request_cases env r p with he | ⟨op, hid, -, hst, hreason, hvalid, he⟩ <;> rw [he]
  · exact hsame
  have hget : (p.journal.toJournal.written emJournalHoldsRows (.add op r.wscReceipt)).get?
      op.operationId = some op := get?_written_add _ r.wscReceipt (hid.symm ▸ hnone)
  obtain ⟨hpod, -, -, hlast⟩ := setTimer_keeps p.memory op.operationId (env.monotonic + r.deadline)
  rw [← hid]
  refine grant_outdated ?_ hget hvalid hst hreason
  unfold Outdated journaled
  rw [hpod, hlast]
  exact h

/-- No request is rejected because the pod's ownership is in conflict. -/
def Unrejecting (p : Process I) : Prop :=
  ∀ env (r : Engine.Request I), p.journal.issued.contains r.operationId = false →
    NotClaimed r.operationId (emStep p (.request env r)).journal.toJournal

theorem Dated.unrejecting (h : Dated p.journal) {record : Ownership}
    (hrec : p.journal.ownership.get? p.memory.podId = some record)
    (hcur : p.memory.lastInstance ≠ "") (hne : record.instanceId ≠ some p.memory.lastInstance) :
    Unrejecting p := by
  intro env r hfresh
  have hout : Outdated p := by
    refine ⟨hcur, fun record' hrec' => ?_⟩
    obtain rfl := some.inj (hrec.symm.trans hrec')
    obtain ⟨start, -, hstart⟩ := h.named _ _ hrec
    exact ⟨start, hstart, fun he => hne (he ▸ hstart)⟩
  rw [emStep, hfresh]
  exact request_outdated hout h.issued env r hfresh

theorem recorded_by {call : EmCall I} {pod : String} {record : Ownership} (hnamed : call.Named)
    (hun : call.Unrefused) (h : (emStep p call).journal.ownership.get? pod = some record) :
    p.journal.ownership.get? pod = some record ∨
      ∃ env snap, call = .reconcile env (some snap) ∧ snap.start? ≠ none ∧
        record.instanceId = snap.instanceId := by
  have hall := (step_writes p call).preserves
    (Q := fun j => j.ownership.get? pod = some record → p.journal.ownership.get? pod = some record ∨
      call.records p pod record) (fun j w hw hj hrec => ?_) .inl
  · refine (hall h).imp_right fun hr => ?_
    obtain ⟨env, snap, he, -, hsome, hrec⟩ := records_named hnamed hun hr
    exact ⟨env, snap, he, hsome, hrec⟩
  · rcases ownership_written emJournalHoldsRows hrec with hold | rfl
    · exact hj hold
    · exact .inr hw

/-- In every run of an engine whose snapshots name their start and in which no submission is refused
as a conflict: a conflict is only ever recorded by a pass, under the start its snapshot names; and
once the engine knows another start than the recorded one, no request for the pod is rejected over
the record. -/
theorem conflict_released_on_new_start :
    (∀ (s : Setup) (as : List (Action I)) (a : Action I),
      Meets World.step (fun _ a => a.made.Named ∧ a.made.Unrefused) (World.init s) (as ++ [a]) →
        (∀ m ∈ ((World.init s).run as).moments a, ∀ pod record,
          m.ownership.get? pod = some record →
          ((World.init s).run as).journal.ownership.get? pod = some record ∨
          ∃ snap, a.made = .reconcile pod (.ok snap) ∧ record.instanceId = snap.start? ∧
            snap.start? ≠ none) ∧
        ∀ pod record current,
          ((World.init s).run as).journal.ownership.get? pod = some record →
          ((World.init s).run as).engine.instances.get? pod = some current →
          record.instanceId ≠ some current → ((World.init s).run as).Unrejecting pod) ∧
    ∀ (pod processId : String) (calls : List (EmCall I)) (call : EmCall I),
      Meets emStep (fun _ call => call.Named ∧ call.Unrefused) (emInit pod processId)
          (calls ++ [call]) →
        (∀ pod' record,
          (emStep (emRun (emInit pod processId) calls) call).journal.ownership.get? pod' =
            some record →
          (emRun (emInit pod processId) calls).journal.ownership.get? pod' = some record ∨
          ∃ env snap, call = .reconcile env (some snap) ∧ snap.start? ≠ none ∧
            record.instanceId = snap.instanceId) ∧
        ∀ record current,
          (emRun (emInit pod processId) calls).journal.ownership.get?
            (emRun (emInit pod processId) calls).memory.podId = some record →
          (emRun (emInit pod processId) calls).memory.lastInstance = current → current ≠ "" →
          record.instanceId ≠ some current → Unrejecting (emRun (emInit pod processId) calls) := by
  refine ⟨fun s as a h => ?_, fun pod processId calls call h => ?_⟩
  · obtain ⟨has, ha, -⟩ := (meets_append _ as [a]).mp h
    obtain ⟨hinv, hdated⟩ := World.dated_run has
    refine ⟨fun m hm pod record hrec => ?_, fun pod record current hrec hcur hne => ?_⟩
    · exact (World.recorded_by hm hrec).imp_right (World.records_named ha.1 ha.2)
    · exact World.request_outdated hinv (hdated.outdated hrec hcur hne)
  · obtain ⟨hcalls, hcall, -⟩ := (meets_append _ calls [call]).mp h
    have hdated := dated_run hcalls
    refine ⟨fun pod' record hrec => recorded_by hcall.1 hcall.2 hrec, ?_⟩
    intro record current hrec hcur hsome hne
    subst hcur
    exact hdated.unrejecting hrec hsome hne

def lostRecord : Ownership :=
  { operationId := "a", reason := some "owned configuration changed", instanceId := some "one" }

theorem lost_configuration_released :
    ((World.init setup).run lostThenStarted).Unrejecting "pod" ∧
    Unrejecting (emRun (emInit "pod" "process") emLostThenStarted) := by
  have hnamed : bare.start? ≠ none ∧ configured.start? ≠ none ∧
      startedAgain.start? ≠ none := by decide
  refine ⟨?_, ?_⟩
  · have hrun := conflict_released_on_new_start.1 setup lostThenStarted
      (.call (env 0) (.request (request "b" "second")))
      ⟨⟨trivial, trivial⟩, ⟨trivial, trivial⟩, ⟨trivial, trivial⟩, ⟨hnamed.2.1, trivial⟩,
        ⟨hnamed.1, trivial⟩, ⟨hnamed.2.2, trivial⟩, ⟨trivial, trivial⟩, trivial⟩
    exact hrun.2 "pod" lostRecord "two" (by decide +kernel) (by decide +kernel) (by decide)
  · have hconfigured : ∀ snap, (answers configured).snapshot = some snap →
        snap.start? ≠ none := fun snap he => some.inj he ▸ hnamed.2.1
    have hunknown : (answers configured).submit.status ≠ .conflict := by decide
    have hrun := (conflict_released_on_new_start (I := Intent)).2 "pod" "process" emLostThenStarted
      (.request (emEnv 0) (request "b" "second"))
      ⟨⟨trivial, trivial⟩, ⟨hconfigured, hunknown⟩, ⟨hnamed.1, trivial⟩, ⟨hnamed.2.2, trivial⟩,
        ⟨trivial, trivial⟩, trivial⟩
    exact hrun.2 lostRecord "two" (by decide +kernel) (by decide +kernel) (by decide) (by decide)

/-- The only write of the pod is refused as a conflict; then the pod starts again, a pass sees the
new start, and another request is made. -/
def refusedThenStarted : List (Action Intent) :=
  executed "a" "first" bare ++
    [.call (env 0) (.resume 0 (.submit (.ok { status := .conflict, evidence := ∅ }))
      draw),
    .call (env 0) (.reconcile "pod" (.ok startedAgain)),
    .call (env 0) (.request (request "b" "second"))]

def emRefusedThenStarted : List (EmCall Intent) :=
  [.request (emEnv 0) (request "a" "first"),
    .execute (emEnv 0) "a" { answers bare with submit := { status := .conflict } },
    .reconcile (emEnv 0) (some startedAgain),
    .request (emEnv 0) (request "b" "second")]

theorem blocked_on_new_start :
    ((((World.init setup).run refusedThenStarted).journal.operations.map
        fun op => (op.operationId, op.state, op.reason)) =
      [("a", .ownershipConflict, some Reason.ownershipConflict.value),
        ("b", .rejected, some Reason.ownershipConflict.value)] ∧
      ((World.init setup).run refusedThenStarted).engine.instances.get? "pod" =
        some "two") ∧
    ((emRun (emInit "pod" "process") emRefusedThenStarted).journal.operations.map
        fun op => (op.operationId, op.state, op.reason)) =
      [("a", .ownershipConflict, some Reason.ownershipConflict.value),
        ("b", .rejected, some Reason.ownershipConflict.value)] ∧
      (emRun (emInit "pod" "process") emRefusedThenStarted).memory.lastInstance = "two" := by
  decide +kernel

end Emosa.C
