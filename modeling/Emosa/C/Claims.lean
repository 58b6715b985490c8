import Emosa.C.Reconcile
import Emosa.Engine.Claims

/-!
# Emosa.C.Claims

Submissions and ownership conflicts, in C. `emEngineExecute` never looks at the pod's ownership: a
request is refused while a conflict is recorded, and nothing looks again.

* `Clear`: while an operation is REQUESTED no conflict of the pod is recorded. Every call keeps it,
  unless it records a conflict while another operation is REQUESTED.
* `submitted_over_conflict`: runs of both engines in which an operation is submitted over a conflict of
  the pod's current start.
-/

namespace Emosa.C

open Durable Option Journal

variable {I : Type} {p : Process I} {op : Operation I}

theorem transition_some {new : Operation I} {target : State} {evidence : Record}
    (h : emTransition op target evidence = some new) : new = { op with state := target } := by
  unfold emTransition at h
  iterate 6 (split at h; · cases h)
  exact (some.inj h).symm

theorem moved_cases (op : Operation I) (target : State) (evidence : Record) :
    moved op target evidence = op ∨ moved op target evidence = { op with state := target } := by
  unfold moved
  cases h : emTransition op target evidence with
  | none => exact .inl rfl
  | some op' => exact .inr (transition_some h)

theorem moved_requested (hst : op.state = .requested) (target : State)
    (ht : target ∈ State.requested.next) : moved op target = { op with state := target } := by
  have hsome : emTransition op target = some { op with state := target } := by
    simp only [State.next, List.mem_cons, List.not_mem_nil, or_false] at ht
    rcases ht with rfl | rfl | rfl <;> simp [emTransition, hst, State.next]
  rw [moved, hsome, getD_some]

theorem setTimer_keeps (e : EmEngine) (id : String) (deadline : ℚ) :
    (setTimer e id deadline).podId = e.podId ∧ (setTimer e id deadline).mapping = e.mapping ∧
      (setTimer e id deadline).busy = e.busy ∧
      (setTimer e id deadline).lastInstance = e.lastInstance := by
  unfold setTimer
  split <;> exact ⟨rfl, rfl, rfl, rfl⟩

/-- Of `p` only the timers and the start last seen may have changed. -/
def Recalls (p p' : Process I) : Prop :=
  ∃ e : EmEngine, p' = { p with memory := e } ∧ e.podId = p.memory.podId ∧
    e.mapping = p.memory.mapping ∧ e.busy = p.memory.busy

theorem rememberInstance_recalls (snap : Snapshot) (p : Process I) :
    Recalls p (rememberInstance snap p) := by
  unfold rememberInstance
  split
  · exact ⟨_, rfl, rfl, rfl, rfl⟩
  · exact ⟨p.memory, rfl, rfl, rfl, rfl⟩

theorem validate_recalls (op : Operation I) (answers : Answers) (p : Process I) :
    Recalls p (validate op answers p).2 := by
  have hsame : Recalls p p := ⟨p.memory, rfl, rfl, rfl, rfl⟩
  unfold validate
  split
  · exact hsame
  split
  · exact hsame
  · exact hsame
  · simp only
    split <;> exact rememberInstance_recalls _ _

theorem expired_recalls (env : EmEnv I) (op : Operation I) (p : Process I) :
    Recalls p (emEngineExpired env op p).2 := by
  unfold emEngineExpired
  split
  · exact ⟨p.memory, rfl, rfl, rfl, rfl⟩
  · obtain ⟨hpod, hmap, hbusy, -⟩ := setTimer_keeps p.memory op.operationId
      (env.monotonic + max 0 (op.deadlineAt - env.utc))
    exact ⟨_, rfl, hpod, hmap, hbusy⟩

variable [IntentType I]

/-- The journals a process went through. -/
def history (p : Process I) : List (Journal I) :=
  {} :: (moments ({} : EmJournal I) p.written).map EmJournal.toJournal

/-- A write that submits nothing over a conflict. -/
def Unclaiming (j : EmJournal I) : Write I → Prop
  | .add op _ => op.state = .requested
  | .save op => op.state = .submitted → j.ownership.get? op.podId = none
  | _ => True

theorem history_unclaimed (h : Follows Unclaiming {} p) :
    (history p).IsChain SubmitsUnclaimed := by
  have hchain : (({} : EmJournal I) :: moments {} p.written).IsChain
      fun j j' => SubmitsUnclaimed j.toJournal j'.toJournal := by
    refine h.permitted.chain (P := fun _ => True) (fun _ _ _ _ => trivial) (fun j w _ hw => ?_)
      trivial
    refine submits_of_save j.toJournal w (fun op receipt he => ?_) fun op he hst => ?_
    · obtain rfl := he
      exact hw
    · obtain rfl := he
      exact hw hst
  rw [← List.isChain_map EmJournal.toJournal] at hchain
  exact hchain

/-- Where an operation is REQUESTED, no conflict of the pod is recorded, the `skip` ones apart. -/
structure Clear (skip : String → Prop) (p : Process I) : Prop where
  follows : Follows Unclaiming {} p
  pods : ∀ op ∈ p.journal.operations, op.podId = p.memory.podId
  valid : ∀ op ∈ p.journal.operations, op.valid = true
  free : ∀ op ∈ p.journal.operations, op.state = .requested →
    skip op.operationId ∨ p.journal.ownership.get? p.memory.podId = none

/-- Of the operations only the `skip` ones may be REQUESTED. -/
def WaitOnly (skip : String → Prop) (p : Process I) : Prop :=
  ∀ row ∈ p.journal.operations, row.state = .requested → skip row.operationId

/-- The record of an operation of the pod that is neither waiting nor sent. -/
structure Calm (pod : String) (op : Operation I) : Prop where
  podId : op.podId = pod
  requested : op.state ≠ .requested
  submitted : op.state ≠ .submitted

variable {pod : String}

theorem Calm.moved (h : Calm pod op) (target : State) (evidence : Record)
    (hreq : target ≠ .requested) (hsub : target ≠ .submitted) :
    Calm pod (moved op target evidence) := by
  rcases moved_cases op target evidence with he | he
  · rw [he]; exact h
  · rw [he]; exact ⟨h.podId, hreq, hsub⟩

/-! ## Saves -/

@[simp] theorem emEngineSave_memory (op : Operation I) (p : Process I) :
    (emEngineSave op p).memory = p.memory := by
  unfold emEngineSave
  split <;> rfl

@[simp] theorem emEngineSave_ownership (op : Operation I) (p : Process I) :
    (emEngineSave op p).journal.ownership = p.journal.ownership := by
  unfold emEngineSave
  split <;> rfl

namespace Clear

variable {skip : String → Prop}

variable (h : Clear skip p)
include h

theorem save (hpod : op.podId = p.memory.podId) (hst : op.state ≠ .requested)
    (hsub : op.state = .submitted → p.journal.ownership.get? p.memory.podId = none) :
    Clear skip (emEngineSave op p) := by
  unfold emEngineSave
  split
  · rename_i hvalid
    have hmem : ∀ row ∈ (p.commit (.save op)).journal.operations, row ∈ p.journal.operations ∨
        row = op := fun row hrow =>
      (mem_written_save emJournalHoldsRows hrow).imp_right (·.1)
    refine ⟨h.follows.commit fun hs => hpod ▸ hsub hs, fun row hrow => ?_, fun row hrow => ?_,
      fun row hrow hreq => ?_⟩
    · exact (hmem row hrow).elim (h.pods row) (fun he => he ▸ hpod)
    · exact (hmem row hrow).elim (h.valid row) (fun he => he ▸ hvalid)
    · exact (hmem row hrow).elim (fun hm => h.free row hm hreq) (fun he => absurd (he ▸ hreq) hst)
  · exact h

theorem save_calm (hc : Calm p.memory.podId op) :
    Clear skip (emEngineSave op p) :=
  h.save hc.podId hc.requested fun hs => absurd hs hc.submitted

theorem remember {e : EmEngine} (he : e.podId = p.memory.podId) :
    Clear skip { p with memory := e } :=
  ⟨h.follows.of_eq rfl rfl, fun op hop => (h.pods op hop).trans he.symm, h.valid,
    fun op hop hst => (h.free op hop hst).imp_right fun hn => by rw [he]; exact hn⟩

theorem release : Clear skip (p.commit (.release p.memory.podId)) :=
  ⟨h.follows.commit trivial, h.pods, h.valid, fun _ _ _ => .inr (Dict.get?_erase_self _ _)⟩

theorem conflict (record : Ownership) (hnone : WaitOnly skip p) :
    Clear skip (p.commit (.conflict p.memory.podId record)) :=
  ⟨h.follows.commit trivial, h.pods, h.valid, fun op hop hst => .inl (hnone op hop hst)⟩

theorem mono {skip' : String → Prop}
    (hs : ∀ op ∈ p.journal.operations, op.state = .requested → skip op.operationId →
      skip' op.operationId ∨ p.journal.ownership.get? p.memory.podId = none) : Clear skip' p :=
  { h with free := fun op hop hst => (h.free op hop hst).elim (hs op hop hst) .inr }

end Clear

/-- A saved record that is not REQUESTED leaves none of its ID that is. -/
theorem requested_ne_of_save (hvalid : op.valid = true) (hst : op.state ≠ .requested)
    {row : Operation I} (hrow : row ∈ (emEngineSave op p).journal.operations)
    (hreq : row.state = .requested) : row.operationId ≠ op.operationId := by
  rw [emEngineSave, if_pos hvalid] at hrow
  rcases mem_written_save_ne emJournalHoldsRows hrow with rfl | ⟨-, hne⟩
  · exact absurd hreq hst
  · exact hne

/-! ## Requests -/

variable {skip : String → Prop}

theorem currentOwnership_clear (h : Clear skip p) :
    Clear skip (currentOwnership p).2 ∧ (currentOwnership p).2.memory = p.memory ∧
      ((currentOwnership p).1 = none →
        (currentOwnership p).2.journal.ownership.get? p.memory.podId = none) := by
  unfold currentOwnership
  split
  · rename_i hnone
    exact ⟨h, rfl, fun _ => hnone⟩
  · split
    · exact ⟨h.release, rfl, fun _ => Dict.get?_erase_self _ _⟩
    · exact ⟨h, rfl, by simp⟩

theorem settleRestarted_some {current : Option String} {out : Operation I × Process I}
    (h : settleRestarted op current p = some out) :
    out.2 = emEngineSave (because { op with state := .failed } .notReady) p := by
  unfold settleRestarted at h
  split at h
  · split at h
    · obtain ⟨failed, hfailed, rfl⟩ := map_eq_some_iff.mp h
      obtain rfl := transition_some hfailed
      rfl
    · cases h
  · cases h

/-- What every settled operation of another ID preserves, `settleOthers` does. -/
theorem settleOthers_rule {Q : Process I → Prop} {id : String} {rows : List (Operation I)}
    (hstep : ∀ q ∈ rows, q.operationId ≠ id → ∀ p, q.podId = p.memory.podId → Q p →
      Q (emEngineSave (because { q with state := .failed } .notReady) p)) (h : Q p)
    (active : Bool) : Q (settleOthers id active rows p).2 := by
  induction rows generalizing active p with
  | nil => exact h
  | cons q rest ih =>
    have hih := fun {p : Process I} => ih (p := p) fun q hq => hstep q (List.mem_cons_of_mem _ hq)
    unfold settleOthers
    split
    · rename_i hmine
      split
      · rename_i q' p' hs
        obtain rfl := settleRestarted_some hs
        exact hih (hstep q List.mem_cons_self hmine.2 p hmine.1 h) _
      · exact hih h _
    · exact hih h _

theorem Clear.restarted (h : Clear skip p) (hpod : op.podId = p.memory.podId) :
    Clear skip (emEngineSave (because { op with state := .failed } .notReady) p) := by
  refine h.save_calm ⟨hpod, ?_, ?_⟩ <;> simp [because]

theorem settleOthers_clear (h : Clear skip p) (id : String) (active : Bool)
    (rows : List (Operation I)) :
    Clear skip (settleOthers id active rows p).2 ∧
      (settleOthers id active rows p).2.memory = p.memory := by
  refine settleOthers_rule (Q := fun p' => Clear skip p' ∧ p'.memory = p.memory)
    (fun q _ _ p' hpod hp' => ?_) ⟨h, rfl⟩ active
  exact ⟨hp'.1.restarted hpod, (emEngineSave_memory _ _).trans hp'.2⟩

theorem reject_clear (h : Clear (· = op.operationId) p) (hpod : op.podId = p.memory.podId)
    (hvalid : op.valid = true) (hst : op.state = .requested) (reason : Reason) :
    Clear (fun _ => False) (reject op reason p).2 := by
  have hmoved := moved_requested hst .rejected (by decide)
  have hstate : (because (moved op .rejected) reason).state ≠ .requested := by
    rw [hmoved]
    simp [because]
  have hid : (because (moved op .rejected) reason).operationId = op.operationId := by
    rw [hmoved]
    rfl
  have hval : (because (moved op .rejected) reason).valid = true := by
    rw [hmoved]
    exact hvalid
  have hsaved : Clear (· = op.operationId)
      (emEngineSave (because (moved op .rejected) reason) p) := by
    refine h.save ?_ hstate fun hc => ?_
    · rw [hmoved]
      exact hpod
    · rw [hmoved] at hc
      cases hc
  refine hsaved.mono fun row hrow hreq he => ?_
  exact absurd (he.trans hid.symm) (requested_ne_of_save hval hstate hrow hreq)

theorem grant_clear (h : Clear (· = op.operationId) p) (hpod : op.podId = p.memory.podId)
    (hvalid : op.valid = true) (hst : op.state = .requested) :
    Clear (fun _ => False) (grant op p).2 := by
  have hsettled := settleOthers_clear h op.operationId p.memory.busy p.journal.operations
  unfold grant
  generalize settleOthers op.operationId p.memory.busy p.journal.operations p = out at hsettled ⊢
  obtain ⟨active, p₁⟩ := out
  obtain ⟨h₁, hm₁⟩ := hsettled
  have hpod₁ : op.podId = p₁.memory.podId := by rw [hm₁]; exact hpod
  cases active with
  | true => exact reject_clear h₁ hpod₁ hvalid hst _
  | false =>
    have hown := currentOwnership_clear h₁
    simp only
    generalize currentOwnership p₁ = out at hown ⊢
    obtain ⟨record, p₂⟩ := out
    obtain ⟨h₂, hm₂, hnone⟩ := hown
    cases record with
    | some record =>
      exact reject_clear h₂ (by rw [hpod₁]; exact congrArg EmEngine.podId hm₂.symm) hvalid hst _
    | none =>
      refine h₂.mono fun _ _ _ _ => .inr ?_
      rw [show p₂.memory = p₁.memory from hm₂]
      exact hnone rfl

def journaled (env : EmEnv I) (r : Engine.Request I) (op : Operation I) (p : Process I) :
    Process I :=
  { p.commit (.add op r.wscReceipt) with
    memory := setTimer p.memory op.operationId (env.monotonic + r.deadline) }

theorem add_ok {receipt : Option Receipt} {p' : Process I}
    (h : emJournalAdd op receipt p = .ok p') :
    p' = p.commit (.add op receipt) ∧ op.valid = true := by
  unfold emJournalAdd at h
  split at h
  · cases h
  rename_i hvalid
  simp only [not_or] at hvalid
  iterate 3 (split at h; · cases h)
  exact ⟨(Except.ok.inj h).symm, by simpa using hvalid.1⟩

/-- A request leaves the process as it is, or journals its operation and goes on with `grant`. -/
theorem request_cases (env : EmEnv I) (r : Engine.Request I) (p : Process I) :
    (emEngineRequest env r p).2 = p ∨ ∃ op : Operation I, op.operationId = r.operationId ∧
      op.podId = p.memory.podId ∧ op.state = .requested ∧ op.reason = none ∧ op.valid = true ∧
      (emEngineRequest env r p).2 = (grant op (journaled env r op p)).2 := by
  unfold emEngineRequest
  split
  · exact .inl rfl
  split
  · exact .inl rfl
  split
  · exact .inl rfl
  split
  · exact .inl rfl
  rename_i hpod
  split
  · exact .inl rfl
  rename_i fingerprint hfp
  split
  · split <;> exact .inl rfl
  simp only
  cases hadd : emJournalAdd (newOperation env r fingerprint) r.wscReceipt p with
  | error why => exact .inl rfl
  | ok p₁ =>
    obtain ⟨rfl, hvalid⟩ := add_ok hadd
    exact .inr ⟨newOperation env r fingerprint, rfl, Decidable.not_not.mp hpod, rfl, rfl, hvalid, rfl⟩

theorem request_clear (h : Clear (fun _ => False) p) (env : EmEnv I) (r : Engine.Request I) :
    Clear (fun _ => False) (emEngineRequest env r p).2 := by
  rcases request_cases env r p with he | ⟨op, -, hpod, hst, -, hvalid, he⟩ <;> rw [he]
  · exact h
  have hmem : ∀ row ∈ (p.commit (.add op r.wscReceipt)).journal.operations,
      row ∈ p.journal.operations ∨ row = op := fun row hrow => mem_written_add hrow
  -- the new operation is the one that may be REQUESTED over a conflict, until it is granted
  have hnew : Clear (· = op.operationId) (p.commit (.add op r.wscReceipt)) := by
    refine ⟨h.follows.commit hst, fun row hrow => ?_, fun row hrow => ?_, fun row hrow hreq => ?_⟩
    · exact (hmem row hrow).elim (h.pods row) (fun he => he ▸ hpod)
    · exact (hmem row hrow).elim (h.valid row) (fun he => he ▸ hvalid)
    · exact (hmem row hrow).elim (fun hm => .inr ((h.free row hm hreq).resolve_left id))
        (fun he => .inl (he ▸ rfl))
  have htimer := (setTimer_keeps p.memory op.operationId (env.monotonic + r.deadline)).1
  exact grant_clear (hnew.remember htimer) (hpod.trans htimer.symm) hvalid hst

/-! ## Executions -/

theorem refused_calm (h : Calm pod op) (answer : SubmitAnswer) : Calm pod (refused op answer) := by
  unfold refused
  split
  · exact { h with }
  · exact h

theorem because_calm (h : Calm pod op) (reason : Reason) :
    Calm pod (because op reason) := { h with }

theorem outcome_clear (h : Clear skip p) (hpod : op.podId = p.memory.podId)
    (hst : op.state = .submitted)
    (hnone : p.journal.ownership.get? p.memory.podId = none) (answer : SubmitAnswer)
    (hok : answer.status = .conflict → WaitOnly skip p) :
    Clear skip (emEngineSave (outcome op answer p).1 (outcome op answer p).2) := by
  have hreq : op.state ≠ .requested := by rw [hst]; decide
  -- a record that moves on from the submission, or stays where it is
  have hsave : ∀ (target : State) (evidence : Record) (f : Operation I → Operation I),
      target ≠ .requested → target ≠ .submitted → (∀ o, (f o).podId = o.podId) →
      (∀ o, (f o).state = o.state) → Clear skip (emEngineSave (f (moved op target evidence)) p) := by
    intro target evidence f hr hs hfp hfs
    rcases moved_cases op target evidence with he | he
    · rw [he]
      exact h.save ((hfp op).trans hpod) (by rw [hfs]; exact hreq) fun _ => hnone
    · rw [he]
      exact h.save ((hfp _).trans hpod) (by rw [hfs]; exact hr) fun hc =>
        absurd ((hfs _).symm.trans hc) hs
  unfold outcome
  cases hstatus : answer.status with
  | committed =>
    cases ht : emTransition op .configCommitted answer.evidence with
    | none => exact h.save hpod hreq fun _ => hnone
    | some op' =>
      obtain rfl := transition_some ht
      exact h.save hpod (by simp) nofun
  | conflict =>
    have hmoved : moved op .ownershipConflict = { op with state := .ownershipConflict } := by
      simp [moved, emTransition, hst, State.next]
    have hcalm : Calm p.memory.podId (moved op .ownershipConflict) := by
      rw [hmoved]
      exact ⟨hpod, by simp, by simp⟩
    exact (h.conflict _ (hok hstatus)).save_calm
      (refused_calm (because_calm hcalm .ownershipConflict) answer)
  | rejected =>
    refine hsave .failed ∅ (fun o => refused (because o answer.reason) answer) (by decide)
      (by decide) (fun o => ?_) (fun o => ?_)
    · unfold refused
      split <;> rfl
    · unfold refused
      split <;> rfl
  | unknown =>
    exact hsave .indeterminate ∅ (fun o => because o .outcomeUnknown) (by decide) (by decide)
      (fun _ => rfl) (fun _ => rfl)

theorem submitting_clear (h : Clear skip p) (hpod : op.podId = p.memory.podId)
    (hst : op.state = .validated) (hnone : p.journal.ownership.get? p.memory.podId = none)
    (env : EmEnv I) (answers : Answers) (snap : Snapshot)
    (hok : answers.submit.status = .conflict → WaitOnly skip p) :
    Clear skip (submitting env op answers snap p).2 := by
  have hcalm : Calm p.memory.podId op := ⟨hpod, by rw [hst]; decide, by rw [hst]; decide⟩
  unfold submitting
  split
  · exact h.save_calm (because_calm (hcalm.moved .rejected ∅ (by decide) (by decide)) _)
  · split
    · have happlied := hcalm.moved .observedApplied (emEngineEvidence snap true) (by decide)
        (by decide)
      exact h.save_calm { happlied with }
    · generalize hsent : prepared op answers snap = sent
      have hstate : sent.state = .submitted := by
        rw [← hsent]
        simp [prepared, moved, emTransition, hst, State.next]
      have hsentPod : sent.podId = p.memory.podId := by
        rw [← hsent, prepared]
        rcases moved_cases { op with attempts := op.attempts ++
          [⟨answers.attemptId, answers.transactionId, snap.generation⟩] } .submitted ∅ with he | he
        · rw [he]; exact hpod
        · rw [he]; exact hpod
      have hsaved := h.save hsentPod (by rw [hstate]; decide) fun _ => hnone
      refine outcome_clear hsaved (by simpa using hsentPod) hstate (by simpa using hnone) _
        fun hc row hrow hreq => ?_
      unfold emEngineSave at hrow
      split at hrow
      · cases mem_written_save emJournalHoldsRows hrow with
        | inl hm => exact hok hc row hm hreq
        | inr he => rw [he.1, hstate] at hreq; cases hreq
      · exact hok hc row hrow hreq

theorem execute_clear (h : Clear (fun _ => False) p) (env : EmEnv I) (id : String)
    (answers : Answers) (hok : answers.submit.status = .conflict → WaitOnly (· = id) p) :
    Clear (fun _ => False) (emEngineExecute env id answers p).2 := by
  unfold emEngineExecute
  split
  · exact h
  rename_i op hget
  split
  · exact h
  rename_i hrun
  have hst : op.state = .requested := Decidable.not_not.mp fun hc => hrun (.inl hc)
  have hmem := get?_mem hget
  have hpod := h.pods op hmem
  have hnone := (h.free op hmem hst).resolve_left not_false
  have hval := validate_recalls op answers (setBusy true p)
  generalize validate op answers (setBusy true p) = out at hval ⊢
  obtain ⟨result, p₁⟩ := out
  obtain ⟨e, rfl, hp, -⟩ := hval
  have h₁ : Clear (fun _ => False) { p with memory := e } := h.remember hp
  have hpod₁ : op.podId = e.podId := hpod.trans (Eq.symm hp)
  cases result with
  | error why =>
    have hmoved := moved_requested hst .rejected (by decide)
    refine Clear.remember ?_ rfl
    refine h₁.save ?_ ?_ ?_ <;> rw [hmoved]
    · exact hpod₁
    · simp [because]
    · intro hc
      cases hc
  | ok found =>
    obtain ⟨plan, snap⟩ := found
    have hmoved : validated op plan snap = { op with
        plan := some plan
        schemaFingerprint := if snap.schemaFingerprint = "" then none
          else some snap.schemaFingerprint
        state := .validated } := by
      refine moved_requested ?_ .validated (by decide)
      exact hst
    simp only
    generalize validated op plan snap = new at hmoved ⊢
    have hstate : new.state = .validated := by rw [hmoved]
    have hid : new.operationId = id := by rw [← get?_id hget, hmoved]
    have hnew : new.podId = e.podId := by rw [hmoved]; exact hpod₁
    have hvalid : new.valid = true := by rw [hmoved]; exact h.valid op hmem
    have hreq : new.state ≠ .requested := by rw [hstate]; decide
    have hsaved := h₁.save hnew hreq fun hc => by rw [hstate] at hc; cases hc
    have hown : p.journal.ownership.get? e.podId = none := by
      rw [← hpod₁, hpod]
      exact hnone
    refine Clear.remember (submitting_clear hsaved (by simpa using hnew) hstate
      (by simpa using hown) env answers snap fun hc row hrow hwait => ?_) rfl
    -- the record of this operation is VALIDATED by now
    refine requested_ne_of_save hvalid hreq hrow hwait ?_
    rw [hid]
    rw [emEngineSave, if_pos hvalid] at hrow
    cases mem_written_save emJournalHoldsRows hrow with
    | inl hm => exact hok hc row hm hwait
    | inr he => rw [he.1] at hwait; exact absurd hwait hreq

theorem cancel_clear (h : Clear (fun _ => False) p) (id : String) :
    Clear (fun _ => False) (emEngineCancel id p) := by
  unfold emEngineCancel
  split
  · rename_i new hnew
    obtain ⟨op, hget, ht⟩ := bind_eq_some_iff.mp hnew
    obtain rfl := transition_some ht
    exact h.save (h.pods op (get?_mem hget)) (by simp) nofun
  · exact h

theorem recovered_calm {new : Operation I} (hr : recovered op = some new) :
    Calm op.podId new := by
  unfold recovered at hr
  split at hr
  · rename_i hst
    rw [← some.inj hr, moved_requested hst.2 .cancelled (by decide)]
    exact ⟨rfl, by simp, by simp⟩
  split at hr
  · rename_i hst
    have hm : moved op .indeterminate = { op with state := .indeterminate } := by
      simp [moved, emTransition, hst, State.next]
    rw [← some.inj hr, hm]
    exact ⟨rfl, by simp [because], by simp [because]⟩
  split at hr
  · rename_i hst
    have hm : moved op .cancelled = { op with state := .cancelled } := by
      simp [moved, emTransition, hst, State.next]
    rw [← some.inj hr, hm]
    exact ⟨rfl, by simp, by simp⟩
  · cases hr

theorem recoverFrom_clear {rows : List (Operation I)} (h : Clear skip p)
    (hpods : ∀ op ∈ rows, op.podId = p.memory.podId) : Clear skip (recoverFrom rows p) := by
  induction rows generalizing p with
  | nil => exact h
  | cons op rest ih =>
    unfold recoverFrom
    have hop := hpods op List.mem_cons_self
    have hrest : ∀ q ∈ rest, q.podId = p.memory.podId := fun q hq =>
      hpods q (List.mem_cons_of_mem _ hq)
    split
    · rename_i new hr
      exact ih (h.save_calm (hop ▸ recovered_calm hr)) (by simpa using hrest)
    · exact ih h hrest

/-! ## Passes -/

/-- The snapshot, ready and fresh, has not the configuration the operation owns, on the start and
under the mapping it was written for. -/
def Lost (env : EmEnv I) (e : EmEngine) (snap : Snapshot) (op : Operation I) : Prop :=
  snap.ready = true ∧ snap.observed.fresh = true ∧
  ∃ target, env.target op.intent = .ok target ∧ emMatches snap.config target = false ∧
    restarted op snap = false ∧ remapped e op = false

/-- A pass with this snapshot may record a conflict. -/
def Claims (env : EmEnv I) (snap : Snapshot) (p : Process I) : Prop :=
  ∃ op, latest p.memory.podId p.journal.operations = some op ∧ op.state.followed = true ∧
    Lost env p.memory snap op

/-- What the deadline leaves of a followed record. -/
structure Aged (pod : String) (op new : Operation I) : Prop where
  calm : Calm pod new
  intent : new.intent = op.intent
  evidence : new.applicationEvidence = op.applicationEvidence
  commit : new.commitEvidence = op.commitEvidence
  plan : new.plan = op.plan

theorem Aged.timedOut {new : Operation I} (h : Aged pod op new) :
    Aged pod op (because (moved new .timedOut) .applyTimeout) := by
  have hcalm := because_calm (h.calm.moved .timedOut ∅ (by decide) (by decide)) .applyTimeout
  rcases moved_cases new .timedOut ∅ with he | he <;> rw [he] at hcalm ⊢ <;>
    exact { h with calm := hcalm }

theorem lapse_aged (h : Calm pod op) (late : Bool) : Aged pod op (lapse late op).op := by
  have hsame : Aged pod op op := ⟨h, rfl, rfl, rfl, rfl⟩
  have hmark : Aged pod op (if op.deadlineElapsed then (⟨op, false⟩ : Engine.Pass I)
      else ⟨{ op with originalOutcome := some op.state, deadlineElapsed := true }, true⟩).op := by
    split
    · exact hsame
    · exact ⟨{ h with }, rfl, rfl, rfl, rfl⟩
  unfold lapse
  split
  · simp only
    split
    · exact hmark.timedOut
    · exact hmark
  · exact hsame

theorem giveUp_aged {pass : Engine.Pass I} (h : Aged pod op pass.op) (snap : Snapshot)
    (target : Record) : Aged pod op (giveUp snap target pass).op := by
  unfold giveUp
  split
  · exact h.timedOut
  · exact h

theorem claimLost_clear {pass : Engine.Pass I} (h : Clear skip p)
    (hc : Calm p.memory.podId pass.op) (snap : Snapshot) (hnone : WaitOnly skip p) :
    Clear skip (claimLost snap pass p).2 ∧ (claimLost snap pass p).2.memory = p.memory ∧
      Calm p.memory.podId (claimLost snap pass p).1.op := by
  have hcalm : Calm p.memory.podId (if pass.op.state = .configCommitted then
      moved pass.op .ownershipConflict else pass.op) := by
    split
    · exact hc.moved _ _ (by decide) (by decide)
    · exact hc
  unfold claimLost
  generalize (if pass.op.state = .configCommitted then moved pass.op .ownershipConflict
    else pass.op) = op at hcalm
  simp only
  split
  · exact ⟨h.conflict _ hnone, rfl, hcalm⟩
  · exact ⟨h.conflict _ hnone, rfl, because_calm hcalm _⟩

theorem noteApplied_calm (h : Calm pod op) (snap : Snapshot) :
    Calm pod (noteApplied snap op).op := by
  have hlate : Calm pod (if op.deadlineElapsed then
      { op with lateResolution := some "applied_after_deadline" } else op) := by
    split
    · exact { h with }
    · exact h
  unfold noteApplied
  dsimp only
  generalize (if op.deadlineElapsed then
    { op with lateResolution := some "applied_after_deadline" } else op) = late at hlate ⊢
  have hmoved : Calm pod (if late.state = .timedOut then late
      else moved late .observedApplied (emEngineEvidence snap false)) := by
    split
    · exact hlate
    · exact hlate.moved _ _ (by decide) (by decide)
  generalize (if late.state = .timedOut then late
    else moved late .observedApplied (emEngineEvidence snap false)) = new at hmoved ⊢
  split <;> exact { hmoved with }

theorem judge_clear (pass : Engine.Pass I) (h : Clear skip p) (env : EmEnv I) (snap : Snapshot)
    (hag : Aged p.memory.podId op pass.op) (hok : Lost env p.memory snap op → WaitOnly skip p) :
    Clear skip (judge env snap pass p).2 ∧ (judge env snap pass p).2.memory = p.memory ∧
      Calm p.memory.podId (judge env snap pass p).1.op := by
  unfold judge
  split
  · split
    · exact ⟨h, rfl, hag.calm⟩
    · exact ⟨h, rfl, { hag.calm with }⟩
  · rename_i target htarget
    rw [hag.intent] at htarget
    have hgave := giveUp_aged hag snap target
    unfold observe
    split
    · rename_i hready
      split
      · rename_i hlost
        simp only [lost, Bool.and_eq_true, Bool.not_eq_true'] at hlost
        obtain ⟨⟨⟨hconfig, -⟩, hstart⟩, hmap⟩ := hlost
        refine claimLost_clear h hgave.calm snap (hok ⟨hready.1, hready.2, target, htarget, hconfig,
          ?_, ?_⟩)
        · unfold restarted writtenInstance at hstart ⊢
          rwa [hgave.evidence, hgave.commit] at hstart
        · unfold remapped at hmap ⊢
          rwa [hgave.plan] at hmap
      split
      · exact ⟨h, rfl, noteApplied_calm hgave.calm snap⟩
      · exact ⟨h, rfl, hgave.calm⟩
    · exact ⟨h, rfl, hgave.calm⟩

theorem follow_clear (h : Clear skip p) (env : EmEnv I) (snap : Snapshot)
    (hc : Calm p.memory.podId op) (hok : Lost env p.memory snap op → WaitOnly skip p) :
    Clear skip (follow env snap op p) := by
  unfold follow
  split
  · rename_i op' p' hs
    obtain rfl := settleRestarted_some hs
    exact h.restarted hc.podId
  · have hexp := expired_recalls env op p
    generalize emEngineExpired env op p = out at hexp ⊢
    obtain ⟨late, p₁⟩ := out
    obtain ⟨e, rfl, hpod, hmap, -⟩ := hexp
    have h₁ : Clear skip { p with memory := e } := h.remember hpod
    have hjudge := judge_clear (lapse late op) h₁ env snap (lapse_aged (hpod ▸ hc) late)
      fun hl => hok (by unfold Lost remapped at hl ⊢; rwa [hmap] at hl)
    simp only
    generalize judge env snap (lapse late op) { p with memory := e } = out at hjudge ⊢
    obtain ⟨pass, p₂⟩ := out
    obtain ⟨h₂, hm₂, hcalm⟩ := hjudge
    split
    · refine h₂.save_calm ?_
      rw [show p₂.memory = e from hm₂]
      exact hcalm
    · exact h₂

theorem reconcile_clear (h : Clear (fun _ => False) p) (env : EmEnv I) (reply : Option Snapshot)
    (hok : ∀ snap, reply = some snap → Claims env snap p →
      ∀ row ∈ p.journal.operations, row.state ≠ .requested) :
    Clear (fun _ => False) (emEngineReconcile env reply p) := by
  unfold emEngineReconcile
  split
  · exact h
  · rename_i snap
    obtain ⟨e, he, hpod, hmap, -⟩ := rememberInstance_recalls snap p
    simp only
    rw [he]
    have h₁ : Clear (fun _ => False) { p with memory := e } := h.remember hpod
    split
    · rename_i op hop
      obtain ⟨hlatest, hf⟩ := filter_eq_some_iff.mp hop
      rw [hpod] at hlatest
      have hmem : op ∈ p.journal.operations :=
        (List.mem_filter.mp (List.mem_of_getLast? hlatest)).1
      have hcalm : Calm e.podId op := by
        refine ⟨(h.pods op hmem).trans hpod.symm, fun hs => ?_, fun hs => ?_⟩
        · simp [hs, State.followed] at hf
        · simp [hs, State.followed] at hf
      refine follow_clear h₁ env snap hcalm fun hl row hrow hst => ?_
      have hlost : Lost env p.memory snap op := by
        unfold Lost remapped at hl ⊢
        rwa [hmap] at hl
      exact hok snap rfl ⟨op, hlatest, hf, hlost⟩ row hrow hst
    · exact h₁

/-! ## Over a run -/

/-- The call records no conflict while another operation waits for its execution. -/
def Undisputed (p : Process I) : EmCall I → Prop
  | .reconcile env (some snap) =>
      Claims env snap p → ∀ row ∈ p.journal.operations, row.state ≠ .requested
  | .execute _ id answers => answers.submit.status = .conflict →
      ∀ row ∈ p.journal.operations, row.state = .requested → row.operationId = id
  | _ => True

theorem step_clear (call : EmCall I) (h : Clear (fun _ => False) p) (hok : Undisputed p call) :
    Clear (fun _ => False) (emStep p call) := by
  cases call with
  | request env r =>
    simp only [emStep]
    split
    · exact h
    · exact request_clear h env r
  | execute env id answers => exact execute_clear h env id answers hok
  | reconcile env reply =>
    refine reconcile_clear h env reply fun snap he => ?_
    subst he
    exact hok
  | cancel id => exact cancel_clear h id
  | recover => exact recoverFrom_clear h h.pods
  | restart | guard | remap => exact h.remember rfl

theorem history_chain {processId : String} {calls : List (EmCall I)}
    (h : Meets emStep Undisputed (emInit pod processId) calls) :
    (history (emRun (emInit pod processId) calls)).IsChain SubmitsUnclaimed := by
  have hinit : Clear (fun _ => False) (emInit pod processId : Process I) :=
    ⟨⟨rfl, trivial⟩, by simp [emInit], by simp [emInit], by simp [emInit]⟩
  have hrun := runs_invariant (fun _ call hc hok => step_clear call hc hok) h hinit
  exact history_unclaimed hrun.follows

/-- Every journal of a run is followed by one in which nothing is newly SUBMITTED over a recorded
conflict of its pod. -/
theorem no_submission_over_conflict :
    (∀ (s : Setup) (as : List (Action I)), Meets World.step World.Undisputed (World.init s) as →
      ((World.init s).journal :: (World.init s).trail as).IsChain SubmitsUnclaimed) ∧
    ∀ (pod processId : String) (calls : List (EmCall I)),
      Meets emStep Undisputed (emInit pod processId) calls →
        (history (emRun (emInit pod processId) calls)).IsChain SubmitsUnclaimed :=
  ⟨fun s _ h => World.trail_unclaimed s h, fun _ _ _ h => history_chain h⟩

open Sample

def emEnv (now : ℚ) : EmEnv Intent :=
  { target := fun i => (Intent.target vault i).mapError (·.code)
    fingerprint := fun _ _ => some "fingerprint", utc := now, monotonic := now }

def answers (snap : Snapshot) : Answers :=
  { plan := .ok ∅, snapshot := some snap, attemptId := "attempt", transactionId := "transaction"
    submit := { status := .unknown } }

/-- The pod of `bare`, started again. -/
def startedAgain : Snapshot := { bare with instanceId := some "two" }

/-- A configuration found in place is gone at the next pass; then the pod starts again. -/
def lostThenStarted : List (Action Intent) :=
  executed "a" "first" configured ++ [.call (env 0) (.reconcile "pod" (.ok bare)),
    .call (env 0) (.reconcile "pod" (.ok startedAgain))]

def emLostThenStarted : List (EmCall Intent) :=
  [.request (emEnv 0) (request "a" "first"),
    .execute (emEnv 0) "a" (answers configured), .reconcile (emEnv 0) (some bare),
    .reconcile (emEnv 0) (some startedAgain)]

/-- The conflict of the first start is released, and the second operation is sent. -/
theorem submission_unclaimed :
    ((World.init setup).journal :: (World.init setup).trail
        (lostThenStarted ++ executed "b" "second" startedAgain)).IsChain
      SubmitsUnclaimed ∧
    (history (emRun (emInit "pod" "process")
      (emLostThenStarted ++ [.request (emEnv 0) (request "b" "second"),
        .execute (emEnv 0) "b" (answers startedAgain)]))).IsChain SubmitsUnclaimed := by
  refine ⟨no_submission_over_conflict.1 _ _ ?_, no_submission_over_conflict.2 _ _ _ ?_⟩
  · exact ⟨trivial, trivial, trivial, trivial, fun _ => by decide +kernel, fun _ => by decide +kernel,
      trivial, trivial, trivial, trivial, trivial⟩
  · exact ⟨trivial, nofun, fun _ => by decide +kernel, fun _ => by decide +kernel, trivial, nofun, trivial⟩

/-- One operation is found already in place; the next waits for its plan while a reconciliation finds
the configuration gone. -/
def conflictWhilePlanning : List (Action Intent) :=
  executed "a" "first" configured ++ [.call (env 0) (.request (request "b" "second")),
    .call (env 0) (.execute "b"),
    .call (env 0) (.reconcile "pod" (.ok bare)),
    .call (env 0) (.resume 0 (.plan (.ok ∅)) draw),
    .call (env 0) (.resume 0 (.snapshot (.ok bare)) draw)]

def conflictWhileWaiting : List (EmCall Intent) :=
  [.request (emEnv 0) (request "a" "first"),
    .execute (emEnv 0) "a" (answers configured),
    .request (emEnv 0) (request "b" "second"),
    .reconcile (emEnv 0) (some bare),
    .execute (emEnv 0) "b" (answers bare)]

/-- The state of the second operation, and the start of the pod's OpenSync a conflict names. -/
def claimed (j : Journal Intent) : Option State × Option String :=
  (j.state? "b", (j.ownership.get? "pod").bind (·.instanceId))

theorem submitted_over_conflict :
    (((World.init setup).trail conflictWhilePlanning).map claimed =
        [(none, none), (none, none), (none, none), (some .requested, none),
          (some .requested, some "one"), (some .requested, some "one"),
          (some .validated, some "one"), (some .submitted, some "one")] ∧
      ((World.init setup).run conflictWhilePlanning).engine.instances.get? "pod" =
        some "one") ∧
    (history (emRun (emInit "pod" "process") conflictWhileWaiting)).map claimed =
        [(none, none), (none, none), (none, none), (none, none), (some .requested, none),
          (some .requested, some "one"), (some .requested, some "one"),
          (some .validated, some "one"), (some .submitted, some "one"),
          (some .indeterminate, some "one")] ∧
      (emRun (emInit "pod" "process") conflictWhileWaiting).memory.lastInstance = "one" := by
  decide +kernel

end Emosa.C
