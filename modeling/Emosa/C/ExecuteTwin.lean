import Emosa.C.RequestTwin

/-!
# Emosa.C.ExecuteTwin

An execution in both engines. In the one it is five segments at most, each closed by its `finally`
when it ends; in the other it is one call. `Heads` says where a segment is on the way to what the
other engine ends with, so that the segments are followed from the last one to the first.

* `outcome_twin`, `submitting_twin`, `validated_twin`: from the journaled validation on.
* `snapshot_twin`, `planning_twin`: the stages before it.
* `execute_twin`: an execution that is `Executable`.
-/

namespace Emosa.C

open Durable Engine Journal

variable {I : Type} [IntentType I] {pod id : String} {n : Nat}
variable {p : EngineProc I} {q : Process I} {a b : Operation I}
variable {env : Env I} {answers : Answers}

/-! ## Segments -/

/-- The operation is journaled and not REQUESTED any more. -/
def Underway (j : Journal I) (id : String) : Prop := ∃ op, j.get? id = some op ∧ op.state ≠ .requested

/-- How a segment ends: with what the other engine ends with, or suspended and on the way to it. -/
inductive Heads (pod id : String) (env : Env I) (answers : Answers) (n : Nat)
    (out : Operation I × Process I) :
    Except Exn (Next I) → EngineProc I → Prop
  | done {a : Operation I} {p' : EngineProc I} (hab : Alike a out.1)
      (hsame : Same pod true p' out.2) (hunder : Underway p'.journal id) :
      Heads pod id env answers n out (.ok (.done a)) p'
  | await {task : Task I} {p' : EngineProc I}
      (hdrive : wp (drive env answers n (.await task))
        (Answered pod false (out.1, setBusy false out.2)) p') :
      Heads pod id env answers n out (.ok (.await task)) p'

theorem drive_done (n : Nat) (op : Operation I) : drive env answers n (.done op) = pure op := by
  cases n <;> rfl

/-- The process with the pod free again and the operation's guard gone. -/
def closed (a : Operation I) (p : EngineProc I) :
    EngineProc I :=
  { p with memory := { p.memory with
      busy := p.memory.busy.filter (· ≠ a.podId)
      wscGuards := p.memory.wscGuards.filter (· ≠ a.operationId) } }

theorem wp_close_underway {Q : Except Exn Unit → EngineProc I → Prop}
    (h : Underway p.journal a.operationId) : wp (close a) Q p ↔ Q (.ok ()) (closed a p) := by
  obtain ⟨op, hget, hst⟩ := h
  simp only [close, wp_bind, wp_remember]
  rw [wp_get]
  simp only [hget, if_pos hst]
  rfl

theorem Same.closed (h : Same pod true p q) (hpod : a.podId = pod)
    (hunder : Underway p.journal a.operationId) :
    Same pod false (closed a p) (setBusy false q) := by
  have hmem := h.memory
  have hfree : p.memory.busy.filter (· ≠ a.podId) = [] := by simp [hmem.executing, hpod]
  refine ⟨{ hmem with executing := hfree, busy := rfl }, h.journal, fun k hk => ?_⟩
  have hne : k ≠ a.operationId := by
    intro he
    obtain ⟨op, hget, hst⟩ := hunder
    rcases hk with hfresh | hstate
    · have hissued := h.journal.distinct.issued op (get?_mem hget)
      rw [get?_id hget, ← he] at hissued
      exact hfresh hissued
    · have hstate : p.journal.state? k = some .requested := hstate
      rw [he, Journal.state?, hget] at hstate
      exact hst (Option.some.inj hstate)
  have hguards : k ∈ p.memory.wscGuards ↔ q.memory.wscOp = some k := h.guards k hk
  show k ∈ p.memory.wscGuards.filter (· ≠ a.operationId) ↔ q.memory.wscOp = some k
  rw [← hguards]
  simp [hne]

/-- A segment with its `finally`, and then the rest of the execution. -/
theorem Heads.closing {m : M I (Next I)} {out : Operation I × Process I} (hpod : a.podId = pod)
    (h : wp m (Heads pod a.operationId env answers n out) p) :
    wp (Engine.closing a m >>= drive env answers n)
      (Answered pod false (out.1, setBusy false out.2)) p := by
  simp only [Engine.closing, wp_bind, wp_attempt]
  refine wp_mono h ?_
  intro r p' hheads
  cases hheads with
  | done hab hsame hunder =>
    simp only [wp_bind]
    rw [wp_close_underway hunder]
    simp only [wp_pure, drive_done]
    exact ⟨_, rfl, hab, hsame.closed hpod hunder⟩
  | await hdrive => exact hdrive

/-- A suspended execution that is resumed by its reply. -/
theorem Heads.resumed {task : Task I} (out : Operation I × Process I) (hpod : task.op.podId = pod)
    (h : wp (continuing env ⟨answers.attemptId, answers.transactionId⟩ task
      (answers.reply task.stage)) (Heads pod task.op.operationId env answers n out) p) :
    wp (drive env answers (n + 1) (.await task)) (Answered pod false (out.1, setBusy false out.2)) p :=
  Heads.closing hpod h

theorem Heads.dismissed (h : Same pod true p q) (hfit : Fit a)
    (hst : a.state = .requested ∨ a.state = .validated) (reason : Reason)
    (hget : ∃ old, p.journal.get? a.operationId = some old) (plan : Option Record)
    (fingerprint : Option String) :
    wp (Engine.reject a reason) (fun r p' => match r with
      | .ok op => Heads pod a.operationId env answers n
          (reject { a with plan := plan, schemaFingerprint := fingerprint } reason q) (.ok (.done op)) p'
      | .error x => Heads pod a.operationId env answers n
          (reject { a with plan := plan, schemaFingerprint := fingerprint } reason q) (.error x) p')
      p := by
  have htwin := reject_twin h hfit hst reason plan fingerprint
  rw [wp_reject hst, if_pos hfit.valid] at htwin ⊢
  obtain ⟨old, hold⟩ := hget
  obtain ⟨a', he, hab, hsame⟩ := htwin
  cases he
  have hsaved : (apply p.journal (.save (rejected a reason))).get? a.operationId =
      some (rejected a reason) := get?_save_self hold
  exact .done hab hsame ⟨_, hsaved, by simp [rejected]⟩

theorem Heads.saved (h : Same pod true p q) (hab : Alike a b) (hfit : Fit a)
    (hst : a.state ≠ .requested) {old : Operation I} (hold : p.journal.get? a.operationId = some old) :
    wp (do
      Store.save a
      pure (.done a)) (Heads pod a.operationId env answers n (b, emEngineSave b q)) p := by
  rw [wp_bind, wp_save, if_pos hfit.valid]
  have hsaved : (apply p.journal (.save a)).get? a.operationId = some a := get?_save_self hold
  exact .done hab (h.save hab hfit hst) ⟨a, hsaved, hst⟩

/-! ## From the journaled validation -/

theorem holds_of_holds {r : Record} {key : String} (h : r.holds key = true) : holds r key = true := by
  unfold Record.holds at h
  unfold holds
  cases hget : r.get? key with
  | none =>
    rw [hget] at h
    cases h
  | some v =>
    rw [hget] at h
    cases v with
    | rows | tables | texts | fields => rfl
    | _ => exact h

omit [IntentType I] in
theorem Alike.permitted (hab : Alike a b) {target : State} {evidence : Record} {a' : Operation I}
    (h : transition a target evidence = .ok a') :
    emTransition b target evidence = some { b with state := target } := by
  obtain ⟨plan, fingerprint, rfl, -⟩ := hab
  unfold transition at h
  iterate 6 (split at h; · cases h)
  rename_i hnext hattempts hresult hseen hnoop htime
  have hresult' : ¬ (target = .configCommitted ∧ (!holds evidence "transaction_validated") = true) := by
    intro hc
    have hheld : evidence.holds "transaction_validated" = true := by simpa [hc.1] using hresult
    simp [holds_of_holds hheld] at hc
  have hseen' : ¬ (target = .observedApplied ∧
      (!(holds evidence "fresh" && holds evidence "predicate_satisfied")) = true) := by
    intro hc
    have hheld : evidence.holds "fresh" = true ∧ evidence.holds "predicate_satisfied" = true := by
      simpa [hc.1] using hseen
    simp [holds_of_holds hheld.1, holds_of_holds hheld.2] at hc
  have hnoop' : ¬ (target = .observedApplied ∧ a.state = .validated ∧
      (!holds evidence "observed_noop") = true) := by
    intro hc
    have hheld : evidence.holds "observed_noop" = true := by simpa [hc.1, hc.2.1] using hnoop
    simp [holds_of_holds hheld] at hc
  rw [emTransition, if_neg hnext, if_neg hattempts, if_neg hresult', if_neg hseen', if_neg hnoop',
    if_neg htime]

omit [IntentType I] in
theorem Alike.moves (hab : Alike a b) {target : State} {evidence : Record} {a' : Operation I}
    (h : transition a target evidence = .ok a') : Alike a' (moved b target evidence) := by
  rw [moved, hab.permitted h]
  obtain ⟨rfl, hnext, -⟩ := transition_ok h
  obtain ⟨plan, fingerprint, rfl, hplan⟩ := hab
  have hst : a.state ≠ .rejected := fun hc => by rw [hc] at hnext; cases hnext
  exact ⟨plan, fingerprint, rfl, fun _ => hplan hst⟩

theorem str_eq_some {r : Record} {key s : String} : str r key = some s ↔ r.get? key = some (.str s) := by
  unfold str
  split
  · rename_i hget
    simp [hget]
  · rename_i hget
    simp only [reduceCtorEq, false_iff]
    exact hget s

theorem refused_iff {answer : SubmitAnswer} (h : Answerable answer) :
    (str answer.evidence "attribution" = some "reply" ∧
      (str answer.evidence "database_error").any (· ≠ "") = true) ↔
    (answer.evidence.get? "attribution" = some (.str "reply") ∧
      answer.evidence.holds "database_error" = true) := by
  rw [str_eq_some]
  have herr := h.error
  unfold Record.some? at herr
  unfold Record.holds str
  cases hget : answer.evidence.get? "database_error" with
  | none => simp
  | some v =>
    rw [hget] at herr
    cases htrue : v.truthy with
    | true =>
      rw [Option.filter_some_pos htrue] at herr
      cases v with
      | str s => simp [Value.truthy]
      | _ => cases herr
    | false =>
      cases v with
      | str s => simp [Value.truthy]
      | _ => simp [htrue]

theorem valid_evidence {evidence : Record} {s : String} (h : a.valid = true)
    (hs : s ∈ ["not_submitted", "unknown", "reply"])
    (hget : evidence.get? "attribution" = some (.str s)) :
    ({ a with commitEvidence := evidence } : Operation I).valid = true := by
  unfold Operation.valid at h ⊢
  simp only [Bool.and_eq_true] at h ⊢
  refine ⟨h.1, ?_⟩
  simp only [hget]
  simpa [or_assoc] using hs

/-- The record and the journal after the backend's answer, before the record is saved. -/
structure Resolved (pod : String) (a : Operation I) (p : EngineProc I)
    (out : Operation I × Process I) (r : Except Exn (Operation I))
    (p' : EngineProc I) : Prop where
  same : Same pod true p' out.2
  records : ∀ id, p'.journal.get? id = p.journal.get? id
  answer : ∃ a', r = .ok a' ∧ Alike a' out.1 ∧ Fit a' ∧ a'.state ≠ .requested ∧
    a'.operationId = a.operationId

omit [IntentType I] in
theorem transition_submitted {target : State} (hst : a.state = .submitted)
    (h : target = .failed ∨ target = .indeterminate ∨ target = .ownershipConflict) :
    transition a target = .ok { a with state := target } := by
  rcases h with rfl | rfl | rfl <;>
    exact transition_of_next (by simp [hst, State.next]) (by simp) (by simp) (by simp) (by simp)

theorem refused_twin {answer : SubmitAnswer} (hans : Answerable answer) (hab : Alike a b) (hfit : Fit a)
    (reason : Option String) :
    Alike (Engine.refused a ⟨answer.status, answer.evidence, reason⟩) (refused b answer) ∧
      Fit (Engine.refused a ⟨answer.status, answer.evidence, reason⟩) := by
  obtain ⟨plan, fingerprint, rfl, hplan⟩ := hab
  unfold Engine.refused refused
  by_cases hc : answer.evidence.get? "attribution" = some (.str "reply") ∧
      answer.evidence.holds "database_error" = true
  · rw [if_pos hc, if_pos ((refused_iff hans).mpr hc)]
    exact ⟨⟨plan, fingerprint, rfl, hplan⟩, valid_evidence hfit.valid (by simp) hc.1, hans.start,
      hfit.application, hans.rows, hfit.mapping, hfit.observed⟩
  · rw [if_neg hc, if_neg fun h => hc ((refused_iff hans).mp h)]
    exact ⟨⟨plan, fingerprint, rfl, hplan⟩, hfit⟩

theorem refused_keeps (op : Operation I) (result : SubmitResult) :
    (Engine.refused op result).operationId = op.operationId ∧
      (Engine.refused op result).state = op.state ∧ (Engine.refused op result).podId = op.podId := by
  unfold Engine.refused
  split <;> exact ⟨rfl, rfl, rfl⟩

theorem Same.claim {busy : Bool} (h : Same pod busy p q) (record : Ownership)
    (hseen : record.instanceId ≠ some "") :
    Same pod busy (p.commit (.conflict pod record)) (q.commit (.conflict pod record)) :=
  ⟨h.memory, h.journal.claim pod hseen, h.guards⟩

theorem outcome_twin (h : Same pod true p q) (hab : Alike a b) (hfit : Fit a)
    (hst : a.state = .submitted) (hpod : a.podId = pod) {answer : SubmitAnswer}
    (hans : Answerable answer) :
    wp (Engine.outcome a (.ok ⟨answer.status, answer.evidence, some answer.reason.value⟩))
      (Resolved pod a p (outcome b answer q)) p := by
  -- the record in a state that asks for no evidence, with its reason
  have hmoves : ∀ (target : State) (reason : Option String),
      (target = .failed ∨ target = .indeterminate ∨ target = .ownershipConflict) →
      Alike { a with state := target, reason := reason } { moved b target with reason := reason } ∧
        Fit { a with state := target, reason := reason } := by
    intro target reason htarget
    obtain ⟨plan, fingerprint, he, hplan⟩ := hab.moves (transition_submitted hst htarget)
    rw [he]
    refine ⟨⟨plan, fingerprint, rfl, hplan⟩, hfit.valid, hfit.commit, hfit.application, hfit.rows,
      hfit.mapping, fun hs => ?_⟩
    subst hs
    simp at htarget
  unfold Engine.outcome outcome
  cases hstatus : answer.status with
  | committed =>
    obtain ⟨hheld, s, hs, hget⟩ := hans.committed hstatus
    have ht : transition a .configCommitted answer.evidence = .ok { a with state := .configCommitted } := by
      simp [transition, hst, State.next, hheld]
    simp only [ht, hab.permitted ht]
    obtain ⟨plan, fingerprint, rfl, hplan⟩ := hab
    have hfit' : Fit { a with
        state := .configCommitted, commitEvidence := answer.evidence, changed := some true } :=
      ⟨valid_evidence hfit.valid hs hget,
        hans.start, hfit.application, hans.rows, hfit.mapping, by simp⟩
    exact ⟨h, fun _ => rfl, _, rfl,
      ⟨plan, fingerprint, rfl, fun _ => hplan (by simp [hst])⟩, hfit', by simp, rfl⟩
  | conflict =>
    simp only [transition_submitted hst (.inr (.inr rfl))]
    obtain ⟨hmoved, hfit'⟩ := hmoves .ownershipConflict (some Reason.ownershipConflict.value)
      (.inr (.inr rfl))
    obtain ⟨hab', hfit''⟩ := refused_twin hans hmoved hfit' (some answer.reason.value)
    obtain ⟨hid, hstate, hpod'⟩ := refused_keeps
      { a with state := .ownershipConflict, reason := some Reason.ownershipConflict.value }
      ⟨.conflict, answer.evidence, some answer.reason.value⟩
    have hsame := h.claim { operationId := a.operationId, reason := some answer.reason.value }
      (by simp)
    refine ⟨?_, fun _ => rfl, _, rfl, hab', hfit'', by simp [hstate], hid⟩
    rw [show (Engine.refused _ _).podId = pod from hpod'.trans hpod, hid, h.memory.podId,
      show (refused (because _ _) _).operationId = a.operationId from hab'.id.trans hid]
    exact hsame
  | rejected =>
    simp only [transition_submitted hst (.inl rfl)]
    obtain ⟨hmoved, hfit'⟩ := hmoves .failed (some answer.reason.value) (.inl rfl)
    obtain ⟨hab', hfit''⟩ := refused_twin hans hmoved hfit' (some answer.reason.value)
    obtain ⟨hid, hstate, -⟩ := refused_keeps
      { a with state := .failed, reason := some answer.reason.value }
      ⟨.rejected, answer.evidence, some answer.reason.value⟩
    exact ⟨h, fun _ => rfl, _, rfl, hab', hfit'', by simp [hstate], hid⟩
  | unknown =>
    simp only [unknownOutcome, transition_submitted hst (.inr (.inl rfl))]
    obtain ⟨hmoved, hfit'⟩ := hmoves .indeterminate (some Reason.outcomeUnknown.value)
      (.inr (.inl rfl))
    exact ⟨h, fun _ => rfl, _, rfl, hmoved, hfit', by simp, rfl⟩

theorem submit_twin (h : Same pod true p q) (hab : Alike a b) (hfit : Fit a)
    (hst : a.state = .submitted) (hpod : a.podId = pod) (hans : Answerable answers.submit)
    (hget : ∃ old, p.journal.get? a.operationId = some old) (attempt : Attempt) :
    wp (drive env answers (n + 1) (.await ⟨a, .submit attempt⟩))
      (Answered pod false ((outcome b answers.submit q).1, setBusy false
        (emEngineSave (outcome b answers.submit q).1 (outcome b answers.submit q).2))) p := by
  refine Heads.resumed ((outcome b answers.submit q).1,
    emEngineSave (outcome b answers.submit q).1 (outcome b answers.submit q).2) hpod ?_
  show wp (settleOutcome a
    (.ok ⟨answers.submit.status, answers.submit.evidence, some answers.submit.reason.value⟩)) _ p
  simp only [settleOutcome, wp_bind]
  refine wp_mono (outcome_twin h hab hfit hst hpod hans) ?_
  intro r p' hres
  obtain ⟨hsame, hrecords, a', rfl, hab', hfit', hst', hid⟩ := hres
  obtain ⟨old, hold⟩ := hget
  have hold' : p'.journal.get? a'.operationId = some old := by rw [hid, hrecords, hold]
  rw [← hid]
  exact (wp_bind _ _).mp (Heads.saved hsame hab' hfit' hst' hold')

variable {snap : Snapshot}

theorem start?_eq (h : snap.instanceId ≠ some "") : snap.start? = snap.instanceId := by
  unfold Snapshot.start?
  cases hs : snap.instanceId with
  | none => rfl
  | some start =>
    have hne : start ≠ "" := fun he => h (by rw [hs, he])
    simp [hne]

theorem evidence_eq (h : snap.instanceId ≠ some "") (noop : Bool) :
    evidence snap noop = emEngineEvidence snap noop := by
  have hstart := start?_eq h
  unfold evidence emEngineEvidence
  cases hs : snap.instanceId with
  | none | some =>
    rw [hs] at hstart
    simp only [hstart]

theorem evidence_holds (snap : Snapshot) (noop : Bool) :
    (evidence snap noop).holds "fresh" = snap.observed.fresh ∧
      (evidence snap noop).holds "predicate_satisfied" = true ∧
      (evidence snap noop).holds "observed_noop" = noop := by
  unfold evidence
  cases snap.start? <;> cases noop <;> simp [Record.holds, Dict.get?_set, Value.truthy]

theorem evidence_named (noop : Bool) : named (evidence snap noop) "instance" = true := by
  unfold evidence Snapshot.start?
  cases hs : snap.instanceId.filter (· ≠ "") with
  | none => cases noop <;> simp [named, Record.some?, Dict.get?_set]
  | some start =>
    obtain ⟨-, hne⟩ := Option.filter_eq_some_iff.mp hs
    cases noop <;> simp [named, Record.some?, hne]

theorem valid_attempt {attempt : Attempt} (h : a.valid = true) (hattempt : attempt.attemptId ≠ "")
    (htransaction : attempt.transactionId ≠ "") (hgen : 1 ≤ attempt.sessionGeneration) :
    ({ a with attempts := a.attempts ++ [attempt] } : Operation I).valid = true := by
  unfold Operation.valid at h ⊢
  simp only [Bool.and_eq_true, List.all_append] at h ⊢
  refine ⟨⟨h.1.1, h.1.2, ?_⟩, h.2⟩
  simp [hattempt, htransaction, hgen]

def idle (snap : Snapshot) (op : Operation I) : Operation I :=
  { op with
    state := .observedApplied, changed := some false
    applicationEvidence := some (Engine.evidence snap true) }

def sent (attempt : Attempt) (op : Operation I) : Operation I :=
  { op with
    attempts := op.attempts ++ [attempt], state := .submitted
    commitEvidence := Engine.unknownAttribution }

theorem Fit.idle (h : Fit a) (snap : Snapshot) : Fit (idle snap a) :=
  ⟨h.valid, h.commit, fun _ he => Option.some.inj he ▸ evidence_named true, h.rows, h.mapping,
    fun _ => by simp [C.idle]⟩

theorem Fit.sent {attempt : Attempt} (h : Fit a) (hattempt : attempt.attemptId ≠ "")
    (htransaction : attempt.transactionId ≠ "") (hgen : 1 ≤ attempt.sessionGeneration) :
    Fit (sent attempt a) := by
  have hvalid : ({ a with attempts := a.attempts ++ [attempt] } : Operation I).valid = true :=
    valid_attempt h.valid hattempt htransaction hgen
  have hunknown : unknownAttribution.get? "attribution" = some (.str "unknown") := rfl
  have hvalid' : (C.sent attempt a).valid = true := valid_evidence hvalid (by simp) hunknown
  exact ⟨hvalid', rfl, h.application, rfl, h.mapping, nofun⟩

theorem submitting_twin (h : Same pod true p q) (hab : Alike a b) (hfit : Fit a)
    (hst : a.state = .validated) (hpod : a.podId = pod)
    (hget : ∃ old, p.journal.get? a.operationId = some old)
    (htarget : ∃ target, IntentType.target env.vault a.intent = .ok target)
    (hread : Readable env snap a.intent) (hgen : 1 ≤ snap.generation)
    (hids : answers.attemptId ≠ "" ∧ answers.transactionId ≠ "")
    (hans : Answerable answers.submit) :
    wp (Engine.submitting env ⟨answers.attemptId, answers.transactionId⟩ a snap)
      (Heads pod a.operationId env answers (n + 1) (submitting (twin env) b answers snap q)) p := by
  obtain ⟨target, htarget⟩ := htarget
  obtain ⟨hconfig, hsatisfies⟩ := hread.compares target htarget
  obtain ⟨old, hold⟩ := hget
  have hintent : b.intent = a.intent := by
    obtain ⟨plan, fingerprint, rfl, -⟩ := hab
    rfl
  unfold Engine.submitting submitting
  rw [hintent, twin_target htarget]
  simp only [wp_bind, wp_liftE, htarget, ← hconfig, ← hsatisfies, Bool.and_eq_true]
  split
  · -- nothing to do: the observation is the evidence
    rename_i hnoop
    have hfresh : snap.observed.fresh = true := by
      have := hnoop.1
      exact (Bool.and_eq_true_iff.mp this).1
    obtain ⟨h₁, h₂, h₃⟩ := evidence_holds snap true
    have ht : transition a .observedApplied (evidence snap true) =
        .ok { a with state := .observedApplied } := by
      simp [transition, hst, State.next, h₁, h₂, h₃, hfresh]
    obtain ⟨plan, fingerprint, he, hplan⟩ := hab.moves ht
    simp only [wp_bind, ht]
    rw [← evidence_eq hread.start, he]
    have hab' : Alike (idle snap a) { { a with
        state := .observedApplied, plan := plan, schemaFingerprint := fingerprint } with
        changed := some false, applicationEvidence := some (evidence snap true) } :=
      ⟨plan, fingerprint, rfl, hplan⟩
    exact (wp_bind _ _).mp (Heads.saved h hab' (hfit.idle snap) (by simp) hold)
  · generalize hattempt : (⟨answers.attemptId, answers.transactionId, snap.generation⟩ : Attempt) = attempt
    have hfit' : Fit (sent attempt a) :=
      hfit.sent (hattempt ▸ hids.1) (hattempt ▸ hids.2) (hattempt ▸ hgen)
    have hab₁ : Alike { a with attempts := a.attempts ++ [attempt] }
        { b with attempts := b.attempts ++ [attempt] } := by
      obtain ⟨plan, fingerprint, rfl, hplan⟩ := hab
      exact ⟨plan, fingerprint, rfl, hplan⟩
    have ht : transition { a with attempts := a.attempts ++ [attempt] } .submitted =
        .ok { a with attempts := a.attempts ++ [attempt], state := .submitted } := by
      simp [transition, hst, State.next]
    have hprepared : Alike (sent attempt a) (prepared b answers snap) := by
      obtain ⟨plan, fingerprint, he, hplan⟩ := hab₁.moves ht
      rw [prepared, hattempt, he]
      exact ⟨plan, fingerprint, rfl, hplan⟩
    have hsame := h.save hprepared hfit' (by simp [sent])
    have hsaved : (apply p.journal (.save (sent attempt a))).get? a.operationId =
        some (sent attempt a) := get?_save_self hold
    simp only [wp_bind, wp_liftE, ht]
    rw [show ({ a with attempts := _, state := _, commitEvidence := _ } : Operation I) =
      sent attempt a from rfl, wp_save, if_pos hfit'.valid]
    exact .await (submit_twin hsame hprepared hfit' rfl hpod hans ⟨_, hsaved⟩ attempt)

/-! ## Up to the validation -/

theorem see_twin {busy : Bool} (h : Same pod busy p q) (hstart : snap.instanceId ≠ some "") :
    wp (see pod snap : M I Unit) (fun r p' => r = .ok () ∧ p'.journal = p.journal ∧
      p'.memory.deadlines = p.memory.deadlines ∧ Same pod busy p' (rememberInstance snap q)) p := by
  unfold see rememberInstance
  rw [start?_eq hstart]
  cases hs : snap.instanceId with
  | none => exact ⟨rfl, rfl, rfl, h⟩
  | some start =>
    have hne : start ≠ "" := fun he => hstart (by rw [hs, he])
    have hm := h.memory
    refine ⟨rfl, rfl, rfl, { hm with start := ?_ }, h.journal, h.guards⟩
    rw [Dict.get?_set_self, Option.filter_some_pos (by simpa using hne)]

/-- Both are in the execution of the operation, and have not saved anything yet. -/
structure Executing (pod : String) (env : Env I) (answers : Answers) (a b : Operation I)
    (p : EngineProc I) (q : Process I) : Prop where
  same : Same pod true p q
  alike : Alike a b
  held : p.journal.get? a.operationId = some a
  state : a.state = .requested
  able : Executable pod p.journal env answers a

/-- What an execution in C ends with, before the pod is free again. -/
def executed (env : EmEnv I) (op : Operation I) (answers : Answers) (q : Process I) :
    Operation I × Process I :=
  match validate op answers q with
  | (.error why, q) => reject op why q
  | (.ok (plan, snap), q) =>
    submitting env (validated op plan snap) answers snap (emEngineSave (validated op plan snap) q)

theorem emEngineExecute_eq (e : EmEnv I) (answers : Answers) (hq : q.journal.get? id = some b)
    (hst : b.state = .requested) (hbusy : q.memory.busy = false) :
    emEngineExecute e id answers q = (some (executed e b answers (setBusy true q)).1,
      setBusy false (executed e b answers (setBusy true q)).2) := by
  have hstarts : ¬ (b.state ≠ .requested ∨ q.memory.busy = true) := by simp [hst, hbusy]
  simp only [emEngineExecute, hq, if_neg hstarts, executed]
  obtain ⟨r, q'⟩ := validate b answers (setBusy true q)
  cases r <;> rfl

theorem executed_unseen {e : EmEnv I} {plan : Record}
    (hplan : answers.plan = .ok plan) (hsnap : answers.snapshot = none) :
    executed e b answers q = reject b .notReady q := by
  simp [executed, validate, hplan, hsnap]

theorem executed_seen {e : EmEnv I} (hlive : checkWsc b answers.guard q = true) {plan : Record}
    (hplan : answers.plan = .ok plan) (hsnap : answers.snapshot = some snap) :
    executed e b answers q =
      if snap.ready && checkWsc b answers.guardAgain (rememberInstance snap q) then
        submitting e (validated b plan snap) answers snap
          (emEngineSave (validated b plan snap) (rememberInstance snap q))
      else reject b .notReady (rememberInstance snap q) := by
  simp only [executed, validate, hlive, hplan, hsnap]
  cases snap.ready <;> cases checkWsc b answers.guardAgain (rememberInstance snap q) <;> rfl

namespace Executing

variable (h : Executing pod env answers a b p q)
include h

theorem fit : Fit a := h.same.journal.fit_of_get? h.held

/-- The handler of the validation, whatever was put on the record since. -/
theorem dismissed (reason : Reason) (plan : Option Record)
    (hplan : ∀ r, plan = some r → named r "mapping" = true) :
    wp (Engine.reject { a with plan := plan } reason) (fun r p' => match r with
      | .ok op => Heads pod a.operationId env answers n (reject b reason q) (.ok (.done op)) p'
      | .error x => Heads pod a.operationId env answers n (reject b reason q) (.error x) p') p := by
  have hfit := h.fit
  have hfit' : Fit { a with plan := plan } :=
    { hfit with mapping := hplan }
  obtain ⟨plan', fingerprint, he, -⟩ := h.alike
  rw [he]
  exact Heads.dismissed h.same hfit' (.inl h.state) reason ⟨a, h.held⟩ plan' fingerprint

theorem validates {plan : Record} {snap : Snapshot}
    (hplan : answers.plan = .ok plan) (hsnap : answers.snapshot = some snap) :
    wp (Engine.validated env ⟨answers.attemptId, answers.transactionId⟩ { a with plan := some plan } snap)
      (Heads pod a.operationId env answers (n + 1)
        (submitting (twin env) (validated b plan snap) answers snap
          (emEngineSave (validated b plan snap) q))) p := by
  have hfit := h.fit
  have hst := h.state
  obtain ⟨hread, hgen⟩ := h.able.snapshot snap hsnap
  generalize hnew : { a with
    plan := some plan, schemaFingerprint := some snap.schemaFingerprint, state := .validated } = new
  have ht : transition { a with plan := some plan, schemaFingerprint := some snap.schemaFingerprint }
      .validated = .ok new := by
    rw [← hnew]
    exact transition_of_next (by simp [hst, State.next]) (by simp) (by simp) (by simp) (by simp)
  have hab : Alike new (C.validated b plan snap) := by
    obtain ⟨plan', fingerprint, he, -⟩ := h.alike
    have hright : Alike { a with plan := some plan, schemaFingerprint := some snap.schemaFingerprint }
        { b with
          plan := some plan
          schemaFingerprint := if snap.schemaFingerprint = "" then none
            else some snap.schemaFingerprint } := by
      rw [he]
      exact ⟨_, _, rfl, fun _ => rfl⟩
    exact hright.moves ht
  have hfit' : Fit new := by
    rw [← hnew]
    exact { hfit with
      mapping := fun r hr => Option.some.inj hr ▸ h.able.plan plan hplan
      observed := by simp }
  have hid : new.operationId = a.operationId := by rw [← hnew]
  have hintent : new.intent = a.intent := by rw [← hnew]
  have hheld : p.journal.get? new.operationId = some a := hid ▸ h.held
  have hsaved : (apply p.journal (.save new)).get? new.operationId = some new :=
    get?_save_self hheld
  have hsame := h.same.save hab hfit' (by rw [← hnew]; simp)
  unfold Engine.validated
  rw [wp_catching, wp_get]
  simp only [h.held]
  rw [if_neg (fun hc => hc hst), wp_catching, wp_liftE, ht]
  simp only
  rw [wp_catching, wp_save, if_pos hfit'.valid]
  rw [← hid]
  refine submitting_twin hsame hab hfit' (by rw [← hnew]) (by rw [← hnew]; exact h.able.mine)
    ⟨new, hsaved⟩ (hintent ▸ h.able.target) (hintent ▸ hread) hgen h.able.ids h.able.submit

theorem checkWsc_eq (asked : Bool) :
    checkWsc b asked q = (a.initiatingInterface ≠ "wsc-component" ||
      ((p.journal.receipts.get? a.operationId).any (·.processId = p.memory.processId) &&
        a.operationId ∈ p.memory.wscGuards && asked)) := by
  have hguard := h.same.guards a.operationId (.inr (by rw [Journal.state?, h.held, ← h.state]; rfl))
  obtain ⟨plan, fingerprint, he, -⟩ := h.alike
  unfold checkWsc
  simp only [he, h.same.journal.receipts, h.same.memory.processId, hguard]

omit h in
theorem wp_checkWsc {Q : Except Exn Bool → EngineProc I → Prop} :
    wp (Engine.checkWsc a) Q p ↔
      if a.initiatingInterface ≠ "wsc-component" then Q (.ok false) p
      else if (p.journal.receipts.get? a.operationId).any (·.processId = p.memory.processId) &&
        a.operationId ∈ p.memory.wscGuards then Q (.ok true) p
      else Q (.error (.emosa ⟨.notReady, "WSC exchange authority is no longer live"⟩)) p := by
  unfold Engine.checkWsc
  split
  · rfl
  · simp only [wp_bind, wp_journal, wp_memory, Bool.and_eq_true, decide_eq_true_eq]
    split <;> rfl

theorem seen {snap : Snapshot}
    (hstart : snap.instanceId ≠ some "")
    {Q : Except Exn Unit → EngineProc I → Prop}
    (hnext : ∀ p', Executing pod env answers a b p' (rememberInstance snap q) → Q (.ok ()) p') :
    wp (see a.podId snap) Q p := by
  rw [h.able.mine]
  refine wp_mono (see_twin h.same hstart) ?_
  rintro r p' ⟨rfl, hj, -, hsame⟩
  exact hnext p' ⟨hsame, h.alike, hj ▸ h.held, h.state, hj ▸ h.able⟩

theorem snapshots (hlive : checkWsc b answers.guard q = true)
    {plan : Record} (hplan : answers.plan = .ok plan) :
    wp (drive env answers (n + 3) (.await ⟨{ a with plan := some plan }, .snapshot⟩))
      (Answered pod false ((executed (twin env) b answers q).1,
        setBusy false (executed (twin env) b answers q).2)) p := by
  have hmapping : ∀ r, some plan = some r → named r "mapping" = true :=
    fun r hr => Option.some.inj hr ▸ h.able.plan plan hplan
  refine Heads.resumed (executed (twin env) b answers q) h.able.mine ?_
  show wp (catching _ (admitSnapshot _ _) _) _ p
  rw [wp_catching]
  simp only [admitSnapshot, wp_bind, wp_lift]
  cases hsnap : answers.snapshot with
  | none =>
    rw [executed_unseen hplan hsnap]
    exact h.dismissed .notReady (some plan) hmapping
  | some snap =>
    obtain ⟨hread, -⟩ := h.able.snapshot snap hsnap
    rw [executed_seen hlive hplan hsnap]
    refine h.seen hread.start fun p' h' => ?_
    cases hready : snap.ready with
    | false => exact h'.dismissed .notReady (some plan) hmapping
    | true =>
      simp only [Bool.true_eq_false, if_false, Bool.true_and, wp_bind]
      rw [wp_checkWsc, h'.checkWsc_eq]
      by_cases hwsc : a.initiatingInterface ≠ "wsc-component"
      · rw [if_pos hwsc, decide_eq_true hwsc, Bool.true_or]
        exact h'.validates hplan hsnap
      · rw [if_neg hwsc, decide_eq_false hwsc]
        cases hexchange : (p'.journal.receipts.get? a.operationId).any
            (·.processId = p'.memory.processId) && a.operationId ∈ p'.memory.wscGuards with
        | false => exact h'.dismissed .notReady (some plan) hmapping
        | true =>
          -- the guard of a live exchange is asked once more
          refine .await (Heads.resumed _ h.able.mine ?_)
          show wp (catching _ (lift (Answers.reply.asked answers.guardAgain)) _) _ p'
          rw [wp_catching]
          cases answers.guardAgain with
          | false => exact h'.dismissed .notReady (some plan) hmapping
          | true => exact h'.validates hplan hsnap

theorem plans (hlive : checkWsc b answers.guard q = true) :
    wp (planning a)
      (Heads pod a.operationId env answers (n + 4) (executed (twin env) b answers q)) p := by
  unfold planning
  rw [wp_catching]
  simp only [checkPlan, wp_bind, wp_memory, h.able.mine, h.same.memory.backends,
    List.mem_singleton, not_true_eq_false, if_false, wp_owned, h.able.unclaimed]
  refine .await (Heads.resumed _ h.able.mine ?_)
  show wp (catching a (lift (answers.plan.mapError _)) _) _ p
  rw [wp_catching]
  cases hplan : answers.plan with
  | error why =>
    have hright : executed (twin env) b answers q = reject b why q := by
      simp [executed, validate, hlive, hplan]
    rw [hright]
    exact h.dismissed why a.plan h.fit.mapping
  | ok plan => exact .await (h.snapshots hlive hplan)

theorem begins :
    wp (beginning a)
      (Heads pod a.operationId env answers (n + 5) (executed (twin env) b answers q)) p := by
  have hdead : checkWsc b answers.guard q = false →
      executed (twin env) b answers q = reject b .notReady q := by
    intro hdead
    simp [executed, validate, hdead]
  have hcheck := h.checkWsc_eq answers.guard
  unfold beginning
  simp only [wp_bind, wp_memory, h.able.mine, h.same.memory.backends, List.mem_singleton,
    not_true_eq_false, if_false]
  rw [wp_catching, wp_checkWsc]
  by_cases hwsc : a.initiatingInterface ≠ "wsc-component"
  · rw [decide_eq_true hwsc] at hcheck
    rw [if_pos hwsc]
    exact h.plans hcheck
  · rw [decide_eq_false hwsc] at hcheck
    rw [if_neg hwsc]
    cases hexchange : (p.journal.receipts.get? a.operationId).any
        (·.processId = p.memory.processId) && a.operationId ∈ p.memory.wscGuards with
    | false =>
      rw [hexchange] at hcheck
      rw [hdead hcheck]
      exact h.dismissed .notReady a.plan h.fit.mapping
    | true =>
      rw [hexchange] at hcheck
      refine .await (Heads.resumed _ h.able.mine ?_)
      show wp (catching a (lift (Answers.reply.asked answers.guard)) _) _ p
      rw [wp_catching]
      cases hguard : answers.guard with
      | false =>
        rw [hdead (hcheck.trans hguard)]
        exact h.dismissed .notReady a.plan h.fit.mapping
      | true => exact h.plans (hcheck.trans hguard)

end Executing

theorem execute_twin (h : Same pod false p q)
    (hable : ∀ op, p.journal.get? id = some op → op.state = .requested →
      Executable pod p.journal env answers op) :
    wp (executing env id answers) (Agreed pod false (emEngineExecute (twin env) id answers q)) p := by
  unfold executing execute
  simp only [wp_bind]
  rw [wp_get]
  rcases Related.rel_cases (h.journal.get? id) with ⟨hp, hq⟩ | ⟨a, b, hp, hq, hab⟩ <;> rw [hp]
  · simp only [emEngineExecute, hq]
    exact ⟨.none, h⟩
  by_cases hst : a.state = .requested
  · have hm := h.memory
    have hmine := (hable a hp hst).mine
    have hbusy : ¬ a.podId ∈ p.memory.busy := by simp [hm.executing]
    have hmem : SameMemory pod true { p.memory with busy := a.podId :: p.memory.busy }
        { q.memory with busy := true } :=
      { hm with executing := by simp [hmine, hm.executing], busy := rfl }
    have hexec : Executing pod env answers a b
        { p with memory := { p.memory with busy := a.podId :: p.memory.busy } } (setBusy true q) :=
      ⟨h.remember hmem rfl rfl, hab, get?_id hp ▸ hp, hst, hable a hp hst⟩
    have hall := wp_mono (Heads.closing hmine (hexec.begins (n := 0)))
      fun _ _ hans => Answered.agreed hans
    rw [emEngineExecute_eq (twin env) answers hq (hab.state.trans hst) hm.busy]
    have hrequested : ¬ a.state ≠ .requested := fun hc => hc hst
    simp only [if_neg hrequested, wp_bind, wp_memory, if_neg hbusy, wp_remember]
    exact (wp_bind _ _).mp hall
  · simp only [emEngineExecute, hq, hab.state, hst, ne_eq]
    exact ⟨.some hab, h⟩

end Emosa.C
