import Emosa.Lib.Effects
import Emosa.Engine.Specs

/-!
# Emosa.Engine.Drive

The engine as a scope's tick uses it: one request, and its execution to the end before anything else
of the scope runs. `Replies` is what the backend answers meanwhile.

* `Stays`: what the request fixed of an operation is as it was, and what is known of its commit is
  what the backend told.
* `wp_request`: a request that passes the checks journals its operation.
* `executeWith_effects`: an execution rewrites its own record only.
-/

namespace Emosa

open Durable

variable {I : Type} [IntentType I]

namespace Engine

/-- What the backend and the guard answer during one execution. -/
structure Replies where
  guard : Except Exn Unit := .ok ()
  plan : Except Exn Record
  snapshot : Except Exn Snapshot
  submit : Except Exn SubmitResult
  draw : Draw

def Replies.reply (b : Replies) : Stage → Reply
  | .guard | .recheck _ => .guard b.guard
  | .plan => .plan b.plan
  | .snapshot => .snapshot b.snapshot
  | .submit _ => .submit b.submit

/-- The stages an execution passes. -/
def stages : Nat := 5

/-- The execution from a wait on. Each reply takes it to a later stage. -/
def finish (env : Env I) (b : Replies) : Nat → Next I → M I (Operation I)
  | _, .done op => pure op
  | 0, .await _ => raise .other
  | n + 1, .await task => do finish env b n (← resume env b.draw task (b.reply task.stage))

/-- `execute`, awaited. -/
def executeWith (env : Env I) (b : Replies) (id : String) : M I (Operation I) := do
  finish env b stages (← execute id)

/-- How a tick makes a write: a request, and its execution unless it was settled before. -/
def perform (env : Env I) (r : Request I) (b : Replies) : M I Unit := do
  let op ← request env r
  if op.state = .requested then
    let _ ← executeWith env b op.operationId
    pure ()
  else pure ()

end Engine

/-! ## What stays -/

/-- What a request fixes of its operation. -/
structure Origin (I : Type) where
  operationId : String
  runId : String
  requestSource : String
  initiatingInterface : String
  intent : I
  intentFingerprint : String
  idempotencyKey : String
  deadlineAt : ℚ

omit [IntentType I] in
def Operation.origin (op : Operation I) : Origin I :=
  ⟨op.operationId, op.runId, op.requestSource, op.initiatingInterface, op.intent,
    op.intentFingerprint, op.idempotencyKey, op.deadlineAt⟩

/-- `new` is the record of `op` at another time. `known` is what may be learnt of its commit. -/
structure Stays (known : Record → Prop) (op new : Operation I) : Prop where
  origin : new.origin = op.origin
  evidence : new.commitEvidence = op.commitEvidence ∨ known new.commitEvidence

namespace Stays

omit [IntentType I]

variable {known : Record → Prop} {op new : Operation I}

theorem refl (op : Operation I) : Stays known op op := ⟨rfl, .inl rfl⟩

variable (h : Stays known op new)
include h

theorem id_eq : new.operationId = op.operationId :=
  congrArg Origin.operationId h.origin

theorem intent_eq : new.intent = op.intent :=
  congrArg Origin.intent h.origin

variable {new' : Operation I}

theorem trans (h' : Stays known new new') :
    Stays known op new' := by
  refine ⟨h'.origin.trans h.origin, ?_⟩
  rcases h'.evidence with he | he
  · exact he ▸ h.evidence
  · exact .inr he

theorem congr (ho : new'.origin = new.origin)
    (he : new'.commitEvidence = new.commitEvidence) : Stays known op new' :=
  ⟨ho.trans h.origin, he ▸ h.evidence⟩

theorem learn (ho : new'.origin = new.origin)
    (he : known new'.commitEvidence) : Stays known op new' :=
  ⟨ho.trans h.origin, .inr he⟩

theorem transition {target : State}
    {evidence : Record} (ht : Emosa.transition new target evidence = .ok new') :
    Stays known op new' := by
  obtain ⟨rfl, -, -⟩ := transition_ok ht
  exact h.congr rfl rfl

end Stays

/-- Every record saved is one of `op`. -/
def SavesOf (known : Record → Prop) (op : Operation I) : Write I → Prop
  | .save new => Stays known op new
  | .add _ _ => False
  | .conflict _ _ | .release _ => True

/-- A write that records a conflict records one that `P` allows. -/
def Recording (P : String → Ownership → Prop) : Write I → Prop
  | .conflict pod record => P pod record
  | _ => True

/-- The write saves records of `op` only, and records no conflict but those that `P` allows. -/
def Within (known : Record → Prop) (op : Operation I) (P : String → Ownership → Prop) (w : Write I) :
    Prop := SavesOf known op w ∧ Recording P w

/-- An execution that waits has its own copy of `op`. -/
def Tracked (known : Record → Prop) (op : Operation I) : Next I → Prop
  | .await task => Stays known op task.op
  | .done _ => True

/-- What the process was started with. -/
def Engine.setting (e : Engine) : List String × Nat := (e.backends, e.maxOperations)

section Effects

variable {α : Type} {known : Record → Prop} {op₀ op : Operation I} {s : List String × Nat}
variable {P : String → Ownership → Prop}

/-- The process keeps its settings, and saves records of `op` only. -/
abbrev Rewrites (s : List String × Nat) (known : Record → Prop) (op : Operation I) (Q : α → Prop)
    (m : M I α) : Prop :=
  Effects (fun e => e.setting = s) (SavesOf known op) Q m

/-- The same, with the writes as they were committed, and no conflict recorded but those that `P`
allows. -/
abbrev Works (s : List String × Nat) (known : Record → Prop) (op : Operation I)
    (P : String → Ownership → Prop) (Q : α → Prop) (m : M I α) : Prop :=
  Does (fun e => e.setting = s) (Within known op P) Q m

theorem liftE_effects {K : Engine → Prop} {R : Write I → Prop} {Q : α → Prop}
    {r : Except EmosaError α} (h : ∀ a, r = .ok a → Q a) : Does K R Q (liftE r : M I α) := by
  refine .lift fun a ha => ?_
  cases r with
  | error e => cases ha
  | ok b => exact h a (congrArg _ (Except.ok.inj ha))

theorem transition_effects (h : Stays known op₀ op) (target : State) (evidence : Record) :
    Works s known op₀ P (Stays known op₀) (liftE (transition op target evidence) : M I _) :=
  liftE_effects fun _ ha => h.transition ha

theorem get_effects {K : Engine → Prop} {R : Write I → Prop} (id : String) :
    Does K R (fun _ => True) (Store.get id : M I (Operation I)) := by
  refine .bind (.journal fun _ => trivial) fun j _ => ?_
  split
  · exact .pure trivial
  · exact .raise _

theorem save_effects (h : Stays known op₀ op) :
    Works s known op₀ P (fun _ => True) (Store.save op : M I Unit) :=
  .ite (fun _ => .commit ⟨h, trivial⟩) fun _ => .raise _

namespace Engine

theorem see_effects {R : Write I → Prop} (pod : String) (snap : Snapshot) :
    Does (fun e => e.setting = s) R (fun _ => True) (see pod snap : M I Unit) := by
  unfold see
  split
  · exact .remember fun _ h => h
  · exact .pure trivial

theorem owned_effects (pod : String) :
    Works s known op₀ P (fun _ => True) (owned pod : M I (Option Ownership)) := by
  refine .bind (.journal fun _ => trivial) fun j _ => ?_
  split
  · exact .pure trivial
  · exact .bind .memory fun _ _ =>
      .ite (fun _ => .bind (.commit ⟨trivial, trivial⟩) fun _ _ => .pure trivial) fun _ => .pure trivial

section

variable (h : Stays known op₀ op)
include h

theorem reject_effects (reason : Reason) :
    Works s known op₀ P (Stays known op₀) (reject op reason) := by
  refine .bind (transition_effects h .rejected ∅) fun op' h' => ?_
  have hnew : Stays known op₀ { op' with reason := some reason.value } := h'.congr rfl rfl
  exact .bind (save_effects hnew) fun _ _ => .pure hnew

theorem catching_effects {Q : α → Prop} {m : M I α} {next : α → M I (Next I)} (hm : Works s known op₀ P Q m)
    (hnext : ∀ a, Q a → Works s known op₀ P (Tracked known op₀) (next a)) :
    Works s known op₀ P (Tracked known op₀) (catching op m next) := by
  refine .bind (.attempt hm) fun r hr => ?_
  split
  · exact hnext _ (hr _ rfl)
  · exact .bind (reject_effects h _) fun _ _ => .pure trivial
  · exact .raise _

omit h in
theorem checkWsc_effects (op : Operation I) :
    Works s known op₀ P (fun _ => True) (checkWsc op) :=
  .ite (fun _ => .pure trivial) fun _ => .bind (.journal fun _ => trivial) fun _ _ =>
    .bind .memory fun _ _ => .bind .memory fun _ _ =>
      .ite (fun _ => .pure trivial) fun _ => .raise _

theorem planning_effects :
    Works s known op₀ P (Tracked known op₀) (planning op) :=
  catching_effects (Q := fun _ => True) h
    (.bind .memory fun _ _ => .ite (fun _ => .raise _) fun _ => .bind (owned_effects _) fun _ _ =>
      .ite (fun _ => .raise _) fun _ => .pure trivial)
    fun _ _ => .pure h

theorem submitting_effects (hknown : known unknownAttribution)
    (env : Env I) (draw : Draw) (snap : Snapshot) :
    Works s known op₀ P (Tracked known op₀) (submitting env draw op snap) := by
  refine .bind (liftE_effects fun _ _ => trivial) fun target _ => .ite (fun _ => ?_) fun _ => ?_
  · refine .bind (transition_effects h _ _) fun op' h' => ?_
    exact .bind (save_effects (h'.congr rfl rfl)) fun _ _ => .pure trivial
  · have hop : Stays known op₀ { op with
        attempts := op.attempts ++ [⟨draw.attemptId, draw.transactionId, snap.generation⟩] } :=
      h.congr rfl rfl
    refine .bind (transition_effects hop _ _) fun op' h' => ?_
    have hnew : Stays known op₀ { op' with commitEvidence := unknownAttribution } :=
      h'.learn rfl hknown
    exact .bind (save_effects hnew) fun _ _ => .pure hnew

theorem validated_effects (hknown : known unknownAttribution)
    (env : Env I) (draw : Draw) (snap : Snapshot) :
    Works s known op₀ P (Tracked known op₀) (validated env draw op snap) := by
  refine catching_effects h (get_effects _) fun current _ => .ite (fun _ => .pure trivial) fun _ => ?_
  have hop : Stays known op₀ { op with schemaFingerprint := some snap.schemaFingerprint } :=
    h.congr rfl rfl
  refine catching_effects hop (transition_effects hop _ _) fun op' h' => ?_
  exact catching_effects h' (save_effects h') fun _ _ => submitting_effects h' hknown _ _ _

omit h in
theorem admitSnapshot_effects (op : Operation I) (reply : Except Exn Snapshot) :
    Works s known op₀ P (fun _ => True) (admitSnapshot op reply) :=
  .bind (.lift fun _ _ => trivial) fun _ _ => .bind (see_effects _ _) fun _ _ =>
    .ite (fun _ => .raise _) fun _ => .bind (checkWsc_effects _) fun _ _ => .pure trivial

omit [IntentType I] in
theorem refused_stays {result : SubmitResult}
    (hknown : known result.evidence) : Stays known op₀ (refused op result) := by
  unfold refused
  split
  · exact h.learn rfl hknown
  · exact h

theorem outcome_effects {reply : Except Exn SubmitResult}
    (hknown : ∀ result, reply = .ok result → known result.evidence)
    (hP : ∀ result, reply = .ok result → result.status = .conflict → ∀ id,
      P op₀.podId { operationId := id, reason := result.reason }) :
    Works s known op₀ P (Stays known op₀) (outcome op reply) := by
  have hlost : Works s known op₀ P (Stays known op₀) (unknownOutcome op) :=
    .bind (transition_effects h _ _) fun _ h' => .pure (h'.congr rfl rfl)
  unfold outcome
  split
  · exact .raise _
  · exact hlost
  · rename_i result
    have he := hknown result rfl
    split
    · exact .bind (transition_effects h _ _) fun _ h' => .pure (h'.learn rfl he)
    · rename_i hstatus
      refine .bind (transition_effects h _ _) fun op' h' => ?_
      have hnew : Stays known op₀ { op' with reason := some Reason.ownershipConflict.value } :=
        h'.congr rfl rfl
      refine .bind (.commit ⟨trivial, ?_⟩) fun _ _ => .pure (refused_stays hnew he)
      rw [Operation.podId, (refused_stays hnew he).intent_eq]
      exact hP result rfl hstatus _
    · refine .bind (transition_effects h _ _) fun op' h' => ?_
      have hnew : Stays known op₀ { op' with reason := result.reason } := h'.congr rfl rfl
      exact .pure (refused_stays hnew he)
    · exact hlost

end

theorem close_effects (op : Operation I) : Works s known op₀ P (fun _ => True) (close op) :=
  .bind (.remember fun _ h => h) fun _ _ => .bind (get_effects _) fun _ _ =>
    .ite (fun _ => .remember fun _ h => h) fun _ => .pure trivial

theorem closing_effects {m : M I (Next I)} (hm : Works s known op₀ P (Tracked known op₀) m) :
    Works s known op₀ P (Tracked known op₀) (closing op m) := by
  refine .bind (.attempt hm) fun r hr => ?_
  split
  · exact .pure (hr _ rfl)
  · exact .bind (close_effects _) fun _ _ => .pure trivial
  · exact .bind (close_effects _) fun _ _ => .raise _

theorem resume_effects {task : Task I} (h : Stays known op₀ task.op)
    (hknown : known unknownAttribution) {reply : Reply}
    (hreply : ∀ result, reply = .submit (.ok result) → known result.evidence)
    (hP : ∀ result, reply = .submit (.ok result) → result.status = .conflict → ∀ id,
      P op₀.podId { operationId := id, reason := result.reason }) (env : Env I) (draw : Draw) :
    Works s known op₀ P (Tracked known op₀) (resume env draw task reply) := by
  refine closing_effects ?_
  unfold continuing
  split
  · exact catching_effects h (.lift fun _ _ => trivial) fun _ _ =>
      planning_effects h
  · exact catching_effects h (.lift fun _ _ => trivial) fun _ _ =>
      .pure (h.congr rfl rfl)
  · refine catching_effects h (admitSnapshot_effects _ _) fun a _ => .ite (fun _ => ?_) fun _ => ?_
    · exact .pure h
    · exact validated_effects h hknown _ _ _
  · exact catching_effects h (.lift fun _ _ => trivial) fun _ _ =>
      validated_effects h hknown _ _ _
  · rename_i r hstage
    refine .bind (outcome_effects h (fun result hr => hreply result (by rw [hr]))
      fun result hr => hP result (by rw [hr])) fun op' h' => ?_
    exact .bind (save_effects h') fun _ _ => .pure trivial
  · exact .pure h

variable {p : EngineProc I}

variable (known P) in
theorem execute_effects {id : String} (hop : p.journal.get? id = some op)
    (hs : p.memory.setting = s) :
    wp (execute id) (fun r p' => Committed (Within known op P) p p' ∧ p'.memory.setting = s ∧
      ∀ next, r = .ok next → Tracked known op next) p := by
  have hself : Stays known op op := .refl op
  have hbody : Works s known op P (Tracked known op) (do
      if op.state ≠ .requested then pure (.done op)
      else if op.podId ∈ (← memory).busy then fail .busy "pod already executing"
      else
        remember fun e => { e with busy := op.podId :: e.busy }
        closing op (beginning op) : M I (Next I)) := by
    refine .ite (fun _ => .pure trivial) fun _ => .bind .memory fun _ _ =>
      .ite (fun _ => .raise _) fun _ => .bind (.remember fun _ h => h) fun _ _ => closing_effects ?_
    refine .bind .memory fun _ _ => .ite (fun _ => .raise _) fun _ =>
      catching_effects hself (checkWsc_effects _) fun asked _ => .ite (fun _ => .pure hself) fun _ => ?_
    exact planning_effects hself
  unfold execute
  rw [wp_bind, wp_get, hop]
  exact hbody p hs

theorem finish_effects {b : Replies} (hknown : known unknownAttribution)
    (hsubmit : ∀ result, b.submit = .ok result → known result.evidence) (env : Env I) (n : Nat) :
    ∀ next : Next I, Tracked known op₀ next →
      Works s known op₀ (fun _ _ => True) (fun _ => True) (finish env b n next) := by
  have hreply : ∀ (stage : Stage) result, b.reply stage = .submit (.ok result) →
      known result.evidence := by
    intro stage result hr
    cases stage with
    | submit attempt => exact hsubmit result (Reply.submit.inj hr)
    | guard | plan | snapshot | recheck => cases hr
  induction n with
  | zero =>
    rintro (op | task) h
    · exact .pure trivial
    · exact .raise _
  | succ n ih =>
    rintro (op | task) h
    · exact .pure trivial
    · exact .bind (resume_effects h hknown (hreply _) (fun _ _ _ _ => trivial) _ _) fun next h' =>
        ih next h'

theorem executeWith_effects {b : Replies} {id : String} (hop : p.journal.get? id = some op)
    (hs : p.memory.setting = s) (hknown : known unknownAttribution)
    (hsubmit : ∀ result, b.submit = .ok result → known result.evidence) (env : Env I) :
    wp (executeWith env b id) (fun _ p' =>
      Committed (Within known op fun _ _ => True) p p' ∧ p'.memory.setting = s) p := by
  unfold executeWith
  rw [wp_bind]
  refine wp_mono (execute_effects known (fun _ _ => True) hop hs) ?_
  rintro (x | next) p₁ ⟨hw, hs₁, hn⟩
  · exact ⟨hw, hs₁⟩
  · refine wp_mono (finish_effects hknown hsubmit env stages next (hn next rfl) p₁ hs₁) ?_
    rintro r p₂ ⟨hw', hs₂, -⟩
    exact ⟨hw.trans hw', hs₂⟩

/-! ## A whole write -/

/-- What a write may save: its own record, and unfinished ones of `rows` that it gives up. -/
def Working (known : Record → Prop) (rows : List (Operation I)) (op : Operation I) : Write I → Prop
  | .save new => Stays known op new ∨ new.state.active = false ∧
      ∃ q ∈ rows, q.operationId ≠ op.operationId ∧ Stays known q new
  | .add _ _ => False
  | .conflict _ _ | .release _ => True

omit [IntentType I] in
theorem SavesOf.of_stays {row : Operation I} {w : Write I} (h : SavesOf known row w)
    (hrow : Stays known op row) : SavesOf known op w := by
  cases w with
  | save new => exact hrow.trans h
  | add => exact h
  | conflict | release => trivial

/-- The journal has a record of `op`. -/
def Held (known : Record → Prop) (op : Operation I) (j : Journal I) : Prop :=
  ∃ row, j.get? op.operationId = some row ∧ Stays known op row

omit [IntentType I] in
theorem SavesOf.working {w : Write I} (h : SavesOf known op w) (rows : List (Operation I)) :
    Working known rows op w := by
  cases w with
  | save new => exact .inl h
  | add => exact h
  | conflict | release => trivial

theorem Held.written (holds : Operation I → Bool) {rows : List (Operation I)} {j : Journal I}
    {w : Write I} (hw : Working known rows op w) (h : Held known op j) :
    Held known op (j.written holds w) := by
  obtain ⟨row, hrow, hstays⟩ := h
  cases w with
  | add => exact hw.elim
  | conflict | release => exact ⟨row, hrow, hstays⟩
  | save new =>
    rcases hw with hnew | ⟨-, q, -, hne, hq⟩
    · refine ⟨new, ?_, hnew⟩
      have hself : (j.apply (.save new)).get? new.operationId = some new :=
        Journal.get?_save_self (hnew.id_eq ▸ hrow)
      exact hnew.id_eq ▸ hself
    · exact ⟨row, (Journal.get?_save_ne j (hq.id_eq ▸ hne.symm)).trans hrow, hstays⟩

theorem settleOthers_effects {rows : List (Operation I)} {pod : String} {current : Option String}
    (rest : List (Operation I)) (hrest : ∀ q ∈ rest, q ∈ rows) :
    Does (fun e => e.setting = s) (fun w => Working known rows op w ∧ Recording P w) (fun _ => True)
      (settleOthers pod op.operationId current rest) := by
  induction rest with
  | nil => exact .pure trivial
  | cons q rest ih =>
    have hih := ih fun q hq => hrest q (List.mem_cons_of_mem _ hq)
    refine .ite (fun hq => .bind (Q := fun _ => True) ?_ fun _ _ => hih) fun _ => hih
    refine .ite (fun hset => ?_) fun _ => .pure trivial
    refine .bind (Q := fun q' => q'.state = .failed ∧ Stays known q q') (.lift fun q' hq' => ?_)
      fun q' hq' => .bind (.ite (fun _ => .commit ?_) fun _ => .raise _) fun _ _ => .pure trivial
    · cases ht : transition q .failed with
      | error e => rw [ht] at hq'; cases hq'
      | ok moved =>
        rw [ht] at hq'
        obtain rfl : moved = q' := Except.ok.inj hq'
        exact ⟨by rw [(transition_ok ht).1], (Stays.refl q).transition ht⟩
    · refine ⟨.inr ⟨?_, q, hrest q List.mem_cons_self, hq.2, hq'.2.congr rfl rfl⟩, trivial⟩
      rw [hq'.1]
      rfl

variable (known P) in
theorem grant_effects {r : Request I} (hs : p.memory.setting = s) :
    wp (grant r op) (fun res p' =>
      Committed (fun w => Working known p.journal.operations op w ∧ Recording P w) p p' ∧
      p'.memory.setting = s ∧ ∀ op', res = .ok op' → Stays known op op') p := by
  have hworking : ∀ w, Within known op P w →
      Working known p.journal.operations op w ∧ Recording P w :=
    fun _ h => ⟨SavesOf.working h.1 _, h.2⟩
  have hself : Stays known op op := .refl op
  have hbody : Does (fun e => e.setting = s)
      (fun w => Working known p.journal.operations op w ∧ Recording P w) (Stays known op) (do
        let current := (← memory).instances.get? r.podId
        settleOthers r.podId op.operationId current p.journal.operations
        if held (← memory) (← journal) r.podId op.operationId then reject op .busy
        else if (← owned r.podId).isSome then reject op .ownershipConflict
        else pure op : M I (Operation I)) := by
    refine .bind .memory fun _ _ => .bind (settleOthers_effects _ fun _ h => h) fun _ _ =>
      .bind .memory fun _ _ => .bind (.journal fun _ => trivial) fun _ _ => ?_
    have hreject := fun reason => (reject_effects (s := s) hself reason).mono hworking fun _ h => h
    exact .ite (fun _ => hreject _) fun _ => .bind ((owned_effects _).mono hworking fun _ h => h)
      fun _ _ => .ite (fun _ => hreject _) fun _ => .pure hself
  simp only [grant, wp_bind]
  have hrun := hbody p hs
  simp only [wp_bind] at hrun
  exact hrun

/-- The request passes every check, and no retained operation has its key. -/
structure Admissible (env : Env I) (r : Request I) (target : Record)
    (p : EngineProc I) : Prop where
  validate : IntentType.validate r.intent = .ok ()
  semantic : r.initiatingInterface = "semantic"
  receipt : r.wscReceipt = none
  source : r.source ≠ ""
  key : r.key ≠ "" ∧ r.key.length ≤ 128
  deadline : 0 < r.deadline ∧ r.deadline ≤ 3600
  pod : r.podId ∈ p.memory.backends
  target : IntentType.target env.vault r.intent = .ok target
  unused : p.journal.lookup r.source r.podId r.key = none
  record : ∀ fingerprint, (r.operation env fingerprint).valid = true
  budget : p.journal.operations.length < p.memory.maxOperations

def journaled (env : Env I) (r : Request I) (op : Operation I)
    (p : EngineProc I) : EngineProc I :=
  { p.commit (.add op none) with
    memory := { p.memory with
      deadlines := p.memory.deadlines.set r.operationId (env.monotonic + r.deadline) } }

theorem wp_request {env : Env I} {r : Request I} {target : Record}
    {Q : Except Exn (Operation I) → EngineProc I → Prop}
    (h : Admissible env r target p) : wp (request env r) Q p ↔
      wp (grant r (r.operation env (env.vault.fingerprintIntent r.intent target))) Q
        (journaled env r (r.operation env (env.vault.fingerprintIntent r.intent target)) p) := by
  have hsame : { r with wscReceipt := none } = r := by
    have hreceipt := h.receipt
    cases r
    cases hreceipt
    rfl
  have hwsc : ¬ r.initiatingInterface = "wsc-component" := by rw [h.semantic]; decide
  have hbad : ¬ (r.source = "" ∨ r.key = "" ∨ 128 < r.key.length ∨
      ¬ (0 < r.deadline ∧ r.deadline ≤ 3600)) := by
    rintro (hc | hc | hc | hc)
    · exact h.source hc
    · exact h.key.1 hc
    · exact absurd h.key.2 (not_le.mpr hc)
    · exact hc h.deadline
  have hinterface : ¬ (r.initiatingInterface ≠ "semantic" ∧
      (r.initiatingInterface ≠ "wsc-component" ∨ r.wscReceipt = none)) := fun hc => hc.1 h.semantic
  have hbudget : ¬ p.memory.maxOperations ≤ p.journal.operations.length := not_le.mpr h.budget
  have hop := h.record (env.vault.fingerprintIntent r.intent target)
  have hop' : ¬ (r.operation env (env.vault.fingerprintIntent r.intent target)).initiatingInterface =
      "wsc-component" := hwsc
  rw [request, if_neg (not_not_intro h.semantic), hsame, requestInternal, wp_bind, wp_liftE, h.validate]
  rw [if_neg hinterface, if_neg hbad, wp_bind, wp_memory]
  simp only
  rw [if_neg (not_not_intro h.pod), wp_bind, wp_liftE, h.target]
  simp only [wp_bind, wp_journal, h.unused, h.receipt]
  simp only [Store.add, hop, Bool.true_eq_false, if_false, hop', wp_bind, wp_memory, wp_journal, hbudget]
  exact Iff.rfl

/-- A write whose request passes: its operation is journaled, and from there on only records it may
save are saved. -/
theorem perform_effects {env : Env I} {r : Request I} {target : Record} {b : Replies}
    (h : Admissible env r target p) (hfresh : p.journal.get? r.operationId = none)
    (hs : p.memory.setting = s) (hknown : known unknownAttribution)
    (hsubmit : ∀ result, b.submit = .ok result → known result.evidence) :
    ∃ fingerprint, wp (perform env r b) (fun _ p' =>
      Wrote (Working known (journaled env r (r.operation env fingerprint) p).journal.operations
        (r.operation env fingerprint)) (journaled env r (r.operation env fingerprint) p) p' ∧
      p'.memory.setting = s) p := by
  refine ⟨env.vault.fingerprintIntent r.intent target, ?_⟩
  generalize hop : r.operation env (env.vault.fingerprintIntent r.intent target) = op
  unfold perform
  rw [wp_bind, wp_request h, hop]
  have hid : op.operationId = r.operationId := hop ▸ rfl
  have hadded : Held known op (journaled env r op p).journal :=
    ⟨op, Journal.get?_add_self none (hid ▸ hfresh), .refl op⟩
  refine wp_mono (grant_effects known (fun _ _ => True) hs) ?_
  rintro (x | op') p₁ ⟨hgrant, hs₁, hop'⟩ <;>
    have hw := (hgrant.mono fun _ h => h.1).wrote
  · exact ⟨hw, hs₁⟩
  · simp only
    split
    · obtain ⟨row, hrow, hstays⟩ := hw.preserves (fun j w hw => Held.written holdsRows hw) hadded
      rw [wp_bind, (hop' op' rfl).id_eq]
      refine wp_mono (executeWith_effects hrow hs₁ hknown hsubmit env) ?_
      intro res p₂ ⟨hexec, hs₂⟩
      have hall : Wrote (Working known (journaled env r op p).journal.operations op) p₁ p₂ :=
        (hexec.mono fun _ h => SavesOf.working (SavesOf.of_stays h.1 hstays) _).wrote
      cases res with
      | error | ok => exact ⟨hw.trans hall, hs₂⟩
    · exact ⟨hw, hs₁⟩

end Engine

end Effects

end Emosa
