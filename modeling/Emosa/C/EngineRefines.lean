import Emosa.C.ReconcileTwin

/-!
# Emosa.C.EngineRefines

The engine in C does what the other one does, call by call: from processes that are the `Same`, a
call that is `Fitting` is answered alike and leaves processes that are the `Same`.

* `cancel_twin`, `recover_twin`, `turn_twin`: the remaining calls, and any call.
* `c_engine_refines`: every sequence of calls.
-/

namespace Emosa.C

open Durable Emosa.Sample Option

variable {I : Type} [IntentType I] {pod : String} {busy : Bool}
variable {p : EngineProc I} {q : Process I} {a b : Operation I}

theorem Fit.moved (h : Fit a) {s : State} (hs : s ≠ .observedApplied) : Fit { a with state := s } :=
  { h with observed := fun hc => absurd hc hs }

theorem cancelled_twin (hab : Alike a b) (hfit : Fit a)
    (hst : a.state = .requested ∨ a.state = .validated) :
    transition a .cancelled = .ok { a with state := .cancelled } ∧
      emTransition b .cancelled = some (moved b .cancelled) ∧
      Alike { a with state := .cancelled } (moved b .cancelled) ∧ Fit { a with state := .cancelled } := by
  have hnext : State.cancelled ∈ a.state.next := by
    rcases hst with hst | hst <;> simp [hst, State.next]
  have ht : transition a .cancelled = .ok { a with state := .cancelled } :=
    transition_of_next hnext (by simp) (by simp) (by simp) (by simp)
  refine ⟨ht, ?_, hab.moves ht, hfit.moved (by simp)⟩
  rw [C.moved, hab.permitted ht]
  rfl

theorem cancel_twin (h : Same pod busy p q) {id : String}
    (hst : ∀ op, p.journal.get? id = some op → op.state = .requested ∨ op.state = .validated) :
    wp (Engine.cancel id) (Agreed pod busy
      ((q.journal.get? id).map (C.moved · .cancelled), emEngineCancel id q)) p := by
  unfold Engine.cancel emEngineCancel
  rw [wp_bind, wp_get]
  rcases Related.rel_cases (h.journal.get? id) with ⟨hp, hq⟩ | ⟨a, b, hp, hq, hab⟩
  · rw [hp, hq]
    exact ⟨.none, h⟩
  · obtain ⟨ht, hright, hab', hfit'⟩ := cancelled_twin hab (h.journal.fit_of_get? hp) (hst a hp)
    simp only [hp, hq, wp_bind, wp_liftE, ht, bind_some, hright]
    rw [wp_save, if_pos hfit'.valid]
    exact ⟨.some hab', h.save hab' hfit' (by simp)⟩

/-- The record of a submission that a restart leaves to observation. -/
def unresolved (op : Operation I) : Operation I :=
  { op with
    state := .indeterminate, commitEvidence := Engine.unknownAttribution
    reason := some Reason.outcomeUnknown.value }

theorem Fit.unresolved (h : Fit a) : Fit (unresolved a) := by
  have hunknown : Engine.unknownAttribution.get? "attribution" = some (.str "unknown") := rfl
  have hvalid : (C.unresolved a).valid = true := valid_evidence h.valid (by simp) hunknown
  exact ⟨hvalid, rfl, h.application, rfl, h.mapping, nofun⟩

theorem recoverOne_twin (h : Same pod busy p q) (hab : Alike a b) (hfit : Fit a) :
    wp (Engine.recoverOne a) (fun r p' => r = .ok () ∧
      Same pod busy p' (match recovered b with
        | some op => emEngineSave op q
        | none => q)) p := by
  have hinterface : b.initiatingInterface = a.initiatingInterface := by
    obtain ⟨plan, fingerprint, rfl, -⟩ := hab
    rfl
  have hcancel : a.state = .requested ∨ a.state = .validated →
      wp (do
        let op ← liftE (transition a .cancelled)
        Store.save op : M I Unit) (fun r p' => r = .ok () ∧
          Same pod busy p' (emEngineSave (C.moved b .cancelled) q)) p := by
    intro hst
    obtain ⟨ht, -, hab', hfit'⟩ := cancelled_twin hab hfit hst
    rw [wp_bind, wp_liftE, ht]
    dsimp only
    rw [wp_save, if_pos hfit'.valid]
    exact ⟨rfl, h.save hab' hfit' (by simp)⟩
  unfold Engine.recoverOne recovered
  rw [hinterface, hab.state]
  by_cases hwsc : a.initiatingInterface = "wsc-component" ∧ a.state = .requested
  · rw [if_pos hwsc, if_pos hwsc]
    exact hcancel (.inl hwsc.2)
  rw [if_neg hwsc, if_neg hwsc]
  by_cases hsub : a.state = .submitted
  · rw [if_pos hsub, if_pos hsub]
    have ht : transition a .indeterminate = .ok { a with state := .indeterminate } :=
      transition_submitted hsub (.inr (.inl rfl))
    have hab' : Alike (unresolved a) (because { C.moved b .indeterminate with
        commitEvidence := (∅ : Record).set "attribution" (.str "unknown") } .outcomeUnknown) := by
      obtain ⟨plan, fingerprint, he, hplan⟩ := hab.moves ht
      rw [he]
      exact ⟨plan, fingerprint, rfl, hplan⟩
    rw [wp_bind, wp_liftE, ht]
    refine (wp_save (unresolved a)).mpr ?_
    rw [if_pos hfit.unresolved.valid]
    exact ⟨rfl, h.save hab' hfit.unresolved (by simp [unresolved])⟩
  rw [if_neg hsub, if_neg hsub]
  by_cases hval : a.state = .validated
  · rw [if_pos hval, if_pos hval]
    exact hcancel (.inr hval)
  · rw [if_neg hval, if_neg hval]
    exact ⟨rfl, h⟩

theorem recoverFrom_twin {rows rows' : List (Operation I)} (hrows : List.Forall₂ Alike rows rows')
    (hfit : ∀ row ∈ rows, Fit row) (h : Same pod busy p q) :
    wp (Engine.recoverFrom rows) (fun r p' => r = .ok () ∧ Same pod busy p' (recoverFrom rows' q)) p := by
  induction hrows generalizing p q with
  | nil => exact ⟨rfl, h⟩
  | @cons a b rest rest' hab _ ih =>
    unfold Engine.recoverFrom recoverFrom
    rw [wp_bind]
    refine wp_mono (recoverOne_twin h hab (hfit a List.mem_cons_self)) ?_
    rintro r p' ⟨rfl, hsame⟩
    have hrest := fun row hrow => hfit row (List.mem_cons_of_mem a hrow)
    cases hrec : recovered b with
    | some op | none =>
      rw [hrec] at hsame
      exact ih hrest hsame

theorem recover_twin (h : Same pod busy p q) :
    wp (Engine.recover : M I Unit)
      (fun r p' => r = .ok () ∧ Same pod busy p' (emEngineRecover q)) p := by
  exact recoverFrom_twin h.journal.rows h.journal.fit h

/-! ## Calls -/

/-- Both answer the call alike, and are the same after it. -/
def Twinned (pod : String) (p : Option (Operation I) × Proc Engine (Journal I) (Write I))
    (q : Option (Operation I) × Process I) : Prop :=
  Option.Rel Alike p.1 q.1 ∧ Same pod false p.2 q.2

theorem pyTurn_of_wp {call : Twin I} {out : Option (Operation I) × Process I}
    (h : wp (call.program pod) (fun r p' => Option.Rel Alike r.toOption.join out.1 ∧
      Same pod false p' out.2) p) : Twinned pod (pyTurn pod p call) out := by
  unfold wp at h
  unfold pyTurn
  split at h <;> rename_i hm <;> rw [hm] <;> exact h

theorem wp_some {m : M I (Operation I)} {out : Option (Operation I) × Process I}
    (h : wp m (Agreed pod false out) p) :
    wp (some <$> m) (fun r p' => Option.Rel Alike r.toOption.join out.1 ∧ Same pod false p' out.2) p := by
  rw [map_eq_pure_bind, wp_bind]
  refine wp_mono h ?_
  intro r p' hans
  cases r <;> exact hans

theorem SameMemory.fresh (pod processId : String) (mapping : Option String) :
    SameMemory pod false { processId := processId, backends := [pod], maxOperations := emMaxOperations }
      { podId := pod, processId := processId, mapping := mapping } :=
  ⟨rfl, rfl, rfl, rfl, rfl, rfl, rfl, rfl, nofun⟩

theorem turn_twin (h : Same pod false p q) {call : Twin I} (hfit : Fitting pod (p, q) call) :
    Twinned pod (pyTurn pod p call) (cTurn q call) := by
  refine pyTurn_of_wp ?_
  cases call with
  | request env r =>
    obtain ⟨hkey, hvalid⟩ := hfit
    unfold Twin.program cTurn
    rw [wp_bind, wp_journal, h.journal.issued]
    dsimp only
    by_cases hissued : p.journal.issued.contains r.operationId = true
    · rw [if_pos hissued, if_pos hissued]
      exact ⟨.none, h⟩
    · rw [if_neg hissued, if_neg hissued]
      exact wp_some (request_twin h (by simpa using hissued) hkey hvalid)
  | execute env id answers => exact wp_some (execute_twin h hfit)
  | reconcile env reply =>
    unfold Twin.program cTurn
    rw [wp_bind]
    cases reply with
    | none =>
      unfold Engine.reconcile
      simp only [wp_bind, wp_memory, h.memory.backends, List.mem_singleton]
      exact ⟨.none, h⟩
    | some snap =>
      obtain ⟨hstart, hmap, hne, htarget⟩ := hfit snap rfl
      refine wp_mono (reconcile_twin h hmap hne hstart htarget) ?_
      intro r p' hsame
      cases r <;> exact ⟨.none, hsame⟩
  | cancel id => exact wp_some (cancel_twin h hfit)
  | recover =>
    unfold Twin.program cTurn
    rw [wp_bind]
    refine wp_mono (recover_twin h) ?_
    rintro r p' ⟨rfl, hsame⟩
    exact ⟨.none, hsame⟩
  | restart processId =>
    refine ⟨.none, ?_, h.journal, fun _ _ => by simp [cTurn, emStep]⟩
    simp only [cTurn, emStep, h.memory.podId]
    exact SameMemory.fresh pod processId q.memory.mapping
  | guard wscOp =>
    have hm := h.memory
    refine ⟨.none, { hm with }, h.journal, fun id _ => ?_⟩
    show id ∈ wscOp.toList ↔ wscOp = some id
    rw [mem_toList]

/-! ## Sequences of calls -/

/-- What a call returns, as far as the caller reads it. -/
def said (answer : Option (Operation I)) : Option (State × Option String) :=
  answer.map fun op => (op.state, op.reason)

def pyAnswers (pod : String) :
    Proc Engine (Journal I) (Write I) → List (Twin I) → List (Option (State × Option String))
  | _, [] => []
  | p, call :: calls => said (pyTurn pod p call).1 :: pyAnswers pod (pyTurn pod p call).2 calls

def cAnswers : Process I → List (Twin I) → List (Option (State × Option String))
  | _, [] => []
  | q, call :: calls => said (cTurn q call).1 :: cAnswers (cTurn q call).2 calls

/-- What a record says of its operation: its state and reason, what is attributed to whom, and the
deadline's flags. -/
structure View where
  operationId : String
  state : State
  reason : Option String
  committed : Option Value
  applied : Option Value
  deadlineElapsed : Bool
  originalOutcome : Option State
  lateResolution : Option String
  deriving DecidableEq, Repr

def view (op : Operation I) : View where
  operationId := op.operationId
  state := op.state
  reason := op.reason
  committed := op.commitEvidence.get? "attribution"
  applied := op.applicationEvidence.bind (·.get? "attribution")
  deadlineElapsed := op.deadlineElapsed
  originalOutcome := op.originalOutcome
  lateResolution := op.lateResolution

section

omit [IntentType I]

theorem Alike.view (h : Alike a b) : view b = view a := by
  obtain ⟨plan, fingerprint, rfl, -⟩ := h
  rfl

theorem Alike.said {x y : Option (Operation I)} (h : Option.Rel Alike x y) : said y = said x := by
  cases h with
  | none => rfl
  | some hab =>
    obtain ⟨plan, fingerprint, rfl, -⟩ := hab
    rfl

theorem Alike.views {rows rows' : List (Operation I)} (h : List.Forall₂ Alike rows rows') :
    rows'.map C.view = rows.map C.view := by
  induction h with
  | nil => rfl
  | cons hab _ ih => rw [List.map_cons, List.map_cons, hab.view, ih]

theorem alike_self (rows : List (Operation I)) : List.Forall₂ Alike rows rows :=
  List.forall₂_same.mpr fun op _ => .refl op

end

/-- Processes of both that start on the same journal. -/
def start (pod processId : String) (mapping : Option String) (j : Journal I) :
    Proc Engine (Journal I) (Write I) × Process I :=
  (⟨{ processId := processId, backends := [pod], maxOperations := emMaxOperations }, j, []⟩,
    ⟨{ podId := pod, processId := processId, mapping := mapping }, ⟨j⟩, []⟩)

theorem start_same {processId : String} {mapping : Option String} {j : Journal I} (hj : j.Distinct)
    (hfit : ∀ op ∈ j.operations, Fit op)
    (hseen : ∀ pod record, j.ownership.get? pod = some record → record.instanceId ≠ some "") :
    Same pod false (start pod processId mapping j).1 (start pod processId mapping j).2 :=
  ⟨SameMemory.fresh pod processId mapping,
    ⟨alike_self j.operations, rfl, rfl, rfl, hj, hfit, hseen⟩, fun _ _ => by simp [start]⟩

theorem answers_twin {s : EngineProc I × Process I} {calls : List (Twin I)}
    (h : Same pod false s.1 s.2) (hmeets : Meets (turn pod) (Fitting pod) s calls) :
    cAnswers s.2 calls = pyAnswers pod s.1 calls ∧
      Same pod false (runs (turn pod) s calls).1 (runs (turn pod) s calls).2 := by
  induction calls generalizing s with
  | nil => exact ⟨rfl, h⟩
  | cons call calls ih =>
    obtain ⟨hans, hsame⟩ := turn_twin h hmeets.1
    obtain ⟨hrest, hend⟩ := ih hsame hmeets.2
    refine ⟨?_, hend⟩
    rw [cAnswers, Alike.said hans]
    exact congrArg _ hrest

/-- The engine in C answers every sequence of calls as the other one does, and leaves the same
records, where each call is `Fitting`. -/
theorem c_engine_refines {processId : String} {mapping : Option String} {j : Journal I}
    (hj : j.Distinct) (hfit : ∀ op ∈ j.operations, Fit op)
    (hseen : ∀ pod record, j.ownership.get? pod = some record → record.instanceId ≠ some "")
    {calls : List (Twin I)}
    (h : Meets (turn pod) (Fitting pod) (start pod processId mapping j) calls) :
    cAnswers (start pod processId mapping j).2 calls =
        pyAnswers pod (start pod processId mapping j).1 calls ∧
      (runs (turn pod) (start pod processId mapping j) calls).2.journal.operations.map view =
        (runs (turn pod) (start pod processId mapping j) calls).1.journal.operations.map view ∧
      (runs (turn pod) (start pod processId mapping j) calls).2.journal.ownership =
        (runs (turn pod) (start pod processId mapping j) calls).1.journal.ownership := by
  obtain ⟨hans, hsame⟩ := answers_twin (start_same hj hfit hseen) h
  exact ⟨hans, Alike.views hsame.journal.rows, hsame.journal.ownership⟩

/-! ### A run of both -/

namespace Sample

def answers (snap : Snapshot) : Answers where
  plan := .ok ∅
  snapshot := some snap
  attemptId := "attempt"
  transactionId := "transaction"
  submit := { status := .committed, evidence := ((∅ : Record).set "transaction_validated"
    (.bool true)).set "attribution" (.str "reply") }

/-- A request, its execution, and a pass that sees it applied. -/
def appliedInTime : List (Twin Intent) :=
  [.request (Emosa.Sample.env 0) (Emosa.Sample.request "a" "key-a"),
   .execute (Emosa.Sample.env 1) "a" (answers Emosa.Sample.bare),
   .reconcile (Emosa.Sample.env 2) (some Emosa.Sample.configured)]

theorem target_sample {now : ℚ} {target : Record}
    (h : IntentType.target (env now).vault intent = .ok target) :
    target = Emosa.Sample.target := by
  have hright : IntentType.target vault intent = .ok Emosa.Sample.target := rfl
  exact (Except.ok.inj (hright.symm.trans h)).symm

theorem readable_sample (now : ℚ) {snap : Snapshot}
    (h : snap = bare ∨ snap = configured) :
    Readable (env now) snap intent := by
  refine ⟨?_, fun target ht => ?_⟩
  · rcases h with rfl | rfl <;> decide
  · obtain rfl := target_sample ht
    rcases h with rfl | rfl <;> decide

theorem answerable_sample (snap : Snapshot) : Answerable (answers snap).submit :=
  ⟨fun _ => ⟨rfl, "reply", by simp, rfl⟩, rfl, rfl, rfl⟩

theorem executable_sample {j : Journal Intent} {op : Operation Intent} (now : ℚ)
    (hintent : op.intent = intent) (hnone : j.ownership.get? "pod" = none) :
    Executable "pod" j (env now) (answers bare) op where
  mine := by rw [Operation.podId, hintent]; rfl
  unclaimed := hnone
  target := ⟨Emosa.Sample.target, by rw [hintent]; rfl⟩
  snapshot snap hsnap := by
    obtain rfl := some.inj hsnap
    exact ⟨hintent ▸ readable_sample now (.inl rfl), by decide⟩
  ids := by decide
  plan plan hplan := by
    obtain rfl := Except.ok.inj hplan
    rfl
  submit := answerable_sample _

theorem appliedInTime_fitting :
    Meets (turn "pod") (Fitting "pod") (start "pod" "process" none {}) appliedInTime := by
  refine ⟨⟨by decide, fun _ _ => rfl⟩, ?_, ?_, trivial⟩
  · intro op hop _
    refine executable_sample 1 (some.inj ?_) (by decide +kernel)
    rw [← map_some, ← hop]
    decide +kernel
  · intro snap hsnap
    obtain rfl := some.inj hsnap
    refine ⟨by decide, by decide +kernel, by decide +kernel, fun op hop => ⟨?_, fun hnone => ?_⟩⟩
    · have hintent : op.intent = intent := by
        refine some.inj ?_
        rw [← map_some, ← hop]
        decide +kernel
      exact hintent ▸ readable_sample 2 (.inr rfl)
    · have hid : op.operationId = "a" := by
        refine some.inj ?_
        rw [← map_some, ← hop]
        decide +kernel
      rw [hid] at hnone
      exact absurd (congrArg Option.isSome hnone) (by decide +kernel)

/-- While the second operation waits, the pod shows that the configuration of the first is gone. -/
def lostWhileWaiting : List (Twin Intent) :=
  [.request (Emosa.Sample.env 0) (Emosa.Sample.request "a" "key-a"),
   .execute (Emosa.Sample.env 1) "a" (answers Emosa.Sample.configured),
   .request (Emosa.Sample.env 2) (Emosa.Sample.request "b" "key-b"),
   .reconcile (Emosa.Sample.env 3) (some Emosa.Sample.bare),
   .execute (Emosa.Sample.env 4) "b" (answers Emosa.Sample.bare)]

end Sample

theorem applied_in_both :
    cAnswers (start "pod" "process" none {}).2 Sample.appliedInTime =
        pyAnswers "pod" (start "pod" "process" none {}).1 Sample.appliedInTime ∧
      (runs (turn "pod") (start "pod" "process" none {}) Sample.appliedInTime).2.journal.operations.map
          view =
        (runs (turn "pod") (start "pod" "process" none {}) Sample.appliedInTime).1.journal.operations.map
          view ∧
      (runs (turn "pod") (start "pod" "process" none {}) Sample.appliedInTime).2.journal.ownership =
        (runs (turn "pod") (start "pod" "process" none {}) Sample.appliedInTime).1.journal.ownership :=
  c_engine_refines ⟨by simp, by simp⟩ (by simp) (by simp) Sample.appliedInTime_fitting

/-- An operation is executed against a conflict that was recorded while it waited: the one engine
rejects it, the other one sends it. -/
theorem engines_part :
    (pyAnswers "pod" (start "pod" "process" none {}).1 Sample.lostWhileWaiting).getLast? =
        some (some (.rejected, some "OWNERSHIP_CONFLICT")) ∧
      (cAnswers (start "pod" "process" none {}).2 Sample.lostWhileWaiting).getLast? =
        some (some (.configCommitted, none)) := by
  decide +kernel

end Emosa.C
