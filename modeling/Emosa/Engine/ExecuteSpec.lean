import Emosa.Engine.Recovery

/-!
# Emosa.Engine.ExecuteSpec

The segments of `execute` commit only what is permitted, and a segment that suspends leaves a task
that the journal still agrees with.

* `Pending`: an execution that has not sent its operation. Its own copy is REQUESTED; the journal's
  record may have been cancelled meanwhile, and is otherwise the one that was read.
* `Task.Tracks`: what the journal says about a suspended execution. One that waits for a submission
  has the very record the journal holds.
* `resume_leads`, `execute_leads`: one for each kind of segment.
-/

namespace Emosa

open Durable Engine Journal Option

variable {I : Type} [IntentType I] {α : Type}
variable {c : Context I} {j₀ : Journal I} {p p₁ : EngineProc I}

structure Pending (j : Journal I) (op : Operation I) : Prop where
  state : op.state = .requested
  evidence : op.applicationEvidence = none
  late : op.lateResolution = none
  current : ∀ cur, j.get? op.operationId = some cur →
    (cur.state = .requested ∨ cur.state = .cancelled) ∧ cur.intent = op.intent ∧
      cur.initiatingInterface = op.initiatingInterface

variable {op : Operation I}

omit [IntentType I] in
theorem Pending.of_get? {j j' : Journal I} (h : Pending j op)
    (hget : j'.get? op.operationId = j.get? op.operationId) : Pending j' op :=
  { h with current := fun cur hcur => h.current cur (hget ▸ hcur) }

/-- The execution is past its check of the ownership, and has not sent its operation. -/
def Stage.checked : Stage → Bool
  | .plan | .snapshot | .recheck _ => true
  | _ => false

def Task.Tracks (j : Journal I) (t : Task I) : Prop :=
  match t.stage with
  | .submit attempt =>
      j.get? t.op.operationId = some t.op ∧ t.op.state = .submitted ∧ attempt ∈ t.op.attempts
  | .recheck snap => Pending j t.op ∧ snap.ready = true
  | _ => Pending j t.op

/-- The snapshot a segment works with. -/
def Task.snapshot? (t : Task I) (reply : Reply) : Option Snapshot :=
  match t.stage, reply with
  | .snapshot, .snapshot (.ok snap) => some snap
  | .recheck snap, _ => some snap
  | _, _ => none

/-- `plan` raises before it asks the backend. -/
def Engine.Unplannable (e : Engine) (j : Journal I) (pod : String) : Prop :=
  pod ∉ e.backends ∨ ∃ record, j.ownership.get? pod = some record ∧
    Engine.outdated record (e.instances.get? pod) = false

/-- The WSC exchange that made the operation is over. -/
def Engine.ExchangeOver (e : Engine) (j : Journal I) (op : Operation I) : Prop :=
  op.initiatingInterface = "wsc-component" ∧
    ¬ ((j.receipts.get? op.operationId).any (·.processId = e.processId) = true ∧
      op.operationId ∈ e.wscGuards)

/-- With this reply the validation raises an error of the program's own. -/
def Task.Fails (e : Engine) (j : Journal I) (t : Task I) (reply : Reply) : Prop :=
  match t.stage, reply with
  | .guard, .guard (.error (.emosa _)) | .plan, .plan (.error (.emosa _))
  | .snapshot, .snapshot (.error (.emosa _)) | .recheck _, .guard (.error (.emosa _)) => True
  | .guard, .guard (.ok _) => e.Unplannable j t.op.podId
  | .snapshot, .snapshot (.ok snap) => snap.ready = false ∨ e.ExchangeOver j t.op
  | _, _ => False

/-- The task a segment leaves suspended. `was` says that the segment began past the check. -/
structure Waits (was : Bool) (op : Operation I) (j j' : Journal I) (t : Task I) : Prop where
  operationId : t.op.operationId = op.operationId
  podId : t.op.podId = op.podId
  tracks : t.Tracks j'
  sent : ∀ attempt, t.stage = .submit attempt → j.state? op.operationId = some .requested
  unclaimed : t.stage.checked = true → j'.ownership.get? op.podId = none ∨
    was = true ∧ j'.ownership = j.ownership

/-- How a segment ends, before the `finally`. -/
structure Leads (c : Context I) (j₀ : Journal I) (was : Bool) (op : Operation I)
    (p : EngineProc I) (r : Except Exn (Next I))
    (p' : EngineProc I) : Prop where
  follows : Follows (Permitted c) j₀ p'
  busy : p'.memory.busy = p.memory.busy
  waits : ∀ t, r = .ok (.await t) → Waits was op p.journal p'.journal t

theorem wp_catching {Q : Except Exn (Next I) → EngineProc I → Prop}
    (op : Operation I) (m : M I α) (next : α → M I (Next I)) :
    wp (catching op m next) Q p ↔
      wp m (fun r p => match r with
        | .ok a => wp (next a) Q p
        | .error (.emosa e) => wp (reject op e.code) (fun r p => match r with
            | .ok op => Q (.ok (.done op)) p
            | .error x => Q (.error x) p) p
        | .error x => Q (.error x) p) p := by
  simp only [catching, wp_bind, wp_attempt]
  refine iff_of_eq (congrArg (fun Q => wp m Q p) ?_)
  funext r p'
  rcases r with (e | _ | _ | _) | a
  · exact propext (wp_bind _ _)
  all_goals rfl

variable {was : Bool}

theorem reject_leads {op₀ : Operation I} {reason : Reason} (h : Follows (Permitted c) j₀ p₁)
    (hbusy : p₁.memory.busy = p.memory.busy)
    (hstate : op.state = .requested ∨ op.state = .validated)
    (hlaw : ∀ old, p₁.journal.get? op.operationId = some old → Lawful c old (rejected op reason)) :
    wp (reject op reason) (fun r p' => match r with
      | .ok op => Leads c j₀ was op₀ p (.ok (.done op)) p'
      | .error x => Leads c j₀ was op₀ p (.error x) p') p₁ := by
  rw [wp_reject hstate]
  split
  · rename_i hvalid
    have hw : Permitted c p₁.journal (.save (rejected op reason)) :=
      ⟨hvalid, hlaw, fun hc => by simp [rejected] at hc⟩
    exact ⟨h.commit hw, hbusy, fun t ht => by cases ht⟩
  · exact ⟨h, hbusy, fun t ht => by cases ht⟩

/-- Its own execution may reject a pending operation, also one cancelled meanwhile. -/
theorem Pending.rejected {j : Journal I} {reason : Reason} (hp : Pending j op) (hs : Sound j)
    (hown : c.owns op.operationId)
    (hstale : j.state? op.operationId = some .cancelled → c.stale op.operationId) :
    ∀ old, j.get? op.operationId = some old → Lawful c old (rejected op reason) := by
  intro old hold
  have hid := get?_id hold
  obtain ⟨hst, hintent, hinterface⟩ := hp.current old hold
  have hunsent : old.state.unsent = true := by
    cases hst with
    | inl hst | inr hst => rw [hst]; rfl
  have hblank := hs.unobserved old (get?_mem hold) hunsent
  have hev : (Emosa.rejected op reason).applicationEvidence = old.applicationEvidence :=
    hp.evidence.trans hblank.1.symm
  have hlate : (Emosa.rejected op reason).lateResolution = old.lateResolution :=
    hp.late.trans hblank.2.symm
  refine ⟨hid.symm, hintent.symm, hinterface.symm, ?_, fun _ => .inr (.inl (hid ▸ hown)),
    by simp [Emosa.rejected], by simp [Emosa.rejected], .inl hev, .inl hlate,
    by simp [Emosa.rejected], by simp [Emosa.rejected, State.unsent]⟩
  cases hst with
  | inl hst => exact .inl (by simp [Emosa.rejected, State.Moves, hst, State.next])
  | inr hst =>
    have hcur : j.state? op.operationId = some .cancelled := by
      rw [state?, hold, map_some, hst]
    exact .inr ⟨hst, rfl, hid ▸ hown, hid ▸ hstale hcur⟩

theorem submitting_leads (hs : Sound j₀) {env : Env I} {draw : Draw} {op₀ : Operation I}
    {snap : Snapshot} (h : Follows (Permitted c) j₀ p₁) (hbusy : p₁.memory.busy = p.memory.busy)
    (hget : p₁.journal.get? op.operationId = some op) (hstate : op.state = .validated)
    (hid : op.operationId = op₀.operationId) (hintent : op.intent = op₀.intent)
    (hreq : p.journal.state? op₀.operationId = some .requested)
    (hown : p₁.journal.ownership = c.start.ownership) (hsub : c.submits op₀.podId)
    (henv : c.env = env) (hsnap : c.snapshot = some snap) (hready : snap.ready = true) :
    wp (submitting env draw op snap) (Leads c j₀ was op₀ p) p₁ := by
  have hblank := (hs.follows h).unobserved op (get?_mem hget) (by rw [hstate]; rfl)
  have hends : ∀ r, (∀ t, r ≠ Except.ok (Next.await t)) → Leads c j₀ was op₀ p r p₁ :=
    fun r hr => ⟨h, hbusy, fun t ht => absurd ht (hr t)⟩
  simp only [submitting, wp_bind, wp_liftE]
  cases htarget : IntentType.target env.vault op.intent with
  | error e => exact hends _ (by simp)
  | ok target =>
    simp only
    split
    · rename_i happlied
      simp only [wp_bind, wp_liftE]
      cases ht : transition op .observedApplied (evidence snap true) with
      | error e => exact hends _ (by simp)
      | ok op' =>
        obtain ⟨rfl, hnext, -⟩ := transition_ok ht
        simp only
        rw [wp_save]
        split
        · rename_i hvalid
          refine ⟨h.commit ⟨hvalid, fun old hold => ?_, nofun⟩, hbusy,
            fun t ht => by cases ht⟩
          have he : old = op := some.inj (hold.symm.trans hget)
          have hfresh : snap.observed.fresh = true := by
            have := happlied.1
            simp only [Observation.satisfies, Bool.and_eq_true] at this
            exact this.1
          have hseen : ∀ new : Operation I, new.intent = op.intent → c.Seen new :=
            fun new hnew => ⟨snap, hsnap, hready, hfresh, target,
              by rw [henv, hnew]; exact htarget, happlied.2, happlied.1⟩
          rw [he]
          exact ⟨rfl, rfl, rfl, .inl (.inr hnext), fun hc => by simp [hstate] at hc, by simp,
            fun _ _ => hseen _ rfl, .inr ⟨hblank.1, hseen _ rfl, by simp⟩, .inl rfl, by simp,
            by simp [State.unsent]⟩
        · exact hends _ (by simp)
    · simp only [wp_bind, wp_liftE]
      cases ht : transition { op with attempts := op.attempts ++ [_] } .submitted with
      | error e => exact hends _ (by simp)
      | ok op' =>
        obtain ⟨rfl, hnext, -⟩ := transition_ok ht
        simp only
        rw [wp_save]
        split
        · rename_i hvalid
          have hpod : op.podId = op₀.podId := by rw [Operation.podId, hintent]; rfl
          refine ⟨h.commit ⟨hvalid, fun old hold => ?_, fun _ => ⟨hown, hpod ▸ hsub⟩⟩, hbusy, ?_⟩
          · have he : old = op := some.inj (hold.symm.trans hget)
            rw [he]
            exact .quiet rfl rfl rfl (.inr hnext) (fun hc => by simp [hstate] at hc) (by simp)
              (by simp) rfl rfl (by simp) (by simp [State.unsent])
          · rintro t ⟨⟩
            refine ⟨hid, hpod, ?_, fun _ _ => hreq,
              fun hc => by simp [Stage.checked] at hc⟩
            exact ⟨get?_save_self hget, rfl, by simp⟩
        · exact hends _ (by simp)

/-- After the second check: the validation is journaled only over a record still REQUESTED. -/
theorem validated_leads (hs : Sound j₀) {env : Env I} {draw : Draw} {snap : Snapshot}
    (h : Follows (Permitted c) j₀ p₁) (hbusy : p₁.memory.busy = p.memory.busy)
    (hjournal : p₁.journal = p.journal) (hpend : Pending p.journal op)
    (hown : c.owns op.operationId) (hstart : p.journal.ownership = c.start.ownership)
    (hsub : c.submits op.podId) (henv : c.env = env) (hsnap : c.snapshot = some snap)
    (hready : snap.ready = true) :
    wp (validated env draw op snap) (Leads c j₀ was op p) p₁ := by
  have hsp := hs.follows h
  have hpend₁ : Pending p₁.journal op := hjournal ▸ hpend
  simp only [validated, wp_catching]
  rw [wp_get]
  cases hget : p₁.journal.get? op.operationId with
  | none =>
    refine reject_leads h hbusy (.inl hpend.state) fun old hold => ?_
    rw [hget] at hold
    cases hold
  | some cur =>
    simp only
    split
    · exact ⟨h, hbusy, fun t ht => by cases ht⟩
    · rename_i hcur
      have hcur : cur.state = .requested := Decidable.not_not.mp hcur
      obtain ⟨-, hintent, hinterface⟩ := hpend₁.current cur hget
      have hblank := hsp.unobserved cur (get?_mem hget) (by rw [hcur]; rfl)
      have hreq : p.journal.state? op.operationId = some .requested := by
        rw [← hjournal, state?, hget, map_some, hcur]
      generalize hop₁ : ({ op with schemaFingerprint := some snap.schemaFingerprint } :
        Operation I) = op₁
      have hid₁ : op₁.operationId = op.operationId := by rw [← hop₁]
      have ht : transition op₁ .validated = .ok { op₁ with state := .validated } := by
        have hst : op₁.state = .requested := by rw [← hop₁]; exact hpend.state
        exact transition_of_next (by simp [hst, State.next]) (by decide) (by decide) (by decide)
          (by decide)
      rw [wp_catching, wp_liftE, ht]
      simp only [wp_catching]
      rw [wp_save]
      split
      · rename_i hvalid
        have hget₁ : p₁.journal.get? op₁.operationId = some cur := by rw [hid₁]; exact hget
        have hw : Permitted c p₁.journal (.save { op₁ with state := .validated }) := by
          refine ⟨hvalid, fun old hold => ?_, by simp⟩
          have he : old = cur := some.inj (hold.symm.trans hget₁)
          have hidc := get?_id hget
          have hmoves : cur.state.Moves .validated := by rw [hcur]; decide
          rw [he]
          refine .quiet (hid₁.trans hidc.symm) ?_ ?_ hmoves
            (fun _ => .inr (.inl (hidc ▸ hown))) (by simp) (by simp) ?_ ?_ (by simp) (fun _ => hblank)
          · rw [← hop₁]; exact hintent.symm
          · rw [← hop₁]; exact hinterface.symm
          · rw [← hop₁, hblank.1]; exact hpend.evidence
          · rw [← hop₁, hblank.2]; exact hpend.late
        refine submitting_leads hs (h.commit hw) hbusy ?_ rfl hid₁ (by rw [← hop₁]) hreq ?_ hsub henv
          hsnap hready
        · exact get?_save_self hget₁
        · exact (congrArg ownership hjournal).trans hstart
      · -- a record that cannot be saved cannot be rejected either
        rename_i hvalid
        refine (wp_reject (.inr rfl)).mpr ?_
        rw [if_neg hvalid]
        exact ⟨h, hbusy, fun t ht => by cases ht⟩

theorem Pending.reject_leads {reason : Reason} (hs : Sound j₀) (h : Follows (Permitted c) j₀ p₁)
    (hbusy : p₁.memory.busy = p.memory.busy) (hpend : Pending p₁.journal op)
    (hown : c.owns op.operationId)
    (hstale : p₁.journal.state? op.operationId = some .cancelled → c.stale op.operationId) :
    wp (reject op reason) (fun r p' => match r with
      | .ok op' => Leads c j₀ was op p (.ok (.done op')) p'
      | .error x => Leads c j₀ was op p (.error x) p') p₁ :=
  Emosa.reject_leads h hbusy (.inl hpend.state) (hpend.rejected (hs.follows h) hown hstale)

theorem planning_leads (hs : Sound j₀) (h : Follows (Permitted c) j₀ p)
    (hpend : Pending p.journal op) (hown : c.owns op.operationId)
    (hstale : p.memory.Unplannable p.journal op.podId →
      p.journal.state? op.operationId = some .cancelled → c.stale op.operationId) :
    wp (planning op) (Leads c j₀ was op p) p := by
  simp only [planning, wp_catching, checkPlan, wp_bind, wp_memory]
  split
  · rename_i hpod
    exact hpend.reject_leads hs h rfl hown (hstale (.inl hpod))
  · simp only [wp_bind]
    rw [wp_owned]
    split
    · rename_i hnone
      refine ⟨h, rfl, ?_⟩
      rintro t ⟨⟩
      exact ⟨rfl, rfl, hpend, by simp, fun _ => .inl hnone⟩
    · split
      · have hrel : Follows (Permitted c) j₀ (p.commit (.release op.podId)) := h.commit trivial
        refine ⟨hrel, rfl, ?_⟩
        rintro t ⟨⟩
        have hpend' : Pending (p.commit (.release op.podId)).journal op := hpend.of_get? rfl
        exact ⟨rfl, rfl, hpend', by simp, fun _ => .inl (Dict.get?_erase_self _ _)⟩
      · rename_i record hrecord hold
        exact hpend.reject_leads hs h rfl hown
          (hstale (.inr ⟨record, hrecord, by simpa using hold⟩))

/-- The record after the backend's answer: an outcome, and nothing observed. -/
structure Resolves (op op' : Operation I) : Prop where
  operationId : op'.operationId = op.operationId
  intent : op'.intent = op.intent
  interface : op'.initiatingInterface = op.initiatingInterface
  next : op'.state ∈ op.state.next
  evidence : op'.applicationEvidence = op.applicationEvidence
  late : op'.lateResolution = op.lateResolution

omit [IntentType I] in
theorem Resolves.because {op' : Operation I} (h : Resolves op op') (reason : Option String) :
    Resolves op { op' with reason := reason } :=
  { h with }

omit [IntentType I] in
theorem Resolves.refused {op' : Operation I} (h : Resolves op op') (result : SubmitResult) :
    Resolves op (Engine.refused op' result) := by
  unfold Engine.refused
  split
  · exact { h with }
  · exact h

omit [IntentType I] in
theorem Resolves.of_transition {op' : Operation I} {target : State} {evidence : Record}
    (h : transition op target evidence = .ok op') : Resolves op op' := by
  obtain ⟨rfl, hnext, -⟩ := transition_ok h
  exact ⟨rfl, rfl, rfl, hnext, rfl, rfl⟩

/-- The answer may record a conflict; it leaves the operation's record to the save. -/
structure Answers (c : Context I) (j₀ : Journal I) (op : Operation I)
    (p : EngineProc I) (r : Except Exn (Operation I))
    (p' : EngineProc I) : Prop where
  keeps : Keeps c j₀ p p'
  held : p'.journal.get? op.operationId = p.journal.get? op.operationId
  resolves : ∀ op', r = .ok op' → Resolves op op'

theorem outcome_answers {reply : Except Exn SubmitResult} (h : Follows (Permitted c) j₀ p)
    (hconf : c.conflicts op.podId) : wp (outcome op reply) (Answers c j₀ op p) p := by
  have hraise : ∀ x, Answers c j₀ op p (.error x) p := fun x =>
    ⟨⟨h, rfl⟩, rfl, fun op' ho => by cases ho⟩
  have hunknown : wp (unknownOutcome op) (Answers c j₀ op p) p := by
    simp only [unknownOutcome]
    cases ht : transition op .indeterminate with
    | error e => exact hraise _
    | ok op' =>
      refine ⟨⟨h, rfl⟩, rfl, ?_⟩
      rintro op'' ⟨⟩
      exact (Resolves.of_transition ht).because _
  unfold outcome
  split
  · exact hraise _
  · exact hunknown
  · rename_i result
    cases result.status with
    | committed =>
      cases ht : transition op .configCommitted result.evidence with
      | error e => exact hraise _
      | ok op' =>
        have hr := Resolves.of_transition ht
        refine ⟨⟨h, rfl⟩, rfl, ?_⟩
        rintro op'' ⟨⟩
        exact { hr with }
    | conflict =>
      cases ht : transition op .ownershipConflict with
      | error e => exact hraise _
      | ok op' =>
        have hlost := ((Resolves.of_transition ht).because
          (some Reason.ownershipConflict.value)).refused result
        refine ⟨⟨h.commit ?_, rfl⟩, rfl, ?_⟩
        · simpa only [Permitted, Operation.podId, hlost.intent] using hconf
        · rintro op'' ⟨⟩
          exact hlost
    | rejected =>
      cases ht : transition op .failed with
      | error e => exact hraise _
      | ok op' =>
        refine ⟨⟨h, rfl⟩, rfl, ?_⟩
        rintro op'' ⟨⟩
        exact ((Resolves.of_transition ht).because result.reason).refused result
    | unknown => exact hunknown

theorem settleOutcome_leads {reply : Except Exn SubmitResult} (h : Follows (Permitted c) j₀ p)
    (hget : p.journal.get? op.operationId = some op) (hstate : op.state = .submitted)
    (hown : c.owns op.operationId) (hconf : c.conflicts op.podId) :
    wp (settleOutcome op reply) (Leads c j₀ was op p) p := by
  simp only [settleOutcome, wp_bind]
  refine wp_mono (outcome_answers h hconf) ?_
  rintro (x | new) p₁ ⟨hkeeps, hheld, hres⟩
  · exact ⟨hkeeps.follows, by rw [hkeeps.memory], fun t ht => by cases ht⟩
  · obtain ⟨hid, hintent, hinterface, hnext, hev, hlate⟩ := hres new rfl
    simp only
    rw [wp_save]
    split
    · rename_i hvalid
      have hends : new.state ≠ .requested ∧ new.state ≠ .observedApplied ∧
          new.state ≠ .timedOut ∧ new.state ≠ .submitted ∧ new.state.unsent = false := by
        rw [hstate] at hnext
        simp only [State.next, List.mem_cons, List.not_mem_nil, or_false] at hnext
        rcases hnext with hn | hn | hn | hn <;> rw [hn] <;> decide
      obtain ⟨hreq, happ, htime, hsub, hunsent⟩ := hends
      have hlaw : ∀ old, p₁.journal.get? new.operationId = some old → Lawful c old new := by
        intro old hold
        have he : old = op := some.inj ((hid ▸ hold).symm.trans (hheld.trans hget))
        rw [he]
        exact .quiet hid hintent hinterface (.inr hnext) (fun _ => .inr (.inl hown)) hreq
          (fun hc => absurd hc happ) hev hlate (fun hc => absurd hc htime)
          (fun hc => by simp [hunsent] at hc)
      exact ⟨hkeeps.follows.commit ⟨hvalid, hlaw, fun hc => absurd hc hsub⟩,
        by rw [Proc.commit_memory, hkeeps.memory], fun t ht => by cases ht⟩
    · exact ⟨hkeeps.follows, by rw [hkeeps.memory], fun t ht => by cases ht⟩

/-! ## Segments -/

/-- A check that changes nothing. -/
inductive Checks (ended : Prop) (p : EngineProc I) :
    Except Exn α → EngineProc I → Prop
  | passed (a : α) : Checks ended p (.ok a) p
  | refused (e : EmosaError) : ended → Checks ended p (.error (.emosa e)) p

theorem checkWsc_checks (op : Operation I) :
    wp (checkWsc op) (Checks (p.memory.ExchangeOver p.journal op) p) p := by
  unfold checkWsc
  split
  · exact .passed _
  · rename_i hwsc
    simp only [wp_bind, wp_journal, wp_memory]
    split
    · exact .passed _
    · rename_i hlive
      exact .refused _ ⟨Decidable.not_not.mp hwsc, hlive⟩

/-- The snapshot's checks: the start it names is remembered, and it is ready. -/
structure Admits (op : Operation I) (reply : Except Exn Snapshot)
    (p : EngineProc I) (r : Except Exn (Snapshot × Bool)) (p' : EngineProc I) : Prop where
  journal : p'.journal = p.journal
  written : p'.written = p.written
  busy : p'.memory.busy = p.memory.busy
  ready : ∀ snap asked, r = .ok (snap, asked) → reply = .ok snap ∧ snap.ready = true
  fails : ∀ e, r = .error (.emosa e) →
    Task.Fails p.memory p.journal ⟨op, .snapshot⟩ (.snapshot reply)

theorem wp_see {Q : Except Exn Unit → EngineProc I → Prop} {pod : String}
    {snap : Snapshot}
    (h : ∀ instances, Q (.ok ()) { p with memory := { p.memory with instances := instances } }) :
    wp (see pod snap) Q p := by
  unfold see
  split <;> exact h _

theorem admitSnapshot_admits (op : Operation I) (reply : Except Exn Snapshot) :
    wp (admitSnapshot op reply) (Admits op reply p) p := by
  simp only [admitSnapshot, wp_bind, wp_lift]
  cases reply with
  | error x =>
    refine ⟨rfl, rfl, rfl, by simp, ?_⟩
    rintro e ⟨⟩
    trivial
  | ok snap =>
    refine wp_see fun instances => ?_
    simp only
    split
    · rename_i hready
      exact ⟨rfl, rfl, rfl, by simp, fun _ _ => .inl hready⟩
    · rename_i hready
      simp only [wp_bind]
      refine wp_mono (checkWsc_checks op) ?_
      rintro r p' (asked | ⟨e, hover⟩)
      · refine ⟨rfl, rfl, rfl, ?_, by simp⟩
        rintro s a ⟨⟩
        exact ⟨rfl, by simpa using hready⟩
      · exact ⟨rfl, rfl, rfl, by simp, fun _ _ => .inr hover⟩

/-- How a segment ends. An execution that does not suspend frees its pod. -/
structure Ends (c : Context I) (j₀ : Journal I) (was : Bool) (op : Operation I)
    (p : EngineProc I) (r : Except Exn (Next I))
    (p' : EngineProc I) : Prop where
  follows : Follows (Permitted c) j₀ p'
  waits : ∀ t, r = .ok (.await t) →
    Waits was op p.journal p'.journal t ∧ p'.memory.busy = p.memory.busy
  ended : (∀ t, r ≠ .ok (.await t)) →
    p'.memory.busy = p.memory.busy.filter (· ≠ op.podId)

theorem wp_close {Q : Except Exn Unit → EngineProc I → Prop}
    (h : ∀ r p', p'.journal = p.journal → p'.written = p.written →
      p'.memory.busy = p.memory.busy.filter (· ≠ op.podId) → Q r p') :
    wp (close op) Q p := by
  simp only [close, wp_bind, wp_remember]
  rw [wp_get]
  split
  · simp only
    split <;> exact h _ _ rfl rfl rfl
  · exact h _ _ rfl rfl rfl

theorem closing_ends {m : M I (Next I)} (h : wp m (Leads c j₀ was op p) p₁) :
    wp (closing op m) (Ends c j₀ was op p) p₁ := by
  simp only [closing, wp_bind, wp_attempt]
  refine wp_mono h ?_
  rintro r p' ⟨hf, hb, hw⟩
  have hclosed : ∀ (r' : Except Exn (Next I)), (∀ t, r' ≠ .ok (.await t)) →
      ∀ p'' : EngineProc I, p''.journal = p'.journal →
      p''.written = p'.written → p''.memory.busy = p'.memory.busy.filter (· ≠ op.podId) →
      Ends c j₀ was op p r' p'' := fun r' hr p'' hj hwr hbusy =>
    ⟨hf.of_eq hj hwr, fun t ht => absurd ht (hr t), fun _ => by rw [hbusy, hb]⟩
  rcases r with x | (op' | t)
  · simp only [wp_bind]
    refine wp_close fun r₁ p₁ hj hwr hbusy => ?_
    cases r₁ <;> exact hclosed _ (by simp) _ hj hwr hbusy
  · simp only [wp_bind]
    refine wp_close fun r₁ p₁ hj hwr hbusy => ?_
    cases r₁ <;> exact hclosed _ (by simp) _ hj hwr hbusy
  · refine ⟨hf, ?_, fun hc => absurd rfl (hc t)⟩
    rintro t' ⟨⟩
    exact ⟨hw t rfl, hb⟩

section Resume

variable (hs : Sound j₀) {env : Env I} {draw : Engine.Draw} {t : Task I} {reply : Reply}
  (h : Follows (Permitted c) j₀ p) (ht : t.Tracks p.journal)
  (hexp : t.stage.expects reply = true) (hown : c.owns t.op.operationId)
  (hconf : c.conflicts t.op.podId) (hstart : p.journal.ownership = c.start.ownership)
  (hsub : t.stage.checked = true → c.submits t.op.podId) (henv : c.env = env)
  (hsnap : ∀ snap, t.snapshot? reply = some snap → c.snapshot = some snap)
  (hstale : t.Fails p.memory p.journal reply →
    p.journal.state? t.op.operationId = some .cancelled → c.stale t.op.operationId)

include hs h ht hexp hown hconf hstart hsub henv hsnap hstale

theorem continuing_leads :
    wp (continuing env draw t reply) (Leads c j₀ t.stage.checked t.op p) p := by
  obtain ⟨op, stage⟩ := t
  -- a reply that is only an answer or an exception
  have hanswer : ∀ {β : Type} (r : Except Exn β) (next : β → M I (Next I)), Pending p.journal op →
      (∀ e, r = .error (.emosa e) → p.journal.state? op.operationId = some .cancelled →
        c.stale op.operationId) →
      (∀ b, r = .ok b → wp (next b) (Leads c j₀ stage.checked op p) p) →
      wp (catching op (lift r) next) (Leads c j₀ stage.checked op p) p := by
    intro β r next hpend hst hnext
    rw [wp_catching]
    rcases r with (e | _ | _ | _) | b
    · exact hpend.reject_leads hs h rfl hown (hst e rfl)
    · exact ⟨h, rfl, fun t ht => by cases ht⟩
    · exact ⟨h, rfl, fun t ht => by cases ht⟩
    · exact ⟨h, rfl, fun t ht => by cases ht⟩
    · exact hnext b rfl
  cases stage with
  | guard =>
    cases reply with
    | guard r =>
      refine hanswer r _ ht (fun e he => hstale (by rw [he]; trivial)) fun _ hr => ?_
      exact planning_leads hs h ht hown fun hun => hstale (by rw [hr]; exact hun)
    | _ => cases hexp
  | plan =>
    cases reply with
    | plan r =>
      refine hanswer r _ ht (fun e he => hstale (by rw [he]; trivial)) fun plan _ => ⟨h, rfl, ?_⟩
      rintro t ⟨⟩
      exact ⟨rfl, rfl, { ht with }, by simp,
        fun _ => .inr ⟨rfl, rfl⟩⟩
    | _ => cases hexp
  | snapshot =>
    cases reply with
    | snapshot r =>
      simp only [continuing, wp_catching]
      refine wp_mono (admitSnapshot_admits op r) ?_
      rintro res p₁ ⟨hj, hw, hb, hready, hfails⟩
      have hp₁ := h.of_eq hj hw
      have hpend : Pending p₁.journal op := hj ▸ ht
      rcases res with (e | _ | _ | _) | ⟨snap, asked⟩
      · exact hpend.reject_leads hs hp₁ hb hown fun hc => hstale (hfails e rfl) (hj ▸ hc)
      · exact ⟨hp₁, hb, fun t ht => by cases ht⟩
      · exact ⟨hp₁, hb, fun t ht => by cases ht⟩
      · exact ⟨hp₁, hb, fun t ht => by cases ht⟩
      · obtain ⟨rfl, hrd⟩ := hready snap asked rfl
        simp only
        split
        · refine ⟨hp₁, hb, ?_⟩
          rintro t ⟨⟩
          exact ⟨rfl, rfl, ⟨hpend, hrd⟩, by simp, fun _ => .inr ⟨rfl, by rw [hj]⟩⟩
        · exact validated_leads hs hp₁ hb hj ht hown hstart (hsub rfl) henv (hsnap snap rfl) hrd
    | _ => cases hexp
  | recheck snap =>
    cases reply with
    | guard r =>
      exact hanswer r _ ht.1 (fun e he => hstale (by rw [he]; trivial)) fun _ _ =>
        validated_leads hs h rfl rfl ht.1 hown hstart (hsub rfl) henv (hsnap snap rfl) ht.2
    | _ => cases hexp
  | submit attempt =>
    cases reply with
    | submit r => exact settleOutcome_leads h ht.1 ht.2.1 hown hconf
    | _ => cases hexp

theorem resume_ends :
    wp (resume env draw t reply) (Ends c j₀ t.stage.checked t.op p) p :=
  closing_ends (continuing_leads hs h ht hexp hown hconf hstart hsub henv hsnap hstale)

end Resume

theorem beginning_leads (hs : Sound j₀) (h : Follows (Permitted c) j₀ p)
    (hpend : Pending p.journal op) (hown : c.owns op.operationId)
    (hlive : p.journal.state? op.operationId ≠ some .cancelled) :
    wp (beginning op) (Leads c j₀ false op p) p := by
  simp only [beginning, wp_bind, wp_memory]
  split
  · exact ⟨h, rfl, fun t ht => by cases ht⟩
  · rw [wp_catching]
    refine wp_mono (checkWsc_checks op) ?_
    rintro r p₁ (asked | ⟨e, -⟩)
    · simp only
      split
      · refine ⟨h, rfl, ?_⟩
        rintro t ⟨⟩
        exact ⟨rfl, rfl, hpend, by simp, by simp [Stage.checked]⟩
      · exact planning_leads hs h hpend hown fun _ hc => absurd hc hlive
    · exact hpend.reject_leads hs h rfl hown fun hc => absurd hc hlive

/-- The first segment of `execute`: it starts no execution, or one of a REQUESTED operation of a
pod that had none. -/
inductive Executes (c : Context I) (j₀ : Journal I) (id : String)
    (p : EngineProc I) (r : Except Exn (Next I))
    (p' : EngineProc I) : Prop
  | ended : Follows (Permitted c) j₀ p' → (∀ t, r ≠ .ok (.await t)) →
      p'.memory.busy = p.memory.busy → Executes c j₀ id p r p'
  | started (op : Operation I) (t : Task I) : Follows (Permitted c) j₀ p' →
      r = .ok (.await t) → p.journal.get? id = some op → op.podId ∉ p.memory.busy →
      Waits false op p.journal p'.journal t → p'.memory.busy = op.podId :: p.memory.busy →
      Executes c j₀ id p r p'

theorem execute_executes (hs : Sound j₀) {id : String} (h : Follows (Permitted c) j₀ p)
    (hown : c.owns id) : wp (execute id) (Executes c j₀ id p) p := by
  simp only [execute, wp_bind]
  rw [wp_get]
  cases hget : p.journal.get? id with
  | none => exact .ended h (by simp) rfl
  | some op =>
    simp only
    split
    · exact .ended h (by simp) rfl
    rename_i hstate
    have hstate : op.state = .requested := Decidable.not_not.mp hstate
    simp only [wp_bind, wp_memory]
    split
    · exact .ended h (by simp) rfl
    rename_i hbusy
    simp only [wp_bind, wp_remember]
    generalize hp₀ : (⟨{ p.memory with busy := op.podId :: p.memory.busy }, p.journal,
      p.written⟩ : EngineProc I) = p₀
    have hj : p₀.journal = p.journal := by rw [← hp₀]
    have hf : Follows (Permitted c) j₀ p₀ := h.of_eq hj (by rw [← hp₀])
    have hid := get?_id hget
    have hblank := (hs.follows h).unobserved op (get?_mem hget) (by rw [hstate]; rfl)
    have hpend : Pending p₀.journal op := by
      refine ⟨hstate, hblank.1, hblank.2, fun cur hcur => ?_⟩
      rw [hj, hid, hget] at hcur
      obtain rfl := some.inj hcur
      exact ⟨.inl hstate, rfl, rfl⟩
    have hown : c.owns op.operationId := hid ▸ hown
    have hlive : p₀.journal.state? op.operationId ≠ some .cancelled := by
      rw [hj, state?, hid, hget, map_some, hstate]
      simp
    refine wp_mono (closing_ends (beginning_leads hs hf hpend hown hlive)) ?_
    rintro r p' ⟨hf', hw, he⟩
    by_cases hr : ∃ t, r = .ok (.await t)
    · obtain ⟨t, rfl⟩ := hr
      obtain ⟨hwait, hb⟩ := hw t rfl
      refine .started op t hf' rfl hget hbusy (hj ▸ hwait) ?_
      rw [hb, ← hp₀]
    · have hr : ∀ t, r ≠ .ok (.await t) := fun t ht => hr ⟨t, ht⟩
      refine .ended hf' hr ?_
      rw [he hr, ← hp₀]
      simp only [ne_eq, not_true_eq_false, decide_false, Bool.false_eq_true, not_false_eq_true,
        List.filter_cons_of_neg]
      refine List.filter_eq_self.mpr fun pod hpod => ?_
      simpa using fun hc : pod = op.podId => hbusy (hc ▸ hpod)

/-- Where the operation is not REQUESTED, or its pod has an execution, nothing happens. -/
theorem execute_idle {id : String}
    (hidle : ∀ op, p.journal.get? id = some op → op.state = .requested →
      op.podId ∈ p.memory.busy)
    {Q : Except Exn (Next I) → EngineProc I → Prop}
    (h : ∀ r, (∀ t, r ≠ .ok (.await t)) → Q r p) : wp (execute id) Q p := by
  simp only [execute, wp_bind]
  rw [wp_get]
  cases hget : p.journal.get? id with
  | none => exact h _ (by simp)
  | some op =>
    simp only
    split
    · exact h _ (by simp)
    · rename_i hstate
      simp only [wp_bind, wp_memory]
      rw [if_pos (hidle op hget (Decidable.not_not.mp hstate))]
      exact h _ (by simp)

end Emosa
