import Emosa.Engine.ExecuteSpec

/-!
# Emosa.Engine.ReconcileSpec

A reconciliation pass commits only what is permitted.

* `Aged`: what the deadline makes of the followed record before the snapshot is judged. Nothing
  observed changes, and the state moves at most to TIMED_OUT.
* `noteApplied_lawful`: evidence is recorded only with a snapshot that shows the operation applied.
* `reconcile_passes`: the whole pass.
-/

namespace Emosa

open Durable Engine

variable {I : Type} {op new : Operation I} {pass : Engine.Pass I} {snap : Snapshot}

structure Aged (op new : Operation I) : Prop where
  operationId : new.operationId = op.operationId
  intent : new.intent = op.intent
  interface : new.initiatingInterface = op.initiatingInterface
  state : new.state = op.state ∨ new.state = .timedOut ∧ .timedOut ∈ op.state.next
  elapsed : new.state = .timedOut → new.deadlineElapsed = true
  evidence : new.applicationEvidence = op.applicationEvidence
  late : new.lateResolution = op.lateResolution
  commit : new.commitEvidence = op.commitEvidence
  plan : new.plan = op.plan

theorem Aged.refl (h : op.state = .timedOut → op.deadlineElapsed = true) :
    Aged op op := ⟨rfl, rfl, rfl, .inl rfl, h, rfl, rfl, rfl, rfl⟩

theorem Aged.because (h : Aged op new) (reason : Option String) :
    Aged op { new with reason := reason } :=
  { h with }

theorem Aged.moves (h : Aged op new) : op.state.Moves new.state := by
  cases h.state with
  | inl h => exact .inl h.symm
  | inr h => exact .inr (h.1 ▸ h.2)

theorem Aged.timeout {late : Operation I} (h : Aged op new) (hst : new.state = op.state)
    (ht : transition new .timedOut = .ok late) : Aged op late := by
  obtain ⟨rfl, hnext, hel⟩ := transition_ok ht
  exact { h with state := .inr ⟨rfl, hst ▸ hnext⟩, elapsed := hel }

theorem lapse_aged {late : Bool} (hop : op.state = .timedOut → op.deadlineElapsed = true)
    (h : lapse late op = .ok pass) : Aged op pass.op := by
  unfold lapse at h
  split at h
  · -- past the deadline: the mark, and for a committed write the time-out
    have hmark : ∀ pass : Pass I, pass = (if op.deadlineElapsed then ⟨op, false⟩
        else ⟨{ op with originalOutcome := some op.state, deadlineElapsed := true }, true⟩) →
        Aged op pass.op ∧ pass.op.state = op.state := by
      rintro pass rfl
      split
      · exact ⟨Aged.refl hop, rfl⟩
      · exact ⟨⟨rfl, rfl, rfl, .inl rfl, fun _ => rfl, rfl, rfl, rfl, rfl⟩, rfl⟩
    obtain ⟨hag, hst⟩ := hmark _ rfl
    simp only at h
    split at h
    · simp only [bind, Except.bind] at h
      split at h
      · cases h
      · rename_i late' ht
        cases h
        exact (hag.timeout hst ht).because _
    · cases h
      exact hag
  · cases h
    exact Aged.refl hop

theorem giveUp_aged {target : Record} {pass' : Pass I} (hag : Aged op pass.op)
    (h : giveUp snap target pass = .ok pass') : Aged op pass'.op := by
  unfold giveUp at h
  split at h
  · rename_i hdue
    have hst : pass.op.state = op.state := by
      cases hag.state with
      | inl hs => exact hs
      | inr hs => rw [hs.1] at hdue; simp at hdue
    simp only [bind, Except.bind] at h
    split at h
    · cases h
    · rename_i late' ht
      cases h
      exact (hag.timeout hst ht).because _
  · cases h
    exact hag

theorem resolved_cases {mid : Operation I} (hag : Aged op new)
    (h : resolved snap new = .ok mid) :
    mid.operationId = op.operationId ∧ mid.intent = op.intent ∧
    mid.initiatingInterface = op.initiatingInterface ∧
    (mid.state = .observedApplied ∧ .observedApplied ∈ op.state.next ∨
      mid.state = .timedOut ∧ op.state.Moves .timedOut ∧ mid.deadlineElapsed = true ∧
        mid.lateResolution = some "applied_after_deadline") := by
  unfold resolved at h
  split at h
  · rename_i hst
    cases h
    have hel := hag.elapsed hst
    exact ⟨hag.operationId, hag.intent, hag.interface,
      .inr ⟨hst, hst ▸ hag.moves, hel, by simp [witnessed, hel]⟩⟩
  · rename_i hst
    have hst' : new.state = op.state := by
      cases hag.state with
      | inl hs => exact hs
      | inr hs => exact absurd hs.1 hst
    cases ht : transition (witnessed snap new) .observedApplied
        (evidence snap false) with
    | error e => rw [ht] at h; cases h
    | ok mid' =>
      rw [ht] at h
      cases h
      obtain ⟨rfl, hnext, -⟩ := transition_ok ht
      exact ⟨hag.operationId, hag.intent, hag.interface, .inl ⟨rfl, hst' ▸ hnext⟩⟩

variable [IntentType I] {c : Context I} {j₀ : Journal I} {p : EngineProc I}

theorem State.followed_cases {s : State} (h : s.followed = true) :
    s = .configCommitted ∨ s = .indeterminate ∨ s = .timedOut ∨ s = .observedApplied := by
  cases s <;> simp [State.followed] at h ⊢

theorem Aged.lawful (h : Aged op new) (hf : op.state.followed = true) : Lawful c op new := by
  have hnew : new.state = .configCommitted ∨ new.state = .indeterminate ∨
      new.state = .timedOut ∨ new.state = .observedApplied := by
    cases h.state with
    | inl hs => exact hs ▸ State.followed_cases hf
    | inr hs => exact .inr (.inr (.inl hs.1))
  refine .quiet h.operationId h.intent h.interface h.moves ?_ ?_ ?_ h.evidence h.late h.elapsed ?_
  · rintro (hs | hs) <;> rw [hs] at hf <;> simp [State.followed] at hf
  · rcases hnew with hs | hs | hs | hs <;> rw [hs] <;> decide
  · intro happ
    cases h.state with
    | inl hs => exact hs.symm
    | inr hs => rw [hs.1] at happ; cases happ
  · rcases hnew with hs | hs | hs | hs <;> rw [hs] <;> simp [State.unsent]

theorem Lawful.not_submitted (h : Lawful c op new) (hf : op.state.followed = true) :
    new.state ≠ .submitted := by
  intro hs
  cases h.moves with
  | inl hm =>
    rw [hs] at hm
    rcases State.followed_cases hf with ho | ho | ho | ho <;> rw [ho] at hm <;>
      simp [State.Moves, State.next] at hm
  | inr hm => rw [hs] at hm; cases hm.2.1

/-- The record ends OBSERVED_APPLIED, or stays TIMED_OUT and notes the late application. -/
theorem observed_lawful (hid : new.operationId = op.operationId)
    (hintent : new.intent = op.intent)
    (hinterface : new.initiatingInterface = op.initiatingInterface)
    (hf : op.state.followed = true) (hnone : op.applicationEvidence = none) (hseen : c.Seen new)
    (hstate : new.state = .observedApplied ∧ .observedApplied ∈ op.state.next ∨
      new.state = .timedOut ∧ op.state.Moves .timedOut ∧ new.deadlineElapsed = true ∧
        new.lateResolution = some "applied_after_deadline") : Lawful c op new := by
  have hsent : ¬ (op.state = .requested ∨ op.state = .submitted) := by
    rintro (hs | hs) <;> rw [hs] at hf <;> simp [State.followed] at hf
  rcases hstate with ⟨hst, hnext⟩ | ⟨hst, hmoves, helapsed, hlate⟩
  · exact ⟨hid, hintent, hinterface, .inl (.inr (hst ▸ hnext)), fun hc => absurd hc hsent,
      by rw [hst]; decide, fun _ _ => hseen, .inr ⟨hnone, hseen, fun hc => by simp [hst] at hc⟩,
      .inr hseen, fun hc => by simp [hst] at hc, fun hc => by simp [hst, State.unsent] at hc⟩
  · exact ⟨hid, hintent, hinterface, .inl (hst ▸ hmoves), fun hc => absurd hc hsent,
      by rw [hst]; decide, fun _ _ => hseen, .inr ⟨hnone, hseen, fun _ => hlate⟩,
      .inr hseen, fun _ => helapsed, fun hc => by simp [hst, State.unsent] at hc⟩

theorem noteApplied_lawful (hag : Aged op new) (hf : op.state.followed = true)
    (hnone : new.applicationEvidence = none)
    (hseen : ∀ rec : Operation I, rec.intent = op.intent → c.Seen rec)
    (h : noteApplied snap new = .ok pass) : Lawful c op pass.op := by
  have hold : op.applicationEvidence = none := hag.evidence ▸ hnone
  simp only [noteApplied, bind, Except.bind] at h
  split at h
  · cases h
  · rename_i mid hm
    obtain ⟨hid, hintent, hinterface, hstate⟩ := resolved_cases hag hm
    unfold attributed at h
    split at h
    · cases h
    · split at h
      · cases h
        exact observed_lawful hid hintent hinterface hf hold (hseen _ hintent) hstate
      · cases h
        exact observed_lawful hid hintent hinterface hf hold (hseen _ hintent) hstate

/-- The snapshot, ready and fresh, has not the configuration the operation owns, on the start and
under the mapping it was written for. -/
def Engine.Lost (env : Env I) (pod : String) (snap : Snapshot) (op : Operation I) : Prop :=
  snap.ready = true ∧ snap.observed.fresh = true ∧
  ∃ target, IntentType.target env.vault op.intent = .ok target ∧
    configMatches snap.config target = false ∧
    Engine.writtenOnAnotherStart op snap.start? = false ∧ Engine.remapped env op pod = false

variable {env : Env I} {pod : String}

omit [IntentType I] in
theorem Aged.lost (h : Aged op new) {target : Record}
    (hd : drifted env pod snap target new = true) :
    configMatches snap.config target = false ∧
      writtenOnAnotherStart op snap.start? = false ∧
      remapped env op pod = false := by
  simp only [drifted, Bool.and_eq_true, Bool.not_eq_true'] at hd
  obtain ⟨⟨⟨hconfig, -⟩, hstart⟩, hmap⟩ := hd
  unfold writtenOnAnotherStart at hstart ⊢
  unfold remapped at hmap ⊢
  rw [h.evidence, h.commit] at hstart
  rw [h.plan] at hmap
  exact ⟨hconfig, hstart, hmap⟩

/-- The pass over a record before it is saved: at most a conflict is recorded. -/
structure Judges (c : Context I) (j₀ : Journal I) (op : Operation I)
    (p : EngineProc I) (r : Except Exn (Engine.Pass I))
    (p' : EngineProc I) : Prop where
  keeps : Keeps c j₀ p p'
  operations : p'.journal.operations = p.journal.operations
  lawful : ∀ pass, r = .ok pass → Lawful c op pass.op

section

variable (h : Follows (Permitted c) j₀ p)
include h

theorem claimLost_judges (hconf : c.conflicts pod)
    (hag : Aged op pass.op) (hf : op.state.followed = true) :
    wp (claimLost pod snap pass) (Judges c j₀ op p) p := by
  simp only [claimLost]
  generalize hw : Write.conflict pod _ = w
  have hkeeps : Keeps c j₀ p (p.commit w) := ⟨h.commit (hw ▸ hconf), rfl⟩
  have hops : (p.commit w).journal.operations = p.journal.operations := by rw [← hw]; rfl
  -- the reason is noted on a record that is lawful whatever its reason
  have hnote : ∀ new : Operation I, (∀ reason, Lawful c op { new with reason := reason }) →
      wp (if new.reason = some Reason.ownershipConflict.value then
          (pure ⟨new, pass.changed⟩ : M I (Pass I))
        else pure ⟨{ new with reason := some Reason.ownershipConflict.value }, true⟩)
        (Judges c j₀ op p) (p.commit w) := by
    intro new hnew
    split
    · refine ⟨hkeeps, hops, ?_⟩
      rintro pass' ⟨⟩
      exact hnew new.reason
    · refine ⟨hkeeps, hops, ?_⟩
      rintro pass' ⟨⟩
      exact hnew _
  split
  · rename_i hst
    cases ht : transition pass.op .ownershipConflict with
    | error e => exact ⟨hkeeps, hops, fun pass' hp => by cases hp⟩
    | ok new =>
      obtain ⟨rfl, -, -⟩ := transition_ok ht
      have hop : op.state = .configCommitted := by
        cases hag.state with
        | inl hs => exact hs ▸ hst
        | inr hs => rw [hs.1] at hst; cases hst
      refine hnote _ fun reason => ?_
      have hmoves : op.state.Moves .ownershipConflict := by rw [hop]; decide
      exact .quiet hag.operationId hag.intent hag.interface hmoves
        (fun hc => by simp [hop] at hc) (by simp) (by simp) hag.evidence hag.late (by simp)
        (by simp [State.unsent])
  · exact hnote _ fun reason => (hag.because reason).lawful hf

theorem observe_judges {target : Record}
    (hconf : Lost env pod snap op → c.conflicts pod) (henv : c.env = env)
    (hsnap : c.snapshot = some snap)
    (htarget : IntentType.target env.vault op.intent = .ok target) (hag : Aged op pass.op)
    (hf : op.state.followed = true) :
    wp (observe env pod snap target pass) (Judges c j₀ op p) p := by
  have hsame : Judges c j₀ op p (.ok pass) p := by
    refine ⟨⟨h, rfl⟩, rfl, ?_⟩
    rintro pass' ⟨⟩
    exact hag.lawful hf
  unfold observe
  split
  · rename_i hready
    split
    · rename_i hdrift
      exact claimLost_judges h (hconf ⟨hready.1, hready.2, target, htarget, hag.lost hdrift⟩) hag hf
    split
    · rename_i happlied
      obtain ⟨hmatch, hsat, hnone⟩ := happlied
      have hseen : ∀ rec : Operation I, rec.intent = op.intent → c.Seen rec := fun rec hrec =>
        ⟨snap, hsnap, hready.1, hready.2, target, by rw [henv, hrec]; exact htarget, hmatch, hsat⟩
      rw [wp_lift]
      refine ⟨⟨h, rfl⟩, rfl, fun pass' hp => ?_⟩
      exact noteApplied_lawful hag hf (by simpa using hnone) hseen hp
    · exact hsame
  · exact hsame

theorem judge_judges
    (hconf : Lost env pod snap op → c.conflicts pod) (henv : c.env = env)
    (hsnap : c.snapshot = some snap) (hag : Aged op pass.op) (hf : op.state.followed = true) :
    wp (judge env pod snap pass) (Judges c j₀ op p) p := by
  unfold judge
  split
  · split
    · refine ⟨⟨h, rfl⟩, rfl, ?_⟩
      rintro pass' ⟨⟩
      exact hag.lawful hf
    · refine ⟨⟨h, rfl⟩, rfl, ?_⟩
      rintro pass' ⟨⟩
      have hblocked : Aged op { pass.op with blockedForResubmission := true } :=
        { hag with }
      exact hblocked.lawful hf
  · rename_i target htarget
    rw [hag.intent] at htarget
    cases hg : giveUp snap target pass with
    | error e => exact ⟨⟨h, rfl⟩, rfl, fun pass' hp => by cases hp⟩
    | ok pass' => exact observe_judges h hconf henv hsnap htarget (giveUp_aged hag hg) hf

end

/-! ## The pass -/

/-- Permitted writes, and the executions in flight as they were. -/
structure Leaves (c : Context I) (j₀ : Journal I) (p p' : EngineProc I) :
    Prop where
  follows : Follows (Permitted c) j₀ p'
  busy : p'.memory.busy = p.memory.busy

/-- A turn of the loop touches only its own record. -/
structure Passes (c : Context I) (j₀ : Journal I) (id : String)
    (p p' : EngineProc I) : Prop where
  follows : Follows (Permitted c) j₀ p'
  busy : p'.memory.busy = p.memory.busy
  others : Untouched id p.journal p'.journal

theorem wp_expired {Q : Except Exn Bool → EngineProc I → Prop}
    (h : ∀ late p', p'.journal = p.journal → p'.written = p.written →
      p'.memory.busy = p.memory.busy → Q (.ok late) p') : wp (expired env op) Q p := by
  simp only [expired, wp_bind, wp_memory]
  split <;> exact h _ _ rfl rfl rfl

theorem follow_passes (hs : Sound j₀) (h : Follows (Permitted c) j₀ p)
    (hconf : Lost env pod snap op → c.conflicts pod) (henv : c.env = env)
    (hsnap : c.snapshot = some snap) (hget : p.journal.get? op.operationId = some op)
    (hf : op.state.followed = true) :
    wp (follow env pod snap op) (fun _ p' => Passes c j₀ op.operationId p p') p := by
  have hmem := Journal.get?_mem hget
  have hsp := hs.follows h
  simp only [follow, wp_bind]
  rw [wp_settleRestarted (hsp.valid op hmem)]
  split
  · rename_i hset
    have hw : Permitted c p.journal (.save (settled op)) := by
      refine ⟨hsp.valid op hmem, fun old hold => ?_, fun hc => by simp [settled] at hc⟩
      have he : old = op := Option.some.inj (hold.symm.trans hget)
      rw [he]
      exact settled_lawful hset.1
    exact ⟨h.commit hw, rfl, Untouched.save p.journal (settled op)⟩
  · simp only [Bool.false_eq_true, if_false, wp_bind]
    refine wp_expired fun late p₁ hj hw hb => ?_
    have hp₁ := h.of_eq hj hw
    simp only [wp_liftE]
    cases hl : lapse late op with
    | error e => exact ⟨hp₁, hb, fun k _ => by rw [hj]⟩
    | ok pass =>
      have hag := lapse_aged (hsp.elapsed op hmem) hl
      refine wp_mono (judge_judges hp₁ hconf henv hsnap hag hf) ?_
      rintro r p₂ ⟨hk, hops, hlaw⟩
      have hget₂ : ∀ k, p₂.journal.get? k = p.journal.get? k := fun k => by
        rw [Journal.get?, hops, hj]
        rfl
      have hb₂ : p₂.memory.busy = p.memory.busy := by rw [hk.memory, hb]
      cases r with
      | error x => exact ⟨hk.follows, hb₂, fun k _ => hget₂ k⟩
      | ok pass' =>
        simp only
        split
        · rw [wp_save]
          split
          · rename_i hvalid
            have hlaw' := hlaw pass' rfl
            have hid := hlaw'.operationId
            have hw' : Permitted c p₂.journal (.save pass'.op) := by
              refine ⟨hvalid, fun old hold => ?_, fun hc => absurd hc (hlaw'.not_submitted hf)⟩
              rw [hid, hget₂, hget] at hold
              exact Option.some.inj hold ▸ hlaw'
            refine ⟨hk.follows.commit hw', hb₂, fun k hne => ?_⟩
            rw [← hget₂ k]
            exact Journal.get?_save_ne _ (hid ▸ hne)
          · exact ⟨hk.follows, hb₂, fun k _ => hget₂ k⟩
        · exact ⟨hk.follows, hb₂, fun k _ => hget₂ k⟩

/-- The operation a pass over `rows` follows: the pod's, with none after it that was sent. -/
def Engine.Newest (pod : String) (rows : List (Operation I)) (op : Operation I) : Prop :=
  op.podId = pod ∧ op.state.followed = true ∧
  ∃ rest, (op :: rest) <:+ rows ∧ rest.any (fun p => p.podId = pod ∧ p.state.reconciled) = false

/-- A pass with this snapshot may record a conflict. -/
def Engine.Claims (env : Env I) (pod : String) (snap : Snapshot) (rows : List (Operation I)) :
    Prop :=
  ∃ op, Engine.Newest pod rows op ∧ Engine.Lost env pod snap op

theorem Engine.Claims.cons {rows : List (Operation I)} (h : Claims env pod snap rows)
    (op : Operation I) : Claims env pod snap (op :: rows) := by
  obtain ⟨new, ⟨hpod, hf, rest, hrest, hany⟩, hlost⟩ := h
  exact ⟨new, ⟨hpod, hf, rest, hrest.trans (List.suffix_cons op rows), hany⟩, hlost⟩

theorem reconcileFrom_passes (hs : Sound j₀) {rows : List (Operation I)}
    (h : Follows (Permitted c) j₀ p) (hconf : Claims env pod snap rows → c.conflicts pod)
    (henv : c.env = env) (hsnap : c.snapshot = some snap) (hcur : Current p.journal rows) :
    wp (reconcileFrom env pod snap rows) (fun _ p' => Leaves c j₀ p p') p := by
  induction rows generalizing p with
  | nil => exact ⟨h, rfl⟩
  | cons op rest ih =>
    simp only [reconcileFrom]
    split
    · rename_i hfollow
      rw [wp_bind]
      have hget := hcur.held op List.mem_cons_self
      have hnew : Newest pod (op :: rest) op :=
        ⟨hfollow.1, hfollow.2.1, rest, List.suffix_refl _, by simpa using hfollow.2.2⟩
      refine wp_mono (follow_passes hs h (fun hl => hconf ⟨op, hnew, hl⟩) henv hsnap hget
        hfollow.2.1) ?_
      rintro r p₁ ⟨hp₁, hb, hothers⟩
      cases r with
      | error x => exact ⟨hp₁, hb⟩
      | ok _ =>
        refine wp_mono (ih hp₁ (fun hc => hconf (hc.cons op)) (hcur.tail hothers)) ?_
        rintro r p₂ ⟨hp₂, hb₂⟩
        exact ⟨hp₂, hb₂.trans hb⟩
    · exact ih h (fun hc => hconf (hc.cons op)) (hcur.tail (Untouched.refl _ _))

theorem reconcile_passes (hs : Sound j₀) {reply : Except Exn Snapshot}
    (h : Follows (Permitted c) j₀ p)
    (hconf : ∀ snap, reply = .ok snap → Claims env pod snap p.journal.operations →
      c.conflicts pod) (henv : c.env = env)
    (hsnap : ∀ snap, reply = .ok snap → c.snapshot = some snap) :
    wp (reconcile env pod reply) (fun _ p' => Leaves c j₀ p p') p := by
  simp only [reconcile, wp_bind, wp_memory]
  split
  · exact ⟨h, rfl⟩
  · simp only [wp_bind, wp_lift]
    cases reply with
    | error x => exact ⟨h, rfl⟩
    | ok snap =>
      refine wp_see fun instances => ?_
      simp only [wp_journal]
      refine wp_mono (reconcileFrom_passes hs (h.of_eq rfl rfl) (hconf snap rfl) henv (hsnap snap rfl)
        (hs.follows h).current) ?_
      rintro r p₁ ⟨hp₁, hb₁⟩
      cases r with
      | error | ok => exact ⟨hp₁, hb₁⟩

end Emosa
