import Emosa.Engine.Drive

/-!
# Emosa.Engine.Footprint

Which conflicts each call may record. Two places do: an execution whose submission is answered with a
conflict, and a pass that finds the configuration it owns gone. The first records no start of the
pod's OpenSync, the second the one its snapshot names.

* `resume_notes`, `reconcile_notes`: those two calls.
* `body_writes`: every call, `Call.records` saying what it may record.
-/

namespace Emosa

open Durable

variable {I : Type} [IntentType I] {α : Type} {P : String → Ownership → Prop}

/-- Every conflict the program records is one that `P` allows. -/
abbrev Records (P : String → Ownership → Prop) (m : M I α) : Prop := Writes (Recording P) m

/-- The same, by the rules of the program's text. -/
abbrev Notes (P : String → Ownership → Prop) (m : M I α) : Prop :=
  Does (fun _ => True) (Recording P) (fun _ => True) m

theorem save_notes (op : Operation I) : Notes P (Store.save op) :=
  .ite (fun _ => .commit trivial) fun _ => .raise _

namespace Engine

theorem settleRestarted_notes (op : Operation I) (current : Option String) :
    Notes P (settleRestarted op current) :=
  .ite (fun _ => .andThen (liftE_effects fun _ _ => trivial) fun _ => .bind (save_notes _) fun _ _ => .pure trivial)
    fun _ => .pure trivial

theorem requestInternal_notes (env : Env I) (r : Request I) : Notes P (requestInternal env r) := by
  intro p _
  refine wp_requestInternal (fun _ => ⟨.refl, trivial, fun _ _ => trivial⟩) fun fingerprint _ => ?_
  have hadd : Committed (Recording P) p
      (p.commit (.add (r.operation env fingerprint) r.wscReceipt)) := ⟨[_], rfl, rfl, by simp [Recording]⟩
  refine wp_mono (grant_effects (fun _ => True) P rfl) ?_
  rintro _ p' ⟨hgrant, -⟩
  exact ⟨hadd.trans (hgrant.mono fun _ h => h.2), trivial, fun _ _ => trivial⟩

/-- A record that is moved and saved. -/
theorem moving_notes {r : Except EmosaError (Operation I)} {f : Operation I → Operation I} :
    Notes P (do let op ← liftE r; Store.save (f op) : M I Unit) :=
  .andThen (liftE_effects fun _ _ => trivial) fun _ => save_notes _

theorem cancel_notes (id : String) : Notes P (cancel id : M I (Operation I)) :=
  .bind (get_effects _) fun _ _ => .andThen (liftE_effects fun _ _ => trivial) fun _ =>
    .bind (save_notes _) fun _ _ => .pure trivial

theorem recover_notes : Notes P (recover : M I Unit) := by
  refine .bind (.journal fun _ => trivial) fun j _ => ?_
  generalize j.operations = rows
  induction rows with
  | nil => exact .pure trivial
  | cons op rest ih =>
    refine .andThen ?_ fun _ => ih
    exact .ite (fun _ => moving_notes (f := id)) fun _ => .ite (fun _ => moving_notes) fun _ =>
      .ite (fun _ => moving_notes (f := id)) fun _ => .pure trivial

theorem execute_notes (id : String) : Notes P (execute id : M I (Next I)) := by
  intro p _
  cases hop : p.journal.get? id with
  | none =>
    rw [execute, wp_bind, wp_get, hop]
    exact ⟨.refl, trivial, fun _ _ => trivial⟩
  | some op =>
    exact wp_mono (execute_effects (fun _ => True) P hop rfl) fun _ _ h =>
      ⟨h.1.mono fun _ h => h.2, trivial, fun _ _ => trivial⟩

theorem resume_notes {env : Env I} {draw : Draw} {task : Task I} {reply : Reply}
    (h : ∀ result, reply = .submit (.ok result) → result.status = .conflict → ∀ id,
      P task.op.podId { operationId := id, reason := result.reason }) :
    Notes P (resume env draw task reply) := by
  have hworks : ∀ s, Works s (fun _ => True) task.op P (Tracked (fun _ => True) task.op)
      (resume env draw task reply) := fun _ =>
    resume_effects (.refl _) trivial (fun _ _ => trivial) h env draw
  exact .always hworks fun _ h => h.2

/-! ## Passes -/

theorem expired_notes (env : Env I) (op : Operation I) : Notes P (expired env op) := by
  refine .bind .memory fun e _ => ?_
  split
  · exact .pure trivial
  · exact .bind (.remember fun _ _ => trivial) fun _ _ => .pure trivial

theorem observe_notes {env : Env I} {pod : String} {snap : Snapshot} {target : Record}
    {pass : Pass I} (h : ∀ record : Ownership, record.instanceId = snap.start? → P pod record) :
    Notes P (observe env pod snap target pass) := by
  have hclaim : Notes P (claimLost pod snap pass) := by
    refine .bind (.commit (h _ rfl)) fun _ _ => ?_
    refine .ite (fun _ => .andThen (liftE_effects fun _ _ => trivial) fun _ => ?_) fun _ =>
      .andThen (.pure trivial) fun _ => ?_
    · exact .ite (fun _ => .pure trivial) fun _ => .pure trivial
    · exact .ite (fun _ => .pure trivial) fun _ => .pure trivial
  exact .ite (fun _ => .ite (fun _ => hclaim) fun _ =>
    .ite (fun _ => .lift fun _ _ => trivial) fun _ => .pure trivial) fun _ => .pure trivial

theorem follow_notes {env : Env I} {pod : String} {snap : Snapshot} {op : Operation I}
    (h : ∀ record : Ownership, record.instanceId = snap.start? → P pod record) :
    Notes P (follow env pod snap op) := by
  refine .bind (settleRestarted_notes _ _) fun _ _ => .ite (fun _ => .pure trivial) fun _ =>
    .bind (expired_notes _ _) fun _ _ => .andThen (liftE_effects fun _ _ => trivial) fun pass =>
      .andThen ?_ fun _ => .ite (fun _ => save_notes _) fun _ => .pure trivial
  unfold judge
  split
  · exact .ite (fun _ => .pure trivial) fun _ => .pure trivial
  · exact .andThen (liftE_effects fun _ _ => trivial) fun _ => observe_notes h

theorem reconcile_notes {env : Env I} {pod : String} {reply : Except Exn Snapshot}
    (h : ∀ snap, reply = .ok snap → ∀ record : Ownership, record.instanceId = snap.start? →
      P pod record) : Notes P (reconcile env pod reply) := by
  refine .bind .memory fun _ _ => .ite (fun _ => .raise _) fun _ => ?_
  refine .bind (.lift h) fun snap hsnap =>
    .bind (.always (f := Engine.setting) (fun _ => see_effects _ _) fun _ h => h) fun _ _ =>
      .bind (.journal fun _ => trivial) fun j _ => .andThen ?_ fun _ => .pure trivial
  generalize j.operations = rows
  induction rows with
  | nil => exact .pure trivial
  | cons op rest ih =>
    exact .ite (fun _ => .bind (follow_notes hsnap) fun _ _ => ih) fun _ => ih

end Engine

/-- The conflicts a call may record. -/
def World.records (w : World I) : Call I → String → Ownership → Prop
  | .resume k (.submit (.ok result)) _, pod, record =>
      result.status = .conflict ∧ record.instanceId = none ∧
        ∃ t, w.tasks[k]? = some t ∧ t.op.podId = pod
  | .reconcile pod' (.ok snap), pod, record => pod = pod' ∧ record.instanceId = snap.start?
  | _, _, _ => False

theorem World.body_writes (w : World I) (env : Env I) (call : Call I) :
    Records (w.records call) (w.body env call) := by
  refine Does.writes ?_
  cases call with
  | request r => exact .bind (Engine.requestInternal_notes _ _) fun _ _ => .pure trivial
  | execute id => exact .bind (Engine.execute_notes _) fun _ _ => .pure trivial
  | resume k reply draw =>
    simp only [body]
    split
    · rename_i t ht
      refine .bind (Engine.resume_notes ?_) fun _ _ => .pure trivial
      rintro result rfl hstatus id
      exact ⟨hstatus, rfl, t, ht, rfl⟩
    · exact .pure trivial
  | reconcile pod reply =>
    refine .bind (Engine.reconcile_notes ?_) fun _ _ => .pure trivial
    rintro snap rfl record hrec
    exact ⟨rfl, hrec⟩
  | cancel id => exact .bind (Engine.cancel_notes _) fun _ _ => .pure trivial
  | recover => exact .bind Engine.recover_notes fun _ _ => .pure trivial
  | quiesce | authorize | revoke => exact .bind (.remember fun _ _ => trivial) fun _ _ => .pure trivial

end Emosa
