import Emosa.Engine.World

/-!
# Emosa.Engine.Lawful

What a call may commit, said once for all calls. `Lawful` is what it may make of a journaled record;
`Permitted` what it may write. Both speak of the call through a `Context`: the operation it adds,
those it acts for, the pods whose conflict it may record, and the snapshot it works with. Everything
a run keeps is derived from `Permitted`, call by call and then over the run.

* `Sound`: what every journal of a run satisfies, whatever is in flight.
* `sound_apply`: a permitted write keeps it.
-/

namespace Emosa

open Durable List Journal

variable {I : Type} [IntentType I]

/-- The snapshot is ready and fresh, it has the operation's target configured, and shows it. -/
def Shows (env : Env I) (snap : Snapshot) (op : Operation I) : Prop :=
  snap.ready = true ∧ snap.observed.fresh = true ∧
  ∃ target, IntentType.target env.vault op.intent = .ok target ∧
    configMatches snap.config target = true ∧ snap.observed.satisfies target = true

/-- A call, as far as its writes go. -/
structure Context (I : Type) where
  env : Env I
  start : Journal I
  snapshot : Option Snapshot := none
  request : Option (Engine.Request I) := none
  owns : String → Prop := fun _ => False
  /-- The validation fails of an operation that was cancelled while it waited. -/
  stale : String → Prop := fun _ => False
  conflicts : String → Prop := fun _ => False
  /-- The pod's execution is past its check of the ownership. -/
  submits : String → Prop := fun _ => False

/-- The call is the request that adds the operation. -/
def Context.adds (c : Context I) (id : String) : Prop :=
  ∃ r, c.request = some r ∧ r.operationId = id

/-- The call's snapshot shows the operation's target. -/
def ShownBy (env : Env I) (snapshot : Option Snapshot) (op : Operation I) : Prop :=
  ∃ snap, snapshot = some snap ∧ Shows env snap op

def Context.Seen (c : Context I) (op : Operation I) : Prop := ShownBy c.env c.snapshot op

/-- The operation was not sent, so nothing was observed for it. -/
def State.unsent : State → Bool
  | .requested | .validated | .cancelled => true
  | _ => false

/-- What a call may make of the journaled record `old`. -/
structure Lawful (c : Context I) (old new : Operation I) : Prop where
  operationId : new.operationId = old.operationId
  intent : new.intent = old.intent
  interface : new.initiatingInterface = old.initiatingInterface
  /-- The state moves by the table. The one exception is an execution that rejects an operation
  cancelled meanwhile. -/
  moves : old.state.Moves new.state ∨
    old.state = .cancelled ∧ new.state = .rejected ∧ c.owns old.operationId ∧
      c.stale old.operationId
  /-- Only its own execution takes a requested or a submitted operation on. Others may cancel it,
  and the request that added it may reject it. -/
  mine : old.state = .requested ∨ old.state = .submitted →
    new.state = .cancelled ∨ c.owns old.operationId ∨
      c.adds old.operationId ∧ new.state = .rejected
  journaled : new.state ≠ .requested
  applied : new.state = .observedApplied → old.state ≠ .observedApplied → c.Seen new
  evidence : new.applicationEvidence = old.applicationEvidence ∨
    old.applicationEvidence = none ∧ c.Seen new ∧
      (new.state = .timedOut → new.lateResolution = some "applied_after_deadline")
  late : new.lateResolution = old.lateResolution ∨ c.Seen new
  elapsed : new.state = .timedOut → new.deadlineElapsed = true
  unobserved : new.state.unsent = true → new.applicationEvidence = none ∧ new.lateResolution = none

def Permitted (c : Context I) (j : Journal I) : Write I → Prop
  | .add op _ =>
      (∃ r, c.request = some r ∧ op.operationId = r.operationId ∧ op.intent = r.intent) ∧
      op.operationId ∉ j.issued ∧ op.valid = true ∧
      op.state = .requested ∧ op.applicationEvidence = none ∧ op.lateResolution = none
  | .save op =>
      op.valid = true ∧ (∀ old, j.get? op.operationId = some old → Lawful c old op) ∧
      (op.state = .submitted → j.ownership = c.start.ownership ∧ c.submits op.podId)
  | .conflict pod _ => c.conflicts pod
  | .release _ => True

/-- What every journal of a run satisfies. -/
structure Sound (j : Journal I) : Prop where
  distinct : j.Distinct
  valid : ∀ op ∈ j.operations, op.valid = true
  elapsed : ∀ op ∈ j.operations, op.state = .timedOut → op.deadlineElapsed = true
  unobserved : ∀ op ∈ j.operations, op.state.unsent = true →
    op.applicationEvidence = none ∧ op.lateResolution = none

theorem sound_empty : Sound ({} : Journal I) :=
  ⟨⟨nodup_nil, by simp⟩, by simp, by simp, by simp⟩

namespace Journal

theorem Distinct.save {j : Journal I} (h : j.Distinct) (new : Operation I) :
    (j.apply (.save new)).Distinct := by
  have hids : (j.apply (.save new)).operations.map Operation.operationId =
      j.operations.map Operation.operationId := by
    simp only [Journal.apply, written, map_map]
    apply map_congr_left
    intro row _
    by_cases hrow : row.operationId = new.operationId <;> simp [hrow]
  refine ⟨hids ▸ h.nodup, fun op hop => ?_⟩
  have hm : op.operationId ∈ j.operations.map Operation.operationId :=
    hids ▸ mem_map_of_mem hop
  obtain ⟨row, hrow, he⟩ := mem_map.mp hm
  exact he ▸ h.issued row hrow

theorem Distinct.add {j : Journal I} (h : j.Distinct) {new : Operation I}
    {receipt : Option Receipt} (hnew : new.operationId ∉ j.issued) :
    (j.apply (.add new receipt)).Distinct := by
  refine ⟨?_, fun op hop => ?_⟩
  · have happ : ((j.operations ++ [new]).map Operation.operationId).Nodup := by
      rw [map_append, nodup_append]
      refine ⟨h.nodup, nodup_singleton _, ?_⟩
      rintro a ha b hb rfl
      obtain ⟨row, hrow, rfl⟩ := mem_map.mp ha
      exact hnew (mem_singleton.mp hb ▸ h.issued row hrow)
    exact happ.sublist (filter_sublist.map _)
  · simp only [Journal.apply, written, prune, mem_cons]
    cases mem_add hop with
    | inl hm => exact .inr (h.issued op hm)
    | inr he => exact .inl (he ▸ rfl)

end Journal

theorem Sound.get? {j : Journal I} (h : Sound j) {op : Operation I} (hop : op ∈ j.operations) :
    j.get? op.operationId = some op := h.distinct.get? hop

theorem sound_apply {c : Context I} (j : Journal I) (w : Write I) (h : Sound j)
    (hw : Permitted c j w) : Sound (Durable.apply j w) := by
  cases w with
  | add new receipt =>
    obtain ⟨-, hfresh, hvalid, hstate, hev, hlate⟩ := hw
    refine ⟨h.distinct.add hfresh, ?_, ?_, ?_⟩
    · intro op hop
      exact (mem_add hop).elim (h.valid op) (fun he => he ▸ hvalid)
    · intro op hop ht
      refine (mem_add hop).elim (fun hm => h.elapsed op hm ht) (fun he => ?_)
      rw [he, hstate] at ht
      cases ht
    · intro op hop hu
      exact (mem_add hop).elim (fun hm => h.unobserved op hm hu)
        (fun he => he ▸ ⟨hev, hlate⟩)
  | save new =>
    obtain ⟨hvalid, hlaw, -⟩ := hw
    have hnew : ∀ old ∈ j.operations, old.operationId = new.operationId → Lawful c old new :=
      fun old hold hid => hlaw old (hid ▸ h.get? hold)
    refine ⟨h.distinct.save new, ?_, ?_, ?_⟩
    · intro op hop
      exact (mem_save hop).elim (h.valid op) (fun he => he.1 ▸ hvalid)
    · intro op hop ht
      refine (mem_save hop).elim (fun hm => h.elapsed op hm ht) (fun he => ?_)
      obtain ⟨rfl, old, hold, hid⟩ := he
      exact (hnew old hold hid).elapsed ht
    · intro op hop hu
      refine (mem_save hop).elim (fun hm => h.unobserved op hm hu) (fun he => ?_)
      obtain ⟨rfl, old, hold, hid⟩ := he
      exact (hnew old hold hid).unobserved hu
  | conflict | release => exact { h with distinct := ⟨h.distinct.1, h.distinct.2⟩ }

theorem Sound.follows {c : Context I} {j : Journal I} (h : Sound j)
    {p : EngineProc I} (hp : Follows (Permitted c) j p) : Sound p.journal := by
  rw [hp.replayed]
  exact hp.permitted.replay sound_apply h

end Emosa
