import Emosa.Engine.Lifecycle

/-!
# Emosa.Engine.Evidence

What the journal says was observed of an operation rests on a snapshot. Only a call whose own
snapshot shows the operation's target, ready, fresh, configured and observed, journals it
OBSERVED_APPLIED or gives it evidence or a late resolution. Evidence is written once, and a timed-out
operation stays so.

* `observes_apply`: one permitted write.
-/

namespace Emosa

open Durable Option Journal

variable {I : Type} [IntentType I] {c : Context I}

/-- What one commit may say of the operations, `env` and `snapshot` being those of its call. -/
structure Observes (env : Env I) (snapshot : Option Snapshot) (j j' : Journal I) : Prop where
  applied : ∀ op ∈ j'.operations, op.state = .observedApplied →
    j.state? op.operationId = some .observedApplied ∨ ShownBy env snapshot op
  evidence : ∀ op ∈ j'.operations, op.applicationEvidence ≠ none →
    (∃ old, j.get? op.operationId = some old ∧
      op.applicationEvidence = old.applicationEvidence) ∨ ShownBy env snapshot op
  late : ∀ op ∈ j'.operations, op.lateResolution ≠ none →
    (∃ old, j.get? op.operationId = some old ∧ op.lateResolution = old.lateResolution) ∨
      ShownBy env snapshot op
  once : ∀ op ∈ j'.operations, ∀ old, j.get? op.operationId = some old →
    old.applicationEvidence ≠ none → op.applicationEvidence = old.applicationEvidence
  /-- An application after the deadline is a late resolution and nothing else. -/
  timedOut : ∀ op ∈ j'.operations, ∀ old, j.get? op.operationId = some old →
    old.state = .timedOut → op.state = .timedOut ∧
      (op.applicationEvidence ≠ old.applicationEvidence →
        op.lateResolution = some "applied_after_deadline")

theorem record_origin {j : Journal I} {w : Write I} (hs : Sound j) (hw : Permitted c j w)
    {op : Operation I} (hop : op ∈ (Durable.apply j w).operations) :
    j.get? op.operationId = some op ∨
      (∃ old, j.get? op.operationId = some old ∧ Lawful c old op) ∨
      (j.get? op.operationId = none ∧ op.state = .requested ∧ op.applicationEvidence = none ∧
        op.lateResolution = none) := by
  cases w with
  | add new receipt =>
    cases mem_add hop with
    | inl hm => exact .inl (hs.get? hm)
    | inr he =>
      obtain ⟨-, hfresh, -, hblank⟩ := hw
      refine .inr (.inr ⟨?_, he ▸ hblank⟩)
      cases hget : j.get? op.operationId with
      | none => rfl
      | some old =>
        have hissued := hs.distinct.issued old (get?_mem hget)
        rw [get?_id hget, he] at hissued
        exact absurd hissued hfresh
  | save new =>
    cases mem_save hop with
    | inl hm => exact .inl (hs.get? hm)
    | inr he =>
      obtain ⟨rfl, old, hold, hid⟩ := he
      have hget := hid ▸ hs.get? hold
      exact .inr (.inl ⟨old, hget, hw.2.1 old hget⟩)
  | conflict | release => exact .inl (hs.get? hop)

theorem Lawful.timedOut {old new : Operation I} (h : Lawful c old new)
    (hold : old.state = .timedOut) : new.state = .timedOut := by
  rcases h.moves with (hm | hm) | hm
  · exact hm.symm.trans hold
  · simp [hold, State.next] at hm
  · simp [hold] at hm

theorem observes_apply (j : Journal I) (w : Write I) (hs : Sound j) (hw : Permitted c j w) :
    Observes c.env c.snapshot j (Durable.apply j w) := by
  refine ⟨fun op hop hst => ?_, fun op hop hev => ?_, fun op hop hlate => ?_,
    fun op hop old hold hev => ?_, fun op hop old hold htime => ?_⟩
  · rcases record_origin hs hw hop with hget | ⟨old, hget, hlaw⟩ | ⟨-, hreq, -⟩
    · exact .inl (by rw [Journal.state?, hget, map_some, hst])
    · by_cases hold : old.state = .observedApplied
      · exact .inl (by rw [Journal.state?, hget, map_some, hold])
      · exact .inr (hlaw.applied hst hold)
    · simp [hreq] at hst
  · rcases record_origin hs hw hop with hget | ⟨old, hget, hlaw⟩ | ⟨-, -, hnone, -⟩
    · exact .inl ⟨op, hget, rfl⟩
    · exact hlaw.evidence.imp (fun he => ⟨old, hget, he⟩) fun hc => hc.2.1
    · exact absurd hnone hev
  · rcases record_origin hs hw hop with hget | ⟨old, hget, hlaw⟩ | ⟨-, -, -, hnone⟩
    · exact .inl ⟨op, hget, rfl⟩
    · exact hlaw.late.imp_left fun he => ⟨old, hget, he⟩
    · exact absurd hnone hlate
  · rcases record_origin hs hw hop with hget | ⟨old', hget, hlaw⟩ | ⟨hnone, -⟩
    · rw [some.inj (hget.symm.trans hold)]
    · obtain rfl := some.inj (hget.symm.trans hold)
      exact hlaw.evidence.resolve_right fun hc => hev hc.1
    · simp [hnone] at hold
  · rcases record_origin hs hw hop with hget | ⟨old', hget, hlaw⟩ | ⟨hnone, -⟩
    · obtain rfl := some.inj (hget.symm.trans hold)
      exact ⟨htime, fun hne => absurd rfl hne⟩
    · obtain rfl := some.inj (hget.symm.trans hold)
      have hst := hlaw.timedOut htime
      exact ⟨hst, fun hne => (hlaw.evidence.resolve_left hne).2.2 hst⟩
    · simp [hnone] at hold

/-- Every commit of every action of a run says no more than its snapshot shows, and what was once
journaled TIMED_OUT is never journaled in another state. -/
theorem observed_only_as_shown (s : Setup) (as : List (Action I)) (a : Action I) :
    (((World.init s).run as).journal :: ((World.init s).run as).moments a).IsChain
        (Observes a.env (((World.init s).run as).snapshot? a.made)) ∧
      ∀ id, (journaledStates s as id).Pairwise fun was is => was = .timedOut → is = was := by
  have hw := World.inv_run (World.inv_init (I := I) s) as
  refine ⟨(World.commits_permits hw a).1.chain sound_apply observes_apply hw.sound, fun id => ?_⟩
  have hall : Meets World.step (fun _ _ => True) (World.init s) as := .of_forall (by simp) _ _
  have hchain : (journaledStates s as id).IsChain (State.Goes True) :=
    states_chain (fun _ _ _ s t hgo => hgo.imp_right fun hc => ⟨hc.1, hc.2.1, trivial⟩) s hall
  refine ended_stays hchain fun s t hs hgo => ?_
  rcases hgo with (hm | hm) | hm
  · exact hm.symm
  · simp [hs, State.next] at hm
  · simp [hs] at hm

end Emosa
