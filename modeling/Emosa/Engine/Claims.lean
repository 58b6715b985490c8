import Emosa.Engine.Inv

/-!
# Emosa.Engine.Claims

An execution checks the pod's ownership once, before it asks for the plan. Between that check and
the journaled submission it waits for the plan and the snapshot, and a reconciliation of the pod may
record a conflict meanwhile.

* `unclaimed_step`: the pods of the executions past their check have no recorded conflict, as long as
  no reconciliation records one for them.
* `trail_unclaimed`: so none of them is submitted over a conflict.
-/

namespace Emosa

open Durable

variable {I : Type} [IntentType I] {c : Context I}

/-- Nothing is newly SUBMITTED over a recorded conflict of its pod. -/
def SubmitsUnclaimed (j j' : Journal I) : Prop :=
  ∀ op ∈ j'.operations, op.state = .submitted →
    (∃ old ∈ j.operations, old.operationId = op.operationId ∧ old.state = .submitted) ∨
      j.ownership.get? op.podId = none

instance (j j' : Journal I) : Decidable (SubmitsUnclaimed j j') := by
  unfold SubmitsUnclaimed
  infer_instance

theorem unclaimed_apply {pod : String} (hconf : ¬ c.conflicts pod) (j : Journal I) (w : Write I)
    (h : j.ownership.get? pod = none) (hw : Permitted c j w) :
    (Durable.apply j w).ownership.get? pod = none := by
  cases w with
  | add | save => exact h
  | conflict pod' record =>
    have hne : pod ≠ pod' := fun he => hconf (he ▸ hw)
    exact (Dict.get?_set_ne _ _ hne).trans h
  | release pod' =>
    by_cases he : pod = pod'
    · rw [he]
      exact Dict.get?_erase_self _ _
    · exact (Dict.get?_erase_ne _ he).trans h

theorem submits_of_save {holds : Operation I → Bool} (j : Journal I) (w : Write I)
    (hadd : ∀ op receipt, w = .add op receipt → op.state = .requested)
    (hsave : ∀ op, w = .save op → op.state = .submitted → j.ownership.get? op.podId = none) :
    SubmitsUnclaimed j (j.written holds w) := by
  intro op hop hst
  cases w with
  | add new receipt =>
    cases Journal.mem_written_add hop with
    | inl hm => exact .inl ⟨op, hm, rfl, hst⟩
    | inr he =>
      rw [he, hadd new receipt rfl] at hst
      cases hst
  | save new =>
    cases Journal.mem_written_save holds hop with
    | inl hm => exact .inl ⟨op, hm, rfl, hst⟩
    | inr he =>
      obtain ⟨rfl, -⟩ := he
      exact .inr (hsave op rfl hst)
  | conflict | release => exact .inl ⟨op, hop, rfl, hst⟩

/-- A call submits only for its own execution, over the ownership it started with. -/
theorem submits_apply (hfree : ∀ pod, c.submits pod → c.start.ownership.get? pod = none)
    (j : Journal I) (w : Write I) (hw : Permitted c j w) :
    SubmitsUnclaimed j (Durable.apply j w) := by
  refine submits_of_save j w (fun op receipt he => ?_) fun op he hst => ?_
  · obtain rfl := he
    exact hw.2.2.2.1
  · obtain rfl := he
    obtain ⟨hown, hsub⟩ := hw.2.2 hst
    rw [hown]
    exact hfree _ hsub

namespace World

variable {w : World I}

/-- The executions past their check of the ownership have pods without a recorded conflict. -/
def Unclaimed (w : World I) : Prop :=
  ∀ t ∈ w.tasks, t.stage.checked = true → w.journal.ownership.get? t.op.podId = none

/-- No reconciliation records a conflict of a pod whose execution is between its check of the
ownership and its journaled submission. -/
def Undisputed (w : World I) : Action I → Prop
  | .call env (.reconcile pod (.ok snap)) =>
      Engine.Claims env pod snap w.journal.operations →
        ∀ t ∈ w.tasks, t.stage.checked = true → t.op.podId ≠ pod
  | _ => True

/-- A call records no conflict for an execution it does not act for, under the condition. -/
theorem Undisputed.others (hw : Inv w) {env : Env I} {call : Call I}
    (hok : w.Undisputed (.call env call)) {t : Task I} (ht : t ∈ w.others call)
    (hck : t.stage.checked = true) : ¬ (w.context env call).conflicts t.op.podId := by
  cases call with
  | resume k reply draw =>
    rintro ⟨t', ht', he⟩
    exact (mem_eraseIdx_apart hw ht' ht).1 he.symm
  | reconcile pod reply =>
    cases reply with
    | ok snap => exact fun hc => hok hc.2 t ht hck hc.1
    | error x => exact fun hc => hc
  | _ => exact fun hc => hc

theorem mem_tasks_call {env : Env I} {c : Call I} (hen : w.enabled c = true) {t : Task I}
    (ht : t ∈ (w.call env c).tasks) : t ∈ w.others c ∨ (w.outcome env c).2 = .ok (some t) := by
  rw [World.call, if_pos hen] at ht
  rcases List.mem_append.mp ht with ht | ht
  · exact .inl ht
  · split at ht
    · rename_i task hr
      exact .inr ((List.mem_singleton.mp ht) ▸ hr)
    · cases ht

theorem unclaimed_step (a : Action I) (hw : Inv w ∧ Unclaimed w) (hok : w.Undisputed a) :
    Inv (w.step a) ∧ Unclaimed (w.step a) := by
  refine ⟨inv_step w a hw.1, ?_⟩
  cases a with
  | crash env call k next => exact fun t ht => by simp [step, crash] at ht
  | call env call =>
    by_cases hen : w.enabled call = true
    · have hspec := call_spec hw.1 env hen
      have hjournal : (w.call env call).journal = (w.outcome env call).1.journal := by
        rw [World.call, if_pos hen]
      intro t ht hck
      rw [step, hjournal]
      rcases mem_tasks_call hen ht with ht | hr
      · rw [hspec.follows.replayed]
        have hold := hw.2 t ((others_sublist w call).subset ht) hck
        exact hspec.follows.permitted.replay (unclaimed_apply (hok.others hw.1 ht hck)) hold
      · rcases (hspec.task t hr).unclaimed hck with hnone | ⟨hown, t₀, ht₀, hck₀, hpod⟩
        · exact hnone
        · rw [hown, ← hpod]
          exact hw.2 t₀ ht₀ hck₀
    · rw [step, World.call, if_neg hen]
      exact hw.2

theorem submits_unclaimed (a : Action I) (hw : Inv w ∧ Unclaimed w) :
    (w.journal :: w.moments a).IsChain SubmitsUnclaimed := by
  have hfree : ∀ pod, (w.context a.env a.made).submits pod →
      (w.context a.env a.made).start.ownership.get? pod = none := by
    intro pod hsub
    generalize a.made = call at hsub ⊢
    cases call with
    | resume k reply draw =>
      obtain ⟨t, ht, rfl, hck⟩ := hsub
      exact hw.2 t (List.mem_of_getElem? ht) hck
    | _ => exact hsub.elim
  exact (commits_permits hw.1 a).1.chain sound_apply (fun j v _ hv => submits_apply hfree j v hv)
    hw.1.sound

theorem unclaimed_init (s : Setup) : Inv (init s : World I) ∧ Unclaimed (init s : World I) :=
  ⟨inv_init s, fun t ht => by simp [init] at ht⟩

theorem trail_unclaimed (s : Setup) {as : List (Action I)}
    (h : Meets step Undisputed (init s) as) :
    ((init s : World I).journal :: (init s).trail as).IsChain SubmitsUnclaimed :=
  trail_chain (fun _ hw => hw.1) (fun _ a hw hok => unclaimed_step a hw hok)
    (fun _ a hw _ => submits_unclaimed a hw) (unclaimed_init s) h

end World

end Emosa
