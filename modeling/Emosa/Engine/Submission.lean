import Emosa.Engine.Inv

/-!
# Emosa.Engine.Submission

The journal is ahead of the backend. An operation is handed over after the commit that records it
SUBMITTED with the attempt, never a second time, and a restart leaves nothing that looks unsent
though it may have been sent.

* `hands_over`: what one action hands to the backend.
* `recover_settles`: the journal after `recover`, record by record.
-/

namespace Emosa

open Durable

variable {I : Type} [IntentType I]

namespace World

variable {w : World I}

/-- The journal at the time the operation is handed over records it SUBMITTED with the attempt. It
was REQUESTED before the segment, so the segment committed that record. -/
structure HandsOver (w : World I) (a : Action I) (op : Operation I) (attempt : Attempt) : Prop where
  sent : (w.step a).sent = w.sent ++ [(op.operationId, attempt)]
  before : w.journal.state? op.operationId = some .requested
  journaled : ∃ m ∈ w.moments a, m.get? op.operationId = some op
  current : (w.step a).journal.get? op.operationId = some op
  submitted : op.state = .submitted
  attempt : attempt ∈ op.attempts

theorem mem_moments_of_ne (hw : Inv w) {a : Action I} {id : String}
    (h : (w.step a).journal.get? id ≠ w.journal.get? id) :
    (w.step a).journal ∈ w.moments a := by
  have hj := (commits_permits hw a).2
  rw [hj] at h ⊢
  refine replay_mem_moments fun hnil => h ?_
  rw [hnil, replay_nil]

theorem hands_over (hw : Inv w) (a : Action I) :
    (w.step a).sent = w.sent ∨ ∃ op attempt, w.HandsOver a op attempt := by
  cases a with
  | crash env call k next => exact .inl rfl
  | call env call =>
    by_cases hen : w.enabled call = true
    · have hspec := call_spec hw env hen
      have hcall : (w.call env call).sent = w.sent ++ sends (w.outcome env call).2 ∧
          (w.call env call).journal = (w.outcome env call).1.journal := by
        rw [World.call, if_pos hen]
        exact ⟨rfl, rfl⟩
      rcases hr : (w.outcome env call).2 with x | (_ | ⟨op, stage⟩)
      · exact .inl (by rw [step, hcall.1, hr]; simp [sends])
      · exact .inl (by rw [step, hcall.1, hr]; simp [sends])
      · cases stage with
        | submit attempt =>
          have hnew := hspec.task ⟨op, .submit attempt⟩ hr
          obtain ⟨hget, hst, hmem⟩ := hnew.tracks
          have hbefore := hnew.sent attempt rfl
          have hcur : (w.step (.call env call)).journal.get? op.operationId = some op := by
            rw [step, hcall.2]
            exact hget
          have hne : (w.step (.call env call)).journal.get? op.operationId ≠
              w.journal.get? op.operationId := by
            intro he
            rw [Journal.state?, ← he, hcur, Option.map_some, hst] at hbefore
            cases hbefore
          have hsent : (w.step (.call env call)).sent = w.sent ++ [(op.operationId, attempt)] := by
            rw [step, hcall.1, hr]
            rfl
          exact .inr ⟨op, attempt, hsent, hbefore, ⟨_, mem_moments_of_ne hw hne, hcur⟩, hcur, hst,
            hmem⟩
        | _ => exact .inl (by rw [step, hcall.1, hr]; simp [sends])
    · exact .inl (by rw [step, World.call, if_neg hen])

/-- What `recover` leaves: nothing half-sent, and each record it made of what it found. -/
structure Recovered (w w' : World I) : Prop where
  up : w'.up = true
  settled : ∀ op ∈ w'.journal.operations, op.state ≠ .validated ∧ op.state ≠ .submitted ∧
    (op.state = .requested → op.initiatingInterface ≠ "wsc-component")
  unknown : ∀ op ∈ w.journal.operations, op.state = .submitted →
    ∃ op', w'.journal.get? op.operationId = some op' ∧ op'.state = .indeterminate ∧
      op'.commitEvidence = Engine.unknownAttribution

theorem recover_settles (hw : Inv w) (env : Env I) (hdown : w.up = false) :
    Recovered w (w.call env .recover) := by
  have hen : w.enabled .recover = true := by simp [enabled, hdown]
  have hall : ∃ r, RecoversAll (w.context env .recover) w.journal w.journal.operations
      ⟨w.engine, w.journal, []⟩ r (w.outcome env .recover).1 ∧
      (w.outcome env .recover).2 = r.map fun _ => none := by
    refine call_of_wp (Q := fun res p => ∃ r, RecoversAll (w.context env .recover) w.journal
      w.journal.operations ⟨w.engine, w.journal, []⟩ r p ∧ res = r.map fun _ => none) ?_
    have hstart := Follows.start (Permitted (w.context env .recover)) w.engine w.journal
    simp only [body, wp_bind]
    refine wp_mono (recover_follows hw.sound hstart fun _ => trivial) ?_
    rintro (x | _) p hp
    · exact ⟨_, hp, rfl⟩
    · exact ⟨_, hp, rfl⟩
  obtain ⟨r, ⟨rfl, hkeeps, hheld, hothers⟩, hres⟩ := hall
  have hcall : (w.call env .recover).journal = (w.outcome env .recover).1.journal ∧
      (w.call env .recover).up = true := by
    rw [World.call, if_pos hen]
    exact ⟨rfl, by simp [hres, Except.map]⟩
  refine ⟨hcall.2, fun op hop => ?_, fun op hop hst => ?_⟩
  · rw [hcall.1] at hop
    have hget := (hw.sound.follows hkeeps.follows).get? hop
    by_cases hrow : ∃ row ∈ w.journal.operations, row.operationId = op.operationId
    · obtain ⟨row, hrow, hid⟩ := hrow
      have he : op = recovered row :=
        Option.some.inj (hget.symm.trans (hid ▸ hheld row hrow))
      obtain ⟨hsub, hval, hreq⟩ := recovered_state row
      exact he ▸ ⟨hval, hsub, hreq⟩
    · have hnone := hothers op.operationId fun row hrow' he => hrow ⟨row, hrow', he⟩
      have hold := Journal.get?_mem (hnone.symm.trans hget)
      exact absurd ⟨op, hold, rfl⟩ hrow
  · have hnot : ¬ (op.initiatingInterface = "wsc-component" ∧ op.state = .requested) := by
      simp [hst]
    refine ⟨recovered op, by rw [hcall.1]; exact hheld op hop, ?_⟩
    rw [recovered, if_neg hnot, if_pos hst]
    exact ⟨rfl, rfl⟩

end World

/-- Over every run and at its next action: an operation is handed to the backend only as the journal
then records it, at most once in the whole history, and `recover` leaves nothing that might have been
sent without saying so. -/
theorem write_ahead_at_most_once (s : Setup) (as : List (Action I)) (a : Action I) :
    (((World.init s).run (as ++ [a])).sent = ((World.init s).run as).sent ∨
      ∃ op attempt, ((World.init s).run as).HandsOver a op attempt) ∧
    (((World.init s).run as).sent.map Prod.fst).Nodup ∧
    ∀ env, ((World.init s).run as).up = false →
      World.Recovered ((World.init s).run as) (((World.init s).run as).call env .recover) := by
  have hw := World.inv_run (World.inv_init (I := I) s) as
  refine ⟨?_, hw.once, fun env hdown => World.recover_settles hw env hdown⟩
  rw [World.run_append]
  exact World.hands_over hw a

end Emosa
