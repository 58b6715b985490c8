import Emosa.Engine.Footprint
import Emosa.Engine.Timeout

/-!
# Emosa.Engine.Release

A new start of a pod's OpenSync begins a new ownership period. The conflict that a pass records names
the start it was seen on, so a request that knows of another start releases it. The conflict of a
refused submission names none, and nothing releases it.

* `recorded_by`: where a conflict recorded during an action comes from.
* `dated_run`: in a run without refused submissions every recorded conflict names a start.
* `request_outdated`: no request is rejected over a conflict of an earlier start.
-/

namespace Emosa

open Durable Option

variable {I : Type} [IntentType I]

/-- Every snapshot the call is given names the start it was taken on. -/
def Call.Named : Call I → Prop
  | .reconcile _ (.ok snap) | .resume _ (.snapshot (.ok snap)) _ => snap.start? ≠ none
  | _ => True

/-- The call is not the answer of a pod that refuses a submission as a conflict. -/
def Call.Unrefused : Call I → Prop
  | .resume _ (.submit (.ok result)) _ => result.status ≠ .conflict
  | _ => True

theorem ownership_written (holds : Operation I → Bool) {j : Journal I} {w : Write I} {pod : String}
    {record : Ownership} (h : (j.written holds w).ownership.get? pod = some record) :
    j.ownership.get? pod = some record ∨ w = .conflict pod record := by
  cases w with
  | add | save => exact .inl h
  | conflict pod' record' =>
    have hset : (j.ownership.set pod' record').get? pod = some record := h
    by_cases hpod : pod = pod'
    · subst hpod
      rw [Dict.get?_set_self] at hset
      exact .inr (by rw [some.inj hset])
    · rw [Dict.get?_set_ne _ _ hpod] at hset
      exact .inl hset
  | release pod' =>
    have herase : (j.ownership.erase pod').get? pod = some record := h
    by_cases hpod : pod = pod'
    · rw [hpod, Dict.get?_erase_self] at herase
      cases herase
    · rw [Dict.get?_erase_ne _ hpod] at herase
      exact .inl herase

theorem ownership_origin {j : Journal I} {ws : List (Write I)} {pod : String} {record : Ownership}
    (h : (replay j ws).ownership.get? pod = some record) :
    j.ownership.get? pod = some record ∨ .conflict pod record ∈ ws := by
  induction ws generalizing j with
  | nil => exact .inl h
  | cons w ws ih =>
    rcases ih h with hold | hnew
    · rcases ownership_written holdsRows hold with hold | rfl
      · exact .inl hold
      · exact .inr List.mem_cons_self
    · exact .inr (List.mem_cons_of_mem _ hnew)

namespace World

variable {w : World I}

theorem writes_recording (w : World I) (env : Env I) (call : Call I) :
    ∀ v ∈ w.writes env call, Recording (w.records call) v := by
  intro v hv
  unfold writes at hv
  split at hv
  · obtain ⟨ws, hws, hall⟩ := call_of_wp
      (w.body_writes env call ⟨w.engine, w.journal, []⟩)
    rw [hws] at hv
    exact hall v hv
  · cases hv

theorem commits_recording (w : World I) (a : Action I) :
    ∀ v ∈ w.commits a, Recording (w.records a.made) v := by
  obtain ⟨k, hk⟩ := w.commits_eq a
  intro v hv
  rw [hk] at hv
  exact w.writes_recording a.env a.made v (List.mem_of_mem_take hv)

theorem recorded_by {a : Action I} {m : Journal I} {pod : String} {record : Ownership}
    (hm : m ∈ w.moments a) (h : m.ownership.get? pod = some record) :
    w.journal.ownership.get? pod = some record ∨ w.records a.made pod record := by
  obtain ⟨k, rfl⟩ := mem_moments hm
  refine (ownership_origin h).imp_right fun hmem => ?_
  exact w.commits_recording a _ (List.mem_of_mem_take hmem)

/-- Without refused submissions it comes from a pass, and names the start of its snapshot. -/
theorem records_named {call : Call I} {pod : String} {record : Ownership} (hnamed : call.Named)
    (hun : call.Unrefused) (h : w.records call pod record) :
    ∃ snap, call = .reconcile pod (.ok snap) ∧ record.instanceId = snap.start? ∧
      snap.start? ≠ none := by
  unfold records at h
  split at h
  · exact absurd h.1 hun
  · rename_i pod' snap
    obtain ⟨rfl, hrec⟩ := h
    exact ⟨snap, rfl, hrec, hnamed⟩
  · exact h.elim

/-- Every recorded conflict names the start it was seen on. -/
def Dated (w : World I) : Prop :=
  ∀ pod record, w.journal.ownership.get? pod = some record →
    ∃ start, start ≠ "" ∧ record.instanceId = some start

theorem dated_step (a : Action I) (hw : Inv w ∧ Dated w) (hok : a.made.Named ∧ a.made.Unrefused) :
    Inv (w.step a) ∧ Dated (w.step a) := by
  refine ⟨inv_step w a hw.1, fun pod record h => ?_⟩
  rw [(commits_permits hw.1 a).2] at h
  rcases ownership_origin h with hold | hnew
  · exact hw.2 pod record hold
  · obtain ⟨snap, -, hrec, hsome⟩ := records_named hok.1 hok.2 (w.commits_recording a _ hnew)
    obtain ⟨start, hstart⟩ := ne_none_iff_exists'.mp hsome
    refine ⟨start, ?_, hrec.trans hstart⟩
    have hne := (filter_eq_some_iff.mp hstart).2
    simpa using hne

theorem dated_run {s : Setup} {as : List (Action I)}
    (h : Meets step (fun _ a => a.made.Named ∧ a.made.Unrefused) (init s) as) :
    Inv ((init s : World I).run as) ∧ Dated ((init s : World I).run as) := by
  have hinit : Inv (init s : World I) ∧ Dated (init s : World I) :=
    ⟨inv_init s, fun pod record h => by simp [init] at h⟩
  exact runs_invariant (P := fun w => Inv w ∧ Dated w) (fun _ a hw hok => dated_step a hw hok) h hinit

end World

/-! ## Requests -/

section Request

variable {p : EngineProc I} {env : Env I} {r : Engine.Request I}

/-- The pod's recorded conflict, if any, is one of an earlier start. -/
def Outdated (pod : String) (e : Engine) (j : Journal I) : Prop :=
  ∀ record, j.ownership.get? pod = some record →
    Engine.outdated record (e.instances.get? pod) = true

/-- The request's own record does not say that the pod is in conflict. -/
def NotClaimed (id : String) (j : Journal I) : Prop :=
  ∀ op, j.get? id = some op → op.reason ≠ some Reason.ownershipConflict.value

theorem settleOthers_ownership {pod id : String} {current : Option String}
    {rows : List (Operation I)} :
    wp (Engine.settleOthers pod id current rows)
      (fun _ p' => p'.journal.ownership = p.journal.ownership) p := by
  induction rows generalizing p with
  | nil => rfl
  | cons q rest ih =>
    have hsettle : wp (Engine.settleRestarted q current)
        (fun _ p' => p'.journal.ownership = p.journal.ownership) p := by
      unfold Engine.settleRestarted
      split
      · simp only [wp_bind, wp_liftE]
        cases transition q .failed with
        | error e => exact trivial
        | ok q' =>
          simp only
          rw [wp_save]
          split <;> rfl
      · rfl
    simp only [Engine.settleOthers]
    split
    · rw [wp_bind]
      refine wp_mono hsettle ?_
      rintro (x | _) p₁ hp₁
      · exact hp₁
      · exact wp_mono ih fun _ p₂ hp₂ => hp₂.trans hp₁
    · exact ih

theorem grant_outdated {c : Context I} {j₀ : Journal I} {op : Operation I} (hs : Sound j₀)
    (h : Follows (Permitted c) j₀ p) (hget : p.journal.get? op.operationId = some op)
    (hid : op.operationId = r.operationId)
    (hst : op.state = .requested) (hreason : op.reason = none)
    (hout : Outdated r.podId p.memory p.journal) :
    wp (Engine.grant r op) (fun _ p' => NotClaimed r.operationId p'.journal) p := by
  have hvalid : op.valid = true := (hs.follows h).valid op (Journal.get?_mem hget)
  have hplain : ∀ j : Journal I, j.get? op.operationId = some op → NotClaimed r.operationId j := by
    intro j hj op' hop'
    rw [← hid, hj] at hop'
    rw [← some.inj hop', hreason]
    simp
  simp only [Engine.grant, wp_bind, wp_memory, wp_journal]
  refine wp_mono (wp_and (settleOthers_follows hs h (hs.follows h).current)
    settleOthers_ownership) ?_
  rintro _ p₁ ⟨⟨rfl, -, hmem, hget₁⟩, hown⟩
  rw [hget] at hget₁
  simp only
  split
  · rw [wp_reject (.inl hst), if_pos hvalid]
    intro op' hop'
    have hsaved : (p₁.journal.apply (.save (rejected op .busy))).get? op.operationId =
        some (rejected op .busy) := Journal.get?_save_self hget₁
    rw [← hid] at hop'
    rw [← some.inj (hsaved.symm.trans hop')]
    simp only [rejected]
    decide
  · simp only [wp_bind]
    rw [wp_owned, hown]
    cases hrec : p.journal.ownership.get? r.podId with
    | none => exact hplain _ hget₁
    | some record =>
      simp only [hmem, hout record hrec]
      exact hplain _ hget₁

theorem requestInternal_outdated {c : Context I} {j₀ : Journal I} (hs : Sound j₀)
    (h : Follows (Permitted c) j₀ p) (hfresh : r.operationId ∉ p.journal.issued)
    (hr : c.request = some r) (hout : Outdated r.podId p.memory p.journal) :
    wp (Engine.requestInternal env r) (fun _ p' => NotClaimed r.operationId p'.journal) p := by
  have hnone := (hs.follows h).get?_fresh hfresh
  refine wp_requestInternal (fun _ op hop => by rw [hnone] at hop; cases hop)
    fun fingerprint hvalid => ?_
  have hget := get?_requested env hnone fingerprint
  exact grant_outdated hs ((request_adds h hfresh hr hvalid).of_eq rfl rfl) hget rfl rfl rfl hout

end Request

namespace World

variable {w : World I}

/-- No request for the pod is rejected because its ownership is in conflict. -/
def Unrejecting (w : World I) (pod : String) : Prop :=
  ∀ env (r : Engine.Request I), r.podId = pod → w.enabled (.request r) = true →
    NotClaimed r.operationId (w.step (.call env (.request r))).journal

theorem request_outdated (hw : Inv w) {pod : String} (hout : Outdated pod w.engine w.journal) :
    w.Unrejecting pod := by
  rintro env r rfl hen
  have hstart := Follows.start (Permitted (w.context env (.request r))) w.engine w.journal
  rw [step, call, if_pos hen]
  refine call_of_wp (Q := fun _ p => NotClaimed r.operationId p.journal) ?_
  simp only [body, wp_bind]
  refine wp_mono (requestInternal_outdated hw.sound hstart (fresh_of_enabled hen) rfl hout) ?_
  rintro (x | op) p hp
  · exact hp
  · exact hp

omit [IntentType I] in
theorem Dated.outdated (h : Dated w) {pod current : String} {record : Ownership}
    (hrec : w.journal.ownership.get? pod = some record)
    (hcur : w.engine.instances.get? pod = some current) (hne : record.instanceId ≠ some current) :
    Outdated pod w.engine w.journal := by
  intro record' hrec'
  obtain rfl := some.inj (hrec.symm.trans hrec')
  obtain ⟨start, hstart, hdate⟩ := h pod record hrec
  have hdiff : start ≠ current := fun he => hne (he ▸ hdate)
  simp [Engine.outdated, hdate, hstart, hcur, hdiff, filter_some]

end World
end Emosa
