import Emosa.Engine.ReconcileSpec

/-!
# Emosa.Engine.Inv

The invariant of a run: the journal is sound, each suspended execution agrees with it, no two of
them share a pod or an operation, and what was handed to a backend is not REQUESTED any more.

* `tracks_apply`: a call leaves the executions it does not act for as they are.
* `call_spec`: what one call does, from the specifications of its parts.
* `inv_step`, `inv_run`: every action keeps the invariant, and so does every run.
-/

namespace Emosa

open Durable Journal List Option

variable {I : Type} [IntentType I]

namespace World

/-- The snapshot a call works with: its own reply, or the one its execution was given before. -/
def snapshot? (w : World I) : Call I → Option Snapshot
  | .resume k reply _ => (w.tasks[k]?).bind (·.snapshot? reply)
  | .reconcile _ (.ok snap) => some snap
  | _ => none

/-- A call as far as its writes go. -/
def context (w : World I) (env : Env I) (call : Call I) : Context I where
  env := env
  start := w.journal
  snapshot := w.snapshot? call
  request := match call with
    | .request r => some r
    | _ => none
  owns id := match call with
    | .execute id' => id = id' ∧ ∀ t ∈ w.tasks, t.op.operationId ≠ id
    | .resume k _ _ => ∃ t, w.tasks[k]? = some t ∧ t.op.operationId = id
    | .recover => True
    | _ => False
  stale id := match call with
    | .resume k reply _ => ∃ t, w.tasks[k]? = some t ∧ t.op.operationId = id ∧
        t.Fails w.engine w.journal reply ∧ w.journal.state? id = some .cancelled
    | _ => False
  conflicts pod := match call with
    | .resume k _ _ => ∃ t, w.tasks[k]? = some t ∧ t.op.podId = pod
    | .reconcile pod' (.ok snap) =>
        pod = pod' ∧ Engine.Claims env pod' snap w.journal.operations
    | _ => False
  submits pod := match call with
    | .resume k _ _ => ∃ t, w.tasks[k]? = some t ∧ t.op.podId = pod ∧ t.stage.checked = true
    | _ => False

structure Inv (w : World I) : Prop where
  sound : Sound w.journal
  tracks : ∀ t ∈ w.tasks, t.Tracks w.journal
  busy : ∀ t ∈ w.tasks, t.op.podId ∈ w.engine.busy
  pods : (w.tasks.map (·.op.podId)).Nodup
  ids : (w.tasks.map (·.op.operationId)).Nodup
  known : ∀ t ∈ w.tasks, t.op.operationId ∈ w.journal.issued
  down : w.up = false → w.tasks = []
  sent : ∀ s ∈ w.sent, s.1 ∈ w.journal.issued ∧ w.journal.state? s.1 ≠ some .requested
  once : (w.sent.map Prod.fst).Nodup

theorem inv_init (s : Setup) : Inv (init s : World I) :=
  ⟨sound_empty, by simp [init], by simp [init], by simp [init], by simp [init], by simp [init],
    by simp [init], by simp [init], by simp [init]⟩

end World

variable {c : Context I}

omit [IntentType I] in
theorem not_adds {id : String} (h : c.request = none) : ¬ c.adds id := by
  rintro ⟨r, hr, -⟩
  rw [h] at hr
  cases hr

/-- A call leaves the executions it does not act for as they are. -/
theorem tracks_apply {t : Task I} (hown : ¬ c.owns t.op.operationId)
    (hadds : ¬ c.adds t.op.operationId) (j : Journal I) (w : Write I)
    (h : Sound j ∧ t.Tracks j) (hw : Permitted c j w) :
    Sound (Durable.apply j w) ∧ t.Tracks (Durable.apply j w) := by
  refine ⟨sound_apply j w h.1 hw, ?_⟩
  -- a pending operation: whatever becomes of its record, it is not taken on
  have hpending : ∀ op : Operation I, op.operationId = t.op.operationId → Pending j op →
      Pending (Durable.apply j w) op := by
    intro op hid hp
    refine { hp with current := fun cur hcur => ?_ }
    cases w with
    | add new receipt =>
      have hne : op.operationId ≠ new.operationId := fun he => by
        obtain ⟨r, hr, hrid, -⟩ := hw.1
        exact hadds ⟨r, hr, hrid.symm.trans (he.symm.trans hid)⟩
      have hcur : (j.apply (.add new receipt)).get? op.operationId = some cur := hcur
      rw [get?_add_ne j receipt hne] at hcur
      split at hcur
      · exact hp.current cur hcur
      · cases hcur
    | save new =>
      have hcur : (j.apply (.save new)).get? op.operationId = some cur := hcur
      by_cases hne : op.operationId = new.operationId
      · cases hold : j.get? new.operationId with
        | none =>
          rw [get?_save_none hold] at hcur
          exact hp.current cur hcur
        | some old =>
          rw [hne, get?_save_self hold] at hcur
          obtain rfl := some.inj hcur
          have hlaw := hw.2.1 old hold
          obtain ⟨hst, hintent, hinterface⟩ := hp.current old (hne ▸ hold)
          have hsame : old.operationId = t.op.operationId := by
            rw [get?_id hold, ← hne, hid]
          have hnot : ¬ c.owns old.operationId := hsame ▸ hown
          have hcancel : new.state = .cancelled := by
            cases hst with
            | inl hst =>
              exact (hlaw.mine (.inl hst)).resolve_right
                (not_or.mpr ⟨hnot, fun hc => hadds (hsame ▸ hc.1)⟩)
            | inr hst =>
              rcases hlaw.moves with (hm | hm) | hm
              · exact hm.symm.trans hst
              · simp [hst, State.next] at hm
              · exact absurd hm.2.2.1 hnot
          exact ⟨.inr hcancel, hlaw.intent.trans hintent, hlaw.interface.trans hinterface⟩
      · rw [get?_save_ne j hne] at hcur
        exact hp.current cur hcur
    | conflict | release => exact hp.current cur hcur
  -- a submitted one: nobody else may save its record, and retention keeps it
  have hsubmitted : j.get? t.op.operationId = some t.op → t.op.state = .submitted →
      (Durable.apply j w).get? t.op.operationId = some t.op := by
    intro hget hst
    cases w with
    | add new receipt =>
      have hne : t.op.operationId ≠ new.operationId := fun he => by
        obtain ⟨r, hr, hrid, -⟩ := hw.1
        exact hadds ⟨r, hr, hrid.symm.trans he.symm⟩
      have hkept : kept holdsRows (j.operations ++ [new]) t.op.operationId = true :=
        kept_of_active (mem_append_left _ (get?_mem hget))
          (by rw [hst]; rfl)
      exact (get?_add_ne j receipt hne).trans (by rw [hkept]; exact hget)
    | save new =>
      by_cases hne : t.op.operationId = new.operationId
      · have hlaw := hw.2.1 t.op (hne ▸ hget)
        have hcancel := (hlaw.mine (.inr hst)).resolve_right
          (not_or.mpr ⟨hown, fun hc => hadds hc.1⟩)
        rcases hlaw.moves with (hm | hm) | hm
        · rw [hst, hcancel] at hm
          cases hm
        · rw [hst, hcancel] at hm
          simp [State.next] at hm
        · exact absurd hm.2.2.1 hown
      · exact (get?_save_ne j hne).trans hget
    | conflict | release => exact hget
  have ht := h.2
  obtain ⟨op, stage⟩ := t
  cases stage with
  | submit attempt => exact ⟨hsubmitted ht.1 ht.2.1, ht.2⟩
  | recheck snap => exact ⟨hpending op rfl ht.1, ht.2⟩
  | guard | plan | snapshot => exact hpending op rfl ht

theorem taken_apply {id : String} (j : Journal I) (w : Write I)
    (h : id ∈ j.issued ∧ j.state? id ≠ some .requested) (hw : Permitted c j w) :
    id ∈ (Durable.apply j w).issued ∧ (Durable.apply j w).state? id ≠ some .requested := by
  obtain ⟨hissued, hst⟩ := h
  cases w with
  | add new receipt =>
    have hne : id ≠ new.operationId := fun he => hw.2.1 (he ▸ hissued)
    refine ⟨mem_cons_of_mem _ hissued, ?_⟩
    intro hc
    have hc : ((j.apply (.add new receipt)).get? id).map Operation.state = some .requested := hc
    rw [get?_add_ne j receipt hne] at hc
    split at hc
    · exact hst hc
    · cases hc
  | save new =>
    refine ⟨hissued, fun hc => ?_⟩
    have hc : ((j.apply (.save new)).get? id).map Operation.state = some .requested := hc
    by_cases hne : id = new.operationId
    · cases hold : j.get? new.operationId with
      | none =>
        rw [get?_save_none hold] at hc
        exact hst hc
      | some old =>
        rw [hne, get?_save_self hold] at hc
        exact (hw.2.1 old hold).journaled (some.inj hc)
    · rw [get?_save_ne j hne] at hc
      exact hst hc
  | conflict | release => exact ⟨hissued, hst⟩

namespace World

/-- The task a call leaves suspended. -/
structure NewTask (w : World I) (call : Call I) (p : EngineProc I)
    (t : Task I) : Prop where
  tracks : t.Tracks p.journal
  busy : t.op.podId ∈ p.memory.busy
  known : t.op.operationId ∈ w.journal.issued
  apart : ∀ t' ∈ w.others call,
    t'.op.podId ≠ t.op.podId ∧ t'.op.operationId ≠ t.op.operationId
  sent : ∀ attempt, t.stage = .submit attempt →
    w.journal.state? t.op.operationId = some .requested
  unclaimed : t.stage.checked = true → p.journal.ownership.get? t.op.podId = none ∨
    p.journal.ownership = w.journal.ownership ∧
      ∃ t₀ ∈ w.tasks, t₀.stage.checked = true ∧ t₀.op.podId = t.op.podId

/-- What a call does. -/
structure CallSpec (w : World I) (env : Env I) (call : Call I)
    (r : Except Exn (Option (Task I))) (p : EngineProc I) : Prop where
  follows : Follows (Permitted (w.context env call)) w.journal p
  busy : ∀ t ∈ w.others call, t.op.podId ∈ p.memory.busy
  task : ∀ t, r = .ok (some t) → NewTask w call p t
  /-- It acts for none of the other executions. -/
  apart : ∀ t ∈ w.others call, ¬ (w.context env call).owns t.op.operationId ∧
    ¬ (w.context env call).adds t.op.operationId

variable {w : World I}

theorem call_of_wp {env : Env I} {call : Call I}
    {Q : Except Exn (Option (Task I)) → EngineProc I → Prop}
    (h : wp (w.body env call) Q ⟨w.engine, w.journal, []⟩) :
    Q (w.outcome env call).2 (w.outcome env call).1 := by
  unfold wp at h
  unfold outcome
  split at h <;> rename_i he <;> rw [he] <;> exact h

omit [IntentType I] in
theorem fresh_of_enabled {r : Engine.Request I} (hen : w.enabled (.request r) = true) :
    r.operationId ∉ w.journal.issued := by
  simp only [enabled, Bool.and_eq_true, Bool.not_eq_true', contains_eq_mem,
    decide_eq_false_iff_not] at hen
  exact hen.2

omit [IntentType I] in
theorem others_sublist (w : World I) (call : Call I) : (w.others call).Sublist w.tasks := by
  cases call with
  | resume k reply draw => exact eraseIdx_sublist _ _
  | _ => exact List.Sublist.refl _

theorem issued_apply {id : String} (j : Journal I) (w : Write I) (h : id ∈ j.issued) :
    id ∈ (Durable.apply j w).issued := by
  cases w with
  | add new receipt => exact mem_cons_of_mem _ h
  | _ => exact h

theorem commits_eq (w : World I) (a : Action I) :
    ∃ k, w.commits a = (w.writes a.env a.made).take k := by
  cases a with
  | call env call => exact ⟨_, (take_length).symm⟩
  | crash env call k next => exact ⟨k, rfl⟩

section

variable (hw : Inv w)
include hw

theorem mem_eraseIdx_apart {k : Nat} {t t' : Task I} (ht : w.tasks[k]? = some t)
    (ht' : t' ∈ w.tasks.eraseIdx k) :
    t'.op.podId ≠ t.op.podId ∧ t'.op.operationId ≠ t.op.operationId := by
  obtain ⟨i, hne, hi⟩ := mem_eraseIdx_iff_getElem?.mp ht'
  obtain ⟨hk, hkt⟩ := List.getElem?_eq_some_iff.mp ht
  obtain ⟨hil, hit⟩ := List.getElem?_eq_some_iff.mp hi
  have hinj : ∀ f : Task I → String, (w.tasks.map f).Nodup → f t' ≠ f t := by
    intro f hn he
    have hi' : i < (w.tasks.map f).length := by simpa using hil
    have hk' : k < (w.tasks.map f).length := by simpa using hk
    have hsame : (w.tasks.map f)[i] = (w.tasks.map f)[k] := by
      rw [getElem_map, getElem_map, hit, hkt, he]
    exact hne (hn.getElem_inj_iff.mp hsame)
  exact ⟨hinj _ hw.pods, hinj _ hw.ids⟩

theorem CallSpec.of_leaves {env : Env I} {call : Call I}
    {r : Except Exn (Option (Task I))} {p : EngineProc I}
    (hothers : w.others call = w.tasks) (hr : ∀ t, r ≠ .ok (some t))
    (hf : Follows (Permitted (w.context env call)) w.journal p)
    (hb : p.memory.busy = w.engine.busy)
    (happ : ∀ t ∈ w.tasks, ¬ (w.context env call).owns t.op.operationId ∧
      ¬ (w.context env call).adds t.op.operationId) : CallSpec w env call r p :=
  ⟨hf, fun t ht => hb ▸ hw.busy t (hothers ▸ ht), fun t ht => absurd ht (hr t),
    fun t ht => happ t (hothers ▸ ht)⟩

theorem idle_of_task {t : Task I} (ht : t ∈ w.tasks) {op : Operation I}
    (hget : w.journal.get? t.op.operationId = some op) (hst : op.state = .requested) :
    op.podId ∈ w.engine.busy := by
  have htrack := hw.tracks t ht
  have hbusy := hw.busy t ht
  have hpending : Pending w.journal t.op → op.podId ∈ w.engine.busy := by
    intro hp
    obtain ⟨-, hintent, -⟩ := hp.current op hget
    rwa [Operation.podId, hintent]
  obtain ⟨op', stage⟩ := t
  cases stage with
  | submit attempt =>
    obtain rfl := some.inj (htrack.1.symm.trans hget)
    rw [htrack.2.1] at hst
    cases hst
  | recheck snap => exact hpending htrack.1
  | guard | plan | snapshot => exact hpending htrack

section

variable (env : Env I)

theorem execute_spec {id : String} :
    wp (w.body env (.execute id)) (CallSpec w env (.execute id)) ⟨w.engine, w.journal, []⟩ := by
  have hstart := Follows.start (Permitted (w.context env (.execute id))) w.engine w.journal
  simp only [body, wp_bind]
  by_cases hrun : ∃ t ∈ w.tasks, t.op.operationId = id
  · obtain ⟨t, ht, rfl⟩ := hrun
    refine execute_idle (fun op hget hst => idle_of_task hw ht hget hst) fun r hr => ?_
    have happ : ∀ t' ∈ w.tasks,
        ¬ (w.context env (.execute t.op.operationId)).owns t'.op.operationId ∧
        ¬ (w.context env (.execute t.op.operationId)).adds t'.op.operationId :=
      fun t' ht' => ⟨fun hc => hc.2 t' ht' rfl, not_adds rfl⟩
    rcases r with x | (op | t')
    · exact .of_leaves hw rfl (by simp) hstart rfl happ
    · exact .of_leaves hw rfl (by simp [Next.task?]) hstart rfl happ
    · exact absurd rfl (hr t')
  · have hnew : ∀ t ∈ w.tasks, t.op.operationId ≠ id := fun t ht he => hrun ⟨t, ht, he⟩
    have happ : ∀ t ∈ w.tasks, ¬ (w.context env (.execute id)).owns t.op.operationId ∧
        ¬ (w.context env (.execute id)).adds t.op.operationId :=
      fun t ht => ⟨fun hc => hnew t ht hc.1, not_adds rfl⟩
    refine wp_mono (execute_executes hw.sound hstart ⟨rfl, hnew⟩) ?_
    rintro r p (⟨hf, hr, hb⟩ | ⟨op, t, hf, rfl, hget, hfree, hwait, hb⟩)
    · rcases r with x | (op | t')
      · exact .of_leaves hw rfl (by simp) hf hb happ
      · exact .of_leaves hw rfl (by simp [Next.task?]) hf hb happ
      · exact absurd rfl (hr t')
    · refine ⟨hf, fun t' ht' => hb ▸ mem_cons_of_mem _ (hw.busy t' ht'), ?_, happ⟩
      rintro t' ⟨⟩
      have hid := get?_id hget
      have hknown := hw.sound.distinct.issued op (get?_mem hget)
      refine ⟨hwait.tracks, by simp [hb, hwait.podId], hwait.operationId ▸ hknown,
        fun t' ht' => ⟨fun he => ?_, fun he => ?_⟩, fun attempt hst => ?_, fun hck => ?_⟩
      · exact hfree (hwait.podId ▸ he ▸ hw.busy t' ht')
      · exact hnew t' ht' (he.trans (hwait.operationId.trans hid))
      · rw [hwait.operationId]
        exact hwait.sent attempt hst
      · exact (hwait.unclaimed hck).imp (fun hn => by rw [hwait.podId]; exact hn)
          (fun hc => by simp at hc)

theorem resume_spec {k : Nat} {reply : Reply} {draw : Engine.Draw}
    (hen : w.enabled (.resume k reply draw) = true) :
    wp (w.body env (.resume k reply draw)) (CallSpec w env (.resume k reply draw))
      ⟨w.engine, w.journal, []⟩ := by
  have hstart :=
    Follows.start (Permitted (w.context env (.resume k reply draw))) w.engine w.journal
  simp only [enabled, Bool.and_eq_true] at hen
  cases hk : w.tasks[k]? with
  | none => simp [hk] at hen
  | some t =>
    have hexp : t.stage.expects reply = true := by simpa [hk] using hen.2
    have ht : t ∈ w.tasks := mem_of_getElem? hk
    have happ : ∀ t' ∈ w.tasks.eraseIdx k,
        ¬ (w.context env (.resume k reply draw)).owns t'.op.operationId ∧
        ¬ (w.context env (.resume k reply draw)).adds t'.op.operationId := by
      refine fun t' ht' => ⟨?_, not_adds rfl⟩
      rintro ⟨t₁, ht₁, he⟩
      obtain rfl := some.inj (hk.symm.trans ht₁)
      exact (mem_eraseIdx_apart hw hk ht').2 he.symm
    have hsnap : ∀ snap, t.snapshot? reply = some snap →
        (w.context env (.resume k reply draw)).snapshot = some snap := by
      intro snap hsn
      simp [context, World.snapshot?, hk, hsn]
    have hbody : w.body env (.resume k reply draw) =
        (do pure (Next.task? (← Engine.resume env draw t reply))) := by
      simp only [body, hk]
    rw [hbody, wp_bind]
    refine wp_mono (resume_ends hw.sound hstart (hw.tracks t ht) hexp ⟨t, hk, rfl⟩ ⟨t, hk, rfl⟩
      rfl (fun hck => ⟨t, hk, rfl, hck⟩) rfl hsnap fun hfail hst => ⟨t, hk, rfl, hfail, hst⟩) ?_
    rintro r p ⟨hf, hwait, hend⟩
    -- the other executions keep their pods
    have hkeep : ∀ t' ∈ w.tasks.eraseIdx k, ∀ busy : List String,
        busy = w.engine.busy ∨ busy = w.engine.busy.filter (· ≠ t.op.podId) →
        t'.op.podId ∈ busy := by
      rintro t' ht' busy (rfl | rfl)
      · exact hw.busy t' (mem_of_mem_eraseIdx ht')
      · simp only [mem_filter, decide_eq_true_eq]
        exact ⟨hw.busy t' (mem_of_mem_eraseIdx ht'), (mem_eraseIdx_apart hw hk ht').1⟩
    rcases r with x | (op | t')
    · exact ⟨hf, fun t' ht' => hkeep t' ht' _ (.inr (hend (by simp))), by simp, happ⟩
    · exact ⟨hf, fun t' ht' => hkeep t' ht' _ (.inr (hend (by simp))), by simp [Next.task?], happ⟩
    · obtain ⟨hwt, hb⟩ := hwait t' rfl
      refine ⟨hf, fun t₁ ht₁ => hkeep t₁ ht₁ _ (.inl hb), ?_, happ⟩
      rintro t₂ ⟨⟩
      refine ⟨hwt.tracks, ?_, hwt.operationId ▸ hw.known t ht, fun t₁ ht₁ => ?_,
        fun attempt hst => ?_, fun hck => ?_⟩
      · rw [hb, hwt.podId]
        exact hw.busy t ht
      · rw [hwt.podId, hwt.operationId]
        exact mem_eraseIdx_apart hw hk ht₁
      · rw [hwt.operationId]
        exact hwt.sent attempt hst
      · rw [hwt.podId]
        exact (hwt.unclaimed hck).imp id fun hc => ⟨hc.2, t, ht, hc.1, rfl⟩

theorem call_spec {call : Call I} (hen : w.enabled call = true) :
    CallSpec w env call (w.outcome env call).2 (w.outcome env call).1 := by
  have hstart := Follows.start (Permitted (w.context env call)) w.engine w.journal
  have hs := hw.sound
  apply call_of_wp
  cases call with
  | request r =>
    have hfresh := fresh_of_enabled hen
    simp only [body, wp_bind]
    refine wp_mono (requestInternal_follows hs hstart hfresh rfl) ?_
    rintro res p ⟨hf, hb, -⟩
    -- an operation in execution was issued before
    have happ : ∀ t ∈ w.tasks, ¬ (w.context env (.request r)).owns t.op.operationId ∧
        ¬ (w.context env (.request r)).adds t.op.operationId := fun t ht =>
      ⟨fun hc => hc, by
        rintro ⟨r', ⟨⟩, he⟩
        exact hfresh (he ▸ hw.known t ht)⟩
    cases res with
    | error | ok => exact .of_leaves hw rfl (by simp) hf hb happ
  | execute id => exact execute_spec hw env
  | resume k reply draw => exact resume_spec hw env hen
  | reconcile pod reply =>
    simp only [body, wp_bind]
    have hsnap : ∀ snap, reply = .ok snap →
        (w.context env (.reconcile pod reply)).snapshot = some snap := by
      rintro snap rfl
      rfl
    have hconf : ∀ snap, reply = .ok snap → Engine.Claims env pod snap w.journal.operations →
        (w.context env (.reconcile pod reply)).conflicts pod := by
      rintro snap rfl hcl
      exact ⟨rfl, hcl⟩
    refine wp_mono (reconcile_passes hs hstart hconf rfl hsnap) ?_
    rintro res p ⟨hf, hb⟩
    cases res with
    | error | ok => exact .of_leaves hw rfl (by simp) hf hb fun _ _ => ⟨fun hc => hc, not_adds rfl⟩
  | cancel id =>
    simp only [body, wp_bind]
    refine wp_mono (cancel_follows hs hstart) ?_
    rintro res p ⟨hf, hm⟩
    have hb : p.memory.busy = w.engine.busy := by rw [hm]
    cases res with
    | error | ok => exact .of_leaves hw rfl (by simp) hf hb fun _ _ => ⟨fun hc => hc, not_adds rfl⟩
  | recover =>
    have hdown : w.tasks = [] := hw.down (by simpa [enabled] using hen)
    simp only [body, wp_bind]
    refine wp_mono (recover_follows hs hstart fun _ => trivial) ?_
    rintro res p ⟨rfl, hk, -, -⟩
    exact .of_leaves hw rfl (by simp) hk.follows (by rw [hk.memory]) (by simp [hdown])
  | quiesce | authorize | revoke =>
    exact .of_leaves hw rfl (by simp) (hstart.of_eq rfl rfl) rfl
      fun _ _ => ⟨fun hc => hc, not_adds rfl⟩

/-! ## Actions and runs -/

theorem call_permits (call : Call I) :
    Permits (Permitted (w.context env call)) w.journal (w.writes env call) ∧
      (w.call env call).journal = replay w.journal (w.writes env call) := by
  unfold writes World.call
  split
  · rename_i hen
    have hf := (call_spec hw env hen).follows
    exact ⟨hf.permitted, hf.replayed⟩
  · exact ⟨trivial, rfl⟩

theorem commits_permits (a : Action I) :
    Permits (Permitted (w.context a.env a.made)) w.journal (w.commits a) ∧
      (w.step a).journal = replay w.journal (w.commits a) := by
  cases a with
  | call env call => exact call_permits hw env call
  | crash env call k next => exact ⟨(call_permits hw env call).1.take k, rfl⟩

theorem Inv.suspend {t : Task I} (htr : t.Tracks w.journal)
    (hb : t.op.podId ∈ w.engine.busy) (hkn : t.op.operationId ∈ w.journal.issued)
    (hap : ∀ t' ∈ w.tasks, t'.op.podId ≠ t.op.podId ∧ t'.op.operationId ≠ t.op.operationId)
    (hup : w.up = true) : Inv { w with tasks := w.tasks ++ [t] } := by
  have hmem : ∀ {P : Task I → Prop}, (∀ t' ∈ w.tasks, P t') → P t →
      ∀ t' ∈ w.tasks ++ [t], P t' := by
    intro P hP ht t' ht'
    cases mem_append.mp ht' with
    | inl h => exact hP t' h
    | inr h => exact mem_singleton.mp h ▸ ht
  have hnodup : ∀ f : Task I → String, (w.tasks.map f).Nodup → (∀ t' ∈ w.tasks, f t' ≠ f t) →
      ((w.tasks ++ [t]).map f).Nodup := by
    intro f hn hne
    rw [map_append, nodup_append]
    refine ⟨hn, nodup_singleton _, ?_⟩
    rintro x hx y hy rfl
    obtain ⟨t', ht', he⟩ := mem_map.mp hx
    exact hne t' ht' (he.trans (mem_singleton.mp hy))
  exact ⟨hw.sound, hmem hw.tracks htr, hmem hw.busy hb, hnodup _ hw.pods fun t' ht' => (hap t' ht').1,
    hnodup _ hw.ids fun t' ht' => (hap t' ht').2, hmem hw.known hkn, fun hd => by simp [hup] at hd,
    hw.sent, hw.once⟩

theorem Inv.send {id : String} (attempt : Attempt) (hid : id ∈ w.journal.issued)
    (hst : w.journal.state? id ≠ some .requested) (hfirst : ∀ s ∈ w.sent, s.1 ≠ id) :
    Inv { w with sent := w.sent ++ [(id, attempt)] } := by
  refine { hw with sent := fun s hs => ?_, once := ?_ }
  · cases mem_append.mp hs with
    | inl h => exact hw.sent s h
    | inr h => rw [mem_singleton.mp h]; exact ⟨hid, hst⟩
  · rw [map_append, nodup_append]
    refine ⟨hw.once, nodup_singleton _, ?_⟩
    rintro x hx y hy rfl
    obtain ⟨s, hs, he⟩ := mem_map.mp hx
    exact hfirst s hs (he.trans (mem_singleton.mp hy))

theorem inv_call (call : Call I) : Inv (w.call env call) := by
  unfold World.call
  split
  swap
  · exact hw
  rename_i hen
  obtain ⟨hf, hbusy, htask, happ⟩ := call_spec hw env hen
  generalize w.outcome env call = out at hf hbusy htask happ
  obtain ⟨p, r⟩ := out
  have hsub := others_sublist w call
  have hjournal := hf.replayed
  -- the executions the call does not act for
  have htracks : ∀ t ∈ w.others call, t.Tracks p.journal := by
    intro t ht
    rw [hjournal]
    exact (hf.permitted.replay (tracks_apply (happ t ht).1 (happ t ht).2)
      ⟨hw.sound, hw.tracks t (hsub.subset ht)⟩).2
  have hissued : ∀ id ∈ w.journal.issued, id ∈ p.journal.issued := by
    intro id hid
    rw [hjournal]
    exact hf.permitted.replay (fun j v hj _ => issued_apply j v hj) hid
  have hsent : ∀ s ∈ w.sent, s.1 ∈ p.journal.issued ∧ p.journal.state? s.1 ≠ some .requested := by
    intro s hs
    rw [hjournal]
    exact hf.permitted.replay taken_apply (hw.sent s hs)
  have hold : ∀ up : Bool, (up = false → w.up = false) →
      Inv ⟨p.journal, p.memory, up, w.others call, w.sent⟩ := fun up hup =>
    ⟨hw.sound.follows hf, htracks, hbusy, hw.pods.sublist (hsub.map _),
      hw.ids.sublist (hsub.map _), fun t ht => hissued _ (hw.known t (hsub.subset ht)),
      fun hd => sublist_nil.mp (hw.down (hup hd) ▸ hsub), hsent, hw.once⟩
  rcases r with x | (_ | t)
  · simpa [sends] using hold w.up id
  · simpa [sends] using hold true (by simp)
  · obtain ⟨htr, hb, hkn, hap, hsnd, -⟩ := htask t rfl
    have hnew := (hold true (by simp)).suspend htr hb (hissued _ hkn) hap rfl
    obtain ⟨op, stage⟩ := t
    cases stage with
    | submit attempt =>
      -- it was REQUESTED before the call, so it had not been sent
      have hfirst : ∀ s ∈ w.sent, s.1 ≠ op.operationId := fun s hs he =>
        (hw.sent s hs).2 (he ▸ hsnd attempt rfl)
      have hst : p.journal.state? op.operationId ≠ some .requested := by
        rw [state?, htr.1, map_some, htr.2.1]
        simp
      simpa [sends] using hnew.send attempt (hissued _ hkn) hst hfirst
    | _ => simpa [sends] using hnew

/-- The journal of a crash is one that the call passed through. -/
theorem inv_crash (call : Call I) (commits : Nat) (next : Setup) :
    Inv (w.crash env call commits next) := by
  have hperm := (call_permits hw env call).1.take commits
  refine ⟨hperm.replay sound_apply hw.sound, by simp [crash], by simp [crash], by simp [crash],
    by simp [crash], by simp [crash], by simp [crash], fun s hs => ?_, hw.once⟩
  exact hperm.replay taken_apply (hw.sent s hs)

end

omit hw in
theorem inv_step (w : World I) (a : Action I) (hw : Inv w) : Inv (w.step a) := by
  cases a with
  | call env c => exact inv_call hw env c
  | crash env c commits next => exact inv_crash hw env c commits next

theorem inv_run (as : List (Action I)) : Inv (w.run as) :=
  runs_invariant (fun s a hs _ => inv_step s a hs) (Meets.of_forall (fun _ _ => trivial) w as) hw

end

/-- What holds from commit to commit in every action holds so over the run. -/
theorem trail_chain {ok : World I → Action I → Prop} {P : World I → Prop}
    {R : Journal I → Journal I → Prop} (hinv : ∀ w, P w → Inv w)
    (hstep : ∀ w a, P w → ok w a → P (w.step a))
    (hone : ∀ w a, P w → ok w a → (w.journal :: w.moments a).IsChain R) (hw : P w)
    {as : List (Action I)} (h : Meets step ok w as) : (w.journal :: w.trail as).IsChain R := by
  induction as generalizing w with
  | nil => exact isChain_singleton _
  | cons a as ih =>
    have hrest := ih (hstep w a hw h.1) h.2
    rw [(commits_permits (hinv w hw) a).2] at hrest
    exact chain_moments (hone w a hw h.1) hrest

/-- Over every interleaving and crash, no two executions under way share a pod or an operation, and each
agrees with the journal. -/
theorem executions_apart (s : Setup) (as : List (Action I)) :
    let w := (init s).run as
    (w.tasks.map (·.op.podId)).Nodup ∧ (w.tasks.map (·.op.operationId)).Nodup ∧
      ∀ t ∈ w.tasks, t.op.podId ∈ w.engine.busy ∧ t.Tracks w.journal := by
  have h := inv_run (inv_init (I := I) s) as
  exact ⟨h.pods, h.ids, fun t ht => ⟨h.busy t ht, h.tracks t ht⟩⟩

end World

end Emosa
