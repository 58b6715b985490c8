import Emosa.Engine.Inv

/-!
# Emosa.Engine.Lifecycle

The states journaled for one operation, one after the other over a run. Each call changes its own
copy of the record by the table, so the journal follows the table only where the copy is not older
than the journal.

* `evolves_apply`: one permitted write. It moves a state by the table, or rejects a stale copy.
* `cancelled_is_rejected`: an operation that is cancelled and then journaled REJECTED.
-/

namespace Emosa

open Durable

variable {I : Type} [IntentType I] {c : Context I}

/-- The operation was journaled, and retention dropped its record. -/
def Journal.Dropped (id : String) (j : Journal I) : Prop := id ∈ j.issued ∧ j.state? id = none

/-- How the state of an operation goes on from one journal to the next. -/
structure Journal.Evolves (R : State → State → Prop) (id : String) (j j' : Journal I) : Prop where
  dropped : j.Dropped id → j'.Dropped id
  goes : ∀ s, j.state? id = some s → j'.Dropped id ∨ ∃ t, j'.state? id = some t ∧ R s t

/-- The moves of the table, and the rejection of a copy that was cancelled. -/
def State.Goes (stale : Prop) (s t : State) : Prop :=
  s.Moves t ∨ s = .cancelled ∧ t = .rejected ∧ stale

theorem evolves_apply {id : String} (j : Journal I) (w : Write I) (hs : Sound j)
    (hw : Permitted c j w) :
    j.Evolves (State.Goes (c.stale id)) id (Durable.apply j w) := by
  have hsame : ∀ j' : Journal I, j'.issued = j.issued → j'.state? id = j.state? id →
      j.Evolves (State.Goes (c.stale id)) id j' := fun j' hi he =>
    ⟨fun hd => ⟨hi ▸ hd.1, he.trans hd.2⟩,
      fun s hst => .inr ⟨s, he.trans hst, .inl (.inl rfl)⟩⟩
  have hissued : ∀ op, j.get? id = some op → id ∈ j.issued := fun op hget =>
    Journal.get?_id hget ▸ hs.distinct.issued op (Journal.get?_mem hget)
  cases w with
  | add new receipt =>
    by_cases hid : id = new.operationId
    · have hnew : id ∉ j.issued := hid ▸ hw.2.1
      refine ⟨fun hd => absurd hd.1 hnew, fun s hst => ?_⟩
      obtain ⟨op, hop, -⟩ := Option.map_eq_some_iff.mp hst
      exact absurd (hissued op hop) hnew
    · -- retention may drop another record
      have hget := Journal.get?_add_ne j receipt hid
      refine ⟨fun hd => ⟨List.mem_cons_of_mem _ hd.1, ?_⟩, fun s hst => ?_⟩
      · rw [Journal.state?, show (Durable.apply j (Write.add new receipt)).get? id = _ from hget]
        split
        · exact hd.2
        · rfl
      · obtain ⟨op, hop, -⟩ := Option.map_eq_some_iff.mp hst
        by_cases hkept : Journal.kept holdsRows (j.operations ++ [new]) id = true
        · rw [if_pos hkept] at hget
          exact .inr ⟨s, (congrArg (Option.map Operation.state) hget).trans hst, .inl (.inl rfl)⟩
        · rw [if_neg hkept] at hget
          exact .inl ⟨List.mem_cons_of_mem _ (hissued op hop),
            congrArg (Option.map Operation.state) hget⟩
  | save new =>
    by_cases hid : id = new.operationId
    · cases hold : j.get? new.operationId with
      | none =>
        exact hsame _ rfl (congrArg (Journal.state? · id) (Journal.get?_save_none hold))
      | some old =>
        have hget : (Durable.apply j (.save new)).state? id = some new.state := by
          rw [hid]
          exact congrArg (Option.map Operation.state) (Journal.get?_save_self hold)
        have hst : j.state? id = some old.state := by
          rw [hid, Journal.state?, hold, Option.map_some]
        refine ⟨fun hd => absurd (hst.symm.trans hd.2) (by simp), fun s hs' => .inr ?_⟩
        obtain rfl := Option.some.inj (hst.symm.trans hs')
        have hmoves := (hw.2.1 old hold).moves
        rw [Journal.get?_id hold, ← hid] at hmoves
        exact ⟨new.state, hget, hmoves.imp_right fun hc => ⟨hc.1, hc.2.1, hc.2.2.2⟩⟩
    · have hget := Journal.get?_save_ne j hid
      exact hsame _ rfl (congrArg (Option.map Operation.state) hget)
  | conflict | release => exact hsame _ rfl rfl

/-! ## Over a run -/

namespace World

/-- No validation fails of an operation that was cancelled while it waited. -/
def Undisturbed (w : World I) (a : Action I) : Prop :=
  match a.made with
  | .resume k reply _ => ∀ t, w.tasks[k]? = some t → t.Fails w.engine w.journal reply →
      w.journal.state? t.op.operationId ≠ some .cancelled
  | _ => True

theorem Undisturbed.not_stale {w : World I} {a : Action I} (h : w.Undisturbed a) (id : String) :
    ¬ (w.context a.env a.made).stale id := by
  unfold Undisturbed at h
  generalize a.made = call at h ⊢
  cases call with
  | resume k reply draw =>
    rintro ⟨t, ht, rfl, hfails, hst⟩
    exact h t ht hfails hst
  | _ => exact fun hc => hc

theorem trail_evolves {ok : World I → Action I → Prop} {R : State → State → Prop} {id : String}
    (hR : ∀ w a, ok w a → ∀ s t, s.Goes ((w.context a.env a.made).stale id) t → R s t)
    {w : World I} (hw : Inv w) {as : List (Action I)} (h : Meets step ok w as) :
    (w.journal :: w.trail as).IsChain (Journal.Evolves R id) := by
  refine trail_chain (fun _ hw => hw) (fun w a hw _ => inv_step w a hw) (fun w a hw hok => ?_) hw h
  refine (commits_permits hw a).1.chain sound_apply (fun j v hs hv => ?_) hw.sound
  have hev : Journal.Evolves _ id j (apply j v) := evolves_apply j v hs hv
  exact ⟨hev.dropped, fun s hst => (hev.goes s hst).imp_right fun ⟨t, ht, hgo⟩ =>
    ⟨t, ht, hR w a hok s t hgo⟩⟩

end World

/-- The states journaled for an operation over a run. -/
def journaledStates (s : Setup) (as : List (Action I)) (id : String) : List State :=
  ((World.init s).trail as).filterMap (·.state? id)

theorem states_chain {ok : World I → Action I → Prop} {R : State → State → Prop} {id : String}
    (hR : ∀ w a, ok w a → ∀ s t, s.Goes ((w.context a.env a.made).stale id) t → R s t)
    (s : Setup) {as : List (Action I)} (h : Meets World.step ok (World.init s) as) :
    (journaledStates s as id).IsChain R := by
  have htrail := (World.trail_evolves hR (World.inv_init s) h).tail
  have hgone : ∀ j : Journal I, j.Dropped id → j.state? id = none := fun _ hd => hd.2
  exact (isChain_filterMap hgone (htrail.imp fun _ _ he => ⟨he.dropped, he.goes⟩)).1

theorem ended_stays {R : State → State → Prop} {states : List State} (h : states.IsChain R)
    {ended : State → Prop} (hend : ∀ s t, ended s → R s t → t = s) :
    states.Pairwise fun was is => ended was → is = was := by
  have hpairs : states.Pairwise (Relation.ReflTransGen R) :=
    List.isChain_iff_pairwise.mp (h.imp fun _ _ => .single)
  refine hpairs.imp fun hreach hs => ?_
  induction hreach with
  | refl => rfl
  | tail _ hmove ih => exact (hend _ _ (ih ▸ hs) hmove).trans ih

/-- In every run in which no validation fails of an operation cancelled while it waited, the states
journaled for each operation follow the table, and an ended one stays what it is. -/
theorem states_follow_table (s : Setup) (as : List (Action I)) (id : String)
    (h : Meets World.step World.Undisturbed (World.init s) as) :
    (journaledStates s as id).IsChain State.Moves ∧
      (journaledStates s as id).Pairwise fun was is =>
        was ∈ [.cancelled, .rejected, .failed, .ownershipConflict] → is = was := by
  have hchain : (journaledStates s as id).IsChain State.Moves :=
    states_chain (fun w a hok s t hgo => hgo.resolve_right fun hc => hok.not_stale id hc.2.2) s h
  refine ⟨hchain, ended_stays hchain fun s t hend hmove => ?_⟩
  have hnext : s.next = [] := by
    simp only [List.mem_cons, List.not_mem_nil, or_false] at hend
    rcases hend with rfl | rfl | rfl | rfl <;> rfl
  exact (hmove.resolve_right (by simp [hnext])).symm

open Sample

/-- An operation is cancelled while its execution waits for the plan; the execution goes on. -/
theorem states_of_cancelled :
    let states := journaledStates setup
      [.call (env 0) (.request (request "a" "first")),
        .call (env 0) (.execute "a"),
        .call (env 0) (.cancel "a"),
        .call (env 0) (.resume 0 (.plan (.ok ∅)) draw)] "a"
    states = [.requested, .cancelled] ∧ states.IsChain State.Moves := by
  refine ⟨by decide +kernel, (states_follow_table setup _ "a" ?_).1⟩
  refine ⟨trivial, trivial, trivial, ?_, trivial⟩
  rintro ⟨op, stage⟩ - hfails
  cases stage <;> cases hfails

/-- The same, and then the plan fails. -/
def cancelWhilePlanning : List (Action Intent) :=
  [.call (env 0) (.request (request "a" "first")),
    .call (env 0) (.execute "a"),
    .call (env 0) (.cancel "a"),
    .call (env 0)
      (.resume 0 (.plan (.error (.emosa ⟨.notReady, "plan refused"⟩))) draw)]

theorem cancelled_is_rejected :
    journaledStates setup cancelWhilePlanning "a" = [.requested, .cancelled, .rejected] ∧
    ¬ (journaledStates setup cancelWhilePlanning "a").IsChain State.Moves := by
  decide +kernel

end Emosa
