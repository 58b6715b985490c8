import Emosa.Engine.Drive
import Emosa.Engine.Retention

/-!
# Emosa.Scope.Tidy

The journal of a scope that makes its writes one after the other, for one pod, and creates no rows it
has to take back. Retention then keeps it short: beyond the recent records only the pod's latest one
stays. `holds` is the journal's own test for rows that are held, so that the journals of both engines
are covered.

* `Tidy.add`, `Tidy.working`: what a write does to it.
* `Tidy.short`: it never has more than one record beyond the recent ones.
-/

namespace Emosa

open Durable Journal List

variable {I : Type}

theorem all_idle (latest : Option (Operation I)) :
    latest.all (!·.state.active) = !latest.any (·.state.active) := by cases latest <;> rfl

theorem idle_iff {latest : Option (Operation I)} :
    latest.all (!·.state.active) = true ↔ ∀ op, latest = some op → op.state.active = false := by
  cases latest <;> simp

variable [IntentType I]

structure Tidy (holds : Operation I → Bool) (pod : String) (j : Journal I) : Prop where
  distinct : j.Distinct
  pods : ∀ op ∈ j.operations, op.podId = pod
  free : ∀ op ∈ j.operations, holds op = false
  /-- Only the latest operation may be unfinished. -/
  settled : ∀ op ∈ j.operations.dropLast, op.state.active = false
  short : j.operations.length ≤ retainedRecent + 1

namespace Tidy

variable {holds : Operation I → Bool} {pod : String} {j : Journal I} {op : Operation I}

theorem empty : Tidy holds pod ({} : Journal I) :=
  ⟨⟨nodup_nil, by simp⟩, by simp, by simp, by simp, by simp⟩

theorem inactive (h : Tidy holds pod j)
    (hlast : ∀ op, j.operations.getLast? = some op → op.state.active = false) :
    ∀ op ∈ j.operations, op.state.active = false := by
  intro op hop
  rcases eq_nil_or_concat j.operations with hnil | ⟨rows, last, hrows⟩
  · rw [hnil] at hop; cases hop
  · have hsettled := h.settled
    rw [hrows] at hop hlast hsettled
    rw [concat_eq_append] at hop hlast hsettled
    rw [dropLast_concat] at hsettled
    rcases mem_append.mp hop with hop | hop
    · exact hsettled op hop
    · rw [mem_singleton.mp hop]
      exact hlast last (by simp)

theorem latest_keys (rows : List (Operation I)) (hpods : ∀ op ∈ rows, op.podId = pod) :
    ∀ k ∈ (latest rows).keys, k = pod := by
  have hfold : ∀ (rows : List (Operation I)) (d : Dict String String),
      (∀ op ∈ rows, op.podId = pod) → (∀ k ∈ d.keys, k = pod) →
      ∀ k ∈ (rows.foldl (fun d row => if row.state.reconciled then d.set row.podId row.operationId
        else d) d).keys, k = pod := by
    intro rows
    induction rows with
    | nil => intro d _ hd; exact hd
    | cons row rows ih =>
      intro d hrows hd
      refine ih _ (fun op hop => hrows op (mem_cons_of_mem _ hop)) fun k hk => ?_
      by_cases hr : row.state.reconciled = true
      · simp only [hr] at hk
        rcases Dict.mem_keys_set.mp hk with rfl | hk
        · exact hrows row mem_cons_self
        · exact hd k hk
      · simp only [hr] at hk
        exact hd k hk
  refine hfold rows ∅ hpods fun k hk => ?_
  cases hk

theorem length_le_one_of_eq {l : List String} (hn : l.Nodup) (h : ∀ k ∈ l, k = pod) : l.length ≤ 1 :=
  (hn.subperm fun k hk => mem_singleton.mpr (h k hk)).length_le

omit [IntentType I] in
theorem mem_recent {rows : List (Operation I)} (hop : op ∈ rows) (hlast : op ∉ rows.dropLast) :
    op ∈ rows.drop (rows.length - retainedRecent) := by
  rcases eq_nil_or_concat rows with rfl | ⟨init, last, rfl⟩
  · cases hop
  · rw [concat_eq_append] at hop hlast ⊢
    rw [dropLast_concat] at hlast
    have hle : (init ++ [last]).length - retainedRecent ≤ init.length := by
      simp only [length_append, length_singleton, retainedRecent]
      omega
    rw [drop_append_of_le_length hle]
    rcases mem_append.mp hop with hop | hop
    · exact absurd hop hlast
    · exact mem_append_right _ hop

theorem length_kept_le {rows : List (Operation I)}
    (hn : (rows.map Operation.operationId).Nodup) (hpods : ∀ op ∈ rows, op.podId = pod)
    (hfree : ∀ op ∈ rows, holds op = false)
    (hsettled : ∀ op ∈ rows.dropLast, op.state.active = false) :
    (rows.filter fun row => kept holds rows row.operationId).length ≤ retainedRecent + 1 := by
  by_cases hlen : rows.length ≤ retainedRecent
  · exact le_trans (length_filter_le _ _) (by omega)
  have hone : ((latest rows).entries.map Prod.snd).length ≤ 1 := by
    have := length_le_one_of_eq (latest rows).nodup (latest_keys rows hpods)
    simpa using this
  have hsub : (rows.filter fun row => kept holds rows row.operationId).map
      Operation.operationId ⊆
        (rows.drop (rows.length - retainedRecent)).map Operation.operationId ++
          (latest rows).entries.map Prod.snd := by
    intro id hid
    obtain ⟨row, hrow, rfl⟩ := mem_map.mp hid
    have hkept := (mem_filter.mp hrow).2
    simp only [kept, keep, hlen, decide_false, Bool.false_or, contains_eq_mem,
      decide_eq_true_eq, mem_append] at hkept
    rcases hkept with (hrecent | halways) | hlatest
    · exact mem_append_left _ hrecent
    · -- it holds no rows, so it is unfinished, and then it is the latest one
      obtain ⟨op, hop, he⟩ := mem_map.mp halways
      obtain ⟨hop, hkeep⟩ := mem_filter.mp hop
      rw [hfree op hop] at hkeep
      have hnot : op ∉ rows.dropLast := fun hmem => by
        rw [hsettled op hmem] at hkeep
        cases hkeep
      exact mem_append_left _ (he ▸ mem_map_of_mem (mem_recent hop hnot))
    · exact mem_append_right _ hlatest
  have hnodup : ((rows.filter fun row => kept holds rows row.operationId).map
      Operation.operationId).Nodup := hn.sublist (filter_sublist.map _)
  have hle := (hnodup.subperm hsub).length_le
  simp only [length_append, length_map, length_drop] at hle hone
  omega

/-! ## Writes -/

omit [IntentType I] in
/-- `id` is not the ID of an earlier operation than the latest. -/
def Last (id : String) (j : Journal I) : Prop :=
  ∀ row ∈ j.operations.dropLast, row.operationId ≠ id

theorem add (h : Tidy holds pod j) (hidle : ∀ op ∈ j.operations, op.state.active = false)
    (hnew : op.operationId ∉ j.issued) (hpod : op.podId = pod) (hfree : holds op = false) :
    Tidy holds pod (j.written holds (.add op none)) ∧
      Last op.operationId (j.written holds (.add op none)) := by
  have hrows : (j.written holds (.add op none)).operations =
      (j.operations ++ [op]).filter fun row =>
        kept holds (j.operations ++ [op]) row.operationId := rfl
  have hnodup := (h.distinct.added hnew none).nodup
  have hdrop : ∀ row ∈ (j.operations ++ [op]).dropLast, row ∈ j.operations := by
    intro row hrow
    rwa [dropLast_concat] at hrow
  have hsub : ∀ row ∈ (j.written holds (.add op none)).operations.dropLast, row ∈ j.operations := by
    have hkept : kept holds (j.operations ++ [op]) op.operationId = true :=
      kept_of_mem_drop (mem_recent (by simp) fun hmem =>
        hnew (h.distinct.issued op (hdrop op hmem)))
    have hown : [op].filter (fun row =>
        kept holds (j.operations ++ [op]) row.operationId) = [op] := by simp [hkept]
    intro row hrow
    rw [hrows, filter_append, hown, dropLast_concat] at hrow
    exact (mem_filter.mp hrow).1
  refine ⟨⟨⟨hnodup.sublist (filter_sublist.map _), ?_⟩, ?_, ?_, ?_, ?_⟩, ?_⟩
  · intro row hrow
    exact (h.distinct.added hnew none).issued row (mem_filter.mp hrow).1
  · intro row hrow
    exact (mem_written_add hrow).elim (h.pods row) fun he => he ▸ hpod
  · intro row hrow
    exact (mem_written_add hrow).elim (h.free row) fun he => he ▸ hfree
  · exact fun row hrow => hidle row (hsub row hrow)
  · have hall : ∀ row ∈ j.operations ++ [op], row.podId = pod ∧ holds row = false := by
      intro row hrow
      rcases mem_append.mp hrow with hrow | hrow
      · exact ⟨h.pods row hrow, h.free row hrow⟩
      · rw [mem_singleton.mp hrow]
        exact ⟨hpod, hfree⟩
    exact length_kept_le hnodup (fun row hrow => (hall row hrow).1)
      (fun row hrow => (hall row hrow).2) fun row hrow => hidle row (hdrop row hrow)
  · intro row hrow he
    exact hnew (he ▸ h.distinct.issued row (hsub row hrow))

theorem save {new : Operation I} (h : Tidy holds pod j) (hpod : new.podId = pod)
    (hfree : holds new = false) (hstate : new.state.active = false ∨ Last new.operationId j) :
    Tidy holds pod (j.written holds (.save new)) := by
  have hids : (j.written holds (.save new)).operations.map Operation.operationId =
      j.operations.map Operation.operationId := by
    simp only [written, map_map]
    refine map_congr_left fun row _ => ?_
    by_cases hrow : row.operationId = new.operationId <;> simp [hrow]
  refine ⟨⟨hids ▸ h.distinct.nodup, ?_⟩, ?_, ?_, ?_, ?_⟩
  · intro row hrow
    obtain ⟨old, hold, he⟩ := mem_map.mp (hids ▸ mem_map_of_mem hrow)
    exact he ▸ h.distinct.issued old hold
  · intro row hrow
    exact (mem_written_save holds hrow).elim (h.pods row) fun he => he.1 ▸ hpod
  · intro row hrow
    exact (mem_written_save holds hrow).elim (h.free row) fun he => he.1 ▸ hfree
  · intro row hrow
    simp only [written, ← map_dropLast, mem_map] at hrow
    obtain ⟨old, hold, rfl⟩ := hrow
    split
    · rename_i hid
      exact hstate.resolve_right fun hlast => hlast old hold hid
    · exact h.settled old hold
  · simpa [written] using h.short

theorem Last.save (holds : Operation I → Bool) {id : String} {new : Operation I} (h : Last id j) :
    Last id (j.written holds (.save new)) := by
  intro row hrow
  simp only [written, ← map_dropLast, mem_map] at hrow
  obtain ⟨old, hold, rfl⟩ := hrow
  split
  · rename_i hid
    exact hid ▸ h old hold
  · exact h old hold

theorem last_of_latest (h : Tidy holds pod j) (hop : j.operations.getLast? = some op) :
    Last op.operationId j := by
  obtain ⟨init, hinit⟩ := getLast?_eq_some_iff.mp hop
  have hn := h.distinct.nodup
  intro row hrow he
  rw [hinit, dropLast_concat] at hrow
  rw [hinit, map_append, nodup_append] at hn
  exact hn.2.2 _ (mem_map_of_mem hrow) _ (by simp) he

theorem last_of_active (h : Tidy holds pod j) (hop : op ∈ j.operations)
    (hact : op.state.active = true) : Last op.operationId j := by
  have hnot : op ∉ j.operations.dropLast := fun hmem => by
    rw [h.settled op hmem] at hact
    cases hact
  rcases eq_nil_or_concat j.operations with hnil | ⟨init, last, hrows⟩
  · rw [hnil] at hop; cases hop
  · rw [hrows, concat_eq_append] at hop hnot
    rw [dropLast_concat] at hnot
    have he : op = last := by
      rcases mem_append.mp hop with hop | hop
      · exact absurd hop hnot
      · exact mem_singleton.mp hop
    refine h.last_of_latest ?_
    rw [hrows, concat_eq_append, getLast?_concat, he]

section Working

variable {known : Record → Prop} {rows : List (Operation I)}
variable (hknown : ∀ op new : Operation I, Stays known op new → holds op = false → holds new = false)
include hknown

theorem working (h : Tidy holds pod j ∧ Last op.operationId j)
    (hop : op.podId = pod ∧ holds op = false)
    (hrows : ∀ q ∈ rows, q.podId = pod ∧ holds q = false) {w : Write I}
    (hw : Engine.Working known rows op w) :
    Tidy holds pod (j.written holds w) ∧ Last op.operationId (j.written holds w) := by
  have hpods : ∀ {old new : Operation I}, Stays known old new → old.podId = pod → new.podId = pod :=
    fun hstays hpod => (congrArg IntentType.podId hstays.intent_eq).trans hpod
  cases w with
  | add => exact hw.elim
  | conflict | release => exact ⟨⟨⟨h.1.1.1, h.1.1.2⟩, h.1.2, h.1.3, h.1.4, h.1.5⟩, h.2⟩
  | save new =>
    refine ⟨?_, h.2.save holds⟩
    rcases hw with hnew | ⟨hstate, q, hq, -, hstays⟩
    · exact h.1.save (hpods hnew hop.1) (hknown _ _ hnew hop.2) (.inr (hnew.id_eq ▸ h.2))
    · exact h.1.save (hpods hstays (hrows q hq).1) (hknown _ _ hstays (hrows q hq).2) (.inl hstate)

end Working

/-! ## Whole calls -/

/-- `j` comes from `j₀` by rewriting the latest record, that of `op`. -/
structure Rewritten (holds : Operation I → Bool) (pod : String) (op : Operation I)
    (j₀ j : Journal I) : Prop where
  tidy : Tidy holds pod j
  last : Last op.operationId j
  issued : j.issued = j₀.issued
  /-- What the requests fixed stays, and in its place. -/
  origins : j.operations.map Operation.origin = j₀.operations.map Operation.origin

/-- `j` has the record of the write `op`, its latest one. -/
structure Made (holds : Operation I → Bool) (pod : String) (known : Record → Prop)
    (op : Operation I) (j : Journal I) : Prop where
  tidy : Tidy holds pod j
  last : Last op.operationId j
  held : Engine.Held known op j

theorem rewritten_self (h : Tidy holds pod j) (hop : j.operations.getLast? = some op) :
    Rewritten holds pod op j j :=
  ⟨h, h.last_of_latest hop, rfl, rfl⟩

section Calls

variable {known : Record → Prop} {rows : List (Operation I)} {w : Write I}
variable (hknown : ∀ op new : Operation I, Stays known op new → holds op = false → holds new = false)
include hknown

theorem Rewritten.written {j₀ : Journal I} (h₀ : Tidy holds pod j₀) (hop : op ∈ j₀.operations)
    (hw : SavesOf known op w) (h : Rewritten holds pod op j₀ j) :
    Rewritten holds pod op j₀ (j.written holds w) := by
  obtain ⟨htidy, hlast⟩ := working hknown ⟨h.tidy, h.last⟩ ⟨h₀.pods op hop, h₀.free op hop⟩
    (fun q hq => absurd hq not_mem_nil) (Engine.SavesOf.working hw [])
  cases w with
  | add => exact hw.elim
  | conflict | release => exact ⟨htidy, hlast, h.issued, h.origins⟩
  | save new =>
    refine ⟨htidy, hlast, h.issued, ?_⟩
    rw [← h.origins]
    simp only [written, map_map]
    refine map_congr_left fun row hrow => ?_
    simp only [Function.comp_apply]
    split
    · rename_i hid
      obtain ⟨old, hold, he⟩ := mem_map.mp (h.origins ▸ mem_map_of_mem hrow)
      have hids : old.operationId = op.operationId :=
        (congrArg Origin.operationId he).trans (hid.trans (Stays.id_eq hw))
      have hsame : old = op := Option.some.inj
        ((h₀.distinct.get? hold).symm.trans (hids ▸ h₀.distinct.get? hop))
      rw [Stays.origin hw, ← he, hsame]
    · rfl

theorem Made.written (hop : op.podId = pod ∧ holds op = false)
    (hrows : ∀ q ∈ rows, q.podId = pod ∧ holds q = false) (hw : Engine.Working known rows op w)
    (h : Made holds pod known op j) : Made holds pod known op (j.written holds w) := by
  obtain ⟨htidy, hlast⟩ := working hknown ⟨h.tidy, h.last⟩ hop hrows hw
  exact ⟨htidy, hlast, Engine.Held.written holds hw h.held⟩

end Calls

theorem made_of_add {known : Record → Prop} (h : Tidy holds pod j)
    (hidle : ∀ op ∈ j.operations, op.state.active = false) (hnew : op.operationId ∉ j.issued)
    (hpod : op.podId = pod) (hfree : holds op = false) :
    Made holds pod known op (j.written holds (.add op none)) := by
  have hnone : j.get? op.operationId = none := by
    rw [get?, find?_eq_none]
    intro row hrow he
    exact hnew (decide_eq_true_eq.mp he ▸ h.distinct.issued row hrow)
  obtain ⟨htidy, hlast⟩ := h.add hidle hnew hpod hfree
  exact ⟨htidy, hlast, op, get?_written_add holds none hnone, .refl op⟩

end Tidy

end Emosa
