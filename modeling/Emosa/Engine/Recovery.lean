import Emosa.Engine.Specs

/-!
# Emosa.Engine.Recovery

`cancel` and `recover` commit only what is permitted. `recovered` is what `recover` makes of one
record; `recover_follows` says that it makes exactly that of every record of the journal, so after
it nothing is left VALIDATED, SUBMITTED, or REQUESTED by a WSC exchange.
-/

namespace Emosa

open Durable

variable {I : Type} [IntentType I]
variable {c : Context I} {j₀ : Journal I} {p : EngineProc I}

/-- Permitted writes, and nothing else. -/
structure Keeps (c : Context I) (j₀ : Journal I) (p p' : EngineProc I) :
    Prop where
  follows : Follows (Permitted c) j₀ p'
  memory : p'.memory = p.memory

theorem cancel_follows (hs : Sound j₀) {id : String} (h : Follows (Permitted c) j₀ p) :
    wp (Engine.cancel id) (fun _ p' => Keeps c j₀ p p') p := by
  simp only [Engine.cancel, wp_bind]
  rw [wp_get]
  cases hget : p.journal.get? id with
  | none => exact ⟨h, rfl⟩
  | some op =>
    simp only [wp_liftE]
    cases ht : transition op .cancelled with
    | error e => exact ⟨h, rfl⟩
    | ok op' =>
      obtain ⟨rfl, hnext, -⟩ := transition_ok ht
      simp only
      rw [wp_save]
      split
      · rename_i hvalid
        refine ⟨h.commit ⟨hvalid, fun old hold => ?_, nofun⟩, rfl⟩
        have he : old = op :=
          Option.some.inj (hold.symm.trans (Journal.get?_id hget ▸ hget))
        have hunsent : op.state.unsent = true := by
          cases hst : op.state <;> simp [hst, State.next, State.unsent] at hnext ⊢
        rw [he]
        exact .quiet rfl rfl rfl (.inr hnext) (fun _ => .inl rfl) (by simp) (by simp) rfl rfl
          (by simp) (fun _ => (hs.follows h).unobserved op (Journal.get?_mem hget) hunsent)
      · exact ⟨h, rfl⟩

/-- What `recover` makes of a record. -/
def recovered (op : Operation I) : Operation I :=
  if op.initiatingInterface = "wsc-component" ∧ op.state = .requested then
    { op with state := .cancelled }
  else if op.state = .submitted then
    { op with
      state := .indeterminate
      commitEvidence := (∅ : Record).set "attribution" (.str "unknown")
      reason := some Reason.outcomeUnknown.value }
  else if op.state = .validated then { op with state := .cancelled }
  else op

omit [IntentType I] in
theorem recovered_id (op : Operation I) : (recovered op).operationId = op.operationId := by
  unfold recovered
  split
  · rfl
  split
  · rfl
  split <;> rfl

theorem recovered_valid {op : Operation I} (h : op.valid = true) : (recovered op).valid = true := by
  unfold recovered
  split
  · exact h
  split
  · simp only [Operation.valid, Bool.and_eq_true] at h ⊢
    exact ⟨h.1, by simp⟩
  split <;> exact h

theorem recovered_lawful (hs : Sound p.journal) {op : Operation I} (hop : op ∈ p.journal.operations)
    (hown : ∀ id, c.owns id) (hne : op.state = .requested ∨ op.state = .submitted ∨
      op.state = .validated) (hwsc : op.state = .requested →
      op.initiatingInterface = "wsc-component") : Lawful c op (recovered op) := by
  have hblank := hs.unobserved op hop
  unfold recovered
  rcases hne with hst | hst | hst
  · rw [hst] at hblank
    rw [if_pos ⟨hwsc hst, hst⟩]
    exact .quiet rfl rfl rfl (by simp [hst, State.Moves, State.next]) (fun _ => .inl rfl) (by simp)
      (by simp) rfl rfl (by simp) (fun _ => hblank rfl)
  · rw [if_neg (by simp [hst]), if_pos hst]
    exact .quiet rfl rfl rfl (by simp [hst, State.Moves, State.next]) (fun _ => .inr (.inl (hown _)))
      (by simp) (by simp) rfl rfl (by simp) (by simp [State.unsent])
  · rw [hst] at hblank
    rw [if_neg (by simp [hst]), if_neg (by simp [hst]), if_pos hst]
    exact .quiet rfl rfl rfl (by simp [hst, State.Moves, State.next]) (fun _ => .inl rfl) (by simp)
      (by simp) rfl rfl (by simp) (fun _ => hblank rfl)

omit [IntentType I] in
theorem recovered_state (op : Operation I) :
    (recovered op).state ≠ .submitted ∧ (recovered op).state ≠ .validated ∧
      ((recovered op).state = .requested →
        (recovered op).initiatingInterface ≠ "wsc-component") := by
  unfold recovered
  split
  · simp
  split
  · simp
  split
  · simp
  · rename_i hwsc hsub hval
    exact ⟨hsub, hval, fun hr hi => hwsc ⟨hi, hr⟩⟩

/-- `recover` rewrites the one record. -/
structure RecoversOne (c : Context I) (j₀ : Journal I) (op : Operation I)
    (p : EngineProc I) (r : Except Exn Unit)
    (p' : EngineProc I) : Prop where
  result : r = .ok ()
  keeps : Keeps c j₀ p p'
  held : p'.journal.get? op.operationId = some (recovered op)
  others : Untouched op.operationId p.journal p'.journal

theorem recoverOne_follows (hs : Sound j₀) {op : Operation I} (h : Follows (Permitted c) j₀ p)
    (hget : p.journal.get? op.operationId = some op) (hown : ∀ id, c.owns id) :
    wp (Engine.recoverOne op) (RecoversOne c j₀ op p) p := by
  have hmem := Journal.get?_mem hget
  have hsp := hs.follows h
  have hid := recovered_id op
  have hvalid : (recovered op).valid = true := recovered_valid (hsp.valid op hmem)
  -- in three cases the recovered record is saved
  have hsave : op.state = .requested ∨ op.state = .submitted ∨ op.state = .validated →
      (op.state = .requested → op.initiatingInterface = "wsc-component") →
      wp (Store.save (recovered op)) (RecoversOne c j₀ op p) p := by
    intro hst hwsc
    have hlaw := recovered_lawful hsp hmem hown hst hwsc
    rw [wp_save, if_pos hvalid]
    have hw : Permitted c p.journal (.save (recovered op)) := by
      refine ⟨hvalid, fun old hold => ?_, fun hc => absurd hc (recovered_state op).1⟩
      have he : old = op := Option.some.inj ((hid ▸ hold).symm.trans hget)
      exact he ▸ hlaw
    refine ⟨rfl, ⟨h.commit hw, rfl⟩, ?_, hid ▸ Untouched.save p.journal (recovered op)⟩
    rw [← hid]
    exact Journal.get?_save_self (hid ▸ hget)
  unfold Engine.recoverOne
  split
  · rename_i h₁
    have ht : transition op .cancelled = .ok { op with state := .cancelled } :=
      transition_of_next (by simp [h₁.2, State.next]) (by decide) (by decide) (by decide)
        (by decide)
    have hr : recovered op = { op with state := .cancelled } := if_pos h₁
    simp only [ht]
    exact hr ▸ hsave (.inl h₁.2) fun _ => h₁.1
  split
  · rename_i h₁ h₂
    have ht : transition op .indeterminate = .ok { op with state := .indeterminate } :=
      transition_of_next (by simp [h₂, State.next]) (by decide) (by decide) (by decide) (by decide)
    have hr : recovered op = { op with
        state := .indeterminate
        commitEvidence := (∅ : Record).set "attribution" (.str "unknown")
        reason := some Reason.outcomeUnknown.value } := (if_neg h₁).trans (if_pos h₂)
    simp only [wp_bind, wp_liftE, ht]
    exact hr ▸ hsave (.inr (.inl h₂)) fun hc => by simp [h₂] at hc
  split
  · rename_i h₁ h₂ h₃
    have ht : transition op .cancelled = .ok { op with state := .cancelled } :=
      transition_of_next (by simp [h₃, State.next]) (by decide) (by decide) (by decide) (by decide)
    have hr : recovered op = { op with state := .cancelled } :=
      (if_neg h₁).trans ((if_neg h₂).trans (if_pos h₃))
    simp only [ht]
    exact hr ▸ hsave (.inr (.inr h₃)) fun hc => by simp [h₃] at hc
  · rename_i h₁ h₂ h₃
    have hr : recovered op = op := (if_neg h₁).trans ((if_neg h₂).trans (if_neg h₃))
    exact ⟨rfl, ⟨h, rfl⟩, hr.symm ▸ hget, Untouched.refl _ _⟩

/-- Each record is rewritten once, in a journal read at the start. -/
structure RecoversAll (c : Context I) (j₀ : Journal I) (rows : List (Operation I))
    (p : EngineProc I) (r : Except Exn Unit)
    (p' : EngineProc I) : Prop where
  result : r = .ok ()
  keeps : Keeps c j₀ p p'
  held : ∀ row ∈ rows, p'.journal.get? row.operationId = some (recovered row)
  others : ∀ id, (∀ row ∈ rows, row.operationId ≠ id) → p'.journal.get? id = p.journal.get? id

theorem recoverFrom_follows (hs : Sound j₀) {rows : List (Operation I)}
    (h : Follows (Permitted c) j₀ p) (hcur : Current p.journal rows) (hown : ∀ id, c.owns id) :
    wp (Engine.recoverFrom rows) (RecoversAll c j₀ rows p) p := by
  induction rows generalizing p with
  | nil => exact ⟨rfl, ⟨h, rfl⟩, by simp, fun _ _ => rfl⟩
  | cons op rest ih =>
    have hn := hcur.nodup
    rw [List.map_cons, List.nodup_cons] at hn
    simp only [Engine.recoverFrom, wp_bind]
    refine wp_mono (recoverOne_follows hs h (hcur.held op List.mem_cons_self) hown) ?_
    rintro r p₁ ⟨rfl, hk₁, hheld₁, hothers₁⟩
    refine wp_mono (ih hk₁.follows (hcur.tail hothers₁)) ?_
    rintro r p' ⟨rfl, hk, hheld, hothers⟩
    refine ⟨rfl, ⟨hk.follows, hk.memory.trans hk₁.memory⟩, ?_, ?_⟩
    · intro row hrow
      cases List.mem_cons.mp hrow with
      | inl he =>
        have hrest : ∀ q ∈ rest, q.operationId ≠ op.operationId := fun q hq hqe =>
          hn.1 (hqe ▸ List.mem_map_of_mem hq)
        rw [he, hothers _ hrest]
        exact hheld₁
      | inr hm => exact hheld row hm
    · intro id hid
      rw [hothers id fun q hq => hid q (List.mem_cons_of_mem _ hq)]
      exact hothers₁ id fun he => hid op List.mem_cons_self he.symm

theorem recover_follows (hs : Sound j₀) (h : Follows (Permitted c) j₀ p)
    (hown : ∀ id, c.owns id) :
    wp Engine.recover (RecoversAll c j₀ p.journal.operations p) p := by
  exact recoverFrom_follows hs h (hs.follows h).current hown

end Emosa
