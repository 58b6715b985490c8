import Emosa.C.Release
import Emosa.Scope.Site

/-!
# Emosa.C.Drive

The C engine as a scope's tick uses it: one request, and its execution to the end.

* `request_admitted`, `perform_acts`: a write whose request passes.
* `perform_orderly`: a write whose request passes is journaled, and the journal stays tidy.
-/

namespace Emosa.C

open Durable Engine

variable {I : Type} [IntentType I] {known : Record → Prop} {op : Operation I} {p p₁ : Process I}

/-- How a tick makes a write: a request, and its execution unless it was settled before. -/
def emPerform (env : EmEnv I) (r : Engine.Request I) (answers : Answers) (p : Process I) :
    Process I :=
  match emEngineRequest env r p with
  | (.ok op, p) =>
    if op.state = .requested then (emEngineExecute env op.operationId answers p).2 else p
  | (.error _, p) => p

/-! ## Keys -/

theorem utf8Len_le (chars : List Char) : String.utf8Len chars ≤ 4 * chars.length := by
  induction chars with
  | nil => simp
  | cons c chars ih =>
    have hc := Char.utf8Size_le_four c
    simp only [String.utf8Len_cons, List.length_cons]
    omega

theorem utf8ByteSize_le (key : String) : key.utf8ByteSize ≤ 4 * key.length := by
  have hlen := utf8Len_le key.toList
  rwa [← String.utf8ByteSize_ofList, String.ofList_toList, String.length_toList] at hlen

/-! ## A whole write -/

/-- The request passes every check, and no retained operation has its key. -/
structure Admitted (env : EmEnv I) (r : Engine.Request I) (fingerprint : String)
    (p : Process I) : Prop where
  target : ∃ target, env.target r.intent = .ok target ∧
    env.fingerprint r.intent target = some fingerprint
  semantic : r.initiatingInterface = "semantic"
  receipt : r.wscReceipt = none
  source : r.source ≠ ""
  key : r.key ≠ "" ∧ r.key.utf8ByteSize ≤ 128
  deadline : 0 < r.deadline ∧ r.deadline ≤ 3600
  pod : r.podId = p.memory.podId
  unused : p.journal.lookup r.source p.memory.podId r.key = none
  record : (newOperation env r fingerprint).valid = true
  budget : p.journal.operations.length < emMaxOperations

theorem request_admitted {env : EmEnv I} {r : Request I} {fingerprint : String}
    (h : Admitted env r fingerprint p) :
    emEngineRequest env r p =
      (.ok (grant (newOperation env r fingerprint)
        (journaled env r (newOperation env r fingerprint) p)).1,
      (grant (newOperation env r fingerprint)
        (journaled env r (newOperation env r fingerprint) p)).2) := by
  obtain ⟨target, htarget, hfp⟩ := h.target
  have hinterface : ¬ (r.initiatingInterface ≠ "semantic" ∧
      (r.initiatingInterface ≠ "wsc-component" ∨ r.wscReceipt = none)) := fun hc => hc.1 h.semantic
  have hbad : ¬ (r.source = "" ∨ r.key = "" ∨ 128 < r.key.utf8ByteSize ∨
      ¬ (0 < r.deadline ∧ r.deadline ≤ 3600)) := by
    rintro (hc | hc | hc | hc)
    · exact h.source hc
    · exact h.key.1 hc
    · exact absurd h.key.2 (not_le.mpr hc)
    · exact hc h.deadline
  have hadd : emJournalAdd (newOperation env r fingerprint) r.wscReceipt p =
      .ok (p.commit (.add (newOperation env r fingerprint) r.wscReceipt)) := by
    have hwsc : ¬ (newOperation env r fingerprint).initiatingInterface = "wsc-component" := by
      rw [show (newOperation env r fingerprint).initiatingInterface = "semantic" from h.semantic]
      decide
    have hbudget : ¬ emMaxOperations ≤ p.journal.operations.length := not_le.mpr h.budget
    simp [emJournalAdd, h.record, h.receipt, hwsc, hbudget]
  unfold emEngineRequest
  rw [htarget]
  simp only
  rw [if_neg hinterface, if_neg hbad, if_neg (not_not_intro h.pod), hfp]
  rw [h.unused]
  simp only
  rw [hadd]
  rfl

/-- A write whose request passes: its operation is journaled, and from there on only records it may
save are saved. -/
theorem perform_acts {env : EmEnv I} {r : Request I} {answers : Answers}
    {fingerprint : String} (h : Admitted env r fingerprint p)
    (hfresh : p.journal.get? r.operationId = none) (hunknown : known unknownAttribution)
    (hknown : known answers.submit.evidence) :
    Acts (Working known
        (journaled env r (newOperation env r fingerprint) p).journal.operations
        (newOperation env r fingerprint))
      (journaled env r (newOperation env r fingerprint) p) (emPerform env r answers p) := by
  generalize hop : newOperation env r fingerprint = op
  have hid : op.operationId = r.operationId := hop ▸ rfl
  have hadded : Held known op (journaled env r op p).journal.toJournal :=
    ⟨op, Journal.get?_written_add emJournalHoldsRows r.wscReceipt (hid ▸ hfresh), .refl op⟩
  obtain ⟨hgrant, hstays⟩ := grant_acts (P := fun _ _ => True) op (journaled env r op p)
  have hacts := hgrant.mono fun _ h => h.1
  unfold emPerform
  rw [request_admitted h, hop]
  simp only
  split
  · obtain ⟨row, hrow, hheld⟩ := hacts.wrote.preserves
      (Q := fun j : EmJournal I => Held known op j.toJournal)
      (fun j w hw => Held.written emJournalHoldsRows hw) hadded
    rw [hstays.id_eq]
    have hexec := execute_acts (P := fun _ _ => True) hunknown hknown env (fun _ _ _ => trivial) hrow
    refine hacts.trans (hexec.mono fun w hw => ?_)
    exact SavesOf.working (SavesOf.of_stays hw.1 hheld) _
  · exact hacts

/-! ## Tidy scopes -/

/-- The process serves `pod`, and its journal is tidy. -/
structure Orderly (pod : String) (p : Process I) : Prop where
  serves : p.memory.podId = pod
  tidy : Tidy emJournalHoldsRows pod p.journal.toJournal

omit [IntentType I] in
theorem emJournalHoldsRows_of_stays {new : Operation I} (h : Stays Rowless op new)
    (hop : emJournalHoldsRows op = false) : emJournalHoldsRows new = false := by
  rcases h.evidence with he | he
  · unfold emJournalHoldsRows at hop ⊢
    rw [he]
    exact hop
  · unfold Rowless at he
    simp [emJournalHoldsRows, he]

theorem rewrites_orderly {pod : String} (h : Orderly pod p)
    (hop : p.journal.operations.getLast? = some op) (hacts : Acts (SavesOf Rowless op) p p₁) :
    Orderly pod p₁ ∧ p₁.journal.issued = p.journal.issued ∧
      p₁.journal.operations.map Operation.origin = p.journal.operations.map Operation.origin := by
  have hrew := hacts.wrote.preserves
    (Q := fun j : EmJournal I => Tidy.Rewritten emJournalHoldsRows pod op p.journal.toJournal
      j.toJournal)
    (fun j v hv hj => hj.written (fun _ _ => emJournalHoldsRows_of_stays) h.tidy
      (List.mem_of_getLast? hop) hv) (h.tidy.rewritten_self hop)
  exact ⟨⟨hacts.pod.trans h.serves, hrew.tidy⟩, hrew.issued, hrew.origins⟩

theorem perform_orderly {pod : String} {env : EmEnv I} {r : Request I} {answers : Answers}
    {fingerprint : String} (h : Orderly pod p)
    (hidle : ∀ op ∈ p.journal.operations, op.state.active = false)
    (hadm : Admitted env r fingerprint p) (hfresh : r.operationId ∉ p.journal.issued)
    (hknown : Rowless answers.submit.evidence) :
    Orderly pod (emPerform env r answers p) ∧
      ∃ op ∈ (emPerform env r answers p).journal.operations,
        op.origin = (newOperation env r fingerprint).origin := by
  have hnone : p.journal.get? r.operationId = none := by
    rw [Journal.get?, List.find?_eq_none]
    intro op hop he
    exact hfresh (decide_eq_true_eq.mp he ▸ h.tidy.distinct.issued op hop)
  have hacts := perform_acts hadm hnone rowless_unknown hknown
  generalize hop : newOperation env r fingerprint = op at hacts
  have hpod : op.podId = pod := hop ▸ hadm.pod.trans h.serves
  have hfree : emJournalHoldsRows op = false := hop ▸ rfl
  have hmade : Tidy.Made emJournalHoldsRows pod Rowless op (journaled env r op p).journal.toJournal := by
    have hadd : (journaled env r op p).journal.toJournal =
        p.journal.toJournal.written emJournalHoldsRows (.add op none) := by
      rw [← hadm.receipt]
      rfl
    rw [hadd]
    exact h.tidy.made_of_add hidle (hop ▸ hfresh) hpod hfree
  have hend := hacts.wrote.preserves
    (Q := fun j : EmJournal I => Tidy.Made emJournalHoldsRows pod Rowless op j.toJournal)
    (fun j v hv hj => hj.written (fun _ _ => emJournalHoldsRows_of_stays) ⟨hpod, hfree⟩
      (fun q hq => ⟨hmade.tidy.pods q hq, hmade.tidy.free q hq⟩) hv) hmade
  obtain ⟨row, hrow, hstays⟩ := hend.held
  refine ⟨⟨hacts.pod.trans ?_, hend.tidy⟩, row, Journal.get?_mem hrow, hop ▸ hstays.origin⟩
  exact (setTimer_keeps _ _ _).1.trans h.serves

/-- The engine of a new process on the journal, recovered. -/
def emOpen (pod processId : String) (j : EmJournal I) : Process I :=
  emEngineRecover ⟨{ podId := pod, processId := processId }, j, []⟩

omit [IntentType I] in
theorem recovered_stays {new : Operation I} (h : recovered op = some new) :
    op.state.active = true ∧ Stays Rowless op new := by
  have hself : Stays Rowless op op := .refl op
  unfold recovered at h
  split at h
  · rename_i hc
    exact ⟨by rw [hc.2]; rfl, Option.some.inj h ▸ stays_moved hself .cancelled ∅⟩
  split at h
  · rename_i hc
    exact ⟨by rw [hc]; rfl,
      Option.some.inj h ▸ (stays_moved hself .indeterminate ∅).learn rfl rowless_unknown⟩
  split at h
  · rename_i hc
    exact ⟨by rw [hc]; rfl, Option.some.inj h ▸ stays_moved hself .cancelled ∅⟩
  · cases h

theorem open_orderly {pod : String} (processId : String) {j : EmJournal I}
    (h : Tidy emJournalHoldsRows pod j.toJournal) : Orderly pod (emOpen pod processId j) := by
  -- every unfinished record is the latest one, and stays in its place
  have hrun : ∀ (rest : List (Operation I)) (p : Process I), (∀ op ∈ rest, op ∈ j.operations) →
      Orderly pod p → (∀ old ∈ j.operations, old.state.active = true →
        Tidy.Last old.operationId p.journal.toJournal) → Orderly pod (recoverFrom rest p) := by
    intro rest
    induction rest with
    | nil => exact fun p _ hp _ => hp
    | cons op rest ih =>
      intro p hrest hp hlast
      have hop : op ∈ j.operations := hrest op List.mem_cons_self
      have hih := fun q => ih q fun op hop => hrest op (List.mem_cons_of_mem _ hop)
      unfold recoverFrom
      cases hr : recovered op with
      | none => exact hih p hp hlast
      | some new =>
        obtain ⟨hact, hstays⟩ := recovered_stays hr
        simp only [emEngineSave]
        split
        · refine hih _ ⟨hp.serves, hp.tidy.save ?_ ?_ (.inr ?_)⟩
            fun old hold ha => (hlast old hold ha).save emJournalHoldsRows
          · exact (congrArg IntentType.podId hstays.intent_eq).trans (h.pods op hop)
          · exact emJournalHoldsRows_of_stays hstays (h.free op hop)
          · exact hstays.id_eq ▸ hlast op hop hact
        · exact hih p hp hlast
  exact hrun _ _ (fun _ hop => hop) ⟨rfl, h⟩ fun old hold ha => h.last_of_active hold ha

end Emosa.C
