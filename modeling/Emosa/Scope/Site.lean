import Emosa.Scope.Tidy

/-!
# Emosa.Scope.Site

A scope of one pod: its own engine on its own journal. A tick of the scope runs the engine's calls one
after the other, and what they raise ends the tick.

* `Site.call`: one such call.
* `Site.perform_orderly`: a write whose request passes is journaled, and the journal stays tidy.
-/

namespace Emosa

open Durable Engine

variable {I : Type} [IntentType I] {α : Type}

structure Site (I : Type) where
  engine : Engine
  journal : Journal I := {}

namespace Site

def call (w : Site I) (m : M I α) : Except Exn α × Site I :=
  match m ⟨w.engine, w.journal, []⟩ with
  | .ok a p => (.ok a, ⟨p.memory, p.journal⟩)
  | .error x p => (.error x, ⟨p.memory, p.journal⟩)

def process (w : Site I) : Proc Engine (Journal I) (Write I) := ⟨w.engine, w.journal, []⟩

theorem call_of_wp {w : Site I} {m : M I α} {R : Except Exn α → Engine → Journal I → Prop}
    (h : wp m (fun r p => R r p.memory p.journal) w.process) :
    R (w.call m).1 (w.call m).2.engine (w.call m).2.journal := by
  unfold wp at h
  unfold call
  unfold process at h
  split <;> rename_i hm <;> rw [hm] at h <;> exact h

/-- The scope's object on its journal: a new process, which recovers first. -/
def start (processId pod : String) (j : Journal I) : Site I :=
  (call { engine := { processId := processId, backends := [pod] }, journal := j }
    (Engine.recover : M I Unit)).2

def latest (w : Site I) : Option (Operation I) := w.journal.operations.getLast?

end Site

/-- `failed_check`: what a scope's backend reports of a transaction whose results were refused.
`error` is the database's own text. -/
def failedCheck (code : Reason) (error : Option String) : SubmitResult :=
  let evidence : Record := match error with
    | some text => ((∅ : Record).set "attribution" (.str "reply")).set "database_error" (.str text)
    | none => ∅
  match code with
  | .preconditionFailed => ⟨.conflict, evidence, some code.value⟩
  | .outcomeUnknown => ⟨.unknown, evidence, some code.value⟩
  | _ => ⟨.rejected, evidence, some code.value⟩

/-! ## Tidy scopes -/

theorem expired_effects {R : Write I → Prop} {s : List String × Nat} (env : Env I)
    (op : Operation I) : Does (fun e => e.setting = s) R (fun _ => True) (expired env op) := by
  refine .bind .memory fun e _ => ?_
  split
  · exact .pure trivial
  · exact .bind (.remember fun _ h => h) fun _ _ => .pure trivial

/-- The evidence names no rows that are held. -/
def Rowless (evidence : Record) : Prop := evidence.get? "created" = none

omit [IntentType I] in
theorem holdsRows_of_stays {op new : Operation I} (h : Stays Rowless op new)
    (hop : holdsRows op = false) : holdsRows new = false := by
  rcases h.evidence with he | he
  · unfold holdsRows at hop ⊢
    rw [he]
    exact hop
  · unfold Rowless at he
    simp [holdsRows, Record.holds, he]

theorem rowless_unknown : Rowless unknownAttribution := rfl

theorem rowless_failedCheck (code : Reason) (error : Option String) :
    Rowless (failedCheck code error).evidence := by
  cases error <;> cases code <;> rfl

namespace Site

variable {pod : String} {w : Site I}

/-- The scope serves `pod`, with the budget of an engine, and its journal is tidy. -/
structure Orderly (pod : String) (w : Site I) : Prop where
  setting : w.engine.setting = ([pod], 10000)
  tidy : Tidy holdsRows pod w.journal

theorem rewrites_orderly {Q : α → Prop} {op : Operation I} {m : M I α} (h : Orderly pod w)
    (hop : w.latest = some op) (hm : Rewrites ([pod], 10000) Rowless op Q m) :
    Orderly pod (w.call m).2 ∧ (w.call m).2.journal.issued = w.journal.issued ∧
      (w.call m).2.journal.operations.map Operation.origin =
        w.journal.operations.map Operation.origin := by
  have hmem : op ∈ w.journal.operations := List.mem_of_getLast? hop
  have hrun : wp m (fun _ p' => p'.memory.setting = ([pod], 10000) ∧
      Tidy.Rewritten holdsRows pod op w.journal p'.journal) w.process := by
    refine wp_mono (hm w.process h.setting) ?_
    rintro _ p' ⟨hw, hs, -⟩
    exact ⟨hs, hw.preserves (Q := Tidy.Rewritten holdsRows pod op w.journal)
      (fun j v hv hj => hj.written (fun _ _ => holdsRows_of_stays) h.tidy hmem hv)
      (h.tidy.rewritten_self hop)⟩
  obtain ⟨hs, hrew⟩ := call_of_wp (R := fun _ e j => e.setting = ([pod], 10000) ∧
    Tidy.Rewritten holdsRows pod op w.journal j) hrun
  exact ⟨⟨hs, hrew.tidy⟩, hrew.issued, hrew.origins⟩

/-- What recovery saves: unfinished records of `rows`. -/
def Recovers (rows : List (Operation I)) : Write I → Prop
  | .save new => ∃ old ∈ rows, old.state.active = true ∧ Stays Rowless old new
  | _ => False

theorem recoverOne_effects {rows : List (Operation I)} {op : Operation I} (hop : op ∈ rows)
    {s : List String × Nat} : Does (fun e => e.setting = s) (Recovers rows) (fun _ => True)
      (recoverOne op) := by
  -- each branch moves an unfinished record and saves it
  have hsave : ∀ {target : State} {f : Operation I → Operation I}, op.state.active = true →
      (∀ op', Stays Rowless op op' → Stays Rowless op (f op')) →
      Does (fun e => e.setting = s) (Recovers rows) (fun _ => True) (do
        let op ← liftE (transition op target)
        Store.save (f op) : M I Unit) := by
    intro target f hact hf
    refine .bind (Q := Stays Rowless op) (.lift fun op' hop' => ?_) fun op' hop' =>
      .ite (fun _ => .commit ⟨op, hop, hact, hf op' hop'⟩) fun _ => .raise _
    cases ht : transition op target with
    | error e => rw [ht] at hop'; cases hop'
    | ok moved =>
      rw [ht] at hop'
      exact Except.ok.inj hop' ▸ (Stays.refl op).transition ht
  refine .ite (fun hc => ?_) fun _ => .ite (fun hc => ?_) fun _ => .ite (fun hc => ?_) fun _ =>
    .pure trivial
  · exact hsave (f := id) (by rw [hc.2]; rfl) fun _ h => h
  · exact hsave (f := fun op => { op with
      commitEvidence := (∅ : Record).set "attribution" (.str "unknown")
      reason := some Reason.outcomeUnknown.value }) (by rw [hc]; rfl) fun _ h => h.learn rfl rfl
  · exact hsave (f := id) (by rw [hc]; rfl) fun _ h => h

theorem start_orderly (processId : String) {j : Journal I} (h : Tidy holdsRows pod j) :
    Orderly pod (start processId pod j) := by
  generalize hw : ({ engine := { processId := processId, backends := [pod] }, journal := j } :
    Site I) = w
  have hj : w.journal = j := hw ▸ rfl
  have hs : w.engine.setting = ([pod], 10000) := hw ▸ rfl
  have hall : ∀ rest : List (Operation I), (∀ op ∈ rest, op ∈ j.operations) →
      Does (fun e => e.setting = ([pod], 10000)) (Recovers j.operations) (fun _ => True)
        (recoverFrom rest) := by
    intro rest
    induction rest with
    | nil => exact fun _ => .pure trivial
    | cons op rest ih =>
      intro hrest
      exact .bind (recoverOne_effects (hrest op List.mem_cons_self)) fun _ _ =>
        ih fun op hop => hrest op (List.mem_cons_of_mem _ hop)
  have hrun : wp (recover : M I Unit) (fun _ p' => p'.memory.setting = ([pod], 10000) ∧
      (Tidy holdsRows pod p'.journal ∧
        ∀ old ∈ j.operations, old.state.active = true → Tidy.Last old.operationId p'.journal))
      w.process := by
    rw [recover, wp_bind, wp_journal]
    refine wp_mono (hall _ (fun op hop => hj ▸ hop) w.process hs) ?_
    rintro _ p' ⟨hw, hs', -⟩
    refine ⟨hs', hw.wrote.preserves (Q := fun j' => Tidy holdsRows pod j' ∧ ∀ old ∈ j.operations,
      old.state.active = true → Tidy.Last old.operationId j') (fun j' v hv hj' => ?_) ?_⟩
    · cases v with
      | add | conflict | release => exact hv.elim
      | save new =>
        obtain ⟨old, hold, hact, hstays⟩ := hv
        refine ⟨hj'.1.save ?_ ?_ (.inr ?_), fun o ho hao => (hj'.2 o ho hao).save holdsRows⟩
        · exact (congrArg IntentType.podId hstays.intent_eq).trans (h.pods old hold)
        · exact holdsRows_of_stays hstays (h.free old hold)
        · exact hstays.id_eq ▸ hj'.2 old hold hact
    · rw [show w.process.journal = j from hj]
      exact ⟨h, fun old hold hact => h.last_of_active hold hact⟩
  obtain ⟨hs', htidy, -⟩ := call_of_wp
    (R := fun _ e j' => e.setting = ([pod], 10000) ∧ (Tidy holdsRows pod j' ∧
      ∀ old ∈ j.operations, old.state.active = true → Tidy.Last old.operationId j')) hrun
  exact ⟨by rw [start, hw]; exact hs', by rw [start, hw]; exact htidy⟩

theorem perform_orderly {env : Env I} {r : Request I} {target : Record} {b : Replies}
    (h : Orderly pod w) (hidle : ∀ op ∈ w.journal.operations, op.state.active = false)
    (hadm : Admissible env r target w.process) (hpod : r.podId = pod)
    (hfresh : r.operationId ∉ w.journal.issued)
    (hsubmit : ∀ result, b.submit = .ok result → Rowless result.evidence) :
    Orderly pod (w.call (perform env r b)).2 ∧
      ∃ fingerprint, ∃ op ∈ (w.call (perform env r b)).2.journal.operations,
        op.origin = (r.operation env fingerprint).origin := by
  have hnone : w.journal.get? r.operationId = none := by
    rw [Journal.get?, List.find?_eq_none]
    intro op hop he
    exact hfresh (decide_eq_true_eq.mp he ▸ h.tidy.distinct.issued op hop)
  obtain ⟨fingerprint, heff⟩ := perform_effects (s := ([pod], 10000)) hadm hnone h.setting
    rowless_unknown hsubmit
  generalize hop : r.operation env fingerprint = op at heff
  have hpod' : op.podId = pod := hop ▸ hpod
  have hfree : holdsRows op = false := hop ▸ rfl
  have hmade : Tidy.Made holdsRows pod Rowless op (journaled env r op w.process).journal :=
    h.tidy.made_of_add hidle (hop ▸ hfresh) hpod' hfree
  -- the working phase keeps the journal tidy and the record there
  have hrun : wp (perform env r b) (fun _ p' => p'.memory.setting = ([pod], 10000) ∧
      Tidy.Made holdsRows pod Rowless op p'.journal) w.process := by
    refine wp_mono heff ?_
    rintro _ p' ⟨hw, hs⟩
    refine ⟨hs, hw.preserves (Q := Tidy.Made holdsRows pod Rowless op) (fun j v hv hj => ?_) hmade⟩
    exact hj.written (fun _ _ => holdsRows_of_stays) ⟨hpod', hfree⟩
      (fun q hq => ⟨hmade.tidy.pods q hq, hmade.tidy.free q hq⟩) hv
  obtain ⟨hs, hend⟩ := call_of_wp (R := fun _ e j => e.setting = ([pod], 10000) ∧
    Tidy.Made holdsRows pod Rowless op j) hrun
  obtain ⟨row, hrow, hstays⟩ := hend.held
  exact ⟨⟨hs, hend.tidy⟩, fingerprint, row, Journal.get?_mem hrow, hop ▸ hstays.origin⟩

end Site

end Emosa
