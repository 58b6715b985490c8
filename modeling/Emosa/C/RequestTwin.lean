import Emosa.C.Alike

/-!
# Emosa.C.RequestTwin

A request in both engines. Both settle the unfinished writes of earlier starts while they look for an
operation that holds the pod: the one then reads the journal again, the other carries a flag through
the loop.

* `Same.save`: both save a record.
* `settleOthers_twin`, `owned_twin`, `reject_twin`, `grant_twin`: the parts of a request.
* `request_twin`: a request that is `Fitting`.
-/

namespace Emosa.C

open Durable Engine List Bool

variable {I : Type} [IntentType I] {pod : String} {busy : Bool}
variable {p : EngineProc I} {q : Process I} {a b : Operation I}

theorem emEngineSave_valid (h : b.valid = true) : emEngineSave b q = q.commit (.save b) := if_pos h

theorem requested_of_save {j : Journal I} {id : String} (hst : a.state ≠ .requested)
    (h : (apply j (.save a)).state? id = some .requested) : j.state? id = some .requested := by
  by_cases hid : id = a.operationId
  · subst hid
    cases hget : j.get? a.operationId with
    | none =>
      have hsame : apply j (.save a) = j := Journal.get?_save_none hget
      rw [hsame] at h
      exact h
    | some old =>
      have hsaved : (apply j (.save a)).get? a.operationId = some a := Journal.get?_save_self hget
      rw [Journal.state?, hsaved] at h
      exact absurd (Option.some.inj h) hst
  · have hsaved : (apply j (.save a)).get? id = j.get? id := Journal.get?_save_ne j hid
    rw [Journal.state?, hsaved] at h
    exact h

theorem Same.save (h : Same pod busy p q) (hab : Alike a b) (hfit : Fit a)
    (hst : a.state ≠ .requested) : Same pod busy (p.commit (.save a)) (emEngineSave b q) := by
  rw [emEngineSave_valid (hab.valid.trans hfit.valid)]
  refine ⟨h.memory, h.journal.save hab hfit, fun id hid => h.guards id (hid.imp_right fun hs => ?_)⟩
  exact requested_of_save hst hs

theorem Same.remember (h : Same pod busy p q) {busy' : Bool} {e : Engine} {f : EmEngine}
    (hm : SameMemory pod busy' e f) (hguards : e.wscGuards = p.memory.wscGuards)
    (hop : f.wscOp = q.memory.wscOp) :
    Same pod busy' { p with memory := e } { q with memory := f } :=
  ⟨hm, h.journal, fun id hid => by rw [hguards, hop]; exact h.guards id hid⟩

/-! ## Writes of earlier starts -/

/-- The write is unfinished, and of another start than this one. -/
def stranded (current : Option String) (op : Operation I) : Bool :=
  (op.state = .configCommitted || op.state = .indeterminate) &&
    Engine.writtenOnAnotherStart op current

variable {current : Option String}

omit [IntentType I] in
theorem stranded_iff {op : Operation I} :
    stranded current op = true ↔ (op.state = .configCommitted ∨ op.state = .indeterminate) ∧
      writtenOnAnotherStart op current = true := by
  simp [stranded]

theorem Fit.settled (h : Fit a) : Fit (settled a) :=
  { h with observed := nofun }

/-- The record an unfinished write of an earlier start is saved as. -/
def stopped (op : Operation I) : Operation I := because { op with state := .failed } .notReady

omit [IntentType I] in
theorem Alike.stopped (h : Alike a b) (hs : a.state ≠ .rejected) : Alike (settled a) (stopped b) := by
  obtain ⟨plan, fingerprint, rfl, hplan⟩ := h
  exact ⟨plan, fingerprint, rfl, fun _ => hplan hs⟩

omit [IntentType I] in
theorem emTransition_failed (h : b.state = .configCommitted ∨ b.state = .indeterminate) :
    emTransition b .failed = some { b with state := .failed } := by
  rcases h with h | h <;> simp [emTransition, h, State.next]

theorem settleRestarted_eq (hfit : Fit a) (hab : Alike a b) (current : Option String) :
    settleRestarted b current q =
      if stranded (current.filter (· ≠ "")) a then some (stopped b, emEngineSave (stopped b) q)
      else none := by
  have hstate := hab.state
  have hwritten : writtenInstance b = writtenInstance a := by
    obtain ⟨plan, fingerprint, rfl, -⟩ := hab
    rfl
  unfold settleRestarted stranded
  rw [hwritten, writtenOnAnotherStart_eq hfit]
  cases writtenInstance a with
  | none => simp
  | some written =>
    cases current with
    | none => simp
    | some current =>
      by_cases hcur : current = ""
      · simp [hcur]
      by_cases hdue : a.state = .configCommitted ∨ a.state = .indeterminate
      · have hfailed := emTransition_failed (by rwa [hstate])
        simp [hstate, hcur, hfailed, Option.filter_some, stopped]
      · simp [hstate, hdue]

theorem settleRestarted_twin (h : Same pod busy p q) (hab : Alike a b) (hfit : Fit a)
    (current : Option String) :
    wp (Engine.settleRestarted a (current.filter (· ≠ ""))) (fun r p' =>
      r = .ok (stranded (current.filter (· ≠ "")) a) ∧
      p' = (if stranded (current.filter (· ≠ "")) a then p.commit (.save (settled a)) else p) ∧
      Same pod busy p' (((settleRestarted b current q).map Prod.snd).getD q)) p := by
  rw [wp_settleRestarted hfit.valid, settleRestarted_eq hfit hab]
  cases hs : stranded (current.filter (· ≠ "")) a with
  | true =>
    have hdue := stranded_iff.mp hs
    have hrej : a.state ≠ .rejected := fun he => by rw [he] at hdue; simp at hdue
    rw [if_pos hdue]
    exact ⟨rfl, rfl, h.save (hab.stopped hrej) hfit.settled (by simp [settled])⟩
  | false =>
    have hdue : ¬ _ := fun hc => false_ne_true (hs.symm.trans (stranded_iff.mpr hc))
    rw [if_neg hdue]
    exact ⟨rfl, rfl, h⟩

/-! ## Requests -/

/-- The row keeps the pod from an operation of this ID, once stranded writes are settled. -/
def blocks (pod id : String) (current : Option String) (row : Operation I) : Bool :=
  row.podId = pod ∧ row.operationId ≠ id ∧ row.state.active ∧ !stranded current row

def swept (pod id : String) (current : Option String) (row : Operation I) : Operation I :=
  if row.podId = pod ∧ row.operationId ≠ id ∧ stranded current row = true then settled row else row

theorem blocks_mine {id : String} (h : a.podId = pod ∧ a.operationId ≠ id) :
    blocks pod id current a = (a.state.active && !stranded current a) := by
  simp [blocks, h.1, h.2]

theorem swept_mine {id : String} (h : a.podId = pod ∧ a.operationId ≠ id) :
    swept pod id current a = if stranded current a then settled a else a := by
  simp [swept, h.1, h.2]

omit [IntentType I] in
theorem save_split {done rest : List (Operation I)} {row new : Operation I}
    (hn : ((done ++ row :: rest).map Operation.operationId).Nodup)
    (hid : new.operationId = row.operationId) :
    ((done ++ row :: rest).map fun r => if r.operationId = new.operationId then new else r) =
      done ++ new :: rest := by
  rw [map_append, nodup_append] at hn
  have hdone : (done.map fun r => if r.operationId = new.operationId then new else r) = done := by
    refine (map_congr_left fun r hr => ?_).trans (map_id _)
    refine if_neg fun he => ?_
    exact hn.2.2 _ (mem_map_of_mem hr) _ mem_cons_self (he.trans hid)
  have hrest : (rest.map fun r => if r.operationId = new.operationId then new else r) = rest := by
    refine (map_congr_left fun r hr => ?_).trans (map_id _)
    refine if_neg fun he => ?_
    exact (nodup_cons.mp hn.2.1).1 (hid ▸ he ▸ mem_map_of_mem hr)
  rw [map_append, map_cons, hdone, hrest, if_pos hid.symm]

/-- Both loops over the other operations of the pod settle the same writes, and the flag of the one
is what the other then reads in the journal. -/
structure Swept (pod : String) (busy : Bool) (id : String) (current : Option String) (active : Bool)
    (p : EngineProc I) (done rows : List (Operation I)) (out : Bool × Process I)
    (r : Except Exn Unit) (p' : EngineProc I) : Prop where
  result : r = .ok ()
  memory : p'.memory = p.memory
  operations : p'.journal.operations = done ++ rows.map (swept pod id current)
  same : Same pod busy p' out.2
  flag : out.1 = (active || rows.any (blocks pod id current))

theorem settleOthers_twin (id : String) {last : String} {rows rows' : List (Operation I)}
    (hrows : List.Forall₂ Alike rows rows') (hfit : ∀ row ∈ rows, Fit row) (active : Bool)
    {done : List (Operation I)} (h : Same pod busy p q) (hlast : q.memory.lastInstance = last)
    (hj : p.journal.operations = done ++ rows) :
    wp (Engine.settleOthers pod id ((some last).filter (· ≠ "")) rows)
      (Swept pod busy id ((some last).filter (· ≠ "")) active p done rows
        (settleOthers id active rows' q)) p := by
  induction hrows generalizing p q done active with
  | nil => exact ⟨rfl, rfl, hj, h, by simp [settleOthers]⟩
  | @cons a b rest rest' hab _ ih =>
    have hrest : ∀ row ∈ rest, Fit row := fun row hrow => hfit row (mem_cons_of_mem _ hrow)
    have hpod : (b.podId = q.memory.podId ∧ b.operationId ≠ id) ↔ (a.podId = pod ∧ a.operationId ≠ id) := by
      rw [hab.podId, hab.id, h.memory.podId]
    -- a turn of the loops, and then the rest of them
    have hturn : ∀ (row : Operation I) (p₁ : EngineProc I) (q₁ : Process I)
        (flag : Bool), p₁.memory = p.memory → p₁.journal.operations = done ++ row :: rest →
        Same pod busy p₁ q₁ → q₁.memory.lastInstance = last →
        swept pod id ((some last).filter (· ≠ "")) a = row →
        flag = (active || blocks pod id ((some last).filter (· ≠ "")) a) →
        wp (Engine.settleOthers pod id ((some last).filter (· ≠ "")) rest)
          (Swept pod busy id ((some last).filter (· ≠ "")) active p done (a :: rest)
            (settleOthers id flag rest' q₁)) p₁ := by
      intro row p₁ q₁ flag hmem hops hsame hlast₁ hrow hflag
      have hops' : p₁.journal.operations = (done ++ [row]) ++ rest := by simp [hops]
      refine wp_mono (ih hrest flag hsame hlast₁ hops') ?_
      rintro r p₂ ⟨hr, hm, ho, hs, hf⟩
      refine ⟨hr, hm.trans hmem, ?_, hs, ?_⟩
      · rw [ho, map_cons, hrow, append_assoc]
        rfl
      · rw [hf, hflag, any_cons, Bool.or_assoc]
    unfold Engine.settleOthers settleOthers
    by_cases hmine : a.podId = pod ∧ a.operationId ≠ id
    · rw [if_pos hmine, if_pos (hpod.mpr hmine), wp_bind]
      refine wp_mono (settleRestarted_twin h hab (hfit a mem_cons_self) (some last)) ?_
      rintro _ p₁ ⟨rfl, hp₁, hsame⟩
      rw [settleRestarted_eq (hfit a mem_cons_self) hab] at hsame
      rw [hlast, settleRestarted_eq (hfit a mem_cons_self) hab]
      cases hs : stranded ((some last).filter (· ≠ "")) a with
      | true =>
        rw [hs] at hp₁ hsame
        subst hp₁
        refine hturn (settled a) _ _ _ rfl ?_ hsame ?_ ?_ ?_
        · have hn := h.journal.distinct.nodup
          rw [hj] at hn
          show (p.journal.operations.map _) = _
          rw [hj]
          exact save_split hn rfl
        · rw [emEngineSave_memory]
          exact hlast
        · rw [swept_mine hmine, hs, if_pos rfl]
        · have hstate : (stopped b).state.active = false := rfl
          rw [blocks_mine hmine, hs, hstate, Bool.not_true, Bool.and_false]
      | false =>
        rw [hs] at hp₁ hsame
        subst hp₁
        refine hturn a _ _ _ rfl hj hsame hlast ?_ ?_
        · rw [swept_mine hmine, hs]
          rfl
        · rw [blocks_mine hmine, hs, Bool.not_false, Bool.and_true, hab.state]
    · rw [if_neg hmine, if_neg fun hc => hmine (hpod.mp hc)]
      refine hturn a _ _ _ rfl hj h hlast ?_ ?_
      · have hnot : ¬ (a.podId = pod ∧ a.operationId ≠ id ∧
            stranded ((some last).filter (· ≠ "")) a = true) := fun hc => hmine ⟨hc.1, hc.2.1⟩
        rw [swept, if_neg hnot]
      · have hnot : blocks pod id ((some last).filter (· ≠ "")) a = false := by
          simp only [blocks, decide_eq_false_iff_not]
          exact fun hc => hmine ⟨hc.1, hc.2.1⟩
        rw [hnot, Bool.or_false]

/-- Both answer alike, and are the same afterwards. -/
def Answered (pod : String) (busy : Bool) (out : Operation I × Process I) (r : Except Exn (Operation I))
    (p' : EngineProc I) : Prop :=
  ∃ a, r = .ok a ∧ Alike a out.1 ∧ Same pod busy p' out.2

theorem Fit.rejected (h : Fit a) (reason : Reason) : Fit (rejected a reason) :=
  { h with observed := nofun }

omit [IntentType I] in
theorem emTransition_rejected (h : b.state = .requested ∨ b.state = .validated) :
    emTransition b .rejected = some { b with state := .rejected } := by
  rcases h with h | h <;> simp [emTransition, h, State.next]

theorem reject_twin (h : Same pod busy p q) (hfit : Fit a)
    (hst : a.state = .requested ∨ a.state = .validated) (reason : Reason) (plan : Option Record)
    (fingerprint : Option String) :
    wp (Engine.reject a reason) (Answered pod busy
      (reject { a with plan := plan, schemaFingerprint := fingerprint } reason q)) p := by
  have hmoved : reject { a with plan := plan, schemaFingerprint := fingerprint } reason q =
      ({ rejected a reason with plan := plan, schemaFingerprint := fingerprint },
        emEngineSave { rejected a reason with plan := plan, schemaFingerprint := fingerprint } q) := by
    have ht := emTransition_rejected
      (b := { a with plan := plan, schemaFingerprint := fingerprint }) hst
    rw [reject, moved, ht]
    rfl
  have hab : Alike (rejected a reason)
      { rejected a reason with plan := plan, schemaFingerprint := fingerprint } :=
    ⟨plan, fingerprint, rfl, fun hc => absurd rfl hc⟩
  rw [wp_reject hst, if_pos hfit.valid, hmoved]
  exact ⟨_, rfl, hab, h.save hab (hfit.rejected reason) (by simp [rejected])⟩

theorem owned_twin (h : Same pod busy p q) :
    wp (owned pod : M I (Option Ownership)) (fun r p' => r = .ok (currentOwnership q).1 ∧
      p'.memory = p.memory ∧ p'.journal.operations = p.journal.operations ∧
      Same pod busy p' (currentOwnership q).2) p := by
  rw [wp_owned]
  unfold currentOwnership
  rw [h.memory.podId, h.journal.ownership]
  cases hrec : p.journal.ownership.get? pod with
  | none => exact ⟨rfl, rfl, rfl, h⟩
  | some record =>
    have hseen := h.journal.seen pod record hrec
    have houtdated : outdated record (p.memory.instances.get? pod) = true ↔
        q.memory.lastInstance ≠ "" ∧ record.instanceId.any (· ≠ q.memory.lastInstance) = true := by
      rw [h.memory.start]
      unfold outdated
      by_cases hlast : q.memory.lastInstance = ""
      · simp [hlast]
      cases hinst : record.instanceId with
      | none => simp
      | some seen =>
        have hne : seen ≠ "" := fun he => hseen (by rw [hinst, he])
        simp [hlast, hne, Option.filter_some]
    dsimp only
    by_cases hout : outdated record (p.memory.instances.get? pod) = true
    · rw [if_pos hout, if_pos (houtdated.mp hout)]
      exact ⟨rfl, rfl, rfl, h.memory, h.journal.release pod, h.guards⟩
    · rw [if_neg hout, if_neg fun hc => hout (houtdated.mpr hc)]
      exact ⟨rfl, rfl, rfl, h⟩

theorem held_swept {id : String} (rows : List (Operation I)) :
    ((rows.map (swept pod id current)).any fun row =>
      row.podId = pod ∧ row.state.active ∧ row.operationId ≠ id) = rows.any (blocks pod id current) := by
  rw [any_map]
  congr 1
  funext row
  by_cases hs : row.podId = pod ∧ row.operationId ≠ id ∧ stranded current row = true
  · have hactive : (settled row).state.active = false := rfl
    simp [swept, blocks, hs, hactive]
  · simp only [Function.comp_apply, swept, if_neg hs, blocks, decide_eq_decide]
    constructor
    · intro hc
      exact ⟨hc.1, hc.2.2, hc.2.1, by simpa [hc.1, hc.2.2] using hs⟩
    · intro hc
      exact ⟨hc.1, hc.2.2.1, hc.2.1⟩

theorem grant_twin (h : Same pod busy p q) {r : Request I} (hpod : r.podId = pod)
    (hfit : Fit a) (hst : a.state = .requested) :
    wp (Engine.grant r a) (Answered pod busy (grant a q)) p := by
  have hrows := h.journal.rows
  unfold Engine.grant grant
  simp only [wp_bind, wp_memory, wp_journal, hpod, h.memory.start, h.memory.busy]
  have hloops := settleOthers_twin a.operationId hrows h.journal.fit busy h rfl
    (nil_append p.journal.operations).symm
  refine wp_mono hloops ?_
  generalize settleOthers a.operationId busy q.journal.operations q = out
  intro res p₁ hswept
  obtain ⟨rfl, hmem, hops, hsame, hflag⟩ := hswept
  have hheld : held p₁.memory p₁.journal pod a.operationId = out.1 := by
    rw [held, hops, nil_append, held_swept, hflag, hmem, h.memory.quiesced,
      h.memory.executing]
    cases busy <;> simp
  obtain ⟨flag, q₁⟩ := out
  rw [hheld]
  cases flag with
  | true => exact reject_twin hsame hfit (.inl hst) .busy a.plan a.schemaFingerprint
  | false =>
    simp only [false_eq_true, if_false, wp_bind]
    refine wp_mono (owned_twin hsame) ?_
    generalize currentOwnership q₁ = owner
    obtain ⟨record, q₂⟩ := owner
    intro res p₂ howned
    obtain ⟨rfl, -, -, hsame₂⟩ := howned
    cases record with
    | none => exact ⟨a, rfl, .refl a, hsame₂⟩
    | some record =>
      exact reject_twin hsame₂ hfit (.inl hst) .ownershipConflict a.plan a.schemaFingerprint

/-! ### The journal entry -/

section Twin

variable {env : Env I} {i : I}

theorem twin_target {target : Record} (h : IntentType.target env.vault i = .ok target) :
    (twin env).target i = .ok target := by
  simp only [twin, h, Except.mapError]

theorem twin_target_error {e : EmosaError} (h : IntentType.target env.vault i = .error e) :
    (twin env).target i = .error e.code := by
  simp only [twin, h, Except.mapError]

theorem twin_fingerprint (target : Record) :
    (twin env).fingerprint i target = some (env.vault.fingerprintIntent i target) := rfl

end Twin

theorem bound_iff (processId : String) (a : Operation I) (receipt : Receipt) :
    bound processId a receipt = true ↔ Store.bound processId a receipt = .ok true := by
  unfold bound Store.bound
  split
  · rename_i hne
    grind
  · rename_i heq
    cases hradio : IntentType.radioId a.intent with
    | none => simp
    | some radio =>
      cases hbss : IntentType.bssId a.intent <;> grind

/-- Both journal the operation, or neither does. -/
inductive Entered (a : Operation I) (receipt : Option Receipt) (p : EngineProc I)
    (q : Process I) : Except Exn Unit → EngineProc I → Prop
  | added (hvalid : a.valid = true)
      (hright : emJournalAdd a receipt q = .ok (q.commit (.add a receipt))) :
      Entered a receipt p q (.ok ()) (p.commit (.add a receipt))
  | refused (x : Exn) (why : Reason) (hright : emJournalAdd a receipt q = .error why) :
      Entered a receipt p q (.error x) p

theorem add_twin (hm : SameMemory pod busy p.memory q.memory)
    (hlen : q.journal.operations.length = p.journal.operations.length) (receipt : Option Receipt) :
    wp (Store.add a receipt) (Entered a receipt p q) p := by
  unfold Store.add
  by_cases hvalid : a.valid = false
  · rw [if_pos hvalid]
    exact .refused _ .invalidInput (if_pos (.inl hvalid))
  have hv : a.valid = true := by simpa using hvalid
  rw [if_neg hvalid]
  -- the budget is the last check in both
  have hbudget : ((a.valid = false ∨ receipt.any (!·.valid) = true) → False) →
      (receipt.any (!bound q.memory.processId a ·) = true → False) →
      ((receipt = none ∧ a.initiatingInterface = "wsc-component") → False) →
      wp (do
        if (← memory).maxOperations ≤ (← journal).operations.length then
          fail .busy "journal operation budget exhausted; archive before reuse"
        else commit (.add a receipt) : M I Unit) (Entered a receipt p q) p := by
    intro h₁ h₂ h₃
    have hright : emJournalAdd a receipt q = if emMaxOperations ≤ q.journal.operations.length then
        .error .busy else .ok (q.commit (.add a receipt)) := by
      rw [emJournalAdd, if_neg h₁, if_neg h₂, if_neg h₃]
    simp only [wp_bind, wp_memory, wp_journal, hm.budget, ← hlen]
    split
    · rename_i hfull
      exact .refused _ .busy (hright.trans (if_pos hfull))
    · rename_i hroom
      exact .added hv (hright.trans (if_neg hroom))
  cases receipt with
  | none =>
    simp only
    split
    · rename_i hwsc
      refine .refused _ .invalidInput ?_
      simp [emJournalAdd, hwsc]
    · rename_i hwsc
      exact hbudget (by simp [hv]) (by simp) (by simp [hwsc])
  | some receipt =>
    simp only
    split
    · rename_i hbad
      exact .refused _ .invalidInput (if_pos (.inr (by simp [hbad])))
    · rename_i hok
      have hfirst : ¬ (a.valid = false ∨ (some receipt).any (!·.valid) = true) := by
        simpa [hv] using hok
      simp only [wp_bind, wp_memory]
      have hbound := bound_iff q.memory.processId a receipt
      rw [← hm.processId]
      have hunbound : Store.bound q.memory.processId a receipt ≠ .ok true →
          emJournalAdd a (some receipt) q = .error .invalidInput := by
        intro hne
        have hfalse : bound q.memory.processId a receipt = false := by
          simpa using fun hc => hne (hbound.mp hc)
        rw [emJournalAdd, if_neg hfirst, if_pos (by simp [hfalse])]
      cases hb : Store.bound q.memory.processId a receipt with
      | error x => exact .refused x _ (hunbound (by simp [hb]))
      | ok same =>
        cases same with
        | false =>
          exact .refused _ _ (hunbound (by simp [hb]))
        | true =>
          exact hbudget hfirst (by simp [hbound.mpr hb]) (by simp)

theorem fit_requested {env : Env I} {r : Request I} {fingerprint : String}
    (hvalid : (r.operation env fingerprint).valid = true) : Fit (r.operation env fingerprint) where
  valid := hvalid
  commit := by rfl
  application _ h := by cases h
  rows := by rfl
  mapping _ h := by cases h
  observed h := by cases h

theorem SameMemory.setTimer {e : Engine} {f : EmEngine} (h : SameMemory pod busy e f) (id : String)
    (deadline : ℚ) :
    SameMemory pod busy { e with deadlines := e.deadlines.set id deadline } (setTimer f id deadline) := by
  obtain ⟨hpod, -, hbusy, hlast⟩ := setTimer_keeps f id deadline
  have hprocess : (C.setTimer f id deadline).processId = f.processId := by
    unfold C.setTimer
    split <;> rfl
  refine ⟨h.backends, hpod.trans h.podId, hprocess.trans h.processId, h.budget, h.executing,
    hbusy.trans h.busy, h.quiesced, by rw [hlast]; exact h.start, fun t ht hne => ?_⟩
  have hother : ∀ t ∈ f.timers, t.id ≠ "" → t.id ≠ id →
      (e.deadlines.set id deadline).get? t.id = some t.deadline :=
    fun t ht hne hid => (Dict.get?_set_ne _ _ hid).trans (h.timers t ht hne)
  unfold C.setTimer at ht
  split at ht
  · obtain ⟨t', ht', rfl⟩ := mem_map.mp ht
    by_cases hid : t'.id = id
    · rw [if_pos hid]
      exact hid ▸ Dict.get?_set_self e.deadlines t'.id deadline
    · rw [if_neg hid] at hne ⊢
      exact hother t' ht' hne hid
  · rename_i hnone
    have hnot : ∀ t ∈ f.timers, t.id ≠ id := by simpa [timer] using hnone
    rcases mem_append.mp ht with hold | hnew
    · have hmem : t ∈ f.timers := by
        split at hold
        · exact mem_of_mem_drop hold
        · exact hold
      exact hother t hmem hne (hnot t hmem)
    · rw [mem_singleton.mp hnew] at hne ⊢
      by_cases hsize : id.utf8ByteSize ≤ 36
      · simp only [if_pos hsize]
        exact Dict.get?_set_self ..
      · exact absurd (if_neg hsize) hne

/-- The process with a request's operation journaled and its deadline known. -/
def entered (env : Env I) (r : Engine.Request I) (op : Operation I)
    (p : EngineProc I) : EngineProc I :=
  { p.commit (.add op r.wscReceipt) with
    memory := { p.memory with
      deadlines := p.memory.deadlines.set op.operationId (env.monotonic + r.deadline) } }

theorem Same.journaled (h : Same pod busy p q) (env : Env I) {r : Request I}
    (hfit : Fit a) (hnew : a.operationId ∉ p.journal.issued) :
    Same pod busy (entered env r a p) (journaled (twin env) r a q) := by
  have hop : (C.setTimer q.memory a.operationId (env.monotonic + r.deadline)).wscOp =
      q.memory.wscOp := by
    unfold C.setTimer
    split <;> rfl
  refine ⟨h.memory.setTimer _ _, h.journal.add hfit hnew r.wscReceipt, fun id hid => ?_⟩
  show id ∈ p.memory.wscGuards ↔ (C.setTimer q.memory a.operationId _).wscOp = some id
  rw [show (twin env).monotonic = env.monotonic from rfl, hop]
  refine h.guards id ?_
  by_cases he : id = a.operationId
  · exact .inl (he ▸ hnew)
  rcases hid with hfresh | hstate
  · exact .inl fun hc => hfresh (mem_cons_of_mem _ hc)
  · refine .inr ?_
    have hget : (apply p.journal (.add a r.wscReceipt)).get? id = _ :=
      Journal.get?_add_ne p.journal r.wscReceipt he
    rw [Journal.state?, show (entered env r a p).journal.get? id = _ from hget] at hstate
    split at hstate
    · exact hstate
    · cases hstate

/-- Both answer alike or not at all, and are the same afterwards. -/
def Agreed (pod : String) (busy : Bool) (out : Option (Operation I) × Process I)
    (r : Except Exn (Operation I)) (p' : EngineProc I) : Prop :=
  Option.Rel Alike r.toOption out.1 ∧ Same pod busy p' out.2

theorem Answered.agreed {out : Operation I × Process I} {r : Except Exn (Operation I)}
    {p' : EngineProc I} (h : Answered pod busy out r p') :
    Agreed pod busy (some out.1, out.2) r p' := by
  obtain ⟨a, rfl, hab, hsame⟩ := h
  exact ⟨.some hab, hsame⟩

theorem SameJournal.lookup {j : Journal I} {k : EmJournal I} (h : SameJournal j k)
    (source pod key : String) : Option.Rel Alike (j.lookup source pod key) (k.lookup source pod key) :=
  Related.find? h.rows fun a b hab => by
    obtain ⟨plan, fingerprint, rfl, -⟩ := hab
    rfl

theorem request_twin (h : Same pod busy p q) {env : Env I} {r : Request I}
    (hnew : r.operationId ∉ p.journal.issued)
    (hkey : 128 < r.key.length ↔ 128 < r.key.utf8ByteSize)
    (hvalid : ∀ target, IntentType.target env.vault r.intent = .ok target →
      IntentType.validate r.intent = .ok ()) :
    wp (requestInternal env r)
      (Agreed pod busy ((emEngineRequest (twin env) r q).1.toOption, (emEngineRequest (twin env) r q).2))
      p := by
  -- what neither of them answers leaves both as they are
  have hnone : ∀ (why : Reason) (x : Exn),
      Agreed pod busy ((Except.error why : Except Reason (Operation I)).toOption, q) (.error x) p :=
    fun _ _ => ⟨.none, h⟩
  unfold requestInternal emEngineRequest
  simp only [wp_bind, wp_liftE]
  cases htarget : IntentType.target env.vault r.intent with
  | error e =>
    rw [twin_target_error htarget]
    split
    · split
      · exact hnone _ _
      split
      · exact hnone _ _
      simp only [wp_bind, wp_memory]
      split
      · exact hnone _ _
      · simp only [wp_bind]
        exact hnone _ _
    · exact hnone _ _
  | ok target =>
    rw [hvalid target htarget, twin_target htarget]
    simp only [twin_fingerprint]
    split
    · exact hnone _ _
    simp only [hkey]
    split
    · exact hnone _ _
    simp only [wp_bind, wp_memory, h.memory.backends, mem_singleton, h.memory.podId]
    split
    · exact hnone _ _
    rename_i hpod
    have hpod : r.podId = pod := Decidable.not_not.mp hpod
    simp only [wp_bind, wp_liftE, wp_journal]
    have hlookup := h.journal.lookup r.source pod r.key
    rw [hpod]
    generalize p.journal.lookup r.source pod r.key = old at hlookup ⊢
    generalize q.journal.lookup r.source pod r.key = old' at hlookup ⊢
    generalize hfp : env.vault.fingerprintIntent r.intent target = fingerprint
    cases hlookup with
    | @some old old' hab =>
      have hsame : old'.intentFingerprint = old.intentFingerprint := by
        obtain ⟨plan, schema, rfl, -⟩ := hab
        rfl
      simp only [hsame]
      split
      · exact hnone _ _
      · exact ⟨.some hab, h⟩
    | none =>
      simp only [wp_bind]
      refine wp_mono (add_twin h.memory h.journal.rows.length_eq.symm r.wscReceipt) ?_
      intro res p' hentered
      rw [show newOperation (twin env) r fingerprint = r.operation env fingerprint from rfl]
      cases hentered with
      | refused x why hright =>
        simp only [hright]
        exact hnone _ _
      | added hok hright =>
        simp only [hright]
        have hfit := fit_requested hok
        have hsame := h.journaled env (r := r) hfit hnew
        simp only [wp_remember]
        exact wp_mono (grant_twin hsame hpod hfit rfl) fun _ _ hans => Answered.agreed hans

end Emosa.C
