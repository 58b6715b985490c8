import Emosa.Engine.Lawful

/-!
# Emosa.Engine.Specs

A request commits only what is permitted. The loops over the journal
work on a list read before they start; `Current` says that the rest of the list is still what the
journal holds, since a turn of the loop touches only its own record.

* `wp_get`, `wp_save`, `wp_settleRestarted`, `wp_reject`, `wp_owned`: what the parts of the calls do.
* `requestInternal_follows`: a request, with what it leaves in the journal.
-/

namespace Emosa

open Durable Engine Journal

variable {I : Type} [IntentType I] {α : Type}
variable {c : Context I} {j₀ : Journal I} {p : EngineProc I}

@[simp] theorem wp_fail {Q : Except Exn α → EngineProc I → Prop}
    (code : Reason) (message : String) :
    wp (fail code message : M I α) Q p ↔ Q (.error (.emosa ⟨code, message⟩)) p := Iff.rfl

theorem wp_liftE {Q : Except Exn α → EngineProc I → Prop}
    (r : Except EmosaError α) :
    wp (liftE r : M I α) Q p ↔
      match r with
      | .ok a => Q (.ok a) p
      | .error e => Q (.error (.emosa e)) p := by
  cases r <;> exact Iff.rfl

variable {Q : Except Exn (Operation I) → EngineProc I → Prop}

theorem wp_get (id : String) : wp (Store.get id) Q p ↔
      match p.journal.get? id with
      | some op => Q (.ok op) p
      | none => Q (.error (.emosa ⟨.notFound, "operation not found"⟩)) p := by
  simp only [Store.get, wp_bind, wp_journal]
  cases p.journal.get? id <;> simp

theorem wp_save {Q : Except Exn Unit → EngineProc I → Prop}
    (op : Operation I) :
    wp (Store.save op) Q p ↔
      if op.valid then Q (.ok ()) (p.commit (.save op))
      else Q (.error (.emosa ⟨.invalidInput, "invalid operation contract"⟩)) p := by
  unfold Store.save
  split <;> simp

/-! ## Lists read before a loop -/

/-- The records of `rows` are what the journal holds under their IDs. -/
structure Current (j : Journal I) (rows : List (Operation I)) : Prop where
  nodup : (rows.map Operation.operationId).Nodup
  held : ∀ row ∈ rows, j.get? row.operationId = some row

theorem Sound.current {j : Journal I} (h : Sound j) : Current j j.operations :=
  ⟨h.distinct.nodup, fun _ hrow => h.get? hrow⟩

/-- Only the record of `id` may differ. -/
def Untouched (id : String) (j j' : Journal I) : Prop := ∀ k, k ≠ id → j'.get? k = j.get? k

omit [IntentType I] in
theorem Untouched.refl (id : String) (j : Journal I) : Untouched id j j := fun _ _ => rfl

theorem Untouched.save (j : Journal I) (op : Operation I) :
    Untouched op.operationId j (Durable.apply j (.save op)) := fun _ hk => get?_save_ne j hk

variable {op : Operation I}

omit [IntentType I] in
theorem Current.tail {j j' : Journal I} {rest : List (Operation I)} (h : Current j (op :: rest))
    (hu : Untouched op.operationId j j') : Current j' rest := by
  have hn := h.nodup
  rw [List.map_cons, List.nodup_cons] at hn
  refine ⟨hn.2, fun row hrow => ?_⟩
  have hne : row.operationId ≠ op.operationId := fun he =>
    hn.1 (he ▸ List.mem_map_of_mem hrow)
  rw [hu _ hne]
  exact h.held row (List.mem_cons_of_mem _ hrow)

/-! ## Records -/

theorem Lawful.quiet {old new : Operation I} (hid : new.operationId = old.operationId)
    (hintent : new.intent = old.intent)
    (hinterface : new.initiatingInterface = old.initiatingInterface)
    (hmoves : old.state.Moves new.state)
    (hmine : old.state = .requested ∨ old.state = .submitted →
      new.state = .cancelled ∨ c.owns old.operationId ∨
        c.adds old.operationId ∧ new.state = .rejected)
    (hreq : new.state ≠ .requested) (happ : new.state = .observedApplied → old.state = new.state)
    (hev : new.applicationEvidence = old.applicationEvidence)
    (hlate : new.lateResolution = old.lateResolution)
    (htime : new.state = .timedOut → new.deadlineElapsed = true)
    (hun : new.state.unsent = true →
      old.applicationEvidence = none ∧ old.lateResolution = none) : Lawful c old new where
  operationId := hid
  intent := hintent
  interface := hinterface
  moves := .inl hmoves
  mine := hmine
  journaled := hreq
  applied h hne := absurd (happ h ▸ h) hne
  evidence := .inl hev
  late := .inl hlate
  elapsed := htime
  unobserved h := by rw [hev, hlate]; exact hun h

def settled (op : Operation I) : Operation I :=
  { op with state := .failed, reason := some Reason.notReady.value }

theorem settled_lawful (h : op.state = .configCommitted ∨ op.state = .indeterminate) :
    Lawful c op (settled op) := by
  have hmoves : op.state.Moves .failed := by
    cases h with
    | inl h | inr h => rw [h]; decide
  have hsent : ¬ (op.state = .requested ∨ op.state = .submitted) := by
    cases h with
    | inl h | inr h => rw [h]; decide
  exact .quiet rfl rfl rfl hmoves (fun hc => absurd hc hsent) (by simp [settled])
    (by simp [settled]) rfl rfl (by simp [settled]) (by simp [settled, State.unsent])

theorem wp_settleRestarted {Q : Except Exn Bool → EngineProc I → Prop}
    {current : Option String} (hvalid : op.valid = true) :
    wp (settleRestarted op current) Q p ↔
      if (op.state = .configCommitted ∨ op.state = .indeterminate) ∧
          writtenOnAnotherStart op current = true then
        Q (.ok true) (p.commit (.save (settled op)))
      else Q (.ok false) p := by
  unfold settleRestarted
  split
  · rename_i h
    have hnext : State.failed ∈ op.state.next := by
      cases h.1 with
      | inl h | inr h => simp [h, State.next]
    have ht : transition op .failed = .ok { op with state := .failed } :=
      transition_of_next hnext (by decide) (by decide) (by decide) (by decide)
    have hv : (settled op).valid = true := hvalid
    simp only [wp_bind, wp_liftE, ht]
    exact (wp_save (settled op)).trans (by simp [hv])
  · simp

def rejected (op : Operation I) (reason : Reason) : Operation I :=
  { op with state := .rejected, reason := some reason.value }

theorem wp_reject {reason : Reason} (h : op.state = .requested ∨ op.state = .validated) :
    wp (reject op reason) Q p ↔
      if op.valid then Q (.ok (rejected op reason)) (p.commit (.save (rejected op reason)))
      else Q (.error (.emosa ⟨.invalidInput, "invalid operation contract"⟩)) p := by
  have hnext : State.rejected ∈ op.state.next := by
    cases h with
    | inl h | inr h => rw [h]; decide
  have ht : transition op .rejected = .ok { op with state := .rejected } :=
    transition_of_next hnext (by decide) (by decide) (by decide) (by decide)
  simp only [reject, wp_bind, wp_liftE, ht]
  exact (wp_save (rejected op reason)).trans (by rfl)

theorem wp_owned {Q : Except Exn (Option Ownership) → EngineProc I → Prop}
    (pod : String) :
    wp (owned pod : M I (Option Ownership)) Q p ↔
      match p.journal.ownership.get? pod with
      | none => Q (.ok none) p
      | some record =>
        if outdated record (p.memory.instances.get? pod) then
          Q (.ok none) (p.commit (.release pod))
        else Q (.ok (some record)) p := by
  simp only [owned, wp_bind, wp_journal]
  cases p.journal.ownership.get? pod with
  | none => simp
  | some record =>
    simp only [wp_bind, wp_memory]
    split <;> simp only [wp_bind, wp_commit, wp_pure]

/-! ## Requests -/

/-- The loop settles what belongs to an earlier start, and leaves the new operation's record. -/
theorem settleOthers_follows (hs : Sound j₀) {pod id : String} {current : Option String}
    {rest : List (Operation I)} (h : Follows (Permitted c) j₀ p) (hcur : Current p.journal rest) :
    wp (settleOthers pod id current rest)
      (fun r p' => r = .ok () ∧ Follows (Permitted c) j₀ p' ∧ p'.memory = p.memory ∧
        p'.journal.get? id = p.journal.get? id) p := by
  induction rest generalizing p with
  | nil => exact ⟨rfl, h, rfl, rfl⟩
  | cons q rest ih =>
    have hq := hcur.held q List.mem_cons_self
    have hvalid : q.valid = true := (hs.follows h).valid q (get?_mem hq)
    simp only [settleOthers]
    split
    · rename_i hmine
      simp only [wp_bind]
      rw [wp_settleRestarted hvalid]
      split
      · rename_i hset
        have hw : Permitted c p.journal (.save (settled q)) := by
          refine ⟨hvalid, fun old hold => ?_, fun hc => by simp [settled] at hc⟩
          have he : old = q := Option.some.inj (hold.symm.trans hq)
          rw [he]
          exact settled_lawful hset.1
        have hrest := hcur.tail (Untouched.save p.journal (settled q))
        refine wp_mono (ih (h.commit hw) hrest) ?_
        rintro r p' ⟨hr, hp', hmem, hget⟩
        refine ⟨hr, hp', hmem, hget.trans ?_⟩
        exact get?_save_ne p.journal (Ne.symm hmine.2)
      · exact ih h (hcur.tail (Untouched.refl _ _))
    · exact ih h (hcur.tail (Untouched.refl _ _))

/-- The request's operation is journaled, and no other one holds its pod. -/
def Accepted (j : Journal I) (r : Engine.Request I) : Prop :=
  (∃ op, j.get? r.operationId = some op ∧ op.podId = r.podId) ∧
  ∀ q ∈ j.operations, q.podId = r.podId → q.state.active = true → q.operationId = r.operationId

variable {r : Engine.Request I}

theorem grant_follows (hs : Sound j₀) (h : Follows (Permitted c) j₀ p)
    (hget : p.journal.get? op.operationId = some op) (hstate : op.state = .requested)
    (hid : op.operationId = r.operationId) (hpod : op.podId = r.podId)
    (hadds : c.adds op.operationId) : wp (grant r op)
      (fun _ p' => Follows (Permitted c) j₀ p' ∧ p'.memory = p.memory ∧
        (p'.journal.state? r.operationId = some .rejected ∨ Accepted p'.journal r)) p := by
  have hvalid : op.valid = true := (hs.follows h).valid op (get?_mem hget)
  -- the rejection of the new record, from any journal that still holds it
  have hreject : ∀ (p' : EngineProc I) (reason : Reason),
      Follows (Permitted c) j₀ p' → p'.memory = p.memory →
      p'.journal.get? op.operationId = some op →
      wp (reject op reason)
        (fun _ p' => Follows (Permitted c) j₀ p' ∧ p'.memory = p.memory ∧
          (p'.journal.state? r.operationId = some .rejected ∨ Accepted p'.journal r)) p' := by
    intro p' reason hp' hmem hget'
    rw [wp_reject (.inl hstate), if_pos hvalid]
    have hw : Permitted c p'.journal (.save (rejected op reason)) := by
      refine ⟨hvalid, fun old hold => ?_, fun hc => by simp [rejected] at hc⟩
      have he : old = op := Option.some.inj (hold.symm.trans hget')
      rw [he]
      have hmoves : op.state.Moves .rejected := by rw [hstate]; decide
      exact .quiet rfl rfl rfl hmoves (fun _ => .inr (.inr ⟨hadds, rfl⟩)) (by simp [rejected])
        (by simp [rejected]) rfl rfl (by simp [rejected]) (by simp [rejected, State.unsent])
    refine ⟨hp'.commit hw, hmem, .inl ?_⟩
    have hsaved : (p'.journal.apply (.save (rejected op reason))).get? op.operationId =
        some (rejected op reason) := get?_save_self hget'
    rw [← hid]
    exact congrArg (Option.map Operation.state) hsaved
  simp only [grant, wp_bind, wp_memory, wp_journal]
  refine wp_mono (settleOthers_follows hs h (hs.follows h).current) ?_
  rintro res p' ⟨rfl, hp', hmem, hget'⟩
  rw [hget] at hget'
  simp only
  split
  · exact hreject p' _ hp' hmem hget'
  · rename_i hheld
    have halone : ∀ q ∈ p'.journal.operations, q.podId = r.podId → q.state.active = true →
        q.operationId = r.operationId := by
      intro q hq hqpod hact
      by_contra hne
      apply hheld
      simp only [held, Bool.or_eq_true, List.any_eq_true, decide_eq_true_eq]
      exact .inr ⟨q, hq, hqpod, hact, hid ▸ hne⟩
    have hacc : Accepted p'.journal r := ⟨⟨op, hid ▸ hget', hpod⟩, halone⟩
    simp only [wp_bind]
    rw [wp_owned]
    split
    · exact ⟨hp', hmem, .inr hacc⟩
    · split
      · have hrel := hp'.commit (w := .release r.podId) trivial
        exact ⟨hrel, hmem, .inr ⟨hacc.1, hacc.2⟩⟩
      · simpa using hreject p' _ hp' hmem hget'

/-- `add` raises and changes nothing, or commits a valid record. -/
inductive Added (op : Operation I) (receipt : Option Receipt)
    (p : EngineProc I) :
    Except Exn Unit → EngineProc I → Prop
  | refused (x : Exn) : Added op receipt p (.error x) p
  | added : op.valid = true → p.journal.operations.length < p.memory.maxOperations →
      Added op receipt p (.ok ()) (p.commit (.add op receipt))

theorem add_cases (op : Operation I) (receipt : Option Receipt) :
    wp (Store.add op receipt) (Added op receipt p) p := by
  unfold Store.add
  split
  · exact .refused _
  · rename_i hvalid
    have hvalid : op.valid = true := by simpa using hvalid
    -- whatever the receipt's checks do, they only raise
    have hbudget : wp (do
        if (← memory).maxOperations ≤ (← journal).operations.length then
          fail .busy "journal operation budget exhausted; archive before reuse"
        else commit (.add op receipt) : M I Unit) (Added op receipt p) p := by
      simp only [wp_bind, wp_memory, wp_journal]
      split
      · exact .refused _
      · rename_i hroom
        exact .added hvalid (not_le.mp hroom)
    cases receipt with
    | none =>
      simp only
      split
      · exact .refused _
      · exact hbudget
    | some rec =>
      simp only
      split
      · exact .refused _
      · simp only [wp_bind, wp_memory, wp_lift]
        cases Store.bound p.memory.processId op rec with
        | error x => exact .refused x
        | ok same =>
          simp only
          split
          · exact .refused _
          · exact hbudget

/-- A request is refused, or gets the operation that has its key, or journals its own and goes on
with `grant`. -/
theorem wp_requestInternal_cases {env : Env I} (hrefused : ∀ x, Q (.error x) p)
    (hold : ∀ old, p.journal.lookup r.source r.podId r.key = some old → Q (.ok old) p)
    (hnew : p.journal.lookup r.source r.podId r.key = none → ∀ fingerprint,
      (r.operation env fingerprint).valid = true →
      p.journal.operations.length < p.memory.maxOperations →
      wp (grant r (r.operation env fingerprint)) Q
        { p.commit (.add (r.operation env fingerprint) r.wscReceipt) with
          memory := { p.memory with
            deadlines := p.memory.deadlines.set r.operationId (env.monotonic + r.deadline) } }) :
    wp (requestInternal env r) Q p := by
  simp only [requestInternal, wp_bind, wp_liftE]
  cases IntentType.validate r.intent with
  | error e => exact hrefused _
  | ok _ =>
    simp only
    split
    · exact hrefused _
    split
    · exact hrefused _
    simp only [wp_bind, wp_memory]
    split
    · exact hrefused _
    simp only [wp_bind, wp_liftE]
    cases IntentType.target env.vault r.intent with
    | error e => exact hrefused _
    | ok target =>
      simp only [wp_journal]
      cases hlookup : p.journal.lookup r.source r.podId r.key with
      | some old =>
        simp only
        split
        · exact hrefused _
        · exact hold old hlookup
      | none =>
        simp only [wp_bind]
        refine wp_mono (add_cases _ _) ?_
        rintro res p' (x | ⟨hvalid, hroom⟩)
        · exact hrefused _
        · exact hnew hlookup _ hvalid hroom

theorem wp_requestInternal {env : Env I} (hsame : ∀ res, Q res p)
    (hnew : ∀ fingerprint, (r.operation env fingerprint).valid = true →
      wp (grant r (r.operation env fingerprint)) Q
        { p.commit (.add (r.operation env fingerprint) r.wscReceipt) with
          memory := { p.memory with
            deadlines := p.memory.deadlines.set r.operationId (env.monotonic + r.deadline) } }) :
    wp (requestInternal env r) Q p :=
  wp_requestInternal_cases (fun _ => hsame _) (fun _ _ => hsame _) fun _ fingerprint hvalid _ =>
    hnew fingerprint hvalid

theorem Sound.get?_fresh {j : Journal I} (h : Sound j) {id : String} (hfresh : id ∉ j.issued) :
    j.get? id = none := Journal.get?_fresh h.distinct.issued hfresh

theorem get?_requested {j : Journal I} (env : Env I) (h : j.get? r.operationId = none)
    (fingerprint : String) :
    (j.apply (.add (r.operation env fingerprint) r.wscReceipt)).get? r.operationId =
      some (r.operation env fingerprint) := get?_add_self _ h

/-- A request commits nothing, or journals its operation and then rejects it unless the pod is
free. -/
structure Requested (c : Context I) (j₀ : Journal I) (r : Engine.Request I)
    (p p' : EngineProc I) : Prop where
  follows : Follows (Permitted c) j₀ p'
  busy : p'.memory.busy = p.memory.busy
  ends : p' = p ∨ p'.journal.state? r.operationId = some .rejected ∨ Accepted p'.journal r

theorem request_adds {env : Env I} (h : Follows (Permitted c) j₀ p)
    (hfresh : r.operationId ∉ p.journal.issued) (hr : c.request = some r) {fingerprint : String}
    (hvalid : (r.operation env fingerprint).valid = true) :
    Follows (Permitted c) j₀ (p.commit (.add (r.operation env fingerprint) r.wscReceipt)) :=
  h.commit ⟨⟨r, hr, rfl, rfl⟩, hfresh, hvalid, rfl, rfl, rfl⟩

theorem requestInternal_follows (hs : Sound j₀) {env : Env I} (h : Follows (Permitted c) j₀ p)
    (hfresh : r.operationId ∉ p.journal.issued) (hr : c.request = some r) :
    wp (requestInternal env r) (fun _ p' => Requested c j₀ r p p') p := by
  refine wp_requestInternal (fun _ => ⟨h, rfl, .inl rfl⟩) fun fingerprint hvalid => ?_
  have hget := get?_requested env ((hs.follows h).get?_fresh hfresh) fingerprint
  refine wp_mono (grant_follows hs ((request_adds h hfresh hr hvalid).of_eq rfl rfl) hget rfl rfl rfl
    ⟨r, hr, rfl⟩) ?_
  rintro res p' ⟨hp', hmem, hend⟩
  exact ⟨hp', by rw [hmem], .inr hend⟩

end Emosa
