import Emosa.Engine.Latest
import Emosa.Lib.Blind
import Emosa.Lib.Retention

/-!
# Emosa.Engine.Retention

Retention drops records that nothing reads any more. A pass acts on the pod's latest operation that
was sent, a request looks at the active ones, and both are kept; adding an operation to a pruned
journal gives the journal that adding it to the whole one gives.

* `prune_operations`: what `prune` keeps, by the policy of `Lib.Retention`.
* `prune_add`: pruning before an operation is added changes nothing after it.
* `reconcile_prune`, `request_prune`: a pass and a request over a pruned journal.
-/

namespace Emosa

open Durable Engine Retention List

variable {I : Type} [IntentType I] (holds : Operation I → Bool)

def Journal.retention : Retention (Operation I) String where
  recent := retainedRecent
  always op := op.state.active || holds op
  tracked op := op.state.reconciled
  group := Operation.podId

namespace Journal

theorem retention_follows (pod : String) :
    (retention holds).follows pod = Operation.sentIn pod := by
  funext op
  show (op.state.reconciled && decide (op.podId = pod)) = op.sentIn pod
  rw [Bool.eq_iff_iff]
  simp [Operation.sentIn, and_comm]

theorem retention_latest (pod : String) (rows : List (Operation I)) :
    (retention holds).latest pod rows = Engine.latest pod rows := by
  rw [Retention.latest, retention_follows]
  rfl

theorem get?_latest (rows : List (Operation I)) (pod : String) :
    (latest rows).get? pod = (Engine.latest pod rows).map Operation.operationId := by
  induction rows using List.reverseRecOn with
  | nil => rfl
  | append_singleton rows row ih =>
    simp only [latest, foldl_append, foldl_cons, Engine.latest] at ih ⊢
    cases hrec : row.state.reconciled with
    | false =>
      have hsent : row.sentIn pod = false := by simp [Operation.sentIn, hrec]
      simpa [hsent] using ih
    | true =>
      by_cases hpod : row.podId = pod
      · have hsent : row.sentIn pod = true := by simp [Operation.sentIn, hrec, hpod]
        simp [hsent, hpod]
      · have hsent : row.sentIn pod = false := by simp [Operation.sentIn, hpod]
        have hne : pod ≠ row.podId := fun he => hpod he.symm
        simpa [hsent, Dict.get?_set_ne _ _ hne] using ih

variable {old later : List (Operation I)} {row : Operation I}

section

variable (hn : ((old ++ row :: later).map Operation.operationId).Nodup)
include hn

omit [IntentType I] in
/-- In a log of distinct IDs, an ID is that of an entry exactly when it is the entry. -/
theorem eq_of_id {q : Operation I}
    (hq : q ∈ old ++ row :: later) (he : q.operationId = row.operationId) : q = row :=
  inj_on_of_nodup_map hn hq (mem_append_right _ mem_cons_self) he

omit [IntentType I] in
theorem mem_drop_iff (n : Nat) :
    row.operationId ∈ ((old ++ row :: later).drop
      ((old ++ row :: later).length - n)).map Operation.operationId ↔ later.length < n := by
  have hlen : (old ++ row :: later).length - n = old.length + 1 + later.length - n := by
    simp only [length_append, length_cons]
    omega
  rw [hlen]
  constructor
  · intro hmem
    by_contra hge
    -- then only later entries are left, and none of them has this ID
    have hdrop : (old ++ row :: later).drop (old.length + 1 + later.length - n) =
        later.drop (later.length - n) := by
      rw [drop_append, drop_of_length_le (by omega), nil_append]
      rw [show old.length + 1 + later.length - n - old.length = (later.length - n) + 1 by omega,
        drop_succ_cons]
    rw [hdrop] at hmem
    obtain ⟨q, hq, he⟩ := mem_map.mp hmem
    have hlater := mem_of_mem_drop hq
    rw [map_append] at hn
    have hnot := (nodup_cons.mp (nodup_append.mp hn).2.1).1
    exact hnot (he ▸ mem_map_of_mem hlater)
  · intro hlt
    refine mem_map_of_mem ?_
    rw [drop_append_of_le_length (by omega)]
    exact mem_append_right _ mem_cons_self

omit [IntentType I] in
theorem mem_always_iff :
    row.operationId ∈ ((old ++ row :: later).filter fun q => q.state.active || holds q).map
      Operation.operationId ↔ row.state.active = true ∨ holds row = true := by
  constructor
  · intro hmem
    obtain ⟨q, hq, he⟩ := mem_map.mp hmem
    obtain ⟨hrows, hkeep⟩ := mem_filter.mp hq
    rw [eq_of_id hn hrows he] at hkeep
    simpa using hkeep
  · intro hkeep
    refine mem_map_of_mem (mem_filter.mpr ⟨?_, by simpa using hkeep⟩)
    exact mem_append_right _ mem_cons_self

theorem mem_latest_iff :
    row.operationId ∈ (latest (old ++ row :: later)).entries.map Prod.snd ↔
      row.state.reconciled = true ∧ later.any (Operation.sentIn row.podId) = false := by
  constructor
  · intro hmem
    obtain ⟨⟨pod, id⟩, hentry, rfl⟩ := mem_map.mp hmem
    have hget := Dict.get?_eq_some_iff.mpr hentry
    rw [get?_latest] at hget
    obtain ⟨q, hq, he⟩ := Option.map_eq_some_iff.mp hget
    obtain rfl := eq_of_id hn (latest_mem hq).1 he
    have hsent := (latest_mem hq).2
    obtain ⟨rfl, hrec⟩ : q.podId = pod ∧ q.state.reconciled = true := by
      simpa [Operation.sentIn] using hsent
    refine ⟨hrec, ?_⟩
    cases hany : later.any (Operation.sentIn q.podId) with
    | false => rfl
    | true =>
      -- the latest would be among the later ones, where this ID is not
      have hlast : Engine.latest q.podId later = some q := by
        rw [latest_append, latest_cons_of_any q hany] at hq
        cases hl : Engine.latest q.podId later with
        | some q' =>
          rw [hl] at hq
          exact hq
        | none =>
          obtain ⟨y, hy, hs⟩ := any_eq_true.mp hany
          rw [Engine.latest, getLast?_eq_none_iff, filter_eq_nil_iff] at hl
          exact absurd hs (hl y hy)
      have hmem := (latest_mem hlast).1
      rw [map_append] at hn
      have hnot := (nodup_cons.mp (nodup_append.mp hn).2.1).1
      exact absurd (mem_map_of_mem hmem) hnot
  · rintro ⟨hrec, hnone⟩
    have hlast : Engine.latest row.podId (old ++ row :: later) = some row := by
      rw [latest_append, latest_cons_of_none row hnone]
      simp [Operation.sentIn, hrec]
    have hget := get?_latest (old ++ row :: later) row.podId
    rw [hlast] at hget
    exact mem_map_of_mem (Dict.get?_eq_some_iff.mp hget)

omit hn in
theorem spares_iff (row : Operation I) (later : List (Operation I)) :
    (retention holds).spares row later = true ↔
      (later.length < retainedRecent ∨ row.state.active = true ∨ holds row = true) ∨
        (row.state.reconciled = true ∧ later.any (Operation.sentIn row.podId) = false) := by
  rw [spares, retention_follows]
  show (decide (later.length < retainedRecent) || (row.state.active || holds row) ||
    (row.state.reconciled && !later.any (Operation.sentIn row.podId))) = true ↔ _
  simp

omit hn in
theorem retain_congr {holds' : Operation I → Bool} {rows : List (Operation I)}
    (h : ∀ row ∈ rows, holds row = holds' row) :
    (retention holds).retain rows = (retention holds').retain rows := by
  induction rows with
  | nil => rfl
  | cons row later ih =>
    have hspares : (retention holds).spares row later = (retention holds').spares row later := by
      rw [Bool.eq_iff_iff, spares_iff, spares_iff, h row mem_cons_self]
    rw [retain, retain, hspares,
      ih fun row' hrow => h row' (mem_cons_of_mem _ hrow)]

theorem kept_eq_spares :
    kept holds (old ++ row :: later) row.operationId = (retention holds).spares row later := by
  have hrecent := mem_drop_iff hn retainedRecent
  have halways := mem_always_iff holds hn
  have hlatest := mem_latest_iff hn
  rw [Bool.eq_iff_iff, spares_iff]
  simp only [kept, keep, Bool.or_eq_true, decide_eq_true_eq, contains_eq_mem, mem_append,
    hrecent, halways, hlatest]
  constructor
  · rintro (hlen | (hr | ha) | hl)
    · rw [length_append, length_cons] at hlen
      exact .inl (.inl (by omega))
    · exact .inl (.inl hr)
    · exact .inl (.inr ha)
    · exact .inr hl
  · rintro ((hr | ha) | hl)
    · exact .inr (.inl (.inl hr))
    · exact .inr (.inl (.inr ha))
    · exact .inr (.inr hl)

end

variable {j : Journal I}

variable (h : j.Distinct)
include h

theorem prune_operations :
    (j.prune holds).operations = (retention holds).retain j.operations := by
  refine retain_eq_filter fun old row later hl => ?_
  rw [hl]
  exact kept_eq_spares holds (hl ▸ h.nodup)

/-- The ID is not one that retention drops from these rows. -/
def stays (rows : List (Operation I)) (id : String) : Bool :=
  kept holds rows id || !(rows.map Operation.operationId).contains id

omit h in
theorem stays_iff {rows : List (Operation I)} (hn : (rows.map Operation.operationId).Nodup)
    (id : String) :
    stays holds rows id = true ↔ (id ∈ rows.map Operation.operationId →
      id ∈ ((retention holds).retain rows).map Operation.operationId) := by
  have hretain : rows.filter (fun row => kept holds rows row.operationId) =
      (retention holds).retain rows := by
    refine retain_eq_filter fun old row later hl => ?_
    have hkept := kept_eq_spares holds (hl ▸ hn)
    rwa [← hl] at hkept
  have hmem : id ∈ ((retention holds).retain rows).map Operation.operationId ↔
      id ∈ rows.map Operation.operationId ∧ kept holds rows id = true := by
    rw [← hretain]
    simp only [mem_map, mem_filter]
    constructor
    · rintro ⟨row, ⟨hrow, hkept⟩, rfl⟩
      exact ⟨⟨row, hrow, rfl⟩, hkept⟩
    · rintro ⟨⟨row, hrow, rfl⟩, hkept⟩
      exact ⟨row, ⟨hrow, hkept⟩, rfl⟩
  simp only [stays, Bool.or_eq_true, Bool.not_eq_true', contains_eq_mem,
    decide_eq_false_iff_not]
  tauto

/-- The journal with the operation added, before retention. -/
def added (j : Journal I) (op : Operation I) (receipt : Option Receipt) : Journal I :=
  { operations := j.operations ++ [op]
    receipts := match receipt with
      | some r => j.receipts.set op.operationId r
      | none => j.receipts
    ownership := j.ownership
    issued := op.operationId :: j.issued }

omit [IntentType I] in
theorem Distinct.added {op : Operation I} (hnew : op.operationId ∉ j.issued)
    (receipt : Option Receipt) : (j.added op receipt).Distinct := by
  refine ⟨?_, fun row hrow => ?_⟩
  · simp only [Journal.added, map_append]
    refine nodup_append.mpr ⟨h.nodup, nodup_singleton _, ?_⟩
    intro id hid id' hid' he
    rw [mem_singleton.mp hid'] at he
    obtain ⟨row, hrow, rfl⟩ := mem_map.mp hid
    exact hnew (he ▸ h.issued row hrow)
  · cases mem_append.mp hrow with
    | inl hold => exact mem_cons_of_mem _ (h.issued row hold)
    | inr he =>
      rw [mem_singleton.mp he]
      exact mem_cons_self

theorem Distinct.prune : (j.prune holds).Distinct :=
  ⟨h.nodup.sublist (filter_sublist.map _), fun row hrow =>
    h.issued row (mem_filter.mp hrow).1⟩

omit h in
theorem prune_receipts (j : Journal I) :
    (j.prune holds).receipts = j.receipts.filter fun id _ => stays holds j.operations id := rfl

/-- Retention before an operation is added changes nothing after it. -/
theorem prune_add {op : Operation I} (hnew : op.operationId ∉ j.issued)
    (receipt : Option Receipt) :
    (j.prune holds).written holds (.add op receipt) = j.written holds (.add op receipt) := by
  have hwhole := h.added hnew receipt
  have hpruned := (h.prune holds).added (show op.operationId ∉ (j.prune holds).issued from hnew) receipt
  have hops : (((j.prune holds).added op receipt).prune holds).operations =
      ((j.added op receipt).prune holds).operations := by
    rw [prune_operations holds hwhole, prune_operations holds hpruned]
    show (retention holds).retain ((j.prune holds).operations ++ [op]) = _
    rw [prune_operations holds h]
    exact retain_retain_concat _ _
  have hstays : ∀ id, (stays holds j.operations id &&
      stays holds ((j.prune holds).added op receipt).operations id) =
        stays holds (j.added op receipt).operations id := by
    intro id
    rw [Bool.eq_iff_iff, Bool.and_eq_true, stays_iff holds h.nodup, stays_iff holds hwhole.nodup,
      stays_iff holds hpruned.nodup, ← prune_operations holds hpruned,
      ← prune_operations holds hwhole, hops, ← prune_operations holds h]
    have hsub : ∀ row ∈ (j.prune holds).operations, row ∈ j.operations := fun row hrow =>
      (mem_filter.mp hrow).1
    have hkept : ∀ row ∈ ((j.added op receipt).prune holds).operations,
        row ∈ (j.prune holds).operations ++ [op] := by
      intro row hrow
      rw [← hops] at hrow
      exact (mem_filter.mp hrow).1
    simp only [Journal.added, map_append, mem_append, mem_map, mem_singleton] at hkept ⊢
    constructor
    · rintro ⟨hold, hboth⟩ (hid | hid)
      · exact hboth (.inl (hold hid))
      · exact hboth (.inr hid)
    · intro hall
      refine ⟨fun hid => ?_, ?_⟩
      · obtain ⟨row, hrow, rfl⟩ := hall (.inl hid)
        rcases hkept row hrow with hold | rfl
        · exact ⟨row, hold, rfl⟩
        · obtain ⟨q, hq, he⟩ := hid
          exact absurd (he ▸ h.issued q hq) hnew
      · rintro (⟨row, hrow, rfl⟩ | hid)
        · exact hall (.inl ⟨row, hsub row hrow, rfl⟩)
        · exact hall (.inr hid)
  have hreceipts : (((j.prune holds).added op receipt).prune holds).receipts =
      ((j.added op receipt).prune holds).receipts := by
    rw [prune_receipts, prune_receipts]
    have hown : stays holds j.operations op.operationId = true := by
      rw [stays_iff holds h.nodup]
      intro hid
      obtain ⟨q, hq, he⟩ := mem_map.mp hid
      exact absurd (he ▸ h.issued q hq) hnew
    have hset : ((j.prune holds).added op receipt).receipts =
        (j.added op receipt).receipts.filter fun id _ => stays holds j.operations id := by
      cases receipt with
      | none => rfl
      | some r => exact Dict.set_filter _ hown r
    rw [hset, Dict.filter_filter]
    simp only [hstays]
  have hext : ∀ a b : Journal I, a.operations = b.operations → a.receipts = b.receipts →
      a.ownership = b.ownership → a.issued = b.issued → a = b := by
    rintro ⟨⟩ ⟨⟩ rfl rfl rfl rfl
    rfl
  exact hext _ _ hops hreceipts rfl rfl

theorem mem_prune_of_holds {op : Operation I} (hop : op ∈ j.operations)
    (hkeep : op.state.active = true ∨ holds op = true) : op ∈ (j.prune holds).operations := by
  rw [prune_operations holds h]
  exact mem_retain_of_always hop (by simpa [retention] using hkeep)

/-- A record that is kept for being recent only. -/
def spare (j : Journal I) (op : Operation I) : Bool :=
  !op.state.active && !holds op &&
    (Engine.latest op.podId j.operations).map Operation.operationId ≠ some op.operationId

theorem latest_prune (pod : String) :
    Engine.latest pod (j.prune holds).operations = Engine.latest pod j.operations := by
  rw [prune_operations holds h, ← retention_latest holds, ← retention_latest holds]
  exact latest_retain pod j.operations

theorem length_spare_le :
    ((j.prune holds).operations.filter (spare holds (j.prune holds))).length ≤ retainedRecent := by
  have hlatest := latest_prune holds h
  rw [prune_operations holds h]
  refine length_filter_retain_le fun old op later hl hspare hs => ?_
  simp only [spare, hlatest, Bool.and_eq_true, Bool.not_eq_true', decide_eq_true_eq] at hspare
  obtain ⟨⟨hactive, hholds⟩, hnot⟩ := hspare
  rcases (spares_iff holds op later).mp hs with (hlen | ha | hh) | ⟨hrec, hnone⟩
  · exact hlen
  · rw [hactive] at ha
    cases ha
  · rw [hholds] at hh
    cases hh
  · refine absurd ?_ hnot
    rw [hl, latest_append, latest_cons_of_none op hnone]
    simp [Operation.sentIn, hrec]

end Journal

/-! ## Passes -/

namespace Engine

variable {holds}

theorem liftE_blind {α : Type} (r : Except EmosaError α) : Blind (liftE r : M I α) := .lift _

theorem effect_liftE {α β : Type} (a : α) (f : α → M I β) (p : EngineProc I) :
    effect ((liftE (.ok a) : M I α) >>= f) p = effect (f a) p := rfl

theorem save_blind (op : Operation I) : Blind (Store.save op) :=
  .ite (fun _ => .commit _) fun _ => .raise _

theorem settleRestarted_blind (op : Operation I) (current : Option String) :
    Blind (settleRestarted op current) :=
  .ite (fun _ => .bind (liftE_blind _) fun _ => .bind (save_blind _) fun _ => .pure _)
    fun _ => .pure _

section

variable (env : Env I)

theorem expired_blind (op : Operation I) : Blind (expired env op) := by
  refine .bind .memory fun e => ?_
  split
  · exact .pure _
  · exact .bind (.remember _) fun _ => .pure _

theorem claimLost_blind (pod : String) (snap : Snapshot) (pass : Pass I) :
    Blind (claimLost pod snap pass) := by
  have hnote : ∀ op : Operation I, Blind (if op.reason = some Reason.ownershipConflict.value then
      (pure ⟨op, pass.changed⟩ : M I (Pass I))
      else pure ⟨{ op with reason := some Reason.ownershipConflict.value }, true⟩) := fun _ =>
    .ite (fun _ => .pure _) fun _ => .pure _
  exact .bind (.commit _) fun _ =>
    .ite (fun _ => .bind (liftE_blind _) fun _ => hnote _) fun _ => hnote _

theorem judge_blind (pod : String) (snap : Snapshot) (pass : Pass I) :
    Blind (judge env pod snap pass) := by
  unfold judge
  split
  · exact .ite (fun _ => .pure _) fun _ => .pure _
  · refine .bind (liftE_blind _) fun pass => ?_
    exact .ite (fun _ => .ite (fun _ => claimLost_blind _ _ _) fun _ =>
      .ite (fun _ => .lift _) fun _ => .pure _) fun _ => .pure _

theorem follow_blind (pod : String) (snap : Snapshot) (op : Operation I) :
    Blind (follow env pod snap op) :=
  .bind (settleRestarted_blind _ _) fun _ => .ite (fun _ => .pure _) fun _ =>
    .bind (expired_blind _ _) fun _ => .bind (liftE_blind _) fun _ =>
      .bind (judge_blind _ _ _ _) fun _ => .ite (fun _ => save_blind _) fun _ => .pure _

theorem reconcile_effect (pod : String) (reply : Except Exn Snapshot) (e : Engine)
    {j j' : Journal I} (h : target? pod j'.operations = target? pod j.operations) :
    effect (reconcile env pod reply) ⟨e, j', []⟩ = effect (reconcile env pod reply) ⟨e, j, []⟩ := by
  have hloop : ∀ (snap : Snapshot) (e : Engine),
      effect (do reconcileFrom env pod snap j'.operations; pure snap) ⟨e, j', []⟩ =
        effect (do reconcileFrom env pod snap j.operations; pure snap) ⟨e, j, []⟩ := by
    intro snap e
    rw [reconcileFrom_eq, reconcileFrom_eq, h]
    split
    · exact (Blind.bind (follow_blind env pod snap _) fun _ => .pure snap) e j j' []
    · rfl
  have hseen : ∀ snap : Snapshot,
      effect (do
        see pod snap
        let j ← journal
        reconcileFrom env pod snap j.operations
        pure snap) ⟨e, j', []⟩ =
      effect (do
        see pod snap
        let j ← journal
        reconcileFrom env pod snap j.operations
        pure snap) ⟨e, j, []⟩ := by
    intro snap
    unfold see
    split
    · exact hloop snap _
    · exact hloop snap e
  rw [reconcile, effect_memory, effect_memory]
  by_cases hpod : pod ∉ e.backends
  · rw [if_pos hpod]
    rfl
  · rw [if_neg hpod]
    cases reply with
    | error x => rfl
    | ok snap =>
      exact hseen snap

/-! ## Requests -/

theorem add_run (op : Operation I) (receipt : Option Receipt) (e : Engine) :
    (∀ j : Journal I, j.operations.length < e.maxOperations →
      Store.add op receipt ⟨e, j, []⟩ =
        .ok () ⟨e, j.apply (.add op receipt), [.add op receipt]⟩) ∨
    ∃ x, ∀ j : Journal I, j.operations.length < e.maxOperations →
      Store.add op receipt ⟨e, j, []⟩ = .error x ⟨e, j, []⟩ := by
  have hcommit : ∀ j : Journal I, j.operations.length < e.maxOperations →
      (do
        if (← memory).maxOperations ≤ (← journal).operations.length then
          fail .busy "journal operation budget exhausted; archive before reuse"
        else commit (.add op receipt) : M I Unit) ⟨e, j, []⟩ =
      .ok () ⟨e, j.apply (.add op receipt), [.add op receipt]⟩ := by
    intro j hroom
    show (if e.maxOperations ≤ j.operations.length then _ else _ : M I Unit) ⟨e, j, []⟩ = _
    rw [if_neg (by omega)]
    rfl
  unfold Store.add
  by_cases hvalid : op.valid = false
  · rw [if_pos hvalid]
    exact .inr ⟨_, fun _ _ => rfl⟩
  rw [if_neg hvalid]
  cases receipt with
  | none =>
    by_cases hwsc : op.initiatingInterface = "wsc-component"
    · simp only [hwsc]
      exact .inr ⟨_, fun _ _ => rfl⟩
    · simp only [hwsc]
      exact .inl hcommit
  | some r =>
    dsimp only
    by_cases hreceipt : r.valid = false
    · rw [if_pos hreceipt]
      exact .inr ⟨_, fun _ _ => rfl⟩
    rw [if_neg hreceipt]
    cases hbound : Store.bound e.processId op r with
    | error x =>
      refine .inr ⟨x, fun j _ => ?_⟩
      simp only [bind, EStateM.bind, memory, hbound, lift, raise]
    | ok bound =>
      cases bound with
      | false =>
        refine .inr ⟨.emosa ⟨.invalidInput, "WSC receipt and operation binding differ"⟩,
          fun j _ => ?_⟩
        simp only [bind, EStateM.bind, memory, hbound, lift, fail, raise, pure, EStateM.pure, if_true]
      | true =>
        refine .inl fun j hroom => ?_
        rw [← hcommit j hroom]
        simp only [bind, EStateM.bind, memory, hbound, lift, pure, EStateM.pure, Bool.true_eq_false,
          if_false]

/-- A request with a key of its own ends the same over two journals that are the same with its
operation added. -/
theorem request_effect (r : Request I) (e : Engine) {j j' : Journal I}
    (hkey : j.lookup r.source r.podId r.key = none) (hkey' : j'.lookup r.source r.podId r.key = none)
    (hroom : j.operations.length < e.maxOperations) (hroom' : j'.operations.length < e.maxOperations)
    (h : ∀ fingerprint, j'.apply (.add (r.operation env fingerprint) r.wscReceipt) =
      j.apply (.add (r.operation env fingerprint) r.wscReceipt)) :
    effect (requestInternal env r) ⟨e, j', []⟩ = effect (requestInternal env r) ⟨e, j, []⟩ := by
  unfold requestInternal
  cases IntentType.validate r.intent with
  | error x => rfl
  | ok _ =>
    rw [effect_liftE, effect_liftE]
    by_cases hwsc : r.initiatingInterface ≠ "semantic" ∧
        (r.initiatingInterface ≠ "wsc-component" ∨ r.wscReceipt = none)
    · rw [if_pos hwsc]
      rfl
    rw [if_neg hwsc]
    by_cases hbad : r.source = "" ∨ r.key = "" ∨ 128 < r.key.length ∨
        ¬ (0 < r.deadline ∧ r.deadline ≤ 3600)
    · rw [if_pos hbad]
      rfl
    rw [if_neg hbad, effect_memory, effect_memory]
    by_cases hpod : r.podId ∉ e.backends
    · rw [if_pos hpod]
      rfl
    rw [if_neg hpod]
    cases IntentType.target env.vault r.intent with
    | error x => rfl
    | ok target =>
      rw [effect_liftE, effect_liftE, effect_journal, effect_journal]
      simp only [hkey, hkey']
      generalize env.vault.fingerprintIntent r.intent target = fingerprint
      rcases add_run (r.operation env fingerprint) r.wscReceipt e with hok | ⟨x, herr⟩
      · rw [effect_bind_ok (hok j' hroom'), effect_bind_ok (hok j hroom), h]
      · rw [effect_bind_error (herr j' hroom'), effect_bind_error (herr j hroom)]

end

/-! ## Over a pruned journal -/

theorem target?_prune {j : Journal I} (h : j.Distinct) (pod : String) :
    target? pod (j.prune holds).operations = target? pod j.operations := by
  rw [target?, target?, Journal.latest_prune holds h]

theorem reconcile_prune {j : Journal I} (h : j.Distinct) (env : Env I) (pod : String)
    (reply : Except Exn Snapshot) (e : Engine) :
    effect (reconcile env pod reply) ⟨e, j.prune holds, []⟩ =
      effect (reconcile env pod reply) ⟨e, j, []⟩ :=
  reconcile_effect env pod reply e (target?_prune h pod)

theorem request_prune {j : Journal I} (h : j.Distinct) (env : Env I) (r : Request I) (e : Engine)
    (hnew : r.operationId ∉ j.issued) (hkey : j.lookup r.source r.podId r.key = none)
    (hroom : j.operations.length < e.maxOperations) :
    effect (requestInternal env r) ⟨e, j.prune holdsRows, []⟩ =
      effect (requestInternal env r) ⟨e, j, []⟩ := by
  refine request_effect env r e hkey ?_ hroom ?_ fun fingerprint => ?_
  · unfold Journal.lookup at hkey ⊢
    rw [find?_eq_none] at hkey ⊢
    exact fun op hop => hkey op (mem_filter.mp hop).1
  · exact Nat.lt_of_le_of_lt (length_filter_le _ _) hroom
  · exact Journal.prune_add holdsRows h hnew r.wscReceipt

end Engine
end Emosa
