import Emosa.C.Claims
import Emosa.Engine.Retention

/-!
# Emosa.C.Journal

Retention in C: one loop over the operations, newest first, in which the first tracked operation of a
pod is its latest.

* `kept_eq`: it keeps what the policy keeps, `emJournalHoldsRows` telling the operations with rows.
-/

namespace Emosa.C

open Durable Journal List

variable {I : Type} [IntentType I]

/-- The IDs the loop of `prune` drops: `recent` operations are still among the most recent, and
`seen` are the pods whose latest is found. -/
def dropping : Nat → List String → List (Operation I) → List String
  | _, _, [] => []
  | recent, seen, op :: rest =>
    let latest := op.state.reconciled && !seen.contains op.podId
    let seen := if latest then op.podId :: seen else seen
    if 0 < recent || op.state.active || emJournalHoldsRows op || latest then
      dropping (recent - 1) seen rest
    else op.operationId :: dropping (recent - 1) seen rest

/-- What `prune` drops of the operations, the added one among them. -/
def prune (rows : List (Operation I)) : List String :=
  if rows.length ≤ retainedRecent then [] else dropping retainedRecent [] rows.reverse

def kept (rows : List (Operation I)) : List (Operation I) :=
  rows.filter fun row => !(prune rows).contains row.operationId

/-- The pods whose latest is found after these operations. -/
def seenAfter (seen : List String) : List (Operation I) → List String
  | [] => seen
  | op :: rest =>
    seenAfter (if op.state.reconciled && !seen.contains op.podId then op.podId :: seen else seen) rest

theorem dropping_append (recent : Nat) (seen : List String) (new rest : List (Operation I)) :
    dropping recent seen (new ++ rest) =
      dropping recent seen new ++ dropping (recent - new.length) (seenAfter seen new) rest := by
  induction new generalizing recent seen with
  | nil => rfl
  | cons op new ih =>
    have hlen : recent - (op :: new).length = recent - 1 - new.length := by
      rw [length_cons]
      omega
    simp only [cons_append, dropping, ih, hlen]
    split <;> rfl

section

variable {rows : List (Operation I)}

theorem dropping_subset {recent : Nat} {seen : List String} {id : String}
    (h : id ∈ dropping recent seen rows) : id ∈ rows.map Operation.operationId := by
  induction rows generalizing recent seen with
  | nil => cases h
  | cons op rest ih =>
    simp only [dropping] at h
    split at h
    · exact mem_cons_of_mem _ (ih h)
    · cases mem_cons.mp h with
      | inl he => exact he ▸ mem_cons_self
      | inr hm => exact mem_cons_of_mem _ (ih hm)

theorem mem_seenAfter {seen : List String} {pod : String} :
    pod ∈ seenAfter seen rows ↔ pod ∈ seen ∨ rows.any (Operation.sentIn pod) = true := by
  induction rows generalizing seen with
  | nil => simp [seenAfter]
  | cons op rest ih =>
    rw [seenAfter, ih, any_cons, Bool.or_eq_true, ← or_assoc]
    refine or_congr_left ?_
    by_cases hrec : op.state.reconciled = true
    · by_cases hin : op.podId ∈ seen
      · simp only [hrec, hin, contains_eq_mem, Operation.sentIn, and_true, decide_eq_true_eq]
        exact ⟨.inl, fun hp => hp.elim id fun he => he ▸ hin⟩
      · simp only [hrec, hin, contains_eq_mem, decide_false, Bool.not_false, Bool.and_true,
          if_true, Operation.sentIn, and_true, decide_eq_true_eq, mem_cons]
        exact ⟨fun hp => hp.elim (fun he => .inr he.symm) .inl,
          fun hp => hp.elim .inr fun he => .inl he.symm⟩
    · simp [hrec, Operation.sentIn]

theorem mem_prune_iff {old later : List (Operation I)} {row : Operation I}
    (hn : ((old ++ row :: later).map Operation.operationId).Nodup) :
    row.operationId ∈ prune (old ++ row :: later) ↔
      (retention emJournalHoldsRows).spares row later = false := by
  have hhead : row.operationId ∉ later.map Operation.operationId := by
    rw [map_append] at hn
    exact (nodup_cons.mp (nodup_append.mp hn).2.1).1
  have hlast : row.operationId ∉ old.map Operation.operationId := by
    rw [map_append] at hn
    exact fun hm => (nodup_append.mp hn).2.2 _ hm _ mem_cons_self rfl
  have hseen : (seenAfter [] later.reverse).contains row.podId =
      later.any (Operation.sentIn row.podId) := by
    rw [Bool.eq_iff_iff, contains_eq_mem, decide_eq_true_eq, mem_seenAfter]
    simp
  have hloop : row.operationId ∈ dropping retainedRecent [] (old ++ row :: later).reverse ↔
      (retention emJournalHoldsRows).spares row later = false := by
    have hspares : (decide (0 < retainedRecent - later.reverse.length) || row.state.active ||
        emJournalHoldsRows row ||
          (row.state.reconciled && !(seenAfter [] later.reverse).contains row.podId)) =
        (retention emJournalHoldsRows).spares row later := by
      rw [Bool.eq_iff_iff, spares_iff, hseen, length_reverse]
      simp only [Bool.or_eq_true, decide_eq_true_eq, Bool.and_eq_true, Bool.not_eq_true', or_assoc]
      rw [Nat.sub_pos_iff_lt]
    rw [reverse_append, reverse_cons, append_assoc, dropping_append, mem_append,
      singleton_append, dropping, hspares]
    constructor
    · rintro (hlater | hmem)
      · have hm := dropping_subset hlater
        rw [map_reverse, mem_reverse] at hm
        exact absurd hm hhead
      · split at hmem
        · have hm := dropping_subset hmem
          rw [map_reverse, mem_reverse] at hm
          exact absurd hm hlast
        · rename_i hs
          simpa using hs
    · intro hs
      rw [hs]
      exact .inr mem_cons_self
  unfold prune
  split
  · rename_i hlen
    rw [length_append, length_cons] at hlen
    have hs : (retention emJournalHoldsRows).spares row later = true := by
      rw [spares_iff]
      exact .inl (.inl (by omega))
    simp [hs]
  · exact hloop

theorem kept_eq (hn : (rows.map Operation.operationId).Nodup) :
    kept rows = (retention emJournalHoldsRows).retain rows := by
  refine Retention.retain_eq_filter fun old row later hl => ?_
  subst hl
  rw [Bool.eq_iff_iff, Bool.not_eq_true', contains_eq_mem, decide_eq_false_iff_not,
    mem_prune_iff hn, Bool.not_eq_false]

end

/-- The evidence is as the backends write it: the rows it created are an object, and `true` says that
they are released. -/
def plain (evidence : Record) : Bool :=
  (evidence.some? "created").all (· matches .tables _) &&
  (evidence.some? "released").all (· = .bool true)

omit [IntentType I] in
theorem holdsRows_eq {op : Operation I} (h : plain op.commitEvidence = true) :
    emJournalHoldsRows op = holdsRows op := by
  obtain ⟨hcreated, hreleased⟩ := Bool.and_eq_true_iff.mp h
  unfold emJournalHoldsRows holdsRows Record.holds
  congr 1
  · cases hget : op.commitEvidence.get? "created" with
    | none => rfl
    | some v =>
      cases htrue : v.truthy with
      | true =>
        rw [Record.some?, hget, Option.filter_some_pos htrue] at hcreated
        cases v with
        | tables l => rfl
        | _ => cases hcreated
      | false =>
        cases v with
        | tables | null => rfl
        | bool | int | str | rows | texts | fields => exact htrue.symm
  · cases hget : op.commitEvidence.get? "released" with
    | none => rfl
    | some v =>
      cases htrue : v.truthy with
      | true =>
        rw [Record.some?, hget, Option.filter_some_pos htrue] at hreleased
        have hv : v = .bool true := by simpa using hreleased
        rw [hv]
        rfl
      | false =>
        have hne : v ≠ .bool true := fun he => by rw [he] at htrue; cases htrue
        simp [htrue, hne]

/-- Retention is invisible: over a pruned journal a pass does and answers what it does over the whole
one, adding an operation gives the same journal, so that the decisions of a request are the same;
what holds rows is kept, and of the rest at most the most recent. In C the same operations are kept,
where the evidence of their rows is as the backends write it. -/
theorem retention_invisible (j : Journal I) (h : j.Distinct) :
    (∀ env pod reply e, effect (Engine.reconcile env pod reply) ⟨e, j.prune holdsRows, []⟩ =
      effect (Engine.reconcile env pod reply) ⟨e, j, []⟩) ∧
    (∀ (op : Operation I) receipt, op.operationId ∉ j.issued →
      (j.prune holdsRows).apply (.add op receipt) = j.apply (.add op receipt)) ∧
    (∀ env (r : Engine.Request I) (e : Engine), r.operationId ∉ j.issued →
      j.lookup r.source r.podId r.key = none → j.operations.length < e.maxOperations →
      effect (Engine.requestInternal env r) ⟨e, j.prune holdsRows, []⟩ =
        effect (Engine.requestInternal env r) ⟨e, j, []⟩) ∧
    (∀ op ∈ j.operations, holdsRows op = true → op ∈ (j.prune holdsRows).operations) ∧
    ((j.prune holdsRows).operations.filter
      (Journal.spare holdsRows (j.prune holdsRows))).length ≤ retainedRecent ∧
    ((∀ op ∈ j.operations, plain op.commitEvidence = true) → kept j.operations = (j.prune holdsRows).operations) := by
  refine ⟨fun env pod reply e => Engine.reconcile_prune h env pod reply e,
    fun op receipt hnew => prune_add holdsRows h hnew receipt,
    fun env r e hnew hkey hroom => Engine.request_prune h env r e hnew hkey hroom,
    fun op hop hholds => mem_prune_of_holds holdsRows h hop (.inr hholds),
    length_spare_le holdsRows h, fun hplain => ?_⟩
  rw [kept_eq h.nodup, prune_operations holdsRows h]
  exact retain_congr _ fun op hop => holdsRows_eq (hplain op hop)

/-- An operation that was rejected before it was sent. -/
def turnedAway (evidence : Record) (n : Nat) : Operation Intent :=
  { operationId := String.ofList (List.replicate n 'x'), runId := "run", requestSource := "cli"
    initiatingInterface := "semantic", intent := Sample.intent, intentFingerprint := "fingerprint"
    idempotencyKey := String.ofList (List.replicate n 'k'), deadlineAt := 30, state := .rejected
    commitEvidence := evidence }

/-- A journal of `n` such operations, with this evidence in the oldest. -/
def rejections (evidence : Record) (n : Nat) : Journal Intent :=
  let rows := (List.range n).map fun k => turnedAway (if k = 0 then evidence else ∅) (k + 1)
  { operations := rows, issued := rows.map Operation.operationId }

theorem retention_of_rejections :
    kept (rejections ((∅ : Record).set "created" (.tables [("client", ["row"])])) 18).operations =
      ((rejections ((∅ : Record).set "created" (.tables [("client", ["row"])])) 18).prune
        holdsRows).operations := by
  refine (retention_invisible _ ⟨?_, ?_⟩).2.2.2.2.2 ?_
  · decide +kernel
  · decide +kernel
  · decide +kernel

/-- The request's answer: the state of its operation, or why it is refused. -/
def answer (j : Journal Intent) (maxOperations : Nat) : Except (Option Reason) State :=
  match (effect (Engine.requestInternal (Sample.env 0) (Sample.request "a" "first"))
      ⟨{ Sample.setup.engine with maxOperations := maxOperations }, j, []⟩).1 with
  | .ok op => .ok op.state
  | .error (.emosa e) => .error (some e.code)
  | .error _ => .error none

/-- Rows listed in an array are rows for one journal and none for the other. And a journal that is
full refuses a request that it would take once pruned. -/
theorem retention_differs :
    (((rejections ((∅ : Record).set "created" (.rows [["row"]])) 17).prune
        holdsRows).operations.length = 17 ∧
      (kept (rejections ((∅ : Record).set "created" (.rows [["row"]])) 17).operations).length =
        16) ∧
    answer (rejections ∅ 17) 17 = .error (some .busy) ∧
      answer ((rejections ∅ 17).prune holdsRows) 17 = .ok .requested := by
  decide +kernel

end Emosa.C
