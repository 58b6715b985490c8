import Emosa.Lib.Durable
import Emosa.Operations

/-!
# Emosa.Store

The journal: the operations in the order they were added, the receipts of WSC exchanges, and each
pod's recorded ownership conflict. Every change of it is one committed `Write`. Adding an operation
prunes the journal in the same commit; saving one rewrites its record where it still has one.

The event table is left out: nothing here reads it back.

* `get?_save_self`, `get?_add_self` and their `_ne` forms: what a write does to a record.
* `kept_of_active`: retention never drops an operation that holds its pod.
-/

namespace Emosa

open List

open Durable (Replay)

/-- What a call may raise: the program's own error, a lost or late connection, anything else. -/
inductive Exn where
  | emosa (e : EmosaError)
  | connection
  | timeout
  | other
  deriving DecidableEq, Repr

/-- The correlation of an authenticated WSC exchange with its operation. -/
structure Receipt where
  processId : String
  exchangeId : String
  controllerAl : String
  podId : String
  radioId : String
  bssId : String
  deriving DecidableEq, Repr

/-- `n` hexadecimal digits; the contract's pattern also matches before a final line break. -/
def hexDigits (n : Nat) (s : String) : Bool :=
  let chars := if s.toList.getLast? = some '\n' then s.toList.dropLast else s.toList
  chars.length == n && chars.all fun c => c.isDigit || ('a' ≤ c && c ≤ 'f')

def Receipt.valid (r : Receipt) : Bool :=
  (1 ≤ r.processId.length && r.processId.length ≤ 64) && hexDigits 32 r.exchangeId &&
  hexDigits 12 r.controllerAl && Intent.named r.podId && Intent.named r.radioId &&
  Intent.named r.bssId

/-- How long a scope holds its pod: since when, for the how manieth time in a row, and until when. -/
structure Hold where
  heldAt : ℚ
  attempt : Nat
  retryAt : ℚ
  deriving DecidableEq, Repr

/-- The record of an ownership conflict, or of a scope's hold of its pod. -/
structure Ownership where
  operationId : String
  reason : Option String
  instanceId : Option String := none
  hold : Option Hold := none
  deriving DecidableEq, Repr

variable {I : Type}

/-- `issued` lists the IDs ever added. The database does not hold it: it says that an ID, drawn at
random, is never drawn again. -/
structure Journal (I : Type) where
  operations : List (Operation I) := []
  receipts : Dict String Receipt := ∅
  ownership : Dict String Ownership := ∅
  issued : List String := []

inductive Write (I : Type) where
  | add (op : Operation I) (receipt : Option Receipt)
  | save (op : Operation I)
  | conflict (pod : String) (record : Ownership)
  | release (pod : String)

/-- The states reconciliation follows, and those a later operation replaces them in. -/
def State.reconciled : State → Bool
  | .submitted | .configCommitted | .observedApplied | .indeterminate | .timedOut
  | .ownershipConflict => true
  | _ => false

def retainedRecent : Nat := 16

/-- The operation created rows in its pod that are not yet released. -/
def holdsRows (op : Operation I) : Bool :=
  op.commitEvidence.holds "created" && !op.commitEvidence.holds "released"

namespace Journal

def get? (j : Journal I) (id : String) : Option (Operation I) :=
  j.operations.find? fun op => op.operationId = id

def state? (j : Journal I) (id : String) : Option State := (j.get? id).map Operation.state

section Retention

variable [IntentType I]

def lookup (j : Journal I) (source pod key : String) : Option (Operation I) :=
  j.operations.find? fun op =>
    op.requestSource = source ∧ op.podId = pod ∧ op.idempotencyKey = key

/-- Each pod's latest operation in a state reconciliation follows, by ID. -/
def latest (rows : List (Operation I)) : Dict String String :=
  rows.foldl (fun d row => if row.state.reconciled then d.set row.podId row.operationId else d) ∅

/-- What retention keeps: the most recent, those that hold their pod or rows in it, and each pod's
latest. -/
def keep (holds : Operation I → Bool) (rows : List (Operation I)) : List String :=
  (rows.drop (rows.length - retainedRecent)).map Operation.operationId ++
  (rows.filter fun row => row.state.active || holds row).map Operation.operationId ++
  (latest rows).entries.map Prod.snd

def kept (holds : Operation I → Bool) (rows : List (Operation I)) (id : String) : Bool :=
  rows.length ≤ retainedRecent || (keep holds rows).contains id

def prune (holds : Operation I → Bool) (j : Journal I) : Journal I :=
  { j with
    operations := j.operations.filter fun row => kept holds j.operations row.operationId
    receipts := j.receipts.filter fun id _ =>
      kept holds j.operations id || !(j.operations.map Operation.operationId).contains id }

/-- The journal after a write, `holds` telling the operations that have rows in their pod. -/
def written (holds : Operation I → Bool) (j : Journal I) : Write I → Journal I
  | .add op receipt => prune holds
      { operations := j.operations ++ [op]
        receipts := match receipt with
          | some r => j.receipts.set op.operationId r
          | none => j.receipts
        ownership := j.ownership
        issued := op.operationId :: j.issued }
  | .save op =>
      { j with operations := j.operations.map fun row =>
          if row.operationId = op.operationId then op else row }
  | .conflict pod record => { j with ownership := j.ownership.set pod record }
  | .release pod => { j with ownership := j.ownership.erase pod }

def apply (j : Journal I) (w : Write I) : Journal I := j.written holdsRows w

instance : Replay (Journal I) (Write I) := ⟨Journal.apply⟩

end Retention

variable {j : Journal I} {op : Operation I}

theorem get?_id {id : String} (h : j.get? id = some op) : op.operationId = id := by
  have := find?_some h
  simpa using this

theorem get?_mem {id : String} (h : j.get? id = some op) :
    op ∈ j.operations := mem_of_find?_eq_some h

theorem get?_fresh (h : ∀ op ∈ j.operations, op.operationId ∈ j.issued) {id : String}
    (hfresh : id ∉ j.issued) : j.get? id = none := by
  cases hget : j.get? id with
  | none => rfl
  | some old => exact absurd (get?_id hget ▸ h old (get?_mem hget)) hfresh

/-- No two records share an ID, and every ID was issued. -/
structure Distinct (j : Journal I) : Prop where
  nodup : (j.operations.map Operation.operationId).Nodup
  issued : ∀ op ∈ j.operations, op.operationId ∈ j.issued

theorem Distinct.get? (h : j.Distinct) (hop : op ∈ j.operations) :
    j.get? op.operationId = some op := by
  have hn := h.nodup
  unfold Journal.get?
  generalize j.operations = rows at hop hn
  induction rows with
  | nil => simp at hop
  | cons row rows ih =>
    rw [map_cons, nodup_cons] at hn
    cases mem_cons.mp hop with
    | inl he => simp [he]
    | inr hm =>
      have hne : row.operationId ≠ op.operationId := fun he =>
        hn.1 (he ▸ mem_map_of_mem hm)
      simpa [hne] using ih hm hn.2

variable [IntentType I] {holds : Operation I → Bool}

theorem kept_of_mem_drop {rows : List (Operation I)}
    (h : op ∈ rows.drop (rows.length - retainedRecent)) :
    kept holds rows op.operationId = true := by
  have hm : op.operationId ∈ keep holds rows :=
    mem_append_left _ (mem_append_left _ (mem_map_of_mem h))
  simp [kept, hm]

theorem kept_of_active {rows : List (Operation I)} (hop : op ∈ rows) (h : op.state.active = true) :
    kept holds rows op.operationId = true := by
  have hf : op ∈ rows.filter fun row => row.state.active || holds row := by
    simp [hop, h]
  have hm : op.operationId ∈ keep holds rows :=
    mem_append_left _ (mem_append_right _ (mem_map_of_mem hf))
  simp [kept, hm]

theorem get?_prune (j : Journal I) (id : String) :
    (j.prune holds).get? id = if kept holds j.operations id then j.get? id else none := by
  unfold Journal.get? prune
  generalize hk : kept holds j.operations = k
  induction j.operations with
  | nil => simp
  | cons row rows ih =>
    by_cases hrow : row.operationId = id
    · by_cases hid : k id = true
      · simp [hrow, hid]
      · simpa [hrow, hid] using ih
    · by_cases hkr : k row.operationId = true
      · simpa [hrow] using ih
      · simpa [hrow] using ih

theorem get?_save_self {old : Operation I} (h : j.get? op.operationId = some old) :
    (j.apply (.save op)).get? op.operationId = some op := by
  unfold Journal.get? at h ⊢
  simp only [Journal.apply, written]
  generalize j.operations = rows at h
  induction rows with
  | nil => simp at h
  | cons row rows ih =>
    by_cases hrow : row.operationId = op.operationId
    · simp [hrow]
    · simpa [hrow] using ih (by simpa [hrow] using h)

theorem get?_save_ne (j : Journal I) {id : String} (h : id ≠ op.operationId) :
    (j.apply (.save op)).get? id = j.get? id := by
  unfold Journal.get? Journal.apply written
  induction j.operations with
  | nil => rfl
  | cons row rows ih =>
    by_cases hrow : row.operationId = op.operationId
    · have hne : ¬ row.operationId = id := fun he => h (he ▸ hrow)
      have hne' : ¬ op.operationId = id := fun he => h he.symm
      simpa [hrow, hne'] using ih
    · by_cases hid : row.operationId = id
      · simp [hid, h]
      · simpa [hrow, hid] using ih

theorem get?_save_none (h : j.get? op.operationId = none) : j.apply (.save op) = j := by
  have hnone : ∀ row ∈ j.operations, row.operationId ≠ op.operationId := by
    simpa [Journal.get?] using h
  have hmap : (j.operations.map fun row => if row.operationId = op.operationId then op else row) =
      j.operations := by
    rw [map_congr_left (g := id) fun row hrow => by simp [hnone row hrow]]
    simp
  simp only [Journal.apply, written, hmap]

theorem get?_written_add (holds : Operation I → Bool) (receipt : Option Receipt)
    (h : j.get? op.operationId = none) :
    (j.written holds (.add op receipt)).get? op.operationId = some op := by
  simp only [written, get?_prune]
  have hk : kept holds (j.operations ++ [op]) op.operationId = true := by
    apply kept_of_mem_drop
    rw [drop_append_of_le_length (by simp [retainedRecent])]
    simp
  have hnone : ∀ row ∈ j.operations, ¬ row.operationId = op.operationId := by
    simpa [Journal.get?] using h
  simp only [hk, Journal.get?, find?_append]
  rw [find?_eq_none.mpr (by simpa using hnone)]
  simp

theorem get?_add_self (receipt : Option Receipt) (h : j.get? op.operationId = none) :
    (j.apply (.add op receipt)).get? op.operationId = some op := get?_written_add holdsRows receipt h

theorem get?_add_ne (j : Journal I) (receipt : Option Receipt) {id : String}
    (h : id ≠ op.operationId) : (j.apply (.add op receipt)).get? id =
      if kept holdsRows (j.operations ++ [op]) id then j.get? id else none := by
  have hne : ¬ op.operationId = id := fun he => h he.symm
  simp only [Journal.apply, written, get?_prune]
  simp [Journal.get?, hne]

variable {new : Operation I}

theorem mem_written_save (holds : Operation I → Bool)
    (h : op ∈ (j.written holds (.save new)).operations) :
    op ∈ j.operations ∨ (op = new ∧ ∃ old ∈ j.operations, old.operationId = new.operationId) := by
  simp only [written, mem_map] at h
  obtain ⟨old, hold, he⟩ := h
  split at he
  · rename_i hid
    exact .inr ⟨he.symm, old, hold, hid⟩
  · exact .inl (he ▸ hold)

theorem mem_written_save_ne (holds : Operation I → Bool)
    (h : op ∈ (j.written holds (.save new)).operations) :
    op = new ∨ op ∈ j.operations ∧ op.operationId ≠ new.operationId := by
  simp only [written, mem_map] at h
  obtain ⟨old, hold, rfl⟩ := h
  split
  · exact .inl rfl
  · rename_i hne
    exact .inr ⟨hold, hne⟩

theorem mem_written_add {receipt : Option Receipt}
    (h : op ∈ (j.written holds (.add new receipt)).operations) : op ∈ j.operations ∨ op = new := by
  simp only [written, prune, mem_filter, mem_append, mem_singleton] at h
  exact h.1

theorem mem_save (h : op ∈ (j.apply (.save new)).operations) :
    op ∈ j.operations ∨ (op = new ∧ ∃ old ∈ j.operations, old.operationId = new.operationId) :=
  mem_written_save holdsRows h

theorem mem_add {receipt : Option Receipt}
    (h : op ∈ (j.apply (.add new receipt)).operations) : op ∈ j.operations ∨ op = new :=
  mem_written_add h

end Journal
end Emosa
