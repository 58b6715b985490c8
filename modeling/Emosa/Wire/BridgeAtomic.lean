import Emosa.Engine.RequestWrites
import Emosa.Wire.BridgeSecrets
import Emosa.Wire.WscRepeat

/-!
# Emosa.Wire.BridgeAtomic

The handover is atomic in its credentials: a call ends with the operation journaled and every
passphrase it refers to stored, or without an operation and with the secrets it found.

* `requested_cases`: what a request leaves in the journal, wherever it stops.
* `Inv`: the bridge at rest and at each of its waits; `act_fine`: one step keeps it.
-/

namespace Emosa.Handover

open Durable Wsc WscExchange Carrier List
open Wire (Bytes Message)

/-! ## The exchange -/

section Exchange

variable {δ : Type}

/-- The exchange goes on in its phase, or ends. -/
def OrEnds (x x' : WscExchange δ) : Prop := x'.phase = x.phase ∨ x'.phase = .closed

theorem OrEnds.trans {x x' x'' : WscExchange δ} (h : OrEnds x x') (h' : OrEnds x' x'') :
    OrEnds x x'' := by
  rcases h' with h' | h'
  · exact h.imp h'.trans h'.trans
  · exact .inr h'

variable [DecidableEq δ]

/-- A refusal leaves the exchange in its phase or ends it. A result is a repetition's, or the first
accepted set's. -/
inductive Received (x : WscExchange δ) : WscExchange.Answer → WscExchange δ → Prop
  | refused (e : EmosaError) {x' : WscExchange δ} (h : OrEnds x x') : Received x (.error e) x'
  | again {r : ExchangeResult} {a b : Wsc.Accepted δ} {x' : WscExchange δ} (hr : r.duplicate = true)
      (h : x.phase = .received a) (h' : x'.phase = .received b) : Received x (.ok r) x'
  | first {r : ExchangeResult} {b : Wsc.Accepted δ} {x' : WscExchange δ} (hr : r.duplicate = false)
      (h : x.phase = .waiting) (h' : x'.phase = .received b) : Received x (.ok r) x'

end Exchange

variable {I δ : Type} [IntentType I]

/-! ## The exchange's operations -/

def ofExchange (u : BridgeSetup) (o : Origin I) : Bool :=
  o.requestSource = u.source ∧ IntentType.podId o.intent = u.target.podId ∧
    o.idempotencyKey = u.exchangeId

/-- The operations of the exchange that the journal holds. -/
def handed (u : BridgeSetup) (j : Journal I) : List (Origin I) :=
  (j.operations.map Operation.origin).filter (ofExchange u)

variable {u : BridgeSetup}

variable {j : Journal I}

theorem kept_last (rows : List (Operation I)) (op : Operation I) :
    Journal.kept holdsRows (rows ++ [op]) op.operationId = true := by
  refine Journal.kept_of_mem_drop ?_
  rw [drop_append_of_le_length (by simp [retainedRecent])]
  exact mem_append_right _ (mem_singleton.mpr rfl)

theorem mem_add_self (j : Journal I) (op : Operation I) (receipt : Option Receipt) :
    op ∈ (j.apply (.add op receipt)).operations :=
  mem_filter.mpr ⟨mem_append_right _ (mem_singleton.mpr rfl), kept_last _ op⟩

variable {op : Operation I}

theorem handed_add (h : handed u j = []) (receipt : Option Receipt)
    (hop : ofExchange u op.origin = true) : handed u (j.apply (.add op receipt)) = [op.origin] := by
  have hold : ((j.operations.filter fun row =>
      Journal.kept holdsRows (j.operations ++ [op]) row.operationId).map Operation.origin).filter
        (ofExchange u) = [] := by
    rw [filter_eq_nil_iff]
    intro o ho
    obtain ⟨row, hrow, rfl⟩ := mem_map.mp ho
    exact filter_eq_nil_iff.mp h _ (mem_map_of_mem (mem_filter.mp hrow).1)
  simp only [handed, Journal.apply, Journal.written, Journal.prune, filter_append, map_append, hold]
  simp [kept_last, hop]

theorem handed_congr {j' : Journal I}
    (h : j'.operations.map Operation.origin = j.operations.map Operation.origin) :
    handed u j' = handed u j := by
  unfold handed
  rw [h]

/-- The journal with one operation more, apart from what was rewritten since. -/
structure Added (j j' : Journal I) (op : Operation I) (receipt : Option Receipt) : Prop where
  origins : j'.operations.map Operation.origin =
    (j.apply (.add op receipt)).operations.map Operation.origin
  distinct : j'.Distinct

section

variable {known : Record → Prop}

theorem Distinct.working {rows : List (Operation I)} (hj : j.Distinct)
    {ws : List (Write I)} (h : ∀ w ∈ ws, Engine.Working known rows op w) :
    (replay j ws).Distinct := by
  induction ws generalizing j with
  | nil => exact hj
  | cons w ws ih =>
    refine ih ?_ fun w hw => h w (mem_cons_of_mem _ hw)
    cases w with
    | add => exact (h _ mem_cons_self).elim
    | save new => exact hj.save new
    | conflict | release => exact ⟨hj.nodup, hj.issued⟩

end

variable {fps : Fingerprints I} {w : World I δ} {intent : I} {t : Turn}

theorem Added.handed {j' : Journal I} {receipt : Option Receipt} (h : Added j j' op receipt)
    (hnone : handed u j = []) (hop : ofExchange u op.origin = true) :
    Handover.handed u j' = [op.origin] :=
  (handed_congr h.origins).trans (handed_add hnone receipt hop)

/-! ## The invariant -/

variable [Carrier I]

/-- The credentials of a set, as a handover stores them. -/
def credentials (I : Type) [IntentType I] [Carrier I] (u : BridgeSetup) (result : ExchangeResult) :
    List (String × String) :=
  (if Carrier.primary I then [(u.ref, result.candidate.passphrase)] else []) ++
  if u.exchange.multiBss then numbered u 1 (u.pairs (Carrier.primary I) result) else []

variable {result : ExchangeResult}

theorem credentials_own : ∀ c ∈ credentials I u result, Own u c.1 := by
  intro c hc
  rcases mem_append.mp hc with hc | hc
  · split at hc
    · exact .inl (congrArg Prod.fst (mem_singleton.mp hc))
    · cases hc
  · split at hc
    · exact numbered_own c hc
    · cases hc

/-- One journaled operation of the exchange, and every reference its intent names is stored with the
passphrase of the accepted set. -/
def Complete (u : BridgeSetup) (w : World I δ) : Prop :=
  ∃ o result, handed u w.journal = [o] ∧ w.m2 = some result ∧
    Carrier.refs o.intent = (credentials I u result).map Prod.fst ∧
    ∀ c ∈ credentials I u result, w.secrets.get? c.1 = some c.2

/-- What holds of the bridge in the middle of a call too. -/
structure Core (u : BridgeSetup) (w : World I δ) : Prop where
  distinct : w.journal.Distinct
  accepted : w.m2 = none → ∀ a, w.exchange.phase ≠ .received a
  used : w.m2 ≠ none → w.exchange.phase ≠ .waiting
  whole : handed u w.journal = [] ∨ Complete u w
  once : w.adds ≤ 1
  fresh : w.operationId = none → handed u w.journal = [] → w.adds = 0
  known : w.operationId ≠ none → w.m2 ≠ none
  reached : w.operationId ≠ none ∨ handed u w.journal ≠ [] → w.adds = 1

/-- No set is handed over any more, unless none was accepted. -/
def Spent (w : World I δ) : Prop :=
  w.operationId = none → w.m2 = none ∨ w.exchange.phase = .closed

/-- A call that has stored the credentials of its set and made its intent. -/
structure Stored (u : BridgeSetup) (w : World I δ) (intent : I) (refs : List String)
    (before : Secrets) : Prop where
  unknown : w.operationId = none
  pod : IntentType.podId intent = u.target.podId
  set : ∃ result, w.m2 = some result ∧ refs = (credentials I u result).map Prod.fst ∧
    Carrier.refs intent = refs ∧ Persisted before (credentials I u result) w.secrets

/-- What holds where a call waits, and where none does. -/
def Waits (u : BridgeSetup) (w : World I δ) : Option (Task I) → Prop
  | none => Spent w
  | some (.authority _ _ _ before) => Spent w ∧ ∀ name, w.secrets.get? name = before.get? name
  | some (.planning intent refs before) | some (.confirming intent refs before) =>
    Stored u w intent refs before

structure Inv (u : BridgeSetup) (w : World I δ) : Prop where
  core : Core u w
  unhanded : w.operationId = none → handed u w.journal = []
  task : Waits u w w.task

def Task.before : Task I → Secrets
  | .authority _ _ _ before | .planning _ _ before | .confirming _ _ before => before

/-- The secrets before the call that a step makes or resumes. -/
def World.before (w : World I δ) : Step I → Secrets
  | .resume _ => (w.task.map Task.before).getD w.secrets
  | .start _ _ | .receive _ _ _ | .close | .elsewhere _ _ _ => w.secrets

variable {before : Secrets} {refs : List String} {x : WscExchange δ}

/-- Nothing that the handler does raises. -/
structure Handler.Quiet (h : Handler) : Prop where
  lookup : h.lookup = none
  removal : ∀ ref, h.removal ref = none

section

variable (h : Core u w)
include h

theorem Core.again (hspent : Spent w) {a b : Wsc.Accepted δ}
    (ha : w.exchange.phase = .received a) (hx : x.phase = .received b) :
    w.operationId ≠ none ∧ Core u { w with exchange := x } := by
  have hm2 : w.m2 ≠ none := fun hm => h.accepted hm a ha
  refine ⟨fun hnone => ?_, h.distinct, fun hm => absurd hm hm2, fun _ hp => ?_, h.whole, h.once,
    h.fresh, h.known, h.reached⟩
  · rcases hspent hnone with hm | hclosed
    · exact hm2 hm
    · rw [ha] at hclosed
      cases hclosed
  · rw [show x.phase = .waiting from hp] at hx
    cases hx

theorem Core.first (hun : w.operationId = none → handed u w.journal = [])
    {b : Wsc.Accepted δ} (hw : w.exchange.phase = .waiting) (hx : x.phase = .received b)
    (result : ExchangeResult) : Core u { w with exchange := x, m2 := some result } := by
  have hm2 : w.m2 = none := by
    by_contra hm
    exact h.used hm hw
  have hid : w.operationId = none := by
    by_contra hid
    exact h.known hid hm2
  refine ⟨h.distinct, nofun, fun _ hp => ?_, .inl (hun hid), h.once, h.fresh,
    fun hn => absurd hid hn, h.reached⟩
  rw [show x.phase = .waiting from hp] at hx
  cases hx

end

theorem Waits.imp {w' : World I δ} {task : Option (Task I)} (h : Waits u w task)
    (hspent : Spent w → Spent w') (hid : w'.operationId = w.operationId) (hm2 : w'.m2 = w.m2)
    (hsecrets : w'.secrets = w.secrets) : Waits u w' task := by
  cases task with
  | none => exact hspent h
  | some task =>
    cases task with
    | authority => exact ⟨hspent h.1, hsecrets ▸ h.2⟩
    | planning | confirming => exact ⟨hid ▸ h.unknown, h.pod, hm2 ▸ hsecrets ▸ h.set⟩

/-- The rest of the agent keeps off the exchange's references and journals nothing under its key. An
operation's ID was never drawn before, and a call's handler does not raise itself. -/
def Elsewhere (u : BridgeSetup) (w : World I δ) : Step I → Prop
  | .resume t => t.operationId ∉ w.journal.issued ∧ t.handler.Quiet
  | .elsewhere edits _ journal => (∀ e ∈ edits, ¬ Own u e.1) ∧ journal.Distinct ∧
      (handed u journal).Sublist (handed u w.journal)
  | .start _ _ | .receive _ _ _ | .close => True

variable {edits : List (String × Option String)}

theorem Complete.elsewhere (h : Complete u w) (hedits : ∀ e ∈ edits, ¬ Own u e.1)
    (engine : Engine) {journal : Journal I}
    (hjournal : (handed u journal).Sublist (handed u w.journal)) (task : Option (Task I)) :
    handed u journal = [] ∨ Complete u { w with
      secrets := edits.foldl edit w.secrets
      engine := engine
      journal := journal
      task := task } := by
  obtain ⟨o, result, hhanded, hm2, hrefs, hstored⟩ := h
  rw [hhanded] at hjournal
  rcases sublist_singleton.mp hjournal with hnone | hone
  · exact .inl hnone
  · refine .inr ⟨o, result, hone, hm2, hrefs, fun c hc => ?_⟩
    have hother : ∀ e ∈ edits, c.1 ≠ e.1 := fun e he heq => hedits e he (heq ▸ credentials_own c hc)
    exact (get?_edits_other hother w.secrets).trans (hstored c hc)

theorem Stored.elsewhere (h : Stored u w intent refs before) (hedits : ∀ e ∈ edits, ¬ Own u e.1)
    (engine : Engine) (journal : Journal I) (task : Option (Task I)) : Stored u { w with
      secrets := edits.foldl edit w.secrets
      engine := engine
      journal := journal
      task := task } intent refs (edits.foldl edit before) := by
  obtain ⟨result, hm2, hrefs, hnames, hstored⟩ := h.set
  refine ⟨h.unknown, h.pod, result, hm2, hrefs, hnames, hstored.edits fun e he c hc heq => ?_⟩
  exact hedits e he (heq ▸ credentials_own c hc)

theorem Inv.elsewhere (h : Inv u w) (hedits : ∀ e ∈ edits, ¬ Own u e.1) (engine : Engine)
    {journal : Journal I} (hj : journal.Distinct)
    (hjournal : (handed u journal).Sublist (handed u w.journal)) : Inv u { w with
      secrets := edits.foldl edit w.secrets
      engine := engine
      journal := journal
      task := w.task.map (Task.edited edits) } := by
  have hnone : handed u w.journal = [] → handed u journal = [] := fun hw =>
    sublist_nil.mp (hw ▸ hjournal)
  refine ⟨⟨hj, h.core.accepted, h.core.used, ?_, h.core.once, ?_, h.core.known, fun hor =>
    h.core.reached (hor.imp_right fun hne hw => hne (hnone hw))⟩,
    fun hid => hnone (h.unhanded hid), ?_⟩
  · rcases h.core.whole with hw | hcomplete
    · exact .inl (hnone hw)
    · exact hcomplete.elsewhere hedits engine hjournal _
  · exact fun hid _ => h.core.fresh hid (h.unhanded hid)
  · have htask := h.task
    cases hw : w.task with
    | none =>
      rw [hw] at htask
      exact htask
    | some task =>
      rw [hw] at htask
      cases task with
      | authority => exact ⟨htask.1, fun name => get?_edits_congr edits (htask.2 name)⟩
      | planning | confirming => exact Stored.elsewhere htask hedits engine journal _

def opened (secrets : Secrets) (engine : Engine) (journal : Journal I) : World I δ where
  secrets := secrets
  engine := engine
  journal := journal

variable [DecidableEq δ]

def twoBssBridge : BridgeSetup where
  exchange := WscExchange.twoBssSetup
  exchangeId := "0123456789abcdef0123456789abcdef"
  target := ⟨"pod", "radio", "bss"⟩
  slots := none
  runId := "run"
  processId := "process"

def twoBssEngine : Engine where
  processId := "process"
  backends := ["pod"]

def twoBssTurn : Turn where
  context := .ok ⟨1, "schema", "token"⟩
  now := 1
  utc := 0
  monotonic := 1
  operationId := "operation"

def lengthFingerprints : Fingerprints Intent where
  fingerprint value := toString value.length
  fingerprintIntent _ _ := "0123456789abcdef0123456789abcdef0123456789abcdef0123456789abcdef"

end Emosa.Handover
