import Emosa.C.Journal
import Emosa.C.Release
import Emosa.Lib.Related

/-!
# Emosa.C.Alike

The two engines side by side: the same calls, one after the other, with the same replies, clocks and
IDs. `Same` relates a process of the one to a process of the other. Their records are equal but for
the plan of an operation that was turned away, which only one of them keeps, and for an empty schema
fingerprint.

* `Twin`: a call of both, and what each of them answers (`pyTurn`, `cTurn`).
* `Fitting`: what a call needs so that both read its replies alike.
* `SameJournal.save`, `SameJournal.add`, `SameJournal.claim`, `SameJournal.release`: the writes of
  both.
-/

namespace Emosa.C

open Durable

variable {I : Type} [IntentType I]

/-! ## Records -/

/-- The same record, but for the plan of a rejected operation and the schema fingerprint. -/
def Alike (a b : Operation I) : Prop :=
  ∃ plan fingerprint, b = { a with plan := plan, schemaFingerprint := fingerprint } ∧
    (a.state ≠ .rejected → plan = a.plan)

/-- Under `key` the record has a text or nothing. -/
def named (r : Record) (key : String) : Bool :=
  (r.some? key).all (· matches .str _) && r.get? key ≠ some (.str "")

/-- A record that both engines read alike. -/
structure Fit (op : Operation I) : Prop where
  valid : op.valid = true
  commit : named op.commitEvidence "instance" = true
  application : ∀ evidence, op.applicationEvidence = some evidence →
    named evidence "instance" = true
  rows : plain op.commitEvidence = true
  mapping : ∀ plan, op.plan = some plan → named plan "mapping" = true
  observed : op.state = .observedApplied → op.applicationEvidence ≠ none

theorem some?_named {r : Record} {key : String} (h : named r key = true) :
    r.some? key = (str r key).map .str := by
  obtain ⟨htext, hne⟩ := Bool.and_eq_true_iff.mp h
  unfold Record.some? at htext ⊢
  unfold str
  cases hget : r.get? key with
  | none => rfl
  | some v =>
    rw [hget] at htext hne
    cases htrue : v.truthy with
    | true =>
      rw [Option.filter_some_pos htrue] at htext ⊢
      cases v with
      | str s => rfl
      | _ => cases htext
    | false =>
      rw [Option.filter_some_neg (by simp [htrue])]
      cases v with
      | str s =>
        have hs : s = "" := by simpa [Value.truthy] using htrue
        rw [hs] at hne
        simp at hne
      | _ => rfl

omit [IntentType I] in
theorem Alike.refl (a : Operation I) : Alike a a := ⟨_, _, rfl, fun _ => rfl⟩

theorem written_eq {op : Operation I} (h : Fit op) :
    (op.applicationEvidence.bind (·.some? "instance")).or (op.commitEvidence.some? "instance") =
      (writtenInstance op).map .str := by
  unfold writtenInstance
  rw [some?_named h.commit]
  cases hev : op.applicationEvidence with
  | none => simp
  | some evidence =>
    simp only [Option.bind_some, some?_named (h.application evidence hev)]
    cases str evidence "instance" <;> simp

theorem writtenOnAnotherStart_eq {op : Operation I} (h : Fit op) (current : Option String) :
    Engine.writtenOnAnotherStart op current =
      match writtenInstance op, current with
      | some written, some current => decide (written ≠ current)
      | _, _ => false := by
  unfold Engine.writtenOnAnotherStart
  rw [written_eq h]
  cases writtenInstance op with
  | none => rfl
  | some written =>
    cases current with
    | none => rfl
    | some current =>
      simp only [Value.equal, Value.number?, beq_eq_decide]
      simp

/-! ## Processes -/

/-- What both hold in memory; `busy` says whether an operation of the pod is in execution. -/
structure SameMemory (pod : String) (busy : Bool) (e : Engine) (f : EmEngine) : Prop where
  backends : e.backends = [pod]
  podId : f.podId = pod
  processId : f.processId = e.processId
  budget : e.maxOperations = emMaxOperations
  executing : e.busy = if busy then [pod] else []
  busy : f.busy = busy
  quiesced : e.quiesced = false
  start : e.instances.get? pod = (some f.lastInstance).filter (· ≠ "")
  timers : ∀ t ∈ f.timers, t.id ≠ "" → e.deadlines.get? t.id = some t.deadline

structure SameJournal (j : Journal I) (k : EmJournal I) : Prop where
  rows : List.Forall₂ Alike j.operations k.operations
  receipts : k.receipts = j.receipts
  ownership : k.ownership = j.ownership
  issued : k.issued = j.issued
  distinct : j.Distinct
  fit : ∀ op ∈ j.operations, Fit op
  seen : ∀ pod record, j.ownership.get? pod = some record → record.instanceId ≠ some ""

/-- Both have authority for the same exchange, among those whose operation may still be executed. -/
def SameGuards (e : Engine) (f : EmEngine) (j : Journal I) : Prop :=
  ∀ id, id ∉ j.issued ∨ j.state? id = some .requested → (id ∈ e.wscGuards ↔ f.wscOp = some id)

structure Same (pod : String) (busy : Bool) (p : Proc Engine (Journal I) (Write I))
    (q : Process I) : Prop where
  memory : SameMemory pod busy p.memory q.memory
  journal : SameJournal p.journal q.journal
  guards : SameGuards p.memory q.memory p.journal

/-! ## Calls of both -/

/-- The surroundings of a call, as the other engine has them. -/
def twin (env : Env I) : EmEnv I where
  target i := (IntentType.target env.vault i).mapError (·.code)
  fingerprint i target := some (env.vault.fingerprintIntent i target)
  utc := env.utc
  monotonic := env.monotonic

/-- What a suspended execution is replied, out of the same answers. -/
def Answers.reply (a : Answers) : Stage → Reply
  | .guard => .guard (asked a.guard)
  | .plan => .plan (a.plan.mapError fun why => .emosa ⟨why, "plan"⟩)
  | .snapshot => .snapshot (match a.snapshot with
      | some snap => .ok snap
      | none => .error (.emosa ⟨.notReady, "snapshot"⟩))
  | .recheck _ => .guard (asked a.guardAgain)
  | .submit _ => .submit (.ok ⟨a.submit.status, a.submit.evidence, some a.submit.reason.value⟩)
where
  asked (live : Bool) : Except Exn Unit :=
    if live then .ok () else .error (.emosa ⟨.notReady, "guard"⟩)

/-- An execution to its end, each reply following at once. -/
def drive (env : Env I) (answers : Answers) : Nat → Next I → M I (Operation I)
  | _, .done op => pure op
  | 0, .await _ => raise .other
  | n + 1, .await task => do
    drive env answers n
      (← Engine.resume env ⟨answers.attemptId, answers.transactionId⟩ task (answers.reply task.stage))

/-- An execution suspends five times at most. -/
def executing (env : Env I) (id : String) (answers : Answers) : M I (Operation I) := do
  drive env answers 5 (← Engine.execute id)

/-- A call of both engines. `guard` is what the callers do who hold an exchange's authority. -/
inductive Twin (I : Type) where
  | request (env : Env I) (r : Engine.Request I)
  | execute (env : Env I) (id : String) (answers : Answers)
  | reconcile (env : Env I) (reply : Option Snapshot)
  | cancel (id : String)
  | recover
  | restart (processId : String)
  | guard (wscOp : Option String)

/-- The call in the one engine. A request whose drawn ID was drawn before cannot be made. -/
def Twin.program (pod : String) : Twin I → M I (Option (Operation I))
  | .request env r => do
    if (← journal).issued.contains r.operationId then pure none
    else some <$> Engine.requestInternal env r
  | .execute env id answers => some <$> executing env id answers
  | .reconcile env reply => do
    let _ ← Engine.reconcile env pod (match reply with
      | some snap => .ok snap
      | none => .error .connection)
    pure none
  | .cancel id => some <$> Engine.cancel id
  | .recover => do
    Engine.recover
    pure none
  | .restart processId => do
    remember fun _ => { processId := processId, backends := [pod], maxOperations := emMaxOperations }
    pure none
  | .guard wscOp => do
    remember fun e => { e with wscGuards := wscOp.toList }
    pure none

/-- What the one engine answers, and the process after the call. An exception is no answer. -/
def pyTurn (pod : String) (p : Proc Engine (Journal I) (Write I)) (call : Twin I) :
    Option (Operation I) × Proc Engine (Journal I) (Write I) :=
  match call.program pod p with
  | .ok answer p => (answer, p)
  | .error _ p => (none, p)

def cTurn (q : Process I) : Twin I → Option (Operation I) × Process I
  | .request env r =>
    if q.journal.issued.contains r.operationId then (none, q)
    else
      let (answer, q) := emEngineRequest (twin env) r q
      (answer.toOption, q)
  | .execute env id answers => emEngineExecute (twin env) id answers q
  | .reconcile env reply => (none, emEngineReconcile (twin env) reply q)
  | .cancel id =>
    ((q.journal.get? id).map (moved · .cancelled), emEngineCancel id q)
  | .recover => (none, emEngineRecover q)
  | .restart processId => (none, emStep q (.restart processId))
  | .guard wscOp => (none, emStep q (.guard wscOp))

/-- Both read the snapshot alike: its start has a name or none, and the comparisons with the target
agree. -/
structure Readable (env : Env I) (snap : Snapshot) (intent : I) : Prop where
  start : snap.instanceId ≠ some ""
  compares : ∀ target, IntentType.target env.vault intent = .ok target →
    configMatches snap.config target = emMatches snap.config target ∧
    snap.observed.satisfies target = emSnapshotSatisfies snap target

/-- Both read the answer to a submission alike. -/
structure Answerable (a : SubmitAnswer) : Prop where
  committed : a.status = .committed → a.evidence.holds "transaction_validated" = true ∧
    ∃ s ∈ ["not_submitted", "unknown", "reply"], a.evidence.get? "attribution" = some (.str s)
  start : named a.evidence "instance" = true
  rows : plain a.evidence = true
  error : (a.evidence.some? "database_error").all (· matches .str _) = true

/-- The operation's slot, if it had one, was not lost to a later operation. -/
def Timed (e : Engine) (f : EmEngine) (id : String) : Prop :=
  timer f id = none → e.deadlines.get? id = none

/-- What an execution of this operation needs. -/
structure Executable (pod : String) (j : Journal I) (env : Env I) (answers : Answers)
    (op : Operation I) : Prop where
  mine : op.podId = pod
  unclaimed : j.ownership.get? pod = none
  target : ∃ target, IntentType.target env.vault op.intent = .ok target
  snapshot : ∀ snap, answers.snapshot = some snap → Readable env snap op.intent ∧ 1 ≤ snap.generation
  ids : answers.attemptId ≠ "" ∧ answers.transactionId ≠ ""
  plan : ∀ plan, answers.plan = .ok plan → named plan "mapping" = true
  submit : Answerable answers.submit

/-- What a call needs so that both engines do the same. -/
def Fitting (pod : String) (s : Proc Engine (Journal I) (Write I) × Process I) : Twin I → Prop
  | .request env r =>
    (128 < r.key.length ↔ 128 < r.key.utf8ByteSize) ∧
    ∀ target, IntentType.target env.vault r.intent = .ok target → IntentType.validate r.intent = .ok ()
  | .execute env id answers => ∀ op, s.1.journal.get? id = some op → op.state = .requested →
    Executable pod s.1.journal env answers op
  | .reconcile env reply => ∀ snap, reply = some snap → snap.instanceId ≠ some "" ∧
    env.mapping pod = s.2.memory.mapping ∧ s.2.memory.mapping ≠ some "" ∧
    ∀ op, Engine.target? pod s.1.journal.operations = some op →
      Readable env snap op.intent ∧ Timed s.1.memory s.2.memory op.operationId
  | .cancel id => ∀ op, s.1.journal.get? id = some op →
    op.state = .requested ∨ op.state = .validated
  | _ => True

def turn (pod : String) (s : Proc Engine (Journal I) (Write I) × Process I) (call : Twin I) :
    Proc Engine (Journal I) (Write I) × Process I :=
  ((pyTurn pod s.1 call).2, (cTurn s.2 call).2)

/-! ## Journals -/

section

variable {a b : Operation I}

omit [IntentType I] in
theorem Alike.id (h : Alike a b) : b.operationId = a.operationId := by
  obtain ⟨plan, fingerprint, rfl, -⟩ := h
  rfl

theorem Alike.podId (h : Alike a b) : b.podId = a.podId := by
  obtain ⟨plan, fingerprint, rfl, -⟩ := h
  rfl

omit [IntentType I] in
theorem Alike.state (h : Alike a b) : b.state = a.state := by
  obtain ⟨plan, fingerprint, rfl, -⟩ := h
  rfl

omit [IntentType I] in
theorem Alike.ids {rows rows' : List (Operation I)} (h : List.Forall₂ Alike rows rows') :
    rows'.map Operation.operationId = rows.map Operation.operationId := by
  induction h with
  | nil => rfl
  | cons hab _ ih => rw [List.map_cons, List.map_cons, hab.id, ih]

theorem Alike.valid (h : Alike a b) : b.valid = a.valid := by
  obtain ⟨plan, fingerprint, rfl, -⟩ := h
  rfl

end

namespace SameJournal

variable {j : Journal I} {k : EmJournal I} {a b : Operation I}

variable (h : SameJournal j k)
include h

theorem get? (id : String) : Option.Rel Alike (j.get? id) (k.get? id) :=
  Related.find? h.rows fun a b hab => by rw [hab.id]

theorem fit_of_get? {id : String} (hget : j.get? id = some a) : Fit a :=
  h.fit a (Journal.get?_mem hget)

theorem save (hab : Alike a b) (hfit : Fit a) :
    SameJournal (apply j (.save a)) (apply k (.save b)) where
  __ := h
  rows := by
    refine Related.map h.rows fun x y hxy => ?_
    rw [hxy.id, hab.id]
    split
    · exact hab
    · exact hxy
  distinct := h.distinct.save a
  fit op hop := by
    rcases Journal.mem_save hop with hm | ⟨rfl, -⟩
    · exact h.fit op hm
    · exact hfit

theorem claim (pod : String) {record : Ownership}
    (hseen : record.instanceId ≠ some "") :
    SameJournal (apply j (.conflict pod record)) (apply k (.conflict pod record)) where
  __ := h
  ownership := congrArg (fun o : Dict String Ownership => o.set pod record) h.ownership
  distinct := ⟨h.distinct.nodup, h.distinct.issued⟩
  seen pod' record' hrec := by
    rcases ownership_written holdsRows hrec with hold | he
    · exact h.seen pod' record' hold
    · obtain ⟨-, rfl⟩ := Write.conflict.inj he
      exact hseen

theorem release (pod : String) :
    SameJournal (apply j (.release pod)) (apply k (.release pod)) where
  __ := h
  ownership := congrArg (fun o : Dict String Ownership => o.erase pod) h.ownership
  distinct := ⟨h.distinct.nodup, h.distinct.issued⟩
  seen pod' record' hrec := by
    rcases ownership_written holdsRows hrec with hold | he
    · exact h.seen pod' record' hold
    · cases he

theorem distinct_right : k.toJournal.Distinct := by
  refine ⟨by rw [Alike.ids h.rows]; exact h.distinct.nodup, fun op hop => ?_⟩
  have hid : op.operationId ∈ k.operations.map Operation.operationId := List.mem_map_of_mem hop
  rw [Alike.ids h.rows] at hid
  obtain ⟨old, hold, he⟩ := List.mem_map.mp hid
  rw [h.issued, ← he]
  exact h.distinct.issued old hold

theorem add (hfit : Fit a) (hnew : a.operationId ∉ j.issued)
    (receipt : Option Receipt) :
    SameJournal (apply j (.add a receipt)) (apply k (.add a receipt)) := by
  have hfits : ∀ op ∈ j.operations ++ [a], Fit op := fun op hop =>
    (List.mem_append.mp hop).elim (h.fit op) fun he => List.mem_singleton.mp he ▸ hfit
  have hnew' : a.operationId ∉ k.issued := h.issued ▸ hnew
  have hleft : (apply j (.add a receipt)).operations =
      (Journal.retention emJournalHoldsRows).retain (j.operations ++ [a]) := by
    rw [← Journal.retain_congr holdsRows fun op hop => (holdsRows_eq (hfits op hop).rows).symm]
    exact Journal.prune_operations holdsRows (h.distinct.added hnew receipt)
  have hright : (apply k (.add a receipt)).operations =
      (Journal.retention emJournalHoldsRows).retain (k.operations ++ [a]) :=
    Journal.prune_operations emJournalHoldsRows (h.distinct_right.added hnew' receipt)
  have hrows : List.Forall₂ Alike (j.operations ++ [a]) (k.operations ++ [a]) :=
    List.rel_append h.rows (.cons (.refl a) .nil)
  have hkept : List.Forall₂ Alike
      ((Journal.retention emJournalHoldsRows).retain (j.operations ++ [a]))
      ((Journal.retention emJournalHoldsRows).retain (k.operations ++ [a])) := by
    refine Related.retain rfl (fun x y hxy => ?_) (fun x y hxy => ?_) (fun x y hxy => hxy.podId.symm)
      hrows
    · obtain ⟨plan, fingerprint, rfl, -⟩ := hxy
      rfl
    · obtain ⟨plan, fingerprint, rfl, -⟩ := hxy
      rfl
  refine ⟨hleft ▸ hright ▸ hkept, ?_, h.ownership, congrArg (a.operationId :: ·) h.issued,
    h.distinct.add hnew, fun op hop => hfits op (List.mem_filter.mp hop).1, h.seen⟩
  have hn : ((j.operations ++ [a]).map Operation.operationId).Nodup :=
    (h.distinct.added hnew receipt).nodup
  have hn' : ((k.operations ++ [a]).map Operation.operationId).Nodup := by
    rw [Alike.ids hrows]
    exact hn
  have hstays : ∀ id, Journal.stays emJournalHoldsRows (k.operations ++ [a]) id =
      Journal.stays holdsRows (j.operations ++ [a]) id := by
    intro id
    rw [Bool.eq_iff_iff, Journal.stays_iff _ hn', Journal.stays_iff _ hn, Alike.ids hrows,
      Alike.ids hkept,
      Journal.retain_congr holdsRows fun op hop => (holdsRows_eq (hfits op hop).rows).symm]
  have hreceipts : (k.toJournal.added a receipt).receipts = (j.added a receipt).receipts := by
    unfold Journal.added
    rw [h.receipts]
  calc ((k.toJournal.added a receipt).prune emJournalHoldsRows).receipts
      = (j.added a receipt).receipts.filter fun id _ =>
          Journal.stays emJournalHoldsRows (k.operations ++ [a]) id := by
        rw [Journal.prune_receipts, hreceipts]
        rfl
    _ = ((j.added a receipt).prune holdsRows).receipts := by
        simp only [hstays]
        rfl

end SameJournal

end Emosa.C
