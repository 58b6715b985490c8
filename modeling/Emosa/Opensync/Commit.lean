import Emosa.Opensync.Session

/-!
# Emosa.Opensync.Commit

What a scope's write reports. `commit` sends one transaction and judges its reply: committed,
rejected, conflict (a guard failed) or unknown. The server applies a transaction in full, or not at
all; its reply tells which, and may never arrive.

* `disturbance`: the wait for the reply takes whatever else the pod sends. A message over the
  budget, an update that does not pass, or a new peer that is not the pinned one ends the wait with
  the program's own error, which reads as a refusal by the server; an update without its parameters
  ends it with another exception.
-/

namespace Emosa.Opensync

variable {V : Type}

/-- An operation's result: an object without an error. -/
def OpResult.clean : OpResult → Bool
  | .object none _ => true
  | _ => false

def DatabaseError.short (e : DatabaseError) : String := String.ofList (e.text.toList.take 64)

/-- An error of `check_results`, with the database's own error where it gave one. -/
structure Refusal where
  error : EmosaError
  databaseError : Option String := none

/-- The results one by one against the number of rows each operation has to match. -/
def checkEach : List (OpResult × Option Int) → Except Refusal Unit
  | [] => .ok ()
  | (.other, _) :: _ =>
    .error ⟨⟨.outcomeUnknown, "missing transaction operation result"⟩, none⟩
  | (.object (some e) _, _) :: _ =>
    let code := if e.text = "timed out" then Reason.preconditionFailed else .invalidInput
    .error ⟨⟨code, "transaction rejected by server"⟩, some e.short⟩
  | (.object none count, expected) :: rest =>
    if expected.isSome ∧ count ≠ expected then
      .error ⟨⟨.outcomeUnknown, "unexpected matched-row count"⟩, none⟩
    else checkEach rest

/-- The error of a commit refused after all operations were done: one result more, an error. -/
def refusedCommit (results : List OpResult) (n : Nat) : Option DatabaseError :=
  match results.getLast? with
  | some (.object (some e) _) =>
    if results.length = n + 1 ∧ results.dropLast.all OpResult.clean then some e else none
  | _ => none

def checkResults (payload : Payload V) (counts : List (Option Int)) : Except Refusal Unit :=
  match payload with
  | .results results =>
    match refusedCommit results counts.length with
    | some e => .error ⟨⟨.invalidInput, "transaction not committed by server"⟩, some e.short⟩
    | none =>
      if results.length ≠ counts.length then
        .error ⟨⟨.outcomeUnknown, "incomplete transaction result"⟩, none⟩
      else checkEach (results.zip counts)
  | _ => .error ⟨⟨.outcomeUnknown, "incomplete transaction result"⟩, none⟩

def failedCheck (r : Refusal) : SubmitResult :=
  let evidence : Record := match r.databaseError with
    | some e =>
      ((∅ : Record).set "attribution" (.str "reply")).set "database_error" (.str e)
    | none => ∅
  let status : SubmitStatus := match r.error.code with
    | .preconditionFailed => .conflict
    | .outcomeUnknown => .unknown
    | _ => .rejected
  { status := status, evidence := evidence, reason := some r.error.code.value }

/-- What a scope hands over to be committed. -/
structure Submission where
  counts : List (Option Int)
  attempt : Attempt
  generation : Int
  instanceId : Option String := none
  profile : String
  action : String
  additional : Nat := 0

def Submission.evidence (sub : Submission) : Record :=
  let r := ((((∅ : Record).set "attribution" (.str "reply")).set
    "transaction_validated" (.bool true)).set "transaction_id" (.str sub.attempt.transactionId)).set
    "session_generation" (.int sub.generation)
  let r := match sub.instanceId.filter (· ≠ "") with
    | some start => r.set "instance" (.str start)
    | none => r
  ((r.set "profile" (.str sub.profile)).set "action" (.str sub.action)).set
    "additional_bss_count" (.int sub.additional)

def Submission.wait (sub : Submission) (s : Session V) (discard : Bool) : Session.Wait :=
  ⟨.text sub.attempt.transactionId, s.generation, discard⟩

/-- What the answer to the request, or the lack of one, is reported as. -/
def Submission.report (sub : Submission) : Except Exn (Payload V) → Except Exn SubmitResult
  | .ok payload =>
    match checkResults payload sub.counts with
    | .ok () => .ok { status := .committed, evidence := sub.evidence }
    | .error r => .ok (failedCheck r)
  | .error (.emosa e) => .ok (failedCheck ⟨e, none⟩)
  | .error .other => .error .other
  | .error _ => .ok
      { status := .unknown
        evidence := (∅ : Record).set "attribution" (.str "unknown")
        reason := some Reason.outcomeUnknown.value }

/-- `_commit`, from where the transaction is written to the connection. -/
def commit (s : Session V) (sub : Submission) (discard : Bool) (turns : List (Session.Turn V)) :
    Except Exn SubmitResult :=
  sub.report (Session.request (sub.wait s discard) s turns).2

/-! ## The server -/

/-- The transaction of `n` operations was applied: its reply has one result without an error for each
of them. -/
def applied (n : Nat) : Message V → Bool
  | .reply _ (.results results) => results.length = n && results.all OpResult.clean
  | _ => false

/-- The answer is the server's to the request: a reply or an error. -/
structure Answer (V : Type) (id : Id) where
  message : Message V
  answers : message.answers id = true
  response : ∀ id', message ≠ .request id'

/-- The only message of the request's id that the pod sends is the server's answer. -/
def Honest {id : Id} (answer : Answer V id) (turns : List (Session.Turn V)) : Prop :=
  ∀ link m size, Session.Turn.pass ⟨link, .message m size⟩ ∈ turns → m.answers id = true →
    m = answer.message

/-- Committed is reported of a transaction that was applied, rejected and conflict of one that was
not. -/
def Truthful (applied : Bool) : Except Exn SubmitResult → Prop
  | .ok result =>
    match result.status with
    | .committed => applied = true
    | .rejected | .conflict => applied = false
    | .unknown => True
  | .error _ => False

/-! ## What else may end the wait -/

/-- How a message the request does not wait for ends it. -/
inductive Objection where
  | refused
  | raised
  deriving DecidableEq, Repr

namespace Session

def objects (s : Session V) (m : Message V) (size : Nat) : Option Objection :=
  if s.messageLimit < size then some .refused
  else
    match m with
    | .update [] => some .raised
    | .update (p :: rest) =>
      if p.names s.monitorId then
        match rest with
        | [] => some .raised
        | q :: _ => if (q.updates?.bind (s.admitted false)).isSome then none else some .refused
      else none
    | _ => none

def disturbs (s : Session V) (a : Arrival V) : Option Objection :=
  if s.stranger a.link then some .refused
  else if (s.meet a.link).connected = false then none
  else
    match a.received with
    | .message m size => (s.meet a.link).objects m size
    | _ => none

/-- What ends the wait before the reply, the loss of the connection or the deadline does. -/
def disturbance (w : Wait) : Session V → List (Turn V) → Option Objection
  | s, .pass a :: turns =>
    match s.disturbs a with
    | some o => some o
    | none =>
      match s.hear w a with
      | (_, some _) => none
      | (s, none) => disturbance w s turns
  | _, _ => none

/-- What an objection raises. -/
def Raises (o : Objection) (e : Exn) : Prop :=
  match o with
  | .refused => ∃ err : EmosaError, e = .emosa err ∧
      (err.code = .notReady ∨ err.code = .preconditionFailed)
  | .raised => e = .other

theorem update_fst (s : Session V) (u : Option (Updates V)) (initial : Bool) :
    (s.update u initial).2 = .ok () ∧ (u.bind (s.admitted initial)).isSome = true ∨
    (u.bind (s.admitted initial)).isSome = false ∧
      ∃ err : EmosaError, (s.update u initial).2 = .error (.emosa err) ∧ err.code = .notReady := by
  unfold update
  cases u.bind (s.admitted initial) with
  | none => exact .inr ⟨rfl, _, rfl, rfl⟩
  | some c => exact .inl ⟨rfl, rfl⟩

theorem take_objects (s : Session V) (m : Message V) (size : Nat) :
    (∃ o e, s.objects m size = some o ∧ (s.take m size).2 = .error e ∧ Raises o e) ∨
    s.objects m size = none ∧
      ((s.take m size).2 = .ok none ∨ (s.take m size).2 = .ok (some m)) := by
  unfold objects take
  by_cases hsize : s.messageLimit < size
  · simp only [hsize]
    exact .inl ⟨_, _, rfl, rfl, _, rfl, .inl rfl⟩
  simp only [hsize, if_false]
  cases m with
  | update params =>
    cases params with
    | nil => exact .inl ⟨_, _, rfl, rfl, rfl⟩
    | cons p rest =>
      by_cases hp : p.names s.monitorId = true
      · simp only [hp]
        cases rest with
        | nil => exact .inl ⟨_, _, rfl, rfl, rfl⟩
        | cons q _ =>
          rcases s.update_fst q.updates? false with ⟨hok, hsome⟩ | ⟨hnone, err, herr, hcode⟩
          · simp only [hok, hsome, if_true]
            exact .inr ⟨trivial, .inl rfl⟩
          · simp only [herr, hnone]
            exact .inl ⟨_, _, rfl, rfl, err, rfl, .inl hcode⟩
      · simp only [hp]
        exact .inr ⟨rfl, .inl rfl⟩
  | notify => exact .inr ⟨rfl, .inl rfl⟩
  | reply | error | request => exact .inr ⟨rfl, .inr rfl⟩

theorem pump_disturbs (s : Session V) (a : Arrival V) :
    (∃ o e, s.disturbs a = some o ∧ (s.pump a).2 = .error e ∧ Raises o e) ∨
    s.disturbs a = none ∧
      ((s.pump a).2 = .ok none ∨
        ∃ m size, a.received = .message m size ∧ (s.pump a).2 = .ok (some m)) := by
  unfold disturbs pump
  by_cases hpeer : s.stranger a.link = true
  · simp only [hpeer]
    exact .inl ⟨_, _, rfl, rfl, _, rfl, .inr rfl⟩
  simp only [hpeer]
  by_cases hup : (s.meet a.link).connected = false
  · simp only [hup]
    exact .inr ⟨rfl, .inl rfl⟩
  simp only [hup]
  cases a.received with
  | nothing | broken => exact .inr ⟨rfl, .inl rfl⟩
  | message m size =>
    rcases (s.meet a.link).take_objects m size with ho | ⟨hnone, hok | hok⟩
    · exact .inl ho
    · exact .inr ⟨hnone, .inl hok⟩
    · exact .inr ⟨hnone, .inr ⟨m, size, rfl, hok⟩⟩

/-- The wait is over without a reply, and nothing was judged. -/
def Lost : Exn → Prop
  | .connection | .timeout => True
  | _ => False

/-- How a turn ends the wait where nothing disturbs it: without a reply, or by the message that has
the request's id. -/
theorem hear_undisturbed {s s' : Session V} {w : Wait} {a : Arrival V}
    {r : Except Exn (Payload V)} (hd : s.disturbs a = none) (h : s.hear w a = (s', some r)) :
    (∃ e, r = .error e ∧ Lost e) ∨
      ∃ m size, a.received = .message m size ∧ m.answers w.id = true ∧ r = m.result := by
  rcases s.pump_disturbs a with ⟨o, e, ho, -⟩ | ⟨-, hp⟩
  · rw [hd] at ho
    cases ho
  unfold hear at h
  generalize hpump : s.pump a = out at h hp
  obtain ⟨s₁, r₁⟩ := out
  rcases hp with rfl | ⟨m, size, hm, rfl⟩
  · simp only at h
    split at h
    · cases h
      exact .inl ⟨_, rfl, trivial⟩
    · cases h
  · simp only at h
    split at h
    · cases h
      exact .inl ⟨_, rfl, trivial⟩
    · split at h
      · rename_i hans
        split at h
        · cases h
          exact .inl ⟨_, rfl, trivial⟩
        · cases h
          exact .inr ⟨m, size, hm, hans, rfl⟩
      · cases h

theorem hear_disturbed {s : Session V} {w : Wait} {a : Arrival V} {o : Objection}
    (hd : s.disturbs a = some o) : ∃ s' e, s.hear w a = (s', some (.error e)) ∧ Raises o e := by
  rcases s.pump_disturbs a with ⟨o', e, ho, he, hr⟩ | ⟨hnone, -⟩
  · rw [hd] at ho
    cases ho
    unfold hear
    generalize s.pump a = out at he
    obtain ⟨s₁, r₁⟩ := out
    subst he
    exact ⟨s₁, e, rfl, hr⟩
  · rw [hd] at hnone
    cases hnone

theorem request_ends {w : Wait} (answer : Answer V w.id) (turns : List (Turn V)) (s : Session V)
    (hh : Honest answer turns) :
    match disturbance w s turns with
    | some o => ∃ e, (request w s turns).2 = .error e ∧ Raises o e
    | none => (∃ e, (request w s turns).2 = .error e ∧ Lost e) ∨
        (request w s turns).2 = answer.message.result := by
  induction turns generalizing s with
  | nil => exact .inl ⟨_, rfl, trivial⟩
  | cons t turns ih =>
    cases t with
    | stop => exact .inl ⟨_, rfl, trivial⟩
    | pass a =>
      simp only [disturbance, request]
      cases hd : s.disturbs a with
      | some o =>
        obtain ⟨s', e, hear, hr⟩ := hear_disturbed (w := w) hd
        simp only [hear]
        exact ⟨e, rfl, hr⟩
      | none =>
        generalize hout : s.hear w a = out
        obtain ⟨s', _ | r⟩ := out
        · exact ih s' fun link m size hm => hh link m size (List.mem_cons_of_mem _ hm)
        · simp only
          rcases hear_undisturbed hd hout with hlost | ⟨m, size, hm, hans, rfl⟩
          · exact .inl hlost
          · obtain ⟨link, received⟩ := a
            subst hm
            exact .inr (by rw [hh link m size List.mem_cons_self hans])

end Session

/-! ## The report -/

theorem failedCheck_status (r : Refusal) :
    (failedCheck r).status =
      match r.error.code with
      | .preconditionFailed => .conflict
      | .outcomeUnknown => .unknown
      | _ => .rejected := rfl

/-- What a check of results says of whether they are those of a transaction that was applied: passed,
they are; refused, they are not, unless the outcome is unknown. -/
def Tells (b : Bool) : Except Refusal Unit → Prop
  | .ok _ => b = true
  | .error r => r.error.code ≠ .outcomeUnknown → b = false

theorem checkEach_tells (pairs : List (OpResult × Option Int)) :
    Tells ((pairs.map Prod.fst).all OpResult.clean) (checkEach pairs) := by
  induction pairs with
  | nil => rfl
  | cons pair rest ih =>
    obtain ⟨result, expected⟩ := pair
    match result with
    | .other | .object (some e) count => exact fun _ => by simp [OpResult.clean]
    | .object none count =>
      unfold checkEach
      split
      · exact fun hr => absurd rfl hr
      · simpa [OpResult.clean] using ih

theorem checkResults_tells (id : Id) (payload : Payload V) (counts : List (Option Int)) :
    Tells (applied counts.length (.reply id payload)) (checkResults payload counts) := by
  unfold checkResults
  match payload with
  | .schema _ | .updates _ | .other => exact fun _ => rfl
  | .results results =>
    simp only
    split
    · rename_i e he
      have hlen : results.length = counts.length + 1 := by
        unfold refusedCommit at he
        split at he
        · split at he
          · rename_i hc
            exact hc.1
          · cases he
        · cases he
      exact fun _ => by simp [applied, hlen]
    · split
      · exact fun hr => absurd rfl hr
      · rename_i hlen
        have hlen : results.length = counts.length := Decidable.not_not.mp hlen
        have htells := checkEach_tells (results.zip counts)
        rw [List.map_fst_zip hlen.le] at htells
        simpa only [applied, hlen, decide_true, Bool.true_and] using htells

theorem truthful_failedCheck {r : Refusal} {b : Bool}
    (h : r.error.code ≠ .outcomeUnknown → b = false) : Truthful b (.ok (failedCheck r)) := by
  unfold Truthful
  simp only [failedCheck_status]
  cases hc : r.error.code <;> simp only <;> first | trivial | exact h (by simp [hc])

theorem truthful_answer (sub : Submission) {id : Id} (answer : Answer V id) :
    Truthful (applied sub.counts.length answer.message) (sub.report answer.message.result) := by
  obtain ⟨message, hans, hresp⟩ := answer
  match message with
  | .update _ | .notify => cases hans
  | .request id' => exact absurd rfl (hresp id')
  | .error id' => exact truthful_failedCheck fun _ => rfl
  | .reply id' payload =>
    simp only [Message.result, Submission.report]
    have htells := checkResults_tells id' payload sub.counts
    cases hcheck : checkResults payload sub.counts with
    | ok u =>
      rw [hcheck] at htells
      exact htells
    | error r =>
      rw [hcheck] at htells
      exact truthful_failedCheck htells

theorem truthful_objection (sub : Submission) {o : Objection} {e : Exn} (h : Session.Raises o e)
    (b : Bool) :
    Truthful b (sub.report (.error e : Except Exn (Payload V))) ↔ o = .refused ∧ b = false := by
  cases o with
  | refused =>
    obtain ⟨err, rfl, hcode⟩ := h
    have hstatus : Truthful b (.ok (failedCheck ⟨err, none⟩)) ↔ b = false := by
      unfold Truthful
      simp only [failedCheck_status]
      rcases hcode with hc | hc <;> rw [hc]
    simpa [Submission.report] using hstatus
  | raised =>
    cases h
    simp [Submission.report, Truthful]

/-- The outcome is reported truly, whatever the pod sends, unless something disturbs the wait: a
disturbance that reads as a refusal is true of a transaction that was not applied, and another
exception reports nothing. -/
theorem commit_truthful_iff (s : Session V) (sub : Submission) (discard : Bool)
    (turns : List (Session.Turn V)) (answer : Answer V (sub.wait s discard).id)
    (hh : Honest answer turns) :
    Truthful (applied sub.counts.length answer.message) (commit s sub discard turns) ↔
      match Session.disturbance (sub.wait s discard) s turns with
      | none => True
      | some .refused => applied sub.counts.length answer.message = false
      | some .raised => False := by
  have hends := Session.request_ends answer turns s hh
  unfold commit
  generalize (Session.request (sub.wait s discard) s turns).2 = r at hends
  cases hd : Session.disturbance (sub.wait s discard) s turns with
  | some o =>
    rw [hd] at hends
    obtain ⟨e, rfl, hr⟩ := hends
    rw [truthful_objection sub hr]
    cases o <;> simp
  | none =>
    rw [hd] at hends
    refine ⟨fun _ => trivial, fun _ => ?_⟩
    rcases hends with ⟨e, rfl, hl⟩ | rfl
    · cases e with
      | connection | timeout => trivial
      | emosa | other => cases hl
    · exact truthful_answer sub answer

/-! ## A session with its cache full -/

namespace Sample

/-- One row is cached, and the budget is one row. -/
def session : Session String :=
  { monitorColumns := ∅
    rowLimit := 1
    cache := (∅ : Tables String).set "Node" ((∅ : Rows String).set "a" ∅)
    ready := true
    generation := 1
    monitorId := some "emosa-1"
    schema := some ⟨fun _ => some [], fun _ _ => true, true⟩
    selected := (∅ : Selected).set "Node" []
    connected := true }

def submission : Submission :=
  { counts := [some 1], attempt := ⟨"attempt", "transaction", 1⟩, generation := 1,
    profile := "profile", action := "update" }

def done : Message String := .reply (.text "transaction") (.results [.object none (some 1)])

def answer : Answer String (submission.wait session false).id := ⟨done, rfl, by simp [done]⟩

def replied : Session.Turn String := .pass ⟨.same, .message done 90⟩

/-- The pod inserts a second row and reports it before it answers. -/
def inserted : Session.Turn String :=
  .pass ⟨.same, .message
    (.update [.text "emosa-1", .updates ((∅ : Updates String).set "Node" ((∅ : Dict _ _).set "b" (some ∅)))])
    120⟩

end Sample

open Opensync.Sample

/-- With nothing but the reply the write is reported as what it was. -/
theorem reply_alone_is_true :
    Truthful (applied 1 done)
      (commit session submission false [replied]) :=
  (commit_truthful_iff session submission false [replied] answer (by
    intro link m size hm _
    cases List.mem_singleton.mp hm
    rfl)).mpr trivial

/-- The server applied the transaction and said so. The update it sent before the reply is over the
cache's budget, and the write is reported as rejected. -/
theorem applied_write_rejected :
    Honest answer [inserted, replied] ∧ applied 1 done = true ∧
      ((commit session submission false [inserted, replied]).toOption.map
        SubmitResult.status) = some .rejected ∧
      ¬ Truthful (applied 1 done)
        (commit session submission false [inserted, replied]) := by
  refine ⟨?_, by decide, by decide +kernel, ?_⟩
  · intro link m size hm hans
    simp only [List.mem_cons, List.not_mem_nil, or_false] at hm
    rcases hm with hm | hm
    · cases hm
      cases hans
    · cases hm
      rfl
  · intro h
    have hf : applied 1 done = false := h
    revert hf
    decide

end Emosa.Opensync
