import Emosa.Wire.Channel

/-!
# Emosa.Wire.ChannelLaw

Whose policy the record has for a radio. A request that accepts a radio is meant to replace that
radio's policy and no other's; the record is written as a whole, with the radios of the request.
-/

namespace Emosa.Wire

open Outside List
namespace Channel

open Durable (Prog Proc At Always wp)
open Reports (ReportStamp)
open Wsc (PeerBinding)

/-! ## Entries -/

def entry (r : Option Record) (ruid : Bytes) : Option Stored :=
  r.bind fun r => r.radios.find? (·.ruid = ruid)

/-- The record after some judged requests. -/
def stored (start : Option Record) (ws : List Judged) : Option Record :=
  ws.foldl (fun r w => w.save r) start

/-- What the last request that accepted the radio said of it. -/
def lastAccepted (start : Option Record) (ws : List Judged) (ruid : Bytes) : Option Stored :=
  (ws.reverse.findSome? fun w => w.accepted.find? (·.ruid = ruid)).or (entry start ruid)

/-- A request that accepts a radio accepts every radio with an entry. -/
def Covers (r : Option Record) (w : Judged) : Prop :=
  w.accepted ≠ [] → ∀ ruid, entry r ruid ≠ none → ∃ p ∈ w.accepted, p.ruid = ruid

theorem stored_snoc (start : Option Record) (ws : List Judged) (w : Judged) :
    stored start (ws ++ [w]) = w.save (stored start ws) := by
  simp [stored]

theorem lastAccepted_snoc (start : Option Record) (ws : List Judged) (w : Judged) (ruid : Bytes) :
    lastAccepted start (ws ++ [w]) ruid =
      (w.accepted.find? (·.ruid = ruid)).or (lastAccepted start ws ruid) := by
  rw [lastAccepted, reverse_append, reverse_singleton, singleton_append, findSome?_cons]
  cases w.accepted.find? (·.ruid = ruid) <;> rfl

theorem entry_save (w : Judged) (r : Option Record) (ruid : Bytes) :
    entry (w.save r) ruid =
      if w.accepted = [] then entry r ruid else w.accepted.find? (·.ruid = ruid) := by
  unfold Judged.save
  split <;> rfl

theorem find_accepted {w : Judged} {ruid : Bytes} :
    w.accepted.find? (·.ruid = ruid) = none ↔ ¬ ∃ p ∈ w.accepted, p.ruid = ruid := by
  simp

theorem entry_save_iff {start : Option Record} {ws : List Judged} (w : Judged)
    (h : ∀ ruid, entry (stored start ws) ruid = lastAccepted start ws ruid) :
    (∀ ruid, entry (stored start (ws ++ [w])) ruid = lastAccepted start (ws ++ [w]) ruid) ↔
      Covers (stored start ws) w := by
  simp only [stored_snoc, lastAccepted_snoc, entry_save, ← h]
  by_cases hnone : w.accepted = []
  · simp [hnone, Covers]
  · simp only [Covers, ne_eq, hnone, not_false_eq_true, true_implies]
    refine forall_congr' fun ruid => ?_
    cases hfind : w.accepted.find? (·.ruid = ruid) with
    | some p =>
      have hex : ∃ p ∈ w.accepted, p.ruid = ruid := by
        by_contra hno
        rw [find_accepted.mpr hno] at hfind
        cases hfind
      simpa using fun _ => hex
    | none =>
      have hno := find_accepted.mp hfind
      exact ⟨fun heq hne => absurd heq.symm hne, fun hcov => by
        by_contra hne
        exact hno (hcov fun he => hne he.symm)⟩

theorem entries_iff (start : Option Record) (judged : List Judged) :
    (∀ ws, ws <+: judged → ∀ ruid, entry (stored start ws) ruid = lastAccepted start ws ruid) ↔
      ∀ ws w, ws ++ [w] <+: judged → Covers (stored start ws) w := by
  constructor
  · intro h ws w hw
    have hws : ws <+: judged := ⟨[w] ++ hw.choose, by rw [← append_assoc, hw.choose_spec]⟩
    exact (entry_save_iff w (h ws hws)).mp (h _ hw)
  · intro h ws
    induction ws using List.reverseRecOn with
    | nil =>
      simp [stored, lastAccepted]
    | append_singleton ws w ih =>
      intro hw
      have hws : ws <+: judged := ⟨[w] ++ hw.choose, by rw [← append_assoc, hw.choose_spec]⟩
      exact (entry_save_iff w (ih hws)).mpr (h ws w hw)

/-! ## Runs -/

/-- The ledger has only requests of the run, judged as the code does. -/
structure Sound (asked : Message → Prop) (start : Option Record) (l : Ledger) : Prop where
  record : l.record = stored start l.judged
  judged : ∀ w ∈ l.judged, selectedPolicy w.tlvs w.radios = .ok w.policies ∧
    ∃ m, asked m ∧ m.mid = w.mid ∧ m.tlvs = w.tlvs

/-- Only requests of the run wait, and the ledger is sound. -/
def Kept (asked : Message → Prop) (start : Option Record) (c : ChannelCoordinator) (l : Ledger) :
    Prop :=
  (∀ e ∈ c.waiting.entries, asked e.2.message) ∧ Sound asked start l

section Always

variable {asked : Message → Prop} {start : Option Record} {world : World}

theorem kept_change {f : ChannelCoordinator → ChannelCoordinator}
    (h : ∀ c, (f c).waiting = c.waiting) :
    Always (Kept asked start) (Durable.change f : ChannelAct Unit) := by
  refine .change fun c l hk => ⟨?_, hk.2⟩
  rw [h]
  exact hk.1

theorem kept_forget (key : RequestKey) :
    Always (Kept asked start)
      (Durable.change fun c => { c with waiting := c.waiting.erase key } : ChannelAct Unit) :=
  .change fun _ _ hk => ⟨fun e he => hk.1 e (mem_of_mem_filter he), hk.2⟩

namespace ChannelCoordinator

theorem kept_snapshot : Always (Kept asked start) (snapshot world) := by
  refine .bind (.read _) fun s => .bind .self fun c => ?_
  cases s with
  | none => exact always_refuse _ _
  | some s => exact .ite (always_refuse _ _) (.pure _)

theorem kept_stamp : Always (Kept asked start) (stamp world) :=
  .bind kept_snapshot fun _ => .pure _

theorem kept_send {kind mid : Nat} {tlvs : List Tlv} {s : Snapshot} {deadline : ℚ} :
    Always (Kept asked start) (send world kind mid tlvs s deadline) :=
  .bind .self fun _ => .bind (always_liftE _) fun _ =>
    PreparedReport.always_send (fun _ _ => always_sendFrame) kept_stamp always_now

theorem kept_transmit {s : Snapshot} {pending : PendingOperating} :
    Always (Kept asked start) (transmit world s pending) :=
  .bind (.read _) fun _ => .bind kept_send fun _ => .bind always_now fun _ =>
    kept_change fun _ => rfl

theorem kept_notify {s : Snapshot} {radios : List OperatingRadio} :
    Always (Kept asked start) (notify world s radios) :=
  .bind always_now fun _ => .bind (kept_change fun _ => rfl) fun _ =>
    .bind kept_transmit fun _ => kept_change fun _ => rfl

theorem kept_commit {w : Judged} (h : selectedPolicy w.tlvs w.radios = .ok w.policies)
    (hm : ∃ m, asked m ∧ m.mid = w.mid ∧ m.tlvs = w.tlvs) :
    Always (Kept asked start) (Durable.commit w : ChannelAct Unit) := by
  refine .commit fun c l hk => ⟨hk.1, ?_, fun w' hw' => ?_⟩
  · show w.save l.record = stored start (l.judged ++ [w])
    rw [stored_snoc, hk.2.record]
  · rcases mem_append.mp hw' with hw' | hw'
    · exact hk.2.judged w' hw'
    · rw [mem_singleton.mp hw']
      exact ⟨h, hm⟩

theorem kept_persist {w : Judged} (h : selectedPolicy w.tlvs w.radios = .ok w.policies)
    (hm : ∃ m, asked m ∧ m.mid = w.mid ∧ m.tlvs = w.tlvs) :
    Always (Kept asked start) (persist world w) := by
  refine .ite (.bind (.read _) fun e => ?_) (kept_commit h hm)
  cases e with
  | none => exact kept_commit h hm
  | some e => exact .raise e

variable {message : Message}

theorem kept_answerSelection (hm : asked message) (receivedAt : ℚ) (s : Snapshot) :
    Always (Kept asked start) (answerSelection world message receivedAt s) := by
  refine always_liftE_bind fun radios _ => always_liftE_bind fun policies hpol => ?_
  refine .bind kept_stamp fun _ => .bind always_now fun _ => .bind (always_liftE _) fun _ =>
    .bind always_now fun _ => .ite (always_refuse _ _) (.bind .self fun c => ?_)
  have hjudged : selectedPolicy message.tlvs radios =
      .ok (Judged.mk c.binding message.mid message.tlvs radios s.contextToken).policies := by
    rw [Judged.policies, hpol]
    rfl
  exact .bind (kept_persist hjudged ⟨message, hm, rfl, rfl⟩) fun _ =>
    .bind (kept_change fun _ => rfl) fun _ => .bind kept_send fun _ =>
      .bind always_now fun _ => .bind (kept_change fun _ => rfl) fun _ =>
        .bind kept_notify fun _ => .pure _

theorem kept_answer (hm : asked message) (receivedAt : ℚ) (s : Snapshot) :
    Always (Kept asked start) (answer world message receivedAt s) := by
  refine .ite (.ite (always_liftE _) ?_) (kept_answerSelection hm receivedAt s)
  exact .bind kept_send fun _ => .bind always_now fun _ =>
    .bind (kept_change fun _ => rfl) fun _ => .pure _

theorem kept_tickWaiting (now : ℚ) (key : RequestKey) {q : Waiting} (hq : asked q.message) :
    Always (Kept asked start) (tickWaiting world now key q) := by
  refine .ite (kept_forget key) (.bind (.attempt ?_) fun outcome => ?_)
  · refine .bind kept_snapshot fun s => .ite (always_refuse _ _) (.ite (.pure _) ?_)
    exact .bind (kept_forget key) fun _ => .bind (kept_answer hq _ _) fun _ => .pure _
  · match outcome with
    | .ok _ => exact .pure _
    | .error (.emosa _) => exact kept_forget key
    | .error .connection | .error .timeout | .error .other => exact .raise _

theorem kept_tickIdle : Always (Kept asked start) (tickIdle world) := by
  refine .bind .self fun c => .ite (.bind (.attempt ?_) fun found => ?_) (.pure _)
  · exact .bind kept_snapshot fun _ => .bind (always_liftE _) fun _ => .pure _
  · match found with
    | .ok (s, radios) => exact .ite kept_notify (.pure _)
    | .error (.emosa _) => exact .pure _
    | .error .connection | .error .timeout | .error .other => exact .raise _

theorem kept_tickPending (now : ℚ) (pending : PendingOperating) :
    Always (Kept asked start) (tickPending world now pending) := by
  refine .bind (.attempt ?_) fun found => ?_
  · exact .bind kept_snapshot fun _ => .bind (always_liftE _) fun _ =>
      .ite (always_refuse _ _) (.pure _)
  · match found with
    | .ok s => exact .ite (kept_change fun _ => rfl) (.ite kept_transmit (.pure _))
    | .error (.emosa _) => exact kept_change fun _ => rfl
    | .error .connection | .error .timeout | .error .other => exact .raise _

theorem kept_tick : Always (Kept asked start) (tick world) := by
  refine .bind always_now fun now => .bind (kept_change fun _ => rfl) fun _ =>
    .self_bind fun c hc => .bind (.forM fun e he => ?_) fun _ => .bind .self fun c => ?_
  · obtain ⟨_, hk⟩ := hc
    exact kept_tickWaiting now e.1 (hk.1 e he)
  · cases c.pending with
    | none => exact kept_tickIdle
    | some pending => exact kept_tickPending now pending

theorem kept_scan {receivedAt : ℚ} : Always (Kept asked start) (scan world message receivedAt) := by
  refine .bind kept_tick fun _ => .bind kept_snapshot fun s => .bind .self fun c => .ite (.pure _) ?_
  refine .bind always_now fun _ => .ite (always_refuse _ _) ?_
  refine .bind (always_liftE _) fun _ => .bind (always_liftE _) fun _ => .bind (.read _) fun _ => ?_
  exact .bind kept_send fun _ => .bind always_now fun _ =>
    .bind (kept_change fun _ => rfl) fun _ => .bind (.read _) fun _ =>
      .bind always_now fun _ => .bind kept_send fun _ => .pure _

theorem kept_wait (hm : asked message) (key : RequestKey) (receivedAt : ℚ) (context : String) :
    Always (Kept asked start) (Durable.change fun c =>
      { c with waiting := c.waiting.set key ⟨message, receivedAt, context⟩ } : ChannelAct Unit) := by
  refine .change fun c l hk => ⟨fun e he => ?_, hk.2⟩
  have hget : (c.waiting.set key ⟨message, receivedAt, context⟩).get? e.1 = some e.2 :=
    Dict.get?_eq_some_iff.mpr he
  rw [Dict.get?_set] at hget
  split at hget
  · rw [← Option.some.inj hget]
    exact hm
  · exact hk.1 e (Dict.get?_eq_some_iff.mp hget)

theorem kept_handleRequest (hm : asked message) (receivedAt : ℚ) :
    Always (Kept asked start) (handleRequest world message receivedAt) := by
  refine .bind kept_tick fun _ => .bind kept_snapshot fun s => .bind .self fun c => ?_
  refine .ite (.pure _) (.ite (.pure _) (.bind always_now fun _ => ?_))
  refine .ite (always_refuse _ _) (.ite (.ite (.pure _) ?_) (kept_answer hm _ _))
  exact .bind (kept_wait hm _ _ _) fun _ => .pure _

theorem kept_handle (hm : asked message) (receivedAt : ℚ) :
    Always (Kept asked start) (handle world message receivedAt) :=
  .ite (.bind kept_scan fun _ => .pure _)
    (.ite (.pure _) (.bind (kept_handleRequest hm _) fun _ => .pure _))

theorem kept_ack {ingress : String} {generation : Nat} :
    Always (Kept asked start) (ack world message ingress generation) := by
  refine .bind .self fun c => .bind (always_liftE _) fun _ => ?_
  cases c.pending with
  | none => exact .pure _
  | some pending =>
    refine .ite (.pure _) (.bind kept_snapshot fun s => .bind always_now fun _ => ?_)
    refine .bind (.ite (.pure _) (.bind (always_liftE _) fun _ => .pure _)) fun _ => ?_
    exact .ite (.bind (kept_change fun _ => rfl) fun _ => .pure _)
      (.ite (always_liftE _) (.bind (kept_change fun _ => rfl) fun _ => .pure _))

end ChannelCoordinator

theorem kept_act {call : Call} (h : ∀ m t, call = .handle m t → asked m) :
    Always (Kept asked start) (call.act world) := by
  cases call with
  | handle message receivedAt =>
    exact .bind (ChannelCoordinator.kept_handle (h _ _ rfl) _) fun _ => .pure _
  | tick => exact ChannelCoordinator.kept_tick
  | ack message ingress generation =>
    exact .bind ChannelCoordinator.kept_ack fun _ => .pure _
  | moved => exact kept_change fun _ => rfl
  | close =>
    intro p hk
    exact ⟨fun e he => (not_mem_nil he).elim, hk.2⟩

end Always

def Asked (calls : List Call) (message : Message) : Prop := ∃ t, Call.handle message t ∈ calls

theorem session_sound (world : World) (binding : PeerBinding) (start : Option Record)
    (calls : List Call) : Sound (Asked calls) start (session world binding start calls) := by
  have hrun : ∀ (cs : List Call) (p : Process), (∀ c ∈ cs, c ∈ calls) →
      Kept (Asked calls) start p.memory.self p.journal →
      Kept (Asked calls) start (Durable.runs (step world) p cs).memory.self
        (Durable.runs (step world) p cs).journal := by
    intro cs
    induction cs with
    | nil => exact fun _ _ hk => hk
    | cons c cs ih =>
      intro p hcs hk
      refine ih _ (fun d hd => hcs d (mem_cons_of_mem c hd)) ?_
      have hact : wp (c.act world) (fun _ p' => Kept (Asked calls) start p'.memory.self p'.journal) p :=
        kept_act (fun m t he => ⟨t, he ▸ hcs c mem_cons_self⟩) p hk
      unfold step
      unfold wp at hact
      split at hact <;> rename_i heq <;> rw [heq] <;> exact hact
  refine (hrun calls _ (fun _ hc => hc) ⟨?_, rfl, ?_⟩).2
  · exact fun _ he => (not_mem_nil he).elim
  · exact fun _ he => (not_mem_nil he).elim

/-- In every run, of whatever world: the record is what the judged requests make of it, each of them a
well-formed request of the run; and after each of them every radio's entry is the one last accepted for
it, just when each of them that accepts a radio accepts all of those with an entry. -/
theorem policy_kept_iff (world : World) (binding : PeerBinding) (resetPolicy : Bool)
    (kept : Option Record) (calls : List Call) :
    let start := firstRecord binding resetPolicy kept
    let l := session world binding start calls
    Sound (Asked calls) start l ∧
      ((∀ ws, ws <+: l.judged →
          ∀ ruid, entry (stored start ws) ruid = lastAccepted start ws ruid) ↔
        ∀ ws w, ws ++ [w] <+: l.judged → Covers (stored start ws) w) :=
  ⟨session_sound world binding _ calls, entries_iff _ _⟩

/-! ## Two radios -/

namespace TwoRadios

def binding : PeerBinding :=
  ⟨"eth0", 1, [2, 0, 0, 0, 0, 9], [2, 0, 0, 0, 0, 8], [[2, 0, 0, 0, 0, 8]]⟩

def first : OperatingRadio where
  ruid := [2, 0, 0, 0, 0, 1]
  operatingClass := 81
  channel := 6
  txPowerDbm := 18
  valid := by decide

def second : OperatingRadio where
  ruid := [2, 0, 0, 0, 0, 2]
  operatingClass := 115
  channel := 36
  txPowerDbm := 18
  valid := by decide

def capability (r : OperatingRadio) : RadioCapability :=
  ⟨r.ruid, (advertised r.operatingClass).map fun c =>
    ⟨c, (classChannels c).filter (· ≠ r.channel), 20⟩⟩

def snapshot : Snapshot :=
  ⟨⟨"a", 0, 1⟩, "a", [capability first, capability second], [first, second]⟩

def world : World where
  clock := fun _ => 0
  current := fun _ => some snapshot
  link := fun _ => none
  mids := id
  utc := fun _ => []
  saves := fun _ => none

def limit (mid : Nat) (r : OperatingRadio) : Call :=
  .handle ⟨binding.localAl, binding.controllerAl, 0x8006, mid, false, [⟨0x8D, r.ruid ++ [20]⟩], 1⟩ 0

def ledger : Ledger :=
  session world binding (firstRecord binding true none) [limit 1 first, limit 2 second]

end TwoRadios

/-- Both requests are accepted; the second leaves the first radio without its policy. -/
theorem policy_dropped :
    TwoRadios.ledger.judged.map (fun w => (w.mid, w.accepted.map Stored.ruid)) =
        [(1, [TwoRadios.first.ruid]), (2, [TwoRadios.second.ruid])] ∧
      entry TwoRadios.ledger.record TwoRadios.first.ruid = none ∧
      lastAccepted (firstRecord TwoRadios.binding true none) TwoRadios.ledger.judged
        TwoRadios.first.ruid = some ⟨TwoRadios.first.ruid, [], some 20, []⟩ := by
  decide +kernel

end Channel
end Emosa.Wire
