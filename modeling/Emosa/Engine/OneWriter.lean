import Emosa.Engine.Inv

/-!
# Emosa.Engine.OneWriter

At most one operation of a pod holds it. A request journals its operation in one commit and rejects
it in another, so the rule has to hold between the two and across a crash there.

* `active_origin`: no write but the one that adds an operation makes one hold its pod.
* `cut_request_leaves_two_writers`: where such a crash breaks it. `recover` leaves what the cut request
  journaled, and `execute` sends it beside the other one.
-/

namespace Emosa

open Durable Journal

variable {I : Type} [IntentType I] {c : Context I}

/-- The operation counts towards its pod: it is active, and not one just journaled by the request
call still open. -/
def Operation.Counts (openCall : Option String) (op : Operation I) : Prop :=
  op.state.active = true ∧ ¬ (op.state = .requested ∧ openCall = some op.operationId)

instance (openCall : Option String) (op : Operation I) : Decidable (op.Counts openCall) :=
  inferInstanceAs (Decidable (_ ∧ _))

def OneWriter (openCall : Option String) (j : Journal I) : Prop :=
  ∀ op ∈ j.operations, ∀ op' ∈ j.operations, op.podId = op'.podId →
    op.Counts openCall → op'.Counts openCall → op.operationId = op'.operationId

instance (openCall : Option String) (j : Journal I) : Decidable (OneWriter openCall j) :=
  inferInstanceAs (Decidable (∀ op ∈ j.operations, ∀ op' ∈ j.operations, _))

/-- The operation whose request is open. -/
def Call.requesting : Call I → Option String
  | .request r => some r.operationId
  | _ => none

/-- No crash strikes between the commits of a request while another operation holds its pod. -/
def World.Uncut (w : World I) : Action I → Prop
  | .crash env (.request r) commits _ =>
      commits = 0 ∨ (w.writes env (.request r)).length ≤ commits ∨
      ∀ op ∈ w.journal.operations, op.podId = r.podId → op.state.active = false
  | _ => True

theorem active_origin {j : Journal I} {w : Write I} (hs : Sound j) (hw : Permitted c j w)
    {op : Operation I} (hop : op ∈ (Durable.apply j w).operations) (hact : op.state.active = true)
    (hadds : ¬ c.adds op.operationId) :
    ∃ old ∈ j.operations, old.operationId = op.operationId ∧ old.podId = op.podId ∧
      old.state.active = true := by
  cases w with
  | add new receipt =>
    cases mem_add hop with
    | inl hm => exact ⟨op, hm, rfl, rfl, hact⟩
    | inr he =>
      obtain ⟨r, hr, hid, -⟩ := hw.1
      exact absurd ⟨r, hr, hid.symm.trans (by rw [he])⟩ hadds
  | save new =>
    cases mem_save hop with
    | inl hm => exact ⟨op, hm, rfl, rfl, hact⟩
    | inr he =>
      obtain ⟨rfl, old, hold, hid⟩ := he
      have hlaw := hw.2.1 old (hid ▸ hs.get? hold)
      refine ⟨old, hold, hid, by rw [Operation.podId, Operation.podId, hlaw.intent], ?_⟩
      rcases hlaw.moves with (hm | hm) | hm
      · rwa [hm]
      · exact State.active_of_next hm
      · rw [hm.2.1] at hact
        cases hact
  | conflict | release => exact ⟨op, hop, rfl, rfl, hact⟩

/-- At most one of the operations with `counted` IDs holds each pod. -/
def OneOf (counted : String → Prop) (j : Journal I) : Prop :=
  ∀ op ∈ j.operations, ∀ op' ∈ j.operations, counted op.operationId → counted op'.operationId →
    op.podId = op'.podId → op.state.active = true → op'.state.active = true →
    op.operationId = op'.operationId

theorem oneOf_apply {counted : String → Prop} (hadds : ∀ id, counted id → ¬ c.adds id)
    (j : Journal I) (w : Write I) (h : Sound j ∧ OneOf counted j) (hw : Permitted c j w) :
    Sound (Durable.apply j w) ∧ OneOf counted (Durable.apply j w) := by
  refine ⟨sound_apply j w h.1 hw, fun op hop op' hop' hc hc' hpod hact hact' => ?_⟩
  obtain ⟨old, hold, hid, hp, ha⟩ := active_origin h.1 hw hop hact (hadds _ hc)
  obtain ⟨old', hold', hid', hp', ha'⟩ := active_origin h.1 hw hop' hact' (hadds _ hc')
  rw [← hid, ← hid']
  exact h.2 old hold old' hold' (hid ▸ hc) (hid' ▸ hc') (by rw [hp, hp', hpod]) ha ha'

/-- While its request is open, an operation is REQUESTED or has ended. -/
def Opened (r : Engine.Request I) (j : Journal I) : Prop :=
  ∀ op ∈ j.operations, op.operationId = r.operationId →
    op.podId = r.podId ∧ (op.state = .requested ∨ op.state.active = false)

theorem opened_apply {r : Engine.Request I} (hr : c.request = some r)
    (hown : ¬ c.owns r.operationId) (j : Journal I) (w : Write I) (h : Sound j ∧ Opened r j)
    (hw : Permitted c j w) : Sound (Durable.apply j w) ∧ Opened r (Durable.apply j w) := by
  refine ⟨sound_apply j w h.1 hw, fun op hop hid => ?_⟩
  cases w with
  | add new receipt =>
    cases mem_add hop with
    | inl hm => exact h.2 op hm hid
    | inr he =>
      obtain ⟨r', hr', -, hintent⟩ := hw.1
      obtain rfl := Option.some.inj (hr.symm.trans hr')
      rw [he, Operation.podId, hintent]
      exact ⟨rfl, .inl hw.2.2.2.1⟩
  | save new =>
    cases mem_save hop with
    | inl hm => exact h.2 op hm hid
    | inr he =>
      obtain ⟨rfl, old, hold, hold'⟩ := he
      have hlaw := hw.2.1 old (hold' ▸ h.1.get? hold)
      have hnot : ¬ c.owns old.operationId := by rw [hold', hid]; exact hown
      obtain ⟨hpod, hst⟩ := h.2 old hold (hold'.trans hid)
      refine ⟨by rw [Operation.podId, hlaw.intent]; exact hpod, .inr ?_⟩
      cases hst with
      | inl hreq =>
        rcases hlaw.mine (.inl hreq) with hst | hst | hst
        · rw [hst]; rfl
        · exact absurd hst hnot
        · rw [hst.2]; rfl
      | inr hend =>
        rcases hlaw.moves with (hm | hm) | hm
        · rwa [← hm]
        · simp [State.active_of_next hm] at hend
        · rw [hm.2.1]; rfl
  | conflict | release => exact h.2 op hop hid

/-- A pod that no other operation holds stays so while a request for it is open. -/
theorem free_apply {r : Engine.Request I} (hr : c.request = some r) (j : Journal I) (w : Write I)
    (h : Sound j ∧ ∀ op ∈ j.operations, op.podId = r.podId → op.state.active = true →
      op.operationId = r.operationId) (hw : Permitted c j w) :
    Sound (Durable.apply j w) ∧ ∀ op ∈ (Durable.apply j w).operations, op.podId = r.podId →
      op.state.active = true → op.operationId = r.operationId := by
  refine ⟨sound_apply j w h.1 hw, fun op hop hpod hact => ?_⟩
  by_contra hne
  have hadds : ¬ c.adds op.operationId := by
    rintro ⟨r', hr', hid⟩
    obtain rfl := Option.some.inj (hr.symm.trans hr')
    exact hne hid.symm
  obtain ⟨old, hold, hid, hp, ha⟩ := active_origin h.1 hw hop hact hadds
  exact hne (hid ▸ h.2 old hold (hp.trans hpod) ha)

/-! ## From writes to calls -/

variable {j : Journal I} {r : Engine.Request I}

theorem OneOf.oneWriter (h : OneOf (fun _ => True) j) (openCall : Option String) :
    OneWriter openCall j := fun op hop op' hop' hpod hc hc' =>
  h op hop op' hop' trivial trivial hpod hc.1 hc'.1

theorem Opened.oneWriter (ho : Opened r j) (h : OneOf (· ≠ r.operationId) j) :
    OneWriter (some r.operationId) j := by
  -- the operation of the open call does not count, in whichever state it is
  have hne : ∀ op ∈ j.operations, op.Counts (some r.operationId) →
      op.operationId ≠ r.operationId := by
    intro op hop hc hid
    cases (ho op hop hid).2 with
    | inl hst => exact hc.2 ⟨hst, by rw [hid]⟩
    | inr hst => simp [hc.1] at hst
  intro op hop op' hop' hpod hc hc'
  exact h op hop op' hop' (hne op hop hc) (hne op' hop' hc') hpod hc.1 hc'.1

/-- The one operation that could make a second writer is the one just requested. -/
theorem Opened.oneOf (ho : Opened r j) (h : OneOf (· ≠ r.operationId) j)
    (hfree : ∀ op ∈ j.operations, op.podId = r.podId → op.state.active = true →
      op.operationId = r.operationId) : OneOf (fun _ => True) j := by
  intro op hop op' hop' _ _ hpod hact hact'
  by_cases hid : op.operationId = r.operationId
  · have hp := (ho op hop hid).1
    rw [hid, hfree op' hop' (hpod ▸ hp) hact']
  · by_cases hid' : op'.operationId = r.operationId
    · have hp := (ho op' hop' hid').1
      rw [hid', hfree op hop (hpod.trans hp) hact]
    · exact h op hop op' hop' hid hid' hpod hact hact'

theorem OneOf.of_rejected (hs : Sound j) (h : OneOf (· ≠ r.operationId) j)
    (hrej : j.state? r.operationId = some .rejected) : OneOf (fun _ => True) j := by
  have hne : ∀ op ∈ j.operations, op.state.active = true → op.operationId ≠ r.operationId := by
    intro op hop hact hid
    rw [← hid, Journal.state?, hs.get? hop] at hrej
    rw [Option.some.inj hrej] at hact
    cases hact
  intro op hop op' hop' _ _ hpod hact hact'
  exact h op hop op' hop' (hne op hop hact) (hne op' hop' hact') hpod hact hact'

namespace World

variable {w : World I}

theorem request_cut (hw : Inv w) (h : OneOf (fun _ => True) w.journal) (env : Env I)
    (hen : w.enabled (.request r) = true) (k : Nat) :
    OneOf (· ≠ r.operationId) (replay w.journal ((w.writes env (.request r)).take k)) ∧
      Opened r (replay w.journal ((w.writes env (.request r)).take k)) := by
  have hperm := (call_permits hw env (.request r)).1.take k
  have hfresh : r.operationId ∉ w.journal.issued := fresh_of_enabled hen
  have hnone : Opened r w.journal := fun op hop hid =>
    absurd (hid ▸ hw.sound.distinct.issued op hop) hfresh
  have hadds : ∀ id, id ≠ r.operationId → ¬ (w.context env (.request r)).adds id := by
    rintro id hne ⟨r', ⟨⟩, hid⟩
    exact hne hid.symm
  have hsome : OneOf (· ≠ r.operationId) w.journal := fun op hop op' hop' _ _ =>
    h op hop op' hop' trivial trivial
  exact ⟨(hperm.replay (oneOf_apply hadds) ⟨hw.sound, hsome⟩).2,
    (hperm.replay (opened_apply rfl fun hc => hc) ⟨hw.sound, hnone⟩).2⟩

theorem other_cut (hw : Inv w) (h : OneOf (fun _ => True) w.journal) (env : Env I)
    {call : Call I} (hcall : (w.context env call).request = none) (k : Nat) :
    OneOf (fun _ => True) (replay w.journal ((w.writes env call).take k)) :=
  (((call_permits hw env call).1.take k).replay (oneOf_apply fun _ _ => not_adds hcall)
    ⟨hw.sound, h⟩).2

theorem request_returns (hw : Inv w) (h : OneOf (fun _ => True) w.journal) (env : Env I) :
    OneOf (fun _ => True) (replay w.journal (w.writes env (.request r))) := by
  by_cases hen : w.enabled (.request r) = true
  · have hreq : Requested (w.context env (.request r)) w.journal r ⟨w.engine, w.journal, []⟩
        (w.outcome env (.request r)).1 := by
      refine call_of_wp (Q := fun _ p => Requested (w.context env (.request r)) w.journal r
        ⟨w.engine, w.journal, []⟩ p) ?_
      have hstart := Follows.start (Permitted (w.context env (.request r))) w.engine w.journal
      simp only [body, wp_bind]
      refine wp_mono (requestInternal_follows hw.sound hstart (fresh_of_enabled hen) rfl) ?_
      rintro (x | op) p hp
      · exact hp
      · exact hp
    have hjournal : (w.outcome env (.request r)).1.journal =
        replay w.journal (w.writes env (.request r)) := by
      rw [writes, if_pos hen]
      exact hreq.follows.replayed
    have hs := hw.sound.follows hreq.follows
    have hpre := request_cut hw h env hen (w.writes env (.request r)).length
    rw [List.take_length, ← hjournal] at hpre
    rw [← hjournal]
    rcases hreq.ends with hsame | hrej | hacc
    · rw [hsame]
      exact h
    · exact hpre.1.of_rejected hs hrej
    · exact hpre.2.oneOf hpre.1 hacc.2
  · rw [writes, if_neg hen]
    exact h

theorem crash_request_cut (hw : Inv w) (h : OneOf (fun _ => True) w.journal) (env : Env I)
    {k : Nat} {next : Setup} (hok : w.Uncut (.crash env (.request r) k next)) :
    OneOf (fun _ => True) (replay w.journal ((w.writes env (.request r)).take k)) := by
  rcases hok with rfl | hall | hfree
  · exact h
  · rw [List.take_of_length_le hall]
    exact request_returns hw h env
  · by_cases hen : w.enabled (.request r) = true
    · have hpre := request_cut hw h env hen k
      have hperm := (call_permits hw env (.request r)).1.take k
      refine hpre.2.oneOf hpre.1 (hperm.replay (free_apply rfl) ⟨hw.sound, ?_⟩).2
      intro op hop hpod hact
      simp [hfree op hop hpod] at hact
    · rw [writes, if_neg hen, List.take_nil]
      exact h

theorem request_or_other (call : Call I) :
    (∃ r, call = .request r) ∨ ∀ (w : World I) env, (w.context env call).request = none := by
  cases call with
  | request r => exact .inl ⟨r, rfl⟩
  | _ => exact .inr fun _ _ => rfl

theorem one_step (a : Action I) (hw : Inv w ∧ OneOf (fun _ => True) w.journal)
    (hok : w.Uncut a) : Inv (w.step a) ∧ OneOf (fun _ => True) (w.step a).journal := by
  refine ⟨inv_step w a hw.1, ?_⟩
  rw [(commits_permits hw.1 a).2]
  rcases request_or_other a.made with ⟨r, hr⟩ | hother
  · cases a with
    | call env call =>
      obtain rfl : call = .request r := hr
      exact request_returns hw.1 hw.2 env
    | crash env call k next =>
      obtain rfl : call = .request r := hr
      exact crash_request_cut hw.1 hw.2 env hok
  · obtain ⟨k, hk⟩ := w.commits_eq a
    rw [hk]
    exact other_cut hw.1 hw.2 a.env (hother w a.env) k

/-- Between the commits of an action, only the operation of an open request is not counted. -/
theorem one_moments (a : Action I) (hw : Inv w ∧ OneOf (fun _ => True) w.journal)
    {m : Journal I} (hm : m ∈ w.moments a) : OneWriter a.made.requesting m := by
  obtain ⟨k, rfl⟩ := mem_moments hm
  obtain ⟨k', hk'⟩ := w.commits_eq a
  rw [hk', List.take_take]
  rcases request_or_other a.made with ⟨r, hr⟩ | hother
  · rw [hr]
    by_cases hen : w.enabled (.request r) = true
    · have hpre := request_cut hw.1 hw.2 a.env hen (min k k')
      exact hpre.2.oneWriter hpre.1
    · rw [writes, if_neg hen, List.take_nil]
      exact hw.2.oneWriter _
  · exact (other_cut hw.1 hw.2 a.env (hother w a.env) _).oneWriter _

theorem one_run {s : Setup} {as : List (Action I)} (h : Meets step Uncut (init s) as) :
    Inv ((init s).run as) ∧ OneOf (fun _ => True) ((init s).run as).journal :=
  runs_invariant (P := fun w => Inv w ∧ OneOf (fun _ => True) w.journal)
    (fun _ a hw hok => one_step a hw hok) h
    ⟨inv_init s, fun op hop => by simp [init] at hop⟩

end World

/-- In every run in which no crash cuts a request between its commits while another operation holds
the pod, each pod has one writer: before the action, at each of its commits, and after it. -/
theorem one_writer (s : Setup) (as : List (Action I)) (a : Action I)
    (h : Meets World.step World.Uncut (World.init s) (as ++ [a])) :
    OneWriter none ((World.init s).run as).journal ∧
      (∀ m ∈ ((World.init s).run as).moments a, OneWriter a.made.requesting m) ∧
      OneWriter none ((World.init s).run (as ++ [a])).journal := by
  obtain ⟨has, ha⟩ := (meets_append _ as [a]).mp h
  have hrun := World.one_run has
  exact ⟨hrun.2.oneWriter none, fun m hm => World.one_moments a hrun hm,
    (World.one_run h).2.oneWriter none⟩

open Sample

/-- A request for a free pod, cut after it journaled its operation, and a second one after the
recovery. -/
theorem one_writer_cut_alone :
    let w := (World.init setup).run
      [.crash (env 0) (.request (request "a" "first")) 1 setup,
        .call (env 0) .recover,
        .call (env 0) (.request (request "b" "second"))]
    w.journal.operations.map (fun op => (op.operationId, op.state)) =
        [("a", .requested), ("b", .rejected)] ∧
      OneWriter none w.journal := by
  refine ⟨by decide +kernel, (one_writer setup [_, _] _ ?_).2.2⟩
  exact ⟨.inr (.inr (by simp [World.init])), trivial, trivial, trivial⟩

/-- The reply to the first write is lost, so its outcome is unknown. The process dies while it
requests a second one, recovers, and executes it. -/
def cutRequest : List (Action Intent) :=
  executed "a" "first" bare ++ [.call (env 0) (.resume 0 (.submit (.error .connection)) draw),
    .crash (env 0) (.request (request "b" "second")) 1 setup,
    .call (env 0) .recover,
    .call (env 0) (.execute "b"),
    .call (env 0) (.resume 0 (.plan (.ok ∅)) draw),
    .call (env 0) (.resume 0 (.snapshot (.ok bare)) draw)]

theorem cut_request_leaves_two_writers :
    ((World.init setup).run cutRequest).journal.operations.map
        (fun op => (op.operationId, op.podId, op.state)) =
      [("a", "pod", .indeterminate), ("b", "pod", .submitted)] ∧
    ¬ OneWriter none ((World.init setup).run cutRequest).journal := by
  decide +kernel

end Emosa
