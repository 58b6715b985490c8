import Mathlib.Tactic.Linarith
import Emosa.Lib.Log
import Emosa.Wire.BackhaulSteering

/-!
# Emosa.Wire.BackhaulMoves

What becomes of a backhaul move the executor was asked for. Every call does one of a few things
(`Does`); a response that cannot be sent after the move was taken off the books is the one that loses
it.

* `move_lost`: a link that refuses one frame.
-/

namespace Emosa.Wire

open Durable List
namespace BackhaulSteering

open Durable (Prog Proc At Looked wp wp_mono wp_bind)

variable {world : World} {session : Nat} {p : Process}

/-! ## Responses -/

/-- The response of a request, begun at the `n`-th reading, goes out completely. -/
def Replies (world : World) (session n mid : Nat) (tlvs : List Tlv) (s : Snapshot) : Prop :=
  ∃ frames, fragmentMessage (world.binding session).controllerAl (world.binding session).localAl
      responseType mid tlvs false 1500 = .ok frames ∧
    world.Passes Snapshot.stamp
      ⟨responseType, mid, s.stamp, min (world.clock n + 1) s.stamp.validUntil, frames⟩
      frames.length (n + 1)

theorem wp_send {kind mid : Nat} {tlvs : List Tlv} {s : Snapshot} {deadline : ℚ} :
    wp (send world session kind mid tlvs s deadline)
      (fun res p' => Looked p p' ∧
        (∀ u, res = .ok u → ∃ frames, fragmentMessage (world.binding session).controllerAl
            (world.binding session).localAl kind mid tlvs false 1500 = .ok frames ∧
          p'.memory.turn = p.memory.turn + 5 * frames.length) ∧
        ∀ frames, fragmentMessage (world.binding session).controllerAl
            (world.binding session).localAl kind mid tlvs false 1500 = .ok frames →
          world.Passes Snapshot.stamp
            ⟨kind, mid, s.stamp, min deadline s.stamp.validUntil, frames⟩ frames.length
            p.memory.turn → ∃ u, res = .ok u) p := by
  unfold send
  rw [wp_bind]
  cases hf : fragmentMessage (world.binding session).controllerAl (world.binding session).localAl
      kind mid tlvs false 1500 with
  | error e => exact ⟨.refl p, nofun, nofun⟩
  | ok frames =>
    simp only [liftE, wp_pure]
    refine wp_mono Outside.wp_send ?_
    rintro res p' ⟨hlook, hturn, hok⟩
    refine ⟨hlook, fun u hu => ⟨frames, rfl, hturn u hu⟩, ?_⟩
    rintro _ ⟨⟩ hpass
    exact hok hpass

theorem length_empty {destination source : Bytes} {kind mid : Nat} {relay : Bool}
    {frames : List Bytes}
    (h : fragmentMessage destination source kind mid [] relay 1500 = .ok frames) :
    frames.length = 1 := by
  unfold fragmentMessage at h
  split at h
  · cases h
  · obtain ⟨hlen, -⟩ := Except.mapM_ok h
    rw [hlen]
    rfl

theorem wp_respond {mid : Nat} {request : Request} {error : Nat} {s : Snapshot}
    {station : Option Bytes} :
    wp (respond world session mid request error s station)
      (fun _ p' => p.memory.turn < p'.memory.turn ∧
        ((p'.memory.self = { p.memory.self with
            answered := p.memory.self.answered.set mid
              ⟨request, error, world.clock p.memory.turn + 30, station⟩ } ∧
          p'.journal = p.journal ++ [.answered mid error (world.clock p.memory.turn)]) ∨
        (p'.memory.self = p.memory.self ∧ p'.journal = p.journal ∧
          ¬ Replies world session p.memory.turn mid (responseTlvs request error station) s))) p := by
  unfold respond Outside.now
  simp only [wp_bind, wp_read]
  refine wp_mono wp_send ?_
  rintro (e | u) p' ⟨hlook, -, hok⟩
  · refine ⟨hlook.turn, .inr ⟨hlook.self, hlook.journal, ?_⟩⟩
    rintro ⟨frames, hf, hpass⟩
    obtain ⟨u, hu⟩ := hok frames hf hpass
    cases hu
  · refine ⟨hlook.turn, .inl ⟨?_, ?_⟩⟩
    · simp only [Proc.commit_memory, hlook.self]
    · show p'.journal ++ [_] = _
      rw [hlook.journal]

/-! ## What a call does -/

/-- The answers that have not expired. -/
def Shared.swept (s : Shared) (now : ℚ) : Shared :=
  { s with answered := s.answered.filter fun _ a => now < a.expiry }

/-- The responses a call has to send do go out: that of a move whose outcome is known or whose deadline
has come, and that of a request the executor refuses. The readings are counted from the call's first. -/
def Delivers (world : World) (p : Process) : Call → Prop
  | .tick session => ∀ q s, p.memory.self.pending = some q →
      (world.outcome (p.memory.turn + 1) ≠ none ∨ q.deadline ≤ world.clock p.memory.turn) →
      world.current (p.memory.turn + 2) = some s →
      if world.outcome (p.memory.turn + 1) = some .applied then
        Replies world session (p.memory.turn + 4) q.mid
          (responseTlvs q.request 0 (world.associated (p.memory.turn + 3))) s
      else
        Replies world session (p.memory.turn + 3) q.mid
          (responseTlvs q.request associationFailed none) s
  | .handle session message _ => ∀ request s reason, decodeRequest message.tlvs = .ok request →
      world.current (p.memory.turn + 1) = some s → p.memory.self.pending = none →
      (p.memory.self.swept (world.clock p.memory.turn)).answered.get? message.mid = none →
      world.executor (p.memory.turn + 7) = some reason →
      Replies world session (p.memory.turn + 8) message.mid
        (responseTlvs request (refusalCode reason) none) s
  | .close _ => True

/-- What a call that takes the readings from `n` to `n'` makes of the shared state and the log. In two
of the cases a response `fails`. -/
inductive Does (world : World) (n n' : Nat) (s : Shared) (log : List Event) (fails : Prop) :
    Shared → List Event → Prop
  | same : Does world n n' s log fails s log
  | closed (session : Nat) : Does world n n' s log fails { s with closed := session :: s.closed } log
  | swept : Does world n n' s log fails (s.swept (world.clock n)) log
  | replied (k mid : Nat) (a : Answer) (hk : n ≤ k) (hk' : k < n')
      (ha : a.expiry = world.clock k + 30)
      (hmid : (s.swept (world.clock n)).answered.get? mid = none → ∀ q, s.pending = some q → q.mid ≠ mid) :
      Does world n n' s log fails
        { s.swept (world.clock n) with
          answered := (s.swept (world.clock n)).answered.set mid a }
        (log ++ [.answered mid a.error (world.clock k)])
  | refused (k mid : Nat) (a : Answer) (hk : n ≤ k) (hk' : k < n')
      (ha : a.expiry = world.clock k + 30) (hpending : s.pending = none)
      (hnew : (s.swept (world.clock n)).answered.get? mid = none) :
      Does world n n' s log fails
        { s.swept (world.clock n) with
          answered := (s.swept (world.clock n)).answered.set mid a }
        (log ++ [.executed mid false (world.clock n), .answered mid a.error (world.clock k)])
  | dropped (mid : Nat) (hfails : fails) :
      Does world n n' s log fails (s.swept (world.clock n))
        (log ++ [.executed mid false (world.clock n)])
  | started (mid : Nat) (request : Request) (hpending : s.pending = none)
      (hnew : (s.swept (world.clock n)).answered.get? mid = none) :
      Does world n n' s log fails
        { s.swept (world.clock n) with
          pending := some ⟨mid, request, world.clock n + 120⟩ }
        (log ++ [.executed mid true (world.clock n)])
  | gaveUp (q : Pending) (hpending : s.pending = some q) :
      Does world n n' s log fails { s with pending := none } (log ++ [.unanswered q.mid])
  | settled (q : Pending) (k : Nat) (a : Answer) (hk : n ≤ k) (hk' : k < n')
      (ha : a.expiry = world.clock k + 30) (herror : a.error = errorOf (world.outcome (n + 1)))
      (hpending : s.pending = some q) :
      Does world n n' s log fails
        { s with pending := none, answered := s.answered.set q.mid a }
        (log ++ [.answered q.mid a.error (world.clock k)])
  | lost (q : Pending) (hfails : fails) (hpending : s.pending = some q) :
      Does world n n' s log fails { s with pending := none } log

/-- The response to a move that is over. -/
theorem settle_does {q : Pending} {error : Nat} {s : Snapshot} {station : Option Bytes} {n : Nat}
    {old : Shared} {fails : Prop} (hq : old.pending = some q)
    (hself : p.memory.self = { old with pending := none }) (hn : n ≤ p.memory.turn)
    (herror : error = errorOf (world.outcome (n + 1)))
    (hfails : ¬ Replies world session p.memory.turn q.mid (responseTlvs q.request error station) s →
      fails) :
    wp (respond world session q.mid q.request error s station) (fun _ p' => (n ≤ p'.memory.turn ∧
      Does world n p'.memory.turn old p.journal fails p'.memory.self p'.journal) ∧
      p'.memory.self.pending = none) p := by
  refine wp_mono wp_respond ?_
  rintro _ p' ⟨hturn, ⟨hself', hlog⟩ | ⟨hself', hlog, hno⟩⟩ <;>
    refine ⟨⟨hn.trans hturn.le, ?_⟩, by rw [hself', hself]⟩ <;>
    rw [hself', hlog, hself]
  · exact .settled q _ ⟨q.request, error, _, station⟩ hn hturn rfl herror hq
  · exact .lost q (hfails hno) hq

/-- The tick, and that it ends a move thirty seconds after its deadline at the latest. -/
theorem tick_does :
    wp (tick world session) (fun _ p' => (p.memory.turn ≤ p'.memory.turn ∧
      Does world p.memory.turn p'.memory.turn p.memory.self p.journal
        (¬ Delivers world p (.tick session)) p'.memory.self p'.journal) ∧
      ∀ q, p.memory.self.pending = some q → q.deadline + 30 ≤ world.clock p.memory.turn →
        p'.memory.self.pending = none) p := by
  unfold tick
  simp only [wp_bind, wp_self]
  cases hq : p.memory.self.pending with
  | none => exact ⟨⟨Nat.le_refl _, .same⟩, by simp⟩
  | some q =>
    simp only [Outside.now, wp_bind, wp_read]
    split
    · rename_i hearly
      refine ⟨⟨Nat.le_add_right _ 2, .same⟩, ?_⟩
      rintro _ ⟨⟩ hlate
      linarith [hearly.2]
    rename_i hdue
    simp only [wp_bind, wp_read]
    have hdue' : world.outcome (p.memory.turn + 1) ≠ none ∨
        q.deadline ≤ world.clock p.memory.turn := by
      by_contra hno
      obtain ⟨hno, hlt⟩ := not_or.mp hno
      exact hdue ⟨not_not.mp hno, not_le.mp hlt⟩
    cases hs : world.current (p.memory.turn + 1 + 1) with
    | none =>
      simp only
      split
      · rename_i hearly
        refine ⟨⟨Nat.le_add_right _ 3, .same⟩, ?_⟩
        rintro _ ⟨⟩ hlate
        exact absurd hearly (not_lt.mpr hlate)
      · exact ⟨⟨Nat.le_add_right _ 3, .gaveUp q hq⟩, fun _ _ _ => rfl⟩
    | some s =>
      simp only [wp_bind, wp_change, stationAfter]
      by_cases happlied : world.outcome (p.memory.turn + 1) = some .applied
      · simp only [happlied, if_true, wp_read]
        refine wp_mono (settle_does hq rfl (Nat.le_add_right _ 4) (by rw [happlied]) fun hno hd =>
          hno ?_) fun _ _ h => ⟨h.1, fun _ _ _ => h.2⟩
        have hreplies := hd q s hq hdue' hs
        rw [if_pos happlied] at hreplies
        exact hreplies
      · simp only [happlied, if_false, wp_pure]
        have herror : errorOf (world.outcome (p.memory.turn + 1)) = associationFailed := by
          unfold errorOf
          split
          · rename_i h
            exact absurd h happlied
          · rfl
        refine wp_mono (settle_does hq rfl (Nat.le_add_right _ 3) rfl fun hno hd => hno ?_)
          fun _ _ h => ⟨h.1, fun _ _ _ => h.2⟩
        have hreplies := hd q s hq hdue' hs
        rw [if_neg happlied] at hreplies
        rw [herror]
        exact hreplies

theorem start_does {message : Message} {request : Request} {s : Snapshot} {n : Nat} {old : Shared}
    {log : List Event} {fails : Prop} (hself : p.memory.self = old.swept (world.clock n))
    (hlog : p.journal = log) (hturn : p.memory.turn = n + 7)
    (hnew : (old.swept (world.clock n)).answered.get? message.mid = none)
    (hother : ∀ q, old.pending = some q → q.mid ≠ message.mid)
    (hfails : ∀ reason, old.pending = none → world.executor (n + 7) = some reason →
      ¬ Replies world session (n + 8) message.mid
        (responseTlvs request (refusalCode reason) none) s → fails) :
    wp (start world session message request s (world.clock n)) (fun _ p' => n ≤ p'.memory.turn ∧
      Does world n p'.memory.turn old log fails p'.memory.self p'.journal) p := by
  have hn : n ≤ p.memory.turn := by omega
  -- A request that is refused without asking the executor.
  have hrefuse : ∀ reason, wp (respond world session message.mid request (refusalCode reason) s none)
      (fun _ p' => n ≤ p'.memory.turn ∧
        Does world n p'.memory.turn old log fails p'.memory.self p'.journal) p := by
    intro reason
    refine wp_mono wp_respond ?_
    rintro _ p' ⟨hlater, ⟨hs', hlog'⟩ | ⟨hs', hlog', -⟩⟩ <;> refine ⟨hn.trans hlater.le, ?_⟩ <;>
      rw [hs', hlog', hself, hlog]
    · exact .replied _ _ _ hn hlater rfl fun _ => hother
    · exact .swept
  unfold start
  simp only [wp_bind, wp_self]
  cases hr : refusal request (s.backhaulStations.map Prod.snd) with
  | some reason =>
    exact hrefuse reason
  | none =>
    cases hp : p.memory.self.pending with
    | some q =>
      exact hrefuse _
    | none =>
      have hpending : old.pending = none := by
        rw [hself] at hp
        exact hp
      simp only [wp_bind, execute, wp_self]
      split
      · simp only [wp_pure]
        exact hrefuse _
      · simp only [wp_bind, wp_read, wp_commit, wp_pure]
        cases hx : world.executor p.memory.turn with
        | none =>
          refine ⟨hn.trans (Nat.le_succ _), ?_⟩
          simp only [Proc.commit, apply, hself, hlog]
          exact .started message.mid request hpending hnew
        | some reason =>
          refine wp_mono wp_respond ?_
          rintro _ p' ⟨hlater, ⟨hs', hlog'⟩ | ⟨hs', hlog', hno⟩⟩ <;>
            refine ⟨hn.trans ((Nat.le_succ _).trans hlater.le), ?_⟩ <;> rw [hs', hlog'] <;>
            simp only [Proc.commit, apply, hself, hlog, append_assoc]
          · refine .refused _ message.mid _ ?_ hlater rfl hpending hnew
            rw [hturn]
            exact Nat.le_add_right n 8
          · refine .dropped message.mid (hfails reason hpending ?_ ?_)
            · rw [← hturn]
              exact hx
            · simpa [hturn] using hno

theorem handle_does {message : Message} {receivedAt : ℚ} :
    wp (handle world session message receivedAt) (fun _ p' => p.memory.turn ≤ p'.memory.turn ∧
      Does world p.memory.turn p'.memory.turn p.memory.self p.journal
        (¬ Delivers world p (.handle session message receivedAt)) p'.memory.self p'.journal) p := by
  unfold handle
  split
  · exact ⟨Nat.le_refl _, .same⟩
  split
  · exact ⟨Nat.le_refl _, .same⟩
  simp only [Outside.now, wp_bind, wp_read]
  split
  · exact ⟨Nat.le_succ _, .same⟩
  simp only [wp_bind, wp_change]
  cases hrequest : decodeRequest message.tlvs with
  | error e => exact ⟨Nat.le_succ _, .swept⟩
  | ok request =>
    simp only [liftE, wp_pure, snapshot, wp_bind, wp_read]
    cases hs : world.current (p.memory.turn + 1) with
    | none => exact ⟨Nat.le_add_right _ 2, .swept⟩
    | some s =>
      simp only [wp_pure]
      refine wp_mono wp_send ?_
      rintro (e | u) p₁ ⟨hlook, hturn, -⟩
      · refine ⟨(Nat.le_add_right _ 2).trans hlook.turn, ?_⟩
        rw [hlook.self, hlook.journal]
        exact .swept
      obtain ⟨frames, hframes, hturn⟩ := hturn u rfl
      rw [length_empty hframes] at hturn
      have hself : p₁.memory.self = p.memory.self.swept (world.clock p.memory.turn) := hlook.self
      have hlog : p₁.journal = p.journal := hlook.journal
      have hle : p.memory.turn ≤ p₁.memory.turn := (Nat.le_add_right _ 2).trans hlook.turn
      have hstart : (p.memory.self.swept (world.clock p.memory.turn)).answered.get? message.mid =
            none → (∀ q, p.memory.self.pending = some q → q.mid ≠ message.mid) →
          wp (start world session message request s (world.clock p.memory.turn))
            (fun _ p' => p.memory.turn ≤ p'.memory.turn ∧
              Does world p.memory.turn p'.memory.turn p.memory.self p.journal
                (¬ Delivers world p (.handle session message receivedAt)) p'.memory.self
                p'.journal) p₁ := fun hnew hother =>
        start_does hself hlog hturn hnew hother fun reason hpending hx hno hd =>
          hno (hd request s reason hrequest hs hpending hnew hx)
      simp only [wp_self, hself]
      cases ha : (p.memory.self.swept (world.clock p.memory.turn)).answered.get? message.mid with
      | some a =>
        refine wp_mono wp_respond ?_
        rintro _ p' ⟨hlater, ⟨hs', hlog'⟩ | ⟨hs', hlog', -⟩⟩ <;>
          refine ⟨hle.trans hlater.le, ?_⟩ <;> rw [hs', hlog', hself, hlog]
        · refine .replied _ _ _ hle hlater rfl fun hnone => ?_
          rw [ha] at hnone
          cases hnone
        · exact .swept
      | none =>
        cases hq : (p.memory.self.swept (world.clock p.memory.turn)).pending with
        | none =>
          refine hstart ha fun q hq' => ?_
          cases hq.symm.trans hq'
        | some q =>
          simp only
          split
          · refine ⟨hle, ?_⟩
            rw [hself, hlog]
            exact .swept
          · rename_i hmid
            refine hstart ha fun q' hq' => ?_
            cases hq.symm.trans hq'
            exact hmid

theorem step_of_wp (call : Call) {Q : Process → Prop} (h : wp (call.act world) (fun _ p' => Q p') p) :
    Q (step world p call) := by
  unfold step
  unfold wp at h
  split at h <;> rename_i heq <;> rw [heq] <;> exact h

theorem step_does (world : World) (p : Process) (call : Call) :
    p.memory.turn ≤ (step world p call).memory.turn ∧
      Does world p.memory.turn (step world p call).memory.turn p.memory.self p.journal
        (¬ Delivers world p call) (step world p call).memory.self (step world p call).journal := by
  cases call with
  | handle session message receivedAt =>
    exact step_of_wp (.handle session message receivedAt) handle_does
  | tick session =>
    exact step_of_wp (.tick session) (wp_mono tick_does fun _ _ h => h.1)
  | close session => exact ⟨Nat.le_refl _, .closed session⟩

/-! ## Runs -/

def Event.Resolves (mid : Nat) : Event → Prop
  | .answered mid' _ _ => mid' = mid
  | .unanswered mid' => mid' = mid
  | .executed _ _ _ => False

/-- The executor was asked for a request that has no answer since, and is not recorded as unanswered. -/
def Open (log : List Event) (mid : Nat) (accepted : Bool) (time : ℚ) : Prop :=
  ∃ a b, log = a ++ .executed mid accepted time :: b ∧ ∀ e ∈ b, ¬ e.Resolves mid

theorem open_snoc {log : List Event} {e : Event} {mid : Nat} {accepted : Bool} {time : ℚ} :
    Open (log ++ [e]) mid accepted time ↔
      e = .executed mid accepted time ∨ (Open log mid accepted time ∧ ¬ e.Resolves mid) := by
  constructor
  · rintro ⟨a, b, hlog, hb⟩
    rcases eq_nil_or_concat b with rfl | ⟨b, last, rfl⟩
    · exact .inl (singleton_inj.mp (append_inj' hlog rfl).2)
    · rw [concat_eq_append, ← cons_append, ← append_assoc] at hlog
      obtain ⟨hinit, hlast⟩ := append_inj' hlog rfl
      obtain rfl := singleton_inj.mp hlast
      exact .inr ⟨⟨a, b, hinit, fun y hy => hb y (by simp [hy])⟩, hb e (by simp)⟩
  · rintro (rfl | ⟨⟨a, b, hlog, hb⟩, he⟩)
    · exact ⟨log, [], rfl, by simp⟩
    · refine ⟨a, b ++ [e], by rw [hlog]; simp, fun y hy => ?_⟩
      rcases mem_append.mp hy with hy | hy
      · exact hb y hy
      · rw [mem_singleton.mp hy]
        exact he

/-- What has to lie behind a call of the executor: every answer to the request is thirty seconds old,
no earlier call for it is open, and a move it starts is the only one. -/
def Once (past : List Event) : Event → Prop
  | .executed mid accepted time =>
      (∀ error t, .answered mid error t ∈ past → t + 30 ≤ time) ∧
      (∀ accepted' t, ¬ Open past mid accepted' t) ∧
      (accepted = true → ∀ mid' t, ¬ Open past mid' true t)
  | _ => True

/-- The log is lawful, the answers given are remembered for thirty seconds, and what is open is the
move under way, of whose request no answer is remembered. -/
structure Inv (world : World) (n : Nat) (s : Shared) (log : List Event) : Prop where
  once : Log.Justified Once log
  past : ∀ mid error t, .answered mid error t ∈ log → t ≤ world.clock n
  recent : ∀ mid error t, .answered mid error t ∈ log →
    (∃ a, s.answered.get? mid = some a ∧ t + 30 ≤ a.expiry) ∨ t + 30 ≤ world.clock n
  opened : ∀ mid accepted t, Open log mid accepted t →
    accepted = true ∧ ∃ q, s.pending = some q ∧ q.mid = mid ∧ q.deadline = t + 120
  waiting : ∀ q, s.pending = some q → s.answered.get? q.mid = none

namespace Inv

variable {n n' : Nat} {s s' : Shared} {log : List Event}

variable (h : Inv world n s log)
include h

theorem later (hclock : Monotone world.clock) (hn : n ≤ n')
    (hanswered : s'.answered = s.answered) (hpending : s'.pending = s.pending) :
    Inv world n' s' log where
  __ := h
  past mid error t ht := (h.past mid error t ht).trans (hclock hn)
  recent mid error t ht := by
    rw [hanswered]
    exact (h.recent mid error t ht).imp_right fun hle => hle.trans (hclock hn)
  opened mid accepted t ho := by
    rw [hpending]
    exact h.opened mid accepted t ho
  waiting := by
    rw [hpending, hanswered]
    exact h.waiting

theorem swept : Inv world n (s.swept (world.clock n)) log where
  __ := h
  recent mid error t ht := by
    rcases h.recent mid error t ht with ⟨a, ha, hle⟩ | hle
    · by_cases hexp : world.clock n < a.expiry
      · exact .inl ⟨a, Dict.get?_filter_of_pos ha (by simpa using hexp), hle⟩
      · exact .inr (hle.trans (not_lt.mp hexp))
    · exact .inr hle
  waiting q hq := Dict.get?_filter_none (h.waiting q hq)

/-- No reply is to the request of the move under way. -/
theorem replied_ne {q : Pending} {mid : Nat} (hq : s.pending = some q)
    (hmid : (s.swept (world.clock n)).answered.get? mid = none → ∀ q, s.pending = some q → q.mid ≠ mid) :
    q.mid ≠ mid := by
  rintro rfl
  exact hmid (h.swept.waiting q hq) q hq rfl

theorem not_open (hpending : s.pending = none) (mid : Nat) (accepted : Bool)
    (t : ℚ) : ¬ Open log mid accepted t := by
  intro ho
  obtain ⟨-, q, hq, -⟩ := h.opened mid accepted t ho
  rw [hpending] at hq
  cases hq

theorem mid_of_open {q : Pending} (hpending : s.pending = some q) {mid : Nat}
    {accepted : Bool} {t : ℚ} (ho : Open log mid accepted t) : q.mid = mid := by
  obtain ⟨-, q', hq', hmid, -⟩ := h.opened mid accepted t ho
  rw [hpending] at hq'
  cases hq'
  exact hmid

theorem not_open_resolved {q : Pending} (hpending : s.pending = some q) {e : Event}
    (he : e.Resolves q.mid) (mid : Nat) (accepted : Bool) (t : ℚ) :
    ¬ Open (log ++ [e]) mid accepted t := by
  intro ho
  rcases open_snoc.mp ho with rfl | ⟨ho, hres⟩
  · exact he
  · exact hres (h.mid_of_open hpending ho ▸ he)

theorem once_executed (hpending : s.pending = none) {mid : Nat}
    (hnew : (s.swept (world.clock n)).answered.get? mid = none) (accepted : Bool) :
    Once log (.executed mid accepted (world.clock n)) := by
  refine ⟨fun error t ht => ?_, fun _ _ => h.not_open hpending _ _ _,
    fun _ _ _ => h.not_open hpending _ _ _⟩
  rcases h.swept.recent mid error t ht with ⟨a, ha, -⟩ | hle
  · rw [hnew] at ha
    cases ha
  · exact hle

theorem recent_set (hclock : Monotone world.clock) {k : Nat} {a : Answer}
    (hk : n ≤ k) (hk' : k < n') (ha : a.expiry = world.clock k + 30) (mid error : Nat)
    (log' : List Event) (hlog' : ∀ mid' error' t, .answered mid' error' t ∈ log' →
      .answered mid' error' t ∈ log ∨
        Event.answered mid' error' t = .answered mid error (world.clock k)) :
    (∀ mid' error' t, .answered mid' error' t ∈ log' → t ≤ world.clock n') ∧
      ∀ mid' error' t, .answered mid' error' t ∈ log' →
        (∃ b, (s.answered.set mid a).get? mid' = some b ∧ t + 30 ≤ b.expiry) ∨
          t + 30 ≤ world.clock n' := by
  have hn : world.clock n ≤ world.clock k := hclock hk
  have hn' : world.clock k ≤ world.clock n' := hclock hk'.le
  refine ⟨fun mid' error' t ht => ?_, fun mid' error' t ht => ?_⟩ <;>
    rcases hlog' mid' error' t ht with ht | heq
  · exact (h.past mid' error' t ht).trans (hn.trans hn')
  · cases heq
    exact hn'
  · by_cases hmid : mid' = mid
    · subst hmid
      refine .inl ⟨a, Dict.get?_set_self _ _ _, ?_⟩
      have := h.past mid' error' t ht
      linarith
    · rw [Dict.get?_set_ne _ _ hmid]
      exact (h.recent mid' error' t ht).imp_right fun hle => hle.trans (hn.trans hn')
  · cases heq
    exact .inl ⟨a, Dict.get?_set_self _ _ _, ha.ge⟩

theorem step (hclock : Monotone world.clock) (hn : n ≤ n')
    {log' : List Event} (hdoes : Does world n n' s log False s' log') : Inv world n' s' log' := by
  cases hdoes with
  | same | closed => exact h.later hclock hn rfl rfl
  | swept => exact h.swept.later hclock hn rfl rfl
  | replied k mid a hk hk' ha hmid =>
    obtain ⟨hpast, hrecent⟩ := h.swept.recent_set hclock hk hk' ha mid a.error
      (log ++ [.answered mid a.error (world.clock k)]) (by simp)
    refine ⟨Log.justified_snoc.mpr ⟨h.once, trivial⟩, hpast, hrecent, fun mid' accepted t ho => ?_,
      fun q hq => ?_⟩
    · rcases open_snoc.mp ho with he | ⟨ho, -⟩
      · cases he
      · exact h.opened mid' accepted t ho
    · rw [Dict.get?_set_ne _ _ (h.replied_ne hq hmid)]
      exact h.swept.waiting q hq
  | refused k mid a hk hk' ha hpending hnew =>
    obtain ⟨hpast, hrecent⟩ := h.swept.recent_set hclock hk hk' ha mid a.error
      (log ++ [.executed mid false (world.clock n), .answered mid a.error (world.clock k)])
      (by simp)
    refine ⟨?_, hpast, hrecent, fun mid' accepted t ho => ?_, fun q hq => by cases hpending.symm.trans hq⟩
    · rw [append_cons]
      exact Log.justified_snoc.mpr
        ⟨Log.justified_snoc.mpr ⟨h.once, h.once_executed hpending hnew false⟩, trivial⟩
    · rw [append_cons] at ho
      rcases open_snoc.mp ho with he | ⟨ho, hres⟩
      · cases he
      rcases open_snoc.mp ho with he | ⟨ho, -⟩
      · cases he
        exact absurd rfl hres
      · exact absurd ho (h.not_open hpending _ _ _)
  | dropped mid hfails => exact hfails.elim
  | started mid request hpending hnew =>
    have hswept := h.swept.later hclock hn rfl rfl
    refine ⟨Log.justified_snoc.mpr ⟨h.once, h.once_executed hpending hnew true⟩, ?_, ?_, ?_, ?_⟩
    · exact fun mid' error t ht => hswept.past mid' error t (by simpa using ht)
    · exact fun mid' error t ht => hswept.recent mid' error t (by simpa using ht)
    · intro mid' accepted t ho
      rcases open_snoc.mp ho with he | ⟨ho, -⟩
      · cases he
        exact ⟨rfl, _, rfl, rfl, rfl⟩
      · exact absurd ho (h.not_open hpending _ _ _)
    · rintro q ⟨⟩
      exact hnew
  | gaveUp q hpending =>
    have hlater := h.later hclock hn rfl rfl
    refine ⟨Log.justified_snoc.mpr ⟨h.once, trivial⟩, ?_, ?_, ?_, nofun⟩
    · exact fun mid error t ht => hlater.past mid error t (by simpa using ht)
    · exact fun mid error t ht => hlater.recent mid error t (by simpa using ht)
    · exact fun mid accepted t ho => absurd ho (h.not_open_resolved hpending (by rfl) _ _ _)
  | settled q k a hk hk' ha herror hpending =>
    obtain ⟨hpast, hrecent⟩ := h.recent_set hclock hk hk' ha q.mid a.error
      (log ++ [.answered q.mid a.error (world.clock k)]) (by simp)
    exact ⟨Log.justified_snoc.mpr ⟨h.once, trivial⟩, hpast, hrecent,
      fun mid accepted t ho => absurd ho (h.not_open_resolved hpending (by rfl) _ _ _), nofun⟩
  | lost q hfails hpending => exact hfails.elim

end Inv

theorem inv_fresh (world : World) : Inv world 0 {} [] where
  once := Log.justified_nil
  past := nofun
  recent := nofun
  opened := by
    rintro mid accepted t ⟨a, b, hlog, -⟩
    simp at hlog
  waiting := nofun

theorem inv_step (hclock : Monotone world.clock) (call : Call)
    (h : Inv world p.memory.turn p.memory.self p.journal) (hd : Delivers world p call) :
    Inv world (step world p call).memory.turn (step world p call).memory.self
      (step world p call).journal := by
  obtain ⟨hturn, hdoes⟩ := step_does world p call
  simp only [hd, not_true_eq_false] at hdoes
  exact h.step hclock hturn hdoes

namespace OneMove

def station : Bytes := [2, 0, 0, 0, 0, 1]

def snapshot : Snapshot := ⟨⟨"a", 0, 1⟩, [([2, 0, 0, 0, 0, 2], station)]⟩

/-- The executor starts every move, and it is applied at once. -/
def onLink (link : Nat → Option Exn) : World where
  clock := fun _ => 0
  current := fun _ => some snapshot
  link := link
  binding := fun _ => ⟨"eth0", 1, [2, 0, 0, 0, 0, 9], [2, 0, 0, 0, 0, 8], [[2, 0, 0, 0, 0, 8]]⟩
  executor := fun _ => none
  outcome := fun _ => some .applied
  associated := fun _ => none

def calm : World := onLink fun _ => none

def request : Message :=
  ⟨[2, 0, 0, 0, 0, 9], [2, 0, 0, 0, 0, 8], requestType, 1, false,
    [⟨0x9E, station ++ [2, 0, 0, 0, 0, 3, 115, 36]⟩], 1⟩

def calls : List Call := [.handle 0 request 0, .tick 0]

def frames : List Bytes :=
  (fragmentMessage [2, 0, 0, 0, 0, 8] [2, 0, 0, 0, 0, 9] responseType 1
    (responseTlvs ⟨station, [2, 0, 0, 0, 0, 3], 115, 36⟩ 0 none) false 1500).toOption.getD []

end OneMove

end BackhaulSteering
end Emosa.Wire
