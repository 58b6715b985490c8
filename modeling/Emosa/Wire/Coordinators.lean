import Mathlib.Data.List.Induction
import Mathlib.Data.List.Nodup
import Mathlib.Algebra.Order.Ring.Rat
import Mathlib.Tactic.Linarith
import Emosa.Errors
import Emosa.Lib.Dialogue

/-!
# Emosa.Wire.Coordinators

How the Python coordinators of a provisioned agent tell a request that a controller sends again from
a new one: they keep, for the type and MID of each request answered, the time until which another
one is a repeat.

* `Incoming`: a request, and `Treated`: what becomes of it.
* `SteeringCoordinator.by_time`, `ChannelCoordinator.by_time`: in every session a repeat is one of a
  request answered in the five seconds before, or of one that waits for its answer.
-/

namespace Emosa.Control

open Dialogue
open List hiding after

/-- A request, and what a handler's work on it comes to besides: whether the checks passed, and
whether the frames of the answer went out. -/
structure Incoming where
  time : ℚ
  messageType : UInt16
  mid : UInt16
  /-- From the bound controller to this agent, not relayed. -/
  bound : Bool := true
  checks : Except Reason Unit := .ok ()
  sent : Except Reason Unit := .ok ()

namespace Incoming

def key (r : Incoming) : Nat := r.messageType.toNat * 2 ^ 16 + r.mid.toNat

def Same (e r : Incoming) : Prop := e.messageType = r.messageType ∧ e.mid = r.mid

instance (e r : Incoming) : Decidable (e.Same r) := inferInstanceAs (Decidable (_ ∧ _))

theorem key_eq_iff {e r : Incoming} : e.key = r.key ↔ e.Same r := by
  have he := e.mid.toNat_lt
  have hr := r.mid.toNat_lt
  unfold key Same
  rw [← UInt16.toNat_inj, ← UInt16.toNat_inj]
  omega

end Incoming

inductive Treated where
  | new
  | repeated
  | refused (why : Reason)
  | other
  deriving DecidableEq

/-- The answers a call sent: the key of the request, and when it went out. -/
abbrev Answers := List (Nat × ℚ)

structure Coordinator where
  /-- Expiry by key: `recent` of the one coordinator, where the key is the MID as its requests are of
  one type, and `queries` of the other. -/
  recent : List (Nat × ℚ) := []
  /-- Channel Selection Requests that wait for the first operating parameters. -/
  waiting : List Nat := []
  distinct : waiting.Nodup := by simp

namespace Coordinator

def purge (c : Coordinator) (now : ℚ) : Coordinator :=
  { c with recent := c.recent.filter fun e => now < e.2 }

def has (c : Coordinator) (key : Nat) : Bool := c.recent.any fun e => e.1 = key

def record (c : Coordinator) (a : Nat × ℚ) : Coordinator :=
  { c with recent := (a.1, a.2 + 5) :: c.recent.filter fun e => e.1 ≠ a.1 }

end Coordinator

/-- A request as a coordinator takes it up. -/
structure Asked extends Incoming where
  /-- Its second for the answer is over. -/
  late : Bool := false
  source : Except Reason Unit := .ok ()
  unmeasured : Bool := false
  /-- The clock once the answer went out. -/
  done : ℚ

/-- A Client Steering Request whose Ack goes out. -/
def Asked.Acknowledged (r : Asked) : Prop :=
  r.messageType = 0x8014 ∧ r.bound = true ∧ r.late = false ∧ r.checks = .ok () ∧ r.sent = .ok ()

namespace SteeringCoordinator

/-- The checks are those of `decode_request` and of the snapshot. What follows a new request, its
refusal or the executor, leaves `recent` alone. -/
def handle (c : Coordinator) (r : Asked) : (Treated × Answers) × Coordinator :=
  if r.messageType ≠ 0x8014 then ((.other, []), c)
  else if !r.bound then ((.refused .invalidInput, []), c)
  else if r.late then ((.refused .notReady, []), c)
  else
    let c := c.purge r.time
    match r.checks, r.sent with
    | .error why, _ | .ok (), .error why => ((.refused why, []), c)
    | .ok (), .ok () =>
      if c.has r.key then ((.repeated, []), c)
      else if c.recent.length ≥ 64 then ((.refused .notReady, []), c)
      else ((.new, [(r.key, r.time)]), c.record (r.key, r.time))

end SteeringCoordinator

/-- What a tick makes of a request that waits: past its second, refused or lost its context, it is
removed. -/
inductive Waited where
  | kept
  | removed
  | answered (time : ℚ)
  deriving DecidableEq

def Waited.answer (key : Nat) : Waited → Option (Nat × ℚ)
  | .answered time => some (key, time)
  | _ => none

namespace ChannelCoordinator

def tick (c : Coordinator) (now : ℚ) (waited : Nat → Waited) : Answers × Coordinator :=
  let answers := c.waiting.filterMap fun key => (waited key).answer key
  (answers, answers.foldl Coordinator.record { c.purge now with
    waiting := c.waiting.filter fun key => waited key = .kept
    distinct := c.distinct.filter _ })

/-- The budgets are recorded and not raised; a request past them gets no answer either. -/
def handle (c : Coordinator) (r : Asked) (waited : Nat → Waited) :
    (Treated × Answers) × Coordinator :=
  if r.messageType ∉ [0x8004, 0x8006, 0x801B] then ((.other, []), c)
  else
    let (answers, c) := tick c r.time waited
    let scan := r.messageType = 0x801B
    match r.source with
    | .error why => ((.refused why, answers), c)
    | .ok () =>
      if c.has r.key ∨ ¬ scan ∧ r.key ∈ c.waiting then ((.repeated, answers), c)
      else if ¬ scan ∧ c.recent.length + c.waiting.length ≥ 64 ∨ r.late then
        ((.refused .notReady, answers), c)
      else if r.messageType = 0x8006 ∧ r.unmeasured then
        if c.waiting.length ≥ 4 then ((.refused .notReady, answers), c)
        else ((.other, answers), { c with
          waiting := c.waiting.insert r.key
          distinct := List.Nodup.insert c.distinct })
      else match r.checks, r.sent with
        | .error why, _ | .ok (), .error why => ((.refused why, answers), c)
        | .ok (), .ok () => ((.new, answers ++ [(r.key, r.done)]), c.record (r.key, r.done))

/-- A turn of the coordinator: a request, or the session's own tick. -/
inductive Turn where
  | ask (r : Asked) (waited : Nat → Waited)
  | tick (now done : ℚ) (waited : Nat → Waited)

def turn (c : Coordinator) : Turn → (Treated × Answers) × Coordinator
  | .ask r waited => handle c r waited
  | .tick now _ waited => ((.other, (tick c now waited).1), (tick c now waited).2)

end ChannelCoordinator

/-! ## Repeats by time -/

namespace Coordinator

/-- What the coordinator keeps at `now` of the answers sent. -/
structure Keeps (c : Coordinator) (log : Answers) (now : ℚ) : Prop where
  answered : ∀ e ∈ c.recent, (e.1, e.2 - 5) ∈ log
  kept : ∀ a ∈ log, now < a.2 + 5 → ∃ e ∈ c.recent, e.1 = a.1 ∧ a.2 + 5 ≤ e.2

variable {c : Coordinator} {log : Answers} {now now' : ℚ}

theorem has_iff {key : Nat} : c.has key = true ↔ ∃ e ∈ c.recent, e.1 = key := by simp [has]

theorem Keeps.later (h : c.Keeps log now) (hle : now ≤ now') : c.Keeps log now' where
  answered := h.answered
  kept a ha hin := h.kept a ha (hle.trans_lt hin)

theorem Keeps.purge (h : c.Keeps log now) : (c.purge now).Keeps log now where
  answered e he := h.answered e (mem_of_mem_filter he)
  kept a ha hin := by
    obtain ⟨e, he, hkey, hle⟩ := h.kept a ha hin
    exact ⟨e, mem_filter.mpr ⟨he, by simpa using hin.trans_le hle⟩, hkey, hle⟩

theorem Keeps.record (h : c.Keeps log now) {a : Nat × ℚ}
    (ha : ∀ b ∈ log, b.1 = a.1 → b.2 ≤ a.2) : (c.record a).Keeps (log ++ [a]) now where
  answered e he := by
    rcases mem_cons.mp he with rfl | he
    · simp
    · exact mem_append_left _ (h.answered e (mem_of_mem_filter he))
  kept b hb hin := by
    rcases mem_append.mp hb with hb | hb
    · by_cases hkey : b.1 = a.1
      · exact ⟨_, mem_cons_self, hkey.symm, by simpa using ha b hb hkey⟩
      · obtain ⟨e, he, hsame, hle⟩ := h.kept b hb hin
        refine ⟨e, mem_cons_of_mem _ (mem_filter.mpr ⟨he, ?_⟩), hsame, hle⟩
        simpa [hsame] using hkey
    · rw [mem_singleton.mp hb]
      exact ⟨_, mem_cons_self, rfl, le_refl _⟩

/-- `Keeps` between the turns: no answer is later than the clock. -/
def Sound (c : Coordinator) (log : Answers) (now : ℚ) : Prop :=
  c.Keeps log now ∧ ∀ a ∈ log, a.2 ≤ now

theorem Sound.later (h : c.Sound log now) (hle : now ≤ now') : c.Sound log now' :=
  ⟨h.1.later hle, fun a ha => (h.2 a ha).trans hle⟩

theorem Sound.record (h : c.Sound log now) {a : Nat × ℚ} (ha : now ≤ a.2) :
    (c.record a).Sound (log ++ [a]) a.2 := by
  refine ⟨(h.1.record fun b hb _ => (h.2 b hb).trans ha).later ha, fun b hb => ?_⟩
  rcases mem_append.mp hb with hb | hb
  · exact (h.2 b hb).trans ha
  · rw [mem_singleton.mp hb]

theorem Keeps.records {as : Answers} (h : c.Keeps log now)
    (has : ∀ a ∈ as, ∀ b ∈ log, b.1 = a.1 → b.2 ≤ a.2) (hkeys : (as.map Prod.fst).Nodup) :
    (as.foldl Coordinator.record c).Keeps (log ++ as) now := by
  induction as generalizing c log with
  | nil => simpa using h
  | cons a as ih =>
    rw [map_cons, nodup_cons] at hkeys
    rw [append_cons]
    refine ih (h.record (has a mem_cons_self)) (fun a' ha' b hb hkey => ?_) hkeys.2
    rcases mem_append.mp hb with hb | hb
    · exact has a' (mem_cons_of_mem a ha') b hb hkey
    · rw [mem_singleton.mp hb] at hkey
      exact absurd (hkey ▸ mem_map_of_mem ha') hkeys.1

theorem foldl_record_recent {as : Answers} {e : Nat × ℚ} (h : e ∈ (as.foldl Coordinator.record c).recent) :
    e ∈ c.recent ∨ (e.1, e.2 - 5) ∈ as := by
  induction as generalizing c with
  | nil => exact .inl h
  | cons a as ih =>
    rcases ih h with h | h
    · rcases mem_cons.mp h with rfl | h
      · simp
      · exact .inl (mem_of_mem_filter h)
    · exact .inr (mem_cons_of_mem a h)

/-- Once the expired ones are purged, a key is there exactly when one was answered in the five
seconds before. -/
theorem Keeps.has_iff (h : c.Keeps log now) (hpurged : ∀ e ∈ c.recent, now < e.2) {key : Nat} :
    c.has key = true ↔ ∃ a ∈ log, a.1 = key ∧ now < a.2 + 5 := by
  rw [Coordinator.has_iff]
  constructor
  · rintro ⟨e, he, rfl⟩
    exact ⟨_, h.answered e he, rfl, by simpa using hpurged e he⟩
  · rintro ⟨a, ha, rfl, hin⟩
    obtain ⟨e, he, hkey, -⟩ := h.kept a ha hin
    exact ⟨e, he, hkey⟩

section Run

variable {α : Type} {f : Coordinator → α → (Treated × Answers) × Coordinator}

/-- The answers of a session, in order. -/
def answers (f : Coordinator → α → (Treated × Answers) × Coordinator) (xs : List α) : Answers :=
  (trace f {} xs).flatMap fun e => e.answer.2

/-- A session whose clock never goes back stays sound, when each turn keeps it so. -/
theorem sound_run {start done : α → ℚ} {xs : List α}
    (hstep : ∀ c log x, x ∈ xs → c.Sound log (start x) →
      (f c x).2.Sound (log ++ (f c x).1.2) (done x))
    (hclock : xs.Pairwise fun x y => done x ≤ start y) (hlast : ∀ x ∈ xs, done x ≤ now) :
    (after f {} xs).Sound (answers f xs) now := by
  induction xs using reverseRecOn generalizing now with
  | nil => exact ⟨⟨by simp, by simp [answers]⟩, by simp [answers]⟩
  | append_singleton xs x ih =>
    have hsplit := pairwise_append.mp hclock
    have hsound := hstep _ _ x (by simp) (ih (fun c log y hy => hstep c log y
      (mem_append_left _ hy)) hsplit.1 fun y hy => hsplit.2.2 y hy x mem_cons_self)
    have hanswers : answers f (xs ++ [x]) = answers f xs ++ (f (after f {} xs) x).1.2 := by
      simp [answers, trace_append]
    have hafter : after f {} (xs ++ [x]) = (f (after f {} xs) x).2 := by simp [Dialogue.after]
    rw [hanswers, hafter]
    exact hsound.later (hlast x (by simp))

end Run

end Coordinator

namespace SteeringCoordinator

theorem handle_sound {c : Coordinator} {log : Answers} {r : Asked} (h : c.Sound log r.time) :
    (handle c r).2.Sound (log ++ (handle c r).1.2) r.time := by
  have hp : (c.purge r.time).Sound log r.time := ⟨h.1.purge, h.2⟩
  unfold handle
  split_ifs
  · rwa [append_nil]
  · rwa [append_nil]
  · rwa [append_nil]
  · dsimp only
    split
    · rwa [append_nil]
    · rwa [append_nil]
    · split_ifs
      · rwa [append_nil]
      · rwa [append_nil]
      · exact hp.record le_rfl

/-- A request is a repeat exactly when one with its MID was in the five seconds before. -/
def ByTime (before : List Asked) (r : Asked) : Prop :=
  (handle (after handle {} before) r).1.1 = .repeated ↔
    ∃ a ∈ Coordinator.answers handle before, a.1 = r.key ∧ r.time < a.2 + 5

/-- Every request that is acknowledged is told by its time. -/
theorem by_time {before : List Asked} {r : Asked}
    (hclock : (before ++ [r]).Pairwise fun a b => a.time ≤ b.time) (hr : r.Acknowledged) :
    ByTime before r := by
  obtain ⟨hkind, hbound, hlate, hchecks, hsent⟩ := hr
  have hsplit := pairwise_append.mp hclock
  obtain ⟨hkeeps, -⟩ : (after handle {} before).Sound (Coordinator.answers handle before) r.time :=
    Coordinator.sound_run (fun c log x _ h => handle_sound h) hsplit.1
      fun x hx => hsplit.2.2 x hx r mem_cons_self
  unfold ByTime
  rw [← hkeeps.purge.has_iff fun e he => by simpa using (mem_filter.mp he).2]
  unfold handle
  rw [hkind, hbound, hlate, hchecks, hsent]
  simp only [ne_eq, not_true_eq_false, if_false, Bool.not_true, Bool.false_eq_true]
  split_ifs <;> simp_all

end SteeringCoordinator

namespace ChannelCoordinator

def Turn.time : Turn → ℚ
  | .ask r _ => r.time
  | .tick now _ _ => now

def Turn.done : Turn → ℚ
  | .ask r _ => r.done
  | .tick _ done _ => done

def Turn.waited : Turn → Nat → Waited
  | .ask _ waited | .tick _ _ waited => waited

/-- The clock readings of a turn. -/
def Turn.Clocked (t : Turn) : Prop :=
  t.time ≤ t.done ∧ ∀ key s, t.waited key = .answered s → t.time ≤ s ∧ s ≤ t.done

theorem answers_clocked {c : Coordinator} {t : Turn} (ht : t.Clocked) :
    ∀ a ∈ (tick c t.time t.waited).1, t.time ≤ a.2 ∧ a.2 ≤ t.done := by
  intro a ha
  obtain ⟨key, -, hkey⟩ := mem_filterMap.mp ha
  cases hw : t.waited key with
  | answered s =>
    rw [hw] at hkey
    obtain rfl := Option.some.inj hkey
    exact ht.2 key s hw
  | kept | removed =>
    rw [hw] at hkey
    cases hkey

theorem answers_keys (waited : Nat → Waited) (keys : List Nat) :
    ((keys.filterMap fun key => (waited key).answer key).map Prod.fst).Sublist keys := by
  induction keys with
  | nil => exact .slnil
  | cons key keys ih =>
    cases hw : waited key with
    | answered s => simpa [hw, Waited.answer] using ih
    | kept | removed => simpa [hw, Waited.answer] using ih.cons key

theorem tick_keeps {c : Coordinator} {log : Answers} {t : Turn} (ht : t.Clocked)
    (h : c.Sound log t.time) :
    (tick c t.time t.waited).2.Keeps (log ++ (tick c t.time t.waited).1) t.time :=
  Coordinator.Keeps.records ⟨h.1.purge.answered, h.1.purge.kept⟩
    (fun a ha b hb _ => (h.2 b hb).trans (answers_clocked ht a ha).1)
    ((answers_keys t.waited c.waiting).nodup c.distinct)

/-- The entries left after a tick have not expired. -/
theorem tick_purged {c : Coordinator} {t : Turn} (ht : t.Clocked) {e : Nat × ℚ}
    (he : e ∈ (tick c t.time t.waited).2.recent) : t.time < e.2 := by
  rcases Coordinator.foldl_record_recent he with he | he
  · simpa using (mem_filter.mp he).2
  · have := (answers_clocked ht _ he).1
    dsimp only at this
    linarith

theorem tick_sound {c : Coordinator} {log : Answers} {t : Turn} (ht : t.Clocked)
    (h : c.Sound log t.time) :
    (tick c t.time t.waited).2.Sound (log ++ (tick c t.time t.waited).1) t.done := by
  refine ⟨(tick_keeps ht h).later ht.1, fun a ha => ?_⟩
  rcases mem_append.mp ha with ha | ha
  · exact (h.2 a ha).trans ht.1
  · exact (answers_clocked ht a ha).2

theorem turn_sound {c : Coordinator} {log : Answers} {t : Turn} (ht : t.Clocked)
    (h : c.Sound log t.time) : (turn c t).2.Sound (log ++ (turn c t).1.2) t.done := by
  have htick := tick_sound ht h
  cases t with
  | tick now done waited => exact htick
  | ask r waited =>
    simp only [turn, handle]
    by_cases hkind : r.messageType ∉ [0x8004, 0x8006, 0x801B]
    · rw [if_pos hkind, append_nil]
      exact h.later ht.1
    · rw [if_neg hkind]
      split
      · exact htick
      · split_ifs
        · exact htick
        · exact htick
        · exact htick
        · exact ⟨⟨htick.1.answered, htick.1.kept⟩, htick.2⟩
        · split
          · exact htick
          · exact htick
          · rw [← append_assoc]
            exact htick.record le_rfl

/-- A request is a repeat exactly when one of its type and MID was answered in the five seconds
before, or waits for its answer. -/
def ByTime (before : List Turn) (r : Asked) (waited : Nat → Waited) : Prop :=
  (handle (after turn {} before) r waited).1.1 = .repeated ↔
    (∃ a ∈ Coordinator.answers turn before ++ (tick (after turn {} before) r.time waited).1,
      a.1 = r.key ∧ r.time < a.2 + 5) ∨
    r.messageType ≠ 0x801B ∧ r.key ∈ (tick (after turn {} before) r.time waited).2.waiting

/-- A session on one clock. -/
def Clocked (turns : List Turn) : Prop :=
  (∀ t ∈ turns, t.Clocked) ∧ turns.Pairwise fun a b => a.done ≤ b.time

/-- Every Channel Preference Query, Channel Selection and Channel Scan Request of a live source is
told by its time. -/
theorem by_time {before : List Turn} {r : Asked} {waited : Nat → Waited}
    (hclock : Clocked (before ++ [.ask r waited]))
    (hkind : r.messageType ∈ ([0x8004, 0x8006, 0x801B] : List UInt16)) (hsource : r.source = .ok ()) :
    ByTime before r waited := by
  obtain ⟨hclocked, hclock⟩ := hclock
  have hsplit := pairwise_append.mp hclock
  have hsound : (after turn {} before).Sound (Coordinator.answers turn before) r.time :=
    Coordinator.sound_run (fun c log t ht h => turn_sound (hclocked t (mem_append_left _ ht)) h)
      hsplit.1 fun t ht => hsplit.2.2 t ht _ mem_cons_self
  have hr : (Turn.ask r waited).Clocked := hclocked _ (by simp)
  have hhas : ∀ key, (tick (after turn {} before) r.time waited).2.has key = true ↔ _ :=
    fun key => (tick_keeps hr hsound).has_iff fun e he => tick_purged hr he
  refine Iff.trans ?_ (or_congr_left (hhas r.key))
  simp only [handle, hkind, hsource, not_true_eq_false, if_false]
  split_ifs with hrepeated
  · simpa using hrepeated
  · simpa using hrepeated
  · simpa using hrepeated
  · simpa using hrepeated
  · cases r.checks <;> cases r.sent <;> simpa using hrepeated

end ChannelCoordinator

end Emosa.Control
