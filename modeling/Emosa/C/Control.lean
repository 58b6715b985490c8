import Mathlib.Data.List.DropRight
import Emosa.C.Cmdu
import Emosa.Wire.Coordinators
import Emosa.Wire.Topology

/-!
# Emosa.C.Control

The control procedures of a provisioned agent. A controller that misses an answer sends its request
again, and the agent tells such a repeat from a new request by the keys it remembers.

* `EmControl.handle`: what becomes of a request, by the last 64 keys.
* `Shown`: the radios the agent shows, and `associations_agree_iff`: when its answers about a station
  are those of its Topology Response, in both languages.
-/

namespace Emosa.C

open Dialogue
open List hiding after
open Control (Incoming Treated Waited SteeringCoordinator.ByTime ChannelCoordinator.ByTime
  ChannelCoordinator.Clocked)

/-! ## Requests remembered -/

structure EmControl where
  recent : List Nat := []

namespace EmControl

/-- What the handlers remember the requests by. -/
structure Memory (σ : Type) where
  seen : σ → Incoming → Bool
  remember : σ → Incoming → σ

namespace Memory

variable {σ : Type} (m : Memory σ)

/-- `always`: remembered also where the answer was not sent. -/
def answered (always : Bool) (c : σ) (r : Incoming) : Treated × σ :=
  if m.seen c r then (.repeated, c)
  else match r.checks with
    | .error why => (.refused why, c)
    | .ok () =>
      if always then (.new, m.remember c r)
      else match r.sent with
        | .error why => (.refused why, c)
        | .ok () => (.new, m.remember c r)

def channel (c : σ) (r : Incoming) : Treated × σ := m.answered (r.messageType = 0x8004) c r

def scan (c : σ) (r : Incoming) : Treated × σ := m.answered false c r

/-- The Ack goes out for a repeat too. What follows a new request, its refusal or the executor,
leaves the keys alone. -/
def steer (c : σ) (r : Incoming) : Treated × σ :=
  match r.checks, r.sent with
  | .error why, _ | .ok (), .error why => (.refused why, c)
  | .ok (), .ok () => if m.seen c r then (.repeated, c) else (.new, m.remember c r)

def policy (c : σ) (r : Incoming) : Treated × σ :=
  match r.checks, r.sent with
  | .error why, _ | .ok (), .error why => (.refused why, c)
  | .ok (), .ok () => (.new, m.remember c r)

def handle (c : σ) (r : Incoming) : Treated × σ :=
  if r.messageType ∉ [0x8003, 0x8004, 0x8006, 0x8014, 0x801B] then (.other, c)
  else if !r.bound then (.refused .invalidInput, c)
  else if r.messageType = 0x8003 then m.policy c r
  else if r.messageType = 0x8014 then m.steer c r
  else if r.messageType = 0x801B then m.scan c r
  else m.channel c r

end Memory

def seen (c : EmControl) (r : Incoming) : Bool := c.recent.contains r.key

def remember (c : EmControl) (r : Incoming) : EmControl :=
  ⟨(if c.recent.length = 64 then c.recent.drop 1 else c.recent) ++ [r.key]⟩

def ring : Memory EmControl := ⟨seen, remember⟩

abbrev handle : EmControl → Incoming → Treated × EmControl := ring.handle

/-- The requests handled as new in a session, in order. -/
def news (log : List (Entry Incoming Treated)) : List Incoming :=
  (log.filter fun e => e.answer = .new).map Entry.call

/-- One of the type and MID of `r` was handled as new in the five seconds before. -/
def Recent (handled : List Incoming) (r : Incoming) : Prop :=
  ∃ e ∈ handled, e.Same r ∧ r.time < e.time + 5

instance (handled : List Incoming) (r : Incoming) : Decidable (Recent handled r) :=
  inferInstanceAs (Decidable (∃ e ∈ handled, _))

/-- A memory of the requests themselves, which tells a repeat by its time. -/
def byTime : Memory (List Incoming) := ⟨fun h r => Recent h r, fun h r => h ++ [r]⟩

/-- A request of which a handler asks whether it is a repeat. -/
def Judged (r : Incoming) : Prop :=
  r.bound = true ∧ (r.messageType ∈ ([0x8004, 0x8006, 0x801B] : List UInt16) ∨
    r.messageType = 0x8014 ∧ r.checks = .ok () ∧ r.sent = .ok ())

/-- At the request `r`, the last one of its type and MID was handled as new in the five seconds
before exactly when fewer than 64 were since. -/
def Dense (handled : List Incoming) (r : Incoming) : Prop :=
  ∀ before e since, handled = before ++ e :: since → e.Same r → (∀ x ∈ since, ¬ x.Same r) →
    (r.time < e.time + 5 ↔ since.length < 64)

namespace Memory

variable {σ τ : Type} (m : Memory σ) (n : Memory τ)

theorem answered_remembers (always : Bool) (c : σ) (r : Incoming) : (m.answered always c r).2 =
    if (m.answered always c r).1 = .new then m.remember c r else c := by
  unfold answered
  split
  · rfl
  · split
    · rfl
    · split
      · rfl
      · split <;> rfl

theorem handle_remembers (c : σ) (r : Incoming) :
    (m.handle c r).2 = if (m.handle c r).1 = .new then m.remember c r else c := by
  unfold handle
  split
  · rfl
  · split
    · rfl
    · split
      · unfold policy
        split <;> rfl
      · split
        · unfold steer
          split
          · rfl
          · rfl
          · split <;> rfl
        · split <;> exact m.answered_remembers _ c r

variable {m n}

/-- A handler asks its memory of judged requests only. -/
theorem handle_repeated {c : σ} {r : Incoming} (h : Judged r) :
    (m.handle c r).1 = .repeated ↔ m.seen c r = true := by
  obtain ⟨hbound, hkind⟩ := h
  simp only [mem_cons, not_mem_nil, or_false] at hkind
  unfold handle steer scan channel answered
  rcases hkind with (h | h | h) | ⟨h, hchecks, hsent⟩
  · cases hseen : m.seen c r <;> cases r.checks <;> simp [h, hbound]
  · cases hseen : m.seen c r <;> cases r.checks <;> cases r.sent <;> simp [h, hbound]
  · cases hseen : m.seen c r <;> cases r.checks <;> cases r.sent <;> simp [h, hbound]
  · cases hseen : m.seen c r <;> simp [h, hbound, hchecks, hsent]

theorem answered_congr {always : Bool} {c : σ} {d : τ} {r : Incoming} (h : m.seen c r = n.seen d r) :
    (m.answered always c r).1 = (n.answered always d r).1 := by
  unfold answered
  rw [h]
  split
  · rfl
  · cases r.checks with
    | error => rfl
    | ok => cases always <;> cases r.sent <;> rfl

/-- Two memories that agree about a judged request treat it alike. -/
theorem handle_congr {c : σ} {d : τ} {r : Incoming} (h : Judged r → m.seen c r = n.seen d r) :
    (m.handle c r).1 = (n.handle d r).1 := by
  unfold handle
  by_cases hother : r.messageType ∉ [0x8003, 0x8004, 0x8006, 0x8014, 0x801B]
  · rw [if_pos hother, if_pos hother]
  · rw [if_neg hother, if_neg hother]
    split_ifs with hbound hpolicy hsteer hscan
    · rfl
    · unfold policy
      cases r.checks <;> cases r.sent <;> rfl
    · unfold steer
      cases hchecks : r.checks <;> cases hsent : r.sent
      · rfl
      · rfl
      · rfl
      · rw [h ⟨by simpa using hbound, .inr ⟨hsteer, hchecks, hsent⟩⟩]
        dsimp only
        split <;> rfl
    · exact answered_congr (h ⟨by simpa using hbound, .inl (by simp [hscan])⟩)
    · exact answered_congr (h ⟨by simpa using hbound, .inl (by
        simpa [hpolicy, hsteer, hscan] using not_not.mp hother)⟩)

/-- What a session remembers, from what it handled as new. -/
theorem trace_concat (c : σ) (calls : List Incoming) (r : Incoming) :
    news (trace m.handle c (calls ++ [r])) = news (trace m.handle c calls) ++
      if (m.handle (after m.handle c calls) r).1 = .new then [r] else [] := by
  simp only [trace_append, news]
  split <;> simp_all

theorem after_concat (c : σ) (calls : List Incoming) (r : Incoming) :
    after m.handle c (calls ++ [r]) = (m.handle (after m.handle c calls) r).2 := by
  simp [Dialogue.after]

end Memory

/-- The keys remembered are those of the last 64 requests handled as new. -/
theorem recent_eq (calls : List Incoming) : (after handle {} calls).recent =
    ((news (trace handle {} calls)).map Incoming.key).rtake 64 := by
  induction calls using reverseRecOn with
  | nil => rfl
  | append_singleton calls r ih =>
    rw [Memory.after_concat, Memory.handle_remembers, Memory.trace_concat]
    split
    · rw [show ring.remember = remember from rfl, remember, ih, map_append, map_singleton,
        rtake_concat_succ]
      generalize (news (trace handle {} calls)).map Incoming.key = keys
      simp only [rtake, length_drop, drop_drop]
      split
      · rw [show keys.length - 64 + 1 = keys.length - 63 from by omega]
      · rw [show keys.length - 64 = keys.length - 63 from by omega]
    · rw [append_nil, ih]

/-- The law for a request in a session of the C agent. -/
def ByTime (before : List Incoming) (r : Incoming) : Prop :=
  (handle (after handle {} before) r).1 = .repeated ↔ Recent (news (trace handle {} before)) r

theorem repeated_iff {before : List Incoming} {r : Incoming} (h : Judged r) :
    (handle (after handle {} before) r).1 = .repeated ↔
      ∃ e ∈ (news (trace handle {} before)).rtake 64, e.Same r := by
  refine (Memory.handle_repeated h).trans ?_
  rw [show (ring.seen (after handle {} before) r = true) = (r.key ∈ (after handle {} before).recent)
    by simp [ring, seen], recent_eq]
  simp only [rtake, length_map, ← map_drop, mem_map, Incoming.key_eq_iff]

theorem exists_last {α : Type} {p : α → Prop} {l : List α} (h : ∃ x ∈ l, p x) :
    ∃ before e since, l = before ++ e :: since ∧ p e ∧ ∀ x ∈ since, ¬ p x := by
  induction l with
  | nil => simp at h
  | cons a l ih =>
    by_cases hl : ∃ x ∈ l, p x
    · obtain ⟨before, e, since, rfl, he, hsince⟩ := ih hl
      exact ⟨a :: before, e, since, rfl, he, hsince⟩
    · obtain ⟨x, hx, hp⟩ := h
      rcases mem_cons.mp hx with rfl | hx
      · exact ⟨[], x, l, rfl, hp, fun y hy hpy => hl ⟨y, hy, hpy⟩⟩
      · exact absurd ⟨x, hx, hp⟩ hl

section Last

variable {before since : List Incoming} {e r : Incoming}

/-- On one clock the last one of the type and MID is the youngest. -/
theorem recent_iff_last (he : e.Same r) (hsince : ∀ x ∈ since, ¬ x.Same r)
    (hclock : (before ++ e :: since).Pairwise fun a b => a.time ≤ b.time) :
    Recent (before ++ e :: since) r ↔ r.time < e.time + 5 := by
  refine ⟨?_, fun h => ⟨e, by simp, he, h⟩⟩
  rintro ⟨x, hx, hsame, hin⟩
  rcases mem_append.mp hx with hx | hx
  · have hle := (pairwise_append.mp hclock).2.2 x hx e mem_cons_self
    linarith
  · rcases mem_cons.mp hx with rfl | hx
    · exact hin
    · exact absurd hsame (hsince x hx)

theorem rtake_iff_last (he : e.Same r) (hsince : ∀ x ∈ since, ¬ x.Same r) :
    (∃ x ∈ (before ++ e :: since).rtake 64, x.Same r) ↔ since.length < 64 := by
  have hlength : (before ++ e :: since).length = before.length + (since.length + 1) := by simp
  unfold rtake
  rw [hlength]
  constructor
  · rintro ⟨x, hx, hsame⟩
    by_contra hlen
    rw [show before.length + (since.length + 1) - 64 = before.length + (since.length - 64 + 1) by omega,
      ← drop_drop, drop_left, drop_succ_cons] at hx
    exact hsince x (mem_of_mem_drop hx) hsame
  · intro hlen
    refine ⟨e, ?_, he⟩
    rw [drop_append_of_le_length (by omega)]
    simp

end Last

theorem dense_iff {handled : List Incoming} {r : Incoming}
    (hclock : handled.Pairwise fun a b => a.time ≤ b.time) :
    Dense handled r ↔ ((∃ e ∈ handled.rtake 64, e.Same r) ↔ Recent handled r) := by
  constructor
  · intro h
    by_cases hsame : ∃ e ∈ handled, e.Same r
    · obtain ⟨before, e, since, rfl, he, hsince⟩ := exists_last hsame
      rw [rtake_iff_last he hsince, recent_iff_last he hsince hclock]
      exact (h before e since rfl he hsince).symm
    · refine iff_of_false ?_ ?_
      · rintro ⟨e, he, hs⟩
        exact hsame ⟨e, mem_of_mem_drop he, hs⟩
      · rintro ⟨e, he, hs, -⟩
        exact hsame ⟨e, he, hs⟩
  · rintro h before e since rfl he hsince
    rw [rtake_iff_last he hsince, recent_iff_last he hsince hclock] at h
    exact h.symm

theorem byTime_sublist (calls : List Incoming) : (after byTime.handle [] calls).Sublist calls := by
  induction calls using reverseRecOn with
  | nil => exact .slnil
  | append_singleton calls r ih =>
    rw [Memory.after_concat, Memory.handle_remembers]
    split
    · exact ih.append (List.Sublist.refl [r])
    · exact ih.trans (sublist_append_left calls [r])

/-- As long as the law holds, the agent handles as new what a memory by time does. -/
theorem news_eq_byTime {calls : List Incoming}
    (h : ∀ before r rest, calls = before ++ r :: rest → Judged r → ByTime before r) :
    news (trace handle {} calls) = after byTime.handle [] calls := by
  induction calls using reverseRecOn with
  | nil => rfl
  | append_singleton calls r ih =>
    have ih := ih fun before x rest heq => h before x (rest ++ [r]) (by simp [heq])
    have hsame : (handle (after handle {} calls) r).1 =
        (byTime.handle (after byTime.handle [] calls) r).1 := by
      refine Memory.handle_congr fun hj => ?_
      have hlaw := (Memory.handle_repeated hj).symm.trans (h calls r [] rfl hj)
      rw [Bool.eq_iff_iff, ← ih]
      simpa [byTime] using hlaw
    rw [Memory.after_concat, Memory.handle_remembers, ← hsame, ← ih, Memory.trace_concat]
    split
    · rfl
    · rw [append_nil]

/-- A property of every place in a list, for one more element. -/
theorem forall_place_concat {α : Type} {P : List α → α → Prop} {l : List α} {a : α} :
    (∀ before x rest, l ++ [a] = before ++ x :: rest → P before x) ↔
      (∀ before x rest, l = before ++ x :: rest → P before x) ∧ P l a := by
  constructor
  · intro h
    exact ⟨fun before x rest heq => h before x (rest ++ [a]) (by simp [heq]), h l a [] rfl⟩
  · rintro ⟨h, ha⟩ before x rest heq
    rcases eq_nil_or_concat rest with rfl | ⟨rest, y, rfl⟩
    · obtain ⟨rfl, hx⟩ := append_inj' heq rfl
      obtain rfl := singleton_inj.mp hx
      exact ha
    · have hconcat : l ++ [a] = (before ++ x :: rest) ++ [y] := by simpa using heq
      exact h before x rest (append_inj_left' hconcat rfl)

/-- **Repeats.** In Python every request is told by its time. In a session of the C agent every one is
exactly when, by the requests to be handled as new, the last one of a type and MID is younger than
five seconds just as long as fewer than 64 were handled as new since. -/
theorem repeats_by_time_iff (calls : List Incoming)
    (hclock : calls.Pairwise fun a b => a.time ≤ b.time) :
    (∀ before r, (before ++ [r]).Pairwise (fun a b : Control.Asked => a.time ≤ b.time) → r.Acknowledged →
      SteeringCoordinator.ByTime before r) ∧
    (∀ before r waited, ChannelCoordinator.Clocked (before ++ [.ask r waited]) →
      r.messageType ∈ ([0x8004, 0x8006, 0x801B] : List UInt16) → r.source = .ok () →
      ChannelCoordinator.ByTime before r waited) ∧
    ((∀ before r rest, calls = before ++ r :: rest → Judged r → ByTime before r) ↔
      ∀ before r rest, calls = before ++ r :: rest → Judged r →
        Dense (after byTime.handle [] before) r) := by
  refine ⟨fun _ _ => Control.SteeringCoordinator.by_time,
    fun _ _ _ => Control.ChannelCoordinator.by_time, ?_⟩
  induction calls using reverseRecOn with
  | nil => simp
  | append_singleton calls r ih =>
    have hcalls := (pairwise_append.mp hclock).1
    rw [forall_place_concat (P := fun before r => Judged r → ByTime before r),
      forall_place_concat (P := fun before r => Judged r → Dense (after byTime.handle [] before) r),
      ← ih hcalls]
    refine and_congr_right fun hlaw => forall_congr' fun hj => ?_
    rw [dense_iff (hcalls.sublist (byTime_sublist calls)), ← news_eq_byTime hlaw, ByTime,
      repeated_iff hj]

def steering (mid : UInt16) (time : ℚ) : Incoming := { time := time, messageType := 0x8014, mid := mid }

/-- Mandates a second apart, the last two with the first MID of the session and the last one. -/
def spaced : List Incoming :=
  (range 65).map (fun n : Nat => steering n.toUInt16 n) ++ [steering 0 65, steering 64 66]

/-- The one is carried out and the other told for a repeat. -/
theorem spaced_told :
    (trace handle {} spaced).map (·.answer) = replicate 66 .new ++ [.repeated] ∧
      ∀ before r rest, spaced = before ++ r :: rest → Judged r → ByTime before r := by
  have hclock : spaced.Pairwise fun a b => a.time ≤ b.time := by decide +kernel
  refine ⟨by decide +kernel, (repeats_by_time_iff spaced hclock).2.2.mpr ?_⟩
  have hall : ∀ i ∈ range 67, ∀ r ∈ spaced[i]?,
      ((∃ e ∈ (after byTime.handle [] (spaced.take i)).rtake 64, e.Same r) ↔
        Recent (after byTime.handle [] (spaced.take i)) r) := by
    decide +kernel
  intro before r rest heq _
  have hlength : before.length < 67 := by
    have := congrArg length heq
    simp [spaced] at this
    omega
  have hdense := hall before.length (mem_range.mpr hlength) r (by simp [heq])
  rw [heq, take_left] at hdense
  rw [heq] at hclock
  exact (dense_iff ((pairwise_append.mp hclock).1.sublist (byTime_sublist before))).mpr hdense

/-- A mandate an hour after another one with its MID is only acknowledged. One sent again within the
second, with 64 others in between, is carried out again. -/
theorem repeats_misjudged :
    ((handle (after handle {} [steering 7 0]) (steering 7 3600)).1 = .repeated ∧
      ¬ Recent (news (trace handle {} [steering 7 0])) (steering 7 3600)) ∧
    ((handle (after handle {} ((range 65).map fun n => steering n.toUInt16 0)) (steering 0 1)).1 = .new ∧
      Recent (news (trace handle {} ((range 65).map fun n => steering n.toUInt16 0))) (steering 0 1)) := by
  decide +kernel

end EmControl

/-! ## Stations associated -/

open Wire (Bytes Tlv)

instance : DecidableEq Mac := fun a b => decidable_of_iff (a.octets = b.octets)
  ⟨fun h => by cases a; cases b; cases h; rfl, fun h => by rw [h]⟩

structure EmBssView where
  bssid : Mac
  ssid : Bytes
  stations : List Mac

structure EmRadioView where
  ruid : Mac
  bsses : List EmBssView

/-- `shown_radios`: the fronthaul radio, and each further radio the pod has brought up. -/
structure Shown where
  front : EmRadioView
  further : List EmRadioView

namespace Shown

/-- The Associated Clients of the Topology Response: every BSS of every radio. -/
def bsses (s : Shown) : List EmBssView := (s.front :: s.further).flatMap EmRadioView.bsses

def lists (s : Shown) (bssid mac : Mac) : Bool :=
  s.bsses.any fun b => b.bssid = bssid && b.stations.contains mac

def bss (s : Shown) (bssid : Mac) : Option EmBssView := s.front.bsses.find? (·.bssid = bssid)

def associated (b : Option EmBssView) (mac : Mac) : Bool := b.any (·.stations.contains mac)

/-- The Error Code TLVs of the Ack to a Client Steering Request. -/
def steeringErrors (s : Shown) (source : Mac) (stations : List Mac) : List Tlv :=
  (stations.filter fun mac => !associated (s.bss source) mac).map fun mac =>
    ⟨0xA3, 0x02 :: mac.octets⟩

/-- The Error Code TLV of a Client Capability Report. -/
def capabilityError (s : Shown) (mac : Mac) : Tlv :=
  ⟨0xA3, (if s.front.bsses.any (·.stations.contains mac) then 0x03 else 0x02) :: mac.octets⟩

end Shown

/-- `SteeringCoordinator.handle`, the errors of its Ack. -/
def steeringErrors (facts : Wire.TopologyFacts) (source : Bytes) (stations : List Bytes) : List Tlv :=
  (stations.filter fun mac => !((facts.clients.filter (·.bssid = source)).flatMap fun b =>
    b.clients.map (·.mac)).contains mac).map fun mac => ⟨0xA3, 0x02 :: mac⟩

/-- `OnboardingSession.receive`, the Error Code of a Client Capability Report. -/
def capabilityError (facts : Wire.TopologyFacts) (mac : Bytes) : Except EmosaError Tlv :=
  if !facts.inventoryComplete then .error ⟨.notReady, "client inventory unavailable"⟩
  else .ok ⟨0xA3, (if facts.clients.any fun b => b.clients.any (·.mac = mac) then 0x03 else 0x02) :: mac⟩

/-- The Associated Clients TLV of a Topology Response sent at `now` has the client on the BSS. -/
def respondedOn (facts : Wire.TopologyFacts) (now : Option ℚ) (bssid mac : Bytes) : Bool :=
  (facts.at now).clients.any fun b => b.bssid = bssid && b.clients.any (·.mac = mac)

/-- The report says associated (0x03) where the client is listed, not associated (0x02) where not. -/
def Tells (t : Tlv) (mac : Bytes) (listed : Prop) : Prop :=
  t = ⟨0xA3, 0x03 :: mac⟩ ∧ listed ∨ t = ⟨0xA3, 0x02 :: mac⟩ ∧ ¬ listed

theorem tells_iff {c : Bool} {mac : Bytes} {listed : Prop} :
    Tells ⟨0xA3, (if c then 0x03 else 0x02) :: mac⟩ mac listed ↔ (c = true ↔ listed) := by
  cases c <;> simp [Tells]

theorem errors_eq_iff {α : Type} {f : α → Tlv} (hf : Function.Injective f) {p q : α → Bool}
    {l : List α} : (l.filter fun m => !p m).map f = (l.filter fun m => !q m).map f ↔
      ∀ m ∈ l, p m = q m := by
  rw [(map_injective_iff.mpr hf).eq_iff]
  constructor
  · intro h m hm
    have hmem : m ∈ l.filter (fun m => !p m) ↔ m ∈ l.filter fun m => !q m := by rw [h]
    cases hp : p m <;> cases hq : q m <;> simp [hm, hp, hq] at hmem ⊢
  · intro h
    exact filter_congr fun m hm => by rw [h m hm]

/-- The ages of a response do not change who is in it. -/
theorem respondedOn_eq (facts : Wire.TopologyFacts) (now : Option ℚ) (bssid mac : Bytes) :
    respondedOn facts now bssid mac =
      facts.clients.any fun b => b.bssid = bssid && b.clients.any (·.mac = mac) := by
  have haged : ∀ (since : Dict Bytes ℚ) t c, (Wire.aged since t c).mac = c.mac := by
    intro since t c
    unfold Wire.aged
    split <;> rfl
  unfold respondedOn Wire.TopologyFacts.at
  split
  · rfl
  · split
    · rfl
    · simp only [Wire.agedClients, any_map, Function.comp_def, haged]

namespace Shown

variable {s : Shown} {bssid mac : Mac}

theorem lists_iff : s.lists bssid mac = true ↔ ∃ b ∈ s.bsses, b.bssid = bssid ∧ mac ∈ b.stations := by
  simp [lists]

/-- On the first BSS of the fronthaul radio with the BSSID. -/
theorem associated_iff : associated (s.bss bssid) mac = true ↔
    ∃ others first rest, s.front.bsses = others ++ first :: rest ∧
      (∀ b ∈ others, b.bssid ≠ bssid) ∧ first.bssid = bssid ∧ mac ∈ first.stations := by
  simp only [associated, bss, Option.any_eq_true, find?_eq_some_iff_append, decide_eq_true_eq,
    contains_eq_mem, Bool.not_eq_true', decide_eq_false_iff_not]
  constructor
  · rintro ⟨first, ⟨hfirst, others, rest, hsplit, hothers⟩, hmac⟩
    exact ⟨others, first, rest, hsplit, hothers, hfirst, hmac⟩
  · rintro ⟨others, first, rest, hsplit, hothers, hfirst, hmac⟩
    exact ⟨first, ⟨hfirst, others, rest, hsplit, hothers⟩, hmac⟩

theorem lists_of_associated (h : associated (s.bss bssid) mac = true) : s.lists bssid mac = true := by
  obtain ⟨others, first, rest, hsplit, -, hfirst, hmac⟩ := associated_iff.mp h
  have hfront : first ∈ s.front.bsses := by simp [hsplit]
  exact lists_iff.mpr ⟨first, mem_flatMap.mpr ⟨_, mem_cons_self, hfront⟩, hfirst, hmac⟩

end Shown

/-- **Associations.** What the agent says of a station agrees with its Topology Response; in C, when
the stations named that are on a BSS with the source's BSSID are on the fronthaul radio's first one,
and the client asked for is not on further radios only. -/
theorem associations_agree_iff (facts : Wire.TopologyFacts) (now : Option ℚ) (bssid : Bytes)
    (named : List Bytes) (client : Bytes) (s : Shown) (source : Mac) (stations : List Mac)
    (mac : Mac) :
    (steeringErrors facts bssid named =
        (named.filter fun m => !respondedOn facts now bssid m).map (fun m => ⟨0xA3, 0x02 :: m⟩) ∧
      ∀ t, capabilityError facts client = .ok t →
        Tells t client (∃ bssid, respondedOn facts now bssid client = true)) ∧
    ((s.steeringErrors source stations = (stations.filter fun m => !s.lists source m).map
        (fun m => ⟨0xA3, 0x02 :: m.octets⟩) ∧
      Tells (s.capabilityError mac) mac.octets (∃ bssid, s.lists bssid mac = true)) ↔
    (∀ b ∈ s.bsses, b.bssid = source → ∀ m ∈ stations, m ∈ b.stations →
        ∃ others first rest, s.front.bsses = others ++ first :: rest ∧
          (∀ b' ∈ others, b'.bssid ≠ source) ∧ first.bssid = source ∧ m ∈ first.stations) ∧
      ∀ r ∈ s.further, ∀ b ∈ r.bsses, mac ∈ b.stations → ∃ b' ∈ s.front.bsses, mac ∈ b'.stations) := by
  refine ⟨⟨?_, ?_⟩, and_congr ?_ ?_⟩
  · refine (errors_eq_iff fun a b h => by simpa using h).mpr fun m _ => ?_
    rw [respondedOn_eq, Bool.eq_iff_iff]
    simp [and_assoc]
  · intro t ht
    unfold capabilityError at ht
    split at ht
    · cases ht
    · obtain rfl := Except.ok.inj ht
      rw [tells_iff]
      simp [respondedOn_eq]
  · refine (errors_eq_iff fun a b h => ?_).trans
      ⟨fun h b hb hsource m hm hon => ?_, fun h m hm => ?_⟩
    · cases a
      cases b
      simpa using h
    · rw [← Shown.associated_iff, h m hm]
      exact Shown.lists_iff.mpr ⟨b, hb, hsource, hon⟩
    · rw [Bool.eq_iff_iff]
      constructor
      · exact Shown.lists_of_associated
      · intro hlists
        obtain ⟨b, hb, hsource, hon⟩ := Shown.lists_iff.mp hlists
        exact Shown.associated_iff.mpr (h b hb hsource m hm hon)
  · unfold Shown.capabilityError
    rw [tells_iff]
    simp only [Shown.lists_iff, Shown.bsses, flatMap_cons, mem_append, mem_flatMap,
      any_eq_true, contains_eq_mem, decide_eq_true_eq]
    constructor
    · intro h r hr b hb hon
      exact h.mpr ⟨b.bssid, b, .inr ⟨r, hr, hb⟩, rfl, hon⟩
    · intro h
      constructor
      · rintro ⟨b, hb, hon⟩
        exact ⟨b.bssid, b, .inl hb, rfl, hon⟩
      · rintro ⟨bssid, b, hb | ⟨r, hr, hb⟩, -, hon⟩
        · exact ⟨b, hb, hon⟩
        · exact h r hr b hb hon

def sampleMac (n : UInt8) : Mac := ⟨[2, 0, 0, 0, 0, n], rfl⟩

/-- A station on a BSS of a further radio is in the Topology Response, and said not to be
associated. -/
theorem further_station_denied :
    let s : Shown := ⟨⟨sampleMac 1, [⟨sampleMac 2, [], []⟩]⟩,
      [⟨sampleMac 3, [⟨sampleMac 4, [], [sampleMac 9]⟩]⟩]⟩
    s.lists (sampleMac 4) (sampleMac 9) = true ∧
      s.steeringErrors (sampleMac 4) [sampleMac 9] = [⟨0xA3, [2, 2, 0, 0, 0, 0, 9]⟩] ∧
      s.capabilityError (sampleMac 9) = ⟨0xA3, [2, 2, 0, 0, 0, 0, 9]⟩ := by
  decide

end Emosa.C
