import Emosa.Wire.Holding

/-!
# Emosa.Wire.RoundTrip

A fragmented message is delivered once, whatever the order its frames arrive in.

The frames of one accepted message are fed to a reassembler that has no context for it, in any
order and with any repetitions before the last missing frame, interleaved with any calls that do
not concern its context. `Schedule` says what "in time and within the budgets" means along the way.

* `own_step`, `other_step`: what a call does to the context of the message.
* `schedule_holding`: the run lemma, by induction on the number of calls made.
-/

namespace Emosa.Wire

open Reassembler List Option

/-- The octets a frame is accounted for with. -/
def frameBytes (frame : Bytes) : Nat :=
  match receive frame with
  | .ok part =>
    match parseTlvs part.payload part.last with
    | .ok tlvs => tlvBytes tlvs
    | .error _ => 0
  | .error _ => 0

/-! ## Schedules -/

section Schedule

variable (ingress : String) (frames : List Bytes)

/-- The call feeds frame `i` of the message. -/
def Call.Carries (i : Nat) : Call → Prop
  | .feed _ _ ingress' frame => ingress' = ingress ∧ frames[i]? = some frame
  | .expire _ => False

/-- Frame `i` is fed by one of the calls. -/
def Fed (calls : List Call) (i : Nat) : Prop := ∃ c ∈ calls, c.Carries ingress frames i

/-- Every frame of the message is fed. -/
def Covers (calls : List Call) : Prop := ∀ i, i < frames.length → Fed ingress frames calls i

def Call.isOwn : Call → Bool
  | .feed _ _ ingress' frame => ingress' == ingress && frames.contains frame
  | .expire _ => false

/-- When the context of the message is opened: the second clock reading of the first call that
feeds one of its frames. -/
def opening (calls : List Call) : Option ℚ :=
  (calls.find? (Call.isOwn ingress frames)).map fun
    | .feed _ opened _ _ => opened
    | .expire now => now

/-- In time and within the budgets of the reassembler. -/
structure Budgets (r : Reassembler) (calls : List Call) : Prop where
  deadline : ∀ n c t, calls[n]? = some c → ¬ Covers ingress frames (calls.take n) →
    opening ingress frames (calls.take n) = some t → c.now - t < r.limits.timeout
  context_budget : ∀ n c i, calls[n]? = some c → c.Carries ingress frames i →
    opening ingress frames (calls.take n) = none →
    ((r.run (calls.take n)).expire c.now).1.contexts.length < r.limits.maxContexts
  fragment_budget : frames.length ≤ r.limits.maxFragments
  message_budget : (frames.map frameBytes).sum ≤ r.limits.maxMessageBytes
  total_budget : ∀ n c i frame, calls[n]? = some c → c.Carries ingress frames i →
    frames[i]? = some frame → ¬ Fed ingress frames (calls.take n) i →
    ((r.run (calls.take n)).expire c.now).1.buffered + frameBytes frame ≤ r.limits.maxBytes

variable {ingress frames} in
theorem Budgets.of_bounded {r : Reassembler} {calls : List Call}
    (h : ∀ n, (hn : n < calls.length) →
      (∀ t ∈ opening ingress frames (calls.take n), (calls.get ⟨n, hn⟩).now - t < r.limits.timeout) ∧
      let r' := ((r.run (calls.take n)).expire (calls.get ⟨n, hn⟩).now).1
      r'.contexts.length < r.limits.maxContexts ∧
        ∀ frame ∈ frames, r'.buffered + frameBytes frame ≤ r.limits.maxBytes)
    (hfragments : frames.length ≤ r.limits.maxFragments)
    (hmessage : (frames.map frameBytes).sum ≤ r.limits.maxMessageBytes) :
    Budgets ingress frames r calls := by
  refine ⟨fun n c t hc _ ht => ?_, fun n c i hc _ _ => ?_, hfragments, hmessage,
    fun n c i frame hc _ hframe _ => ?_⟩ <;> obtain ⟨hn, rfl⟩ := List.getElem?_eq_some_iff.mp hc
  · exact (h n hn).1 t ht
  · exact (h n hn).2.1
  · exact (h n hn).2.2 frame (mem_of_getElem? hframe)

/-- The calls feed the frames of the message before its deadline and within the budgets. -/
structure Schedule (r : Reassembler) (key : Key) (calls : List Call) : Prop
    extends Budgets ingress frames r calls where
  /-- Every call feeds a frame of the message or does not concern its context. -/
  own_or_other : ∀ c ∈ calls, (∃ i, c.Carries ingress frames i) ∨ c.context ≠ some key
  all_fed : Covers ingress frames calls
  /-- Frames are repeated only before the last missing one. -/
  repeats : ∀ n c i, calls[n]? = some c → c.Carries ingress frames i →
    ¬ Covers ingress frames (calls.take n)

end Schedule

/-! ## The step and the run -/

section Run

variable {destination source : Bytes} {messageType mid : Nat} {relay : Bool} {tlvs : List Tlv}
  {frames : List Bytes} {groups : List (List Tlv)} {ingress : String} {calls : List Call}

variable (hf : Fragmented destination source messageType mid relay tlvs frames groups)

include hf in
theorem Fragmented.receive_frame {i : Nat} {frame : Bytes} (hframe : frames[i]? = some frame) :
    i < groups.length ∧
      receive frame = .ok (fragmentOf destination source messageType mid relay groups i) := by
  have hi : i < groups.length := by
    rw [← hf.length]; exact (List.getElem?_eq_some_iff.mp hframe).1
  rw [hf.frame i hi, some.injEq] at hframe
  exact ⟨hi, hframe ▸ receive_octets (hf.fragment_wf i hi)⟩

include hf in
theorem Fragmented.frameBytes_eq {i : Nat} {frame : Bytes} (hframe : frames[i]? = some frame) :
    frameBytes frame = tlvBytes (groups.getD i []) := by
  obtain ⟨hi, hrec⟩ := hf.receive_frame hframe
  simp only [frameBytes, hrec, hf.parse hi]

include hf in
theorem Fragmented.sum_frameBytes : (frames.map frameBytes).sum = (groups.map tlvBytes).sum := by
  refine congrArg List.sum (ext_getElem (by simp [hf.length]) fun i h1 h2 => ?_)
  have hi : i < frames.length := by simpa using h1
  have hi' : i < groups.length := by simpa using h2
  rw [getElem_map, hf.frameBytes_eq (getElem?_eq_getElem hi)]
  simp [getElem?_eq_getElem hi']

include hf in
theorem Call.Carries.unique {c : Call} {i j : Nat} (hi : c.Carries ingress frames i)
    (hj : c.Carries ingress frames j) : i = j := by
  cases c with
  | expire now => cases hi
  | feed now opened ingress' frame =>
    have h1 := (hf.receive_frame hi.2).2
    rw [(hf.receive_frame hj.2).2] at h1
    simpa [fragmentOf] using (congrArg Fragment.fid (Except.ok.inj h1)).symm

theorem Call.isOwn_iff {c : Call} :
    c.isOwn ingress frames = true ↔ ∃ i, c.Carries ingress frames i := by
  cases c with
  | expire now => simp [Call.isOwn, Call.Carries]
  | feed now opened ingress' frame =>
    simp [Call.isOwn, Call.Carries, mem_iff_getElem?]

theorem fed_append_one {c : Call} {j : Nat} :
    Fed ingress frames (calls ++ [c]) j ↔ Fed ingress frames calls j ∨ c.Carries ingress frames j := by
  simp [Fed]

theorem opening_eq_none :
    opening ingress frames calls = none ↔ ∀ i, ¬ Fed ingress frames calls i := by
  simp only [opening, map_eq_none_iff, find?_eq_none, Call.isOwn_iff]
  constructor
  · rintro h i ⟨c, hc, hi⟩; exact h c hc ⟨i, hi⟩
  · rintro h c hc ⟨i, hi⟩; exact h i ⟨c, hc, hi⟩

theorem opening_append_other {c : Call} (h : c.isOwn ingress frames = false) :
    opening ingress frames (calls ++ [c]) = opening ingress frames calls := by
  simp [opening, h]

theorem opening_append_of_some {t : ℚ} (c : Call) (h : opening ingress frames calls = some t) :
    opening ingress frames (calls ++ [c]) = some t := by
  simp only [opening, map_eq_some_iff] at h ⊢
  obtain ⟨f, hf, ht⟩ := h
  exact ⟨f, by simp [hf], ht⟩

theorem opening_append_first {now opened : ℚ} {ingress' : String} {frame : Bytes}
    (h : opening ingress frames calls = none)
    (hc : (Call.feed now opened ingress' frame).isOwn ingress frames = true) :
    opening ingress frames (calls ++ [.feed now opened ingress' frame]) = some opened := by
  simp only [opening, map_eq_none_iff] at h
  simp [opening, h, hc]

variable {r : Reassembler}

/-- Before the message is complete, its context holds exactly what was fed. -/
structure HeldAfter (ingress : String) (frames : List Bytes) (groups : List (List Tlv)) (relay : Bool)
    (r : Reassembler) (key : Key) (calls : List Call) : Prop where
  unopened : opening ingress frames calls = none → (r.run calls).contexts.get? key = none
  opened : ∀ t, opening ingress frames calls = some t → ∃ a,
    (r.run calls).contexts.get? key = some a ∧ Holding groups relay (Fed ingress frames calls) t a

variable (hs : Schedule ingress frames r ⟨ingress, source, destination, messageType, mid⟩ calls)
  (hnew : r.contexts.get? ⟨ingress, source, destination, messageType, mid⟩ = none)

include hs in
theorem Schedule.opened {n i : Nat} {now opened : ℚ} {frame : Bytes}
    (hc : calls[n]? = some (.feed now opened ingress frame)) (hi : frames[i]? = some frame)
    (hheld : HeldAfter ingress frames groups relay r ⟨ingress, source, destination, messageType, mid⟩
      (calls.take n)) :
    ∃ r₁ a t, Reassembler.Opened ((r.run (calls.take n)).expire now).1
        ⟨ingress, source, destination, messageType, mid⟩
        (fragmentOf destination source messageType mid relay groups i) opened r₁ a ∧
      r₁.buffered = ((r.run (calls.take n)).expire now).1.buffered ∧ r₁.limits = r.limits ∧
      opening ingress frames (calls.take n ++ [.feed now opened ingress frame]) = some t ∧
      Holding groups relay (Fed ingress frames (calls.take n)) t a := by
  have hcarry : (Call.feed now opened ingress frame).Carries ingress frames i := ⟨rfl, hi⟩
  cases ho : opening ingress frames (calls.take n) with
  | none =>
    have hnone := get?_expire_none now (hheld.unopened ho)
    have hbudget := hs.context_budget n _ i hc hcarry ho
    have hfed : Fed ingress frames (calls.take n) = fun _ => False := by
      funext j; simpa using opening_eq_none.mp ho j
    refine ⟨_, _, opened, .fresh hnone (by simpa [Call.now] using hbudget), rfl, by simp,
      opening_append_first ho (Call.isOwn_iff.mpr ⟨i, hcarry⟩), ?_⟩
    rw [hfed]
    exact Holding.fresh
  | some t =>
    obtain ⟨a, ha, hold⟩ := hheld.opened t ho
    have hdead := hs.deadline n _ t hc (hs.repeats n _ i hc hcarry) ho
    refine ⟨_, a, t, .found (get?_expire.mpr ⟨ha, ?_⟩), rfl, by simp,
      opening_append_of_some _ ho, hold⟩
    simpa [hold.started, Call.now] using hdead

include hf hs in
/-- **Step, own call.** The last missing frame is answered with the message, every other one with
nothing. -/
theorem Schedule.own_step {n i : Nat} {c : Call} (hc : calls[n]? = some c)
    (hi : c.Carries ingress frames i)
    (hheld : HeldAfter ingress frames groups relay r ⟨ingress, source, destination, messageType, mid⟩
      (calls.take n)) :
    (Covers ingress frames (calls.take n ++ [c]) →
      ((r.run (calls.take n)).call c).2 =
        .fed (.ok (some ⟨destination, source, messageType, mid, relay, tlvs, frames.length⟩))) ∧
    (¬ Covers ingress frames (calls.take n ++ [c]) →
      ((r.run (calls.take n)).call c).2 = .fed (.ok none) ∧
      HeldAfter ingress frames groups relay r ⟨ingress, source, destination, messageType, mid⟩
        (calls.take n ++ [c])) := by
  have hnocov := hs.repeats n c i hc hi
  have hset : Fed ingress frames (calls.take n ++ [c]) =
      fun j => Fed ingress frames (calls.take n) j ∨ j = i := by
    funext j
    rw [fed_append_one]
    exact propext (or_congr_right ⟨fun hj => hj.unique hf hi, fun hj => hj ▸ hi⟩)
  have hcov : Covers ingress frames (calls.take n ++ [c]) ↔
      ∀ j, j < groups.length → (Fed ingress frames (calls.take n) j ∨ j = i) := by
    simp only [Covers, hset, hf.length]
  cases c with
  | expire now => cases hi
  | feed now opened ingress' frame =>
    obtain ⟨rfl, hframe⟩ := hi
    obtain ⟨r₁, a, t, hopen, hbuf, hlim, ht, hold⟩ := hs.opened hc hframe hheld
    obtain ⟨hlt, hrec⟩ := hf.receive_frame hframe
    have hfeed : (r.run (calls.take n)).feed now opened ingress' frame =
        r₁.accept ⟨ingress', source, destination, messageType, mid⟩ a
          (fragmentOf destination source messageType mid relay groups i) := by
      have hkey : (fragmentOf destination source messageType mid relay groups i).key ingress' =
        ⟨ingress', source, destination, messageType, mid⟩ := rfl
      simp only [feed, hrec, hkey, openContext_ok.mpr hopen]
    have hfrag : groups.length ≤ r₁.limits.maxFragments := by
      rw [hlim, ← hf.length]; exact hs.fragment_budget
    have hadm : ¬ Fed ingress' frames (calls.take n) i → r₁.Admitted a
        (fragmentOf destination source messageType mid relay groups i) (groups.getD i []) := by
      intro hfed
      have hmsg := hs.message_budget
      have htotal := hs.total_budget n _ i frame hc ⟨rfl, hframe⟩ hframe hfed
      rw [hf.sum_frameBytes] at hmsg
      rw [hf.frameBytes_eq hframe] at htotal
      exact hold.admitted hf hlt hfed hfrag (by rw [hlim]; exact hmsg) (by rw [hbuf, hlim]; exact htotal)
    constructor
    · intro hall
      -- a repetition cannot complete the message: it was not complete before
      have hnew : ¬ Fed ingress' frames (calls.take n) i := by
        refine fun hfed => hnocov fun j hj => ?_
        rcases hcov.mp hall j (hf.length ▸ hj) with h | rfl
        · exact h
        · exact hfed
      simp only [call, hfeed,
        hold.accept_complete hf hlt hnew (hadm hnew) (hcov.mp hall)]
    · intro hnot
      obtain ⟨r₂, a', hacc, hget, hold'⟩ :=
        hold.accept_incomplete hf hopen.get? hlt hadm hfrag (fun h => hnot (hcov.mpr h))
      refine ⟨by simp only [call, hfeed, hacc], ?_, ?_⟩
      · intro hno; rw [ht] at hno; cases hno
      · intro t' ht'
        obtain rfl : t = t' := some.inj (ht.symm.trans ht')
        rw [run_append_one, hset]
        simp only [call, hfeed, hacc]
        exact ⟨a', hget, hold'⟩

theorem Schedule.other_step {n : Nat} {c : Call} {key : Key}
    (hs : Schedule ingress frames r key calls) (hc : calls[n]? = some c)
    (hother : ∀ i, ¬ c.Carries ingress frames i) (hctx : c.context ≠ some key)
    (hcov : ¬ Covers ingress frames (calls.take n))
    (hheld : HeldAfter ingress frames groups relay r key (calls.take n)) :
    HeldAfter ingress frames groups relay r key (calls.take n ++ [c]) := by
  have hown : c.isOwn ingress frames = false := by
    rw [Bool.eq_false_iff]
    intro h
    obtain ⟨i, hi⟩ := Call.isOwn_iff.mp h
    exact hother i hi
  have hset : Fed ingress frames (calls.take n ++ [c]) = Fed ingress frames (calls.take n) := by
    funext j; simp [fed_append_one, hother j]
  constructor
  · intro ho
    rw [opening_append_other hown] at ho
    rw [run_append_one, call_frame hctx]
    exact get?_expire_none _ (hheld.unopened ho)
  · intro t ho
    rw [opening_append_other hown] at ho
    obtain ⟨a, ha, hold⟩ := hheld.opened t ho
    rw [run_append_one, call_frame hctx, hset]
    refine ⟨a, get?_expire.mpr ⟨ha, ?_⟩, hold⟩
    simpa [hold.started] using hs.deadline n c t hc hcov ho

theorem Covers.mono {more : List Call} (h : Covers ingress frames calls) :
    Covers ingress frames (calls ++ more) := by
  intro i hi
  obtain ⟨c, hc, hcarry⟩ := h i hi
  exact ⟨c, mem_append_left _ hc, hcarry⟩

include hf hs hnew in
/-- **Run.** Up to the call that completes the message, the context holds what was fed. -/
theorem schedule_holding (n : Nat) (hn : n ≤ calls.length)
    (hcov : ¬ Covers ingress frames (calls.take n)) :
    HeldAfter ingress frames groups relay r ⟨ingress, source, destination, messageType, mid⟩
      (calls.take n) := by
  induction n with
  | zero =>
    refine ⟨fun _ => by simpa [run] using hnew, fun t ht => ?_⟩
    simp [opening] at ht
  | succ n ih =>
    have hlt : n < calls.length := by omega
    have hc : calls[n]? = some calls[n] := getElem?_eq_getElem hlt
    have htake : calls.take (n + 1) = calls.take n ++ [calls[n]] := (take_concat_get' _ _ hlt).symm
    have hcov' : ¬ Covers ingress frames (calls.take n) := fun h => hcov (htake ▸ h.mono)
    have hheld := ih (by omega) hcov'
    rw [htake] at hcov ⊢
    by_cases hown : ∃ i, calls[n].Carries ingress frames i
    · obtain ⟨i, hi⟩ := hown
      exact ((hs.own_step hf hc hi hheld).2 hcov).2
    · rcases hs.own_or_other _ (getElem_mem hlt) with h | h
      · exact absurd h hown
      · exact hs.other_step hc (not_exists.mp hown) h hcov' hheld

theorem exists_completing (hall : Covers ingress frames calls) (hne : 0 < frames.length) :
    ∃ (n : Nat) (c : Call), calls[n]? = some c ∧ ¬ Covers ingress frames (calls.take n) ∧
      Covers ingress frames (calls.take n ++ [c]) := by
  classical
  have hex : ∃ k, Covers ingress frames (calls.take k) := ⟨calls.length, by simpa using hall⟩
  have hspec := Nat.find_spec hex
  have hmin := fun k hk => Nat.find_min hex (m := k) hk
  cases hk : Nat.find hex with
  | zero =>
    rw [hk] at hspec
    obtain ⟨c, hc, -⟩ := hspec 0 hne
    simp at hc
  | succ n =>
    rw [hk] at hspec hmin
    have hlt : n < calls.length := by
      by_contra hge
      refine hmin n (by omega) ?_
      rw [take_of_length_le (by omega)]
      exact hall
    refine ⟨n, calls[n], getElem?_eq_getElem hlt, hmin n (by omega), ?_⟩
    rwa [take_concat_get' _ _ hlt]

include hf hs hnew in
theorem Schedule.answers {k i : Nat} {c : Call} (hc : calls[k]? = some c)
    (hi : c.Carries ingress frames i) :
    (Covers ingress frames (calls.take k ++ [c]) → r.replyAt calls k =
      some (.fed (.ok (some ⟨destination, source, messageType, mid, relay, tlvs, frames.length⟩)))) ∧
    (¬ Covers ingress frames (calls.take k ++ [c]) → r.replyAt calls k = some (.fed (.ok none))) := by
  have hstep := hs.own_step hf hc hi (schedule_holding hf hs hnew k
    (Nat.le_of_lt (List.getElem?_eq_some_iff.mp hc).1) (hs.repeats k c i hc hi))
  simp only [replyAt, hc]
  exact ⟨fun h => congrArg some (hstep.1 h), fun h => congrArg some (hstep.2 h).1⟩

include hf hs hnew in
theorem Schedule.delivers :
    ∃ n c, calls[n]? = some c ∧ ¬ Covers ingress frames (calls.take n) ∧
      Covers ingress frames (calls.take n ++ [c]) ∧ r.replyAt calls n =
        some (.fed (.ok (some ⟨destination, source, messageType, mid, relay, tlvs, frames.length⟩))) := by
  have hpos : 0 < frames.length := by rw [hf.length]; exact length_pos_iff.mpr hf.nonempty
  obtain ⟨n, c, hc, hbefore, hafter⟩ := exists_completing hs.all_fed hpos
  -- the completing call is an own one: another call feeds nothing
  have hi : ∃ i, c.Carries ingress frames i := by
    by_contra hno
    refine hbefore fun j hj => ?_
    exact (fed_append_one.mp (hafter j hj)).resolve_right fun hj' => hno ⟨j, hj'⟩
  obtain ⟨i, hi⟩ := hi
  exact ⟨n, c, hc, hbefore, hafter, (hs.answers hf hnew hc hi).1 hafter⟩

/-- **Round trip.** The frames of an accepted message are fed in any order, with any repetitions
before the last missing one, among any calls of other contexts, in time and within the budgets. The
call that feeds the last missing frame returns the message, and every other call for its frames
returns nothing. -/
theorem reassemble_fragmentMessage (mtu : Nat)
    (h : fragmentMessage destination source messageType mid tlvs relay mtu = .ok frames)
    (hnew : r.contexts.get? ⟨ingress, source, destination, messageType, mid⟩ = none)
    (hs : Schedule ingress frames r ⟨ingress, source, destination, messageType, mid⟩ calls) :
    ∃ n, ¬ Covers ingress frames (calls.take n) ∧ Covers ingress frames (calls.take (n + 1)) ∧
      r.replyAt calls n =
        some (.fed (.ok (some ⟨destination, source, messageType, mid, relay, tlvs, frames.length⟩))) ∧
      ∀ k c, k ≠ n → calls[k]? = some c →
        c.context = some ⟨ingress, source, destination, messageType, mid⟩ →
        (∃ i, c.Carries ingress frames i) ∧ r.replyAt calls k = some (.fed (.ok none)) := by
  obtain ⟨groups, hf⟩ := fragmentMessage_spec h
  have hown : ∀ (k : Nat) (c : Call), calls[k]? = some c →
      c.context = some ⟨ingress, source, destination, messageType, mid⟩ →
      ∃ i, c.Carries ingress frames i := by
    intro k c hc hctx
    rcases hs.own_or_other c (mem_of_getElem? hc) with hi | hne
    · exact hi
    · exact absurd hctx hne
  have htake : ∀ (k : Nat) (c : Call), calls[k]? = some c → calls.take (k + 1) = calls.take k ++ [c] := by
    intro k c hc
    rw [take_add_one, hc, toList_some]
  obtain ⟨n, c, hc, hbefore, hafter, hreply⟩ := hs.delivers hf hnew
  refine ⟨n, hbefore, by rw [htake n c hc]; exact hafter, hreply, ?_⟩
  intro k c' hk hc' hctx
  obtain ⟨i, hi⟩ := hown k c' hc' hctx
  refine ⟨⟨i, hi⟩, ?_⟩
  have hnot : ¬ Covers ingress frames (calls.take k ++ [c']) := by
    rw [← htake k c' hc']
    intro hcov
    rcases Nat.lt_or_gt_of_ne hk with hlt | hgt
    · -- complete before call `n`
      refine hbefore ?_
      rw [← take_append_drop (k + 1) (calls.take n), take_take,
        Nat.min_eq_left (by omega)]
      exact hcov.mono
    · -- an own call after call `n`
      refine hs.repeats k c' i hc' hi ?_
      rw [← take_append_drop (n + 1) (calls.take k), take_take,
        Nat.min_eq_left (by omega), htake n c hc]
      exact hafter.mono
  exact (hs.answers hf hnew hc' hi).2 hnot

end Run

/-- Two frames, fed in the reverse order with a repetition and an expiry between them. -/
theorem reassemble_two_frames :
    let frame₀ := Reassembler.sampleFrame 7 0 0 1
    let frame₁ := Reassembler.sampleFrame 7 1 0x80 2 ++ [0, 0, 0]
    let calls : List Call :=
      [.feed 0 0 "eth0" frame₁, .feed 1 1 "eth0" frame₁, .expire 2, .feed 3 3 "eth0" frame₀]
    ∃ n, ¬ Covers "eth0" [frame₀, frame₁] (calls.take n) ∧
      Covers "eth0" [frame₀, frame₁] (calls.take (n + 1)) ∧
      ({ limits := defaultLimits } : Reassembler).replyAt calls n =
        some (.fed (.ok (some ⟨[2, 0, 0, 0, 0, 1], [2, 0, 0, 0, 0, 2], 9, 7, false,
          [⟨1, []⟩, ⟨2, []⟩], 2⟩))) ∧
      ∀ k c, k ≠ n → calls[k]? = some c →
        c.context = some ⟨"eth0", [2, 0, 0, 0, 0, 2], [2, 0, 0, 0, 0, 1], 9, 7⟩ →
        (∃ i, c.Carries "eth0" [frame₀, frame₁] i) ∧
          ({ limits := defaultLimits } : Reassembler).replyAt calls k = some (.fed (.ok none)) := by
  intro frame₀ frame₁ calls
  have hfirst : ∀ n, n < 4 → ¬ Fed "eth0" [frame₀, frame₁] (calls.take n) 0 := by
    intro n hn
    rintro ⟨c, hc, hcarry⟩
    have hmem : c ∈ calls.take 3 := take_subset_take_left _ (by omega) hc
    simp only [calls, take_succ_cons, take_zero, mem_cons, not_mem_nil, or_false]
      at hmem
    rcases hmem with rfl | rfl | rfl
    · exact absurd hcarry.2 (by decide)
    · exact absurd hcarry.2 (by decide)
    · exact hcarry
  have hlt : ∀ (n : Nat) (c : Call), calls[n]? = some c → n < 4 :=
    fun n c hc => (List.getElem?_eq_some_iff.mp hc).1
  refine reassemble_fragmentMessage 14 (by decide +kernel) rfl
    ⟨.of_bounded (by decide +kernel) (by decide) (by decide +kernel), ?_, ?_, ?_⟩
  · intro c hc
    simp only [calls, mem_cons, not_mem_nil, or_false] at hc
    rcases hc with rfl | rfl | rfl | rfl
    · exact Or.inl ⟨1, rfl, rfl⟩
    · exact Or.inl ⟨1, rfl, rfl⟩
    · exact Or.inr (by simp [Call.context])
    · exact Or.inl ⟨0, rfl, rfl⟩
  · intro i hi
    rcases i with _ | _ | i
    · exact ⟨.feed 3 3 "eth0" frame₀, by simp [calls], rfl, rfl⟩
    · exact ⟨.feed 0 0 "eth0" frame₁, by simp [calls], rfl, rfl⟩
    · simp only [length_cons, length_nil] at hi; omega
  · intro n c i hc _ hcov
    exact hfirst n (hlt n c hc) (hcov 0 (by simp))

end Emosa.Wire
