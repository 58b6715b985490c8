import Emosa.Wire.Calls

/-!
# Emosa.Wire.Delivery

What a delivered message is made of, whoever sends the frames and whatever the clock reads.

A context is followed from the call that opened it: `Since key j t n` says that call `j` opened the
context of `key` at time `t` and that it is still there when call `n` is judged. `History` ties every
fragment the context stores to the frames received since.

* `accept_history`: one frame more, the step of the history.
* `run_history`: every stored context has its history, by induction on the calls.
-/

namespace Emosa.Wire

open Reassembler Option

/-- Call `n` feeds the fragment `part` of the context `key`. -/
def FrameAt (calls : List Call) (key : Key) (n : Nat) (part : Fragment) : Prop :=
  ∃ now opened ingress frame, calls[n]? = some (.feed now opened ingress frame) ∧
    receive frame = .ok part ∧ part.key ingress = key

/-- The two fragments have one number, and differ in their last flag or their TLVs. -/
def Contradicts (p q : Fragment) : Prop :=
  p.fid = q.fid ∧ (p.last ≠ q.last ∨ parseTlvs p.payload p.last ≠ parseTlvs q.payload q.last)

variable {n : Nat}

theorem FrameAt.context {calls : List Call} {key : Key} {part : Fragment} {c : Call}
    (h : FrameAt calls key n part) (hc : calls[n]? = some c) : c.context = some key := by
  obtain ⟨now, opened, ingress, frame, hn, hrec, hkey⟩ := h
  rw [hn, some.injEq] at hc
  subst hc
  simp [Call.context, hrec, hkey]

theorem FrameAt.unique {calls : List Call} {key : Key} {p q : Fragment}
    (hp : FrameAt calls key n p) (hq : FrameAt calls key n q) : p = q := by
  obtain ⟨_, _, _, _, hn, hrec, -⟩ := hp
  obtain ⟨_, _, _, _, hn', hrec', -⟩ := hq
  rw [hn] at hn'
  cases hn'
  exact Except.ok.inj (hrec.symm.trans hrec')

section Since

variable (r : Reassembler) (calls : List Call) (key : Key)

/-- The reassembler as call `n` finds it, after the expiry that every call starts with. -/
def judgedAt (n : Nat) (c : Call) : Reassembler := ((r.run (calls.take n)).expire c.now).1

/-- The context of `key` opened by call `j` at time `t` is the one that call `n` finds. -/
structure Since (j : Nat) (t : ℚ) (n : Nat) : Prop where
  le : j ≤ n
  opens : ∃ now ingress frame part, calls[j]? = some (.feed now t ingress frame) ∧
    receive frame = .ok part ∧ part.key ingress = key ∧
    (judgedAt r calls j (.feed now t ingress frame)).contexts.get? key = none
  live : ∀ k c, j < k → k ≤ n → calls[k]? = some c →
    (judgedAt r calls k c).contexts.get? key ≠ none

end Since

variable {r : Reassembler} {calls : List Call} {key : Key}

variable {j : Nat} {t : ℚ}

theorem Since.unique {j' : Nat} {t' : ℚ} (h : Since r calls key j t n)
    (h' : Since r calls key j' t' n) : j = j' ∧ t = t' := by
  obtain ⟨now, ingress, frame, part, hc, -, -, hnone⟩ := h.opens
  obtain ⟨now', ingress', frame', part', hc', -, -, hnone'⟩ := h'.opens
  rcases Nat.lt_trichotomy j j' with hlt | rfl | hgt
  · exact absurd hnone' (h.live j' _ hlt h'.le hc')
  · rw [hc] at hc'
    cases hc'
    exact ⟨rfl, rfl⟩
  · exact absurd hnone (h'.live j _ hgt h.le hc)

theorem Since.succ (h : Since r calls key j t n)
    (hlive : ∀ c, calls[n + 1]? = some c → (judgedAt r calls (n + 1) c).contexts.get? key ≠ none) :
    Since r calls key j t (n + 1) where
  __ := h
  le := Nat.le_succ_of_le h.le
  live := by
    intro k c hjk hk hc
    rcases Nat.lt_or_ge n k with hnk | hnk
    · obtain rfl : k = n + 1 := by omega
      exact hlive c hc
    · exact h.live k c hjk hnk hc

/-! ## The history of a context -/

/-- What the context keeps of the frames fed to it by the calls from `j` on and before `n`. -/
structure History (calls : List Call) (key : Key) (j : Nat) (t : ℚ) (n : Nat) (a : Assembly) :
    Prop where
  started : a.started = t
  received : ∀ fid item, a.parts.get? fid = some item → ∃ k part, j ≤ k ∧ k < n ∧
    FrameAt calls key k part ∧ part.fid = fid ∧ part.last = item.1
  agrees : a.poisoned = false → ∀ k part, j ≤ k → k < n → FrameAt calls key k part →
    ∃ tlvs, parseTlvs part.payload part.last = .ok tlvs ∧
      a.parts.get? part.fid = some (part.last, tlvs)
  last_iff : a.poisoned = false → ∀ last, a.last = some last ↔
    ∃ tlvs, a.parts.get? last = some (true, tlvs)

theorem History.fresh {relay : Bool} :
    History calls key j t j { started := t, relay := relay } where
  started := rfl
  received := by intro _ _ h; cases h
  agrees := by intro _ k part hj hk; omega
  last_iff := by simp

/-- A call that adds no fragment: one for another context, a repetition, or one in quarantine. -/
theorem History.keep {a : Assembly} (h : History calls key j t n a)
    (hn : a.poisoned = false → ∀ part, FrameAt calls key n part →
      ∃ tlvs, parseTlvs part.payload part.last = .ok tlvs ∧
        a.parts.get? part.fid = some (part.last, tlvs)) : History calls key j t (n + 1) a where
  __ := h
  received := by
    intro fid item hitem
    obtain ⟨k, part, hj, hk, hrest⟩ := h.received fid item hitem
    exact ⟨k, part, hj, by omega, hrest⟩
  agrees := by
    intro hp k part hj hk hf
    rcases Nat.lt_or_ge k n with hlt | hge
    · exact h.agrees hp k part hj hlt hf
    · obtain rfl : k = n := by omega
      exact hn hp part hf

theorem History.poisoned {a : Assembly} (hs : a.started = t) (hp : a.poisoned = true)
    (hempty : a.parts = ∅) : History calls key j t n a where
  started := hs
  received := by intro fid item h; rw [hempty] at h; cases h
  agrees := by intro h; rw [hp] at h; cases h
  last_iff := by intro h; rw [hp] at h; cases h

section

variable {part : Fragment}

theorem History.store {a : Assembly} {tlvs : List Tlv}
    (h : History calls key j t n a) (hj : j ≤ n) (hf : FrameAt calls key n part)
    (hadm : r.Admitted a part tlvs) : History calls key j t (n + 1) (a.store part tlvs) where
  __ := h
  received := by
    intro fid item hitem
    simp only [Assembly.store, Dict.get?_set] at hitem
    split at hitem
    · rename_i hfid
      cases hitem
      exact ⟨n, part, hj, by omega, hf, hfid.symm, rfl⟩
    · obtain ⟨k, p, hjk, hk, hrest⟩ := h.received fid item hitem
      exact ⟨k, p, hjk, by omega, hrest⟩
  agrees := by
    intro _ k p hjk hk hfp
    rcases Nat.lt_or_ge k n with hlt | hge
    · obtain ⟨ts, hp, hget⟩ := h.agrees hadm.healthy k p hjk hlt hfp
      have hne : p.fid ≠ part.fid := by
        intro heq; rw [heq, hadm.absent] at hget; cases hget
      exact ⟨ts, hp, by simpa [Assembly.store, Dict.get?_set_ne _ _ hne] using hget⟩
    · obtain rfl : k = n := by omega
      cases hf.unique hfp
      exact ⟨tlvs, hadm.parse, by simp [Assembly.store]⟩
  last_iff := by
    intro _ last
    have hiff := h.last_iff hadm.healthy last
    cases hp : part.last with
    | true =>
      -- a last fragment that is admitted is the first one
      simp only [Assembly.store, hp, if_true, some.injEq]
      constructor
      · rintro rfl; exact ⟨tlvs, by simp⟩
      · rintro ⟨ts, hts⟩
        rw [Dict.get?_set] at hts
        split at hts
        · rename_i heq; exact heq.symm
        · exact ((hadm.last_ok last (hiff.mpr ⟨ts, hts⟩)).2 hp)
    | false =>
      simp only [Assembly.store, hp, Bool.false_eq_true, if_false]
      rw [hiff]
      rw [Dict.get?_set]
      split
      · rename_i heq
        subst heq
        rw [hadm.absent]
        simp
      · rfl

/-- **Step.** The history of a context that has judged one frame more. -/
theorem accept_history {s a : Assembly} (h : History calls key j t n s)
    (hj : j ≤ n) (hf : FrameAt calls key n part) (hget : r.contexts.get? key = some s)
    (ha : (r.accept key s part).1.contexts.get? key = some a) :
    History calls key j t (n + 1) a := by
  simp only [accept] at ha
  cases hjudge : r.judge s part with
  | quarantined =>
    simp only [hjudge, hget, some.injEq] at ha
    subst ha
    refine h.keep fun hp => ?_
    rw [judge_quarantined hjudge] at hp
    cases hp
  | poison reason =>
    simp only [hjudge, poison, Dict.get?_set_self, some.injEq] at ha
    subst ha
    exact History.poisoned h.started rfl rfl
  | duplicate =>
    simp only [hjudge, hget, some.injEq] at ha
    subst ha
    obtain ⟨-, hst⟩ := judge_duplicate hjudge
    exact h.keep fun _ p hp => hf.unique hp ▸ hst
  | store tlvs =>
    have hadm := judge_store hjudge
    simp only [hjudge] at ha
    cases hc : (s.store part tlvs).complete with
    | false =>
      simp only [store_of_incomplete hc, Dict.get?_set_self, some.injEq] at ha
      subst ha
      exact h.store hj hf hadm
    | true =>
      obtain ⟨last, -, -, hstore⟩ := store_of_complete r key hc
      simp [hstore] at ha

theorem opened_history {now opened : ℚ} {ingress : String} {frame : Bytes}
    {r₁ : Reassembler} {s : Assembly} (hc : calls[n]? = some (.feed now opened ingress frame))
    (hrec : receive frame = .ok part) (hkey : part.key ingress = key)
    (ih : ∀ a, (judgedAt r calls n (.feed now opened ingress frame)).contexts.get? key = some a →
      ∃ j t, Since r calls key j t n ∧ History calls key j t n a)
    (ho : Reassembler.Opened (judgedAt r calls n (.feed now opened ingress frame)) key part opened
      r₁ s) : ∃ j t, Since r calls key j t n ∧ History calls key j t n s := by
  cases ho with
  | found hget => exact ih s hget
  | fresh hnone _ =>
    refine ⟨n, opened, ⟨le_rfl, ⟨now, ingress, frame, part, hc, hrec, hkey, hnone⟩, ?_⟩,
      History.fresh⟩
    omega

/-- **Run.** Every context a call finds has its history. -/
theorem run_history (hr : ∀ key, r.contexts.get? key = none) (n : Nat) :
    ∀ c, calls[n]? = some c → ∀ key a, (judgedAt r calls n c).contexts.get? key = some a →
      ∃ j t, Since r calls key j t n ∧ History calls key j t n a := by
  induction n with
  | zero =>
    intro c _ key a ha
    have hnone := get?_expire_none c.now (hr key)
    simp only [judgedAt, List.take_zero, run, List.foldl_nil, hnone] at ha
    cases ha
  | succ n ih =>
    intro c' hc' key a ha
    have hlt : n < calls.length := Nat.lt_of_succ_lt (List.getElem?_eq_some_iff.mp hc').1
    obtain ⟨c, hc⟩ : ∃ c, calls[n]? = some c := ⟨_, List.getElem?_eq_getElem hlt⟩
    have hlive : ∀ c₁, calls[n + 1]? = some c₁ →
        (judgedAt r calls (n + 1) c₁).contexts.get? key ≠ none := by
      intro c₁ hc₁
      cases hc'.symm.trans hc₁
      rw [ha]; simp
    -- the context was there after call `n`
    obtain ⟨hpost, -⟩ := get?_expire.mp ha
    rw [List.take_add_one, hc, toList_some, run_append_one] at hpost
    by_cases hctx : c.context = some key
    · cases c with
      | expire now => cases hctx
      | feed now opened ingress frame =>
        rcases feed_cases (r.run (calls.take n)) now opened ingress frame with
          ⟨e, hrec, -⟩ | ⟨part, e, hrec, hnone, -, hfeed⟩ | ⟨part, r₁, s, hrec, ho, hfeed⟩
        · simp [Call.context, hrec] at hctx
        · have hkey : part.key ingress = key := by simpa [Call.context, hrec] using hctx
          simp only [call, hfeed] at hpost
          rw [hkey, hpost] at hnone
          cases hnone
        · have hkey : part.key ingress = key := by simpa [Call.context, hrec] using hctx
          subst hkey
          obtain ⟨j, t, hsince, hhist⟩ := opened_history hc hrec rfl (ih _ hc _) ho
          simp only [call, hfeed] at hpost
          exact ⟨j, t, hsince.succ hlive, accept_history hhist hsince.le
            ⟨now, opened, ingress, frame, hc, hrec, rfl⟩ ho.get? hpost⟩
    · rw [call_frame hctx] at hpost
      obtain ⟨j, t, hsince, hhist⟩ := ih c hc key a hpost
      exact ⟨j, t, hsince.succ hlive, hhist.keep fun _ part hf => absurd (hf.context hc) hctx⟩

/-! ## Delivery -/

theorem accept_message {s : Assembly} {m : Message}
    (h : (r.accept key s part).2 = .ok (some m)) :
    ∃ tlvs last, r.Admitted s part tlvs ∧ (s.store part tlvs).last = some last ∧
      (s.store part tlvs).parts.length = last + 1 ∧
      m = ⟨part.destination, part.source, part.messageType, part.mid, part.relay,
        (s.store part tlvs).values last, last + 1⟩ := by
  simp only [accept] at h
  cases hjudge : r.judge s part with
  | quarantined => simp [hjudge, invalid] at h
  | poison reason => simp [hjudge, poison, invalid] at h
  | duplicate => simp [hjudge] at h
  | store tlvs =>
    simp only [hjudge] at h
    cases hc : (s.store part tlvs).complete with
    | false => simp [store_of_incomplete hc] at h
    | true =>
      obtain ⟨last, hlast, hlen, hstore⟩ := store_of_complete r key hc
      rw [hstore, Except.ok.injEq, some.injEq] at h
      exact ⟨tlvs, last, judge_store hjudge, hlast, hlen, h.symm⟩

end

theorem History.complete {last : Nat} {a : Assembly} (h : History calls key j t n a)
    (hp : a.poisoned = false) (hlast : a.last = some last) (hlen : a.parts.length = last + 1)
    (hle : ∀ fid ∈ a.parts.keys, fid ≤ last) :
    (∀ i, i ≤ last → ∃ k part, j ≤ k ∧ k < n ∧ FrameAt calls key k part ∧ part.fid = i) ∧
    ∀ k part, j ≤ k → k < n → FrameAt calls key k part →
      part.fid ≤ last ∧ part.last = (part.fid == last) ∧
      parseTlvs part.payload part.last =
        .ok (((a.parts.get? part.fid).map Prod.snd).getD []) := by
  have hall := (Dict.length_eq_iff_of_keys_lt fun fid hf => Nat.lt_succ_of_le (hle fid hf)).mp hlen
  obtain ⟨ts, hts⟩ := (h.last_iff hp last).mp hlast
  constructor
  · intro i hi
    obtain ⟨item, hitem⟩ := Dict.mem_keys_iff.mp (hall i (by omega))
    obtain ⟨k, part, hj, hk, hf, hfid, -⟩ := h.received i item hitem
    exact ⟨k, part, hj, hk, hf, hfid⟩
  · intro k part hj hk hf
    obtain ⟨tlvs, hparse, hget⟩ := h.agrees hp k part hj hk hf
    refine ⟨hle _ (Dict.mem_keys_iff.mpr ⟨_, hget⟩), ?_, by rw [hparse, hget]; rfl⟩
    cases hl : part.last with
    | true =>
      have hthis := (h.last_iff hp part.fid).mpr ⟨tlvs, by rw [hget, hl]⟩
      rw [hlast, some.injEq] at hthis
      simp [hthis]
    | false =>
      refine (beq_eq_false_iff_ne.mpr ?_).symm
      intro heq
      rw [heq, hts, hl] at hget
      simp at hget

theorem judged_history (hr : ∀ key, r.contexts.get? key = none) (hinv : r.Inv) {now opened : ℚ}
    {ingress : String} {frame : Bytes} {m : Message}
    (hc : calls[n]? = some (.feed now opened ingress frame))
    (hm : ((r.run (calls.take n)).feed now opened ingress frame).2 = .ok (some m)) :
    ∃ (part : Fragment) (r₁ : Reassembler) (s : Assembly) (j : Nat) (t : ℚ),
      receive frame = .ok part ∧ Since r calls (part.key ingress) j t n ∧
      History calls (part.key ingress) j t n s ∧ s.Inv r₁.limits ∧
      (r₁.accept (part.key ingress) s part).2 = .ok (some m) := by
  rcases feed_cases (r.run (calls.take n)) now opened ingress frame with
    ⟨e, -, hfeed⟩ | ⟨part, e, -, -, -, hfeed⟩ | ⟨part, r₁, s, hrec, ho, hfeed⟩
  · rw [hfeed] at hm; cases hm
  · rw [hfeed] at hm; cases hm
  · obtain ⟨j, t, hsince, hhist⟩ := opened_history hc hrec rfl (run_history hr n _ hc _) ho
    have hi := ho.inv (expire_inv (run_inv hinv (calls.take n)) now)
    rw [hfeed] at hm
    exact ⟨part, r₁, s, j, t, hrec, hsince, hhist, hi.assembly _ s ho.get?, hm⟩

/-! ## Quarantine -/

theorem quarantine_step {x : Assembly} {c : Call} (hx : r.contexts.get? key = some x)
    (hp : x.poisoned = true) (ht : c.now - x.started < r.limits.timeout) :
    (r.call c).1.contexts.get? key = some x ∧
      (c.context = some key → ∀ m, (r.call c).2 ≠ .fed (.ok (some m))) := by
  have hexp := get?_expire.mpr ⟨hx, ht⟩
  by_cases hctx : c.context = some key
  · cases c with
    | expire now => cases hctx
    | feed now opened ingress frame =>
      rcases feed_cases r now opened ingress frame with
        ⟨e, hrec, -⟩ | ⟨part, e, hrec, hnone, -, -⟩ | ⟨part, r₁, s, hrec, ho, hfeed⟩
      · simp [Call.context, hrec] at hctx
      · have hkey : part.key ingress = key := by simpa [Call.context, hrec] using hctx
        rw [hkey] at hnone
        exact absurd hexp (by simp only [Call.now, hnone]; simp)
      · have hkey : part.key ingress = key := by simpa [Call.context, hrec] using hctx
        subst hkey
        cases ho with
        | fresh hnone _ => exact absurd hexp (by simp only [Call.now, hnone]; simp)
        | found hget =>
          cases hexp.symm.trans hget
          have hacc := hfeed
          simp only [accept, judge_of_poisoned hp] at hacc
          simp only [call, hacc]
          exact ⟨hexp, fun _ m => by simp [invalid]⟩
  · exact ⟨by rw [call_frame hctx]; exact hexp, fun h => absurd h hctx⟩

/-- A frame that contradicts an earlier one poisons the context, or finds it poisoned. -/
theorem contradiction_step (hr : ∀ key, r.contexts.get? key = none) {a b : Nat} {p q : Fragment}
    (hs : Since r calls key j t b) (hja : j ≤ a) (hab : a < b) (hp : FrameAt calls key a p)
    (hq : FrameAt calls key b q) (hpq : Contradicts p q) :
    ∃ x, (r.run (calls.take (b + 1))).contexts.get? key = some x ∧ x.poisoned = true ∧
      x.started = t ∧ ∀ m, r.replyAt calls b ≠ some (.fed (.ok (some m))) := by
  obtain ⟨now, opened, ingress, frame, hc, hrec, rfl⟩ := hq
  have hlive := hs.live b _ (by omega) le_rfl hc
  obtain ⟨s, hget⟩ := ne_none_iff_exists'.mp hlive
  obtain ⟨j', t', hs', hhist⟩ := run_history hr b _ hc _ s hget
  obtain ⟨rfl, rfl⟩ := hs.unique hs'
  have hfeed : (r.run (calls.take b)).feed now opened ingress frame =
      (judgedAt r calls b (.feed now opened ingress frame)).accept (q.key ingress) s q := by
    have hfound : Reassembler.Opened _ (q.key ingress) q opened _ s := .found hget
    have hopen := openContext_ok.mpr hfound
    simp only [judgedAt, Call.now] at hopen ⊢
    simp only [feed, hrec, hopen]
  have hrun : r.run (calls.take (b + 1)) =
      ((judgedAt r calls b (.feed now opened ingress frame)).accept (q.key ingress) s q).1 := by
    rw [List.take_add_one, hc, toList_some, run_append_one]
    simp only [call, hfeed]
  simp only [hrun, hc, replyAt, call, hfeed, accept,
    map_some]
  cases hjudge : (judgedAt r calls b (.feed now opened ingress frame)).judge s q with
  | quarantined =>
    exact ⟨s, hget, judge_quarantined hjudge, hhist.started, by simp [invalid]⟩
  | poison reason =>
    exact ⟨_, Dict.get?_set_self _ _ _, rfl, hhist.started, by simp [poison, invalid]⟩
  | duplicate =>
    -- the repetition would have to equal what the earlier frame left
    obtain ⟨hhealthy, tlvs, hparse, hst⟩ := judge_duplicate hjudge
    obtain ⟨ts, hparse', hst'⟩ := hhist.agrees hhealthy a p hja hab hp
    rw [hpq.1, hst, some.injEq, Prod.mk.injEq] at hst'
    obtain ⟨hl, rfl⟩ := hst'
    rcases hpq.2 with hne | hne
    · exact absurd hl.symm hne
    · exact absurd (hparse'.trans hparse.symm) hne
  | store tlvs =>
    have hadm := judge_store hjudge
    obtain ⟨ts, -, hst'⟩ := hhist.agrees hadm.healthy a p hja hab hp
    rw [hpq.1, hadm.absent] at hst'
    cases hst'

theorem quarantine_run {b : Nat} {x : Assembly}
    (hx : (r.run (calls.take b)).contexts.get? key = some x) (hp : x.poisoned = true) (d : Nat)
    (ht : ∀ k c, b ≤ k → k < b + d → calls[k]? = some c → c.now - x.started < r.limits.timeout) :
    (r.run (calls.take (b + d))).contexts.get? key = some x := by
  induction d with
  | zero => exact hx
  | succ d ih =>
    have hprev := ih fun k c hk hk' => ht k c hk (by omega)
    rw [← Nat.add_assoc, List.take_add_one]
    cases hc : calls[b + d]? with
    | none => simpa using hprev
    | some c =>
      rw [toList_some, run_append_one]
      refine (quarantine_step hprev hp ?_).1
      rw [run_limits]
      exact ht (b + d) c (by omega) (by omega) hc

/-- **Delivery.** For any frames from any senders and any clock readings:

* a delivered message is the concatenation of one payload for each number `0..last`, each received
  for its context since the context was opened, and every frame received for it since agrees with
  that payload and with the place of the last flag;
* after two frames that contradict each other, the context delivers nothing as long as the clock
  reads before its deadline, which the second frame does not move. -/
theorem delivery_uncontradicted (limits : Limits) (calls : List Call) :
    let r : Reassembler := { limits := limits }
    (∀ n m, r.replyAt calls n = some (.fed (.ok (some m))) →
      ∃ key j t last payload, Since r calls key j t n ∧
        (∃ part, FrameAt calls key n part) ∧ m.source = key.source ∧
        m.destination = key.destination ∧ m.messageType = key.messageType ∧ m.mid = key.mid ∧
        m.tlvs = (List.range (last + 1)).flatMap payload ∧
        (∀ i, i ≤ last → ∃ k part, j ≤ k ∧ k ≤ n ∧ FrameAt calls key k part ∧ part.fid = i) ∧
        ∀ k part, j ≤ k → k ≤ n → FrameAt calls key k part →
          part.fid ≤ last ∧ part.last = (part.fid == last) ∧
          parseTlvs part.payload part.last = .ok (payload part.fid)) ∧
    (∀ key j t a b p q, Since r calls key j t b → j ≤ a → a < b → FrameAt calls key a p →
      FrameAt calls key b q → Contradicts p q →
      ∀ n c, b ≤ n → calls[n]? = some c → c.context = some key →
        (∀ k c', b < k → k ≤ n → calls[k]? = some c' → c'.now - t < limits.timeout) →
        ∀ m, r.replyAt calls n ≠ some (.fed (.ok (some m)))) := by
  intro r
  have hr : ∀ key, r.contexts.get? key = none := fun _ => rfl
  constructor
  · intro n m hm
    obtain ⟨c, hc, hreply⟩ := map_eq_some_iff.mp hm
    cases c with
    | expire now => cases hreply
    | feed now opened ingress frame =>
      obtain ⟨part, r₁, s, j, t, hrec, hsince, hhist, hsinv, hacc⟩ :=
        judged_history hr (inv_init limits) hc (Reply.fed.inj hreply)
      obtain ⟨tlvs, last, hadm, hlast, hlen, rfl⟩ := accept_message hacc
      have hf : FrameAt calls (part.key ingress) n part :=
        ⟨now, opened, ingress, frame, hc, hrec, rfl⟩
      obtain ⟨hrecv, hagree⟩ := (hhist.store hsince.le hf hadm).complete hadm.healthy hlast hlen
        (Assembly.store_fid_le_last hsinv.fid_le_last hadm last hlast)
      refine ⟨part.key ingress, j, t, last,
        fun fid => (((s.store part tlvs).parts.get? fid).map Prod.snd).getD [], hsince, ⟨part, hf⟩,
        rfl, rfl, rfl, rfl, rfl, ?_, ?_⟩
      · intro i hi
        obtain ⟨k, p, hj, hk, hp⟩ := hrecv i hi
        exact ⟨k, p, hj, Nat.le_of_lt_succ hk, hp⟩
      · intro k p hj hk hp
        exact hagree k p hj (Nat.lt_succ_of_le hk) hp
  · intro key j t a b p q hs hja hab hp hq hpq n c hbn hc hctx htime m
    obtain ⟨x, hx, hpois, rfl, hreply⟩ := contradiction_step hr hs hja hab hp hq hpq
    rcases Nat.eq_or_lt_of_le hbn with rfl | hlt
    · exact hreply m
    · obtain ⟨d, rfl⟩ := Nat.exists_eq_add_of_lt hlt
      have hrun := quarantine_run hx hpois d fun k c' hk hk' hck =>
        htime k c' (by omega) (by omega) hck
      rw [show b + 1 + d = b + d + 1 by omega] at hrun
      have hstep := quarantine_step hrun hpois
        (by rw [run_limits]; exact htime _ c hlt le_rfl hc)
      simp only [replyAt, hc, map_some, ne_eq, some.injEq]
      exact hstep.2 hctx m

end Emosa.Wire
