import Mathlib.Tactic.Linarith
import Emosa.Wire.Reassembler

/-!
# Emosa.Wire.ReassemblerInv

The accounting of a reassembler over whole runs.

* `feed_cases`: everything a `feed` can do, said once. Every later result about runs goes through
  it and through the three lemmas on `judge`.
* `Reassembler.Inv`: the invariant. `feed_inv` and `expire_inv` are its step lemmas.
-/

namespace Emosa.Wire

open Assembly Dict Option

/-! ## What a step does -/

namespace Reassembler

variable {r : Reassembler} {key : Key} {state : Assembly} {part : Fragment} {tlvs : List Tlv}

/-- What `judge` has checked of a fragment it stores. -/
structure Admitted (r : Reassembler) (state : Assembly) (part : Fragment) (tlvs : List Tlv) : Prop where
  healthy : state.poisoned = false
  fid_lt : part.fid < r.limits.maxFragments
  relay_eq : part.relay = state.relay
  parse : parseTlvs part.payload part.last = .ok tlvs
  absent : state.parts.get? part.fid = none
  last_ok : ∀ last, state.last = some last → part.fid ≤ last ∧ (part.last = true → part.fid = last)
  none_later : part.last = true → ∀ fid ∈ state.parts.keys, fid ≤ part.fid
  message_le : state.size + tlvBytes tlvs ≤ r.limits.maxMessageBytes
  buffered_le : r.buffered + tlvBytes tlvs ≤ r.limits.maxBytes
  count_le : state.parts.total (fun _ item => item.2.length) + tlvs.length ≤ maxTlvs

theorem judge_store (h : r.judge state part = .store tlvs) : Admitted r state part tlvs := by
  simp only [judge] at h
  obtain ⟨hp, h⟩ := guard_passed h
  obtain ⟨hfr, h⟩ := guard_passed h
  split at h
  · cases h
  · rename_i ts hparse
    split at h
    · split at h <;> cases h
    · rename_i habs
      obtain ⟨hlast, h⟩ := guard_passed h
      obtain ⟨hlater, h⟩ := guard_passed h
      obtain ⟨hsize, h⟩ := guard_passed h
      obtain ⟨hcount, h⟩ := guard_passed h
      cases h
      simp only [not_or, not_le, Decidable.not_not, not_lt] at hfr hsize hcount
      refine ⟨by simpa using hp, hfr.1, hfr.2, hparse, habs, ?_, ?_, hsize.1, hsize.2, hcount⟩
      · intro last hl
        simp only [hl, any_some, Bool.or_eq_true, decide_eq_true_eq,
          Bool.and_eq_true, not_or, not_and, not_lt, Decidable.not_not] at hlast
        exact hlast
      · intro hl fid hfid
        simp only [hl, Bool.true_and, List.any_eq_true, decide_eq_true_eq, not_exists,
          not_and, not_lt] at hlater
        exact hlater fid hfid

/-- The converse of `judge_store`. -/
theorem Admitted.judge (h : Admitted r state part tlvs) : r.judge state part = .store tlvs := by
  have hlast : (state.last.any fun last => part.fid > last || (part.last && part.fid ≠ last)) = false := by
    cases hl : state.last with
    | none => rfl
    | some last =>
      obtain ⟨h1, h2⟩ := h.last_ok last hl
      cases hp : part.last with
      | false => simp; exact h1
      | true => simp [h2 hp]
  have hlater : (part.last && state.parts.keys.any fun fid => fid > part.fid) = false := by
    cases hp : part.last with
    | false => rfl
    | true => simpa using h.none_later hp
  have hsize : ¬ (state.size + tlvBytes tlvs > r.limits.maxMessageBytes ∨
      r.buffered + tlvBytes tlvs > r.limits.maxBytes) := by
    have := h.message_le; have := h.buffered_le; omega
  have hfr : ¬ (part.fid ≥ r.limits.maxFragments ∨ part.relay ≠ state.relay) := by
    have := h.fid_lt
    simp only [h.relay_eq, ne_eq, not_true_eq_false, or_false]
    omega
  have hcount : ¬ state.parts.total (fun _ item => item.2.length) + tlvs.length > maxTlvs := by
    have := h.count_le; omega
  simp only [Reassembler.judge, h.healthy, hfr, h.parse, h.absent, hlast, hlater, hsize, hcount,
    if_false, Bool.false_eq_true]

theorem Admitted.accept (h : Admitted r state part tlvs) (key : Key) :
    r.accept key state part = r.store key state part tlvs := by
  simp only [Reassembler.accept, h.judge]

theorem judge_duplicate (h : r.judge state part = .duplicate) :
    state.poisoned = false ∧ ∃ tlvs, parseTlvs part.payload part.last = .ok tlvs ∧
      state.parts.get? part.fid = some (part.last, tlvs) := by
  simp only [Reassembler.judge] at h
  obtain ⟨hp, h⟩ := guard_passed h
  obtain ⟨-, h⟩ := guard_passed h
  split at h
  · cases h
  · rename_i ts hparse
    split at h
    · rename_i stored hs
      obtain ⟨heq, h⟩ := guard_passed h
      exact ⟨by simpa using hp, ts, hparse, by simpa [Decidable.not_not.mp heq] using hs⟩
    · (repeat' split at h) <;> cases h

theorem judge_of_poisoned (h : state.poisoned = true) : r.judge state part = .quarantined := by
  simp [Reassembler.judge, h]

theorem judge_quarantined (h : r.judge state part = .quarantined) : state.poisoned = true := by
  simp only [Reassembler.judge] at h
  split at h
  · assumption
  · (repeat' split at h) <;> cases h

theorem judge_of_stored (hp : state.poisoned = false) (hfid : part.fid < r.limits.maxFragments)
    (hrelay : part.relay = state.relay) (hparse : parseTlvs part.payload part.last = .ok tlvs)
    (hs : state.parts.get? part.fid = some (part.last, tlvs)) : r.judge state part = .duplicate := by
  have hfr : ¬ (part.fid ≥ r.limits.maxFragments ∨ part.relay ≠ state.relay) := by
    simp only [hrelay, ne_eq, not_true_eq_false, or_false]
    omega
  simp [Reassembler.judge, hp, hfr, hparse, hs]

theorem store_of_incomplete (h : (state.store part tlvs).complete = false) :
    r.store key state part tlvs =
      ({ r with buffered := r.buffered + tlvBytes tlvs
                contexts := r.contexts.set key (state.store part tlvs) }, .ok none) := by
  simp only [store]
  cases hl : (state.store part tlvs).last with
  | none => rfl
  | some last =>
    simp only [complete, hl, any_some, beq_eq_false_iff_ne] at h
    simp only [ne_eq, h, not_false_eq_true, if_true]

theorem store_of_complete (r : Reassembler) (key : Key)
    (h : (state.store part tlvs).complete = true) :
    ∃ last, (state.store part tlvs).last = some last ∧
      (state.store part tlvs).parts.length = last + 1 ∧
      r.store key state part tlvs =
        ({ r with buffered := r.buffered + tlvBytes tlvs - (state.store part tlvs).size
                  contexts := r.contexts.erase key },
          .ok (some ⟨part.destination, part.source, part.messageType, part.mid, part.relay,
            (state.store part tlvs).values last, last + 1⟩)) := by
  cases hl : (state.store part tlvs).last with
  | none => simp [complete, hl] at h
  | some last =>
    simp only [complete, hl, any_some, beq_iff_eq] at h
    refine ⟨last, rfl, h, ?_⟩
    simp only [store, hl, ne_eq, h, not_true_eq_false, if_false, erase_set]

/-- The context a frame goes to: the one stored, or a new one that the budget allows. -/
inductive Opened (r : Reassembler) (key : Key) (part : Fragment) (opened : ℚ) :
    Reassembler → Assembly → Prop where
  | found {state : Assembly} : r.contexts.get? key = some state → Opened r key part opened r state
  | fresh : r.contexts.get? key = none → r.contexts.length < r.limits.maxContexts →
      Opened r key part opened
        { r with contexts := r.contexts.set key { started := opened, relay := part.relay } }
        { started := opened, relay := part.relay }

theorem Opened.get? {opened : ℚ} {r₁ : Reassembler} (h : Opened r key part opened r₁ state) :
    r₁.contexts.get? key = some state := by
  cases h with
  | found h => exact h
  | fresh _ _ => simp

theorem openContext_ok {opened : ℚ} {r₁ : Reassembler} :
    r.openContext key part opened = .ok (r₁, state) ↔ Opened r key part opened r₁ state := by
  constructor
  · intro h
    simp only [openContext] at h
    split at h
    · rename_i st hst; cases h; exact .found hst
    · rename_i hnone
      split at h
      · cases h
      · rename_i hlt; cases h; exact .fresh hnone (by omega)
  · intro h
    cases h with
    | found h => simp [openContext, h]
    | fresh hn hlt => simp [openContext, hn, show ¬ r.limits.maxContexts ≤ r.contexts.length by omega]

theorem feed_cases (r : Reassembler) (now opened : ℚ) (ingress : String) (frame : Bytes) :
    (∃ e, receive frame = .error e ∧
      r.feed now opened ingress frame = ((r.expire now).1, .error e)) ∨
    (∃ part e, receive frame = .ok part ∧ (r.expire now).1.contexts.get? (part.key ingress) = none ∧
      (r.expire now).1.limits.maxContexts ≤ (r.expire now).1.contexts.length ∧
      r.feed now opened ingress frame = ((r.expire now).1, .error e)) ∨
    (∃ part r₁ state, receive frame = .ok part ∧
      Opened (r.expire now).1 (part.key ingress) part opened r₁ state ∧
      r.feed now opened ingress frame = r₁.accept (part.key ingress) state part) := by
  simp only [feed]
  cases hrec : receive frame with
  | error e => exact Or.inl ⟨e, rfl, rfl⟩
  | ok part =>
    right
    cases hopen : (r.expire now).1.openContext (part.key ingress) part opened with
    | error e =>
      left
      have hopen' := hopen
      simp only [openContext] at hopen
      split at hopen
      · cases hopen
      · rename_i hnone
        split at hopen
        · rename_i hfull; exact ⟨part, e, rfl, hnone, hfull, by simp only [hopen']⟩
        · cases hopen
    | ok p => exact Or.inr ⟨part, p.1, p.2, rfl, openContext_ok.mp hopen, by simp only [hopen]⟩

/-! ## Expiry -/

@[simp] theorem pop_limits (r : Reassembler) (key : Key) : (r.pop key).limits = r.limits := by
  simp only [pop]; split <;> rfl

theorem get?_pop (r : Reassembler) (key k : Key) :
    (r.pop key).contexts.get? k = if k = key then none else r.contexts.get? k := by
  by_cases hk : k = key
  · subst hk
    simp only [pop]
    split
    · simp
    · assumption
  · simp only [pop, hk]
    split
    · exact get?_erase_ne _ hk
    · rfl

theorem foldl_pop_limits (ks : List Key) (r : Reassembler) : (ks.foldl pop r).limits = r.limits := by
  induction ks generalizing r with
  | nil => rfl
  | cons k ks ih => rw [List.foldl_cons, ih, pop_limits]

@[simp] theorem expire_limits (r : Reassembler) (now : ℚ) : (r.expire now).1.limits = r.limits :=
  foldl_pop_limits _ r

theorem get?_foldl_pop (ks : List Key) (r : Reassembler) (k : Key) :
    (ks.foldl pop r).contexts.get? k = if k ∈ ks then none else r.contexts.get? k := by
  induction ks generalizing r with
  | nil => simp
  | cons k' ks ih =>
    rw [List.foldl_cons, ih, get?_pop]
    by_cases h1 : k ∈ ks
    · simp [h1]
    · by_cases h2 : k = k' <;> simp [h2]

theorem mem_expired {now : ℚ} {k : Key} :
    k ∈ r.expired now ↔ ∃ a, r.contexts.get? k = some a ∧ r.limits.timeout ≤ now - a.started := by
  simp only [expired, keys, filter, List.mem_map, List.mem_filter, decide_eq_true_eq, Prod.exists,
    exists_and_right, exists_eq_right, get?_eq_some_iff]

theorem get?_expire {now : ℚ} {k : Key} {a : Assembly} :
    (r.expire now).1.contexts.get? k = some a ↔
      r.contexts.get? k = some a ∧ now - a.started < r.limits.timeout := by
  simp only [expire, get?_foldl_pop, mem_expired]
  constructor
  · intro h
    obtain ⟨hn, h⟩ := guard_passed h
    exact ⟨h, not_le.mp fun hle => hn ⟨a, h, hle⟩⟩
  · rintro ⟨h, hlt⟩
    rw [if_neg ?_]
    · exact h
    · rintro ⟨b, hb, hle⟩
      rw [h, some.injEq] at hb
      subst hb
      exact absurd hlt (not_lt.mpr hle)

theorem get?_expire_none {k : Key} (now : ℚ) (h : r.contexts.get? k = none) :
    (r.expire now).1.contexts.get? k = none := by
  simp [expire, get?_foldl_pop, h]

end Reassembler

/-! ## The invariant -/

/-- One context of a reassembler with budgets `limits`. -/
structure Assembly.Inv (limits : Limits) (a : Assembly) : Prop where
  size_eq : a.size = a.parts.total fun _ item => tlvBytes item.2
  poisoned_empty : a.poisoned = true → a.parts = ∅
  fid_le_last : ∀ last, a.last = some last → ∀ fid ∈ a.parts.keys, fid ≤ last
  fid_lt : ∀ fid ∈ a.parts.keys, fid < limits.maxFragments
  size_le : a.size ≤ limits.maxMessageBytes
  incomplete : a.complete = false

structure Reassembler.Inv (r : Reassembler) : Prop where
  buffered : r.buffered = r.contexts.total fun _ a => (a.size : Int)
  contexts_le : r.contexts.length ≤ r.limits.maxContexts
  buffered_le : r.buffered ≤ r.limits.maxBytes
  assembly : ∀ key a, r.contexts.get? key = some a → a.Inv r.limits

theorem Assembly.inv_fresh (limits : Limits) (opened : ℚ) (relay : Bool) :
    Inv limits { started := opened, relay := relay } where
  size_eq := rfl
  poisoned_empty := by intro h; cases h
  fid_le_last := by intro _ h; cases h
  fid_lt := by intro _ h; cases h
  size_le := Nat.zero_le _
  incomplete := rfl

theorem Assembly.inv_poisoned {limits : Limits} {a : Assembly} :
    Inv limits { a with parts := ∅, size := 0, poisoned := true } where
  size_eq := rfl
  poisoned_empty := fun _ => rfl
  fid_le_last := by intro _ _ _ h; cases h
  fid_lt := by intro _ h; cases h
  size_le := Nat.zero_le _
  incomplete := by
    cases h : a.last with
    | none => rfl
    | some last => simp [complete, length]

theorem Assembly.store_fid_le_last {r : Reassembler} {a : Assembly} {part : Fragment}
    {tlvs : List Tlv} (h : ∀ last, a.last = some last → ∀ fid ∈ a.parts.keys, fid ≤ last)
    (ha : r.Admitted a part tlvs) :
    ∀ last, (a.store part tlvs).last = some last →
      ∀ fid ∈ (a.store part tlvs).parts.keys, fid ≤ last := by
  intro last hlast fid hfid
  rcases mem_keys_set.mp hfid with rfl | hfid
  · cases hp : part.last with
    | true => simp only [Assembly.store, hp, if_true, some.injEq] at hlast; omega
    | false =>
      simp only [Assembly.store, hp] at hlast
      exact (ha.last_ok last hlast).1
  · cases hp : part.last with
    | true =>
      simp only [Assembly.store, hp, if_true, some.injEq] at hlast
      exact hlast ▸ ha.none_later hp fid hfid
    | false =>
      simp only [Assembly.store, hp] at hlast
      exact h last hlast fid hfid

theorem Assembly.inv_store {r : Reassembler} {a : Assembly} {part : Fragment} {tlvs : List Tlv}
    (h : a.Inv r.limits) (ha : r.Admitted a part tlvs)
    (hc : (a.store part tlvs).complete = false) : (a.store part tlvs).Inv r.limits where
  size_eq := by
    simp only [Assembly.store, total_set_new _ ha.absent, ← h.size_eq]
  poisoned_empty := by
    intro hp
    simp only [Assembly.store, ha.healthy] at hp
    cases hp
  fid_le_last := store_fid_le_last h.fid_le_last ha
  fid_lt := by
    intro fid hfid
    rcases mem_keys_set.mp hfid with rfl | hfid
    · exact ha.fid_lt
    · exact h.fid_lt fid hfid
  size_le := ha.message_le
  incomplete := hc

namespace Reassembler

variable {r : Reassembler} {key : Key} {a a' : Assembly}

section

variable (h : r.Inv)
include h

section

variable (ha : r.contexts.get? key = some a)
include ha

/-- Replacing a context, with the global count adjusted by the difference of the sizes. -/
theorem Inv.set (ha' : a'.Inv r.limits)
    (hle : r.buffered - a.size + a'.size ≤ r.limits.maxBytes) :
    Inv { r with buffered := r.buffered - a.size + a'.size, contexts := r.contexts.set key a' } where
  buffered := by
    have := total_set_old (f := fun _ (a : Assembly) => (a.size : Int)) a' ha
    have hb := h.buffered
    simp only at this ⊢
    omega
  contexts_le := by rw [length_set_old a' ha]; exact h.contexts_le
  buffered_le := hle
  assembly := by
    intro k b hb
    rw [get?_set] at hb
    split at hb
    · cases hb; exact ha'
    · exact h.assembly k b hb

theorem Inv.erase :
    Inv { r with buffered := r.buffered - a.size, contexts := r.contexts.erase key } where
  buffered := by
    have := total_erase (f := fun _ (a : Assembly) => (a.size : Int)) ha
    have hb := h.buffered
    simp only at this ⊢
    omega
  contexts_le := by
    have := length_erase ha
    have := h.contexts_le
    simp only
    omega
  buffered_le := by have := h.buffered_le; simp only; omega
  assembly := by
    intro k b hb
    by_cases hk : k = key
    · subst hk; simp at hb
    · exact h.assembly k b (by rwa [get?_erase_ne _ hk] at hb)

omit ha in
theorem pop_inv (key : Key) : (r.pop key).Inv := by
  simp only [pop]
  split
  · exact h.erase ‹_›
  · exact h

omit ha in
theorem expire_inv (now : ℚ) : (r.expire now).1.Inv := by
  have key : ∀ (ks : List Key) (r : Reassembler), r.Inv → (ks.foldl pop r).Inv := by
    intro ks
    induction ks with
    | nil => intro r h; exact h
    | cons k ks ih => intro r h; exact ih _ (pop_inv h k)
  exact key _ r h

omit ha in
theorem Opened.inv {part : Fragment} {opened : ℚ} {r₁ : Reassembler} {state : Assembly}
    (ho : Opened r key part opened r₁ state) : r₁.Inv := by
  cases ho with
  | found _ => exact h
  | fresh hnone hlt =>
    refine ⟨?_, ?_, h.buffered_le, ?_⟩
    · simp only [total_set_new _ hnone, ← h.buffered]; simp
    · rw [length_set_new _ hnone]; exact hlt
    · intro k b hb
      rw [get?_set] at hb
      split at hb
      · cases hb; exact inv_fresh _ _ _
      · exact h.assembly k b hb

theorem poison_inv (reason : String) :
    (r.poison key a reason).1.Inv := by
  have := h.set ha (inv_poisoned (a := a)) (by have := h.buffered_le; simp only; omega)
  simpa [poison] using this

theorem store_inv {part : Fragment} {tlvs : List Tlv} (hadm : r.Admitted a part tlvs) :
    (r.store key a part tlvs).1.Inv := by
  have hbuf : r.buffered + tlvBytes tlvs = r.buffered - a.size + (a.store part tlvs).size := by
    simp only [Assembly.store]; omega
  cases hc : (a.store part tlvs).complete with
  | false =>
    -- the context stays: the invariant of the stored one, and the count grows by its growth
    have hset := h.set ha (inv_store (h.assembly key a ha) hadm hc)
      (by rw [← hbuf]; exact hadm.buffered_le)
    rw [store_of_incomplete hc]
    rwa [← hbuf] at hset
  | true =>
    -- the context goes with everything it had stored
    obtain ⟨last, -, -, hstore⟩ := store_of_complete r key hc
    have hsize : r.buffered + tlvBytes tlvs - (a.store part tlvs).size = r.buffered - a.size := by
      omega
    rw [hstore, hsize]
    exact h.erase ha

theorem accept_inv {part : Fragment} :
    (r.accept key a part).1.Inv := by
  simp only [accept]
  cases hj : r.judge a part with
  | quarantined => exact h
  | poison reason => exact poison_inv h ha reason
  | duplicate => exact h
  | store tlvs => exact store_inv h ha (judge_store hj)

end

theorem feed_inv (now opened : ℚ) (ingress : String) (frame : Bytes) :
    (r.feed now opened ingress frame).1.Inv := by
  have he := expire_inv h now
  rcases feed_cases r now opened ingress frame with
    ⟨e, -, hf⟩ | ⟨part, e, -, -, -, hf⟩ | ⟨part, r₁, state, -, ho, hf⟩
  · rw [hf]; exact he
  · rw [hf]; exact he
  · rw [hf]; exact accept_inv (ho.inv he) ho.get?

theorem call_inv (c : Call) : (r.call c).1.Inv := by
  cases c with
  | feed now opened ingress frame => exact feed_inv h now opened ingress frame
  | expire now => exact expire_inv h now

theorem run_inv (calls : List Call) : (r.run calls).Inv := by
  induction calls generalizing r with
  | nil => exact h
  | cons c cs ih => exact ih (call_inv h c)

omit h in
theorem inv_init (limits : Limits) : Inv { limits := limits } where
  buffered := rfl
  contexts_le := Nat.zero_le _
  buffered_le := by simp
  assembly := by intro _ _ h; cases h

/-- The counters agree with what is stored, and no budget is exceeded. -/
structure Accounted (r : Reassembler) : Prop where
  buffered_eq : r.buffered = r.contexts.total fun _ a => (a.size : Int)
  size_eq : ∀ key a, r.contexts.get? key = some a →
    a.size = a.parts.total fun _ item => tlvBytes item.2
  poisoned_empty : ∀ key a, r.contexts.get? key = some a → a.poisoned = true →
    a.parts.length = 0 ∧ a.size = 0
  fid_le_last : ∀ key a, r.contexts.get? key = some a → ∀ last, a.last = some last →
    ∀ fid ∈ a.parts.keys, fid ≤ last
  incomplete : ∀ key a, r.contexts.get? key = some a → a.complete = false
  contexts_le : r.contexts.length ≤ r.limits.maxContexts
  buffered_le : r.buffered ≤ r.limits.maxBytes
  message_le : ∀ key a, r.contexts.get? key = some a → a.size ≤ r.limits.maxMessageBytes
  fragments_le : ∀ key a, r.contexts.get? key = some a → a.parts.length ≤ r.limits.maxFragments

theorem Inv.accounted : r.Accounted where
  __ := h
  buffered_eq := h.buffered
  size_eq := fun key a ha => (h.assembly key a ha).size_eq
  poisoned_empty := by
    intro key a ha hp
    have hempty := (h.assembly key a ha).poisoned_empty hp
    have hsize := (h.assembly key a ha).size_eq
    rw [hempty] at hsize ⊢
    exact ⟨rfl, hsize⟩
  fid_le_last := fun key a ha => (h.assembly key a ha).fid_le_last
  incomplete := fun key a ha => (h.assembly key a ha).incomplete
  message_le := fun key a ha => (h.assembly key a ha).size_le
  fragments_le := fun key a ha => length_le_of_keys_lt (h.assembly key a ha).fid_lt

end

theorem new_inv {timeout : ℚ} {maxContexts maxBytes maxMessageBytes maxFragments : Nat}
    (h : Reassembler.new timeout maxContexts maxBytes maxMessageBytes maxFragments = .ok r) : r.Inv := by
  simp only [Reassembler.new] at h
  split at h
  · split at h
    · cases h; exact inv_init _
    · cases h
  · cases h

/-- **Accounting over runs.** Whatever is fed to a reassembler, in whatever order and at whatever
times, accepted or refused, after every call its counters agree with what it stores and every
budget holds. -/
theorem run_accounted {timeout : ℚ} {maxContexts maxBytes maxMessageBytes maxFragments : Nat}
    (h : Reassembler.new timeout maxContexts maxBytes maxMessageBytes maxFragments = .ok r)
    (calls : List Call) : (r.run calls).Accounted :=
  (run_inv (new_inv h) calls).accounted

/-- A frame of a message of two fragments, with one empty TLV. -/
def sampleFrame (mid fid flags kind : UInt8) : Bytes :=
  [2, 0, 0, 0, 0, 1, 2, 0, 0, 0, 0, 2, 137, 58, 0, 0, 0, 9, 0, mid, fid, flags, kind, 0, 0]

/-- A message is completed, another one is contradicted, a third one waits, and a frame is refused. -/
theorem run_accounted_default :
    let r : Reassembler := { limits := defaultLimits }
    let r' := r.run [.feed 0 0 "eth0" (sampleFrame 7 1 128 2 ++ [0, 0, 0]),
      .feed 1 1 "eth0" (sampleFrame 7 0 0 1), .feed 2 2 "eth0" (sampleFrame 8 0 0 1),
      .feed 2 2 "eth0" (sampleFrame 8 0 0 2), .feed 3 3 "eth0" (sampleFrame 9 0 0 1),
      .feed 3 3 "eth0" [1, 2, 3], .expire 4]
    Reassembler.new 5 64 (2 * 1024 * 1024) 65536 64 = .ok r ∧
      r'.contexts.entries.map (fun e => (e.1.mid, e.2.poisoned, e.2.size)) =
        [(8, true, 0), (9, false, 3)] ∧
      r'.Accounted := by
  have hnew : Reassembler.new 5 64 (2 * 1024 * 1024) 65536 64 = .ok { limits := defaultLimits } := by
    have h : (0 : ℚ) < 5 ∧ (5 : ℚ) ≤ 60 := by decide +kernel
    simp [Reassembler.new, h, defaultLimits]
  exact ⟨hnew, by decide +kernel, run_accounted hnew _⟩

end Reassembler
end Emosa.Wire
