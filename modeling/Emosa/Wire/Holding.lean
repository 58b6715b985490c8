import Mathlib.Algebra.BigOperators.Fin
import Mathlib.Algebra.Order.BigOperators.Group.Finset
import Emosa.Wire.Calls

/-!
# Emosa.Wire.Holding

What the context of one fragmented message holds when some of its fragments have arrived.

* `Holding`: the stored fragments are exactly those that were fed.
* `Holding.accept_incomplete`, `Holding.accept_complete`: the two things the context does with one
  more fragment of the message.
-/

namespace Emosa.Wire

section Holding

variable {groups : List (List Tlv)} {relay : Bool} {fed : Nat → Prop} {t : ℚ} {a : Assembly}

/-- The context of a message cut into `groups` when exactly the fragments `fed` have arrived. -/
structure Holding (groups : List (List Tlv)) (relay : Bool) (fed : Nat → Prop) (t : ℚ)
    (a : Assembly) : Prop where
  started : a.started = t
  relay_eq : a.relay = relay
  healthy : a.poisoned = false
  stored : ∀ i, i < groups.length → fed i →
    a.parts.get? i = some (i == groups.length - 1, groups.getD i [])
  only : ∀ i item, a.parts.get? i = some item → i < groups.length ∧ fed i
  last_eq : ∀ last, a.last = some last ↔ last = groups.length - 1 ∧ fed last
  size_eq : a.size = a.parts.total fun _ item => tlvBytes item.2

theorem Holding.fresh : Holding groups relay (fun _ => False) t { started := t, relay := relay } where
  started := rfl
  relay_eq := rfl
  healthy := rfl
  stored := by intro _ _ h; cases h
  only := by intro _ _ h; cases h
  last_eq := by simp
  size_eq := rfl

variable (h : Holding groups relay fed t a)

include h

theorem Holding.item {i : Nat} {item : Bool × List Tlv} (hi : a.parts.get? i = some item) :
    item = (i == groups.length - 1, groups.getD i []) := by
  obtain ⟨hlt, hf⟩ := h.only i item hi
  rw [h.stored i hlt hf, Option.some.injEq] at hi
  exact hi.symm

theorem Holding.absent {i : Nat} (hnew : ¬ fed i) : a.parts.get? i = none := by
  cases hg : a.parts.get? i with
  | none => rfl
  | some item => exact absurd (h.only i item hg).2 hnew

theorem Holding.keys_lt : ∀ i ∈ a.parts.keys, i < groups.length := by
  intro i hi
  obtain ⟨item, hitem⟩ := Dict.mem_keys_iff.mp hi
  exact (h.only i item hitem).1

theorem Holding.total_le (f : List Tlv → Nat) :
    a.parts.total (fun _ item => f item.2) ≤ (groups.map f).sum := by
  have hsum : (groups.map f).sum = ∑ i ∈ Finset.range groups.length, f (groups.getD i []) := by
    rw [Finset.sum_range]
    simp
  rw [Dict.total_range _ _ _ h.keys_lt, hsum]
  refine Finset.sum_le_sum fun i _ => ?_
  cases hi : a.parts.get? i with
  | none => exact Nat.zero_le _
  | some item => rw [h.item hi, Option.elim_some]

variable {destination source : Bytes} {messageType mid : Nat}

theorem Holding.store (destination source : Bytes) (messageType mid : Nat) {i : Nat}
    (hi : i < groups.length) (hnew : ¬ fed i) :
    Holding groups relay (fun j => fed j ∨ j = i) t
      (a.store (fragmentOf destination source messageType mid relay groups i) (groups.getD i [])) := by
  have habs := h.absent hnew
  refine ⟨h.started, h.relay_eq, h.healthy, ?_, ?_, ?_, ?_⟩
  · intro j hj hfed
    simp only [Assembly.store, Dict.get?_set]
    split
    · rename_i hji; subst hji; rfl
    · rename_i hji; exact h.stored j hj (hfed.resolve_right hji)
  · intro j item hitem
    simp only [Assembly.store, Dict.get?_set] at hitem
    split at hitem
    · rename_i hji; exact ⟨hji ▸ hi, Or.inr hji⟩
    · exact ⟨(h.only j item hitem).1, Or.inl (h.only j item hitem).2⟩
  · intro last
    simp only [Assembly.store, fragmentOf, beq_iff_eq]
    split
    · rename_i hlast
      constructor
      · rintro ⟨rfl⟩; exact ⟨hlast, Or.inr rfl⟩
      · rintro ⟨rfl, -⟩; rw [hlast]
    · rename_i hlast
      rw [h.last_eq]
      constructor
      · rintro ⟨h1, h2⟩; exact ⟨h1, Or.inl h2⟩
      · rintro ⟨h1, h2⟩; exact ⟨h1, h2.resolve_right fun hli => hlast (hli ▸ h1)⟩
  · simp only [Assembly.store, fragmentOf, Dict.total_set_new _ habs, ← h.size_eq]

theorem Holding.complete_iff (hne : groups ≠ []) :
    a.complete = true ↔ ∀ i, i < groups.length → fed i := by
  have hpos : 0 < groups.length := List.length_pos_iff.mpr hne
  have hlen : a.parts.length = groups.length ↔ ∀ i, i < groups.length → fed i := by
    rw [Dict.length_eq_iff_of_keys_lt h.keys_lt]
    refine forall₂_congr fun i hi => ?_
    constructor
    · intro hm
      obtain ⟨item, hitem⟩ := Dict.mem_keys_iff.mp hm
      exact (h.only i item hitem).2
    · intro hf
      exact Dict.mem_keys_iff.mpr ⟨_, h.stored i hi hf⟩
  constructor
  · intro hc
    cases hl : a.last with
    | none => simp [Assembly.complete, hl] at hc
    | some last =>
      obtain ⟨hlast, -⟩ := (h.last_eq last).mp hl
      simp only [Assembly.complete, hl, Option.any_some, beq_iff_eq] at hc
      exact hlen.mp (by omega)
  · intro hall
    have hl := (h.last_eq _).mpr ⟨rfl, hall (groups.length - 1) (by omega)⟩
    simp only [Assembly.complete, hl, Option.any_some, beq_iff_eq, hlen.mpr hall]
    omega

theorem Holding.values_eq (hne : groups ≠ []) (hall : ∀ i, i < groups.length → fed i) :
    a.values (groups.length - 1) = groups.flatten := by
  have hpos : 0 < groups.length := List.length_pos_iff.mpr hne
  have hmap : ((List.range groups.length).map fun i => groups.getD i []) = groups := by
    refine List.ext_getElem (by simp) fun i h1 h2 => ?_
    simp [List.getElem?_eq_getElem h2]
  have hlen : groups.length - 1 + 1 = groups.length := by omega
  rw [Assembly.values, hlen]
  conv_rhs => rw [← hmap]
  refine congrArg List.flatten (List.map_congr_left fun i hi => ?_)
  rw [h.stored i (List.mem_range.mp hi) (hall i (List.mem_range.mp hi))]
  rfl

variable {tlvs : List Tlv} {frames : List Bytes} {r : Reassembler}
variable (hf : Fragmented destination source messageType mid relay tlvs frames groups)

include hf

theorem Holding.admitted {i : Nat} (hi : i < groups.length) (hnew : ¬ fed i)
    (hfrag : groups.length ≤ r.limits.maxFragments)
    (hmsg : (groups.map tlvBytes).sum ≤ r.limits.maxMessageBytes)
    (hbuf : r.buffered + tlvBytes (groups.getD i []) ≤ r.limits.maxBytes) :
    r.Admitted a (fragmentOf destination source messageType mid relay groups i) (groups.getD i []) := by
  have habs := h.absent hnew
  -- both budgets are read off the context that has the fragment
  have hst := h.store destination source messageType mid hi hnew
  have hbytes := hst.total_le tlvBytes
  have hcount := hst.total_le List.length
  rw [← hst.size_eq] at hbytes
  simp only [Assembly.store, fragmentOf, Dict.total_set_new _ habs] at hbytes hcount
  have htlvs : (groups.map List.length).sum = tlvs.length := by rw [← hf.flatten, List.length_flatten]
  refine ⟨h.healthy, by simp only [fragmentOf]; omega, h.relay_eq.symm, hf.parse hi, habs, ?_, ?_,
    by omega, hbuf, ?_⟩
  · intro last hlast
    obtain ⟨rfl, -⟩ := (h.last_eq last).mp hlast
    refine ⟨by simp only [fragmentOf]; omega, fun hl => ?_⟩
    simpa [fragmentOf] using hl
  · intro hl j hj
    have hlast : i = groups.length - 1 := by simpa [fragmentOf] using hl
    have := h.keys_lt j hj
    simp only [fragmentOf]
    omega
  · have := hf.count
    omega

theorem Holding.accept_incomplete {i : Nat} {key : Key} (hget : r.contexts.get? key = some a)
    (hi : i < groups.length)
    (hadm : ¬ fed i → r.Admitted a (fragmentOf destination source messageType mid relay groups i)
      (groups.getD i [])) (hfrag : groups.length ≤ r.limits.maxFragments)
    (hnot : ¬ ∀ j, j < groups.length → (fed j ∨ j = i)) :
    ∃ r₂ a', r.accept key a (fragmentOf destination source messageType mid relay groups i) =
        (r₂, .ok none) ∧ r₂.contexts.get? key = some a' ∧
      Holding groups relay (fun j => fed j ∨ j = i) t a' := by
  by_cases hfed : fed i
  · have hset : (fun j => fed j ∨ j = i) = fed := by
      funext j
      refine propext ⟨?_, Or.inl⟩
      rintro (hj | rfl)
      · exact hj
      · exact hfed
    refine ⟨r, a, ?_, hget, by rw [hset]; exact h⟩
    have hjudge : r.judge a (fragmentOf destination source messageType mid relay groups i) =
        .duplicate :=
      Reassembler.judge_of_stored h.healthy (by simp only [fragmentOf]; omega) h.relay_eq.symm
        (hf.parse hi) (h.stored i hi hfed)
    simp only [Reassembler.accept, hjudge]
  · have hst := h.store destination source messageType mid hi hfed
    have hinc : (a.store (fragmentOf destination source messageType mid relay groups i)
        (groups.getD i [])).complete = false := by
      rw [Bool.eq_false_iff]
      exact fun hc => hnot ((hst.complete_iff hf.nonempty).mp hc)
    have hacc := (hadm hfed).accept key
    rw [Reassembler.store_of_incomplete hinc] at hacc
    exact ⟨_, _, hacc, Dict.get?_set_self _ _ _, hst⟩

theorem Holding.accept_complete {i : Nat} {key : Key} (hi : i < groups.length) (hnew : ¬ fed i)
    (hadm : r.Admitted a (fragmentOf destination source messageType mid relay groups i)
      (groups.getD i [])) (hall : ∀ j, j < groups.length → (fed j ∨ j = i)) :
    (r.accept key a (fragmentOf destination source messageType mid relay groups i)).2 =
      .ok (some ⟨destination, source, messageType, mid, relay, tlvs, frames.length⟩) := by
  have hst := h.store destination source messageType mid hi hnew
  obtain ⟨last, hlast, -, hstore⟩ := Reassembler.store_of_complete r key
    ((hst.complete_iff hf.nonempty).mpr hall)
  obtain ⟨rfl, -⟩ := (hst.last_eq last).mp hlast
  have hpos : 0 < groups.length := List.length_pos_iff.mpr hf.nonempty
  rw [hadm.accept, hstore, hst.values_eq hf.nonempty hall, hf.flatten, Nat.sub_add_cancel hpos,
    hf.length]
  rfl

end Holding

end Emosa.Wire
