import Emosa.C.Sim

/-!
# Emosa.C.SimAccept

A fragment of an open context, judged and stored by both reassemblers.

* `judge_refines`: the C checks come in another order and reach the same verdict.
* `store_sim`: the C test for completeness looks for each part, the Python one counts them.
* `accept_sim`: the step for an open context.
-/

namespace Emosa.C

open EmReassembler EmTlv Wire List

open Wire (Bytes Tlv Key Assembly Fragment Limits Reassembler)

variable {limits : Limits} {r : Reassembler} {c : EmReassembler limits} {key : Key} {a : Assembly}
  {i : Fin limits.maxContexts}

/-! ## Judging a fragment -/

theorem tlvBytes_parseTlvsFrom {final : Bool} {acc tlvs : List Tlv} {rest : Bytes}
    (h : Wire.parseTlvsFrom final acc rest = .ok tlvs) :
    tlvBytes tlvs ≤ tlvBytes acc + rest.length := by
  fun_induction Wire.parseTlvsFrom final acc rest with
  | case3 | case5 => cases h; exact Nat.le_add_right _ _
  | case8 acc kind hi lo rest len hkind hval hcount ih =>
    have hstep := ih h
    have hone : tlvBytes (acc ++ [⟨kind.toNat, rest.take len⟩]) =
        tlvBytes acc + ((rest.take len).length + 3) := by
      simp [tlvBytes]
    rw [hone, length_take, length_drop] at hstep
    simp only [length_cons]
    omega
  | _ => cases h

theorem tlvsSize_eq (tlvs : List EmTlv) :
    tlvsSize tlvs = tlvBytes (tlvs.map toTlv) := by
  simp only [tlvBytes, map_map]
  rfl

theorem sameTlvs_iff {x : Part} {last : Bool} {tlvs : List EmTlv} :
    sameTlvs x last tlvs = true ↔
      (x.last, x.tlvs.map toTlv) = (last, tlvs.map toTlv) := by
  have hlist : ∀ l l' : List EmTlv, (l.length == l'.length &&
      (l.zip l').all fun e => e.1.kind == e.2.kind && e.1.len == e.2.len && e.1.value == e.2.value) =
        true ↔ l = l' := by
    intro l
    induction l with
    | nil => intro l'; cases l' <;> simp
    | cons x l ih =>
      intro l'
      cases l' with
      | nil => simp
      | cons t l' =>
        have heq : x = t ↔ x.kind = t.kind ∧ x.len = t.len ∧ x.value = t.value := by
          cases x; cases t
          simp only [EmTlv.mk.injEq]
          constructor
          · rintro ⟨rfl, rfl⟩; exact ⟨rfl, rfl, rfl⟩
          · rintro ⟨h1, -, h2⟩; exact ⟨h1, h2⟩
        have htail := ih l'
        simp only [length_cons, zip_cons_cons, all_cons, Bool.and_eq_true, beq_iff_eq,
          Nat.add_right_cancel_iff, List.cons.injEq, ← htail]
        tauto
  rw [sameTlvs, Bool.and_assoc, Bool.and_eq_true, hlist, beq_iff_eq, Prod.mk.injEq,
    (map_injective_iff.mpr toTlv_injective).eq_iff]

theorem stored_eq (x : Context) (fid : Fin 256) :
    stored x fid =
      (∑ i : Fin 256, if (x.parts.get i).present then (x.parts.get i).tlvs.length else 0,
        (List.finRange 256).any fun i => (x.parts.get i).present && decide (i > fid)) := by
  have hfold : ∀ (l : List (Fin 256)) (n : Nat) (b : Bool),
      l.foldl (fun acc i =>
        if (x.parts.get i).present then
          (acc.1 + (x.parts.get i).tlvs.length, acc.2 || decide (i > fid))
        else acc) (n, b) =
      (n + (l.map fun i => if (x.parts.get i).present then (x.parts.get i).tlvs.length else 0).sum,
        b || l.any fun i => (x.parts.get i).present && decide (i > fid)) := by
    intro l
    induction l with
    | nil => intro n b; simp
    | cons i l ih =>
      intro n b
      rw [foldl_cons]
      cases hp : (x.parts.get i).present with
      | false =>
        simp only [Bool.false_eq_true, if_false, ih, map_cons, sum_cons, hp, any_cons,
          Bool.false_and, Bool.false_or, Nat.zero_add]
      | true =>
        simp only [if_true, ih, map_cons, sum_cons, hp, any_cons, Bool.true_and,
          Bool.or_assoc, Nat.add_assoc]
  rw [stored, hfold, Fin.sum_univ_def, Nat.zero_add, Bool.false_or]

/-- The verdicts agree; the C code keeps no reason text. -/
inductive VerdictRel : EmReassembler.Verdict → Reassembler.Verdict → Prop where
  | quarantined : VerdictRel .quarantined .quarantined
  | poison (reason : String) : VerdictRel .poison (.poison reason)
  | duplicate : VerdictRel .duplicate .duplicate
  | store (tlvs : List EmTlv) : VerdictRel (.store tlvs) (.store (tlvs.map EmTlv.toTlv))

section Judge

variable {part : Fragment} {hd : Header} {x : Context}

section

variable (hx : ContextRel key a x)
include hx

theorem ContextRel.mem_keys {fid : Nat} (hfid : fid < 256) :
    fid ∈ a.parts.keys ↔ (x.parts.get ⟨fid, hfid⟩).present = true := by
  have hp : a.parts.get? fid = _ := hx.parts ⟨fid, hfid⟩
  rw [Dict.mem_keys_iff, hp]
  split <;> simp_all

theorem ContextRel.last_iff (hh : HeaderRel part hd) :
    (x.haveLast && (hd.fid > x.last || (hd.last && hd.fid ≠ x.last))) =
      a.last.any fun last => part.fid > last || (part.last && part.fid ≠ last) := by
  rw [hx.last]
  cases x.haveLast with
  | false => rfl
  | true =>
    simp only [if_true, Option.any_some, Bool.true_and, hh.fid, hh.last, Fin.lt_def, Fin.ext_iff, ne_eq]

theorem ContextRel.later_eq (hh : HeaderRel part hd)
    (hlt : ∀ fid ∈ a.parts.keys, fid < 256) :
    (stored x hd.fid).2 = a.parts.keys.any fun fid => fid > part.fid := by
  rw [stored_eq, Bool.eq_iff_iff, any_eq_true, any_eq_true]
  constructor
  · rintro ⟨i, -, hi⟩
    simp only [Bool.and_eq_true] at hi
    exact ⟨i, (hx.mem_keys i.isLt).mpr hi.1, by simpa [hh.fid] using hi.2⟩
  · rintro ⟨fid, hfid, hgt⟩
    have h256 := hlt fid hfid
    refine ⟨⟨fid, h256⟩, mem_finRange _, ?_⟩
    have hpres := (hx.mem_keys h256).mp hfid
    simp only [hh.fid] at hgt
    simp only [hpres, Bool.true_and, Fin.lt_def, hgt]

theorem ContextRel.stored_tlvs (fid : Fin 256)
    (hlt : ∀ fid ∈ a.parts.keys, fid < 256) :
    (stored x fid).1 = a.parts.total fun _ item => item.2.length := by
  have hterm : ∀ i : Fin 256, (if (x.parts.get i).present then (x.parts.get i).tlvs.length else 0) =
      (a.parts.get? i).elim 0 fun item => item.2.length := by
    intro i
    rw [hx.parts i]
    split
    · simp
    · rfl
  simp only [stored_eq, hterm]
  rw [Dict.total_range _ _ 256 hlt, Finset.sum_range]

end

theorem VerdictRel.of_checks {P₁ P₂ P₃ P₄ P₅ : Prop} [Decidable P₁] [Decidable P₂] [Decidable P₃]
    [Decidable P₄] [Decidable P₅] (s₁ s₂ s₃ s₄ : String) (tlvs : List EmTlv) :
    VerdictRel (if P₁ ∨ P₂ ∨ P₃ ∨ P₄ ∨ P₅ then .poison else .store tlvs)
      (if P₁ then .poison s₁ else if P₂ then .poison s₂ else if P₃ ∨ P₄ then .poison s₃
        else if P₅ then .poison s₄ else .store (tlvs.map toTlv)) := by
  by_cases h₁ : P₁
  · rw [if_pos (Or.inl h₁), if_pos h₁]; exact .poison _
  · rw [if_neg h₁]
    by_cases h₂ : P₂
    · rw [if_pos (Or.inr (Or.inl h₂)), if_pos h₂]; exact .poison _
    · rw [if_neg h₂]
      by_cases h₃ : P₃ ∨ P₄
      · rw [if_pos (by tauto), if_pos h₃]; exact .poison _
      · rw [if_neg h₃]
        by_cases h₅ : P₅
        · rw [if_pos (by tauto), if_pos h₅]; exact .poison _
        · rw [if_neg (by tauto), if_neg h₅]; exact .store _

/-- **Judging.** The C checks, in their own order, reach the same verdict. -/
theorem judge_refines {payload : Bytes} (h : Sim r c) (hx : ContextRel key a x)
    (ha : a.Inv r.limits) (hh : HeaderRel part hd) (hpay : part.payload = payload)
    (hlen : payload.length ≤ 1492) :
    VerdictRel (c.judge x hd payload) (r.judge a part) := by
  subst hpay
  have hlim := h.limits_eq
  have hlt : ∀ fid ∈ a.parts.keys, fid < 256 := fun fid hf =>
    Nat.lt_of_lt_of_le (ha.fid_lt fid hf) r.limits.fragments_range.2
  simp only [EmReassembler.judge, Reassembler.judge, hx.poisoned, hlim, hh.fid, hh.relay, hx.relay]
  split
  · exact .quarantined
  · split
    · exact .poison _
    · have hparse := parseTlvs_refines part.payload part.last
      simp only [hh.last]
      cases hc : parseTlvs part.payload part.last with
      | error e =>
        rw [hc] at hparse
        obtain ⟨e', he'⟩ := hparse
        simp only [he']
        exact .poison _
      | ok tlvs =>
        rw [hc] at hparse
        have hp : Wire.parseTlvs part.payload part.last = .ok (tlvs.map toTlv) := hparse
        simp only [hp, hx.parts hd.fid]
        cases hpres : (x.parts.get hd.fid).present with
        | true =>
          simp only [if_true]
          by_cases hsame : sameTlvs (x.parts.get hd.fid) part.last tlvs = true
          · simp only [hsame, sameTlvs_iff.mp hsame, ne_eq]
            exact .duplicate
          · have hne := fun heq => hsame (sameTlvs_iff.mpr heq)
            rw [if_neg hsame, if_pos hne]
            exact .poison _
        | false =>
          have hbytes := tlvBytes_parseTlvsFrom hp
          have hbytes' : tlvBytes ([] : List Tlv) = 0 := rfl
          have hsize := ha.size_le
          have hrange := r.limits.bytes_range
          have hbuf := h.buffered_lt
          have hadd : c.word.add x.size (tlvsSize tlvs) =
              a.size + tlvBytes (tlvs.map toTlv) := by
            rw [tlvsSize_eq, hx.size]
            exact c.word.add_eq (by omega)
          have hadd' : (c.word.add c.buffered (tlvsSize tlvs) > limits.maxBytes) ↔
              (r.buffered + tlvBytes (tlvs.map toTlv) > limits.maxBytes) := by
            rw [tlvsSize_eq, c.word.add_eq (by omega), ← h.buffered]
            omega
          have hcount : (stored x hd.fid).1 + tlvs.length > emMaxTlvs ↔
              a.parts.total (fun _ item => item.2.length) + (tlvs.map toTlv).length >
                maxTlvs := by
            rw [hx.stored_tlvs _ hlt, length_map]
            rfl
          have hlast := hx.last_iff hh
          have hlater := hx.later_eq hh hlt
          rw [hh.last] at hlast
          rw [hh.fid] at hlast hlater
          simp only [hlast, hlater, hadd, hadd', hcount]
          exact VerdictRel.of_checks _ _ _ _ _

end Judge

/-! ## Acting on the verdict -/

section Accept

variable {part : Fragment} {hd : Header}

theorem ContextRel.keep {tlvs : List EmTlv} {x : Context} {w : SizeT} (hx : ContextRel key a x)
    (hh : HeaderRel part hd)
    (hsize : w.add x.size (tlvsSize tlvs) =
      a.size + tlvBytes (tlvs.map toTlv)) :
    ContextRel key (a.store part (tlvs.map toTlv)) (EmReassembler.keep w x hd tlvs) := by
  refine { hx with last := ?_, size := hsize, parts := ?_ }
  · simp only [Assembly.store, EmReassembler.keep, hh.last, hx.last, hh.fid]
    cases part.last <;> simp
  · intro j
    simp only [Assembly.store, EmReassembler.keep, hh.fid, Dict.get?_set, Slots.get_put, hh.last]
    by_cases hji : j = hd.fid
    · simp [hji]
    · simp [hji, Fin.val_ne_of_ne hji, hx.parts j]

theorem upTo_map_val (last : Fin 256) : (upTo last).map Fin.val = List.range (last + 1) := by
  rw [upTo, map_map]
  exact map_coe_finRange_eq_range

theorem ContextRel.complete_iff {x : Context} (hx : ContextRel key a x)
    (hle : ∀ last, a.last = some last → ∀ fid ∈ a.parts.keys, fid ≤ last) :
    a.complete = true ↔
      x.haveLast = true ∧ (upTo x.last).all (fun j => (x.parts.get j).present) = true := by
  have hlast := hx.last
  cases hl : x.haveLast with
  | false => simp [Assembly.complete, hlast, hl]
  | true =>
    rw [hl, if_pos rfl] at hlast
    have hkeys : ∀ fid ∈ a.parts.keys, fid < x.last.val + 1 := fun fid hf =>
      Nat.lt_succ_of_le (hle _ hlast fid hf)
    have hmem : ∀ j : Fin 256, j ∈ upTo x.last ↔ j.val < x.last.val + 1 := by
      intro j
      rw [← mem_range, ← upTo_map_val, mem_map]
      constructor
      · intro hj; exact ⟨j, hj, rfl⟩
      · rintro ⟨k, hk, hkj⟩; exact Fin.ext hkj ▸ hk
    simp only [Assembly.complete, hlast, Option.any_some, beq_iff_eq, true_and, all_eq_true,
      Dict.length_eq_iff_of_keys_lt hkeys]
    constructor
    · intro hall j hj
      exact (hx.mem_keys j.isLt).mp (hall j ((hmem j).mp hj))
    · intro hall fid hfid
      have h256 : fid < 256 := by have := x.last.isLt; omega
      exact (hx.mem_keys h256).mpr (hall ⟨fid, h256⟩ ((hmem ⟨fid, h256⟩).mpr hfid))

theorem ContextRel.values_eq {x : Context} (hx : ContextRel key a x)
    (hall : (upTo x.last).all (fun j => (x.parts.get j).present) = true) :
    ((upTo x.last).flatMap fun j => (x.parts.get j).tlvs.map toTlv) = a.values x.last := by
  rw [Assembly.values, ← upTo_map_val, flatMap_map]
  refine flatMap_congr fun j hj => ?_
  rw [hx.parts j, if_pos (all_eq_true.mp hall j hj)]
  rfl

variable (h : Sim r c) (hu : (c.contexts.get i).used = true) (hx : ContextRel key a (c.contexts.get i))
include h hu hx

theorem Sim.set {a' : Assembly} {x' : Context} {b : Int} {n : Nat} (hu' : x'.used = true)
    (hx' : ContextRel key a' x') (hn : (n : Int) = b)
    (hinv : Reassembler.Inv { r with buffered := b, contexts := r.contexts.set key a' }) :
    Sim { r with buffered := b, contexts := r.contexts.set key a' }
      { c with buffered := n, contexts := Slots.put c.contexts i x' } where
  __ := h
  inv := hinv
  buffered := hn
  contexts := h.contexts.set ContextRel.key_eq (fun _ => ⟨a, hx⟩)
    (fun b _ j hj hr => h.contexts.single j i key b a hj hu hr hx) hu' hx'

theorem Sim.erase {b : Int} {n : Nat} (hn : (n : Int) = b)
    (hinv : Reassembler.Inv { r with buffered := b, contexts := r.contexts.erase key }) :
    Sim { r with buffered := b, contexts := r.contexts.erase key }
      { c with buffered := n, contexts := Slots.put c.contexts i {} } where
  __ := h
  inv := hinv
  buffered := hn
  contexts := h.contexts.erase ContextRel.key_eq hu hx rfl

theorem Sim.sub_size :
    ((c.word.sub c.buffered (c.contexts.get i).size : Nat) : Int) = r.buffered - a.size := by
  have hle := h.size_le hu
  have hlt := h.buffered_lt
  have hb := h.buffered
  have hs := hx.size
  rw [c.word.sub_eq hle (by omega)]
  omega

variable (hget : r.contexts.get? key = some a)
include hget

theorem poison_sim (reason : String) :
    Sim (r.poison key a reason).1 (c.poison i).1 := by
  refine h.set hu hx hu ?_ (h.sub_size hu hx) (Reassembler.poison_inv h.inv hget reason)
  exact { hx with poisoned := rfl, size := rfl, parts := by intro j; simp only [Slots.get_replicate]; rfl }

theorem store_sim {tlvs : List EmTlv}
    (hh : HeaderRel part hd) (hadm : r.Admitted a part (tlvs.map toTlv)) :
    Sim (r.store key a part (tlvs.map toTlv)).1 (c.store i hd tlvs).1 ∧
      (c.store i hd tlvs).2 =
        (r.store key a part (tlvs.map toTlv)).2.mapError EmosaError.code := by
  have hrange := r.limits.bytes_range
  have hmsg := hadm.message_le
  have hbuf := hadm.buffered_le
  have hb := h.buffered
  have hsize : c.word.add (c.contexts.get i).size (tlvsSize tlvs) =
      a.size + tlvBytes (tlvs.map toTlv) := by
    rw [tlvsSize_eq, hx.size]
    exact c.word.add_eq (by omega)
  have hadd : c.word.add c.buffered (tlvsSize tlvs) =
      c.buffered + tlvBytes (tlvs.map toTlv) := by
    rw [tlvsSize_eq]
    exact c.word.add_eq (by omega)
  have hx' := hx.keep hh hsize
  have hiff := hx'.complete_iff
    (Assembly.store_fid_le_last (h.inv.assembly key a hget).fid_le_last hadm)
  have hinv := Reassembler.store_inv h.inv hget hadm
  generalize hk : EmReassembler.keep c.word (c.contexts.get i) hd tlvs = x at hx' hiff
  cases hc : (a.store part (tlvs.map toTlv)).complete with
  | false =>
    rw [Reassembler.store_of_incomplete hc] at hinv ⊢
    have hres : c.store i hd tlvs = ({ c with
        buffered := c.word.add c.buffered (tlvsSize tlvs)
        contexts := Slots.put c.contexts i x }, .ok none) := by
      have hnot : ¬ (x.haveLast = true ∧ ((upTo x.last).all fun j => (x.parts.get j).present) = true) :=
        fun hboth => by rw [hiff.mpr hboth] at hc; cases hc
      simp only [store, hk]
      by_cases hl : x.haveLast = true
      · rw [if_neg (not_not_intro hl), if_pos fun hall => hnot ⟨hl, hall⟩]
      · rw [if_pos hl]
    rw [hres]
    exact ⟨h.set hu hx (hk ▸ hu) hx' (by rw [hadd]; push_cast; omega) hinv, rfl⟩
  | true =>
    obtain ⟨hl, hall⟩ := hiff.mp hc
    obtain ⟨last, hlast, -, hstore⟩ := Reassembler.store_of_complete r key hc
    have hlast' := hx'.last
    rw [hl, if_pos rfl, hlast, Option.some.injEq] at hlast'
    have hres : c.store i hd tlvs = ({ c with
        buffered := c.word.sub (c.word.add c.buffered (tlvsSize tlvs)) x.size
        contexts := Slots.put c.contexts i {} },
        .ok (some ⟨hd.destination, hd.source, hd.messageType, hd.mid, hd.relay,
          (upTo x.last).flatMap fun j => (x.parts.get j).tlvs.map toTlv, x.last + 1⟩)) := by
      simp only [store, hk]
      rw [if_neg (not_not_intro hl), if_neg (not_not_intro hall), Slots.put_put]
    have hle := h.size_le hu
    have hcount : ((c.word.sub (c.word.add c.buffered (tlvsSize tlvs)) x.size : Nat) : Int) =
        r.buffered + tlvBytes (tlvs.map toTlv) -
          (a.store part (tlvs.map toTlv)).size := by
      have hkept : x.size = a.size + tlvBytes (tlvs.map toTlv) := hk ▸ hsize
      have hst : (a.store part (tlvs.map toTlv)).size =
          a.size + tlvBytes (tlvs.map toTlv) := rfl
      rw [hx.size] at hle
      rw [c.word.sub_eq (by omega) (by omega)]
      omega
    rw [hstore] at hinv ⊢
    rw [hres]
    refine ⟨h.erase hu hx hcount hinv, ?_⟩
    rw [hx'.values_eq hall, hlast', hh.destination, hh.source, hh.messageType, hh.mid, hh.relay]
    rfl

/-- **Step, an open context.** -/
theorem accept_sim {payload : Bytes}
    (hh : HeaderRel part hd) (hpay : part.payload = payload) (hlen : payload.length ≤ 1492) :
    Sim (r.accept key a part).1 (c.accept i hd payload).1 ∧
      (c.accept i hd payload).2 = (r.accept key a part).2.mapError EmosaError.code := by
  have hverdict := judge_refines h hx (h.inv.assembly key a hget) hh hpay hlen
  simp only [accept, Reassembler.accept]
  generalize hc : c.judge (c.contexts.get i) hd payload = vc at hverdict
  generalize hr : r.judge a part = vr at hverdict
  cases hverdict with
  | quarantined => exact ⟨h, rfl⟩
  | poison reason => exact ⟨poison_sim h hu hx hget reason, rfl⟩
  | duplicate => exact ⟨h, rfl⟩
  | store tlvs => exact store_sim h hu hx hget hh (Reassembler.judge_store hr)

end Accept

end Emosa.C
