import Mathlib.Algebra.BigOperators.Fin
import Mathlib.Algebra.BigOperators.Ring.Finset
import Mathlib.Algebra.Order.BigOperators.Group.Finset
import Emosa.C.CmduRefines
import Emosa.Wire.ReassemblerInv

/-!
# Emosa.C.Sim

The relation between the C and the Python reassembler: the array of contexts represents the
dictionary.

* `Sim`: the relation. The global count and every size are far from wrapping.
* `expire_sim`: expiry drops the same contexts.
* `openContext_sim`: the scan of the array finds what the dictionary has, or a spare context.
-/

namespace Emosa.C

open EmReassembler List

open Wire (Bytes Tlv Key Assembly Fragment Limits Reassembler)

theorem cString_injective : Function.Injective cString := by
  intro a b h
  exact String.toByteArray_inj.mp (ByteArray.ext (Array.toList_inj.mp h))

/-! ## Sizes that do not wrap -/

namespace SizeT

variable (w : SizeT)

theorem add_eq {a b : Nat} (h : a + b < 2 ^ 32) : w.add a b = a + b :=
  Nat.mod_eq_of_lt (Nat.lt_of_lt_of_le h w.wide)

theorem sub_eq {a b : Nat} (hle : b ≤ a) (h : a < 2 ^ 32) : w.sub a b = a - b := by
  have hw := w.wide
  have hb : b % w.modulus = b := Nat.mod_eq_of_lt (by omega)
  rw [sub, hb, show a + (w.modulus - b) = a - b + w.modulus by omega, Nat.add_mod_right]
  exact Nat.mod_eq_of_lt (by omega)

end SizeT

/-! ## The relation -/

/-- Context `x` holds the assembly `a` of `k`. -/
structure ContextRel (k : Key) (a : Assembly) (x : Context) : Prop where
  ingress : x.ingress = cString k.ingress
  source : x.source = k.source
  destination : x.destination = k.destination
  messageType : x.messageType = k.messageType
  mid : x.mid = k.mid
  started : x.started = a.started
  relay : x.relay = a.relay
  poisoned : x.poisoned = a.poisoned
  last : a.last = if x.haveLast then some x.last.val else none
  size : x.size = a.size
  parts : ∀ i : Fin 256, a.parts.get? i =
    if (x.parts.get i).present then
      some ((x.parts.get i).last, (x.parts.get i).tlvs.map EmTlv.toTlv)
    else none

theorem ContextRel.key_eq (k k' : Key) (a a' : Assembly) (x : Context) (h : ContextRel k a x)
    (h' : ContextRel k' a' x) : k = k' := by
  cases k; cases k'
  simp only [Key.mk.injEq]
  exact ⟨cString_injective (h.ingress.symm.trans h'.ingress), h.source.symm.trans h'.source,
    h.destination.symm.trans h'.destination, h.messageType.symm.trans h'.messageType,
    h.mid.symm.trans h'.mid⟩

structure Sim {limits : Limits} (r : Reassembler) (c : EmReassembler limits) : Prop where
  limits_eq : r.limits = limits
  inv : r.Inv
  buffered : (c.buffered : Int) = r.buffered
  contexts : Slots.Represents Context.used ContextRel r.contexts c.contexts

variable {limits : Limits} {r : Reassembler} {c : EmReassembler limits} {key : Key} {a : Assembly}
  {i : Fin limits.maxContexts}

def EmReassembler.total (c : EmReassembler limits) : Nat :=
  ∑ i : Fin limits.maxContexts, if (c.contexts.get i).used then (c.contexts.get i).size else 0

theorem buffered_of_total (hinv : r.Inv)
    (hrep : Slots.Represents Context.used ContextRel r.contexts c.contexts) :
    (c.total : Int) = r.buffered := by
  have hsum := hrep.total_eq (w := fun x => (x.size : Int))
    ContextRel.key_eq fun k a x hx => by rw [hx.size]
  rw [hinv.buffered, hsum, total, Nat.cast_sum]
  refine Finset.sum_congr rfl fun j _ => ?_
  split <;> rfl

theorem Sim.buffered_eq_total (h : Sim r c) : c.buffered = c.total := by
  have htotal := buffered_of_total h.inv h.contexts
  rw [← h.buffered] at htotal
  exact_mod_cast htotal.symm

theorem Sim.buffered_lt (h : Sim r c) : c.buffered ≤ 16777216 := by
  have h1 := h.inv.buffered_le
  have h2 := r.limits.bytes_range
  have h3 := h.buffered
  omega

theorem Sim.size_le (h : Sim r c) (hu : (c.contexts.get i).used = true) :
    (c.contexts.get i).size ≤ c.buffered := by
  rw [h.buffered_eq_total, total]
  have := Finset.single_le_sum (f := fun i : Fin limits.maxContexts =>
    if (c.contexts.get i).used then (c.contexts.get i).size else 0) (fun _ _ => Nat.zero_le _)
    (Finset.mem_univ i)
  simpa only [hu, if_true] using this

/-! ## Expiry -/

def Context.Expired (limits : Limits) (now : ℚ) (x : Context) : Prop :=
  x.used = true ∧ now - x.started ≥ limits.timeout

instance (limits : Limits) (now : ℚ) (x : Context) : Decidable (x.Expired limits now) :=
  inferInstanceAs (Decidable (_ ∧ _))

namespace EmReassembler

theorem expireStep_contexts (now : ℚ) (c : EmReassembler limits) (i j : Fin limits.maxContexts) :
    (c.expireStep now i).contexts.get j =
      if j = i ∧ (c.contexts.get j).Expired limits now then {} else c.contexts.get j := by
  by_cases hx : (c.contexts.get i).Expired limits now
  · have hstep : c.expireStep now i = c.drop i := if_pos hx
    rw [hstep]
    have hdrop := Slots.get_put c.contexts i j {}
    by_cases hji : j = i
    · rw [if_pos ⟨hji, hji ▸ hx⟩]
      exact hdrop.trans (if_pos hji)
    · rw [if_neg fun h => hji h.1]
      exact hdrop.trans (if_neg hji)
  · have hstep : c.expireStep now i = c := if_neg hx
    rw [hstep, if_neg]
    rintro ⟨rfl, h⟩
    exact hx h

theorem expire_contexts (now : ℚ) (c : EmReassembler limits) (j : Fin limits.maxContexts) :
    (c.expire now).contexts.get j =
      if (c.contexts.get j).Expired limits now then {} else c.contexts.get j := by
  have hfold : ∀ (l : List (Fin limits.maxContexts)) (c : EmReassembler limits),
      (l.foldl (expireStep now) c).contexts.get j =
        if j ∈ l ∧ (c.contexts.get j).Expired limits now then {} else c.contexts.get j := by
    intro l
    induction l with
    | nil => intro c; simp
    | cons i l ih =>
      intro c
      rw [foldl_cons, ih, expireStep_contexts]
      generalize c.contexts.get j = x
      by_cases hx : x.Expired limits now
      · by_cases hji : j = i
        · simp [hji, hx]
        · simp [hji]
      · simp [hx]
  simp [expire, hfold]

theorem drop_buffered (h : c.buffered = c.total) (hlt : c.buffered < 2 ^ 32)
    (hu : (c.contexts.get i).used = true) :
    (c.drop i).buffered = (c.drop i).total ∧ (c.drop i).buffered < 2 ^ 32 := by
  have hset := Slots.sum_set (fun x : Context => if x.used then x.size else 0) c.contexts i {}
  simp only [hu] at hset
  have htotal : (c.drop i).total + (c.contexts.get i).size = c.total := hset
  have hsub : (c.drop i).buffered = c.buffered - (c.contexts.get i).size :=
    c.word.sub_eq (by omega) hlt
  omega

theorem expire_buffered (now : ℚ) (h : c.buffered = c.total) (hlt : c.buffered < 2 ^ 32) :
    (c.expire now).buffered = (c.expire now).total := by
  have hfold : ∀ (l : List (Fin limits.maxContexts)) (c : EmReassembler limits),
      c.buffered = c.total → c.buffered < 2 ^ 32 →
      (l.foldl (expireStep now) c).buffered = (l.foldl (expireStep now) c).total := by
    intro l
    induction l with
    | nil => intro c h _; exact h
    | cons i l ih =>
      intro c h hlt
      rw [foldl_cons]
      by_cases hx : (c.contexts.get i).Expired limits now
      · have hstep : c.expireStep now i = c.drop i := if_pos hx
        obtain ⟨h1, h2⟩ := drop_buffered h hlt hx.1
        rw [hstep]
        exact ih _ h1 h2
      · have hstep : c.expireStep now i = c := if_neg hx
        rw [hstep]
        exact ih _ h hlt
  exact hfold _ c h hlt

end EmReassembler

theorem expire_sim (h : Sim r c) (now : ℚ) : Sim (r.expire now).1 (c.expire now) := by
  have hrep : Slots.Represents Context.used ContextRel (r.expire now).1.contexts
      (c.expire now).contexts := by
    -- a used context after expiry is one that was there and has not expired
    have hused : ∀ j : Fin limits.maxContexts, ((c.expire now).contexts.get j).used = true →
        (c.expire now).contexts.get j = c.contexts.get j ∧ ¬ (c.contexts.get j).Expired limits now := by
      intro j hj
      rw [expire_contexts] at hj ⊢
      split at hj
      · cases hj
      · rename_i hx
        exact ⟨if_neg hx, hx⟩
    refine ⟨?_, ?_, ?_⟩
    · intro k a ha
      obtain ⟨ha, hlive⟩ := Reassembler.get?_expire.mp ha
      obtain ⟨j, hj, hrel⟩ := h.contexts.stored k a ha
      have hx : ¬ (c.contexts.get j).Expired limits now := by
        rintro ⟨-, hx⟩
        rw [hrel.started] at hx
        rw [h.limits_eq] at hlive
        exact absurd hlive (not_lt.mpr hx)
      exact ⟨j, by rw [expire_contexts, if_neg hx]; exact hj,
        by rw [expire_contexts, if_neg hx]; exact hrel⟩
    · intro j hj
      obtain ⟨heq, hx⟩ := hused j hj
      rw [heq] at hj ⊢
      obtain ⟨k, a, ha, hrel⟩ := h.contexts.occupied j hj
      refine ⟨k, a, Reassembler.get?_expire.mpr ⟨ha, ?_⟩, hrel⟩
      rw [h.limits_eq, ← hrel.started]
      exact not_le.mp fun hle => hx ⟨hj, hle⟩
    · intro j j' k a b hj hj' hr hr'
      have heq := (hused j hj).1
      have heq' := (hused j' hj').1
      rw [heq] at hj hr
      rw [heq'] at hj' hr'
      exact h.contexts.single j j' k a b hj hj' hr hr'
  have hinv := Reassembler.expire_inv h.inv now
  refine ⟨by rw [Reassembler.expire_limits]; exact h.limits_eq, hinv, ?_, hrep⟩
  have hlt := h.buffered_lt
  rw [expire_buffered now h.buffered_eq_total (by omega)]
  exact buffered_of_total hinv hrep

/-! ## Finding a context -/

namespace EmReassembler

/-- What the scan knows when it has looked at the contexts `l`. -/
structure Scanned (c : EmReassembler limits) (same : Context → Bool)
    (l : List (Fin limits.maxContexts)) (s : Scan limits.maxContexts) : Prop where
  found : ∀ i, s.found = some i → (c.contexts.get i).used = true ∧ same (c.contexts.get i) = true
  missing : s.found = none → ∀ i ∈ l, (c.contexts.get i).used = true → same (c.contexts.get i) = false
  spare : ∀ i, s.spare = some i → (c.contexts.get i).used = false
  full : s.spare = none → ∀ i ∈ l, (c.contexts.get i).used = true
  used : s.used = (l.map fun i => if (c.contexts.get i).used then 1 else 0).sum

theorem Scanned.step {same : Context → Bool} {l : List (Fin limits.maxContexts)}
    {s : Scan limits.maxContexts} (h : Scanned c same l s) (i : Fin limits.maxContexts) :
    Scanned c same (l ++ [i]) (c.scanStep same s i) := by
  cases hu : (c.contexts.get i).used with
  | false =>
    have hstep : c.scanStep same s i = { s with spare := s.spare.or (some i) } := by
      simp only [scanStep, hu, Bool.false_eq_true, not_false_eq_true, if_true]
    rw [hstep]
    refine ⟨h.found, ?_, ?_, ?_, ?_⟩
    · intro hn j hj hju
      rcases mem_append.mp hj with hj | hj
      · exact h.missing hn j hj hju
      · rw [mem_singleton.mp hj, hu] at hju; cases hju
    · intro j hj
      cases hs : s.spare with
      | some k => exact h.spare j (by simpa [hs] using hj)
      | none =>
        simp only [hs, Option.none_or, Option.some.injEq] at hj
        exact hj ▸ hu
    · intro hn
      simp at hn
    · rw [map_append, sum_append, ← h.used]
      simp only [map_singleton, sum_singleton, hu, Bool.false_eq_true, if_false,
        Nat.add_zero]
  | true =>
    have hstep : c.scanStep same s i =
        { s with used := s.used + 1, found := if same (c.contexts.get i) then some i else s.found } := by
      simp only [scanStep, hu, not_true_eq_false, if_false]
    rw [hstep]
    refine ⟨?_, ?_, h.spare, ?_, ?_⟩
    · intro j hj
      by_cases hsame : same (c.contexts.get i) = true
      · simp only [hsame, if_true, Option.some.injEq] at hj
        exact hj ▸ ⟨hu, hsame⟩
      · simp only [hsame] at hj
        exact h.found j hj
    · intro hn j hj hju
      by_cases hsame : same (c.contexts.get i) = true
      · simp only [hsame, if_true, reduceCtorEq] at hn
      · simp only [hsame] at hn
        rcases mem_append.mp hj with hj | hj
        · exact h.missing hn j hj hju
        · rw [mem_singleton.mp hj]; exact Bool.eq_false_iff.mpr hsame
    · intro hn j hj
      rcases mem_append.mp hj with hj | hj
      · exact h.full hn j hj
      · rw [mem_singleton.mp hj]; exact hu
    · rw [map_append, sum_append, ← h.used]
      simp only [map_singleton, sum_singleton, hu, if_true]

theorem scan_scanned (c : EmReassembler limits) (same : Context → Bool) :
    Scanned c same (List.finRange limits.maxContexts) (c.scan same) := by
  have hfold : ∀ l : List (Fin limits.maxContexts), Scanned c same l (l.foldl (c.scanStep same) {}) := by
    intro l
    induction l using List.reverseRecOn with
    | nil => exact ⟨nofun, fun _ _ h => absurd h not_mem_nil, nofun,
        fun _ _ h => absurd h not_mem_nil, rfl⟩
    | append_singleton l i ih =>
      rw [foldl_append]
      exact ih.step i
  exact hfold _

end EmReassembler

/-- The header the C code reads is the fragment the Python code decodes. -/
structure HeaderRel (part : Fragment) (h : Header) : Prop where
  destination : h.destination = part.destination
  source : h.source = part.source
  messageType : h.messageType = part.messageType
  mid : h.mid = part.mid
  fid : part.fid = h.fid.val
  last : h.last = part.last
  relay : h.relay = part.relay

theorem same_iff {part : Fragment} {hd : Header} {ingress : String} {x : Context}
    (hh : HeaderRel part hd) (hx : ContextRel key a x) :
    same hd (cString ingress) x = true ↔ key = part.key ingress := by
  obtain ⟨kin, ksrc, kdst, kmt, kmid⟩ := key
  simp only [same, Bool.and_eq_true, beq_iff_eq, hx.ingress, hx.source,
    hx.destination, hx.messageType, hx.mid, hh.source, hh.destination, hh.messageType, hh.mid,
    Fragment.key, Key.mk.injEq, cString_injective.eq_iff, and_assoc]

theorem ContextRel.fresh {part : Fragment} {hd : Header} {ingress : String} {opened : ℚ}
    (hh : HeaderRel part hd) :
    ContextRel (part.key ingress) { started := opened, relay := part.relay }
      (takeOver hd (cString ingress) opened) where
  __ := hh
  ingress := rfl
  started := rfl
  poisoned := rfl
  last := rfl
  size := rfl
  parts := by intro i; simp only [takeOver, Slots.get_replicate]; rfl

theorem openContext_sim {part : Fragment} {hd : Header} (h : Sim r c) (hh : HeaderRel part hd)
    (ingress : String) (opened : ℚ) :
    (∃ e, r.openContext (part.key ingress) part opened = .error e ∧
      c.openContext hd (cString ingress) opened = .error e.code) ∨
    ∃ (r₁ : Reassembler) (a : Assembly) (c₁ : EmReassembler limits) (i : Fin limits.maxContexts),
      r.openContext (part.key ingress) part opened = .ok (r₁, a) ∧
      c.openContext hd (cString ingress) opened = .ok (c₁, i) ∧ Sim r₁ c₁ ∧
      r₁.contexts.get? (part.key ingress) = some a ∧ (c₁.contexts.get i).used = true ∧
      ContextRel (part.key ingress) a (c₁.contexts.get i) := by
  have hscan := c.scan_scanned (same hd (cString ingress))
  generalize hs : c.scan (same hd (cString ingress)) = s at hscan
  cases hf : s.found with
  | some i =>
    obtain ⟨hu, hsame⟩ := hscan.found i hf
    obtain ⟨k, a, ha, hrel⟩ := h.contexts.occupied i hu
    obtain rfl := (same_iff hh hrel).mp hsame
    refine Or.inr ⟨r, a, c, i, ?_, ?_, h, ha, hu, hrel⟩
    · exact Reassembler.openContext_ok.mpr (.found ha)
    · simp only [openContext, hs, hf]
  | none =>
    have hnone : r.contexts.get? (part.key ingress) = none := by
      cases hg : r.contexts.get? (part.key ingress) with
      | none => rfl
      | some a =>
        obtain ⟨j, hj, hrel⟩ := h.contexts.stored _ a hg
        have hmiss := hscan.missing hf j (mem_finRange j) hj
        rw [(same_iff hh hrel).mpr rfl] at hmiss
        cases hmiss
    -- the number of used contexts is the number of Python contexts
    have hcount : s.used = r.contexts.length := by
      rw [hscan.used, h.contexts.length_eq ContextRel.key_eq, Fin.sum_univ_def]
    have hlim : r.limits.maxContexts = limits.maxContexts := by rw [h.limits_eq]
    by_cases hfull : r.contexts.length ≥ r.limits.maxContexts
    · refine Or.inl ⟨⟨.busy, "reassembly context budget exhausted"⟩, ?_, ?_⟩
      · simp only [Reassembler.openContext, hnone, hfull, if_true]
      · simp only [openContext, hs, hf]
        cases s.spare with
        | none => rfl
        | some i => simp only [hcount, ← hlim, hfull, if_true]
    · cases hspare : s.spare with
      | none =>
        -- every context is used
        have hall := hscan.full hspare
        have hsum : s.used = limits.maxContexts := by
          rw [hscan.used, map_congr_left fun j hj => if_pos (hall j hj)]
          simp
        omega
      | some i =>
        have hfree := hscan.spare i hspare
        have hopen : c.openContext hd (cString ingress) opened =
            .ok ({ c with
              contexts := Slots.put c.contexts i
                (takeOver hd (cString ingress) opened) }, i) := by
          simp only [openContext, hs, hf, hspare, hcount, ← hlim, hfull, if_false]
        refine Or.inr ⟨_, _, _, i, Reassembler.openContext_ok.mpr (.fresh hnone (by omega)), hopen, ?_,
          Dict.get?_set_self _ _ _, ?_, ?_⟩
        · refine ⟨h.limits_eq, ?_, h.buffered, ?_⟩
          · have hfresh : Reassembler.Opened r (part.key ingress) part opened _ _ :=
              .fresh hnone (by omega)
            exact hfresh.inv h.inv
          · refine h.contexts.set ContextRel.key_eq ?_ ?_ rfl (ContextRel.fresh hh)
            · intro hu; rw [hfree] at hu; cases hu
            · intro b hb; rw [hnone] at hb; cases hb
        · rw [Slots.get_put_self]
          rfl
        · rw [Slots.get_put_self]
          exact ContextRel.fresh hh

end Emosa.C
