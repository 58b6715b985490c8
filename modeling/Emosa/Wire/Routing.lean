import Emosa.Lib.Dialogue
import Emosa.Lib.Recent
import Emosa.Wire.RoundTrip

/-!
# Emosa.Wire.Routing

Which exchange a WSC frame is for. A pod's further radios have exchanges of their own; a frame is
handed to one of them before the message is reassembled. The radio is named in the first fragment, and
a route keeps the later ones with it until the last.

* `Router.wscSession`: the route of one fragment; at most four are kept.
* `idle_after`, `routed_after`: a run of other messages' fragments, without the route and with it.
-/

namespace Emosa.Wire

open Dialogue List Option

/-- The source and the MID of a message. -/
abbrev RouteKey := Bytes × Nat

def Fragment.routeKey (part : Fragment) : RouteKey := (part.source, part.mid)

def ruidType : Nat := 0x82

/-- The AP Radio Identifier of some TLVs. -/
def ruidOf (tlvs : List Tlv) : Option Bytes := (tlvs.find? fun t => t.kind = ruidType).map Tlv.value

def Fragment.ruid (part : Fragment) : Option Bytes :=
  match parseTlvs part.payload part.last with
  | .ok tlvs => ruidOf tlvs
  | .error _ => none

/-- The WSC fragment a call's frame is. -/
def Call.wscFragment : Call → Option Fragment
  | .feed _ _ _ frame =>
    match decodeFrame frame with
    | .ok part => if part.messageType = 9 then some part else none
    | .error _ => none
  | .expire _ => none

/-- The exchanges of a session: the fronthaul's, those of the further radios, and the routes of
fragmented messages. -/
structure Router (σ : Type) where
  fronthaul : σ
  radioSessions : Dict Bytes σ
  wscRoutes : Dict RouteKey σ := ∅

namespace Router

variable {σ : Type}

/-- The exchange of the radio with this identifier, else the fronthaul's. -/
def radio (x : Router σ) (ruid : Option Bytes) : σ := (ruid.bind x.radioSessions.get?).getD x.fronthaul

def wscSession (x : Router σ) (part : Fragment) : σ × Router σ :=
  if part.fid ≠ 0 then
    ((x.wscRoutes.get? part.routeKey).getD x.fronthaul,
      if part.last then { x with wscRoutes := x.wscRoutes.erase part.routeKey } else x)
  else
    let session := x.radio part.ruid
    (session,
      { x with wscRoutes :=
          if part.last then x.wscRoutes.erase part.routeKey
          -- A few M2s in flight at most: the oldest route goes first.
          else (x.wscRoutes.recent 3).set part.routeKey session })

/-- A frame that arrives, and the exchange it is handed to. -/
def arrive (x : Router σ) (c : Call) : Option σ × Router σ :=
  match c.wscFragment with
  | some part => (some (x.wscSession part).1, (x.wscSession part).2)
  | none => (none, x)

end Router

/-- The message a call's frame belongs to. -/
def Call.routeKey (c : Call) : Option RouteKey := c.wscFragment.map Fragment.routeKey

/-- The number of the fragment a call carries, if it is one of the message. -/
def Call.fid (key : RouteKey) (c : Call) : Option Nat :=
  c.wscFragment.bind fun part => if part.routeKey = key then some part.fid else none

/-- The fragments of a message, in the order they arrive. -/
def fids (key : RouteKey) (calls : List Call) : List Nat := calls.filterMap (Call.fid key)

def Call.isExpire : Call → Bool
  | .feed _ _ _ _ => false
  | .expire _ => true

/-- What an exchange's reassembler is called with: the frames handed to it, and every expiry. -/
def handedTo {σ : Type} [DecidableEq σ] (s : σ) (entries : List (Dialogue.Entry Call (Option σ))) :
    List Call :=
  (entries.filter fun e => e.answer = some s ∨ e.call.isExpire = true).map Dialogue.Entry.call

/-! ## One fragment -/

section Steps

variable {σ : Type} {x : Router σ} {key : RouteKey} {others : List RouteKey} {s : σ}

theorem wscSession_fronthaul (x : Router σ) (part : Fragment) :
    (x.wscSession part).2.fronthaul = x.fronthaul ∧
      (x.wscSession part).2.radioSessions = x.radioSessions := by
  unfold Router.wscSession
  split
  · split <;> exact ⟨rfl, rfl⟩
  · exact ⟨rfl, rfl⟩

theorem wscSession_none (h : x.wscRoutes.get? key = none) {part : Fragment}
    (hne : part.routeKey ≠ key) : (x.wscSession part).2.wscRoutes.get? key = none := by
  have herase : (x.wscRoutes.erase part.routeKey).get? key = none :=
    (Dict.get?_erase_ne _ (Ne.symm hne)).trans h
  unfold Router.wscSession
  split
  · split
    · exact herase
    · exact h
  · dsimp only
    split
    · exact herase
    · rw [Dict.get?_set_ne _ _ (Ne.symm hne)]
      exact Dict.get?_recent_none 3 h

/-- Another message's fragment leaves the route, if there are at most two of them. -/
theorem wscSession_ahead (h : x.wscRoutes.Ahead others key s) (hfew : others.length ≤ 2)
    {part : Fragment} (hmem : part.routeKey ∈ others) (hne : part.routeKey ≠ key) :
    (x.wscSession part).2.wscRoutes.Ahead others key s := by
  unfold Router.wscSession
  split
  · split
    · exact h.erase hne
    · exact h
  · dsimp only
    split
    · exact h.erase hne
    · exact (h.recent (by omega)).set hmem hne _

end Steps

/-! ## Runs -/

section Runs

variable {σ : Type} {x : Router σ} {key : RouteKey} {others : List RouteKey} {s : σ}
  {calls : List Call}

/-- The call carries a fragment of one of the other messages, or none. -/
def Call.Other (key : RouteKey) (others : List RouteKey) (c : Call) : Prop :=
  ∀ part, c.wscFragment = some part → part.routeKey ∈ others ∧ part.routeKey ≠ key

/-- The call carries a fragment of the message, neither the first nor the last. -/
def Call.Middle (key : RouteKey) (c : Call) : Prop :=
  ∃ part, c.wscFragment = some part ∧ part.routeKey = key ∧ part.fid ≠ 0 ∧ part.last = false

theorem Call.Other.routeKey {c : Call} (h : c.Other key others) : c.routeKey ≠ some key := by
  intro hkey
  obtain ⟨part, hpart, hroute⟩ := map_eq_some_iff.mp hkey
  exact (h part hpart).2 hroute

theorem arrive_exchanges (x : Router σ) (c : Call) :
    (x.arrive c).2.fronthaul = x.fronthaul ∧ (x.arrive c).2.radioSessions = x.radioSessions := by
  unfold Router.arrive
  cases c.wscFragment with
  | none => exact ⟨rfl, rfl⟩
  | some part => exact wscSession_fronthaul x part

theorem after_exchanges (x : Router σ) (calls : List Call) :
    (after Router.arrive x calls).fronthaul = x.fronthaul ∧
      (after Router.arrive x calls).radioSessions = x.radioSessions :=
  @after_invariant (Router σ) Call (Option σ) Router.arrive
    (fun y => y.fronthaul = x.fronthaul ∧ y.radioSessions = x.radioSessions)
    (fun y c hy => ⟨(arrive_exchanges y c).1.trans hy.1, (arrive_exchanges y c).2.trans hy.2⟩) x
    ⟨rfl, rfl⟩ calls

theorem idle_after (h : x.wscRoutes.get? key = none) (hcalls : ∀ c ∈ calls, c.Other key others) :
    (after Router.arrive x calls).wscRoutes.get? key = none := by
  induction calls generalizing x with
  | nil => exact h
  | cons c calls ih =>
    rw [after_cons]
    refine ih ?_ fun c hc => hcalls c (mem_cons_of_mem _ hc)
    have hother := hcalls c mem_cons_self
    unfold Router.arrive
    cases hpart : c.wscFragment with
    | none => exact h
    | some part => exact wscSession_none h (hother part hpart).2

theorem routed_after (h : x.wscRoutes.Ahead others key s) (hfew : others.length ≤ 2)
    (hcalls : ∀ c ∈ calls, c.Other key others ∨ c.Middle key) :
    (after Router.arrive x calls).wscRoutes.Ahead others key s ∧
      ∀ e ∈ trace Router.arrive x calls, e.call.routeKey = some key → e.answer = some s := by
  induction calls generalizing x with
  | nil => exact ⟨h, by simp⟩
  | cons c calls ih =>
    have hrest := fun c hc => hcalls c (mem_cons_of_mem _ hc)
    have hstep : (x.arrive c).2.wscRoutes.Ahead others key s ∧
        (c.routeKey = some key → (x.arrive c).1 = some s) := by
      rcases hcalls c mem_cons_self with hother | ⟨part, hpart, hkey, hfid, hlast⟩
      · refine ⟨?_, fun hkey => absurd hkey hother.routeKey⟩
        unfold Router.arrive
        cases hpart : c.wscFragment with
        | none => exact h
        | some part => exact wscSession_ahead h hfew (hother part hpart).1 (hother part hpart).2
      · have harrive : x.arrive c = (some s, x) := by
          simp [Router.arrive, hpart, Router.wscSession, hfid, hlast, hkey, h.get?]
        rw [harrive]
        exact ⟨h, fun _ => rfl⟩
    obtain ⟨hahead, hall⟩ := ih hstep.1 hrest
    refine ⟨hahead, fun e he => ?_⟩
    rcases mem_cons.mp he with rfl | he
    · exact hstep.2
    · exact hall e he

end Runs

/-! ## A message -/

section Message

variable {σ : Type} {destination source : Bytes} {mid : Nat} {relay : Bool} {tlvs : List Tlv}
  {frames : List Bytes} {groups : List (List Tlv)} {ingress : String} {calls : List Call}
  {others : List RouteKey}

/-- The fragments of a message arrive, each once and in any order, among those of at most two other
messages. -/
structure Arrives (ingress : String) (frames : List Bytes) (key : RouteKey) (others : List RouteKey)
    (calls : List Call) : Prop where
  own : ∀ c ∈ calls, c.routeKey = some key → ∃ i, c.Carries ingress frames i
  once : (fids key calls).Perm (List.range frames.length)
  other : ∀ c ∈ calls, ∀ k, c.routeKey = some k → k = key ∨ k ∈ others
  few : others.length ≤ 2
  apart : key ∉ others

variable {c : Call} (ha : Arrives ingress frames (source, mid) others calls)
  (hf : Fragmented destination source 9 mid relay tlvs frames groups)

include hf in
theorem Fragmented.fragment {i : Nat} (hc : c.Carries ingress frames i) :
    i < groups.length ∧ c.wscFragment = some (fragmentOf destination source 9 mid relay groups i) := by
  cases c with
  | expire now => cases hc
  | feed now opened ingress' frame =>
    have hi : i < groups.length := by
      rw [← hf.length]
      exact (List.getElem?_eq_some_iff.mp hc.2).1
    have hframe : frame = (fragmentOf destination source 9 mid relay groups i).octets :=
      some.inj (hc.2.symm.trans (hf.frame i hi))
    have hdecode := decodeFrame_octets (hf.fragment_wf i hi)
    refine ⟨hi, ?_⟩
    simp only [Call.wscFragment, hframe, hdecode]
    rfl

include ha hf in
theorem Arrives.fragment (hc : c ∈ calls) {i : Nat} (hi : c.fid (source, mid) = some i) :
    i < groups.length ∧ c.wscFragment = some (fragmentOf destination source 9 mid relay groups i) := by
  obtain ⟨part, hpart, hfid⟩ := bind_eq_some_iff.mp hi
  split at hfid
  · rename_i hkey
    obtain ⟨j, hj⟩ := ha.own c hc (by rw [Call.routeKey, hpart, map_some, hkey])
    obtain ⟨hlt, hfragment⟩ := hf.fragment hj
    obtain rfl : part = _ := some.inj (hpart.symm.trans hfragment)
    obtain rfl : j = i := some.inj hfid
    exact ⟨hlt, hfragment⟩
  · cases hfid

include ha in
theorem Arrives.otherCall (hc : c ∈ calls) (hnone : c.fid (source, mid) = none) :
    c.Other (source, mid) others := by
  intro part hpart
  have hne : part.routeKey ≠ (source, mid) := by
    intro hkey
    simp [Call.fid, hpart, hkey] at hnone
  refine ⟨(ha.other c hc part.routeKey (by rw [Call.routeKey, hpart]; rfl)).resolve_left hne, hne⟩

include hf in
theorem arrive_first (x : Router σ)
    (hc : c.wscFragment = some (fragmentOf destination source 9 mid relay groups 0)) :
    x.arrive c = (some (x.radio (ruidOf (groups.getD 0 []))),
      { x with
        wscRoutes :=
          if groups.length = 1 then x.wscRoutes.erase (source, mid)
          else (x.wscRoutes.recent 3).set (source, mid) (x.radio (ruidOf (groups.getD 0 []))) }) := by
  have hpos : 0 < groups.length := length_pos_iff.mpr hf.nonempty
  have hruid : (fragmentOf destination source 9 mid relay groups 0).ruid = ruidOf (groups.getD 0 []) := by
    rw [Fragment.ruid, hf.parse hpos]
  have hlast : (fragmentOf destination source 9 mid relay groups 0).last =
      decide (groups.length = 1) := by
    simp only [fragmentOf]
    rw [Bool.eq_iff_iff]
    simp only [beq_iff_eq, decide_eq_true_eq]
    omega
  simp only [Router.arrive, hc, Router.wscSession, hruid, hlast]
  simp [fragmentOf, Fragment.routeKey]

theorem arrive_later (x : Router σ) {i : Nat} (hi : i ≠ 0)
    (hc : c.wscFragment = some (fragmentOf destination source 9 mid relay groups i)) :
    x.arrive c = (some ((x.wscRoutes.get? (source, mid)).getD x.fronthaul),
      if i = groups.length - 1 then { x with wscRoutes := x.wscRoutes.erase (source, mid) } else x) := by
  simp only [Router.arrive, hc, Router.wscSession]
  simp [fragmentOf, Fragment.routeKey, hi]

theorem fids_append (key : RouteKey) (before after : List Call) :
    fids key (before ++ after) = fids key before ++ fids key after := filterMap_append

/-- The exchange is handed every fragment of the message. -/
def Handed (key : RouteKey) (s : σ) (entries : List (Dialogue.Entry Call (Option σ))) : Prop :=
  ∀ e ∈ entries, e.call.routeKey = some key → e.answer = some s

variable {entries : List (Dialogue.Entry Call (Option σ))}

theorem handed_append {key : RouteKey} {s : σ} {entries' : List (Entry Call (Option σ))} :
    Handed key s (entries ++ entries') ↔ Handed key s entries ∧ Handed key s entries' := by
  simp only [Handed, mem_append, or_imp, forall_and]

theorem handed_cons {key : RouteKey} {s : σ} {e : Entry Call (Option σ)} :
    Handed key s (e :: entries) ↔
      (e.call.routeKey = some key → e.answer = some s) ∧ Handed key s entries := by
  simp only [Handed, mem_cons, forall_eq_or_imp]

theorem handed_others {key : RouteKey} {s : σ} {x : Router σ}
    (h : ∀ c ∈ calls, c.Other key others) : Handed key s (trace Router.arrive x calls) :=
  fun _ he hkey => absurd hkey (h _ (call_mem he)).routeKey

include ha hf in
theorem not_handed_late {s : σ} {x : Router σ} (hs : s ≠ x.fronthaul)
    (hroute : x.wscRoutes.get? (source, mid) = none) {late : List Call}
    (hin : ∀ c ∈ late, c ∈ calls) {i : Nat} {rest : List Nat} (hi : i ≠ 0)
    (hfids : fids (source, mid) late = i :: rest) :
    ¬ Handed (source, mid) s (trace Router.arrive x late) := by
  obtain ⟨pre, c, post, rfl, hpre, hc, -⟩ := filterMap_eq_cons_iff.mp hfids
  intro h
  have hothers : ∀ c ∈ pre, c.Other (source, mid) others := fun c hc =>
    ha.otherCall (hin c (mem_append_left _ hc)) (hpre c hc)
  have hfragment := (ha.fragment hf (hin c (by simp)) hc).2
  rw [trace_append, handed_append, trace_cons, handed_cons] at h
  have hanswer := h.2.1 (by rw [Call.routeKey, hfragment]; rfl)
  rw [arrive_later _ hi hfragment, idle_after hroute hothers, (after_exchanges x pre).1] at hanswer
  exact hs (some.inj hanswer).symm

/-- The first fragment names the radio. -/
def namesRadio (frame : Bytes) : Bool :=
  match decodeFrame frame with
  | .ok part => part.ruid.isSome
  | .error _ => false

/-- The first fragment, which names the radio, arrives first, and the last arrives last. -/
structure InOrder (frames : List Bytes) (key : RouteKey) (calls : List Call) : Prop where
  named : frames.head?.any namesRadio = true
  first : (fids key calls).head? = some 0
  last : (fids key calls).getLast? = some (frames.length - 1)

include hf in
theorem Fragmented.namesRadio_iff :
    frames.head?.any namesRadio = true ↔ (ruidOf (groups.getD 0 [])).isSome = true := by
  have hpos : 0 < groups.length := length_pos_iff.mpr hf.nonempty
  have hdecode := decodeFrame_octets (hf.fragment_wf 0 hpos)
  rw [head?_eq_getElem?, hf.frame 0 hpos, any_some, namesRadio, hdecode]
  simp only [Fragment.ruid, hf.parse hpos]

include hf in
theorem Fragmented.ruid_first {ruid : Bytes} (hnames : ruidOf tlvs = some ruid)
    (hfirst : (ruidOf (groups.getD 0 [])).isSome = true) :
    ruidOf (groups.getD 0 []) = some ruid := by
  obtain ⟨group, rest, rfl⟩ := exists_cons_of_ne_nil hf.nonempty
  rw [← hf.flatten, flatten_cons, ruidOf, find?_append] at hnames
  simp only [getD_cons_zero, ruidOf, isSome_map] at hfirst ⊢
  obtain ⟨t, ht⟩ := isSome_iff_exists.mp hfirst
  rw [ht] at hnames ⊢
  exact hnames

include ha hf in
theorem Arrives.between {part : List Call} (hpart : ∀ c ∈ part, c ∈ calls)
    (hzero : 0 ∉ fids (source, mid) part) (hlast : groups.length - 1 ∉ fids (source, mid) part) :
    ∀ c ∈ part, c.Other (source, mid) others ∨ c.Middle (source, mid) := by
  intro c hc
  cases hfid : c.fid (source, mid) with
  | none => exact .inl (ha.otherCall (hpart c hc) hfid)
  | some i =>
    have hmem : i ∈ fids (source, mid) part := mem_filterMap.mpr ⟨c, hc, hfid⟩
    refine .inr ⟨_, (ha.fragment hf (hpart c hc) hfid).2, rfl, ?_, ?_⟩
    · exact fun hi => hzero ((show i = 0 from hi) ▸ hmem)
    · have hne : i ≠ groups.length - 1 := fun hi => hlast (hi ▸ hmem)
      simp [fragmentOf, hne]

include ha in
theorem Arrives.split {x : Router σ} (hroute : x.wscRoutes.get? (source, mid) = none) {i : Nat}
    {rest : List Nat} (hfids : fids (source, mid) calls = i :: rest) :
    ∃ pre c post, calls = pre ++ c :: post ∧ c.fid (source, mid) = some i ∧
      fids (source, mid) post = rest ∧ (∀ c ∈ pre, c.Other (source, mid) others) ∧
      (after Router.arrive x pre).wscRoutes.get? (source, mid) = none := by
  obtain ⟨pre, c, post, rfl, hpre, hc, hpost⟩ := filterMap_eq_cons_iff.mp hfids
  have hothers : ∀ c ∈ pre, c.Other (source, mid) others :=
    fun c hc => ha.otherCall (mem_append_left _ hc) (hpre c hc)
  exact ⟨pre, c, post, rfl, hc, hpost, hothers, idle_after hroute hothers⟩

variable {x : Router σ} {s : σ} {ruid : Bytes}

include hf in
theorem ahead_first (hroute : x.wscRoutes.get? (source, mid) = none) (hmany : groups.length ≠ 1)
    (hc : c.wscFragment = some (fragmentOf destination source 9 mid relay groups 0))
    (hradio : x.radio (ruidOf (groups.getD 0 [])) = s) (others : List RouteKey) :
    (x.arrive c).2.wscRoutes.Ahead others (source, mid) s := by
  rw [arrive_first hf x hc, hradio]
  simp only [if_neg hmany]
  exact Dict.ahead_set others s (Dict.get?_recent_none 3 hroute)

include ha hf in
/-- Along the route, the later fragments are handed on when the last is the last to arrive. -/
theorem handed_rest_iff (hs : s ≠ x.fronthaul) (hahead : x.wscRoutes.Ahead others (source, mid) s)
    {post : List Call} (hin : ∀ c ∈ post, c ∈ calls) (hzero : 0 ∉ fids (source, mid) post)
    (hnodup : (fids (source, mid) post).Nodup)
    (hmem : groups.length - 1 ∈ fids (source, mid) post) :
    Handed (source, mid) s (trace Router.arrive x post) ↔
      (fids (source, mid) post).getLast? = some (groups.length - 1) := by
  have hne : groups.length - 1 ≠ 0 := fun he => hzero (he ▸ hmem)
  obtain ⟨a, b, hfids⟩ := append_of_mem hmem
  obtain ⟨p₁, p₂, rfl, hp₁, hp₂⟩ := filterMap_eq_append_iff.mp hfids
  obtain ⟨p₃, c, late, rfl, hp₃, hc, hlate⟩ := filterMap_eq_cons_iff.mp hp₂
  rw [hfids] at hnodup hzero ⊢
  have hall := nodup_append.mp hnodup
  -- Up to the last fragment the route holds.
  have hearly : fids (source, mid) (p₁ ++ p₃) = a := by
    rw [fids_append, show fids (source, mid) p₁ = a from hp₁,
      show fids (source, mid) p₃ = [] from filterMap_eq_nil_iff.mpr hp₃, append_nil]
  have hbetween : ∀ c ∈ p₁ ++ p₃, c.Other (source, mid) others ∨ c.Middle (source, mid) := ha.between hf
    (fun c hc => hin c (by rcases mem_append.mp hc with hc | hc <;> simp [hc]))
    (by rw [hearly]; exact fun h0 => hzero (mem_append_left _ h0))
    (by rw [hearly]; exact fun hl => hall.2.2 _ hl _ mem_cons_self rfl)
  obtain ⟨hroute, hhanded⟩ := routed_after hahead ha.few hbetween
  have hcin : c ∈ calls := hin c (by simp)
  have hfragment := (ha.fragment hf hcin hc).2
  -- With it the route ends.
  have harrive := arrive_later (after Router.arrive x (p₁ ++ p₃)) hne hfragment
  rw [if_pos rfl, hroute.get?] at harrive
  have hlast : Handed (source, mid) s (trace Router.arrive x (p₁ ++ (p₃ ++ c :: late))) ↔
      Handed (source, mid) s (trace Router.arrive
        (Router.arrive (after Router.arrive x (p₁ ++ p₃)) c).2 late) := by
    rw [← append_assoc, trace_append, handed_append, trace_cons, handed_cons,
      harrive]
    exact ⟨fun h => h.2.2, fun h => ⟨hhanded, fun _ => rfl, h⟩⟩
  rw [hlast, harrive]
  cases b with
  | nil =>
    have hothers : ∀ c ∈ late, c.Other (source, mid) others := fun c hc =>
      ha.otherCall (hin c (by simp [hc])) (filterMap_eq_nil_iff.mp hlate c hc)
    exact iff_of_true (handed_others hothers) (by simp)
  | cons j b =>
    have hj : j ≠ 0 := fun h0 => hzero (h0 ▸ by simp)
    refine iff_of_false ?_ fun hgot => ?_
    · refine not_handed_late ha hf ?_ (Dict.get?_erase_self _ _) (fun c hc => hin c (by simp [hc])) hj
        hlate
      rw [(after_exchanges x (p₁ ++ p₃)).1]
      exact hs
    · rw [getLast?_append, getLast?_cons_cons] at hgot
      have hin' : groups.length - 1 ∈ j :: b := by
        cases hb : (j :: b).getLast? with
        | none => simp at hb
        | some last =>
          rw [hb] at hgot
          obtain rfl : last = _ := some.inj hgot
          exact mem_of_getLast? hb
      exact (nodup_cons.mp hall.2.1).1 hin'

include ha hf in
theorem Arrives.rest {rest : List Nat} (hfids : fids (source, mid) calls = 0 :: rest) :
    0 ∉ rest ∧ rest.Nodup ∧ (groups.length = 1 → rest = []) ∧
      (groups.length ≠ 1 → groups.length - 1 ∈ rest) := by
  have hnodup : (fids (source, mid) calls).Nodup := ha.once.nodup_iff.mpr nodup_range
  have hlen := ha.once.length_eq
  have hmem : groups.length - 1 ∈ fids (source, mid) calls := by
    rw [ha.once.mem_iff, mem_range, hf.length]
    have hpos : 0 < groups.length := length_pos_iff.mpr hf.nonempty
    omega
  rw [hfids] at hnodup hlen hmem
  rw [length_cons, length_range, hf.length] at hlen
  refine ⟨(nodup_cons.mp hnodup).1, (nodup_cons.mp hnodup).2, fun hone => ?_, fun hmany => ?_⟩
  · exact length_eq_zero_iff.mp (by omega)
  · exact (mem_cons.mp hmem).resolve_left (by omega)

include ha hf in
/-- Where the first fragment arrives first, the exchange is handed them all when it is the one of the
radio named there, and the last fragment arrives last. -/
theorem handed_first_iff (hs : s ≠ x.fronthaul) (hroute : x.wscRoutes.get? (source, mid) = none)
    {rest : List Nat} (hfids : fids (source, mid) calls = 0 :: rest) :
    Handed (source, mid) s (trace Router.arrive x calls) ↔
      x.radio (ruidOf (groups.getD 0 [])) = s ∧
        (fids (source, mid) calls).getLast? = some (groups.length - 1) := by
  obtain ⟨hzero, hnodup, hone, hmany⟩ := ha.rest hf hfids
  obtain ⟨pre, c, post, hcalls, hc, hpost, hpre, hidle⟩ := ha.split hroute hfids
  have hin : ∀ c ∈ post, c ∈ calls := fun c hc => by rw [hcalls]; simp [hc]
  have hfragment := (ha.fragment hf (by rw [hcalls]; simp) hc).2
  have hkey : c.routeKey = some (source, mid) := by rw [Call.routeKey, hfragment]; rfl
  have hradio : (after Router.arrive x pre).radio (ruidOf (groups.getD 0 [])) =
      x.radio (ruidOf (groups.getD 0 [])) := by
    rw [Router.radio, (after_exchanges x pre).1, (after_exchanges x pre).2, Router.radio]
  have hanswer : (Router.arrive (after Router.arrive x pre) c).1 =
      some (x.radio (ruidOf (groups.getD 0 []))) := by rw [arrive_first hf _ hfragment, hradio]
  have hrest (hsession : x.radio (ruidOf (groups.getD 0 [])) = s) :
      Handed (source, mid) s (trace Router.arrive
        (Router.arrive (after Router.arrive x pre) c).2 post) ↔
        (fids (source, mid) calls).getLast? = some (groups.length - 1) := by
    rw [hfids]
    by_cases hlen : groups.length = 1
    · refine iff_of_true (handed_others fun c hc => ha.otherCall (hin c hc) ?_) ?_
      · exact filterMap_eq_nil_iff.mp (hpost.trans (hone hlen)) c hc
      · rw [hone hlen, hlen]
        rfl
    · rw [handed_rest_iff ha hf _
        (ahead_first hf hidle hlen hfragment (hradio.trans hsession) others) hin
        (hpost ▸ hzero) (hpost ▸ hnodup) (hpost ▸ hmany hlen), hpost]
      · obtain ⟨j, rest, rfl⟩ := exists_cons_of_ne_nil (ne_nil_of_mem (hmany hlen))
        rw [getLast?_cons_cons]
      · rw [(arrive_exchanges _ c).1, (after_exchanges x pre).1]
        exact hs
  have hsplit : Handed (source, mid) s (trace Router.arrive x calls) ↔
      x.radio (ruidOf (groups.getD 0 [])) = s ∧ Handed (source, mid) s (trace Router.arrive
        (Router.arrive (after Router.arrive x pre) c).2 post) := by
    rw [hcalls, trace_append, handed_append, trace_cons, handed_cons]
    simp only [hkey, hanswer, some.injEq, forall_const, handed_others hpre, true_and]
  rw [hsplit]
  exact and_congr_right hrest

include ha hf in
theorem handed_of_inOrder (hradio : x.radioSessions.get? ruid = some s) (hs : s ≠ x.fronthaul)
    (hnames : ruidOf tlvs = some ruid) (hroute : x.wscRoutes.get? (source, mid) = none)
    (h : InOrder frames (source, mid) calls) :
    Handed (source, mid) s (trace Router.arrive x calls) := by
  obtain ⟨rest, hfids⟩ := head?_eq_some_iff.mp h.first
  refine (handed_first_iff ha hf hs hroute hfids).mpr ⟨?_, hf.length ▸ h.last⟩
  rw [hf.ruid_first hnames (hf.namesRadio_iff.mp h.named), Router.radio]
  simp [hradio]

include ha hf in
theorem inOrder_of_handed (hs : s ≠ x.fronthaul) (hroute : x.wscRoutes.get? (source, mid) = none)
    (h : Handed (source, mid) s (trace Router.arrive x calls)) :
    InOrder frames (source, mid) calls := by
  have hpos : 0 < groups.length := length_pos_iff.mpr hf.nonempty
  have hne : fids (source, mid) calls ≠ [] := by
    intro hnil
    have hlen := ha.once.length_eq
    rw [hnil, hf.length] at hlen
    simp at hlen
    omega
  obtain ⟨i, rest, hfids⟩ := exists_cons_of_ne_nil hne
  obtain rfl : i = 0 := by
    by_contra hi
    exact not_handed_late ha hf hs hroute (fun _ hc => hc) hi hfids h
  obtain ⟨hsession, hlast⟩ := (handed_first_iff ha hf hs hroute hfids).mp h
  refine ⟨?_, by rw [hfids]; rfl, hf.length.symm ▸ hlast⟩
  rw [hf.namesRadio_iff]
  by_contra hnone
  rw [Bool.not_eq_true, isSome_eq_false_iff, isNone_iff_eq_none] at hnone
  rw [hnone] at hsession
  exact hs hsession.symm

/-! ## Reassembly -/

include hf in
theorem Fragmented.fid_carries {i : Nat} (hc : c.Carries ingress frames i) :
    c.fid (source, mid) = some i := by
  rw [Call.fid, (hf.fragment hc).2]
  simp [fragmentOf, Fragment.routeKey]

theorem routeKey_of_fid {key : RouteKey} {i : Nat} (h : c.fid key = some i) :
    c.routeKey = some key := by
  obtain ⟨part, hpart, hfid⟩ := bind_eq_some_iff.mp h
  split at hfid
  · rename_i hkey
    rw [Call.routeKey, hpart, map_some, hkey]
  · cases hfid

theorem routeKey_of_context (h : c.context = some ⟨ingress, source, destination, 9, mid⟩) :
    c.routeKey = some (source, mid) := by
  cases c with
  | expire now => cases h
  | feed now opened ingress' frame =>
    simp only [Call.context, receive] at h
    cases hdecode : decodeFrame frame with
    | error e => simp [hdecode, bind, Except.bind] at h
    | ok part =>
      simp only [hdecode, bind, Except.bind] at h
      split at h
      · rename_i hok
        split at hok
        · cases hok
        · obtain rfl := Except.ok.inj hok
          have hkey := some.inj h
          simp only [Fragment.key, Key.mk.injEq] at hkey
          simp [Call.routeKey, Call.wscFragment, hdecode, hkey.2.2.2.1, Fragment.routeKey, hkey.2.1,
            hkey.2.2.2.2]
      · cases h

variable [DecidableEq σ]

theorem fids_handedTo {key : RouteKey} (h : Handed key s entries) :
    fids key (handedTo s entries) = fids key (entries.map Entry.call) := by
  induction entries with
  | nil => rfl
  | cons e entries ih =>
    rw [handed_cons] at h
    have hih := ih h.2
    simp only [handedTo, fids] at hih ⊢
    rw [map_cons, filterMap_cons]
    cases hfid : e.call.fid key with
    | none =>
      rw [filter_cons]
      split
      · rw [map_cons, filterMap_cons, hfid]
        exact hih
      · exact hih
    | some i =>
      rw [filter_cons_of_pos (by simp [h.1 (routeKey_of_fid hfid)]), map_cons,
        filterMap_cons, hfid]
      exact congrArg _ hih

include ha hf in
theorem Arrives.schedule (h : Handed (source, mid) s (trace Router.arrive x calls))
    {r : Reassembler}
    (hr : Budgets ingress frames r (handedTo s (trace Router.arrive x calls))) :
    Schedule ingress frames r ⟨ingress, source, destination, 9, mid⟩
      (handedTo s (trace Router.arrive x calls)) := by
  have hfids := fids_handedTo h
  rw [map_call_trace] at hfids
  generalize hcs : handedTo s (trace Router.arrive x calls) = cs at hfids hr ⊢
  have hin : ∀ c ∈ cs, c ∈ calls := by
    intro c hc
    rw [← hcs] at hc
    obtain ⟨e, he, rfl⟩ := mem_map.mp hc
    exact call_mem (mem_filter.mp he).1
  refine { hr with own_or_other := ?_, all_fed := ?_, repeats := ?_ }
  · intro c hc
    by_cases hctx : c.context = some ⟨ingress, source, destination, 9, mid⟩
    · exact .inl (ha.own c (hin c hc) (routeKey_of_context hctx))
    · exact .inr hctx
  · intro i hi
    have hmem : i ∈ fids (source, mid) cs := by
      rw [hfids, ha.once.mem_iff, mem_range]
      exact hi
    obtain ⟨c, hc, hfid⟩ := mem_filterMap.mp hmem
    obtain ⟨j, hj⟩ := ha.own c (hin c hc) (routeKey_of_fid hfid)
    obtain rfl : j = i := some.inj ((hf.fid_carries hj).symm.trans hfid)
    exact ⟨c, hc, hj⟩
  · -- Each fragment arrives once.
    intro n c i hc hi hcov
    have hlt : i < frames.length := by
      rw [hf.length]
      exact (hf.fragment hi).1
    obtain ⟨c', hc', hi'⟩ := hcov i hlt
    have hnodup : (fids (source, mid) cs).Nodup := by
      rw [hfids]
      exact ha.once.nodup_iff.mpr nodup_range
    rw [← take_append_drop n cs, fids_append] at hnodup
    have hdrop : c ∈ cs.drop n := by
      obtain ⟨hn, rfl⟩ := List.getElem?_eq_some_iff.mp hc
      rw [drop_eq_getElem_cons hn]
      exact mem_cons_self
    exact (nodup_append.mp hnodup).2.2 i (mem_filterMap.mpr ⟨c', hc', hf.fid_carries hi'⟩) i
      (mem_filterMap.mpr ⟨c, hdrop, hf.fid_carries hi⟩) rfl

/-- The fragments of an M2 for a further radio, in any order among those of at most two other
messages. They all reach the radio's exchange exactly when the first arrives first, names the radio,
and the last arrives last; in time and within the budgets, its reassembler then delivers the
message. -/
theorem handed_iff (x : Router σ) (s : σ) (ruid : Bytes)
    (hradio : x.radioSessions.get? ruid = some s) (hs : s ≠ x.fronthaul)
    (hmessage : ∃ groups, Fragmented destination source 9 mid relay tlvs frames groups)
    (hnames : ruidOf tlvs = some ruid) (hroute : x.wscRoutes.get? (source, mid) = none)
    (ha : Arrives ingress frames (source, mid) others calls) :
    (Handed (source, mid) s (Dialogue.trace Router.arrive x calls) ↔
      InOrder frames (source, mid) calls) ∧
    (InOrder frames (source, mid) calls → ∀ r : Reassembler,
      r.contexts.get? ⟨ingress, source, destination, 9, mid⟩ = none →
      Budgets ingress frames r (handedTo s (Dialogue.trace Router.arrive x calls)) →
      ∃ n, r.replyAt (handedTo s (Dialogue.trace Router.arrive x calls)) n =
        some (.fed (.ok (some ⟨destination, source, 9, mid, relay, tlvs, frames.length⟩)))) := by
  obtain ⟨groups, hf⟩ := hmessage
  have hall : InOrder frames (source, mid) calls →
      Handed (source, mid) s (trace Router.arrive x calls) :=
    handed_of_inOrder ha hf hradio hs hnames hroute
  refine ⟨⟨inOrder_of_handed ha hf hs hroute, hall⟩, fun h r hnew hr => ?_⟩
  obtain ⟨n, c, -, -, -, hreply⟩ := (ha.schedule hf (hall h) hr).delivers hf hnew
  exact ⟨n, hreply⟩

end Message

/-! ## An M2 of three fragments -/

def m2Tlvs : List Tlv :=
  [⟨ruidType, [2, 0, 0, 0, 0, 9]⟩, ⟨0x11, [1, 1, 1, 1, 1, 1]⟩, ⟨0x11, [2, 2, 2, 2, 2, 2]⟩]

def m2Frames : List Bytes :=
  (fragmentMessage [2, 0, 0, 0, 0, 1] [2, 0, 0, 0, 0, 2] 9 7 m2Tlvs false 20).toOption.getD []

def m2Key : RouteKey := ([2, 0, 0, 0, 0, 2], 7)

/-- The fronthaul's exchange is 0, the further radio's 1. -/
def m2Router : Router Nat where
  fronthaul := 0
  radioSessions := (∅ : Dict Bytes Nat).set [2, 0, 0, 0, 0, 9] 1

def m2Call (i : Nat) : Call := .feed 0 0 "eth0" (m2Frames.getD i [])

theorem m2_fragmented : ∃ groups,
    Fragmented [2, 0, 0, 0, 0, 1] [2, 0, 0, 0, 0, 2] 9 7 false m2Tlvs m2Frames groups := by
  have hframes : fragmentMessage [2, 0, 0, 0, 0, 1] [2, 0, 0, 0, 0, 2] 9 7 m2Tlvs false 20 =
      .ok m2Frames := by decide +kernel
  exact fragmentMessage_spec hframes

theorem m2_arrives {calls : List Call} {others : List RouteKey}
    (hcalls : ∀ c ∈ calls, c ∈ (List.range 3).map m2Call ∨ ∃ k ∈ others, c.routeKey = some k)
    (honce : (fids m2Key calls).Perm (List.range 3)) (hfew : others.length ≤ 2)
    (hapart : m2Key ∉ others) : Arrives "eth0" m2Frames m2Key others calls := by
  have hkey : ∀ i, i < 3 → (m2Call i).routeKey = some m2Key := by decide +kernel
  have hlen : m2Frames.length = 3 := by decide +kernel
  refine ⟨fun c hc hown => ?_, by rwa [hlen], fun c hc k hk => ?_, hfew, hapart⟩ <;>
    rcases hcalls c hc with hc | ⟨k', hk', hroute⟩
  · obtain ⟨i, hi, rfl⟩ := mem_map.mp hc
    refine ⟨i, rfl, ?_⟩
    have hi : i < m2Frames.length := hlen ▸ mem_range.mp hi
    rw [getElem?_eq_getElem hi, getD_eq_getElem _ _ hi]
  · cases hroute.symm.trans hown
    exact absurd hk' hapart
  · obtain ⟨i, hi, rfl⟩ := mem_map.mp hc
    exact .inl (some.inj (hk.symm.trans (hkey i (mem_range.mp hi))))
  · exact .inr (some.inj (hroute.symm.trans hk) ▸ hk')

/-- In order, with a fragment of another message between them. -/
def m2InOrder : List Call :=
  [m2Call 0, .feed 0 0 "eth0" (Reassembler.sampleFrame 8 0 0 1), m2Call 1, m2Call 2]

/-- All three reach the radio's exchange, and its reassembler delivers the message. -/
theorem handed_in_order :
    let entries := Dialogue.trace Router.arrive m2Router m2InOrder
    Handed m2Key 1 entries ∧
      ∃ n, ({ limits := defaultLimits } : Reassembler).replyAt (handedTo 1 entries) n =
        some (.fed (.ok (some ⟨[2, 0, 0, 0, 0, 1], [2, 0, 0, 0, 0, 2], 9, 7, false, m2Tlvs, 3⟩))) := by
  have ha : Arrives "eth0" m2Frames m2Key [([2, 0, 0, 0, 0, 2], 8)] m2InOrder :=
    m2_arrives (by decide +kernel) (by decide +kernel) (by decide) (by decide)
  have horder : InOrder m2Frames m2Key m2InOrder :=
    ⟨by decide +kernel, by decide +kernel, by decide +kernel⟩
  obtain ⟨hiff, hdelivers⟩ := handed_iff m2Router 1 [2, 0, 0, 0, 0, 9] (by decide +kernel) (by decide)
    m2_fragmented (by decide +kernel) rfl ha
  exact ⟨hiff.mpr horder, hdelivers horder { limits := defaultLimits } rfl
    (.of_bounded (by decide +kernel) (by decide +kernel) (by decide +kernel))⟩

/-- The last fragment before the middle one, which then goes to the fronthaul. -/
theorem handed_last_early :
    (∃ groups, Fragmented [2, 0, 0, 0, 0, 1] [2, 0, 0, 0, 0, 2] 9 7 false m2Tlvs m2Frames groups) ∧
    Arrives "eth0" m2Frames m2Key [] ([0, 2, 1].map m2Call) ∧
    m2Router.wscRoutes.get? m2Key = none ∧
    (m2Router.radioSessions.get? [2, 0, 0, 0, 0, 9] = some 1 ∧ ruidOf m2Tlvs = some [2, 0, 0, 0, 0, 9]) ∧
    (Dialogue.trace Router.arrive m2Router ([0, 2, 1].map m2Call)).map Dialogue.Entry.answer =
      [some 1, some 1, some m2Router.fronthaul] :=
  ⟨m2_fragmented, m2_arrives (by decide +kernel) (by decide +kernel) (by decide) (by decide), rfl,
    by decide +kernel, by decide +kernel⟩

end Emosa.Wire
