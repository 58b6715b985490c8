import Emosa.Lib.Durable
import Emosa.Lib.Forest
import Mathlib.Data.Rat.Defs
import Mathlib.Data.List.FinRange

/-!
# Emosa.Fleet.Peers

The agents of a fleet, as they know each other. Each publishes a status; each reads the others'
statuses, at most once a second, and checks a move of its pod against what it read: `loops` follows
the chain of upstream pods from the target.
-/

namespace Emosa.Peers

open Durable Forest List Relation

/-- Six bytes, as a number. -/
abbrev MacAddr := Nat

/-- What of a status the check reads. -/
structure Peer where
  al : MacAddr
  backhaulBsses : List MacAddr
  parent : Option MacAddr
  deriving DecidableEq

/-- The peer one of whose backhaul BSSes is `parent`. -/
def upstream (peers : List Peer) (parent : MacAddr) : Option Peer :=
  peers.find? fun p => decide (parent ∈ p.backhaulBsses)

/-- The chain from `bssid` on, the peers in `seen` already passed. -/
def loopsFrom (peers : List Peer) (ownAl : MacAddr) (ownBsses : List MacAddr) :
    Nat → List MacAddr → Option MacAddr → Bool
  | _, _, none => false
  | 0, _, some _ => true
  | fuel + 1, seen, some bssid =>
    if bssid ∈ ownBsses then true
    else
      match upstream peers bssid with
      | none => false
      | some owner =>
        if owner.al = ownAl ∨ owner.al ∈ seen then true
        else loopsFrom peers ownAl ownBsses fuel (owner.al :: seen) owner.parent

/-- An upstream `target` would put a loop into `br-home`. Every turn passes a peer not passed before. -/
def loops (peers : List Peer) (ownAl : MacAddr) (ownBsses : List MacAddr) (target : MacAddr) : Bool :=
  loopsFrom peers ownAl ownBsses (peers.length + 1) [] (some target)

section Fuel

variable {peers : List Peer} {ownAl : MacAddr} {ownBsses : List MacAddr}

def unseen (peers : List Peer) (seen : List MacAddr) : List Peer := peers.filter fun p => p.al ∉ seen

theorem length_unseen_cons {seen : List MacAddr} {owner : Peer} (hmem : owner ∈ peers)
    (hnew : owner.al ∉ seen) :
    (unseen peers (owner.al :: seen)).length < (unseen peers seen).length := by
  have hsub : unseen peers (owner.al :: seen) = (unseen peers seen).filter fun p => p.al ≠ owner.al := by
    rw [unseen, unseen]
    simp
  rw [hsub]
  refine length_filter_lt_length_iff_exists.mpr ⟨owner, ?_, by simp⟩
  exact mem_filter.mpr ⟨hmem, by simpa using hnew⟩

/-- The loop for `fuel` turns, with no answer while it still runs. -/
def walk (peers : List Peer) (ownAl : MacAddr) (ownBsses : List MacAddr) :
    Nat → List MacAddr → Option MacAddr → Option Bool
  | _, _, none => some false
  | 0, _, some _ => none
  | fuel + 1, seen, some bssid =>
    if bssid ∈ ownBsses then some true
    else
      match upstream peers bssid with
      | none => some false
      | some owner =>
        if owner.al = ownAl ∨ owner.al ∈ seen then some true
        else walk peers ownAl ownBsses fuel (owner.al :: seen) owner.parent

theorem loopsFrom_eq (fuel : Nat) (seen : List MacAddr) (bssid : Option MacAddr) :
    loopsFrom peers ownAl ownBsses fuel seen bssid =
      (walk peers ownAl ownBsses fuel seen bssid).getD true := by
  induction fuel generalizing seen bssid with
  | zero => cases bssid <;> rfl
  | succ fuel ih =>
    cases bssid with
    | none => rfl
    | some bssid =>
      rw [loopsFrom, walk]
      split
      · rfl
      · split
        · rfl
        · split
          · rfl
          · exact ih _ _

end Fuel

section Exact

/-- `owner` is the peer with the backhaul BSS `b`. -/
def Owns (peers : List Peer) (owner : Peer) (b : MacAddr) : Prop :=
  owner ∈ peers ∧ b ∈ owner.backhaulBsses

/-- From a BSS to the one its owner is connected to. -/
def Leads (peers : List Peer) (b c : MacAddr) : Prop := ∃ owner, Owns peers owner b ∧ owner.parent = some c

/-- A BSS at which the way comes to the pod itself, or to an owner passed before or passed again. -/
def Closes (peers : List Peer) (ownAl : MacAddr) (ownBsses seen : List MacAddr) (b : MacAddr) : Prop :=
  b ∈ ownBsses ∨ ∃ owner, Owns peers owner b ∧
    (owner.al = ownAl ∨ owner.al ∈ seen ∨ ∃ c, TransGen (Leads peers) b c ∧ Owns peers owner c)

/-- Distinct addresses, and no BSS with two owners. -/
structure Complete (peers : List Peer) : Prop where
  als : (peers.map Peer.al).Nodup
  bsses : ∀ p ∈ peers, ∀ q ∈ peers, p ≠ q → p.backhaulBsses.Disjoint q.backhaulBsses

variable {peers : List Peer} {ownAl : MacAddr} {ownBsses seen : List MacAddr} {owner : Peer} {b : MacAddr}

theorem Complete.same (hc : Complete peers) {p q : Peer} (hp : Owns peers p b) (hq : Owns peers q b) :
    p = q := by
  by_contra hne
  exact hc.bsses p hp.1 q hq.1 hne hp.2 hq.2

theorem owns_of_upstream (h : upstream peers b = some owner) : Owns peers owner b :=
  ⟨mem_of_find?_eq_some h, by simpa using find?_some h⟩

theorem leads_iff (hc : Complete peers) (ho : Owns peers owner b) {c : MacAddr} :
    Leads peers b c ↔ owner.parent = some c := by
  refine ⟨fun ⟨p, hp, hparent⟩ => ?_, fun h => ⟨owner, ho, h⟩⟩
  rwa [hc.same ho hp]

/-- Past an owner not met before, with its address noted, the rest of the way decides. -/
theorem closes_on (hc : Complete peers) (ho : Owns peers owner b) (hb : b ∉ ownBsses)
    (hnew : ¬ (owner.al = ownAl ∨ owner.al ∈ seen)) :
    (∃ c ∈ owner.parent, ∃ d, ReflTransGen (Leads peers) c d ∧
        Closes peers ownAl ownBsses (owner.al :: seen) d) ↔
      ∃ d, ReflTransGen (Leads peers) b d ∧ Closes peers ownAl ownBsses seen d := by
  constructor
  · rintro ⟨c, hparent, d, hcd, hd⟩
    have hbd : TransGen (Leads peers) b d := .head' ((leads_iff hc ho).mpr hparent) hcd
    rcases hd with hd | ⟨p, hp, hd⟩
    · exact ⟨d, hbd.to_reflTransGen, .inl hd⟩
    by_cases hal : p.al = owner.al
    · obtain rfl := inj_on_of_nodup_map hc.als hp.1 ho.1 hal
      exact ⟨b, .refl, .inr ⟨p, ho, .inr (.inr ⟨d, hbd, hp⟩)⟩⟩
    · simp only [mem_cons, hal, false_or] at hd
      exact ⟨d, hbd.to_reflTransGen, .inr ⟨p, hp, hd⟩⟩
  · rintro ⟨d, hbd, hd⟩
    rcases hbd.cases_head with rfl | ⟨c, hbc, hcd⟩
    · rcases hd with hd | ⟨p, hp, hd⟩
      · exact absurd hd hb
      · obtain rfl := hc.same ho hp
        rw [← or_assoc, or_iff_right hnew] at hd
        obtain ⟨e, hbe, he⟩ := hd
        obtain ⟨c, hbc, hce⟩ := TransGen.head'_iff.mp hbe
        exact ⟨c, (leads_iff hc ho).mp hbc, e, hce, .inr ⟨owner, he, .inr (.inl (mem_cons_self ..))⟩⟩
    · refine ⟨c, (leads_iff hc ho).mp hbc, d, hcd, hd.imp_right ?_⟩
      rintro ⟨p, hp, hd⟩
      exact ⟨p, hp, hd.imp_right (Or.imp_left (mem_cons_of_mem _))⟩

variable (ownAl ownBsses) in
/-- With a turn for every owner not passed, the loop ends and answers for the rest of the way. -/
theorem walk_exact (hc : Complete peers) {fuel : Nat} (seen : List MacAddr) (bssid : Option MacAddr)
    (hfuel : (unseen peers seen).length < fuel) :
    ∃ r, walk peers ownAl ownBsses fuel seen bssid = some r ∧
      (r = true ↔ ∃ b ∈ bssid, ∃ d, ReflTransGen (Leads peers) b d ∧
        Closes peers ownAl ownBsses seen d) := by
  induction fuel generalizing seen bssid with
  | zero => omega
  | succ fuel ih =>
    cases bssid with
    | none => exact ⟨false, rfl, by simp⟩
    | some b =>
      simp only [walk, Option.mem_some_iff, exists_eq_left']
      split
      · rename_i hb
        exact ⟨true, rfl, iff_of_true rfl ⟨b, .refl, .inl hb⟩⟩
      rename_i hb
      split
      · rename_i hnone
        have hno : ∀ p, ¬ Owns peers p b := by
          intro p hp
          simpa [hp.2] using find?_eq_none.mp hnone p hp.1
        refine ⟨false, rfl, iff_of_false Bool.false_ne_true ?_⟩
        rintro ⟨d, hbd, hd⟩
        rcases hbd.cases_head with rfl | ⟨c, ⟨p, hp, -⟩, -⟩
        · rcases hd with hd | ⟨p, hp, -⟩
          · exact hb hd
          · exact hno p hp
        · exact hno p hp
      · rename_i owner howner
        have ho := owns_of_upstream howner
        split
        · rename_i hmet
          refine ⟨true, rfl, iff_of_true rfl ⟨b, .refl, .inr ⟨owner, ho, ?_⟩⟩⟩
          exact hmet.imp_right .inl
        · rename_i hnew
          rw [← closes_on hc ho hb hnew]
          refine ih _ _ ?_
          have := length_unseen_cons ho.1 fun hmem => hnew (.inr hmem)
          omega

/-- The check is exact, and one turn more than there are peers is enough for it. -/
theorem loops_exact (hc : Complete peers) (ownAl : MacAddr) (ownBsses : List MacAddr) (target : MacAddr) :
    walk peers ownAl ownBsses (peers.length + 1) [] (some target) =
        some (loops peers ownAl ownBsses target) ∧
      (loops peers ownAl ownBsses target = true ↔
        ∃ b, ReflTransGen (Leads peers) target b ∧
          (b ∈ ownBsses ∨ ∃ owner, Owns peers owner b ∧
            (owner.al = ownAl ∨ ∃ c, TransGen (Leads peers) b c ∧ Owns peers owner c))) := by
  have hfuel : (unseen peers []).length < peers.length + 1 := Nat.lt_succ_of_le (length_filter_le _ _)
  obtain ⟨r, hr, hiff⟩ := walk_exact ownAl ownBsses hc [] (some target) hfuel
  rw [loops, loopsFrom_eq, hr]
  simpa [Closes] using hiff

/-- Two pods in a circle and one behind them. -/
def circle : List Peer := [⟨1, [10], some 20⟩, ⟨2, [20], some 10⟩, ⟨3, [30], some 10⟩]

theorem loops_circle : loops circle 9 [90] 30 = true ∧
    ∃ b, ReflTransGen (Leads circle) 30 b ∧
      (b ∈ [90] ∨ ∃ owner, Owns circle owner b ∧
        (owner.al = 9 ∨ ∃ c, TransGen (Leads circle) b c ∧ Owns circle owner c)) := by
  have hc : Complete circle := ⟨by decide, by simp [circle]⟩
  exact ⟨by decide, (loops_exact hc 9 [90] 30).2.mp (by decide)⟩

end Exact

end Emosa.Peers
