import Emosa.Fleet.Peers

/-!
# Emosa.Fleet.Moves

The pods of a fleet, moved by their agents. `World.up` is the relation the moves must keep without a
circle: a pod's backhaul station is on a backhaul BSS of another pod.

`not_reaches_of_allowed`: a check against statuses that show the pods above the target as they are
finds every circle. `moves_stay_acyclic`: so no circle comes about as long as each move onto a pod is
checked against such statuses and no other is under way.
-/

namespace Emosa.Peers

open Durable Forest Relation

/-- `macs`: every MAC address a pod's own interfaces use; `bsses`: those of its backhaul BSSes. -/
structure Pods (n : Nat) where
  al : Fin n → MacAddr
  macs : Fin n → List MacAddr
  bsses : Fin n → List MacAddr
  bsses_macs : ∀ i, ∀ b ∈ bsses i, b ∈ macs i
  macs_apart : ∀ i j, ∀ b ∈ macs i, b ∈ macs j → i = j

/-- The pod with the backhaul BSS. -/
def Pods.owner {n : Nat} (P : Pods n) (b : MacAddr) : Option (Fin n) :=
  (List.finRange n).find? fun j => decide (b ∈ P.bsses j)

/-- `parent`: the BSS each pod's backhaul station is on. `pending`: a move submitted and not yet
applied. `cache`, `readAt`: the statuses each agent read last, and when. -/
structure World (n : Nat) where
  parent : Fin n → Option MacAddr
  now : ℚ := 0
  pending : Fin n → Option MacAddr := fun _ => none
  status : Fin n → Option Peer := fun _ => none
  cache : Fin n → List Peer := fun _ => []
  readAt : Fin n → Option ℚ := fun _ => none

def refresh : ℚ := 1

inductive Action (n : Nat) where
  | advance (seconds : ℚ) (nonneg : 0 ≤ seconds)
  | publish (i : Fin n)
  | look (i : Fin n)
  | submit (i : Fin n) (target : MacAddr)
  | apply (i : Fin n)

namespace World

variable {n : Nat} (P : Pods n) (w : World n)

/-- What a status of the pod says now. -/
def present (i : Fin n) : Peer := ⟨P.al i, P.bsses i, w.parent i⟩

def fresh (i : Fin n) : Bool := (w.readAt i).any fun t => decide (w.now - t < refresh)

def statuses (i : Fin n) : List Peer :=
  (List.finRange n).filterMap fun j => if j = i then none else w.status j

/-- The directory: what was read less than a second ago, or the statuses read now. -/
def peers (i : Fin n) : List Peer := if w.fresh i then w.cache i else w.statuses i

def look (i : Fin n) : World n :=
  { w with
    cache := Function.update w.cache i (w.peers i)
    readAt := if w.fresh i then w.readAt else Function.update w.readAt i (some w.now) }

/-- The backend's check of a move. -/
def allowed (i : Fin n) (target : MacAddr) : Bool :=
  decide (target ∉ P.macs i) && !loops (w.peers i) (P.al i) (P.macs i) target

def step (w : World n) : Action n → World n
  | .advance seconds _ => { w with now := w.now + seconds }
  | .publish i => { w with status := Function.update w.status i (some (w.present P i)) }
  | .look i => w.look i
  | .submit i target =>
    let w' := w.look i
    if w.allowed P i target then { w' with pending := Function.update w.pending i (some target) }
    else w'
  | .apply i =>
    match w.pending i with
    | none => w
    | some target =>
      { w with
        parent := Function.update w.parent i (some target)
        pending := Function.update w.pending i none }

def run (w : World n) (as : List (Action n)) : World n := runs (step P) w as

/-- The pod whose backhaul BSS each pod's station is on. -/
def up (i : Fin n) : Option (Fin n) := (w.parent i).bind P.owner

def others (i : Fin n) : List Peer :=
  (List.finRange n).filterMap fun j => if j = i then none else some (w.present P j)

/-- The directory of `i` shows the pod `q` and those above it, but for `i` itself, as they are. -/
def Shows (i q : Fin n) : Prop :=
  ∀ j, ReflTransGen (Next (w.up P)) q j → j ≠ i →
    ∀ b ∈ P.bsses j, upstream (w.peers i) b = some (w.present P j)

/-- A move onto a pod is submitted while no other one is under way, against a directory that shows
the pods from there up. -/
def Current (w : World n) : Action n → Prop
  | .submit i target => ∀ q, P.owner target = some q →
      (∀ j, j ≠ i → ∀ t, w.pending j = some t → P.owner t = none) ∧ w.Shows P i q
  | _ => True

/-! ## The check -/

variable {P : Pods n} {w : World n} {i : Fin n}

theorem owner_eq_some {b : MacAddr} {j : Fin n} : P.owner b = some j ↔ b ∈ P.bsses j := by
  constructor
  · intro h
    have hfound := List.find?_some h
    exact of_decide_eq_true hfound
  · intro h
    cases ho : P.owner b with
    | none =>
      have hnone := List.find?_eq_none.mp ho j (List.mem_finRange j)
      exact absurd (decide_eq_true h) hnone
    | some k =>
      have hfound := List.find?_some ho
      have hk : b ∈ P.bsses k := of_decide_eq_true hfound
      rw [P.macs_apart k j b (P.bsses_macs k b hk) (P.bsses_macs j b h)]

theorem mem_others {p : Peer} : p ∈ w.others P i ↔ ∃ j, j ≠ i ∧ p = w.present P j := by
  simp only [others, List.mem_filterMap, List.mem_finRange, true_and]
  constructor
  · rintro ⟨j, hj⟩
    split at hj
    · cases hj
    · rename_i hne
      cases hj
      exact ⟨j, hne, rfl⟩
  · rintro ⟨j, hne, rfl⟩
    exact ⟨j, if_neg hne⟩

theorem upstream_others {b : MacAddr} (hown : b ∉ P.macs i) :
    upstream (w.others P i) b = (P.owner b).map (w.present P) := by
  cases ho : P.owner b with
  | none =>
    rw [Option.map_none, upstream, List.find?_eq_none]
    intro p hp
    obtain ⟨j, -, rfl⟩ := mem_others.mp hp
    intro hb
    have hj := owner_eq_some.mpr (of_decide_eq_true hb)
    rw [ho] at hj
    cases hj
  | some j =>
    have hb : b ∈ P.bsses j := owner_eq_some.mp ho
    have hne : j ≠ i := by
      rintro rfl
      exact hown (P.bsses_macs j b hb)
    cases hu : upstream (w.others P i) b with
    | none =>
      have hnone := List.find?_eq_none.mp hu (w.present P j) (mem_others.mpr ⟨j, hne, rfl⟩)
      exact absurd (decide_eq_true hb) hnone
    | some p =>
      obtain ⟨k, -, rfl⟩ := mem_others.mp (List.mem_of_find?_eq_some hu)
      have hfound := List.find?_some hu
      have hk : P.owner b = some k := owner_eq_some.mpr (of_decide_eq_true hfound)
      rw [ho] at hk
      cases hk
      rfl

theorem shows_of_others (h : w.peers i = w.others P i) (q : Fin n) : w.Shows P i q := by
  intro j _ hne b hb
  have hown : b ∉ P.macs i := fun hmac => hne (P.macs_apart j i b (P.bsses_macs j b hb) hmac)
  rw [h, upstream_others hown, owner_eq_some.mpr hb, Option.map_some]

theorem not_reaches_of_loopsFrom {fuel : Nat} {seen : List MacAddr} {b : MacAddr} {q : Fin n}
    (h : loopsFrom (w.peers i) (P.al i) (P.macs i) fuel seen (some b) = false)
    (hq : P.owner b = some q) (hshows : w.Shows P i q) : ¬ ReflTransGen (Next (w.up P)) q i := by
  induction fuel generalizing seen b q with
  | zero => cases h
  | succ fuel ih =>
    rw [loopsFrom] at h
    split at h
    · cases h
    · rename_i hown
      have hb := owner_eq_some.mp hq
      have hne : q ≠ i := by
        rintro rfl
        exact hown (P.bsses_macs q b hb)
      rw [hshows q .refl hne b hb] at h
      simp only at h
      split at h
      · cases h
      · rename_i hnew
        intro hreach
        rcases ReflTransGen.cases_head hreach with heq | ⟨q', hstep, hrest⟩
        · subst heq
          exact hnew (.inl rfl)
        · obtain ⟨b', hb', hq'⟩ := Option.bind_eq_some_iff.mp hstep
          have hparent : (w.present P q).parent = some b' := hb'
          rw [hparent] at h
          exact ih h hq' (fun j hj => hshows j (.head hstep hj)) hrest

theorem not_reaches_of_allowed {target : MacAddr} {q : Fin n} (hshows : w.Shows P i q)
    (h : w.allowed P i target = true) (hq : P.owner target = some q) :
    ¬ ReflTransGen (Next (w.up P)) q i := by
  simp only [allowed, Bool.and_eq_true, Bool.not_eq_true'] at h
  exact not_reaches_of_loopsFrom h.2 hq hshows

/-! ## Runs -/

/-- There is no circle, and a move onto a pod that is under way is the only one and makes none. -/
structure Inv (P : Pods n) (w : World n) : Prop where
  acyclic : Acyclic (w.up P)
  pending : ∀ i target q, w.pending i = some target → P.owner target = some q →
    (∀ j, j ≠ i → ∀ t, w.pending j = some t → P.owner t = none) ∧
      Acyclic (Function.update (w.up P) i (some q))

theorem up_apply (target : MacAddr) :
    ({ w with parent := Function.update w.parent i (some target) } : World n).up P =
      Function.update (w.up P) i (P.owner target) := by
  funext j
  by_cases hj : j = i
  · subst hj
    simp [up]
  · simp [up, hj]

theorem inv_submit (h : Inv P w) {target : MacAddr} (hcurrent : Current P w (.submit i target)) :
    Inv P (w.step P (.submit i target)) := by
  simp only [step]
  split
  · rename_i hallowed
    refine ⟨h.acyclic, fun j t q hj hq => ?_⟩
    have hpending : Function.update w.pending i (some target) j = some t := hj
    by_cases hji : j = i
    · subst hji
      rw [Function.update_self] at hpending
      cases hpending
      obtain ⟨hothers, hshows⟩ := hcurrent q hq
      refine ⟨fun k hk t' ht' => hothers k hk t' ?_,
        h.acyclic.update (not_reaches_of_allowed hshows hallowed hq)⟩
      exact (Function.update_of_ne hk _ _).symm.trans ht'
    · rw [Function.update_of_ne hji] at hpending
      obtain ⟨hothers, hacyclic⟩ := h.pending j t q hpending hq
      refine ⟨fun k hk t' ht' => ?_, hacyclic⟩
      have ht' : Function.update w.pending i (some target) k = some t' := ht'
      by_cases hki : k = i
      · -- Were the new target a pod's too, `j` could not be moving onto one.
        subst hki
        rw [Function.update_self] at ht'
        cases ht'
        cases ho : P.owner target with
        | none => rfl
        | some q' =>
          have hnone := (hcurrent q' ho).1 j hji t hpending
          rw [hq] at hnone
          cases hnone
      · rw [Function.update_of_ne hki] at ht'
        exact hothers k hk t' ht'
  · exact ⟨h.acyclic, h.pending⟩

theorem inv_apply (h : Inv P w) (i : Fin n) : Inv P (w.step P (.apply i)) := by
  simp only [step]
  split
  · exact h
  · rename_i target hpending
    have hkept : ∀ j t, Function.update w.pending i none j = some t →
        j ≠ i ∧ w.pending j = some t := by
      intro j t hj
      by_cases hji : j = i
      · rw [hji, Function.update_self] at hj
        cases hj
      · rw [Function.update_of_ne hji] at hj
        exact ⟨hji, hj⟩
    have hup := @up_apply _ P w i target
    cases ho : P.owner target with
    | none =>
      rw [ho] at hup
      refine ⟨hup.symm ▸ h.acyclic.update_none i, fun j t q hj hq => ?_⟩
      obtain ⟨hji, hj⟩ := hkept j t hj
      obtain ⟨hothers, hacyclic⟩ := h.pending j t q hj hq
      refine ⟨fun k hk t' ht' => hothers k hk t' (hkept k t' ht').2, ?_⟩
      show Acyclic (Function.update (up P { w with parent := _ }) j (some q))
      rw [hup, Function.update_comm hji.symm]
      exact hacyclic.update_none i
    | some q =>
      rw [ho] at hup
      obtain ⟨hothers, hacyclic⟩ := h.pending i target q hpending ho
      refine ⟨hup.symm ▸ hacyclic, fun j t q' hj hq' => ?_⟩
      obtain ⟨hji, hj⟩ := hkept j t hj
      have hnone := hothers j hji t hj
      rw [hq'] at hnone
      cases hnone

theorem inv_step (h : Inv P w) {a : Action n} (hcurrent : Current P w a) : Inv P (w.step P a) := by
  cases a with
  | advance | publish | look => exact ⟨h.acyclic, h.pending⟩
  | submit i target => exact inv_submit h hcurrent
  | apply i => exact inv_apply h i

/-- Over every run from pods without a circle, in which each move onto a pod is submitted while no
other one is under way and is checked against statuses that show the pods from there up as they are,
no circle comes about. -/
theorem moves_stay_acyclic (P : Pods n) (parent : Fin n → Option MacAddr)
    (hstart : Acyclic (({ parent := parent } : World n).up P)) (as : List (Action n))
    (h : Meets (step P) (Current P) { parent := parent } as) :
    Acyclic ((run P { parent := parent } as).up P) := by
  have hinv : Inv P ({ parent := parent } : World n) := ⟨hstart, nofun⟩
  exact (runs_invariant (fun _ _ hw ha => inv_step hw ha) h hinv).acyclic

def twoPods : Pods 2 where
  al i := if i = 0 then 1 else 2
  macs i := if i = 0 then [10, 20] else [11, 21]
  bsses i := if i = 0 then [10] else [11]
  bsses_macs := by decide +kernel
  macs_apart := by decide +kernel

def onGateway : World 2 := { parent := fun _ => some 99 }

theorem onGateway_acyclic : Acyclic (onGateway.up twoPods) := by
  have hnone : ∀ i, onGateway.up twoPods i = none := by decide +kernel
  intro i hcycle
  obtain ⟨j, hstep, -⟩ := TransGen.head'_iff.mp hcycle
  cases hstep

theorem checked_move_stays_acyclic :
    let w := run twoPods onGateway [.publish 0, .publish 1, .submit 0 11, .submit 1 99, .apply 0,
      .publish 0, .advance 1 (by decide), .submit 1 10]
    w.up twoPods 0 = some 1 ∧ Acyclic (w.up twoPods) := by
  refine ⟨by decide +kernel, moves_stay_acyclic twoPods _ onGateway_acyclic _
    ⟨trivial, trivial, fun q _ => ⟨by decide +kernel, shows_of_others (by decide +kernel) q⟩,
      nofun, trivial, trivial, trivial,
      fun q _ => ⟨by decide +kernel, shows_of_others (by decide +kernel) q⟩, trivial⟩⟩

/-- Each agent reads the statuses before either pod has moved, and each lets its pod move onto the
other. -/
theorem crossing_moves_close_circle :
    ¬ Acyclic ((run twoPods onGateway [.publish 0, .publish 1, .look 0, .look 1, .submit 0 11,
      .submit 1 10, .apply 0, .apply 1]).up twoPods) := by
  intro h
  have hup : (run twoPods onGateway [.publish 0, .publish 1, .look 0, .look 1, .submit 0 11,
      .submit 1 10, .apply 0, .apply 1]).up twoPods 0 = some 1 := by decide +kernel
  have hdown : (run twoPods onGateway [.publish 0, .publish 1, .look 0, .look 1, .submit 0 11,
      .submit 1 10, .apply 0, .apply 1]).up twoPods 1 = some 0 := by decide +kernel
  exact h 0 (TransGen.tail (.single hup) hdown)

end World
end Emosa.Peers
