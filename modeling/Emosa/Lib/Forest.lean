import Mathlib.Logic.Relation
import Mathlib.Logic.Function.Basic

/-!
# Emosa.Lib.Forest

A relation in which every element has at most one successor, given as a function. `Acyclic.update`:
giving an element a new successor makes no circle when the new successor does not lead back to it.
-/

namespace Emosa.Forest

open Relation

variable {α : Type}

def Next (up : α → Option α) (a b : α) : Prop := up a = some b

/-- No element leads back to itself. -/
def Acyclic (up : α → Option α) : Prop := ∀ a, ¬ TransGen (Next up) a a

section Update

variable [DecidableEq α] {up : α → Option α} {p q : α}

theorem next_update_of_ne {a b : α} {o : Option α} (ha : a ≠ p) :
    Next (Function.update up p o) a b ↔ Next up a b := by
  rw [Next, Next, Function.update_of_ne ha]

theorem next_update_self {b : α} : Next (Function.update up p (some q)) p b ↔ b = q := by
  rw [Next, Function.update_self, Option.some.injEq, eq_comm]

/-- A way after the change is one from before it, or goes over the new step. -/
theorem reach_update (hq : ¬ ReflTransGen (Next up) q p) {a b : α}
    (h : ReflTransGen (Next (Function.update up p (some q))) a b) :
    ReflTransGen (Next up) a b ∨ (ReflTransGen (Next up) a p ∧ ReflTransGen (Next up) q b) := by
  induction h with
  | refl => exact .inl .refl
  | @tail b c _ hstep ih =>
    by_cases hb : b = p
    · subst hb
      obtain rfl := next_update_self.mp hstep
      rcases ih with hab | ⟨-, hqb⟩
      · exact .inr ⟨hab, .refl⟩
      · exact absurd hqb hq
    · have hbc := (next_update_of_ne hb).mp hstep
      rcases ih with hab | ⟨hap, hqb⟩
      · exact .inl (hab.tail hbc)
      · exact .inr ⟨hap, hqb.tail hbc⟩

theorem Acyclic.update (h : Acyclic up) (hq : ¬ ReflTransGen (Next up) q p) :
    Acyclic (Function.update up p (some q)) := by
  intro a hcycle
  obtain ⟨b, hab, hba⟩ := TransGen.head'_iff.mp hcycle
  by_cases ha : a = p
  · subst ha
    obtain rfl := next_update_self.mp hab
    rcases reach_update hq hba with hback | ⟨hback, -⟩
    · exact hq hback
    · exact hq hback
  · have hab := (next_update_of_ne ha).mp hab
    rcases reach_update hq hba with hback | ⟨hbp, hqa⟩
    · exact h a (TransGen.head' hab hback)
    · exact hq ((hqa.tail hab).trans hbp)

theorem Acyclic.update_none (h : Acyclic up) (p : α) : Acyclic (Function.update up p none) := by
  intro a hcycle
  refine h a (hcycle.lift id fun x y hxy => ?_)
  by_cases hx : x = p
  · subst hx
    simp [Next] at hxy
  · exact (next_update_of_ne hx).mp hxy

end Update

end Emosa.Forest
