import Mathlib.Data.List.Basic

/-!
# Emosa.Lib.Text

Texts made of fields that end at a separator.
-/

namespace Emosa.Text

variable {α : Type} [DecidableEq α] {c : α} {a b x y : List α}

/-- Two texts that are equal are so up to their first separator, and from there on. -/
theorem split_at (ha : c ∉ a) (hb : c ∉ b) (hx : x = [] ∨ ∃ t, x = c :: t)
    (hy : y = [] ∨ ∃ t, y = c :: t) (h : a ++ x = b ++ y) : a = b ∧ x = y := by
  have hup : ∀ {l z : List α}, c ∉ l → (z = [] ∨ ∃ t, z = c :: t) →
      (l ++ z).takeWhile (· ≠ c) = l := by
    intro l z hl hz
    have hall : ∀ d ∈ l, decide (d ≠ c) = true := fun d hd => decide_eq_true fun he => hl (he ▸ hd)
    rw [List.takeWhile_append_of_pos hall]
    rcases hz with rfl | ⟨t, rfl⟩ <;> simp
  have he : a = b := by rw [← hup ha hx, h, hup hb hy]
  subst he
  exact ⟨rfl, List.append_cancel_left h⟩

end Emosa.Text
