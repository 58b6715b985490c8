import Mathlib.Algebra.Order.Ring.Nat

/-!
# Emosa.Lib.Except

Taking a successful `Except` computation apart, one bind and one guard at a time.
-/

namespace Emosa

open List Except

theorem Except.bind_ok {ε α β : Type} {x : Except ε α} {f : α → Except ε β} {b : β}
    (h : (x >>= f) = .ok b) : ∃ a, x = .ok a ∧ f a = .ok b := by
  cases x with
  | error e => cases h
  | ok a => exact ⟨a, rfl, h⟩

/-- A computation that does not end in a guard's own answer passed it. -/
theorem guard_passed {α : Type} {c : Prop} [Decidable c] {x y z : α} (h : (if c then x else y) = z)
    (hne : x ≠ z := by rintro ⟨⟩) : ¬ c ∧ y = z := by
  split at h
  · exact absurd h hne
  · exact ⟨‹_›, h⟩

theorem Except.mapM_ok {ε α β : Type} {f : α → Except ε β} :
    ∀ {l : List α} {r : List β}, l.mapM f = .ok r →
      r.length = l.length ∧ ∀ (i : Nat) (a : α), l[i]? = some a → ∃ b, f a = .ok b ∧ r[i]? = some b := by
  intro l
  induction l with
  | nil =>
    intro r h
    cases h
    exact ⟨rfl, fun i a hi => by simp at hi⟩
  | cons a l ih =>
    intro r h
    rw [mapM_cons] at h
    obtain ⟨b, hb, h⟩ := bind_ok h
    obtain ⟨bs, hbs, h⟩ := bind_ok h
    cases h
    obtain ⟨hlen, hall⟩ := ih hbs
    refine ⟨by simp [hlen], fun i a' hi => ?_⟩
    cases i with
    | zero => simp only [getElem?_cons_zero, Option.some.injEq] at hi; subst hi; exact ⟨b, hb, rfl⟩
    | succ i => simpa using hall i a' (by simpa using hi)

theorem Except.mapM_of_ok {ε α β : Type} {f : α → Except ε β} {g : α → β} :
    ∀ {l : List α}, (∀ a ∈ l, f a = .ok (g a)) → l.mapM f = .ok (l.map g) := by
  intro l
  induction l with
  | nil => intro _; rfl
  | cons a l ih =>
    intro h
    rw [mapM_cons, h a mem_cons_self, ih fun b hb => h b (mem_cons_of_mem _ hb)]
    rfl

end Emosa
