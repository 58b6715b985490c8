import Emosa.Lib.Retention
import Mathlib.Data.List.Forall2

/-!
# Emosa.Lib.Related

Lists related entry by entry. A search, a test or a retention that does not tell related entries
apart gives related results.
-/

namespace Emosa.Related

variable {α β : Type} {R : α → β → Prop} {l : List α} {l' : List β}

section

variable (h : List.Forall₂ R l l')
include h

theorem find? {f : α → Bool} {g : β → Bool}
    (hfg : ∀ a b, R a b → f a = g b) : Option.Rel R (l.find? f) (l'.find? g) := by
  induction h with
  | nil => exact .none
  | @cons a b l l' hab _ ih =>
    rw [List.find?_cons, List.find?_cons, ← hfg a b hab]
    cases f a with
    | true => exact .some hab
    | false => exact ih

theorem any {f : α → Bool} {g : β → Bool}
    (hfg : ∀ a b, R a b → f a = g b) : l.any f = l'.any g := by
  induction h with
  | nil => rfl
  | cons hab _ ih => rw [List.any_cons, List.any_cons, hfg _ _ hab, ih]

theorem map {f : α → α} {g : β → β}
    (hfg : ∀ a b, R a b → R (f a) (g b)) : List.Forall₂ R (l.map f) (l'.map g) := by
  induction h with
  | nil => exact .nil
  | cons hab _ ih => exact .cons (hfg _ _ hab) ih

theorem filter {f : α → Bool} {g : β → Bool}
    (hfg : ∀ a b, R a b → f a = g b) : List.Forall₂ R (l.filter f) (l'.filter g) := by
  induction h with
  | nil => exact .nil
  | @cons a b l l' hab _ ih =>
    rw [List.filter_cons, List.filter_cons, ← hfg a b hab]
    split
    · exact .cons hab ih
    · exact ih

theorem getLast? : Option.Rel R l.getLast? l'.getLast? := by
  induction h with
  | nil => exact .none
  | cons hab hrest ih =>
    cases hrest with
    | nil => exact .some hab
    | cons hab' hrest' => exact ih

end

theorem rel_cases {x : Option α} {y : Option β} (h : Option.Rel R x y) :
    x = none ∧ y = none ∨ ∃ a b, x = some a ∧ y = some b ∧ R a b := by
  cases h with
  | none => exact .inl ⟨rfl, rfl⟩
  | some hab => exact .inr ⟨_, _, rfl, rfl, hab⟩

/-- Two policies that do not tell related entries apart. -/
theorem retain {κ : Type} [DecidableEq κ] {r : Retention α κ} {s : Retention β κ}
    (hrecent : r.recent = s.recent) (halways : ∀ a b, R a b → r.always a = s.always b)
    (htracked : ∀ a b, R a b → r.tracked a = s.tracked b)
    (hgroup : ∀ a b, R a b → r.group a = s.group b) (h : List.Forall₂ R l l') :
    List.Forall₂ R (r.retain l) (s.retain l') := by
  induction h with
  | nil => exact .nil
  | @cons a b l l' hab hrest ih =>
    have hany : l.any (r.follows (r.group a)) = l'.any (s.follows (s.group b)) :=
      any hrest fun x y hxy => by
        simp only [Retention.follows, htracked x y hxy, hgroup x y hxy, hgroup a b hab]
    have hspares : r.spares a l = s.spares b l' := by
      simp only [Retention.spares, hrest.length_eq, hrecent, halways a b hab, htracked a b hab, hany]
    rw [Retention.retain, Retention.retain, hspares]
    split
    · exact .cons hab ih
    · exact ih

end Emosa.Related
