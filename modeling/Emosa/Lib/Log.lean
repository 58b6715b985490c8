import Mathlib.Data.List.Basic

/-!
# Emosa.Lib.Log

A log of events, each of which has to be justified by those before it.

* `Justified J log`: at every event `e` of `log`, `J` holds of the events before it and of `e`.
* `justified_snoc`: the log with one event more.
-/

namespace Emosa.Log

variable {ε : Type} {J : List ε → ε → Prop}

def Justified (J : List ε → ε → Prop) (log : List ε) : Prop :=
  ∀ before e rest, log = before ++ e :: rest → J before e

theorem justified_nil : Justified J ([] : List ε) := by
  intro before e rest h
  simp at h

theorem justified_snoc {log : List ε} {e : ε} :
    Justified J (log ++ [e]) ↔ Justified J log ∧ J log e := by
  constructor
  · intro h
    exact ⟨fun before e' rest he => h before e' (rest ++ [e]) (by simp [he]), h log e [] rfl⟩
  · rintro ⟨hlog, hlast⟩ before e' rest he
    -- the event is the last one, or stands in the log before it
    rcases List.eq_nil_or_concat rest with rfl | ⟨rest, last, rfl⟩
    · obtain ⟨rfl, h⟩ := List.append_inj' he rfl
      obtain rfl := List.singleton_inj.mp h
      exact hlast
    · rw [List.concat_eq_append, ← List.cons_append, ← List.append_assoc] at he
      exact hlog before e' rest (List.append_inj' he rfl).1

end Emosa.Log
