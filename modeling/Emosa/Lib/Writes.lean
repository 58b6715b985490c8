import Emosa.Lib.Durable

/-!
# Emosa.Lib.Writes

What a program may write, whatever it reads. `Writes P m` says that every write `m` commits satisfies
`P`, from every process and however it ends. `Wrote P p p'` says the same of a process before and
after something that is not written as a program.
-/

namespace Emosa.Durable

variable {V J W ε α β : Type} {P : W → Prop}

/-- Every write of the program satisfies `P`. -/
def Writes (P : W → Prop) (m : Prog V J W ε α) : Prop :=
  ∀ p, wp m (fun _ p' => ∃ ws, p'.written = p.written ++ ws ∧ ∀ w ∈ ws, P w) p

/-- Between the two, the process committed writes that satisfy `P`, and nothing else. -/
def Wrote [Replay J W] (P : W → Prop) (p p' : Proc V J W) : Prop :=
  ∃ ws, p'.journal = replay p.journal ws ∧ ∀ w ∈ ws, P w

namespace Wrote

variable [Replay J W] {p p₁ p₂ : Proc V J W}

theorem of_eq (h : p₁.journal = p.journal) : Wrote P p p₁ := ⟨[], h, by simp⟩

theorem refl : Wrote P p p := of_eq rfl

theorem commit {w : W} (h : P w) : Wrote P p (p.commit w) := ⟨[w], rfl, by simpa using h⟩

theorem trans (h : Wrote P p p₁) (h' : Wrote P p₁ p₂) : Wrote P p p₂ := by
  obtain ⟨ws, hws, hall⟩ := h
  obtain ⟨vs, hvs, hall'⟩ := h'
  refine ⟨ws ++ vs, by rw [hvs, hws, replay_append], fun w hw => ?_⟩
  exact (List.mem_append.mp hw).elim (hall w) (hall' w)

/-- What every such write preserves of the journal holds after them. -/
theorem preserves {Q : J → Prop} (hstep : ∀ j w, P w → Q j → Q (apply j w)) (h : Wrote P p p₁)
    (hq : Q p.journal) : Q p₁.journal := by
  obtain ⟨ws, hws, hall⟩ := h
  rw [hws]
  generalize p.journal = j at hq
  clear hws
  induction ws generalizing j with
  | nil => exact hq
  | cons w ws ih =>
    exact ih (fun w' hw' => hall w' (List.mem_cons_of_mem _ hw')) _
      (hstep j w (hall w List.mem_cons_self) hq)

end Wrote

end Emosa.Durable
