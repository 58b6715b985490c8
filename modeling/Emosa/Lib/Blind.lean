import Emosa.Lib.Durable

/-!
# Emosa.Lib.Blind

Programs that do not read the journal. What such a program returns, remembers and writes is the same
over every journal, so two journals can be compared by what the rest of a program reads of them.
-/

namespace Emosa.Durable

variable {V J W ε α β : Type}

/-- What a program ends with: its result, its memory and its writes. -/
def effect (m : Prog V J W ε α) (p : Proc V J W) : Except ε α × V × List W :=
  match m p with
  | .ok a p => (.ok a, p.memory, p.written)
  | .error e p => (.error e, p.memory, p.written)

theorem effect_memory (f : V → Prog V J W ε α) (p : Proc V J W) :
    effect (memory >>= f) p = effect (f p.memory) p := rfl

theorem effect_journal (f : J → Prog V J W ε α) (p : Proc V J W) :
    effect (journal >>= f) p = effect (f p.journal) p := rfl

theorem effect_bind_ok {m : Prog V J W ε α} {a : α} {p p' : Proc V J W} (h : m p = .ok a p')
    (f : α → Prog V J W ε β) : effect (m >>= f) p = effect (f a) p' := by
  simp only [effect, bind, EStateM.bind, h]

theorem effect_bind_error {m : Prog V J W ε α} {e : ε} {p p' : Proc V J W} (h : m p = .error e p')
    (f : α → Prog V J W ε β) : effect (m >>= f) p = (.error e, p'.memory, p'.written) := by
  simp only [effect, bind, EStateM.bind, h]

/-- The program ends the same over every journal. -/
def Blind (m : Prog V J W ε α) : Prop :=
  ∀ v j j' ws, effect m ⟨v, j', ws⟩ = effect m ⟨v, j, ws⟩

namespace Blind

theorem pure (a : α) : Blind (pure a : Prog V J W ε α) := fun _ _ _ _ => rfl

theorem raise (e : ε) : Blind (raise e : Prog V J W ε α) := fun _ _ _ _ => rfl

theorem memory : Blind (memory : Prog V J W ε V) := fun _ _ _ _ => rfl

theorem remember (f : V → V) : Blind (remember f : Prog V J W ε Unit) := fun _ _ _ _ => rfl

theorem lift (r : Except ε α) : Blind (lift r : Prog V J W ε α) := by
  cases r with
  | error e => exact raise e
  | ok a => exact pure a

theorem commit [Replay J W] (w : W) : Blind (commit w : Prog V J W ε Unit) := fun _ _ _ _ => rfl

theorem bind {m : Prog V J W ε α} {f : α → Prog V J W ε β} (hm : Blind m)
    (hf : ∀ a, Blind (f a)) : Blind (m >>= f) := by
  intro v j j' ws
  have hfirst := hm v j j' ws
  simp only [effect, Bind.bind, EStateM.bind] at hfirst ⊢
  cases h : m ⟨v, j, ws⟩ with
  | error e p =>
    cases h' : m ⟨v, j', ws⟩ with
    | error e' p' => simpa [h, h'] using hfirst
    | ok a' p' => simp [h, h'] at hfirst
  | ok a p =>
    cases h' : m ⟨v, j', ws⟩ with
    | error e' p' => simp [h, h'] at hfirst
    | ok a' p' =>
      simp only [h, h', Prod.mk.injEq, Except.ok.injEq] at hfirst
      obtain ⟨v₁, j₁, ws₁⟩ := p
      obtain ⟨v₂, j₂, ws₂⟩ := p'
      obtain ⟨rfl, rfl, rfl⟩ := hfirst
      exact hf a' _ j₁ j₂ _

theorem ite {c : Prop} [Decidable c] {m m' : Prog V J W ε α} (h : c → Blind m)
    (h' : ¬ c → Blind m') : Blind (if c then m else m') := by
  split
  · rename_i hc
    exact h hc
  · rename_i hc
    exact h' hc

end Blind

end Emosa.Durable
