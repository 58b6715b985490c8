import Emosa.Lib.Writes

/-!
# Emosa.Lib.Effects

What a program does, whatever it reads: what it may write, what its memory keeps, and what its
results satisfy. The rules of `Does` follow the program's text, and `bind` hands the result of one
part to the next.
-/

namespace Emosa.Durable

variable {V J W ε α β : Type} [Replay J W] {K : V → Prop} {P : W → Prop} {Q : α → Prop}

/-- From a memory that satisfies `K`, every write of the program satisfies `P`, the memory still
satisfies `K`, and a result satisfies `Q`. -/
def Effects (K : V → Prop) (P : W → Prop) (Q : α → Prop) (m : Prog V J W ε α) : Prop :=
  ∀ p, K p.memory → wp m (fun r p' => Wrote P p p' ∧ K p'.memory ∧ ∀ a, r = .ok a → Q a) p

/-- From `p` to `p'` the process committed writes that satisfy `P`. -/
def Committed (P : W → Prop) (p p' : Proc V J W) : Prop :=
  ∃ ws, p'.written = p.written ++ ws ∧ p'.journal = replay p.journal ws ∧ ∀ w ∈ ws, P w

/-- `Effects`, with the writes as they were committed. -/
def Does (K : V → Prop) (P : W → Prop) (Q : α → Prop) (m : Prog V J W ε α) : Prop :=
  ∀ p, K p.memory → wp m (fun r p' => Committed P p p' ∧ K p'.memory ∧ ∀ a, r = .ok a → Q a) p

namespace Committed

variable {p p₁ p₂ : Proc V J W}

theorem refl : Committed P p p := ⟨[], by simp, rfl, by simp⟩

theorem trans (h : Committed P p p₁) (h' : Committed P p₁ p₂) : Committed P p p₂ := by
  obtain ⟨ws, hws, hj, hall⟩ := h
  obtain ⟨vs, hvs, hj', hall'⟩ := h'
  refine ⟨ws ++ vs, by rw [hvs, hws, List.append_assoc], by rw [hj', hj, replay_append],
    fun w hw => ?_⟩
  exact (List.mem_append.mp hw).elim (hall w) (hall' w)

theorem mono {P' : W → Prop} (h : Committed P p p₁) (hP : ∀ w, P w → P' w) : Committed P' p p₁ := by
  obtain ⟨ws, hws, hj, hall⟩ := h
  exact ⟨ws, hws, hj, fun w hw => hP w (hall w hw)⟩

theorem wrote (h : Committed P p p₁) : Wrote P p p₁ := by
  obtain ⟨ws, -, hj, hall⟩ := h
  exact ⟨ws, hj, hall⟩

end Committed

namespace Does

theorem pure {a : α} (h : Q a) : Does K P Q (pure a : Prog V J W ε α) := fun _ hk =>
  ⟨.refl, hk, fun _ he => Except.ok.inj he ▸ h⟩

theorem raise (e : ε) : Does K P Q (raise e : Prog V J W ε α) := fun _ hk =>
  ⟨.refl, hk, nofun⟩

theorem journal {Q : J → Prop} (h : ∀ j, Q j) : Does K P Q (journal : Prog V J W ε J) :=
  fun _ hk => ⟨.refl, hk, fun j _ => h j⟩

theorem memory : Does K P K (memory : Prog V J W ε V) := fun _ hk =>
  ⟨.refl, hk, fun _ he => Except.ok.inj he ▸ hk⟩

theorem remember {f : V → V} (h : ∀ v, K v → K (f v)) :
    Does K P (fun _ => True) (remember f : Prog V J W ε Unit) := fun _ hk =>
  ⟨⟨[], by simp, rfl, by simp⟩, h _ hk, fun _ _ => trivial⟩

theorem lift {r : Except ε α} (h : ∀ a, r = .ok a → Q a) :
    Does K P Q (lift r : Prog V J W ε α) := fun _ hk => (wp_lift r).mpr ⟨.refl, hk, h⟩

theorem commit {w : W} (h : P w) : Does K P (fun _ => True) (commit w : Prog V J W ε Unit) :=
  fun _ hk => ⟨⟨[w], rfl, rfl, by simpa using h⟩, hk, fun _ _ => trivial⟩

variable {m : Prog V J W ε α}

theorem bind {Q' : β → Prop} {f : α → Prog V J W ε β}
    (hm : Does K P Q m) (hf : ∀ a, Q a → Does K P Q' (f a)) : Does K P Q' (m >>= f) := by
  intro p hk
  rw [wp_bind]
  refine wp_mono (hm p hk) ?_
  rintro (e | a) p₁ ⟨hw, hk₁, hq⟩
  · exact ⟨hw, hk₁, nofun⟩
  · refine wp_mono (hf a (hq a rfl) p₁ hk₁) ?_
    rintro r p₂ ⟨hw', hk₂, hq'⟩
    exact ⟨hw.trans hw', hk₂, hq'⟩

theorem andThen {Q' : β → Prop} {f : α → Prog V J W ε β}
    (hm : Does K P (fun _ => True) m) (hf : ∀ a, Does K P Q' (f a)) : Does K P Q' (m >>= f) :=
  hm.bind fun a _ => hf a

theorem attempt (h : Does K P Q m) :
    Does K P (fun r => ∀ a, r = .ok a → Q a) (attempt m) := by
  intro p hk
  rw [wp_attempt]
  refine wp_mono (h p hk) ?_
  rintro r p' ⟨hw, hk', hq⟩
  exact ⟨hw, hk', fun r' he a ha => hq a (Except.ok.inj he ▸ ha)⟩

theorem ite {c : Prop} [Decidable c] {m m' : Prog V J W ε α} (h : c → Does K P Q m)
    (h' : ¬ c → Does K P Q m') : Does K P Q (if c then m else m') := by
  split
  · rename_i hc
    exact h hc
  · rename_i hc
    exact h' hc

theorem mono {P' : W → Prop} {Q' : α → Prop} (h : Does K P Q m)
    (hP : ∀ w, P w → P' w) (hQ : ∀ a, Q a → Q' a) : Does K P' Q' m := by
  intro p hk
  refine wp_mono (h p hk) ?_
  rintro r p' ⟨hw, hk', hq⟩
  exact ⟨hw.mono hP, hk', fun a ha => hQ a (hq a ha)⟩

theorem effects (h : Does K P Q m) : Effects K P Q m := fun p hk =>
  wp_mono (h p hk) fun _ _ hr => ⟨hr.1.wrote, hr.2⟩

/-- What is done from every memory. -/
theorem always {P' : W → Prop} {f : V → β}
    (h : ∀ b, Does (fun v => f v = b) P Q m) (hP : ∀ w, P w → P' w) :
    Does (fun _ => True) P' (fun _ => True) m := fun p _ =>
  wp_mono (h (f p.memory) p rfl) fun _ _ hr => ⟨hr.1.mono hP, trivial, fun _ _ => trivial⟩

theorem writes (h : Does (fun _ => True) P (fun _ => True) m) :
    Writes P m := fun p =>
  wp_mono (h p trivial) fun _ _ ⟨⟨ws, hws, _, hall⟩, _⟩ => ⟨ws, hws, hall⟩

end Does

end Emosa.Durable
