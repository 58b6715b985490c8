import Mathlib.Data.List.Chain

/-!
# Emosa.Lib.Durable

Programs over a durable journal. A program commits *writes* one by one; what it has committed
survives it, what it holds in memory does not. A result comes beside the state, so an exception
keeps the writes made before it.

* `replay`, `moments`: the journal after a list of writes, and after each of them.
* `Permits R j ws`: every write of `ws` is one `R` allows at the journal it meets. The rules carry
  an invariant of single writes over any number of them, to any point between two of them.
* `Proc`, `Prog`, `wp`: a process, its programs, and their weakest preconditions. `Follows R j p`
  says that `p` got from the journal `j` to its own by writes that `R` allows.
* `runs`, `Meets`: runs of a step function whose steps meet a side condition.
-/

namespace Emosa.Durable

open List

/-- How a committed write changes a journal. -/
class Replay (J : Type) (W : outParam Type) where
  apply : J → W → J

export Replay (apply)

section Journal

variable {J W : Type} [Replay J W]

def replay (j : J) (ws : List W) : J := ws.foldl apply j

def moments : J → List W → List J
  | _, [] => []
  | j, w :: ws => apply j w :: moments (apply j w) ws

def Permits (R : J → W → Prop) : J → List W → Prop
  | _, [] => True
  | j, w :: ws => R j w ∧ Permits R (apply j w) ws

@[simp] theorem replay_nil (j : J) : replay j ([] : List W) = j := rfl

@[simp] theorem replay_cons (j : J) (w : W) (ws : List W) :
    replay j (w :: ws) = replay (apply j w) ws := rfl

theorem replay_append (j : J) (ws vs : List W) :
    replay j (ws ++ vs) = replay (replay j ws) vs := by
  simp [replay]

variable {ws : List W}

theorem mem_moments {j m : J} (h : m ∈ moments j ws) :
    ∃ k, m = replay j (ws.take k) := by
  induction ws generalizing j with
  | nil => simp [moments] at h
  | cons w ws ih =>
    simp only [moments, mem_cons] at h
    cases h with
    | inl h => exact ⟨1, by simp [h]⟩
    | inr h =>
      obtain ⟨k, hk⟩ := ih h
      exact ⟨k + 1, by simp [hk]⟩

theorem replay_mem_moments {j : J} (h : ws ≠ []) : replay j ws ∈ moments j ws := by
  induction ws generalizing j with
  | nil => exact absurd rfl h
  | cons w ws ih =>
    by_cases hws : ws = []
    · rw [hws]
      exact mem_cons_self
    · exact mem_cons_of_mem _ (ih hws)

/-- A chain through the moments of some writes goes on from the journal after them. -/
theorem chain_moments {Q : J → J → Prop} {j : J} {js : List J}
    (h : (j :: moments j ws).IsChain Q) (hjs : (replay j ws :: js).IsChain Q) :
    (j :: (moments j ws ++ js)).IsChain Q := by
  induction ws generalizing j with
  | nil => exact hjs
  | cons w ws ih =>
    simp only [moments, cons_append, isChain_cons_cons] at h ⊢
    exact ⟨h.1, ih h.2 hjs⟩

variable {R S : J → W → Prop} {P : J → Prop}

theorem permits_append (j : J) (ws vs : List W) :
    Permits R j (ws ++ vs) ↔ Permits R j ws ∧ Permits R (replay j ws) vs := by
  induction ws generalizing j with
  | nil => simp [Permits]
  | cons w ws ih => simp only [cons_append, Permits, ih, replay_cons, and_assoc]

theorem Permits.take {j : J} (h : Permits R j ws) (k : Nat) :
    Permits R j (ws.take k) := by
  rw [← take_append_drop k ws, permits_append] at h
  exact h.1

/-- An invariant of permitted writes holds after all of them. -/
theorem Permits.replay (hR : ∀ j w, P j → R j w → P (apply j w)) {j : J}
    (h : Permits R j ws) (hj : P j) : P (replay j ws) := by
  induction ws generalizing j with
  | nil => exact hj
  | cons w ws ih => exact ih h.2 (hR j w hj h.1)

/-- A step of permitted writes relates each journal to the next one. -/
theorem Permits.chain {Q : J → J → Prop} (hR : ∀ j w, P j → R j w → P (apply j w))
    (hQ : ∀ j w, P j → R j w → Q j (apply j w)) {j : J} (h : Permits R j ws)
    (hj : P j) : (j :: Durable.moments j ws).IsChain Q := by
  induction ws generalizing j with
  | nil => exact isChain_singleton j
  | cons w ws ih =>
    rw [Durable.moments, isChain_cons_cons]
    exact ⟨hQ j w hj h.1, ih h.2 (hR j w hj h.1)⟩

end Journal

/-- What is read of a journal until it is gone for good. -/
theorem isChain_filterMap {J β : Type} {read : J → Option β} {Q : β → β → Prop} {gone : J → Prop}
    (hgone : ∀ j, gone j → read j = none) {js : List J}
    (h : js.IsChain fun j j' => (gone j → gone j') ∧
      ∀ b, read j = some b → gone j' ∨ ∃ b', read j' = some b' ∧ Q b b') :
    (js.filterMap read).IsChain Q ∧ ∀ j ∈ js.head?, gone j → js.filterMap read = [] := by
  induction js with
  | nil => exact ⟨isChain_nil, by simp⟩
  | cons j js ih =>
    obtain ⟨hrest, hnone⟩ := ih h.tail
    cases js with
    | nil =>
      refine ⟨?_, fun k hk hg => ?_⟩
      · cases hj : read j <;> simp [hj]
      · obtain rfl : j = k := by simpa using hk
        simp [hgone j hg]
    | cons j' js =>
      obtain ⟨hstay, hgo⟩ := (isChain_cons_cons.mp h).1
      refine ⟨?_, fun k hk hg => ?_⟩
      · cases hj : read j with
        | none => simpa [hj] using hrest
        | some b =>
          rw [filterMap_cons_some hj]
          rcases hgo b hj with hg | ⟨b', hb', hq⟩
          · rw [hnone j' (by simp) hg]
            exact isChain_singleton b
          · rw [filterMap_cons_some hb'] at hrest ⊢
            exact isChain_cons_cons.mpr ⟨hq, hrest⟩
      · obtain rfl : j = k := by simpa using hk
        rw [filterMap_cons_none (hgone j hg)]
        exact hnone j' (by simp) (hstay hg)

section Programs

variable {V J W ε α β : Type}

/-- A process: what it holds in memory, the journal, and what it has committed so far. -/
structure Proc (V J W : Type) where
  memory : V
  journal : J
  written : List W := []

abbrev Prog (V J W ε α : Type) := EStateM ε (Proc V J W) α

def journal : Prog V J W ε J := fun p => .ok p.journal p

def memory : Prog V J W ε V := fun p => .ok p.memory p

def remember (f : V → V) : Prog V J W ε Unit := fun p => .ok () { p with memory := f p.memory }

def raise (e : ε) : Prog V J W ε α := fun p => .error e p

def lift : Except ε α → Prog V J W ε α
  | .ok a => pure a
  | .error e => raise e

/-- `m`, with its outcome as a value. -/
def attempt (m : Prog V J W ε α) : Prog V J W ε (Except ε α) := fun p =>
  match m p with
  | .ok a p => .ok (.ok a) p
  | .error e p => .ok (.error e) p

/-- What `m` ends with satisfies `Q`. -/
def wp (m : Prog V J W ε α) (Q : Except ε α → Proc V J W → Prop) (p : Proc V J W) : Prop :=
  match m p with
  | .ok a p => Q (.ok a) p
  | .error e p => Q (.error e) p

variable {Q Q' : Except ε α → Proc V J W → Prop} {p : Proc V J W}

theorem wp_mono {m : Prog V J W ε α} (h : wp m Q p) (hQ : ∀ r p', Q r p' → Q' r p') :
    wp m Q' p := by
  unfold wp at h ⊢
  split at h <;> exact hQ _ _ h

theorem wp_and {m : Prog V J W ε α} (h : wp m Q p) (h' : wp m Q' p) :
    wp m (fun r p' => Q r p' ∧ Q' r p') p := by
  unfold wp at h h' ⊢
  cases hm : m p <;> rw [hm] at h h' <;> exact ⟨h, h'⟩

@[simp] theorem wp_pure (a : α) : wp (pure a) Q p ↔ Q (.ok a) p := Iff.rfl

@[simp] theorem wp_raise (e : ε) : wp (raise e) Q p ↔ Q (.error e) p := Iff.rfl

@[simp] theorem wp_journal {Q : Except ε J → Proc V J W → Prop} :
    wp journal Q p ↔ Q (.ok p.journal) p := Iff.rfl

@[simp] theorem wp_memory {Q : Except ε V → Proc V J W → Prop} :
    wp memory Q p ↔ Q (.ok p.memory) p := Iff.rfl

@[simp] theorem wp_remember {Q : Except ε Unit → Proc V J W → Prop} (f : V → V) :
    wp (remember f) Q p ↔ Q (.ok ()) { p with memory := f p.memory } := Iff.rfl

@[simp] theorem wp_lift (r : Except ε α) : wp (lift r) Q p ↔ Q r p := by
  cases r <;> exact Iff.rfl

theorem wp_bind (m : Prog V J W ε α) (f : α → Prog V J W ε β)
    {Q : Except ε β → Proc V J W → Prop} :
    wp (m >>= f) Q p ↔
      wp m (fun r p => match r with
        | .ok a => wp (f a) Q p
        | .error e => Q (.error e) p) p := by
  simp only [wp, bind, EStateM.bind]
  cases m p <;> rfl

@[simp] theorem wp_attempt (m : Prog V J W ε α) {Q : Except ε (Except ε α) → Proc V J W → Prop} :
    wp (attempt m) Q p ↔ wp m (fun r p => Q (.ok r) p) p := by
  simp only [wp, attempt]
  cases m p <;> rfl

/-- The program ends with a result and keeps `P`. -/
def Keeps (P : Proc V J W → Prop) (m : Prog V J W ε α) : Prop :=
  ∀ p, P p → wp m (fun r p' => (∃ a, r = .ok a) ∧ P p') p

namespace Keeps

variable {P : Proc V J W → Prop}

theorem pure (a : α) : Keeps P (pure a : Prog V J W ε α) := fun _ h => ⟨⟨a, rfl⟩, h⟩

theorem journal : Keeps P (journal : Prog V J W ε J) := fun p h => ⟨⟨p.journal, rfl⟩, h⟩

theorem bind {m : Prog V J W ε α} {f : α → Prog V J W ε β} (hm : Keeps P m)
    (hf : ∀ a, Keeps P (f a)) : Keeps P (m >>= f) := by
  intro p h
  rw [wp_bind]
  refine wp_mono (hm p h) ?_
  rintro _ p' ⟨⟨a, rfl⟩, h'⟩
  exact hf a p' h'

theorem ite {c : Prop} [Decidable c] {m m' : Prog V J W ε α} (h : Keeps P m) (h' : Keeps P m') :
    Keeps P (if c then m else m') := by
  split
  · exact h
  · exact h'

end Keeps

section Commit

variable [Replay J W]

def Proc.commit (p : Proc V J W) (w : W) : Proc V J W :=
  { p with journal := apply p.journal w, written := p.written ++ [w] }

@[simp] theorem Proc.commit_memory (p : Proc V J W) (w : W) : (p.commit w).memory = p.memory := rfl

@[simp] theorem Proc.commit_journal (p : Proc V J W) (w : W) :
    (p.commit w).journal = apply p.journal w := rfl

def commit (w : W) : Prog V J W ε Unit := fun p => .ok () (p.commit w)

@[simp] theorem wp_commit {Q : Except ε Unit → Proc V J W → Prop} (w : W) :
    wp (commit w) Q p ↔ Q (.ok ()) (p.commit w) := Iff.rfl

/-- The process got from the journal `j` to its own by writes that `R` allows. -/
structure Follows (R : J → W → Prop) (j : J) (p : Proc V J W) : Prop where
  replayed : p.journal = replay j p.written
  permitted : Permits R j p.written

variable {R : J → W → Prop} {j : J}

theorem Follows.start (R : J → W → Prop) (v : V) (j : J) : Follows R j (⟨v, j, []⟩ : Proc V J W) :=
  ⟨rfl, trivial⟩

theorem Follows.commit (h : Follows R j p) {w : W} (hw : R p.journal w) :
    Follows R j (p.commit w) := by
  refine ⟨?_, ?_⟩
  · rw [Proc.commit, h.replayed, replay_append]
    rfl
  · rw [Proc.commit, permits_append, ← h.replayed]
    exact ⟨h.permitted, hw, trivial⟩

/-- Memory plays no part. -/
theorem Follows.of_eq {p' : Proc V J W} (h : Follows R j p) (hj : p'.journal = p.journal)
    (hw : p'.written = p.written) : Follows R j p' :=
  ⟨by rw [hj, hw]; exact h.replayed, by rw [hw]; exact h.permitted⟩

end Commit

end Programs

section Runs

variable {σ α : Type} (step : σ → α → σ) (ok : σ → α → Prop)

def runs (s : σ) (as : List α) : σ := as.foldl step s

/-- Each step of the run meets `ok` in the state it is taken in. -/
def Meets : σ → List α → Prop
  | _, [] => True
  | s, a :: as => ok s a ∧ Meets (step s a) as

variable {step ok}

theorem runs_invariant {P : σ → Prop} (hP : ∀ s a, P s → ok s a → P (step s a)) {s : σ}
    {as : List α} (h : Meets step ok s as) (hs : P s) : P (runs step s as) := by
  induction as generalizing s with
  | nil => exact hs
  | cons a as ih => exact ih h.2 (hP s a hs h.1)

theorem runs_concat (s : σ) (as : List α) (a : α) :
    runs step s (as ++ [a]) = step (runs step s as) a := foldl_concat ..

theorem meets_append (s : σ) (as bs : List α) :
    Meets step ok s (as ++ bs) ↔ Meets step ok s as ∧ Meets step ok (runs step s as) bs := by
  induction as generalizing s with
  | nil => simp [Meets, runs]
  | cons a as ih => simp only [cons_append, Meets, ih, and_assoc, runs, foldl_cons]

theorem Meets.of_forall (h : ∀ s a, ok s a) (s : σ) (as : List α) : Meets step ok s as := by
  induction as generalizing s with
  | nil => trivial
  | cons a as ih => exact ⟨h s a, ih _⟩

theorem Meets.of_mem {R : α → Prop} {as : List α} (h : ∀ a ∈ as, R a) (s : σ) :
    Meets step (fun _ a => R a) s as := by
  induction as generalizing s with
  | nil => trivial
  | cons a as ih =>
    exact ⟨h a mem_cons_self, ih (fun b hb => h b (mem_cons_of_mem _ hb)) _⟩

end Runs

end Emosa.Durable
