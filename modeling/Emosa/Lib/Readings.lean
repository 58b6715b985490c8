import Emosa.Lib.Writes

/-!
# Emosa.Lib.Readings

Programs that read a world they do not control. Nothing is assumed of the world: it is given by what
the first, the second, the third reading finds, and a program counts its readings.

* `read`, `self`, `change`: a reading, the program's own state, a change of it.
* `Looks m`: `m` only takes readings. `Tells P m`: and commits writes that satisfy `P`.
* `Always I m`: `m` keeps `I` of the state and the journal however it ends. The rules follow the
  program's text.
-/

namespace Emosa.Durable

/-- A state, and the number of readings taken. -/
structure At (V : Type) where
  self : V
  turn : Nat := 0

variable {V J W ε α β : Type}

def read (f : Nat → α) : Prog (At V) J W ε α := fun p =>
  .ok (f p.memory.turn) { p with memory := { p.memory with turn := p.memory.turn + 1 } }

def self : Prog (At V) J W ε V := fun p => .ok p.memory.self p

def change (f : V → V) : Prog (At V) J W ε Unit := fun p =>
  .ok () { p with memory := { p.memory with self := f p.memory.self } }

section Rules

variable {p : Proc (At V) J W}

@[simp] theorem wp_read {Q : Except ε α → Proc (At V) J W → Prop} (f : Nat → α) :
    wp (read f) Q p ↔ Q (.ok (f p.memory.turn))
      { p with memory := { p.memory with turn := p.memory.turn + 1 } } := Iff.rfl

@[simp] theorem wp_self {Q : Except ε V → Proc (At V) J W → Prop} :
    wp self Q p ↔ Q (.ok p.memory.self) p := Iff.rfl

@[simp] theorem wp_change {Q : Except ε Unit → Proc (At V) J W → Prop} (f : V → V) :
    wp (change f) Q p ↔
      Q (.ok ()) { p with memory := { p.memory with self := f p.memory.self } } := Iff.rfl

end Rules

/-- Between the two, readings were taken and nothing else happened. -/
structure Looked (p p' : Proc (At V) J W) : Prop where
  self : p'.memory.self = p.memory.self
  journal : p'.journal = p.journal
  turn : p.memory.turn ≤ p'.memory.turn

theorem Looked.refl (p : Proc (At V) J W) : Looked p p := ⟨rfl, rfl, Nat.le_refl _⟩

theorem Looked.next (p : Proc (At V) J W) :
    Looked p { p with memory := { p.memory with turn := p.memory.turn + 1 } } :=
  ⟨rfl, rfl, Nat.le_succ _⟩

theorem Looked.trans {p p₁ p₂ : Proc (At V) J W} (h : Looked p p₁) (h' : Looked p₁ p₂) :
    Looked p p₂ :=
  ⟨h'.self.trans h.self, h'.journal.trans h.journal, Nat.le_trans h.turn h'.turn⟩

/-- The program only takes readings, however it ends. -/
def Looks (m : Prog (At V) J W ε α) : Prop := ∀ p, wp m (fun _ p' => Looked p p') p

variable {m m' : Prog (At V) J W ε α} {f : α → Prog (At V) J W ε β}

namespace Looks

theorem pure (a : α) : Looks (pure a : Prog (At V) J W ε α) := .refl

theorem raise (e : ε) : Looks (raise e : Prog (At V) J W ε α) := .refl

theorem read (f : Nat → α) : Looks (read f : Prog (At V) J W ε α) := .next

theorem self : Looks (self : Prog (At V) J W ε V) := .refl

theorem bind (hm : Looks m) (hf : ∀ a, Looks (f a)) : Looks (m >>= f) := by
  intro p
  rw [wp_bind]
  refine wp_mono (hm p) ?_
  rintro (e | a) p₁ h
  · exact h
  · exact wp_mono (hf a p₁) fun _ _ h' => h.trans h'

theorem ite {c : Prop} [Decidable c] (h : Looks m) (h' : Looks m') : Looks (if c then m else m') := by
  split
  · exact h
  · exact h'

end Looks

/-- Between the two, readings were taken and writes that satisfy `P` were committed. -/
structure Told [Replay J W] (P : W → Prop) (p p' : Proc (At V) J W) : Prop where
  self : p'.memory.self = p.memory.self
  turn : p.memory.turn ≤ p'.memory.turn
  wrote : Wrote P p p'

section Tells

variable [Replay J W] {P : W → Prop}

theorem Told.trans {p p₁ p₂ : Proc (At V) J W} (h : Told P p p₁) (h' : Told P p₁ p₂) : Told P p p₂ :=
  ⟨h'.self.trans h.self, Nat.le_trans h.turn h'.turn, h.wrote.trans h'.wrote⟩

theorem Looked.told {p p' : Proc (At V) J W} (h : Looked p p') : Told P p p' :=
  ⟨h.self, h.turn, .of_eq h.journal⟩

/-- The program takes readings and commits writes that satisfy `P`, however it ends. -/
def Tells (P : W → Prop) (m : Prog (At V) J W ε α) : Prop := ∀ p, wp m (fun _ p' => Told P p p') p

theorem Looks.tells (h : Looks m) : Tells P m := fun p =>
  wp_mono (h p) fun _ _ h => h.told

namespace Tells

theorem commit {w : W} (h : P w) : Tells P (commit w : Prog (At V) J W ε Unit) := fun _ =>
  ⟨rfl, Nat.le_refl _, .commit h⟩

theorem bind (hm : Tells P m) (hf : ∀ a, Tells P (f a)) : Tells P (m >>= f) := by
  intro p
  rw [wp_bind]
  refine wp_mono (hm p) ?_
  rintro (e | a) p₁ h
  · exact h
  · exact wp_mono (hf a p₁) fun _ _ h' => h.trans h'

theorem forM {l : List β} {f : β → Prog (At V) J W ε PUnit} (h : ∀ b ∈ l, Tells P (f b)) :
    Tells P (l.forM f) := by
  induction l with
  | nil => exact (Looks.pure _).tells
  | cons b l ih =>
    exact (h b List.mem_cons_self).bind fun _ => ih fun c hc => h c (List.mem_cons_of_mem _ hc)

end Tells

end Tells

/-- The program keeps `I` of its state and the journal, however it ends. -/
def Always (I : V → J → Prop) (m : Prog (At V) J W ε α) : Prop :=
  ∀ p, I p.memory.self p.journal → wp m (fun _ p' => I p'.memory.self p'.journal) p

namespace Always

variable {I : V → J → Prop}

theorem pure (a : α) : Always I (pure a : Prog (At V) J W ε α) := fun _ h => h

theorem raise (e : ε) : Always I (raise e : Prog (At V) J W ε α) := fun _ h => h

theorem read (f : Nat → α) : Always I (read f : Prog (At V) J W ε α) := fun _ h => h

theorem self : Always I (self : Prog (At V) J W ε V) := fun _ h => h

theorem change {f : V → V} (h : ∀ v j, I v j → I (f v) j) :
    Always I (change f : Prog (At V) J W ε Unit) := fun _ hp => h _ _ hp

theorem commit [Replay J W] {w : W} (h : ∀ v j, I v j → I v (apply j w)) :
    Always I (commit w : Prog (At V) J W ε Unit) := fun _ hp => h _ _ hp

theorem bind (hm : Always I m) (hf : ∀ a, Always I (f a)) : Always I (m >>= f) := by
  intro p h
  rw [wp_bind]
  refine wp_mono (hm p h) ?_
  rintro (e | a) p' h'
  · exact h'
  · exact hf a p' h'

/-- What follows reads a state that satisfies the invariant. -/
theorem self_bind {f : V → Prog (At V) J W ε β} (h : ∀ v, (∃ j, I v j) → Always I (f v)) :
    Always I (Durable.self >>= f) := fun p hp => h p.memory.self ⟨p.journal, hp⟩ p hp

theorem attempt (h : Always I m) : Always I (attempt m) := fun p hp =>
  (wp_attempt m).mpr (h p hp)

theorem ite {c : Prop} [Decidable c] (h : Always I m) (h' : Always I m') :
    Always I (if c then m else m') := by
  split
  · exact h
  · exact h'

theorem forM {l : List β} {f : β → Prog (At V) J W ε PUnit} (h : ∀ b ∈ l, Always I (f b)) :
    Always I (l.forM f) := by
  induction l with
  | nil => exact pure _
  | cons b l ih =>
    exact (h b List.mem_cons_self).bind fun _ => ih fun c hc => h c (List.mem_cons_of_mem _ hc)

end Always

end Emosa.Durable
