import Mathlib.Data.List.Basic

/-!
# Emosa.Lib.Dialogue

A component that answers one call after another: `answer s c` is the answer to the call `c` in the
state `s`, and the state after it.

* `after`, `trace`: the state after some calls, and the calls with their answers.
* `trace_split`: a place in a trace is a place in the calls, with the state before it.
* `after_invariant`: what every call keeps.
-/

namespace Emosa.Dialogue

structure Entry (α ω : Type) where
  call : α
  answer : ω

variable {σ α ω : Type} (answer : σ → α → ω × σ)

def after (s : σ) (cs : List α) : σ := cs.foldl (fun s c => (answer s c).2) s

def trace : σ → List α → List (Entry α ω)
  | _, [] => []
  | s, c :: cs => ⟨c, (answer s c).1⟩ :: trace (answer s c).2 cs

@[simp] theorem after_nil (s : σ) : after answer s [] = s := rfl

@[simp] theorem after_cons (s : σ) (c : α) (cs : List α) :
    after answer s (c :: cs) = after answer (answer s c).2 cs := rfl

@[simp] theorem trace_nil (s : σ) : trace answer s [] = [] := rfl

@[simp] theorem trace_cons (s : σ) (c : α) (cs : List α) :
    trace answer s (c :: cs) = ⟨c, (answer s c).1⟩ :: trace answer (answer s c).2 cs := rfl

theorem trace_append (s : σ) (cs ds : List α) :
    trace answer s (cs ++ ds) = trace answer s cs ++ trace answer (after answer s cs) ds := by
  induction cs generalizing s with
  | nil => rfl
  | cons c cs ih => simp [ih]

theorem map_call_trace (s : σ) (cs : List α) : (trace answer s cs).map Entry.call = cs := by
  induction cs generalizing s with
  | nil => rfl
  | cons c cs ih => simp [ih]

variable {answer}

/-- A place in a trace is a place in the calls. -/
theorem trace_split {s : σ} {cs : List α} {pre post : List (Entry α ω)} {e : Entry α ω}
    (h : trace answer s cs = pre ++ e :: post) :
    ∃ before c rest, cs = before ++ c :: rest ∧ pre = trace answer s before ∧
      e = ⟨c, (answer (after answer s before) c).1⟩ ∧
      post = trace answer (answer (after answer s before) c).2 rest := by
  induction cs generalizing s pre with
  | nil => simp at h
  | cons c cs ih =>
    cases pre with
    | nil =>
      obtain ⟨he, hpost⟩ := List.cons.inj h
      exact ⟨[], c, cs, rfl, rfl, he.symm, hpost.symm⟩
    | cons e' pre =>
      obtain ⟨he, hrest⟩ := List.cons.inj h
      obtain ⟨before, d, rest, hcs, hpre, hentry, hpost⟩ := ih hrest
      refine ⟨c :: before, d, rest, by rw [hcs]; rfl, ?_, hentry, hpost⟩
      rw [trace_cons, ← hpre, he]

theorem call_mem {s : σ} {cs : List α} {e : Entry α ω} (h : e ∈ trace answer s cs) : e.call ∈ cs := by
  induction cs generalizing s with
  | nil => cases h
  | cons c cs ih =>
    rcases List.mem_cons.mp h with rfl | h
    · exact List.mem_cons_self
    · exact List.mem_cons_of_mem c (ih h)

/-- What every call keeps holds after any number of them. -/
theorem after_invariant {P : σ → Prop} (hstep : ∀ s c, P s → P (answer s c).2) {s : σ}
    (hs : P s) (cs : List α) : P (after answer s cs) := by
  induction cs generalizing s with
  | nil => exact hs
  | cons c cs ih => exact ih (hstep s c hs)

end Emosa.Dialogue
