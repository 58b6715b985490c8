import Emosa.Lib.Readings
import Emosa.Store
import Emosa.Wire.ReportSource
import Emosa.Wire.WscExchange

/-!
# Emosa.Wire.Coordinator

What the coordinators of a session have in common: the readings they take (the clock, the published
report, the link), and the guarded transmission of a report.

* `Outside`: the readings.
* `PreparedReport.send`: every fragment is checked before and after it goes out.
-/

namespace Emosa.Wire

open Durable

open Durable (Prog Proc At Replay Always wp)
open Reports (ReportStamp)

/-- What the readings of a session's world find, one after another. `current` is the published report
under the session's own binding, `link` what sending a frame raises. -/
structure Outside (σ : Type) where
  clock : Nat → ℚ
  current : Nat → Option σ
  link : Nat → Option Exn

variable {σ V J W α : Type}

abbrev Act (V J W α : Type) := Prog (At V) J W Exn α

def refuse (code : Reason) (detail : String) : Act V J W α :=
  Durable.raise (.emosa ⟨code, detail⟩)

def liftE : Except EmosaError α → Act V J W α
  | .ok a => pure a
  | .error e => Durable.raise (.emosa e)

def demand (condition : Prop) [Decidable condition] (detail : String) : Act V J W Unit :=
  if condition then pure () else refuse .notReady detail

namespace Outside

variable (o : Outside σ)

def now : Act V J W ℚ := Durable.read o.clock

def sendFrame : Act V J W Unit := do
  match ← Durable.read o.link with
  | none => pure ()
  | some e => Durable.raise e

end Outside

structure PreparedReport where
  messageType : Nat
  mid : Nat
  stamp : ReportStamp
  deadline : ℚ
  frames : List Bytes

namespace PreparedReport

variable (r : PreparedReport) (sendFrame : Bytes → Act V J W Unit) (currentStamp : Act V J W ReportStamp)
  (clock : Act V J W ℚ)

/-- The checks before and after a fragment. -/
def guard (detail : String) : Act V J W Unit := do
  let current ← currentStamp
  let now ← clock
  liftE (r.stamp.check current now)
  demand (now < r.deadline) detail

def sendOne (frame : Bytes) : Act V J W PUnit := do
  r.guard currentStamp clock "report response deadline expired"
  sendFrame frame
  r.guard currentStamp clock "report transmission exceeded its response deadline"

def send : Act V J W PUnit := r.frames.forM (r.sendOne sendFrame currentStamp clock)

end PreparedReport

section Passes

variable (o : Outside σ) (stampOf : σ → ReportStamp) (r : PreparedReport)

/-- The checks of a fragment, at the `n`-th reading. -/
def Outside.Guarded (n : Nat) : Prop :=
  ∃ s, o.current n = some s ∧ r.stamp.check (stampOf s) (o.clock (n + 1)) = .ok () ∧
    o.clock (n + 1) < r.deadline

/-- From the `n`-th reading on, `k` fragments of a report go out: the link takes each of them, and
before and after it the stamp is still good and the deadline ahead. -/
def Outside.Passes : Nat → Nat → Prop
  | 0, _ => True
  | k + 1, n => o.Guarded stampOf r n ∧ o.link (n + 2) = none ∧ o.Guarded stampOf r (n + 3) ∧
      Passes k (n + 5)

/-- The stamp of the published report. -/
def Outside.stamp (detail : String) : Act V J W ReportStamp := do
  match ← Durable.read o.current with
  | none => refuse .notReady detail
  | some s => pure (stampOf s)

variable {o stampOf r} {detail : String}

theorem Outside.looks_sendFrame : Looks (o.sendFrame : Act V J W Unit) := by
  refine .bind (.read _) fun e => ?_
  cases e with
  | none => exact .pure _
  | some e => exact .raise e

theorem looks_liftE (x : Except EmosaError α) : Looks (liftE x : Act V J W α) := by
  cases x with
  | error e => exact .raise _
  | ok a => exact .pure a

theorem looks_demand {condition : Prop} [Decidable condition] (text : String) :
    Looks (demand condition text : Act V J W Unit) := .ite (.pure _) (.raise _)

theorem PreparedReport.looks_guard {currentStamp : Act V J W ReportStamp} {clock : Act V J W ℚ}
    (hcurrent : Looks currentStamp) (hclock : Looks clock) (text : String) :
    Looks (r.guard currentStamp clock text) :=
  .bind hcurrent fun _ => .bind hclock fun _ => .bind (looks_liftE _) fun _ => looks_demand _

theorem PreparedReport.tells_send [Replay J W] {P : W → Prop} {sendFrame : Bytes → Act V J W Unit}
    {currentStamp : Act V J W ReportStamp} {clock : Act V J W ℚ}
    (hsend : ∀ f ∈ r.frames, Tells P (sendFrame f)) (hcurrent : Looks currentStamp)
    (hclock : Looks clock) : Tells P (r.send sendFrame currentStamp clock) :=
  .forM fun f hf => .bind (looks_guard hcurrent hclock _).tells fun _ =>
    .bind (hsend f hf) fun _ => (looks_guard hcurrent hclock _).tells

variable {p : Proc (At V) J W}

theorem Outside.wp_guard {text : String} :
    wp (r.guard (o.stamp stampOf detail) o.now text : Act V J W Unit)
      (fun res p' => Looked p p' ∧
        (∀ u, res = .ok u → p'.memory.turn = p.memory.turn + 2) ∧
        (o.Guarded stampOf r p.memory.turn → ∃ u, res = .ok u)) p := by
  unfold PreparedReport.guard Outside.stamp Outside.now
  simp only [wp_bind, wp_read]
  cases hs : o.current p.memory.turn with
  | none =>
    refine ⟨⟨rfl, rfl, Nat.le_succ _⟩, by simp, ?_⟩
    rintro ⟨s, hs', -⟩
    rw [hs] at hs'
    cases hs'
  | some s =>
    have hlooked : Looked p
        { p with memory := { p.memory with turn := p.memory.turn + 1 + 1 } } :=
      ⟨rfl, rfl, Nat.le_add_right _ 2⟩
    simp only [wp_pure]
    cases hc : r.stamp.check (stampOf s) (o.clock (p.memory.turn + 1)) with
    | error e =>
      refine ⟨hlooked, by simp, ?_⟩
      rintro ⟨s', hs', hc', -⟩
      rw [hs] at hs'
      cases hs'
      rw [hc] at hc'
      cases hc'
    | ok u =>
      unfold demand
      split
      · exact ⟨hlooked, fun _ _ => rfl, fun _ => ⟨(), rfl⟩⟩
      · rename_i hd
        refine ⟨hlooked, by simp, ?_⟩
        rintro ⟨s', hs', -, hd'⟩
        exact absurd hd' hd

theorem Outside.wp_send :
    wp (r.send (fun _ => o.sendFrame) (o.stamp stampOf detail) o.now : Act V J W PUnit)
      (fun res p' => Looked p p' ∧
        (∀ u, res = .ok u → p'.memory.turn = p.memory.turn + 5 * r.frames.length) ∧
        (o.Passes stampOf r r.frames.length p.memory.turn → ∃ u, res = .ok u)) p := by
  unfold PreparedReport.send
  generalize r.frames = frames
  induction frames generalizing p with
  | nil => exact ⟨.refl p, fun _ _ => rfl, fun _ => ⟨PUnit.unit, rfl⟩⟩
  | cons frame frames ih =>
    rw [List.forM_eq_forM, List.forM_cons, wp_bind]
    unfold PreparedReport.sendOne
    rw [wp_bind]
    refine wp_mono wp_guard ?_
    rintro (e | u) p₁ ⟨hlook₁, hturn₁, hok₁⟩
    · refine ⟨hlook₁, nofun, fun h => ?_⟩
      obtain ⟨u, hu⟩ := hok₁ h.1
      cases hu
    have hp₁ := hturn₁ u rfl
    rw [wp_bind]
    unfold Outside.sendFrame
    rw [wp_bind, wp_read]
    cases hl : o.link p₁.memory.turn with
    | some e =>
      refine ⟨hlook₁.trans (.next p₁), nofun, fun h => ?_⟩
      rw [hp₁, h.2.1] at hl
      cases hl
    | none =>
      simp only [wp_pure]
      refine wp_mono wp_guard ?_
      rintro (e | u') p₂ ⟨hlook₂, hturn₂, hok₂⟩
      · refine ⟨hlook₁.trans ((Looked.next p₁).trans hlook₂), nofun, fun h => ?_⟩
        obtain ⟨u, hu⟩ := hok₂ (by rw [hp₁]; exact h.2.2.1)
        cases hu
      have hp₂ := hturn₂ u' rfl
      simp only at hp₂
      refine wp_mono ih ?_
      rintro res p₃ ⟨hlook₃, hturn₃, hok₃⟩
      refine ⟨hlook₁.trans ((Looked.next p₁).trans (hlook₂.trans hlook₃)), ?_, ?_⟩
      · intro u hu
        rw [hturn₃ u hu, hp₂, List.length_cons]
        omega
      · intro h
        refine hok₃ ?_
        rw [hp₂, hp₁]
        exact h.2.2.2

end Passes

section Always

variable {I : V → J → Prop} {o : Outside σ}

theorem always_refuse (code : Reason) (detail : String) :
    Always I (refuse code detail : Act V J W α) := .raise _

theorem always_liftE (x : Except EmosaError α) : Always I (liftE x : Act V J W α) := by
  cases x with
  | error e => exact .raise _
  | ok a => exact .pure a

theorem always_liftE_bind {β : Type} {x : Except EmosaError α} {f : α → Act V J W β}
    (h : ∀ a, x = .ok a → Always I (f a)) : Always I (liftE x >>= f) := by
  cases x with
  | error e => exact fun _ hp => hp
  | ok a => exact h a rfl

theorem always_demand {condition : Prop} [Decidable condition] (detail : String) :
    Always I (demand condition detail : Act V J W Unit) := .ite (.pure _) (always_refuse _ _)

theorem Outside.always_now : Always I (o.now : Act V J W ℚ) := .read _

theorem Outside.always_sendFrame : Always I (o.sendFrame : Act V J W Unit) := by
  refine .bind (.read _) fun e => ?_
  cases e with
  | none => exact .pure _
  | some e => exact .raise e

theorem PreparedReport.always_guard {r : PreparedReport} {currentStamp : Act V J W ReportStamp}
    {clock : Act V J W ℚ} (hcurrent : Always I currentStamp) (hclock : Always I clock)
    (detail : String) : Always I (r.guard currentStamp clock detail) :=
  .bind hcurrent fun _ => .bind hclock fun _ => .bind (always_liftE _) fun _ => always_demand _

theorem PreparedReport.always_send {r : PreparedReport} {sendFrame : Bytes → Act V J W Unit}
    {currentStamp : Act V J W ReportStamp} {clock : Act V J W ℚ}
    (hsend : ∀ f ∈ r.frames, Always I (sendFrame f)) (hcurrent : Always I currentStamp)
    (hclock : Always I clock) : Always I (r.send sendFrame currentStamp clock) :=
  .forM fun f hf => .bind (always_guard hcurrent hclock _) fun _ =>
    .bind (hsend f hf) fun _ => always_guard hcurrent hclock _

end Always

end Emosa.Wire
