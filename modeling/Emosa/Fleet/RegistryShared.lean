import Emosa.Fleet.Registry
import Emosa.Lib.Files

/-!
# Emosa.Fleet.RegistryShared

Two processes on one registry file: the fleet that serves pods, and `emosa-fleet forget`. A call reads
the file, writes the whole of it to a temporary file and renames that over it; the temporary file has
one name for both processes. `Shared.step` is one such file operation of one process.

`calls_linearize`: where each rename finds the file as its call read it and the temporary file as its
call wrote it, the calls answer and leave the file as if they had been made one after the other, in
the order they ended in.
-/

namespace Emosa.Fleet
namespace Registry

open Durable Files

inductive Process where
  | serving
  | other
  deriving DecidableEq

/-- `fleet.json`, and what it is written as first. -/
inductive Name where
  | file
  | temporary
  deriving DecidableEq

/-- `missing`: the rename found no temporary file, and the call raised. -/
inductive Ending where
  | answered (a : Answer)
  | missing
  deriving DecidableEq

/-- A call between two of its file operations: what it read, what it writes and what it will answer. -/
structure Pending where
  call : Call
  read : Agents
  new : Agents
  answer : Answer
  staged : Bool := false

structure Done where
  process : Process
  call : Call
  ending : Ending
  deriving DecidableEq

structure Shared where
  files : Dict Name Agents := ∅
  pending : Process → Option Pending := fun _ => none
  done : List Done := []

namespace Shared

variable (f : Fixed) (s : Settings)

/-- What `_load` reads. -/
def loaded (w : Shared) : Agents := (w.files.get? .file).getD ∅

inductive Move where
  /-- A call begins and reads the file. -/
  | load (process : Process) (call : Call)
  /-- The call in progress makes its next file operation. -/
  | next (process : Process)

def await (w : Shared) (process : Process) (p : Option Pending) : Shared :=
  { w with pending := fun q => if q = process then p else w.pending q }

def finish (w : Shared) (process : Process) (call : Call) (ending : Ending) : Shared :=
  { w with done := w.done ++ [⟨process, call, ending⟩] }

def load (w : Shared) (process : Process) (c : Call) : Shared :=
  match w.pending process with
  | some _ => w
  | none =>
    match call f s w.loaded c with
    | (answer, none) => w.finish process c (.answered answer)
    | (answer, some new) => w.await process (some ⟨c, w.loaded, new.sorted, answer, false⟩)

def next (w : Shared) (process : Process) : Shared :=
  match w.pending process with
  | none => w
  | some p =>
    if p.staged then
      let ending := if (w.files.get? .temporary).isSome then .answered p.answer else .missing
      { w.await process none with files := FileOp.apply w.files (.rename .temporary .file) }.finish
        process p.call ending
    else
      { w.await process (some { p with staged := true }) with
        files := FileOp.apply w.files (.write .temporary p.new) }

def step (w : Shared) : Move → Shared
  | .load process c => w.load f s process c
  | .next process => w.next process

def run (w : Shared) (ms : List Move) : Shared := runs (step f s) w ms

/-- A rename finds the file as its call read it, and the temporary file as its call wrote it. -/
def Undisturbed (w : Shared) : Move → Prop
  | .load _ _ => True
  | .next process => ∀ p ∈ w.pending process, p.staged = true →
      w.loaded = p.read ∧ w.files.get? .temporary = some p.new

instance (w : Shared) (process : Process) : Decidable (Undisturbed w (.next process)) :=
  inferInstanceAs (Decidable (∀ p ∈ w.pending process, p.staged = true →
    w.loaded = p.read ∧ w.files.get? .temporary = some p.new))

/-! ## One call after the other -/

/-- The file and the answers of the calls made one after the other. -/
def sequential : Agents → List Call → Agents × List Ending
  | agents, [] => (agents, [])
  | agents, c :: cs =>
    let rest := sequential (after f s agents c) cs
    (rest.1, .answered (call f s agents c).1 :: rest.2)

theorem sequential_append (agents : Agents) (cs : List Call) (c : Call) :
    sequential f s agents (cs ++ [c]) =
      let before := sequential f s agents cs
      (after f s before.1 c, before.2 ++ [.answered (call f s before.1 c).1]) := by
  induction cs generalizing agents with
  | nil => rfl
  | cons d cs ih => simp only [List.cons_append, sequential, ih]

variable {f : Fixed} {s : Settings}

/-- The calls that ended are as if made one after the other, and a call in progress has worked on what
it read. -/
structure Linear (f : Fixed) (s : Settings) (start : Agents) (w : Shared) : Prop where
  done : sequential f s start (w.done.map (·.call)) = (w.loaded, w.done.map (·.ending))
  pending : ∀ process p, w.pending process = some p →
    ∃ new, call f s p.read p.call = (p.answer, some new) ∧ p.new = new.sorted

theorem loaded_write (w : Shared) (v : Agents) :
    ((FileOp.apply w.files (.write .temporary v)).get? .file).getD ∅ = w.loaded := by
  have hne : (Name.file : Name) ∉ (FileOp.write Name.temporary v).names := by simp [FileOp.names]
  exact congrArg (Option.getD · ∅) (get?_apply_of_not_mem hne)

theorem linear_finish {start : Agents} {w w' : Shared} (process : Process) (c : Call)
    (h : sequential f s start (w.done.map (·.call)) = (w.loaded, w.done.map (·.ending)))
    (hdone : w'.done = w.done ++ [⟨process, c, .answered (call f s w.loaded c).1⟩])
    (hfile : w'.loaded = after f s w.loaded c) :
    sequential f s start (w'.done.map (·.call)) = (w'.loaded, w'.done.map (·.ending)) := by
  rw [hdone, List.map_append, List.map_append, List.map_singleton, List.map_singleton,
    sequential_append, h, hfile]

theorem linear_step {start : Agents} {w : Shared} {m : Move} (h : Linear f s start w)
    (hm : Undisturbed w m) : Linear f s start (w.step f s m) := by
  cases m with
  | load process c =>
    simp only [step, load]
    split
    · exact h
    · split
      · rename_i answer hcall
        refine ⟨linear_finish process c h.done ?_ ?_, h.pending⟩
        · rw [hcall]
          rfl
        · rw [after, hcall]
          rfl
      · rename_i answer new hcall
        refine ⟨h.done, fun q p hp => ?_⟩
        simp only [await] at hp
        split at hp
        · cases hp
          exact ⟨new, hcall, rfl⟩
        · exact h.pending q p hp
  | next process =>
    simp only [step, next]
    split
    · exact h
    · rename_i p hp
      split
      · rename_i hstaged
        obtain ⟨hread, htemp⟩ := hm p hp hstaged
        obtain ⟨new, hcall, hnew⟩ := h.pending process p hp
        rw [← hread] at hcall
        refine ⟨linear_finish process p.call h.done ?_ ?_, fun q p' hp' => ?_⟩
        · simp only [finish, await, htemp, Option.isSome_some, if_true, hcall]
        · rw [after, hcall, written, ← hnew]
          exact congrArg (Option.getD · ∅) (get?_rename htemp)
        · simp only [finish, await] at hp'
          split at hp'
          · cases hp'
          · exact h.pending q p' hp'
      · refine ⟨?_, fun q p' hp' => ?_⟩
        · exact h.done.trans (by rw [← loaded_write w p.new]; rfl)
        · simp only [await] at hp'
          split at hp'
          · rename_i hq
            cases hp'
            exact h.pending process p hp
          · exact h.pending q p' hp'

/-- In every interleaving whose renames are undisturbed, the file and the answers are those of the
ended calls made one after the other in the order they ended in, and no call raised. -/
theorem calls_linearize (f : Fixed) (s : Settings) (files : Dict Name Agents) (ms : List Move)
    (h : Meets (step f s) Undisturbed { files := files } ms) :
    let w := run f s { files := files } ms
    sequential f s ({ files := files } : Shared).loaded (w.done.map (·.call)) =
      (w.loaded, w.done.map (·.ending)) := by
  intro w
  have hstart : Linear f s ({ files := files } : Shared).loaded { files := files } := by
    refine ⟨by simp only [List.map_nil, sequential], fun process p hp => ?_⟩
    cases hp
  have hlinear : Linear f s ({ files := files } : Shared).loaded w :=
    runs_invariant (fun _ _ hw hm => linear_step hw hm) h hstart
  exact hlinear.done

def sampleEntry (serial al : String) (port : Nat) (interface : String) : Entry :=
  { podId := serial, alMac := al, port := port, interface := interface, firstSeen := 0, handovers := 1 }

def sampleFiles : Dict Name Agents :=
  Dict.set ∅ .file (Dict.set ∅ "A" (sampleEntry "A" "02:b4:90:e3:7a:7f" 6651 "em1"))

/-- SHA-256 at the first try of the serial `B`. -/
def arrivalSha : Sha := fun text i =>
  if text = "emosa-agent-al:B:0" then [133, 38, 227, 23, 13].getD i 0 else 0

def sharedFixed : Fixed := { sha := arrivalSha, reservedAls := ["02:00:00:00:00:01"] }

def sharedSettings : Settings := { low := 6651, high := 6653 }

def assignB : Call := .assign { serial := "B" } none 0

theorem undisturbed_calls_linearize :
    let w := run sharedFixed sharedSettings { files := sampleFiles }
      [.load .serving assignB, .load .other (.forget "Z"), .next .other, .next .other, .next .serving,
        .load .other (.forget "A"), .next .serving]
    w.done.map (·.process) = [.other, .serving] ∧
    sequential sharedFixed sharedSettings ({ files := sampleFiles } : Shared).loaded
      (w.done.map (·.call)) = (w.loaded, w.done.map (·.ending)) := by
  refine ⟨by decide +kernel, calls_linearize sharedFixed sharedSettings sampleFiles _
    ⟨trivial, trivial, ?_, ?_, ?_, trivial, ?_, trivial⟩⟩
  all_goals decide +kernel

/-- `forget` reads, the new pod is assigned and written, and `forget` writes what it read without the
entry it removes: the new entry is lost, in whichever order the two calls are put. -/
theorem forget_loses_new_entry :
    let w := run sharedFixed sharedSettings { files := sampleFiles }
      [.load .other (.forget "A"), .load .serving assignB, .next .serving, .next .serving, .next .other,
        .next .other]
    w.done.map (·.process) = [.serving, .other] ∧
    ∀ order ∈ w.done.permutations',
      sequential sharedFixed sharedSettings ({ files := sampleFiles } : Shared).loaded
        (order.map (·.call)) ≠ (w.loaded, order.map (·.ending)) := by
  decide +kernel

end Shared
end Registry
end Emosa.Fleet
