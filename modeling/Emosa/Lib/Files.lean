import Emosa.Lib.Dict
import Emosa.Lib.Durable

/-!
# Emosa.Lib.Files

A directory of files, changed by operations that are each atomic: a file is created where there is
none, written, or renamed over another. Programs that work on a directory are `Durable.Prog`s, and a
crash leaves what a number of their operations made.

* `FileOp.names`, `get?_apply_of_not_mem`: an operation leaves the files it does not name.
* `get?_create`, `get?_write_self`, `get?_rename`: what it does to those it names.
-/

namespace Emosa.Files

open Durable (Replay)

variable {κ α : Type} [DecidableEq κ]

inductive FileOp (κ α : Type) where
  | create (name : κ) (v : α)
  | write (name : κ) (v : α)
  | rename (old new : κ)

namespace FileOp

def names : FileOp κ α → List κ
  | create name _ | write name _ => [name]
  | rename old new => [old, new]

/-- A file that is there is not created again, and one that is not there is not renamed. -/
def apply (d : Dict κ α) : FileOp κ α → Dict κ α
  | create name v => if (d.get? name).isSome then d else d.set name v
  | write name v => d.set name v
  | rename old new =>
    match d.get? old with
    | some v => (d.erase old).set new v
    | none => d

instance : Replay (Dict κ α) (FileOp κ α) := ⟨apply⟩

end FileOp

variable {d : Dict κ α} {name old new : κ} {v : α}

theorem get?_apply_of_not_mem {op : FileOp κ α} (h : name ∉ op.names) :
    (Durable.apply d op).get? name = d.get? name := by
  cases op with
  | create k v =>
    have hne : name ≠ k := by simpa [FileOp.names] using h
    show (if (d.get? k).isSome then d else d.set k v).get? name = d.get? name
    split
    · rfl
    · exact Dict.get?_set_ne d v hne
  | write k v =>
    have hne : name ≠ k := by simpa [FileOp.names] using h
    exact Dict.get?_set_ne d v hne
  | rename old new =>
    obtain ⟨hold, hnew⟩ : name ≠ old ∧ name ≠ new := by simpa [FileOp.names] using h
    show (FileOp.apply d (.rename old new)).get? name = d.get? name
    simp only [FileOp.apply]
    split
    · rw [Dict.get?_set_ne _ _ hnew, Dict.get?_erase_ne _ hold]
    · rfl

theorem get?_create : (Durable.apply d (.create name v)).get? name = (d.get? name).or (some v) := by
  show (if (d.get? name).isSome then d else d.set name v).get? name = _
  cases h : d.get? name with
  | none => simp
  | some w => simp [h]

theorem get?_write_self : (Durable.apply d (.write name v)).get? name = some v :=
  Dict.get?_set_self d name v

theorem get?_rename (h : d.get? old = some v) :
    (Durable.apply d (.rename old new)).get? new = some v := by
  show (FileOp.apply d (.rename old new)).get? new = _
  simp only [FileOp.apply, h]
  exact Dict.get?_set_self _ new v

end Emosa.Files
