import Emosa.Lib.Dict
import Emosa.Lib.Replica

/-!
# Emosa.Opensync.Tables

The monitored tables of a pod's database as a session caches them, and the updates a monitor sends.
The type `V` is a column's value as the database writes it.

* `applyTables`: the tables after an update. Both agents apply one so.
* `shown`, `delta`: the tables and an update as a `Replica` has them.
* `Db`, `monitored`: a database, and the columns of it that are monitored.
* `shown_applyTables`: what the tables show after an update.
-/

namespace Emosa.Opensync

open Replica

variable {V : Type}

abbrev Row (V : Type) := Dict String V

/-- The rows of a table, by their UUIDs. -/
abbrev Rows (V : Type) := Dict String (Row V)

abbrev Tables (V : Type) := Dict String (Rows V)

/-- By table and row, the columns a row now has; none where the row is gone. -/
abbrev Updates (V : Type) := Dict String (Dict String (Option (Row V)))

def mergeRow (old new : Row V) : Row V := new.entries.foldl (fun row e => row.set e.1 e.2) old

def applyRow (rows : Rows V) : String × Option (Row V) → Rows V
  | (uuid, none) => rows.erase uuid
  | (uuid, some new) => rows.set uuid (mergeRow ((rows.get? uuid).getD ∅) new)

def applyRows (rows : Rows V) (changes : Dict String (Option (Row V))) : Rows V :=
  changes.entries.foldl applyRow rows

def applyTable (tables : Tables V) (e : String × Dict String (Option (Row V))) : Tables V :=
  tables.set e.1 (applyRows ((tables.get? e.1).getD ∅) e.2)

def applyTables (tables : Tables V) (updates : Updates V) : Tables V :=
  updates.entries.foldl applyTable tables

/-- What the tables show: by table and UUID, the columns of the row. -/
def shown (tables : Tables V) : Contents (String × String) String V := fun k =>
  ((tables.get? k.1).bind fun rows => rows.get? k.2).map fun row c => row.get? c

def delta (updates : Updates V) : Delta (String × String) String V := fun k =>
  ((updates.get? k.1).bind fun rows => rows.get? k.2).map fun
    | none => .gone
    | some row => .new fun c => row.get? c

theorem get?_mergeRow (old new : Row V) (c : String) :
    (mergeRow old new).get? c = (new.get? c).or (old.get? c) := Dict.get?_overlay old new c

theorem get?_applyRows (rows : Rows V) (changes : Dict String (Option (Row V))) (uuid : String) :
    (applyRows rows changes).get? uuid =
      match changes.get? uuid with
      | none => rows.get? uuid
      | some none => none
      | some (some new) => some (mergeRow ((rows.get? uuid).getD ∅) new) := by
  have h := Dict.look_foldl (fun (rows : Rows V) k => rows.get? k) (f := applyRow)
    (fun old change => change.map fun new => mergeRow (old.getD ∅) new)
    (fun rows k v => by cases v <;> simp [applyRow])
    (fun rows k v k' hne => by
      cases v with
      | none => exact Dict.get?_erase_ne rows hne
      | some new => exact Dict.get?_set_ne rows _ hne) changes rows uuid
  simp only [applyRows, h]
  rcases changes.get? uuid with _ | _ | new <;> rfl

theorem get?_applyTables (tables : Tables V) (updates : Updates V) (table : String) :
    (applyTables tables updates).get? table =
      match updates.get? table with
      | none => tables.get? table
      | some changes => some (applyRows ((tables.get? table).getD ∅) changes) := by
  have h := Dict.look_foldl (fun (tables : Tables V) k => tables.get? k) (f := applyTable)
    (fun old changes => some (applyRows (old.getD ∅) changes))
    (fun tables k v => by simp [applyTable])
    (fun tables k v k' hne => Dict.get?_set_ne tables _ hne) updates tables table
  simp only [applyTables, h]
  cases updates.get? table <;> rfl

theorem shown_applyTables (tables : Tables V) (updates : Updates V) :
    shown (applyTables tables updates) = update (shown tables) (delta updates) := by
  funext k
  obtain ⟨table, uuid⟩ := k
  simp only [shown, update, delta, get?_applyTables]
  cases updates.get? table with
  | none => rfl
  | some changes =>
    have hrows : ((tables.get? table).getD ∅).get? uuid =
        (tables.get? table).bind fun rows => rows.get? uuid := by
      cases tables.get? table <;> rfl
    simp only [Option.bind_some, get?_applyRows, hrows]
    rcases changes.get? uuid with _ | _ | new
    · rfl
    · rfl
    · simp only [Option.map_some, get?_mergeRow]
      cases (tables.get? table).bind fun rows => rows.get? uuid <;> rfl

/-- A database: by table and UUID a row, which has a value in each of the table's columns. -/
abbrev Db (V : Type) := String → String → Option (String → V)

/-- The monitored tables, each with its monitored columns. -/
abbrev Selected := Dict String (List String)

def Selected.has (selected : Selected) (k : String × String) (column : String) : Prop :=
  ∃ columns, selected.get? k.1 = some columns ∧ column ∈ columns

def monitored (selected : Selected) (db : Db V) : Contents (String × String) String V := fun k =>
  (selected.get? k.1).bind fun columns =>
    (db k.1 k.2).map fun row column => if column ∈ columns then some (row column) else none

theorem shaped_monitored (selected : Selected) (db : Db V) :
    Shaped selected.has (monitored selected db) := by
  intro k row h column
  obtain ⟨columns, hcols, hrow⟩ := Option.bind_eq_some_iff.mp h
  obtain ⟨values, -, rfl⟩ := Option.map_eq_some_iff.mp hrow
  by_cases hc : column ∈ columns
  · simp [Selected.has, hcols]
  · simp [Selected.has, hcols]

end Emosa.Opensync
