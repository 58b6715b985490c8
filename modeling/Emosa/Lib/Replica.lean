import Mathlib.Logic.Basic

/-!
# Emosa.Lib.Replica

A replica of a database that is told of every commit. The database's contents are rows under keys,
each row a value for some columns; a notification names some rows and says of each that it is gone
or what its columns now hold.

* `update`: what a replica makes of a notification.
* `Reports δ d d'`: `δ` is a notification of a commit that takes the contents from `d` to `d'`.
* `update_eq_iff`: after a notification a row is the database's iff it was so before, or the
  notification names it.
-/

namespace Emosa.Replica

variable {κ γ ν : Type}

abbrev Contents (κ γ ν : Type) := κ → Option (γ → Option ν)

inductive Change (γ ν : Type) where
  | gone
  | new (cells : γ → Option ν)

abbrev Delta (κ γ ν : Type) := κ → Option (Change γ ν)

/-- The row after the change: the columns it tells over those the row had. -/
def Change.onto : Change γ ν → Option (γ → Option ν) → Option (γ → Option ν)
  | .gone, _ => none
  | .new cells, row => some fun c => (cells c).or (row.bind fun old => old c)

def update (e : Contents κ γ ν) (δ : Delta κ γ ν) : Contents κ γ ν := fun k =>
  match δ k with
  | none => e k
  | some change => change.onto (e k)

/-- A row it does not name is as it was; of a row it names it tells every column. -/
structure Reports (δ : Delta κ γ ν) (d d' : Contents κ γ ν) : Prop where
  silent : ∀ k, δ k = none → d' k = d k
  gone : ∀ k, δ k = some .gone → d' k = none
  new : ∀ k cells, δ k = some (.new cells) → d' k = some cells

/-- Every row has a value in the columns of its key and in no other. -/
def Shaped (columns : κ → γ → Prop) (d : Contents κ γ ν) : Prop :=
  ∀ k row, d k = some row → ∀ c, row c ≠ none ↔ columns k c

variable {columns : κ → γ → Prop} {d d' e : Contents κ γ ν} {δ : Delta κ γ ν}

theorem shaped_empty : Shaped columns (fun _ => none : Contents κ γ ν) := by
  intro k row h
  cases h

/-- A change that tells every column leaves nothing of the row before. -/
theorem onto_new (he : Shaped columns e) (hd : Shaped columns d') {k : κ} {cells : γ → Option ν}
    (h : d' k = some cells) : (Change.new cells).onto (e k) = some cells := by
  refine congrArg some (funext fun c => ?_)
  cases hc : cells c with
  | some v => rfl
  | none =>
    have hcol : ¬ columns k c := fun hcol => (hd k cells h c).mpr hcol hc
    cases hk : e k with
    | none => rfl
    | some row =>
      have hrow : row c = none := Decidable.not_not.mp fun hne => hcol ((he k row hk c).mp hne)
      simpa using hrow

theorem update_named (h : Reports δ d d') (he : Shaped columns e) (hd : Shaped columns d') {k : κ}
    (hk : δ k ≠ none) : update e δ k = d' k := by
  unfold update
  cases hδ : δ k with
  | none => exact absurd hδ hk
  | some change =>
    cases change with
    | gone => exact (h.gone k hδ).symm
    | new cells => exact (onto_new he hd (h.new k cells hδ)).trans (h.new k cells hδ).symm

theorem update_eq_iff (h : Reports δ d d') (he : Shaped columns e) (hd : Shaped columns d') (k : κ) :
    update e δ k = d' k ↔ δ k ≠ none ∨ e k = d k := by
  by_cases hk : δ k = none
  · have hupdate : update e δ k = e k := by simp [update, hk]
    rw [hupdate, h.silent k hk]
    simp [hk]
  · simp [hk, update_named h he hd hk]

/-- A replica that shows the database shows it after the commit. -/
theorem update_reports (h : Reports δ d d') (hs : Shaped columns d) (hd : Shaped columns d') :
    update d δ = d' := funext fun k => (update_eq_iff h hs hd k).mpr (.inr rfl)

end Emosa.Replica
