import Emosa.Lib.Dict
import Mathlib.Data.List.Sort
import Mathlib.Data.String.Basic

/-!
# Emosa.Lib.DictOrder

Facts about all entries of a dictionary, and about all pairs of them, with what each operation does
to them; and the dictionary in the order of its keys.

* `Each P d`: `P` holds of every entry. `Separate R d`: `R` holds between the values of any two keys.
* `sorted`: the same entries by key. `sorted_eq_self`: one that is in order stays.
-/

namespace Emosa.Dict

variable {κ α : Type} [DecidableEq κ] {d : Dict κ α} {k : κ} {v : α}

def Each (P : κ → α → Prop) (d : Dict κ α) : Prop := ∀ k v, d.get? k = some v → P k v

def Separate (R : α → α → Prop) (d : Dict κ α) : Prop :=
  ∀ k k' v v', d.get? k = some v → d.get? k' = some v' → k ≠ k' → R v v'

section Each

variable {P : κ → α → Prop}

theorem Each.empty : Each P (∅ : Dict κ α) := nofun

theorem Each.set (h : Each P d) (hv : P k v) : Each P (d.set k v) := by
  intro k' v' hget
  rw [get?_set] at hget
  split at hget
  · rename_i heq
    cases hget
    exact heq ▸ hv
  · exact h k' v' hget

theorem Each.erase (h : Each P d) (k : κ) : Each P (d.erase k) :=
  fun k' v' hget => h k' v' (get?_filter.mp hget).1

theorem each_iff : Each P d ↔ ∀ e ∈ d.entries, P e.1 e.2 :=
  ⟨fun h e he => h e.1 e.2 (get?_eq_some_iff.mpr he),
    fun h k v hget => h (k, v) (get?_eq_some_iff.mp hget)⟩

theorem Each.mono {Q : κ → α → Prop} (hPQ : ∀ k v, P k v → Q k v) (h : Each P d) : Each Q d :=
  fun k v hget => hPQ k v (h k v hget)

end Each

section Separate

variable {R : α → α → Prop}

theorem Separate.empty : Separate R (∅ : Dict κ α) := nofun

/-- A new value keeps apart what it is itself apart from. -/
theorem Separate.set (hsymm : ∀ a b, R a b → R b a) (h : Separate R d)
    (hv : ∀ k' v', k' ≠ k → d.get? k' = some v' → R v v') : Separate R (d.set k v) := by
  intro k₁ k₂ v₁ v₂ h₁ h₂ hne
  rw [get?_set] at h₁ h₂
  split at h₁
  · cases h₁
    split at h₂
    · simp_all
    · rename_i hk₂
      exact hv k₂ v₂ (fun heq => hk₂ heq) h₂
  · rename_i hk₁
    split at h₂
    · cases h₂
      exact hsymm _ _ (hv k₁ v₁ (fun heq => hk₁ heq) h₁)
    · exact h k₁ k₂ v₁ v₂ h₁ h₂ hne

theorem Separate.erase (h : Separate R d) (k : κ) : Separate R (d.erase k) :=
  fun _ _ _ _ h₁ h₂ => h _ _ _ _ (get?_filter.mp h₁).1 (get?_filter.mp h₂).1

end Separate

theorem setEntries_self {es : List (κ × α)} (h : getEntries k es = some v) :
    setEntries k v es = es := by
  induction es with
  | nil => cases h
  | cons e rest ih =>
    obtain ⟨k', v'⟩ := e
    simp only [getEntries] at h
    simp only [setEntries]
    split at h
    · rename_i heq
      cases h
      rw [if_pos heq, heq]
    · rename_i hne
      rw [if_neg hne, ih h]

/-- Assigning a key the value it has changes nothing. -/
theorem set_self (h : d.get? k = some v) : d.set k v = d := by
  simp only [set, setEntries_self h]

theorem setEntries_setEntries (es : List (κ × α)) (v w : α) :
    setEntries k w (setEntries k v es) = setEntries k w es := by
  induction es with
  | nil => simp [setEntries]
  | cons e rest ih =>
    obtain ⟨k', v'⟩ := e
    by_cases hk : k' = k
    · simp [setEntries, hk]
    · simp [setEntries, hk, ih]

theorem set_set (d : Dict κ α) (k : κ) (v w : α) : (d.set k v).set k w = d.set k w := by
  simp only [set, setEntries_setEntries]

section Sorted

variable {κ : Type} [LinearOrder κ] {d e : Dict κ α} {k : κ}

def KeyLe (a b : κ × α) : Prop := a.1 ≤ b.1

instance : DecidableRel (KeyLe : κ × α → κ × α → Prop) := fun a b => inferInstanceAs (Decidable (a.1 ≤ b.1))

instance : Std.Total (KeyLe : κ × α → κ × α → Prop) := ⟨fun a b => le_total a.1 b.1⟩

instance : IsTrans (κ × α) KeyLe := ⟨fun _ _ _ hab hbc => le_trans (α := κ) hab hbc⟩

def sorted (d : Dict κ α) : Dict κ α where
  entries := d.entries.insertionSort KeyLe
  nodup := ((List.perm_insertionSort _ _).map Prod.fst).nodup_iff.mpr d.nodup

theorem get?_sorted (d : Dict κ α) (k : κ) : d.sorted.get? k = d.get? k := by
  have hmem : ∀ v, d.sorted.get? k = some v ↔ d.get? k = some v := fun v => by
    rw [get?_eq_some_iff, get?_eq_some_iff]
    exact (List.perm_insertionSort _ _).mem_iff
  cases hd : d.get? k with
  | some v => exact (hmem v).mpr hd
  | none =>
    cases hs : d.sorted.get? k with
    | none => rfl
    | some v => rw [(hmem v).mp hs] at hd; cases hd

theorem each_sorted {P : κ → α → Prop} : Each P d.sorted ↔ Each P d := by
  simp only [Each, get?_sorted]

theorem separate_sorted {R : α → α → Prop} : Separate R d.sorted ↔ Separate R d := by
  simp only [Separate, get?_sorted]

theorem pairwise_sorted (d : Dict κ α) : d.sorted.entries.Pairwise KeyLe :=
  List.pairwise_insertionSort _ _

theorem sorted_eq_self (h : d.entries.Pairwise KeyLe) : d.sorted = d := by
  simp only [sorted, h.insertionSort_eq]

end Sorted

end Emosa.Dict
