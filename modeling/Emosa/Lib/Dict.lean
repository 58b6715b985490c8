import Mathlib.Algebra.BigOperators.Group.List.Basic
import Mathlib.Algebra.BigOperators.Group.Finset.Basic
import Mathlib.Data.List.Perm.Subperm

/-!
# Emosa.Lib.Dict

An insertion-ordered dictionary: a list of key/value entries whose keys are distinct. The
distinctness is a field, so a dictionary with two entries for one key cannot be built.

* `get?`, `set`, `erase`, `filter`: lookup, assignment (an existing key keeps its place, a new one
  is appended), removal of a key, and selection of entries.
* `total f d`: the sum of `f` over the entries, with what each operation does to it. `length` is
  the total of the constant `1`.
* `total_range`: with natural-number keys below `n`, a total is a sum over `0..n-1`. This is how a
  dictionary is compared with an array indexed by the same numbers.
-/

namespace Emosa

open Option List

structure Dict (κ α : Type) where
  entries : List (κ × α)
  nodup : (entries.map Prod.fst).Nodup
  deriving Repr

namespace Dict

variable {κ α : Type}

instance : EmptyCollection (Dict κ α) := ⟨⟨[], List.nodup_nil⟩⟩

instance : Inhabited (Dict κ α) := ⟨∅⟩

instance [DecidableEq κ] [DecidableEq α] : DecidableEq (Dict κ α) := fun d e =>
  decidable_of_iff (d.entries = e.entries)
    ⟨fun h => by cases d; cases e; simp only at h; subst h; rfl, fun h => by rw [h]⟩

def keys (d : Dict κ α) : List κ := d.entries.map Prod.fst

def length (d : Dict κ α) : Nat := d.entries.length

def filter (p : κ → α → Bool) (d : Dict κ α) : Dict κ α where
  entries := d.entries.filter fun e => p e.1 e.2
  nodup := d.nodup.sublist (List.filter_sublist.map Prod.fst)

def total {M : Type} [AddCommMonoid M] (f : κ → α → M) (d : Dict κ α) : M :=
  (d.entries.map fun e => f e.1 e.2).sum

section Lookup

variable [DecidableEq κ]

def getEntries (k : κ) : List (κ × α) → Option α
  | [] => none
  | (k', v) :: rest => if k' = k then some v else getEntries k rest

def setEntries (k : κ) (v : α) : List (κ × α) → List (κ × α)
  | [] => [(k, v)]
  | (k', v') :: rest => if k' = k then (k, v) :: rest else (k', v') :: setEntries k v rest

def get? (d : Dict κ α) (k : κ) : Option α := getEntries k d.entries

theorem keys_setEntries (k : κ) (v : α) (es : List (κ × α)) :
    (setEntries k v es).map Prod.fst =
      if k ∈ es.map Prod.fst then es.map Prod.fst else es.map Prod.fst ++ [k] := by
  induction es with
  | nil => simp [setEntries]
  | cons e rest ih =>
    obtain ⟨k', v'⟩ := e
    by_cases hk : k' = k
    · simp [setEntries, hk]
    · have hne : ¬ k = k' := fun h => hk h.symm
      simp only [setEntries, hk, if_false, map_cons, ih, mem_cons, hne, false_or]
      split <;> rfl

def set (d : Dict κ α) (k : κ) (v : α) : Dict κ α where
  entries := setEntries k v d.entries
  nodup := by
    rw [keys_setEntries]
    split
    · exact d.nodup
    · rename_i hk
      exact List.nodup_append.mpr ⟨d.nodup, List.nodup_singleton k, by
        intro a ha b hb; rintro rfl; simp only [List.mem_singleton] at hb; exact hk (hb ▸ ha)⟩

def erase (d : Dict κ α) (k : κ) : Dict κ α := d.filter fun k' _ => k' ≠ k

/-! ## Lookup -/

variable {k : κ}

theorem getEntries_none {es : List (κ × α)} : getEntries k es = none ↔ k ∉ es.map Prod.fst := by
  induction es with
  | nil => simp [getEntries]
  | cons e rest ih =>
    obtain ⟨k', v⟩ := e
    by_cases hk : k' = k
    · simp [getEntries, hk]
    · have hne : ¬ k = k' := fun h => hk h.symm
      simp only [getEntries, hk, map_cons, mem_cons, hne, false_or]
      exact ih

theorem getEntries_mem {v : α} {es : List (κ × α)} (h : getEntries k es = some v) :
    (k, v) ∈ es := by
  induction es with
  | nil => cases h
  | cons e rest ih =>
    obtain ⟨k', v'⟩ := e
    by_cases hk : k' = k
    · simp only [getEntries, hk, if_true, some.injEq] at h
      subst hk h; exact mem_cons_self
    · simp only [getEntries, hk] at h
      exact mem_cons_of_mem _ (ih h)

theorem getEntries_of_mem {v : α} {es : List (κ × α)} (hn : (es.map Prod.fst).Nodup)
    (h : (k, v) ∈ es) : getEntries k es = some v := by
  induction es with
  | nil => cases h
  | cons e rest ih =>
    obtain ⟨k', v'⟩ := e
    simp only [map_cons, nodup_cons] at hn
    rcases mem_cons.mp h with heq | hmem
    · cases heq; simp [getEntries]
    · have hne : k' ≠ k := by
        rintro rfl
        exact hn.1 (mem_map_of_mem hmem)
      simp only [getEntries, hne]
      exact ih hn.2 hmem

variable {d : Dict κ α}

theorem get?_eq_some_iff {v : α} : d.get? k = some v ↔ (k, v) ∈ d.entries :=
  ⟨getEntries_mem, getEntries_of_mem d.nodup⟩

theorem get?_eq_none_iff : d.get? k = none ↔ k ∉ d.keys := getEntries_none

@[simp] theorem get?_empty (k : κ) : (∅ : Dict κ α).get? k = none := rfl

theorem getEntries_set (k k' : κ) (v : α) (es : List (κ × α)) :
    getEntries k' (setEntries k v es) = if k' = k then some v else getEntries k' es := by
  induction es with
  | nil => simp only [setEntries, getEntries, eq_comm]
  | cons e rest ih =>
    obtain ⟨k₀, v₀⟩ := e
    by_cases hk : k₀ = k
    · subst hk
      by_cases h : k' = k₀
      · simp [setEntries, getEntries, h]
      · have hne : ¬ k₀ = k' := fun hh => h hh.symm
        simp [setEntries, getEntries, h, hne]
    · simp only [setEntries, hk, if_false, getEntries, ih]
      by_cases h : k₀ = k'
      · subst h; simp [hk]
      · simp [h]

theorem get?_set (d : Dict κ α) (k k' : κ) (v : α) :
    (d.set k v).get? k' = if k' = k then some v else d.get? k' := getEntries_set k k' v d.entries

@[simp] theorem get?_set_self (d : Dict κ α) (k : κ) (v : α) : (d.set k v).get? k = some v := by
  simp [get?_set]

theorem get?_set_ne (d : Dict κ α) {k' : κ} (v : α) (h : k' ≠ k) :
    (d.set k v).get? k' = d.get? k' := by
  simp [get?_set, h]

theorem mem_keys_iff : k ∈ d.keys ↔ ∃ v, d.get? k = some v := by
  simp [keys, get?_eq_some_iff]

theorem mem_keys_set {k' : κ} {v : α} : k' ∈ (d.set k v).keys ↔ k' = k ∨ k' ∈ d.keys := by
  simp only [mem_keys_iff, get?_set]
  by_cases h : k' = k <;> simp [h]

theorem get?_filter {p : κ → α → Bool} {v : α} :
    (d.filter p).get? k = some v ↔ d.get? k = some v ∧ p k v = true := by
  simp [get?_eq_some_iff, filter]

theorem get?_filter_none {p : κ → α → Bool} (h : d.get? k = none) : (d.filter p).get? k = none := by
  cases hf : (d.filter p).get? k with
  | none => rfl
  | some v => rw [(get?_filter.mp hf).1] at h; cases h

theorem get?_filter_of_pos {p : κ → α → Bool} {v : α} (h : d.get? k = some v) (hp : p k v = true) :
    (d.filter p).get? k = some v :=
  get?_filter.mpr ⟨h, hp⟩

@[simp] theorem get?_erase_self (d : Dict κ α) (k : κ) : (d.erase k).get? k = none := by
  cases h : (d.erase k).get? k with
  | none => rfl
  | some v => simpa using (get?_filter.mp h).2

theorem get?_erase_ne (d : Dict κ α) {k' : κ} (h : k' ≠ k) : (d.erase k).get? k' = d.get? k' := by
  cases hd : d.get? k' with
  | none => exact get?_filter_none hd
  | some v => exact get?_filter_of_pos hd (by simp [h])

/-- A pass over the entries in which each entry changes only what is looked up under its own key. -/
theorem look_foldl {σ β : Type} (look : σ → κ → β) {f : σ → κ × α → σ} (g : β → α → β)
    (hself : ∀ s k v, look (f s (k, v)) k = g (look s k) v)
    (hne : ∀ s k v k', k' ≠ k → look (f s (k, v)) k' = look s k') (d : Dict κ α) (s : σ) (k : κ) :
    look (d.entries.foldl f s) k = ((d.get? k).map (g (look s k))).getD (look s k) := by
  obtain ⟨es, hn⟩ := d
  unfold get?
  induction es generalizing s with
  | nil => rfl
  | cons e rest ih =>
    obtain ⟨k', v⟩ := e
    rw [map_cons, nodup_cons] at hn
    have hrest := ih (f s (k', v)) hn.2
    simp only [foldl_cons, getEntries] at hrest ⊢
    rw [hrest]
    by_cases hk : k' = k
    · subst hk
      rw [getEntries_none.mpr hn.1]
      simpa using hself s k' v
    · rw [hne s k' v k fun h => hk h.symm]
      simp [hk]

/-- The entries of `new` assigned one after the other. -/
def overlay (old new : Dict κ α) : Dict κ α := new.entries.foldl (fun d e => d.set e.1 e.2) old

theorem get?_overlay (old new : Dict κ α) (k : κ) :
    (old.overlay new).get? k = (new.get? k).or (old.get? k) := by
  have h := look_foldl (fun (d : Dict κ α) k => d.get? k)
    (f := fun d e => d.set e.1 e.2) (fun _ v => some v)
    (fun d k v => by simp) (fun d k v k' hne => get?_set_ne d v hne) new old k
  simp only [overlay, h]
  cases new.get? k <;> rfl

/-- Assigning a key and then removing it is removing it. -/
theorem erase_set (d : Dict κ α) (k : κ) (v : α) : (d.set k v).erase k = d.erase k := by
  have key : ∀ es : List (κ × α), (setEntries k v es).filter (fun e => decide (e.1 ≠ k)) =
      es.filter fun e => decide (e.1 ≠ k) := by
    intro es
    induction es with
    | nil => simp [setEntries]
    | cons e rest ih =>
      obtain ⟨k', v'⟩ := e
      by_cases hk : k' = k
      · simp [setEntries, hk]
      · simp only [setEntries, hk, if_false, filter_cons, ih]
  simp only [erase, filter, mk.injEq]
  exact key d.entries

theorem filter_ne_of_not_mem {es : List (κ × α)} (h : k ∉ es.map Prod.fst) :
    es.filter (fun e => decide (e.1 ≠ k)) = es :=
  filter_eq_self.mpr fun e he => decide_eq_true fun heq => h (mem_map.mpr ⟨e, he, heq⟩)

theorem erase_of_none (h : d.get? k = none) : d.erase k = d := by
  simp only [erase, filter, filter_ne_of_not_mem (get?_eq_none_iff.mp h)]

omit [DecidableEq κ] in
theorem filter_filter (d : Dict κ α) (p q : κ → α → Bool) :
    (d.filter p).filter q = d.filter fun k v => p k v && q k v := by
  simp only [filter, List.filter_filter, mk.injEq]
  exact List.filter_congr fun e _ => Bool.and_comm _ _

/-- A key that the filter keeps may be assigned before it or after it. -/
theorem set_filter (d : Dict κ α) {p : κ → Bool} (hp : p k = true) (v : α) :
    (d.filter fun k _ => p k).set k v = (d.set k v).filter fun k _ => p k := by
  have key : ∀ es : List (κ × α), setEntries k v (es.filter fun e => p e.1) =
      (setEntries k v es).filter fun e => p e.1 := by
    intro es
    induction es with
    | nil => simp [setEntries, hp]
    | cons e rest ih =>
      obtain ⟨k', v'⟩ := e
      by_cases hk : k' = k
      · simp [setEntries, hk, hp]
      · cases hk' : p k' with
        | true | false => simp [setEntries, hk, hk', ih]
  simp only [filter, set, mk.injEq]
  exact key d.entries

/-! ## Totals -/

variable {M : Type} [AddCommMonoid M] {f : κ → α → M}

theorem total_erase {a : α} (h : d.get? k = some a) : (d.erase k).total f + f k a = d.total f := by
  have key : ∀ es : List (κ × α), (es.map Prod.fst).Nodup → getEntries k es = some a →
      ((es.filter fun e => decide (e.1 ≠ k)).map fun e => f e.1 e.2).sum + f k a =
        (es.map fun e => f e.1 e.2).sum := by
    intro es
    induction es with
    | nil => intro _ hk; cases hk
    | cons e rest ih =>
      intro hn hk
      obtain ⟨k', v'⟩ := e
      simp only [map_cons, nodup_cons] at hn
      by_cases hkk : k' = k
      · simp only [getEntries, hkk, if_true, some.injEq] at hk
        subst hkk hk
        rw [filter_cons_of_neg (by simp), filter_ne_of_not_mem hn.1, map_cons, sum_cons, add_comm]
      · simp only [getEntries, hkk] at hk
        simp only [filter_cons, ne_eq, hkk, not_false_eq_true, decide_true, if_true,
          map_cons, sum_cons, add_assoc]
        rw [← ih hn.2 hk]
  exact key d.entries d.nodup h

theorem total_set (d : Dict κ α) (k : κ) (v : α) :
    (d.set k v).total f = (d.erase k).total f + f k v := by
  rw [← total_erase (d.get?_set_self k v), erase_set]

theorem total_set_new (v : α) (h : d.get? k = none) : (d.set k v).total f = d.total f + f k v := by
  rw [total_set, erase_of_none h]

theorem total_set_old {a : α} (v : α) (h : d.get? k = some a) :
    (d.set k v).total f + f k a = d.total f + f k v := by
  rw [total_set, add_right_comm, total_erase h]

end Lookup

theorem length_eq_total (d : Dict κ α) : d.length = d.total fun _ _ => 1 := by
  simp [length, total]

section Length

variable [DecidableEq κ]

theorem length_set_new {d : Dict κ α} {k : κ} (v : α) (h : d.get? k = none) :
    (d.set k v).length = d.length + 1 := by
  rw [length_eq_total, length_eq_total, total_set_new v h]

theorem length_set_old {d : Dict κ α} {k : κ} {a : α} (v : α) (h : d.get? k = some a) :
    (d.set k v).length = d.length := by
  have := total_set_old (f := fun (_ : κ) (_ : α) => 1) v h
  rw [length_eq_total, length_eq_total]
  omega

theorem length_erase {d : Dict κ α} {k : κ} {a : α} (h : d.get? k = some a) :
    (d.erase k).length + 1 = d.length := by
  rw [length_eq_total, length_eq_total]
  exact total_erase h

end Length

theorem length_le_of_keys_lt {d : Dict Nat α} {n : Nat} (h : ∀ k ∈ d.keys, k < n) :
    d.length ≤ n := by
  have hsub : d.keys ⊆ List.range n := fun k hk => mem_range.mpr (h k hk)
  simpa [length] using (d.nodup.subperm hsub).length_le

theorem length_eq_iff_of_keys_lt {d : Dict Nat α} {n : Nat} (h : ∀ k ∈ d.keys, k < n) :
    d.length = n ↔ ∀ k, k < n → k ∈ d.keys := by
  have hsub : d.keys ⊆ List.range n := fun k hk => mem_range.mpr (h k hk)
  have hlen : d.keys.length = d.length := by simp [keys, length]
  constructor
  · intro hn k hk
    have hperm : d.keys.Perm (List.range n) :=
      (d.nodup.subperm hsub).perm_of_length_le (by rw [length_range, ← hn]; exact hlen.ge)
    exact hperm.mem_iff.mpr (mem_range.mpr hk)
  · intro hall
    have hsup : List.range n ⊆ d.keys := fun k hk => hall k (mem_range.mp hk)
    have hle := (nodup_range.subperm hsup).length_le
    rw [length_range] at hle
    have := length_le_of_keys_lt h
    omega

/-- With keys below `n`, a total is a sum over the numbers below `n`. -/
theorem total_range {M : Type} [AddCommMonoid M] (f : Nat → α → M) (d : Dict Nat α) (n : Nat)
    (h : ∀ k ∈ d.keys, k < n) :
    d.total f = ∑ i ∈ Finset.range n, (d.get? i).elim 0 (f i) := by
  have key : ∀ es : List (Nat × α), (es.map Prod.fst).Nodup → (∀ k ∈ es.map Prod.fst, k < n) →
      (es.map fun e => f e.1 e.2).sum = ∑ i ∈ Finset.range n, (getEntries i es).elim 0 (f i) := by
    intro es
    induction es with
    | nil => intro _ _; simp [getEntries]
    | cons e rest ih =>
      intro hn hk
      obtain ⟨k, v⟩ := e
      simp only [map_cons, nodup_cons, mem_cons] at hn hk
      have hkn : k ∈ Finset.range n := Finset.mem_range.mpr (hk k (Or.inl rfl))
      have hnone : getEntries k rest = none := getEntries_none.mpr hn.1
      rw [map_cons, sum_cons, ih hn.2 fun j hj => hk j (Or.inr hj),
        ← Finset.add_sum_erase _ _ hkn, ← Finset.add_sum_erase _ _ hkn]
      simp only [getEntries, hnone, elim_none, zero_add]
      refine congrArg _ (Finset.sum_congr rfl fun i hi => ?_)
      have hne : ¬ k = i := fun hh => (Finset.mem_erase.mp hi).1 hh.symm
      simp [hne]
  exact key d.entries d.nodup h

end Dict
end Emosa
