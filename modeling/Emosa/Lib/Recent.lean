import Emosa.Lib.Dict

/-!
# Emosa.Lib.Recent

A dictionary of which only the latest entries are kept.

* `recent n d`: the last `n` entries.
* `Ahead others k v d`: `k` has the value `v`, and only keys of `others` came after it. While there are
  fewer of them than the entries kept, `k` is kept (`Ahead.recent`).
-/

namespace Emosa.Dict

open List

variable {κ α : Type}

def recent (n : Nat) (d : Dict κ α) : Dict κ α where
  entries := d.entries.drop (d.entries.length - n)
  nodup := d.nodup.sublist ((drop_sublist _ _).map Prod.fst)

def Ahead (others : List κ) (k : κ) (v : α) (d : Dict κ α) : Prop :=
  ∃ older newer, d.entries = older ++ (k, v) :: newer ∧ ∀ e ∈ newer, e.1 ∈ others

variable {others : List κ} {k k' : κ} {v v' : α} {d : Dict κ α}

theorem Ahead.recent (h : Ahead others k v d) {n : Nat} (hn : others.length < n) :
    Ahead others k v (d.recent n) := by
  obtain ⟨older, newer, hentries, hnewer⟩ := h
  have hnodup : (newer.map Prod.fst).Nodup := by
    have hall := d.nodup
    rw [hentries, map_append] at hall
    exact (nodup_cons.mp (nodup_append.mp hall).2.1).2
  have hlen : newer.length ≤ others.length := by
    have hsub : newer.map Prod.fst ⊆ others := by
      intro key hkey
      obtain ⟨e, he, rfl⟩ := mem_map.mp hkey
      exact hnewer e he
    simpa using (hnodup.subperm hsub).length_le
  refine ⟨older.drop (d.entries.length - n), newer, ?_, hnewer⟩
  have hdrop : d.entries.length - n ≤ older.length := by
    rw [hentries, length_append, length_cons]
    omega
  show d.entries.drop (d.entries.length - n) = _
  rw [← drop_append_of_le_length hdrop, ← hentries]

variable [DecidableEq κ]

theorem Ahead.get? (h : Ahead others k v d) : d.get? k = some v := by
  obtain ⟨older, newer, hentries, -⟩ := h
  exact get?_eq_some_iff.mpr (hentries ▸ mem_append_right _ mem_cons_self)

theorem get?_recent_none (n : Nat) (h : d.get? k = none) : (d.recent n).get? k = none := by
  rw [get?_eq_none_iff] at h ⊢
  exact fun hk => h (((drop_sublist _ _).map Prod.fst).subset hk)

/-- A new key comes last. -/
theorem ahead_set (others : List κ) (v : α) (h : d.get? k = none) : Ahead others k v (d.set k v) := by
  refine ⟨d.entries, [], ?_, by simp⟩
  have hkeys := get?_eq_none_iff.mp h
  unfold keys at hkeys
  show setEntries k v d.entries = _
  generalize d.entries = es at hkeys
  induction es with
  | nil => rfl
  | cons e es ih =>
    obtain ⟨k', v'⟩ := e
    simp only [map_cons, mem_cons, not_or] at hkeys
    have hne : ¬ k' = k := fun he => hkeys.1 he.symm
    rw [setEntries, if_neg hne, ih hkeys.2]
    rfl

theorem Ahead.set (h : Ahead others k v d) (hk' : k' ∈ others) (hne : k' ≠ k) (v' : α) :
    Ahead others k v (d.set k' v') := by
  obtain ⟨older, newer, hentries, hnewer⟩ := h
  have hset : ∀ es : List (κ × α), setEntries k' v' (es ++ (k, v) :: newer) =
      (if k' ∈ es.map Prod.fst then setEntries k' v' es else es) ++ (k, v) ::
        (if k' ∈ es.map Prod.fst then newer else setEntries k' v' newer) := by
    intro es
    induction es with
    | nil => simp [setEntries, Ne.symm hne]
    | cons e es ih =>
      obtain ⟨k₁, v₁⟩ := e
      by_cases hk : k₁ = k'
      · simp [setEntries, hk]
      · have hk' : ¬ k' = k₁ := fun he => hk he.symm
        simp only [cons_append, setEntries, if_neg hk, ih, map_cons, mem_cons, hk',
          false_or]
        split <;> rfl
  refine ⟨_, _, (congrArg (setEntries k' v') hentries).trans (hset older), ?_⟩
  split
  · exact hnewer
  · intro e he
    have hkey : e.1 ∈ (setEntries k' v' newer).map Prod.fst := mem_map_of_mem he
    rw [keys_setEntries] at hkey
    split at hkey
    · obtain ⟨e', he', heq⟩ := mem_map.mp hkey
      exact heq ▸ hnewer e' he'
    · rcases mem_append.mp hkey with hkey | hkey
      · obtain ⟨e', he', heq⟩ := mem_map.mp hkey
        exact heq ▸ hnewer e' he'
      · exact mem_singleton.mp hkey ▸ hk'

theorem Ahead.erase (h : Ahead others k v d) (hne : k' ≠ k) : Ahead others k v (d.erase k') := by
  obtain ⟨older, newer, hentries, hnewer⟩ := h
  refine ⟨older.filter fun e => decide (e.1 ≠ k'), newer.filter fun e => decide (e.1 ≠ k'), ?_,
    fun e he => hnewer e (mem_filter.mp he).1⟩
  show d.entries.filter (fun e => decide (e.1 ≠ k')) = _
  rw [hentries, filter_append, filter_cons_of_pos (by simpa using Ne.symm hne)]

end Emosa.Dict
