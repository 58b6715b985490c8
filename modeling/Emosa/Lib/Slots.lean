import Mathlib.Data.Fintype.BigOperators
import Emosa.Lib.Dict

/-!
# Emosa.Lib.Slots

A dictionary kept in a fixed array of slots. `used` tells the slots that hold an entry, and
`rel k a s` says that slot `s` holds the entry `a` of `k`.

* `Represents.set`: writing a free slot, or the slot of `k`, sets the entry of `k`.
* `Represents.erase`: freeing the slot of `k` erases it.
* `Represents.total_eq`: a total over the entries is a sum over the used slots.
-/

namespace Emosa.Slots

variable {κ α σ : Type} [DecidableEq κ] {n : Nat}

def put (slots : Vector σ n) (i : Fin n) (s : σ) : Vector σ n := slots.set i s

theorem get_put (slots : Vector σ n) (i j : Fin n) (s : σ) :
    (put slots i s).get j = if j = i then s else slots.get j := by
  have hset : (slots.set i s).get j = if i.val = j.val then s else slots.get j :=
    Vector.getElem_set i.isLt j.isLt
  rw [put, hset]
  simp only [Fin.ext_iff, eq_comm]

@[simp] theorem get_put_self (slots : Vector σ n) (i : Fin n) (s : σ) : (put slots i s).get i = s := by
  rw [get_put, if_pos rfl]

@[simp] theorem put_put (slots : Vector σ n) (i : Fin n) (s s' : σ) :
    put (put slots i s) i s' = put slots i s' :=
  Vector.set_set ..

theorem get_replicate (s : σ) (i : Fin n) : (Vector.replicate n s).get i = s :=
  Vector.getElem_replicate i.isLt

structure Represents (used : σ → Bool) (rel : κ → α → σ → Prop) (d : Dict κ α)
    (slots : Vector σ n) : Prop where
  stored : ∀ k a, d.get? k = some a → ∃ i : Fin n, used (slots.get i) = true ∧ rel k a (slots.get i)
  occupied : ∀ i : Fin n, used (slots.get i) = true → ∃ k a, d.get? k = some a ∧ rel k a (slots.get i)
  single : ∀ (i j : Fin n) (k : κ) (a b : α), used (slots.get i) = true → used (slots.get j) = true →
    rel k a (slots.get i) → rel k b (slots.get j) → i = j

variable {used : σ → Bool} {rel : κ → α → σ → Prop} {d : Dict κ α} {slots : Vector σ n}

theorem Represents.empty (h : ∀ i : Fin n, used (slots.get i) = false) :
    Represents used rel (∅ : Dict κ α) slots where
  stored := by intro k a ha; cases ha
  occupied := by intro i hi; rw [h i] at hi; cases hi
  single := by intro i j k a b hi; rw [h i] at hi; cases hi

section Key

-- a slot holds the entry of one key
variable (hkey : ∀ k k' a a' s, rel k a s → rel k' a' s → k = k')
include hkey

variable (h : Represents used rel d slots)
include h

theorem Represents.get? {i : Fin n} {k : κ} {a : α}
    (hu : used (slots.get i) = true) (hr : rel k a (slots.get i)) :
    ∃ b, d.get? k = some b ∧ rel k b (slots.get i) := by
  obtain ⟨k', b, hb, hr'⟩ := h.occupied i hu
  cases hkey k k' a b _ hr hr'
  exact ⟨b, hb, hr'⟩

/-- Writing slot `i`, when it is free or the slot of `k`, and no other slot is the slot of `k`. -/
theorem Represents.set {i : Fin n} {k : κ} {a : α} {s : σ}
    (hfree : used (slots.get i) = true → ∃ b, rel k b (slots.get i))
    (hother : ∀ b, d.get? k = some b → ∀ j : Fin n, used (slots.get j) = true →
      rel k b (slots.get j) → j = i)
    (hu : used s = true) (hr : rel k a s) :
    Represents used rel (d.set k a) (put slots i s) := by
  have hset := fun j => get_put slots i j s
  -- the slot of another key is another slot
  have hne : ∀ k' b (j : Fin n), used (slots.get j) = true → rel k' b (slots.get j) → k' ≠ k → j ≠ i := by
    rintro k' b j hj hrj hk' rfl
    obtain ⟨c, hc⟩ := hfree hj
    exact hk' (hkey _ _ _ _ _ hrj hc)
  have hown : ∀ (j : Fin n) b, used (slots.get j) = true → rel k b (slots.get j) → j = i := by
    intro j b hj hrj
    obtain ⟨c, hc, hrc⟩ := h.get? hkey hj hrj
    exact hother c hc j hj hrc
  refine ⟨?_, ?_, ?_⟩
  · intro k' b hb
    rw [Dict.get?_set] at hb
    split at hb
    · rename_i hk'
      cases hb
      exact ⟨i, by rw [hset, if_pos rfl]; exact hu, by rw [hset, if_pos rfl, hk']; exact hr⟩
    · rename_i hk'
      obtain ⟨j, hj, hrj⟩ := h.stored k' b hb
      have hji := hne k' b j hj hrj hk'
      exact ⟨j, by rw [hset, if_neg hji]; exact hj, by rw [hset, if_neg hji]; exact hrj⟩
  · intro j hj
    rw [hset] at hj ⊢
    split at hj
    · rename_i hji
      exact ⟨k, a, Dict.get?_set_self _ _ _, by rw [if_pos hji]; exact hr⟩
    · rename_i hji
      obtain ⟨k', b, hb, hrj⟩ := h.occupied j hj
      have hk' : k' ≠ k := by rintro rfl; exact hji (hown j b hj hrj)
      exact ⟨k', b, by rw [Dict.get?_set_ne _ _ hk']; exact hb, by rw [if_neg hji]; exact hrj⟩
  · intro j j' k' b b' hj hj' hrj hrj'
    rw [hset] at hj hj' hrj hrj'
    by_cases hji : j = i
    · by_cases hji' : j' = i
      · rw [hji, hji']
      · rw [if_pos hji] at hrj
        rw [if_neg hji'] at hj' hrj'
        cases hkey _ _ _ _ _ hrj hr
        exact absurd (hown j' b' hj' hrj') hji'
    · by_cases hji' : j' = i
      · rw [if_pos hji'] at hrj'
        rw [if_neg hji] at hj hrj
        cases hkey _ _ _ _ _ hrj' hr
        exact absurd (hown j b hj hrj) hji
      · rw [if_neg hji] at hj hrj
        rw [if_neg hji'] at hj' hrj'
        exact h.single j j' k' b b' hj hj' hrj hrj'

theorem Represents.erase {i : Fin n} {k : κ} {a : α} {s : σ}
    (hi : used (slots.get i) = true) (hr : rel k a (slots.get i)) (hu : used s = false) :
    Represents used rel (d.erase k) (put slots i s) := by
  have hset := fun j => get_put slots i j s
  have hused : ∀ j : Fin n, used ((put slots i s).get j) = true → j ≠ i ∧ used (slots.get j) = true := by
    intro j hj
    rw [hset] at hj
    split at hj
    · rw [hu] at hj; cases hj
    · exact ⟨‹_›, hj⟩
  refine ⟨?_, ?_, ?_⟩
  · intro k' b hb
    have hk' : k' ≠ k := by rintro rfl; simp at hb
    rw [Dict.get?_erase_ne _ hk'] at hb
    obtain ⟨j, hj, hrj⟩ := h.stored k' b hb
    have hji : j ≠ i := by rintro rfl; exact hk' (hkey _ _ _ _ _ hrj hr)
    exact ⟨j, by rw [hset, if_neg hji]; exact hj, by rw [hset, if_neg hji]; exact hrj⟩
  · intro j hj
    obtain ⟨hji, hj'⟩ := hused j hj
    obtain ⟨k', b, hb, hrj⟩ := h.occupied j hj'
    have hk' : k' ≠ k := by rintro rfl; exact hji (h.single j i _ _ _ hj' hi hrj hr)
    exact ⟨k', b, by rw [Dict.get?_erase_ne _ hk']; exact hb, by rw [hset, if_neg hji]; exact hrj⟩
  · intro j j' k' b b' hj hj' hrj hrj'
    obtain ⟨hji, hj⟩ := hused j hj
    obtain ⟨hji', hj'⟩ := hused j' hj'
    rw [hset, if_neg hji] at hrj
    rw [hset, if_neg hji'] at hrj'
    exact h.single j j' k' b b' hj hj' hrj hrj'

/-- A total over the entries is a sum over the slots. -/
theorem Represents.total_eq {M : Type} [AddCommMonoid M]
    {f : κ → α → M} {w : σ → M}
    (hw : ∀ k a s, rel k a s → f k a = w s) :
    d.total f = ∑ i : Fin n, if used (slots.get i) then w (slots.get i) else 0 := by
  classical
  have hnodup : d.entries.Nodup := List.Nodup.of_map _ d.nodup
  have htotal : d.total f = ∑ e ∈ d.entries.toFinset, f e.1 e.2 :=
    (List.sum_toFinset (fun e : κ × α => f e.1 e.2) hnodup).symm
  have hmem : ∀ e, e ∈ d.entries.toFinset ↔ d.get? e.1 = some e.2 := by
    intro e; rw [List.mem_toFinset, Dict.get?_eq_some_iff]
  -- each entry is sent to its slot
  have hex : ∀ e ∈ d.entries.toFinset, ∃ i : Fin n,
      used (slots.get i) = true ∧ rel e.1 e.2 (slots.get i) :=
    fun e he => h.stored e.1 e.2 ((hmem e).mp he)
  choose g hg using hex
  rw [htotal, ← Finset.sum_filter]
  refine Finset.sum_bij g (fun e he => ?_) (fun e he e' he' heq => ?_) (fun i hi => ?_) fun e he => ?_
  · exact Finset.mem_filter.mpr ⟨Finset.mem_univ _, (hg e he).1⟩
  · have hr := (hg e he).2
    rw [heq] at hr
    have hk := hkey _ _ _ _ _ hr (hg e' he').2
    have ha := (hmem e).mp he
    rw [hk, (hmem e').mp he', Option.some.injEq] at ha
    exact Prod.ext hk ha.symm
  · obtain ⟨k, a, ha, hr⟩ := h.occupied i (Finset.mem_filter.mp hi).2
    have he := (hmem (k, a)).mpr ha
    exact ⟨(k, a), he, h.single _ _ _ _ _ (hg _ he).1 (Finset.mem_filter.mp hi).2 (hg _ he).2 hr⟩
  · exact hw _ _ _ (hg e he).2

theorem Represents.length_eq :
    d.length = ∑ i : Fin n, if used (slots.get i) then 1 else 0 := by
  rw [Dict.length_eq_total]
  exact h.total_eq hkey fun _ _ _ _ => rfl

end Key

theorem sum_set (w : σ → Nat) (slots : Vector σ n) (i : Fin n) (s : σ) :
    (∑ j : Fin n, w ((put slots i s).get j)) + w (slots.get i) =
      (∑ j : Fin n, w (slots.get j)) + w s := by
  rw [← Finset.add_sum_erase _ _ (Finset.mem_univ i), ← Finset.add_sum_erase _ _ (Finset.mem_univ i)]
  have hrest : ∑ j ∈ Finset.univ.erase i, w ((put slots i s).get j) =
      ∑ j ∈ Finset.univ.erase i, w (slots.get j) := by
    refine Finset.sum_congr rfl fun j hj => ?_
    rw [get_put, if_neg (Finset.mem_erase.mp hj).1]
  rw [get_put_self]
  omega

end Emosa.Slots
