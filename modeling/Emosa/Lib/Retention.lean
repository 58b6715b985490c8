import Mathlib.Data.List.Basic

/-!
# Emosa.Lib.Retention

Retention of a log, oldest first: kept are the most recent entries, those the policy always keeps, and
of each group the latest tracked entry. An entry's fate depends on what comes after it only, so
`retain` is a recursion over the log.

* `retain_eq_filter`: a filter that agrees with the policy at every entry is `retain`.
* `latest_retain`: each group keeps its latest tracked entry.
* `length_filter_retain_le`: what is kept for being recent only is at most `recent` entries.
* `retain_retain_concat`: retention before an entry is added changes nothing after it.
-/

namespace Emosa

open List

structure Retention (α κ : Type) where
  recent : Nat
  always : α → Bool
  tracked : α → Bool
  group : α → κ

namespace Retention

variable {α κ : Type} [DecidableEq κ] (r : Retention α κ)

def follows (k : κ) (x : α) : Bool := r.tracked x && r.group x = k

/-- The entry is kept, `later` being those after it. -/
def spares (x : α) (later : List α) : Bool :=
  later.length < r.recent || r.always x || (r.tracked x && !later.any (r.follows (r.group x)))

def retain : List α → List α
  | [] => []
  | x :: later => if r.spares x later then x :: retain later else retain later

/-- The group's latest tracked entry. -/
def latest (k : κ) (l : List α) : Option α := (l.filter (r.follows k)).getLast?

variable {r}

section

variable {l : List α}

theorem retain_eq_filter {f : α → Bool}
    (h : ∀ old x later, l = old ++ x :: later → f x = r.spares x later) :
    l.filter f = r.retain l := by
  suffices hs : ∀ old rest, l = old ++ rest → rest.filter f = r.retain rest from hs [] l rfl
  intro old rest
  induction rest generalizing old with
  | nil => intro _; rfl
  | cons x later ih =>
    intro hl
    have hrest := ih (old ++ [x]) (by rw [hl, append_assoc]; rfl)
    rw [filter_cons, retain, h old x later hl, hrest]

theorem retain_sublist (l : List α) : (r.retain l).Sublist l := by
  induction l with
  | nil => exact .slnil
  | cons x later ih =>
    unfold retain
    split
    · exact ih.cons_cons x
    · exact ih.cons x

theorem mem_retain_of_always {x : α} (hx : x ∈ l) (h : r.always x = true) :
    x ∈ r.retain l := by
  induction l with
  | nil => cases hx
  | cons y later ih =>
    unfold retain
    cases mem_cons.mp hx with
    | inl he =>
      have hs : r.spares y later = true := by simp [spares, ← he, h]
      rw [if_pos hs, he]
      exact mem_cons_self
    | inr hm =>
      split
      · exact mem_cons_of_mem _ (ih hm)
      · exact ih hm

/-! ## Groups -/

theorem any_retain (k : κ) (l : List α) :
    (r.retain l).any (r.follows k) = l.any (r.follows k) := by
  induction l with
  | nil => rfl
  | cons x later ih =>
    unfold retain
    split
    · simp only [any_cons, ih]
    · rename_i hs
      rw [any_cons, ih]
      cases hf : r.follows k x with
      | false => rfl
      | true =>
        -- an entry of the group is dropped only for a later one
        obtain ⟨ht, hk⟩ : r.tracked x = true ∧ r.group x = k := by simpa [follows] using hf
        have hlater : later.any (r.follows (r.group x)) = true := by
          cases ha : later.any (r.follows (r.group x)) with
          | true => rfl
          | false => exact absurd (by simp [spares, ht, ha]) hs
        rw [← hk, hlater]
        rfl

theorem latest_cons (k : κ) (x : α) (l : List α) :
    r.latest k (x :: l) = if l.any (r.follows k) then r.latest k l
      else if r.follows k x then some x else none := by
  unfold latest
  cases ha : l.any (r.follows k) with
  | true =>
    obtain ⟨y, hy, hf⟩ := any_eq_true.mp ha
    have hne : l.filter (r.follows k) ≠ [] := ne_nil_of_mem (mem_filter.mpr ⟨hy, hf⟩)
    rw [filter_cons]
    split
    · rw [getLast?_cons_of_ne_nil hne, if_pos rfl]
    · rw [if_pos rfl]
  | false =>
    have hnil : l.filter (r.follows k) = [] := by
      rw [filter_eq_nil_iff]
      intro y hy hf
      rw [any_eq_true.mpr ⟨y, hy, hf⟩] at ha
      cases ha
    rw [filter_cons, hnil]
    split <;> rfl

theorem latest_retain (k : κ) (l : List α) : r.latest k (r.retain l) = r.latest k l := by
  induction l with
  | nil => rfl
  | cons x later ih =>
    rw [latest_cons, retain]
    split
    · rw [latest_cons, any_retain, ih]
    · rename_i hs
      rw [ih]
      cases ha : later.any (r.follows k) with
      | true => rfl
      | false =>
        have hf : r.follows k x = false := by
          cases hf : r.follows k x with
          | false => rfl
          | true =>
            obtain ⟨ht, hk⟩ : r.tracked x = true ∧ r.group x = k := by simpa [follows] using hf
            exact absurd (by simp [spares, ht, hk, ha]) hs
        have hnone : r.latest k later = none := by
          cases hl : r.latest k later with
          | none => rfl
          | some y =>
            obtain ⟨hy, hfy⟩ := mem_filter.mp (mem_of_getLast? hl)
            rw [any_eq_true.mpr ⟨y, hy, hfy⟩] at ha
            cases ha
        rw [hnone, hf]
        rfl

/-! ## Recent entries -/

theorem retain_of_length_le (h : l.length ≤ r.recent) : r.retain l = l := by
  induction l with
  | nil => rfl
  | cons x later ih =>
    rw [length_cons] at h
    have hs : r.spares x later = true := by
      have hlt : later.length < r.recent := by omega
      simp [spares, hlt]
    rw [retain, if_pos hs, ih (by omega)]

theorem le_length_retain {n : Nat} (hn : n ≤ r.recent) (h : n ≤ l.length) :
    n ≤ (r.retain l).length := by
  induction l with
  | nil => exact h
  | cons x later ih =>
    by_cases hlen : n ≤ later.length
    · have hrest := ih hlen
      unfold retain
      split
      · rw [length_cons]
        omega
      · exact hrest
    · rw [length_cons] at h
      rw [retain_of_length_le (by rw [length_cons]; omega)]
      omega

theorem length_retain_lt {n : Nat} (hn : n ≤ r.recent) (l : List α) :
    (r.retain l).length < n ↔ l.length < n := by
  constructor
  · intro hlt
    by_contra hge
    have hle := le_length_retain hn (l := l) (by omega)
    omega
  · intro hlt
    rw [retain_of_length_le (by omega)]
    exact hlt

/-- Entries that are kept for being recent only are at most `recent`. -/
theorem length_filter_retain_le {f : α → Bool}
    (h : ∀ old x later, l = old ++ x :: later → f x = true → r.spares x later = true →
      later.length < r.recent) : ((r.retain l).filter f).length ≤ r.recent := by
  induction l with
  | nil => exact Nat.zero_le _
  | cons x later ih =>
    by_cases hlen : later.length < r.recent
    · calc ((r.retain (x :: later)).filter f).length
          ≤ (r.retain (x :: later)).length := length_filter_le _ _
        _ ≤ (x :: later).length := (retain_sublist _).length_le
        _ ≤ r.recent := hlen
    · have hrest := ih fun old y later' hl => h (x :: old) y later' (by rw [hl]; rfl)
      unfold retain
      split
      · rename_i hs
        have hf : ¬ f x = true := fun hf => hlen (h [] x later rfl hf hs)
        rw [filter_cons_of_neg hf]
        exact hrest
      · exact hrest

end

theorem spares_of_concat {x y : α} {later : List α} (h : r.spares x (later ++ [y]) = true) :
    r.spares x later = true := by
  simp only [spares, Bool.or_eq_true, decide_eq_true_eq, length_append, any_append,
    Bool.and_eq_true, Bool.not_eq_true', Bool.or_eq_false_iff] at h ⊢
  rcases h with (hlen | halways) | ⟨htracked, hlater, -⟩
  · exact .inl (.inl (by omega))
  · exact .inl (.inr halways)
  · exact .inr ⟨htracked, hlater⟩

theorem spares_retain_concat (x y : α) (later : List α) :
    r.spares x (r.retain later ++ [y]) = r.spares x (later ++ [y]) := by
  have hlen : (r.retain later).length + 1 < r.recent ↔ later.length + 1 < r.recent := by
    have hlt := length_retain_lt (n := r.recent - 1) (Nat.sub_le _ _) later
    omega
  simp only [spares, length_append, length_singleton, any_append, any_retain,
    decide_eq_decide.mpr hlen]

theorem retain_retain_concat (l : List α) (y : α) :
    r.retain (r.retain l ++ [y]) = r.retain (l ++ [y]) := by
  induction l with
  | nil => rfl
  | cons x later ih =>
    cases hs : r.spares x (later ++ [y]) with
    | true =>
      have hleft : r.retain (x :: later) = x :: r.retain later := if_pos (spares_of_concat hs)
      have hright : r.retain (x :: (later ++ [y])) = x :: r.retain (later ++ [y]) := if_pos hs
      rw [cons_append, hright, hleft, cons_append, retain, spares_retain_concat, hs,
        if_pos rfl, ih]
    | false =>
      have hright : r.retain (x :: (later ++ [y])) = r.retain (later ++ [y]) := by
        rw [retain, hs]
        rfl
      rw [cons_append, hright, ← ih, retain]
      -- dropped at once, or kept until the new entry is there
      split
      · rw [cons_append, retain, spares_retain_concat, hs]
        rfl
      · rfl

end Retention
end Emosa
