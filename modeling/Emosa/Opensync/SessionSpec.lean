import Emosa.Lib.Except
import Emosa.Opensync.Session

/-!
# Emosa.Opensync.SessionSpec

What a pass of the session can do to it, said once for the proofs about whole runs.

* `pump_cases`: a pass leaves the session not ready or as it was, or puts one update into the cache.
* `pump_refuses`: an update of the session's monitor that does not pass.
* `hear_none`, `hear_ok`: a turn of a request's loop that goes on, and one that ends with a result.
* `Derived`: nothing more than readiness is lost.
-/

namespace Emosa.Opensync

open Option

variable {V : Type}

/-! ## Updates -/

theorem foldlM_eq_foldl {σ α : Type} {f : σ → α → Option σ} {g : σ → α → σ}
    (h : ∀ s a s', f s a = some s' → s' = g s a) {l : List α} {s r : σ}
    (hr : l.foldlM f s = some r) : r = l.foldl g s := by
  induction l generalizing s with
  | nil =>
    cases hr
    rfl
  | cons a l ih =>
    obtain ⟨s', hs', hr⟩ := bind_eq_some_iff.mp hr
    rw [List.foldl_cons, ← h s a s' hs']
    exact ih hr

namespace Session

variable {s : Session V}

theorem admitRow_eq {table : String} {rows rows' : Rows V} {e : String × Option (Row V)}
    (h : s.admitRow table rows e = some rows') : rows' = applyRow rows e := by
  unfold admitRow at h
  split at h
  · exact (some.inj h).symm
  · cases h

theorem admitTable_eq {tables tables' : Tables V} {e : String × Dict String (Option (Row V))}
    (h : s.admitTable tables e = some tables') : tables' = applyTable tables e := by
  unfold admitTable at h
  obtain ⟨-, h⟩ := guard_passed h
  obtain ⟨rows, hrows, rfl⟩ := map_eq_some_iff.mp h
  rw [foldlM_eq_foldl (fun _ _ _ => admitRow_eq) hrows]
  rfl

theorem foldlM_split {σ α : Type} {f : σ → α → Option σ} {g : σ → α → σ}
    (h : ∀ s a s', f s a = some s' → s' = g s a) {l pre post : List α} {a : α} {s r : σ}
    (hr : l.foldlM f s = some r) (hl : l = pre ++ a :: post) : (f (pre.foldl g s) a).isSome := by
  subst hl
  rw [List.foldlM_append] at hr
  obtain ⟨s₁, hpre, hr⟩ := bind_eq_some_iff.mp hr
  obtain ⟨s₂, ha, -⟩ := bind_eq_some_iff.mp hr
  rw [← foldlM_eq_foldl h hpre, ha]
  rfl

/-- A change to one key leaves the others alone, so a fold over distinct keys finds each as it was. -/
theorem get?_foldl_before {α β : Type} {f : Dict String α → String × β → Dict String α}
    (hf : ∀ d e k, k ≠ e.1 → (f d e).get? k = d.get? k) {l pre post : List (String × β)}
    {e : String × β} (hl : l = pre ++ e :: post) (hnodup : (l.map Prod.fst).Nodup)
    (d : Dict String α) : (pre.foldl f d).get? e.1 = d.get? e.1 := by
  subst hl
  induction pre generalizing d with
  | nil => rfl
  | cons e' pre ih =>
    rw [List.cons_append, List.map_cons, List.nodup_cons] at hnodup
    rw [List.foldl_cons, ih _ hnodup.2, hf]
    intro heq
    exact hnodup.1 (heq ▸ by simp)

theorem get?_applyRow_ne (rows : Rows V) (e : String × Option (Row V)) (k : String) (h : k ≠ e.1) :
    (applyRow rows e).get? k = rows.get? k := by
  obtain ⟨uuid, _ | new⟩ := e
  · exact Dict.get?_erase_ne rows h
  · exact Dict.get?_set_ne rows _ h

theorem admitted_eq {initial : Bool} {u : Updates V} {candidate : Tables V}
    (h : s.admitted initial u = some candidate) :
    candidate = applyTables (if initial then ∅ else s.cache) u := by
  obtain ⟨hfold, -⟩ := filter_eq_some_iff.mp h
  exact foldlM_eq_foldl (fun _ _ _ => admitTable_eq) hfold

/-- An update that is put into the cache is not a bad one. -/
theorem not_bad_of_admitted {u : Updates V} {candidate : Tables V}
    (h : s.admitted false u = some candidate) : ¬ s.Bad u := by
  obtain ⟨hfold, hsize⟩ := filter_eq_some_iff.mp h
  have htable : ∀ table changes, u.get? table = some changes →
      (s.selected.get? table).isSome ∧
        (changes.entries.foldlM (s.admitRow table) ((s.cache.get? table).getD ∅)).isSome := by
    intro table changes hget
    obtain ⟨pre, post, hsplit⟩ := List.append_of_mem (Dict.get?_eq_some_iff.mp hget)
    have hadmit := foldlM_split (g := applyTable) (fun _ _ _ => admitTable_eq) hfold hsplit
    have hbefore := get?_foldl_before (f := applyTable)
      (fun d e k hne => Dict.get?_set_ne d _ hne) hsplit u.nodup s.cache
    simp only [admitTable, if_false, Bool.false_eq_true, hbefore] at hadmit
    split at hadmit
    · cases hadmit
    · rename_i hsome
      exact ⟨by simpa [isSome_iff_ne_none] using hsome, by simpa using hadmit⟩
  rintro (⟨table, changes, hget, hnone⟩ | ⟨table, changes, uuid, new, hget, hrow, hinvalid⟩ | hover)
  · have hsome := (htable table changes hget).1
    rw [hnone] at hsome
    cases hsome
  · obtain ⟨rows, hrows⟩ := isSome_iff_exists.mp (htable table changes hget).2
    obtain ⟨pre, post, hsplit⟩ := List.append_of_mem (Dict.get?_eq_some_iff.mp hrow)
    have hadmit := foldlM_split (g := applyRow) (fun _ _ _ => admitRow_eq) hrows hsplit
    have hbefore := get?_foldl_before get?_applyRow_ne hsplit changes.nodup
      ((s.cache.get? table).getD ∅)
    have hmerged : ((applyRow (pre.foldl applyRow ((s.cache.get? table).getD ∅))
        (uuid, some new)).get? uuid).getD ∅ =
        mergeRow ((((s.cache.get? table).getD ∅).get? uuid).getD ∅) new := by
      simp only [applyRow, Dict.get?_set_self, getD_some, hbefore]
    simp only [admitRow, isNone_some, Bool.false_or, hmerged] at hadmit
    split at hadmit
    · rename_i hvalid
      exact hinvalid hvalid
    · cases hadmit
  · rw [admitted_eq h] at hsize
    simp only [if_false, Bool.false_eq_true, decide_eq_true_eq] at hsize
    exact absurd hover (Nat.not_lt.mpr hsize)

/-- What of the session the cache's meaning depends on. -/
structure Same (s s' : Session V) : Prop where
  ready : s'.ready = s.ready
  cache : s'.cache = s.cache
  monitorId : s'.monitorId = s.monitorId
  selected : s'.selected = s.selected
  generation : s'.generation = s.generation

theorem Same.refl (s : Session V) : Same s s := ⟨rfl, rfl, rfl, rfl, rfl⟩

theorem Same.trans {s₁ s₂ : Session V} (h : Same s s₁) (h' : Same s₁ s₂) : Same s s₂ :=
  ⟨h'.ready.trans h.ready, h'.cache.trans h.cache, h'.monitorId.trans h.monitorId,
    h'.selected.trans h.selected, h'.generation.trans h.generation⟩

/-- The session with an update in its cache. -/
def cached (s : Session V) (candidate : Tables V) : Session V :=
  { s with cache := candidate, revision := s.revision + 1 }

/-- The arrival is an update of the session's monitor, and it passes. -/
def Admits (s : Session V) (a : Arrival V) (u : Updates V) (candidate : Tables V) : Prop :=
  s.meet .same = s ∧ ∃ p q rest size, a = ⟨.same, .message (.update (p :: q :: rest)) size⟩ ∧
    size ≤ s.messageLimit ∧ p.names s.monitorId = true ∧ q.updates? = some u ∧
    s.admitted false u = some candidate

/-- The arrival is an update of the session's monitor that has no contents or faulty ones. -/
def Refuses (s : Session V) (a : Arrival V) : Prop :=
  ∃ p rest size, a.received = .message (.update (p :: rest)) size ∧
    p.names (s.meet a.link).monitorId = true ∧
    ∀ q rest', rest = q :: rest' → (s.meet a.link).Faulty q size

/-- The parameters of an update notification: the monitor's name, and updates that are in the
protocol's form if they can be read. -/
def Whole (ps : List (Param V)) : Prop := 2 ≤ ps.length ∧ ∀ p u rest, ps ≠ p :: .loose u :: rest

/-- The connection of a pass is the one before, or the session is not ready: there is none, or another
one. -/
theorem meet_cases (s : Session V) (link : Link) :
    (s.meet link).ready = false ∧
      ((s.meet link).connected = false ∨ (s.meet link).generation = s.generation + 1) ∨
    link = .same ∧ s.meet link = s ∧ s.connected = true := by
  cases link with
  | same =>
    by_cases hup : (s.connected && !s.forced) = true
    · have hcon : s.connected = true := (Bool.and_eq_true_iff.mp hup).1
      exact .inr ⟨rfl, by simp only [meet, hup, if_true], hcon⟩
    · exact .inl (by simp [meet, hup])
  | gone => exact .inl ⟨rfl, .inl rfl⟩
  | fresh pinned => exact .inl ⟨rfl, .inr rfl⟩

theorem meet_cache (s : Session V) (link : Link) : (s.meet link).cache = s.cache := by
  cases link with
  | same =>
    simp only [meet]
    split <;> rfl
  | gone | fresh => rfl

theorem take_cases (s : Session V) (m : Message V) (size : Nat) :
    (s.take m size).1.ready = false ∨
    (s.take m size).1 = s ∧
      (∀ p q rest, m = .update (p :: q :: rest) → p.names s.monitorId = false) ∨
    ∃ p q u rest candidate, m = .update (p :: q :: rest) ∧ size ≤ s.messageLimit ∧
      p.names s.monitorId = true ∧ q.updates? = some u ∧ s.admitted false u = some candidate ∧
      (s.take m size).1 = s.cached candidate := by
  unfold take
  split
  · exact .inl rfl
  rename_i hsize
  match m with
  | .update [] => exact .inr (.inl ⟨rfl, by simp⟩)
  | .update (p :: rest) =>
    simp only
    split
    · rename_i hp
      match rest with
      | [] => exact .inr (.inl ⟨rfl, by simp⟩)
      | q :: rest =>
        simp only [update]
        cases hq : q.updates?.bind (s.admitted false) with
        | none => exact .inl rfl
        | some c =>
          obtain ⟨u, hu, hc⟩ := bind_eq_some_iff.mp hq
          exact .inr (.inr ⟨p, q, u, rest, c, rfl, not_lt.mp hsize, hp, hu, hc, rfl⟩)
    · rename_i hp
      refine .inr (.inl ⟨rfl, fun p' q rest' heq => ?_⟩)
      cases heq
      exact eq_false_of_ne_true hp
  | .notify | .reply _ _ | .error _ | .request _ => exact .inr (.inl ⟨rfl, by simp⟩)

theorem take_down (hs : s.ready = false) (m : Message V) (size : Nat) :
    (s.take m size).1.ready = false := by
  rcases s.take_cases m size with h | ⟨h, -⟩ | ⟨_, _, _, _, _, -, -, -, -, -, h⟩
  · exact h
  · rw [h, hs]
  · rw [h]
    exact hs

theorem pump_cases (s : Session V) (a : Arrival V) :
    (s.pump a).1.ready = false ∨
    (s.pump a).1 = s ∧
      (∀ p q rest size, a.received = .message (.update (p :: q :: rest)) size →
        p.names s.monitorId = false) ∨
    ∃ u candidate, s.Admits a u candidate ∧ (s.pump a).1 = s.cached candidate := by
  unfold pump
  split
  · exact .inl rfl
  rcases s.meet_cases a.link with ⟨hdown, -⟩ | ⟨hlink, hmeet, hup⟩
  · refine .inl ?_
    simp only
    split
    · exact hdown
    · cases a.received with
      | nothing => exact hdown
      | broken again => rfl
      | message m size => exact take_down hdown m size
  · simp only [hmeet, hup]
    obtain ⟨link, received⟩ := a
    subst hlink
    cases received with
    | nothing => exact .inr (.inl ⟨rfl, by simp⟩)
    | broken again => exact .inl rfl
    | message m size =>
      rcases s.take_cases m size with
        hdown | ⟨hsame, hno⟩ | ⟨p, q, u, rest, c, rfl, hsize, hp, hu, hc, heq⟩
      · exact .inl hdown
      · refine .inr (.inl ⟨hsame, fun p q rest size' h => hno p q rest ?_⟩)
        cases h
        rfl
      · exact .inr (.inr ⟨u, c, ⟨hmeet, p, q, rest, size, rfl, hsize, hp, hu, hc⟩, heq⟩)

section

variable {s' : Session V}

theorem take_ok {m : Message V} {size : Nat} {r : Option (Message V)}
    (h : s.take m size = (s', .ok r)) :
    s' = s ∧ (∀ m', r = some m' → m' = m) ∨ r = none ∧ ∃ candidate, s' = s.cached candidate := by
  unfold take at h
  split at h
  · cases h
  match m with
  | .update [] => cases h
  | .update (p :: rest) =>
    simp only at h
    split at h
    · match rest with
      | [] => cases h
      | q :: _ =>
        simp only [update] at h
        cases hq : q.updates?.bind (s.admitted false) with
        | none =>
          rw [hq] at h
          cases h
        | some c =>
          rw [hq] at h
          cases h
          exact .inr ⟨rfl, c, rfl⟩
    · cases h
      exact .inl ⟨rfl, by simp⟩
  | .notify | .reply _ _ | .error _ | .request _ =>
    cases h
    exact .inl ⟨rfl, by simp⟩

/-- What a pass without an exception leaves of a connection that stays. -/
structure Stays (s s' : Session V) : Prop where
  generation : s'.generation = s.generation
  monitorId : s'.monitorId = s.monitorId
  ready : s.ready = false → s'.ready = false

theorem Stays.refl (s : Session V) : Stays s s := ⟨rfl, rfl, id⟩

theorem take_stays {m : Message V} {size : Nat} {r : Option (Message V)}
    (h : s.take m size = (s', .ok r)) : Stays s s' := by
  rcases take_ok h with ⟨rfl, -⟩ | ⟨-, c, rfl⟩
  · exact .refl s'
  · exact ⟨rfl, rfl, id⟩

/-- A pass without an exception: the connection is gone, it is another one, or it stays. A message for
the caller leaves the session as it was. -/
theorem pump_ok {a : Arrival V} {r : Option (Message V)}
    (h : s.pump a = (s', .ok r)) : s'.connected = false ∨ s'.generation = s.generation + 1 ∨
      Stays s s' ∧ ∀ m, r = some m → s' = s ∧ ∃ size, a = ⟨.same, .message m size⟩ := by
  obtain ⟨link, received⟩ := a
  unfold pump at h
  split at h
  · cases h
  simp only at h
  split at h
  · rename_i hdown
    cases h
    exact .inl hdown
  rename_i hup
  rcases s.meet_cases link with ⟨-, hdown | hnew⟩ | ⟨rfl, hmeet, -⟩
  · exact absurd hdown hup
  · refine .inr (.inl ?_)
    cases received with
    | nothing | broken =>
      cases h
      exact hnew
    | message m size => exact (take_stays h).generation.trans hnew
  · rw [hmeet] at h
    cases received with
    | nothing =>
      cases h
      exact .inr (.inr ⟨.refl s, by simp⟩)
    | broken again =>
      cases h
      exact .inr (.inr ⟨⟨rfl, rfl, fun _ => rfl⟩, by simp⟩)
    | message m size =>
      refine .inr (.inr ⟨take_stays h, fun m' hm' => ?_⟩)
      rcases take_ok h with ⟨rfl, hr⟩ | ⟨hr, -⟩
      · exact ⟨rfl, size, by rw [hr m' hm']⟩
      · rw [hr] at hm'
        cases hm'

theorem hear_none {w : Wait} {a : Arrival V} (hg : w.generation = s.generation)
    (h : s.hear w a = (s', none)) : Stays s s' := by
  unfold hear at h
  generalize hp : s.pump a = out at h
  obtain ⟨s₁, r₁ | message⟩ := out
  · cases h
  · simp only at h
    obtain ⟨hlive, h⟩ := guard_passed h
    rw [not_or] at hlive
    have hs : s' = s₁ := by
      cases message with
      | none =>
        cases h
        rfl
      | some m =>
        simp only at h
        split at h
        · split at h <;> cases h
        · cases h
          rfl
    rcases pump_ok hp with hdown | hnew | ⟨hstays, -⟩
    · exact absurd hdown hlive.2
    · have := hlive.1
      omega
    · rw [hs]
      exact hstays

theorem hear_ok {w : Wait} {a : Arrival V} {payload : Payload V}
    (hg : w.generation = s.generation) (h : s.hear w a = (s', some (.ok payload))) :
    s' = s ∧ ∃ m size, a = ⟨.same, .message m size⟩ ∧ m.answers w.id = true ∧
      m.result = .ok payload := by
  unfold hear at h
  generalize hp : s.pump a = out at h
  obtain ⟨s₁, r₁ | message⟩ := out
  · cases h
  · simp only at h
    obtain ⟨hlive, h⟩ := guard_passed h
    rw [not_or] at hlive
    cases message with
    | none => cases h
    | some m =>
      simp only at h
      split at h
      · rename_i hans
        obtain ⟨-, h⟩ := guard_passed h
        obtain ⟨rfl, hres⟩ := Prod.mk.inj h
        rcases pump_ok hp with hdown | hnew | ⟨-, hm⟩
        · exact absurd hdown hlive.2
        · have := hlive.1
          omega
        · obtain ⟨hs, size, ha⟩ := hm m rfl
          exact ⟨hs, m, size, ha, hans, some.inj hres⟩
      · cases h

end

/-- A faulty update whose parameters are whole is not one the session puts into its cache. -/
theorem Faulty.refused {p q : Param V} {rest : List (Param V)} {size : Nat} (h : s.Faulty q size)
    (hsize : size ≤ s.messageLimit) (hwhole : Whole (p :: q :: rest)) :
    q.updates?.bind (s.admitted false) = none := by
  cases q with
  | updates u =>
    rcases h with hover | hbad
    · exact absurd hover (Nat.not_lt.mpr hsize)
    · refine Option.eq_none_iff_forall_ne_some.mpr fun candidate hc => ?_
      exact not_bad_of_admitted hc (hbad u rfl)
  | loose u => exact absurd rfl (hwhole.2 p u rest)
  | text | null | other => rfl

/-- An update of the session's monitor that does not pass leaves the cache, and the session not
ready. The only exceptions are updates without their contents, and those that read as well-formed
ones. -/
theorem pump_refuses {a : Arrival V} (h : s.Refuses a)
    (hwhole : ∀ ps size, a.received = .message (.update ps) size → Whole ps) :
    (s.pump a).1.cache = s.cache ∧ (s.pump a).1.ready = false := by
  obtain ⟨p, rest, size, hrec, hp, hno⟩ := h
  have hps := hwhole _ _ hrec
  unfold pump
  split
  · exact ⟨meet_cache s a.link, rfl⟩
  · simp only
    split
    · rename_i hdown
      refine ⟨meet_cache s a.link, ?_⟩
      rcases s.meet_cases a.link with ⟨hready, -⟩ | ⟨-, hmeet, hup⟩
      · exact hready
      · rw [hmeet, hup] at hdown
        cases hdown
    · rw [hrec]
      simp only [take]
      split
      · exact ⟨meet_cache s a.link, rfl⟩
      · rename_i hsize
        cases rest with
        | nil => exact absurd hps.1 (by simp)
        | cons q rest =>
          have hq := (hno q rest rfl).refused (not_lt.mp hsize) hps
          simp only [update, hq]
          exact ⟨meet_cache s a.link, rfl⟩

theorem pump_generation (s : Session V) (a : Arrival V) :
    s.generation ≤ (s.pump a).1.generation := by
  have hmeet : s.generation ≤ (s.meet a.link).generation := by
    rcases a with ⟨_ | _ | pinned, received⟩
    · simp only [meet]
      split <;> exact Nat.le_refl _
    · exact Nat.le_refl _
    · exact Nat.le_succ _
  have htake : ∀ m size, ((s.meet a.link).take m size).1.generation = (s.meet a.link).generation := by
    intro m size
    unfold take
    split
    · rfl
    · split
      · rfl
      · split
        · split
          · rfl
          · simp only [update]
            split <;> rfl
        · rfl
      · rfl
      · rfl
  unfold pump
  split
  · exact hmeet
  · simp only
    split
    · exact hmeet
    · cases a.received with
      | nothing | broken => exact hmeet
      | message m size => exact hmeet.trans (htake m size).ge

/-- Nothing more than readiness is lost. -/
structure Derived (s s' : Session V) : Prop where
  cache : s'.cache = s.cache
  generation : s'.generation = s.generation
  same : s'.ready = false ∨ Same s s'

theorem Derived.refl (s : Session V) : Derived s s := ⟨rfl, rfl, .inr (.refl s)⟩

theorem Derived.trans {s₁ s₂ : Session V} (h : Derived s s₁) (h' : Derived s₁ s₂) :
    Derived s s₂ := by
  refine ⟨h'.cache.trans h.cache, h'.generation.trans h.generation, ?_⟩
  rcases h'.same with hdown | hsame
  · exact .inl hdown
  · rcases h.same with hdown | hs
    · exact .inl (hsame.ready.trans hdown)
    · exact .inr (hs.trans hsame)

theorem invalidate_derived (s : Session V) : Derived s s.invalidate := ⟨rfl, rfl, .inl rfl⟩

theorem hear_derived (s : Session V) (w : Wait) (a : Arrival V) :
    Derived (s.pump a).1 (s.hear w a).1 := by
  unfold hear
  generalize s.pump a = out
  obtain ⟨s₁, r₁ | message⟩ := out
  · exact .refl s₁
  · simp only
    split
    · exact ⟨rfl, rfl, .inl rfl⟩
    · cases message with
      | none => exact .refl s₁
      | some m =>
        simp only
        split
        · split
          · exact ⟨rfl, rfl, .inl rfl⟩
          · exact .refl s₁
        · exact .refl s₁

end Session

end Emosa.Opensync
