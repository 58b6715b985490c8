import Emosa.Fleet.Registry
import Emosa.Lib.Durable
import Mathlib.Logic.Relation

/-!
# Emosa.Fleet.RegistryApart

No two entries of the registry share a port, an interface, an AL MAC or an underlay, over any
sequence of calls and of restarts of the fleet with other settings.

`Put` says what an entry a call writes is; `call_edits`, that a call is a sequence of such writes and
removals. Every invariant is proved of one write or removal. An interface is named after its port's
place in the range, so a restart that moves the range must leave each interface alone: `Clear`.
-/

namespace Emosa.Fleet

open Durable Dict List

theorem toString_injective {m n : Nat} (h : toString m = toString n) : m = n := by
  have hdigits : Nat.toDigits 10 m = Nat.toDigits 10 n := String.ofList_injective h
  rw [← Nat.ofDigitChars_ten_toDigits (n := m), hdigits, Nat.ofDigitChars_ten_toDigits]

theorem Settings.interface_injective {s : Settings} {p q : Nat} (hp : p ∈ s.ports)
    (h : s.interface p = s.interface q) : p = q := by
  have hplace := toString_injective ((String.append_right_inj _).mp h)
  exact (idxOf_inj hp).mp (Nat.succ_injective hplace)

theorem Underlay.disjoint {u v : Underlay} (h : u ≠ v) : u.network.Disjoint v.network := by
  intro x hu
  rw [Bool.eq_false_iff]
  intro hv
  have hsize : ∀ w : Underlay, w.network.size = 256 := fun _ => rfl
  have hbase : ∀ w : Underlay, w.network.base = 0xa9fe0000 + w.n * 256 := fun _ => rfl
  have hu := Network.contains_iff.mp hu
  have hv := Network.contains_iff.mp hv
  rw [hsize, hbase] at hu hv
  have hn : u.n = v.n := by omega
  cases v
  cases hn
  exact h rfl

namespace Registry

variable {f : Fixed} {s : Settings} {agents : Agents} {serial : String}

/-! ## What a call writes -/

/-- The entry a call writes for a serial. Its AL MAC, its port with the interface, and its underlay
are each the ones it had, or new ones. -/
structure Put (f : Fixed) (s : Settings) (agents : Agents) (serial : String) (e : Entry) : Prop where
  al : (∃ old, agents.get? serial = some old ∧ old.alMac = e.alMac) ∨
    (e.alMac ∉ f.reservedAls ∧ ∀ k other, agents.get? k = some other → other.alMac ≠ e.alMac)
  port : (∃ old, agents.get? serial = some old ∧ old.port = e.port ∧ old.interface = e.interface) ∨
    (e.port ∈ free s agents ∧ e.interface = s.interface e.port)
  underlay : ∀ u, e.underlay = some u →
    (∃ old, agents.get? serial = some old ∧ old.underlay = some u) ∨
      ∀ k other, k ≠ serial → agents.get? k = some other → other.underlay ≠ some u
  clear : ∀ gtp u, s.gtp = some gtp → e.underlay = some u → u.network.overlaps gtp = false

inductive Edit (f : Fixed) (s : Settings) (agents : Agents) : Agents → Prop
  | put (serial : String) (e : Entry) : Put f s agents serial e → Edit f s agents (agents.set serial e)
  | erase (serial : String) : Edit f s agents (agents.erase serial)

theorem mem_used {u : Underlay} :
    u ∈ (agents.erase serial).entries.filterMap (fun e => e.2.underlay) ↔
      ∃ k other, k ≠ serial ∧ agents.get? k = some other ∧ other.underlay = some u := by
  simp only [mem_filterMap, Prod.exists]
  constructor
  · rintro ⟨k, other, hmem, hu⟩
    obtain ⟨hget, hne⟩ := get?_filter.mp (get?_eq_some_iff.mpr hmem)
    exact ⟨k, other, by simpa using hne, hget, hu⟩
  · rintro ⟨k, other, hne, hget, hu⟩
    exact ⟨k, other, get?_eq_some_iff.mp (get?_filter.mpr ⟨hget, by simpa using hne⟩), hu⟩

variable {entry : Entry} {held : Option Underlay}

/-- An underlay given is the entry's own or one no other entry has, and clear of the GTP underlay. -/
theorem underlay_spec {gtp : Network} {u : Underlay}
    (h : underlay agents gtp serial entry held = some u) : (entry.underlay = some u ∨
      ∀ k other, k ≠ serial → agents.get? k = some other → other.underlay ≠ some u) ∧
    u.network.overlaps gtp = false := by
  have hunused : u ∉ (agents.erase serial).entries.filterMap (fun e => e.2.underlay) →
      ∀ k other, k ≠ serial → agents.get? k = some other → other.underlay ≠ some u :=
    fun hnot k other hne hget hu => hnot (mem_used.mpr ⟨k, other, hne, hget, hu⟩)
  simp only [underlay] at h
  split at h
  · rename_i mine hmine
    cases h
    rw [Option.filter_eq_some_iff] at hmine
    exact ⟨.inl hmine.1, by simpa using hmine.2⟩
  · split at h
    · rename_i hheld
      cases h
      rw [Option.filter_eq_some_iff] at hheld
      simp only [Bool.and_eq_true, decide_eq_true_eq, Bool.not_eq_true'] at hheld
      exact ⟨.inr (hunused hheld.2.1), hheld.2.2⟩
    · have hfree := find?_some h
      simp only [Bool.and_eq_true, decide_eq_true_eq, Bool.not_eq_true'] at hfree
      exact ⟨.inr (hunused hfree.2), hfree.1⟩

variable {identity : Identity}

section

variable {now : ℚ}

/-- `seen` keeps the AL MAC, the port and the interface, and gives the underlay. -/
theorem put_seen {others : Agents}
    (hothers : ∀ k, k ≠ identity.serial → others.get? k = agents.get? k)
    (hal : (∃ old, agents.get? identity.serial = some old ∧ old.alMac = entry.alMac) ∨
      (entry.alMac ∉ f.reservedAls ∧
        ∀ k other, agents.get? k = some other → other.alMac ≠ entry.alMac))
    (hport : (∃ old, agents.get? identity.serial = some old ∧ old.port = entry.port ∧
        old.interface = entry.interface) ∨
      (entry.port ∈ free s agents ∧ entry.interface = s.interface entry.port))
    (hunderlay : ∀ u, entry.underlay = some u →
      ∃ old, agents.get? identity.serial = some old ∧ old.underlay = some u) :
    Put f s agents identity.serial (seen s others entry identity held now) := by
  unfold seen
  split
  · rename_i gtp hgtp
    refine ⟨hal, hport, fun u hu => ?_, fun gtp' u hgtp' hu => ?_⟩
    · rcases (underlay_spec hu).1 with hmine | hnew
      · exact .inl (hunderlay u hmine)
      · exact .inr fun k other hne hget => hnew k other hne ((hothers k hne).trans hget)
    · rw [hgtp] at hgtp'
      cases hgtp'
      exact (underlay_spec hu).2
  · rename_i hgtp
    refine ⟨hal, hport, fun u hu => .inl (hunderlay u hu), fun gtp u hgtp' _ => ?_⟩
    rw [hgtp] at hgtp'
    cases hgtp'

theorem move_spec {moved : Entry} (h : move s agents entry = some moved) :
    moved.alMac = entry.alMac ∧ moved.underlay = entry.underlay ∧ moved.port ∈ free s agents ∧
      moved.interface = s.interface moved.port := by
  unfold move at h
  split at h
  · cases h
  · rename_i port rest hfree
    cases h
    split at hfree
    · exact ⟨rfl, rfl, hfree ▸ mem_cons_self, rfl⟩
    · cases hfree

variable {new : Agents}

theorem seenMoved_edit {g : Given} (hget : agents.get? identity.serial = some entry)
    (h : seenMoved s agents entry identity held now = some (g, new)) : Edit f s agents new := by
  unfold seenMoved at h
  split at h
  · rename_i moved hmove
    cases h
    obtain ⟨hal, hunderlay, hport, hinterface⟩ := move_spec hmove
    exact .put _ _ (put_seen (fun _ _ => rfl) (.inl ⟨entry, hget, hal.symm⟩)
      (.inr ⟨hport, hinterface⟩) fun u hu => ⟨entry, hget, hunderlay ▸ hu⟩)
  · split at h
    · cases h
    · cases h
      exact .put _ _ (put_seen (fun _ _ => rfl) (.inl ⟨entry, hget, rfl⟩)
        (.inl ⟨entry, hget, rfl, rfl⟩) fun u hu => ⟨entry, hget, hu⟩)

theorem again_edit {how : Option Given → Answer}
    (hget : agents.get? identity.serial = some entry)
    (h : (again s agents how entry identity held now).2 = some new) : Edit f s agents new := by
  unfold again at h
  split at h
  · rename_i g a hseen
    cases h
    exact seenMoved_edit hget hseen
  · cases h

theorem create_spec {port : Nat} {e : Entry}
    (h : create f s agents serial port now = some e) :
    e.port = port ∧ e.interface = s.interface port ∧ e.underlay = none ∧ e.alMac ∉ f.reservedAls ∧
      ∀ k other, agents.get? k = some other → other.alMac ≠ e.alMac := by
  obtain ⟨al, hal, rfl⟩ := Option.map_eq_some_iff.mp h
  have hfresh := find?_some hal
  simp only [decide_eq_true_eq, mem_append, not_or] at hfresh
  refine ⟨rfl, rfl, rfl, hfresh.1, fun k other hget heq => hfresh.2 ?_⟩
  exact mem_map.mpr ⟨(k, other), get?_eq_some_iff.mp hget, heq⟩

theorem admission_edit {how : Option Given → Answer} {port : Nat}
    (hport : port ∈ free s agents)
    (h : (admission f s agents how identity port held now).2 = some new) : Edit f s agents new := by
  unfold admission at h
  split at h
  · cases h
  · rename_i entry hcreate
    cases h
    obtain ⟨hp, hinterface, hunderlay, hreserved, hal⟩ := create_spec hcreate
    refine .put _ _ (put_seen (fun k hne => get?_set_ne _ _ hne) (.inr ⟨hreserved, hal⟩)
      (.inr ⟨hp ▸ hport, hp ▸ hinterface⟩) fun u hu => ?_)
    rw [hunderlay] at hu
    cases hu

theorem assign_edit (h : (assign f s agents identity held now).2 = some new) :
    Edit f s agents new := by
  unfold assign at h
  split at h
  · rename_i entry hget
    exact again_edit hget h
  · split at h
    · cases h
    · rename_i port rest hfree
      exact admission_edit (hfree ▸ mem_cons_self) h

theorem adopt_edit {port : Nat}
    (h : (adopt f s agents identity port held now).2 = some new) : Edit f s agents new := by
  unfold adopt at h
  split at h
  · rename_i entry hget
    exact again_edit hget h
  · split at h
    · cases h
    · rename_i hreserved
      split at h
      · cases h
      · rename_i htaken
        refine admission_edit ?_ h
        simp only [Bool.or_eq_true, decide_eq_true_eq, not_or, not_not, any_eq_true,
          not_exists, not_and, beq_iff_eq] at htaken
        simp only [free, mem_filter, mem_map, Bool.and_eq_true, decide_eq_true_eq]
        refine ⟨htaken.1, ?_, hreserved⟩
        rintro ⟨e, he, hp⟩
        exact htaken.2 e he hp

end

theorem put_place {gtp : Network} (hgtp : s.gtp = some gtp)
    (hget : agents.get? serial = some entry) :
    Put f s agents serial (place agents gtp serial entry none) := by
  refine ⟨.inl ⟨entry, hget, rfl⟩, .inl ⟨entry, hget, rfl, rfl⟩, fun u hu => ?_,
    fun gtp' u hgtp' hu => ?_⟩
  · have hu : underlay agents gtp serial entry none = some u := hu
    rcases (underlay_spec hu).1 with hmine | hnew
    · exact .inl ⟨entry, hget, hmine⟩
    · exact .inr hnew
  · have hu : underlay agents gtp serial entry none = some u := hu
    rw [hgtp] at hgtp'
    cases hgtp'
    exact (underlay_spec hu).2

theorem settleOne_edit {gtp : Network} {changed : Bool} (hgtp : s.gtp = some gtp) (serial : String) :
    Relation.ReflTransGen (Edit f s) agents (settleOne gtp (agents, changed) serial).1 := by
  unfold settleOne
  split
  · exact .refl
  · rename_i entry hget
    exact .single (.put _ _ (put_place hgtp hget))

theorem settle_fold_edits {gtp : Network} (hgtp : s.gtp = some gtp) (serials : List String)
    (acc : Agents × Bool) :
    Relation.ReflTransGen (Edit f s) acc.1 (serials.foldl (settleOne gtp) acc).1 := by
  induction serials generalizing acc with
  | nil => exact .refl
  | cons serial serials ih => exact (settleOne_edit hgtp serial).trans (ih _)

theorem call_edits {c : Call} (h : (call f s agents c).2 = some new) :
    Relation.ReflTransGen (Edit f s) agents new := by
  cases c with
  | assign identity held now => exact .single (assign_edit h)
  | adopt identity port held now => exact .single (adopt_edit h)
  | forget serial =>
    cases h
    exact .single (.erase serial)
  | settle =>
    simp only [call, settle] at h
    split at h
    · cases h
    · rename_i gtp hgtp
      split at h
      · cases h
        exact settle_fold_edits hgtp _ (agents, false)
      · cases h

/-! ## Nothing is shared -/

def SharesNothing (a b : Entry) : Prop :=
  a.port ≠ b.port ∧ a.interface ≠ b.interface ∧ a.alMac ≠ b.alMac ∧
    ∀ u, a.underlay = some u → b.underlay ≠ some u

theorem SharesNothing.symm (a b : Entry) (h : SharesNothing a b) : SharesNothing b a :=
  ⟨h.1.symm, h.2.1.symm, h.2.2.1.symm, fun u hb ha => h.2.2.2 u ha hb⟩

/-- No interface is the place of another port that may be given. -/
def Clear (s : Settings) (agents : Agents) : Prop :=
  agents.Each fun _ e => ∀ p ∈ s.ports, p ∉ s.reservedPorts → p ≠ e.port → e.interface ≠ s.interface p

structure Inv (f : Fixed) (s : Settings) (agents : Agents) : Prop where
  apart : agents.Separate SharesNothing
  unreserved : agents.Each fun _ e => e.alMac ∉ f.reservedAls
  clear : Clear s agents

theorem mem_free {p : Nat} : p ∈ free s agents ↔
    p ∈ s.ports ∧ (∀ k e, agents.get? k = some e → e.port ≠ p) ∧ p ∉ s.reservedPorts := by
  simp only [free, mem_filter, mem_map, Bool.and_eq_true, decide_eq_true_eq, not_exists,
    not_and]
  refine and_congr_right fun _ => and_congr_left fun _ => ?_
  exact ⟨fun h k e hget => h (k, e) (get?_eq_some_iff.mp hget),
    fun h e hmem => h e.1 e.2 (get?_eq_some_iff.mpr hmem)⟩

theorem put_sharesNothing (hinv : Inv f s agents) {e : Entry} (hput : Put f s agents serial e)
    {k : String} {other : Entry} (hne : k ≠ serial) (hget : agents.get? k = some other) :
    SharesNothing e other := by
  have hold : ∀ old, agents.get? serial = some old → SharesNothing old other :=
    fun old h => hinv.apart _ _ _ _ h hget hne.symm
  have hports : e.port ≠ other.port ∧ e.interface ≠ other.interface := by
    rcases hput.port with ⟨old, h, hport, hinterface⟩ | ⟨hfree, hinterface⟩
    · exact ⟨hport ▸ (hold old h).1, hinterface ▸ (hold old h).2.1⟩
    · obtain ⟨hrange, hunused, hreserved⟩ := mem_free.mp hfree
      have hport := hunused k other hget
      exact ⟨hport.symm, hinterface ▸ (hinv.clear k other hget _ hrange hreserved hport.symm).symm⟩
  refine ⟨hports.1, hports.2, ?_, fun u hu => ?_⟩
  · rcases hput.al with ⟨old, h, hal⟩ | ⟨-, hfresh⟩
    · exact hal ▸ (hold old h).2.2.1
    · exact (hfresh k other hget).symm
  · rcases hput.underlay u hu with ⟨old, h, hmine⟩ | hnew
    · exact (hold old h).2.2.2 u hmine
    · exact hnew k other hne hget

theorem inv_edit (hinv : Inv f s agents) (h : Edit f s agents new) : Inv f s new := by
  cases h with
  | erase serial =>
    exact ⟨hinv.apart.erase serial, hinv.unreserved.erase serial, hinv.clear.erase serial⟩
  | put serial e hput =>
    refine ⟨hinv.apart.set SharesNothing.symm fun k other hne hget =>
      put_sharesNothing hinv hput hne hget, hinv.unreserved.set ?_, Each.set hinv.clear ?_⟩
    · rcases hput.al with ⟨old, h, hal⟩ | ⟨hnew, -⟩
      · exact hal ▸ hinv.unreserved serial old h
      · exact hnew
    · rcases hput.port with ⟨old, h, hport, hinterface⟩ | ⟨hfree, hinterface⟩
      · exact hport ▸ hinterface ▸ hinv.clear serial old h
      · intro p _ _ hne heq
        rw [hinterface] at heq
        exact hne (Settings.interface_injective (mem_free.mp hfree).1 heq).symm

/-- The underlays are clear of the GTP underlay. -/
def Settled (s : Settings) (agents : Agents) : Prop :=
  agents.Each fun _ e => ∀ gtp u, s.gtp = some gtp → e.underlay = some u →
    u.network.overlaps gtp = false

theorem settled_edit (hs : Settled s agents) (h : Edit f s agents new) : Settled s new := by
  cases h with
  | erase serial => exact Each.erase hs serial
  | put serial e hput => exact Each.set hs hput.clear

/-- A port is the one the entry had, or a free one. -/
def PortsGiven (s : Settings) (agents new : Agents) : Prop :=
  new.Each fun k e => (∃ old, agents.get? k = some old ∧ old.port = e.port) ∨
    (e.port ∈ s.ports ∧ e.port ∉ s.reservedPorts)

theorem portsGiven_edit {next : Agents} (h : PortsGiven s agents new) (hedit : Edit f s new next) :
    PortsGiven s agents next := by
  cases hedit with
  | erase serial => exact Each.erase h serial
  | put serial e hput =>
    refine Each.set h ?_
    rcases hput.port with ⟨old, hold, hport, -⟩ | ⟨hfree, -⟩
    · exact hport ▸ h serial old hold
    · exact .inr ⟨(mem_free.mp hfree).1, (mem_free.mp hfree).2.2⟩

/-! ## `settle` -/

section Settle

variable {gtp : Network} {k : String}

def ClearAt (gtp : Network) (agents : Agents) (k : String) : Prop :=
  ∀ e u, agents.get? k = some e → e.underlay = some u → u.network.overlaps gtp = false

section

variable (acc : Agents × Bool)

variable (serial : String)

theorem settleOne_clears :
    ClearAt gtp (settleOne gtp acc serial).1 serial := by
  unfold settleOne
  split
  · rename_i hnone
    intro e u hget
    rw [hnone] at hget
    cases hget
  · rename_i entry hget
    intro e u he hu
    rw [get?_set_self] at he
    cases he
    exact (underlay_spec (show underlay acc.1 gtp serial entry none = some u from hu)).2

theorem settleOne_keeps (h : ClearAt gtp acc.1 k) :
    ClearAt gtp (settleOne gtp acc serial).1 k := by
  by_cases hk : k = serial
  · subst hk
    exact settleOne_clears acc k
  · unfold settleOne
    split
    · exact h
    · intro e u he
      rw [get?_set_ne _ _ hk] at he
      exact h e u he

theorem settle_fold_keeps (serials : List String) (acc : Agents × Bool) (h : ClearAt gtp acc.1 k) :
    ClearAt gtp (serials.foldl (settleOne gtp) acc).1 k := by
  induction serials generalizing acc with
  | nil => exact h
  | cons serial serials ih => exact ih _ (settleOne_keeps acc serial h)

theorem settle_fold_clears {serials : List String} (hk : k ∈ serials) :
    ClearAt gtp (serials.foldl (settleOne gtp) acc).1 k := by
  induction serials generalizing acc with
  | nil => cases hk
  | cons serial serials ih =>
    rcases mem_cons.mp hk with rfl | hk
    · exact settle_fold_keeps serials _ (settleOne_clears acc k)
    · exact ih _ hk

theorem settleOne_none (h : acc.1.get? k = none) :
    (settleOne gtp acc serial).1.get? k = none := by
  unfold settleOne
  split
  · exact h
  · rename_i entry hget
    have hne : k ≠ serial := by
      rintro rfl
      rw [h] at hget
      cases hget
    exact (get?_set_ne _ _ hne).trans h

theorem settle_fold_none (serials : List String) (acc : Agents × Bool) (h : acc.1.get? k = none) :
    (serials.foldl (settleOne gtp) acc).1.get? k = none := by
  induction serials generalizing acc with
  | nil => exact h
  | cons serial serials ih => exact ih _ (settleOne_none acc serial h)

theorem settleOne_unchanged
    (h : (settleOne gtp acc serial).2 = false) : settleOne gtp acc serial = acc := by
  unfold settleOne at h ⊢
  split
  · rfl
  · rename_i entry hget
    simp only [hget, Bool.or_eq_false_iff, decide_eq_false_iff_not, not_not] at h
    have hsame : place acc.1 gtp serial entry none = entry := by
      have hu : underlay acc.1 gtp serial entry none = entry.underlay := h.2
      rw [place, hu]
    simp only [hsame, set_self hget, ne_eq, not_true_eq_false, decide_false, Bool.or_false]

end

theorem settle_fold_unchanged (serials : List String) (acc : Agents × Bool)
    (h : (serials.foldl (settleOne gtp) acc).2 = false) : serials.foldl (settleOne gtp) acc = acc := by
  induction serials generalizing acc with
  | nil => rfl
  | cons serial serials ih =>
    have hrest := ih _ h
    rw [foldl_cons, hrest]
    rw [foldl_cons, hrest] at h
    exact settleOne_unchanged acc serial h

theorem get?_after_settle (hgtp : s.gtp = some gtp) (k : String) :
    (after f s agents .settle).get? k =
      (agents.sorted.keys.foldl (settleOne gtp) (agents, false)).1.get? k := by
  simp only [after, call, settle, hgtp]
  by_cases hchanged : (agents.sorted.keys.foldl (settleOne gtp) (agents, false)).2 = true
  · rw [if_pos hchanged, written, get?_sorted]
  · rw [if_neg hchanged, written, settle_fold_unchanged _ _ (Bool.eq_false_iff.mpr hchanged)]

theorem settled_settle : Settled s (after f s agents .settle) := by
  intro k e hget gtp u hgtp hu
  rw [get?_after_settle hgtp] at hget
  have hclear : ClearAt gtp (agents.sorted.keys.foldl (settleOne gtp) (agents, false)).1 k := by
    by_cases hk : k ∈ agents.sorted.keys
    · exact settle_fold_clears _ hk
    · have hnone : agents.get? k = none := by
        rw [← get?_sorted]
        exact get?_eq_none_iff.mpr hk
      rw [settle_fold_none _ (agents, false) hnone] at hget
      cases hget
  exact hclear e u hget hu

end Settle

/-! ## Runs -/

theorem after_keeps {P : Agents → Prop} (hedit : ∀ a b, Edit f s a b → P a → P b)
    (hsorted : ∀ a, P a → P a.sorted) (c : Call) (h : P agents) : P (after f s agents c) := by
  unfold after
  cases hnew : (call f s agents c).2 with
  | none => exact h
  | some new =>
    refine hsorted new ?_
    have hedits := call_edits hnew
    clear hnew
    induction hedits with
    | refl => exact h
    | tail _ hstep ih => exact hedit _ _ hstep ih

theorem inv_after (hinv : Inv f s agents) (c : Call) : Inv f s (after f s agents c) :=
  after_keeps (fun _ _ he h => inv_edit h he)
    (fun _ h => ⟨separate_sorted.mpr h.apart, each_sorted.mpr h.unreserved,
      each_sorted.mpr h.clear⟩) c hinv

theorem settled_after (hs : Settled s agents) (c : Call) : Settled s (after f s agents c) :=
  after_keeps (fun _ _ he h => settled_edit h he) (fun _ h => each_sorted.mpr h) c hs

theorem portsGiven_after (c : Call) : PortsGiven s agents (after f s agents c) :=
  after_keeps (fun _ _ he h => portsGiven_edit h he) (fun _ h => each_sorted.mpr h) c
    fun _ e hget => .inl ⟨e, hget, rfl⟩

/-- The fleet over its restarts. `settled`: `settle` was called since the last. -/
structure World where
  settings : Settings
  file : Agents := ∅
  settled : Bool := false

inductive Action where
  | call (c : Call)
  | restart (settings : Settings)

def World.step (f : Fixed) (w : World) : Action → World
  | .call c => { w with
      file := after f w.settings w.file c
      settled := w.settled || decide (c = .settle) }
  | .restart settings => { w with settings := settings, settled := false }

def World.run (f : Fixed) (w : World) (as : List Action) : World := runs (World.step f) w as

/-- A restart leaves no interface the place of another port that may be given. -/
def Fits (w : World) : Action → Prop
  | .call _ => True
  | .restart settings => Clear settings w.file

theorem world_step {w : World} {a : Action}
    (hw : Inv f w.settings w.file ∧ (w.settled = true → Settled w.settings w.file)) (ha : Fits w a) :
    Inv f (w.step f a).settings (w.step f a).file ∧
      ((w.step f a).settled = true → Settled (w.step f a).settings (w.step f a).file) := by
  cases a with
  | restart settings => exact ⟨{ hw.1 with clear := ha }, nofun⟩
  | call c =>
    refine ⟨inv_after hw.1 c, fun hsettled => ?_⟩
    rcases Bool.or_eq_true _ _ ▸ hsettled with hbefore | hnow
    · exact settled_after (hw.2 hbefore) c
    · exact (of_decide_eq_true hnow) ▸ settled_settle

/-- Over every sequence of calls and of restarts that each leave no interface the place of another
port: no two entries share a port, an interface, an AL MAC or an address of their underlays, no AL
MAC is reserved, after `settle` the underlays are clear of the GTP underlay, and a call gives an entry
no port outside the range and no reserved one. -/
theorem entries_stay_apart (f : Fixed) (settings : Settings) (as : List Action)
    (hfits : Meets (World.step f) Fits { settings := settings } as) :
    let w := World.run f { settings := settings } as
    (∀ k k' e e', w.file.get? k = some e → w.file.get? k' = some e' → k ≠ k' →
      e.port ≠ e'.port ∧ e.interface ≠ e'.interface ∧ e.alMac ≠ e'.alMac ∧
      ∀ u u', e.underlay = some u → e'.underlay = some u' → u.network.Disjoint u'.network) ∧
    (∀ k e, w.file.get? k = some e → e.alMac ∉ f.reservedAls) ∧
    (w.settled = true → ∀ k e gtp u, w.file.get? k = some e → w.settings.gtp = some gtp →
      e.underlay = some u → u.network.Disjoint gtp) ∧
    (∀ c k e, (w.step f (.call c)).file.get? k = some e →
      (∀ old, w.file.get? k = some old → old.port ≠ e.port) →
      e.port ∈ w.settings.ports ∧ e.port ∉ w.settings.reservedPorts) := by
  intro w
  have hstart : Inv f settings ∅ ∧ (false = true → Settled settings ∅) :=
    ⟨⟨.empty, .empty, .empty⟩, nofun⟩
  obtain ⟨hinv, hsettled⟩ : Inv f w.settings w.file ∧
      (w.settled = true → Settled w.settings w.file) :=
    runs_invariant (P := fun w => Inv f w.settings w.file ∧
      (w.settled = true → Settled w.settings w.file)) (fun _ _ hw ha => world_step hw ha) hfits hstart
  refine ⟨fun k k' e e' hk hk' hne => ?_, hinv.unreserved, fun hset k e gtp u hget hgtp hu => ?_,
    fun c k e hget hnew => ?_⟩
  · obtain ⟨hport, hinterface, hal, hunderlay⟩ := hinv.apart k k' e e' hk hk' hne
    refine ⟨hport, hinterface, hal, fun u u' hu hu' => Underlay.disjoint ?_⟩
    rintro rfl
    exact hunderlay u hu hu'
  · exact Network.disjoint_iff.mpr (hsettled hset k e hget gtp u hgtp hu)
  · rcases portsGiven_after c k e hget with ⟨old, hold, hport⟩ | hgiven
    · exact absurd hport (hnew old hold)
    · exact hgiven

/-- SHA-256 at the first tries of the serials `A` and `B`. -/
def sampleSha : Sha := fun text i =>
  if text = "emosa-agent-al:A:0" then [180, 144, 227, 122, 127].getD i 0
  else if text = "emosa-agent-al:B:0" then [133, 38, 227, 23, 13].getD i 0
  else 0

def sampleFixed : Fixed := { sha := sampleSha, reservedAls := ["02:00:00:00:00:01"] }

def arrival (serial : String) : Action := .call (.assign { serial := serial } none 0)

theorem entries_apart_after_wider_range :
    let w := World.run sampleFixed { settings := { low := 6650, high := 6660 } }
      [arrival "A", .restart { low := 6650, high := 6670 }, arrival "B"]
    ∀ k k' e e', w.file.get? k = some e → w.file.get? k' = some e' → k ≠ k' →
      e.port ≠ e'.port ∧ e.interface ≠ e'.interface ∧ e.alMac ≠ e'.alMac ∧
      ∀ u u', e.underlay = some u → e'.underlay = some u' → u.network.Disjoint u'.network := by
  refine (entries_stay_apart sampleFixed { low := 6650, high := 6660 }
    [arrival "A", .restart { low := 6650, high := 6670 }, arrival "B"] ⟨trivial, ?_, trivial, trivial⟩).1
  refine each_iff.mpr ?_
  decide +kernel

/-- The range moved up by one: the first port of the new range has the interface of the first port of
the old one. -/
theorem moved_range_shares_interface :
    let w := World.run sampleFixed { settings := { low := 6650, high := 6660 } }
      [arrival "A", .restart { low := 6651, high := 6660 }, arrival "B"]
    ((w.file.get? "A").map fun e => (e.port, e.interface)) = some (6650, "em1") ∧
    ((w.file.get? "B").map fun e => (e.port, e.interface)) = some (6651, "em1") := by
  decide +kernel

end Registry
end Emosa.Fleet
