import Emosa.C.Fleet
import Emosa.Fleet.RegistryApart

/-!
# Emosa.C.FleetTwin

The two registries on one file. A file in the range of what C loads (`Fit`) is loaded as the array of
its entries, in order; each call then does to the array what the other registry does to the
dictionary, so both write the same file.
-/

namespace Emosa.C
namespace EmFleet

open Fleet Fleet.Registry EmRegistry Registry Dict Option

/-! ## Entries -/

/-- An entry that C loads. -/
structure Fit (key : String) (e : Entry) : Prop where
  serial : emSerialValid key = true
  podId : e.podId = key
  alMac : e.alMac.length < 18
  interface : e.interface.length < 16
  port : 1 ≤ e.port ∧ e.port ≤ 65535
  handovers : 1 ≤ e.handovers ∧ e.handovers ≤ 4294967295
  firstSeen : -10 ^ 18 ≤ e.firstSeen ∧ e.firstSeen ≤ 10 ^ 18
  lastSeen : -10 ^ 18 ≤ e.lastSeen ∧ e.lastSeen ≤ 10 ^ 18
  nodeId : e.nodeId ≠ .unset
  model : e.model ≠ .unset
  firmware : e.firmware ≠ .unset

theorem length_of_emSerialValid {serial : String} (h : emSerialValid serial = true) :
    serial.length ≤ 64 := by
  unfold emSerialValid at h
  split at h
  · cases h
  · rename_i c rest heq
    simp only [Bool.and_eq_true, decide_eq_true_eq] at h
    rw [← String.length_toList, heq, List.length_cons]
    omega

theorem stringOrNull_rowText {c : Cell} (h : c ≠ .unset) : stringOrNull (rowText c) = c := by
  cases c with
  | null | text => rfl
  | unset => exact absurd rfl h

theorem json_ofEntry {e : Entry} (hh : e.handovers < 2 ^ 32) (hid : e.nodeId ≠ .unset)
    (hmodel : e.model ≠ .unset) (hfirmware : e.firmware ≠ .unset) :
    emFleetEntryJson (ofEntry e) = e := by
  have hmod : (UInt32.ofNat e.handovers).toNat = e.handovers := by
    rw [UInt32.toNat_ofNat_of_lt' hh]
  simp only [emFleetEntryJson, ofEntry] at *
  simp only [hmod, stringOrNull_rowText hid, stringOrNull_rowText hmodel,
    stringOrNull_rowText hfirmware]

theorem Fit.json {key : String} {e : Entry} (h : Fit key e) : emFleetEntryJson (ofEntry e) = e :=
  json_ofEntry (by have := h.handovers.2; omega) h.nodeId h.model h.firmware

theorem memberOptional_of_ne {c : Cell} (h : c ≠ .unset) : memberOptional c = true := by
  cases c with
  | null | text => rfl
  | unset => exact absurd rfl h

theorem Fit.loadable {sofar : List EmFleetEntry} {key : String} {e : Entry} (h : Fit key e)
    (hnew : ∀ x ∈ sofar, x.podId ≠ key) : loadable sofar key e = true := by
  obtain rfl := h.podId
  have hpod : e.podId.length < 65 := by
    have := length_of_emSerialValid h.serial
    omega
  have hport : memberNumber 1 65535 e.port = true := by
    simp only [memberNumber, Bool.and_eq_true, decide_eq_true_eq]
    exact_mod_cast h.port
  have hhandovers : memberNumber 1 4294967295 e.handovers = true := by
    simp only [memberNumber, Bool.and_eq_true, decide_eq_true_eq]
    exact_mod_cast h.handovers
  have hfirst : memberNumber (-10 ^ 18) (10 ^ 18) e.firstSeen = true := by
    simpa only [memberNumber, Bool.and_eq_true, decide_eq_true_eq] using h.firstSeen
  have hlast : memberNumber (-10 ^ 18) (10 ^ 18) e.lastSeen = true := by
    simpa only [memberNumber, Bool.and_eq_true, decide_eq_true_eq] using h.lastSeen
  have hnot : sofar.any (fun x => x.podId == e.podId) = false := by
    rw [List.any_eq_false]
    intro x hx
    simpa using hnew x hx
  simp only [EmRegistry.loadable, h.serial, hpod, h.alMac, h.interface, hport, hhandovers, hfirst,
    hlast, hnot, memberOptional_of_ne h.nodeId, memberOptional_of_ne h.model,
    memberOptional_of_ne h.firmware, decide_true, beq_self_eq_true, Bool.and_self, Bool.not_false]

def arrayOf (agents : Agents) : List EmFleetEntry := agents.entries.map fun e => ofEntry e.2

theorem load_fit {sofar : List EmFleetEntry} {es : List (String × Entry)}
    (hfit : ∀ e ∈ es, Fit e.1 e.2) (hnodup : (es.map Prod.fst).Nodup)
    (hnew : ∀ e ∈ es, ∀ x ∈ sofar, x.podId ≠ e.1) :
    emRegistryLoad sofar es = (true, sofar ++ es.map fun e => ofEntry e.2) := by
  induction es generalizing sofar with
  | nil => simp [emRegistryLoad]
  | cons e es ih =>
    obtain ⟨key, e⟩ := e
    have hhead := hfit (key, e) List.mem_cons_self
    rw [List.map_cons, List.nodup_cons] at hnodup
    rw [emRegistryLoad, if_pos (hhead.loadable (hnew _ List.mem_cons_self)),
      ih (fun x hx => hfit x (List.mem_cons_of_mem _ hx)) hnodup.2 ?_]
    · simp
    · intro x hx y hy
      rcases List.mem_append.mp hy with hy | hy
      · exact hnew x (List.mem_cons_of_mem _ hx) y hy
      · rw [List.mem_singleton] at hy
        subst hy
        intro heq
        have hkey : x.1 = key := heq.symm.trans hhead.podId
        exact hnodup.1 (List.mem_map.mpr ⟨x, hx, hkey⟩)

/-! ## The dictionary and its array -/

/-- Each entry is under its own serial. -/
def Keyed (agents : Agents) : Prop := agents.Each fun k e => e.podId = k

section Array

variable {agents : Agents} {serial : String}

theorem find_arrayOf {r : EmRegistry} (hr : r.entries = arrayOf agents) (hkeyed : Keyed agents)
    (serial : String) : r.find serial = (agents.get? serial).map ofEntry := by
  have hkeys := each_iff.mp hkeyed
  rw [EmRegistry.find, hr, arrayOf, get?]
  generalize agents.entries = es at hkeys
  induction es with
  | nil => rfl
  | cons e es ih =>
    obtain ⟨k, e⟩ := e
    have hk : e.podId = k := hkeys (k, e) List.mem_cons_self
    have hbeq : ((ofEntry e).podId == serial) = decide (k = serial) := by
      rw [← hk]
      rfl
    rw [List.map_cons, List.find?_cons, getEntries, hbeq]
    by_cases hks : k = serial
    · simp [hks]
    · simp only [hks]
      exact ih fun x hx => hkeys x (List.mem_cons_of_mem _ hx)

theorem update_entries {es : List (String × Entry)} {e' : Entry} {old : Entry}
    (hkeys : ∀ e ∈ es, e.2.podId = e.1) (hnodup : (es.map Prod.fst).Nodup)
    (hget : getEntries e'.podId es = some old) :
    (setEntries e'.podId e' es).map (fun e => ofEntry e.2) =
      (es.map fun e => ofEntry e.2).map fun x => if x.podId == (ofEntry e').podId then ofEntry e' else x := by
  induction es with
  | nil => cases hget
  | cons e es ih =>
    obtain ⟨k, e⟩ := e
    have hk : e.podId = k := hkeys (k, e) List.mem_cons_self
    rw [List.map_cons, List.nodup_cons] at hnodup
    simp only [getEntries] at hget
    simp only [setEntries]
    by_cases hks : k = e'.podId
    · simp only [hks, if_true, List.map_cons]
      have hhead : ((ofEntry e).podId == (ofEntry e').podId) = true := by
        rw [beq_iff_eq]
        exact hk.trans hks
      rw [hhead]
      congr 1
      rw [List.map_map]
      refine List.map_congr_left fun x hx => ?_
      have hne : (ofEntry x.2).podId ≠ (ofEntry e').podId := by
        intro heq
        have hx1 : x.1 = e'.podId := (hkeys x (List.mem_cons_of_mem _ hx)).symm.trans heq
        exact hnodup.1 (List.mem_map.mpr ⟨x, hx, hx1.trans hks.symm⟩)
      simp [hne]
    · rw [if_neg hks] at hget
      simp only [hks, if_false, List.map_cons]
      have hhead : ((ofEntry e).podId == (ofEntry e').podId) = false := by
        rw [beq_eq_false_iff_ne]
        exact fun heq => hks (hk.symm.trans heq)
      rw [hhead, ih (fun x hx => hkeys x (List.mem_cons_of_mem _ hx)) hnodup.2 hget]
      simp

theorem arrayOf_set_old {e' old : Entry} (hkeyed : Keyed agents) (hpod : e'.podId = serial)
    (hget : agents.get? serial = some old) :
    arrayOf (agents.set serial e') =
      (arrayOf agents).map fun x => if x.podId == (ofEntry e').podId then ofEntry e' else x := by
  subst hpod
  exact update_entries (each_iff.mp hkeyed) agents.nodup hget

theorem setEntries_new {es : List (String × Entry)} {e : Entry}
    (hget : getEntries serial es = none) : setEntries serial e es = es ++ [(serial, e)] := by
  induction es with
  | nil => rfl
  | cons x es ih =>
    simp only [getEntries] at hget
    split at hget
    · cases hget
    · rename_i hne
      rw [setEntries, if_neg hne, ih hget, List.cons_append]

theorem arrayOf_set_new {e : Entry} (hget : agents.get? serial = none) :
    arrayOf (agents.set serial e) = arrayOf agents ++ [ofEntry e] := by
  have hentries : (agents.set serial e).entries = agents.entries ++ [(serial, e)] :=
    setEntries_new hget
  rw [arrayOf, hentries, List.map_append]
  rfl

theorem arrayOf_erase (hkeyed : Keyed agents) :
    arrayOf (agents.erase serial) = (arrayOf agents).filter fun x => x.podId != serial := by
  rw [arrayOf, arrayOf, List.filter_map]
  congr 1
  refine List.filter_congr fun e he => ?_
  have hk : e.2.podId = e.1 := each_iff.mp hkeyed e he
  rw [← hk]
  simp only [decide_not]
  rfl

theorem dump_arrayOf {r : EmRegistry} (hr : r.entries = arrayOf agents) (hkeyed : Keyed agents)
    (hjson : agents.Each fun _ e => emFleetEntryJson (ofEntry e) = e) :
    r.emRegistryDump = agents.sorted := by
  have hkeys := each_iff.mp hkeyed
  have hjson := each_iff.mp hjson
  suffices h : ∀ (es : List (String × Entry)) (d : Agents),
      (∀ e ∈ es, e.2.podId = e.1) → (∀ e ∈ es, emFleetEntryJson (ofEntry e.2) = e.2) →
      ((d.entries ++ es).map Prod.fst).Nodup →
      ((es.map fun e => ofEntry e.2).foldl (fun d e => d.set e.podId (emFleetEntryJson e)) d).entries =
        d.entries ++ es by
    have hentries := h agents.entries ∅ hkeys hjson agents.nodup
    rw [emRegistryDump, hr, arrayOf]
    generalize List.foldl _ _ _ = d' at hentries ⊢
    cases agents
    cases hentries
    rfl
  intro es
  induction es with
  | nil => simp
  | cons e es ih =>
    intro d hkeys hjson hnodup
    have hk : e.2.podId = e.1 := hkeys e List.mem_cons_self
    have hj : emFleetEntryJson (ofEntry e.2) = e.2 := hjson e List.mem_cons_self
    have hnone : d.get? e.1 = none := by
      rw [get?_eq_none_iff]
      intro hmem
      rw [List.map_append, List.nodup_append] at hnodup
      exact hnodup.2.2 _ hmem _ (List.mem_map.mpr ⟨e, List.mem_cons_self, rfl⟩) rfl
    have hset : (d.set e.1 e.2).entries = d.entries ++ [e] := setEntries_new hnone
    rw [List.map_cons, List.foldl_cons, hj, show (ofEntry e.2).podId = e.1 from hk,
      ih _ (fun x hx => hkeys x (List.mem_cons_of_mem _ hx))
        (fun x hx => hjson x (List.mem_cons_of_mem _ hx)) ?_, hset]
    · simp
    · rw [hset]
      simpa using hnodup

end Array

/-! ## The functions -/

/-- The registry C has open holds the dictionary's entries and was opened with the same settings. -/
structure Twin (f : Fixed) (s : Settings) (agents : Agents) (r : EmRegistry) : Prop where
  low : r.portLow = s.low
  high : r.portHigh = s.high
  al : f.reservedAls = [r.reservedAl]
  gtp : r.gtpUnderlay = s.gtp
  reserved : r.reserved = s.reservedPorts
  entries : r.entries = arrayOf agents
  keyed : Keyed agents

section Functions

variable {f : Fixed} {s : Settings} {agents : Agents} {r : EmRegistry} (h : Twin f s agents r)

theorem Settings.mem_ports {p : Nat} : p ∈ s.ports ↔ s.low ≤ p ∧ p ≤ s.high := by
  rw [Settings.ports, List.mem_range'_1]
  omega

theorem idxOf_ports {p : Nat} (hp : p ∈ s.ports) : s.ports.idxOf p = p - s.low := by
  obtain ⟨hlow, hhigh⟩ := Settings.mem_ports.mp hp
  have hlen : p - s.low < s.ports.length := by
    rw [Settings.ports, List.length_range']
    omega
  have hget : s.ports[p - s.low] = p := by
    simp only [Settings.ports, List.getElem_range']
    omega
  have hnodup : s.ports.Nodup := List.nodup_range'
  conv_lhs => rw [← hget]
  exact hnodup.idxOf_getElem _ hlen

theorem emDeriveAl_eq (sha : Sha) (serial : String) (taken : List String) :
    emDeriveAl sha serial taken = deriveAl sha serial taken := by
  rw [emDeriveAl]
  congr 1
  funext al
  rw [Bool.eq_iff_iff]
  simp only [Bool.not_eq_true', List.any_eq_false, beq_iff_eq, decide_eq_true_eq]
  exact ⟨fun hne hmem => hne al hmem rfl, fun hnot x hx heq => hnot (heq ▸ hx)⟩

theorem or_filter (o rest : Option Underlay) (p : Underlay → Bool) :
    (o.filter p).or rest = if o.any p then o else rest := by
  cases o with
  | none => rfl
  | some u => cases hp : p u <;> simp [Option.filter, hp]

theorem underlay_eq (gtp : Network) (serial : String) (e : Entry) (held : Option Underlay) :
    underlay agents gtp serial e held =
      if e.underlay.any fun u => !u.network.overlaps gtp then e.underlay
      else if held.any fun u => !u.network.overlaps gtp &&
          decide (u ∉ (agents.erase serial).entries.filterMap fun e => e.2.underlay) then held
      else Fleet.freeUnderlay gtp ((agents.erase serial).entries.filterMap fun e => e.2.underlay) := by
  simp only [← or_filter, underlay, Bool.and_comm]
  cases e.underlay.filter _ with
  | some u => rfl
  | none => cases held.filter _ <;> rfl

/-- An entry's underlay does not depend on what the dictionary has for the entry itself. -/
theorem seen_set (agents : Agents) (x e : Entry) (identity : Identity) (held : Option Underlay)
    (now : ℚ) : Registry.seen s (agents.set identity.serial x) e identity held now =
      Registry.seen s agents e identity held now := by
  simp only [Registry.seen, Registry.place, underlay, erase_set]

theorem podId_seen (e : Entry) (identity : Identity) (held : Option Underlay) (now : ℚ) :
    (Registry.seen s agents e identity held now).podId = e.podId := by
  unfold Registry.seen
  split <;> rfl

include h

theorem Twin.ports : r.ports = s.ports := by rw [EmRegistry.ports, Settings.ports, h.low, h.high]

theorem Twin.reserved_eq (port : Nat) :
    r.emRegistryReserved port = decide (port ∈ s.reservedPorts) := by
  rw [emRegistryReserved, h.reserved]

theorem Twin.portFree (p : Nat) : r.emRegistryPortFree p = decide (p ∈ free s agents) := by
  rw [Bool.eq_iff_iff, decide_eq_true_eq, mem_free, Settings.mem_ports]
  have hentries : (r.entries.all fun e => decide (e.port ≠ p)) = true ↔
      ∀ k e, agents.get? k = some e → e.port ≠ p := by
    rw [h.entries, arrayOf, List.all_map, List.all_eq_true]
    simp only [Function.comp, decide_eq_true_eq]
    exact (each_iff (P := fun _ (e : Entry) => e.port ≠ p)).symm
  simp only [emRegistryPortFree, Bool.and_eq_true, decide_eq_true_eq, h.low, h.high,
    h.reserved_eq, Bool.not_eq_true', decide_eq_false_iff_not]
  tauto

theorem Twin.firstFree : r.ports.find? r.emRegistryPortFree = (free s agents).head? := by
  rw [h.ports, ← List.head?_filter]
  congr 1
  refine List.filter_congr fun p hp => ?_
  rw [h.portFree, Bool.eq_iff_iff, decide_eq_true_eq, free, List.mem_filter]
  simp only [hp, true_and]

theorem Twin.interface {p : Nat} (hp : p ∈ s.ports) : r.interface p = s.interface p := by
  rw [EmRegistry.interface, Settings.interface, idxOf_ports hp, h.low]

theorem Twin.taken : r.reservedAl :: r.entries.map (·.alMac) =
    f.reservedAls ++ agents.entries.map fun e => e.2.alMac := by
  rw [h.al, h.entries, arrayOf, List.map_map]
  rfl

variable {serial : String}

theorem Twin.create {port : Nat} (now : ℚ) (hserial : serial.length ≤ 64) (hport : port ∈ s.ports) :
    r.create f.sha serial port now = (Registry.create f s agents serial port now).map ofEntry := by
  rw [EmRegistry.create, if_neg (by omega), Registry.create, emDeriveAl_eq, h.taken, map_map]
  simp only [h.interface hport]
  rfl

variable {e : Entry}

section

variable (hpod : e.podId = serial)
include hpod

theorem Twin.unused (u : Underlay) :
    (r.entries.all fun x => x.podId == (ofEntry e).podId || decide (x.underlay ≠ some u)) =
      decide (u ∉ (agents.erase serial).entries.filterMap fun e => e.2.underlay) := by
  rw [Bool.eq_iff_iff, decide_eq_true_eq, mem_used, h.entries, arrayOf, List.all_map,
    List.all_eq_true]
  constructor
  · rintro hall ⟨k, other, hne, hget, hu⟩
    have hx := hall _ (get?_eq_some_iff.mp hget)
    have hk : other.podId = k := h.keyed k other hget
    simp only [Function.comp, Bool.or_eq_true, beq_iff_eq] at hx
    rcases hx with hx | hx
    · exact hne (hk.symm.trans (hx.trans hpod))
    · exact of_decide_eq_true hx hu
  · intro hnone x hx
    have hget := get?_eq_some_iff.mpr hx
    have hk : x.2.podId = x.1 := h.keyed _ _ hget
    simp only [Function.comp, Bool.or_eq_true, beq_iff_eq]
    by_cases hx1 : x.1 = serial
    · exact .inl (hk.trans (hx1.trans hpod.symm))
    · exact .inr (decide_eq_true fun hu => hnone ⟨x.1, x.2, hx1, hget, hu⟩)

theorem Twin.freeUnderlay (gtp : Network) :
    r.emFreeUnderlay gtp (ofEntry e) =
      Fleet.freeUnderlay gtp ((agents.erase serial).entries.filterMap fun e => e.2.underlay) := by
  rw [emFreeUnderlay]
  congr 1
  funext u
  rw [h.unused hpod, Network.overlaps_eq_masked]

theorem Twin.place (gtp : Network) (held : Option Underlay) :
    r.place gtp (ofEntry e) held = (ofEntry (Registry.place agents gtp serial e held),
      decide ((Registry.place agents gtp serial e held).underlay ≠ e.underlay)) := by
  simp only [EmRegistry.place, Registry.place, underlay_eq, h.unused hpod, h.freeUnderlay hpod,
    Network.overlaps_eq_masked]
  have hmine : (ofEntry e).underlay = e.underlay := rfl
  rw [hmine]
  split
  · simp only [ne_eq, not_true_eq_false, decide_false]
  · rfl

variable {identity : Identity}

omit hpod in
theorem Twin.seen (hpod : e.podId = identity.serial) (now : ℚ)
    (held : Option Underlay) :
    r.seen (ofEntry e) identity now held = ofEntry (Registry.seen s agents e identity held now) := by
  have hhandovers : UInt32.ofNat e.handovers + 1 = UInt32.ofNat (e.handovers + 1) :=
    (UInt32.ofNat_add _ _).symm
  have hofEntry : { ofEntry e with
      nodeId := rowText identity.id
      model := rowText identity.model
      firmware := rowText identity.firmware
      lastSeen := now
      handovers := (ofEntry e).handovers + 1 } = ofEntry { e with
      nodeId := identity.id
      model := identity.model
      firmware := identity.firmware
      lastSeen := now
      handovers := e.handovers + 1 } := by
    simp only [ofEntry, hhandovers]
  simp only [EmRegistry.seen, Registry.seen, h.gtp, hofEntry]
  cases s.gtp with
  | none => rfl
  | some gtp =>
    refine congrArg Prod.fst (h.place ?_ gtp held)
    exact hpod

theorem Twin.set_old {old : Entry}
    (hget : agents.get? serial = some old) :
    Twin f s (agents.set serial e) (r.update (ofEntry e)) where
  __ := h
  entries := by
    rw [arrayOf_set_old h.keyed hpod hget, ← h.entries]
    rfl
  keyed := Each.set h.keyed hpod

theorem Twin.set_new (hget : agents.get? serial = none) :
    Twin f s (agents.set serial e) (r.append (ofEntry e)) where
  __ := h
  entries := by
    rw [arrayOf_set_new hget, ← h.entries]
    rfl
  keyed := Each.set h.keyed hpod

end

theorem Twin.erase (serial : String) : Twin f s (agents.erase serial)
    { r with entries := r.entries.filter fun x => x.podId != serial } where
  __ := h
  entries := by rw [arrayOf_erase h.keyed, ← h.entries]
  keyed := Each.erase h.keyed serial

theorem Twin.moved (port : Nat) : Twin f s agents { r with movedFrom := port } :=
  { h with }

/-- `seen` on an entry the array has, whichever way it came there. -/
theorem Twin.seen_update {old : Entry} (hpod : e.podId = identity.serial)
    (hget : agents.get? identity.serial = some old) (now : ℚ) (held : Option Underlay) :
    let e' := Registry.seen s agents e identity held now
    r.seen (ofEntry e) identity now held = ofEntry e' ∧
      Twin f s (agents.set identity.serial e') (r.update (r.seen (ofEntry e) identity now held)) := by
  have hseen := h.seen hpod now held
  refine ⟨hseen, ?_⟩
  rw [hseen]
  exact h.set_old ((podId_seen e identity held now).trans hpod) hget

theorem Twin.move (e : Entry) :
    r.moveOffReserved (ofEntry e) =
      match Registry.move s agents e with
      | some moved => some (ofEntry moved, e.port)
      | none => if e.port ∈ s.reservedPorts then none else some (ofEntry e, 0) := by
  have hport : (ofEntry e).port = e.port := rfl
  simp only [moveOffReserved, Registry.move, h.reserved_eq, hport, Bool.not_eq_true',
    decide_eq_false_iff_not]
  by_cases hreserved : e.port ∈ s.reservedPorts
  · simp only [hreserved, h.firstFree]
    cases hfree : free s agents with
    | nil => rfl
    | cons p rest =>
      have hp : p ∈ s.ports := (mem_free.mp (hfree ▸ List.mem_cons_self)).1
      simp only [List.head?_cons, map_some, h.interface hp]
      rfl
  · simp only [hreserved, not_false_eq_true, if_true, if_false]

omit h in
theorem move_podId {moved : Entry} (hmove : Registry.move s agents e = some moved) :
    moved.podId = e.podId := by
  unfold Registry.move at hmove
  split at hmove
  · cases hmove
  · cases hmove
    rfl

theorem Twin.again (hget : agents.get? identity.serial = some e) (now : ℚ)
    (held : Option Underlay) : match seenMoved s agents e identity held now with
    | none => r.again (ofEntry e) identity now held = none ∧ e.port ∈ s.reservedPorts
    | some (g, new) => ∃ r', r.again (ofEntry e) identity now held = some (ofEntry g.entry, r') ∧
        Twin f s new r' ∧ r'.movedFrom = g.movedFrom.getD 0 ∧ (∀ p ∈ g.movedFrom, p = e.port) := by
  have hpod : e.podId = identity.serial := h.keyed _ _ hget
  rw [EmRegistry.again, h.move, seenMoved]
  cases hmove : Registry.move s agents e with
  | some moved =>
    have hmpod := (move_podId hmove).trans hpod
    have htwin := h.set_old hmpod hget
    obtain ⟨hseen, htwin'⟩ := htwin.seen_update hmpod (get?_set_self _ _ _) now held
    rw [seen_set] at hseen htwin'
    rw [set_set] at htwin'
    refine ⟨_, ?_, htwin'.moved e.port, rfl, ?_⟩
    · simp only [map_some, hseen]
    · simp
  | none =>
    by_cases hreserved : e.port ∈ s.reservedPorts
    · simp only [hreserved, if_true, map_none, and_self]
    · simp only [hreserved, if_false]
      have htwin := h.set_old hpod hget
      obtain ⟨hseen, htwin'⟩ := htwin.seen_update hpod (get?_set_self _ _ _) now held
      rw [seen_set] at hseen htwin'
      rw [set_set] at htwin'
      refine ⟨_, ?_, htwin'.moved 0, rfl, ?_⟩
      · simp only [map_some, hseen]
      · simp

theorem Twin.admission {port : Nat} (hget : agents.get? identity.serial = none)
    (hserial : identity.serial.length ≤ 64) (hport : port ∈ s.ports) (now : ℚ)
    (held : Option Underlay) {entry : Entry}
    (hcreate : Registry.create f s agents identity.serial port now = some entry) :
    let e := Registry.seen s (agents.set identity.serial entry) entry identity held now
    ∃ r', r.admission f.sha identity port now held = some (ofEntry e, r') ∧
      Twin f s (agents.set identity.serial e) r' ∧ r'.movedFrom = 0 := by
  have hpod : entry.podId = identity.serial := by
    obtain ⟨al, -, rfl⟩ := map_eq_some_iff.mp hcreate
    rfl
  have htwin := h.set_new hpod hget
  obtain ⟨hseen, htwin'⟩ := htwin.seen_update hpod (get?_set_self _ _ _) now held
  rw [set_set] at htwin'
  refine ⟨_, ?_, htwin'.moved 0, rfl⟩
  rw [EmRegistry.admission, h.create now hserial hport, hcreate]
  simp only [map_some, hseen]

end Functions

end EmFleet
end Emosa.C
