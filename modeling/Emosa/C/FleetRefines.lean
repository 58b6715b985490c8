import Emosa.C.FleetTwin

/-!
# Emosa.C.FleetRefines

The two registries are interchangeable: a sequence of calls, each made by either on the file the one
before it left, answers and writes what the other makes of all of them alone (`registries_agree`), as
long as the pod's columns are texts or missing, no entry is handed over more often than an `unsigned`
counts, a new serial has an AL MAC left, and the file is no longer than C reads.
-/

namespace Emosa.C
namespace EmFleet

open Durable Fleet Fleet.Registry EmRegistry Registry List

variable {f : Fixed} {s : Settings} {file : Agents} {octets : Nat}

/-! ## Files that C loads -/

/-- The fleet configuration's checks on the ports, and its one reserved AL MAC. -/
structure Configured (f : Fixed) (s : Settings) : Prop where
  al : ∃ al, f.reservedAls = [al]
  low : 1 ≤ s.low
  high : s.high ≤ 65535

structure FileFit (file : Agents) : Prop where
  fit : file.Each Fit
  sorted : file.entries.Pairwise Dict.KeyLe

theorem FileFit.keyed (h : FileFit file) : Keyed file := Dict.Each.mono (fun _ _ hfit => hfit.podId) h.fit

theorem FileFit.load (h : FileFit file) : emRegistryLoad [] file.entries = (true, arrayOf file) := by
  rw [load_fit (Dict.each_iff.mp h.fit) file.nodup (by simp)]
  rfl

theorem FileFit.reload (h : FileFit file) (hc : Configured f s) (hsize : octets ≤ registryMax) :
    ∃ r, EmFleet.reload f s octets file = (true, r) ∧ Twin f s file r := by
  obtain ⟨al, hal⟩ := hc.al
  refine ⟨_, by rw [EmFleet.reload, if_neg (Nat.not_lt.mpr hsize), h.load], rfl, rfl, ?_, rfl, rfl, rfl, h.keyed⟩
  simp [EmRegistry.opened, hal]

theorem Twin.dump {agents : Agents} {r : EmRegistry} (h : Twin f s agents r) (hfit : agents.Each Fit) :
    r.emRegistryDump = agents.sorted :=
  dump_arrayOf h.entries h.keyed (Dict.Each.mono (fun _ _ he => he.json) hfit)

theorem fileFit_sorted {agents : Agents} (h : agents.Each Fit) : FileFit agents.sorted :=
  ⟨Dict.each_sorted.mpr h, Dict.pairwise_sorted agents⟩

/-! ## The entries a call makes -/

theorem length_hexByte (b : UInt8) : (hexByte b).length = 2 := by simp [hexByte]

theorem length_alMac (sha : Sha) (serial : String) (n : Nat) : (alMac sha serial n).length = 17 := by
  simp only [alMac, String.length_append, length_hexByte]
  decide

theorem Configured.port (hc : Configured f s) {p : Nat} (hp : p ∈ s.ports) : 1 ≤ p ∧ p ≤ 65535 := by
  have := Settings.mem_ports.mp hp
  have := hc.low
  have := hc.high
  omega

theorem length_interface (hc : Configured f s) {p : Nat} (hp : p ∈ s.ports) :
    (s.interface p).length < 16 := by
  have hbound : s.ports.idxOf p + 1 < 10 ^ 5 := by
    rw [idxOf_ports hp]
    have := hc.port hp
    omega
  have hdigits : (toString (s.ports.idxOf p + 1)).length ≤ 5 :=
    (Nat.length_repr_le_iff (by decide)).mpr hbound
  have hem : "em".length = 2 := by decide
  rw [Settings.interface, String.length_append]
  omega

/-- A pod's arrival that both registries make the same of. -/
structure Arrival (f : Fixed) (file : Agents) (identity : Identity) (now : ℚ) : Prop where
  serial : emSerialValid identity.serial = true
  id : identity.id ≠ .unset
  model : identity.model ≠ .unset
  firmware : identity.firmware ≠ .unset
  now : -10 ^ 18 ≤ now ∧ now ≤ 10 ^ 18
  handovers : ∀ e, file.get? identity.serial = some e → e.handovers < 4294967295
  al : file.get? identity.serial = none →
    deriveAl f.sha identity.serial (f.reservedAls ++ file.entries.map fun e => e.2.alMac) ≠ none

/-- What `seen` needs of an entry for the result to be one that C loads. -/
structure Ready (serial : String) (e : Entry) : Prop where
  podId : e.podId = serial
  alMac : e.alMac.length < 18
  interface : e.interface.length < 16
  port : 1 ≤ e.port ∧ e.port ≤ 65535
  handovers : e.handovers < 4294967295
  firstSeen : -10 ^ 18 ≤ e.firstSeen ∧ e.firstSeen ≤ 10 ^ 18

theorem Ready.seen {agents : Agents} {e : Entry} {identity : Identity} {now : ℚ}
    (h : Ready identity.serial e) (ha : Arrival f file identity now) (held : Option Underlay) :
    Fit identity.serial (Registry.seen s agents e identity held now) := by
  have hfit : ∀ u, Fit identity.serial { e with
      nodeId := identity.id
      model := identity.model
      firmware := identity.firmware
      lastSeen := now
      handovers := e.handovers + 1
      underlay := u } := fun u =>
    ⟨ha.serial, h.podId, h.alMac, h.interface, h.port, ⟨by simp, h.handovers⟩, h.firstSeen, ha.now,
      ha.id, ha.model, ha.firmware⟩
  unfold Registry.seen
  split <;> exact hfit _

theorem Ready.of_fit {serial : String} {e : Entry} (h : Fit serial e) (hh : e.handovers < 4294967295) :
    Ready serial e :=
  { h with handovers := hh }

theorem Ready.move {serial : String} {e moved : Entry} (hc : Configured f s) (h : Ready serial e)
    (hmove : Registry.move s file e = some moved) : Ready serial moved := by
  obtain ⟨-, -, hfree, hinterface⟩ := move_spec hmove
  have hport := (mem_free.mp hfree).1
  unfold Registry.move at hmove
  split at hmove
  · cases hmove
  · cases hmove
    exact { h with interface := length_interface hc hport, port := hc.port hport }

theorem Ready.create {serial : String} {port : Nat} {now : ℚ} {e : Entry} (hc : Configured f s)
    (hport : port ∈ s.ports) (hnow : -10 ^ 18 ≤ now ∧ now ≤ 10 ^ 18)
    (hcreate : Registry.create f s file serial port now = some e) : Ready serial e := by
  obtain ⟨al, hal, rfl⟩ := Option.map_eq_some_iff.mp hcreate
  obtain ⟨n, -, rfl⟩ := mem_map.mp (mem_of_find?_eq_some hal)
  refine ⟨rfl, ?_, length_interface hc hport, hc.port hport, Nat.zero_lt_succ _, hnow⟩
  rw [length_alMac]
  decide

/-! ## One call -/

def shownEntry (e : Entry) : Entry :=
  { e with firstSeen := 0, lastSeen := 0, nodeId := .null, model := .null, firmware := .null }

def shownGiven (g : Given) : Given := { g with entry := shownEntry g.entry }

/-- An answer, with of each entry the pod id, the AL MAC, the port, the interface, the underlay and
the number of handovers. -/
def shown : Answer → Answer
  | .given g => .given (g.map shownGiven)
  | .placed how g => .placed how (g.map shownGiven)
  | .forgotten e => .forgotten (e.map shownEntry)
  | .settled => .settled
  | .noAl => .noAl

/-- C answers and writes what the other registry does, and the file is one it loads. -/
def Agrees (file : Agents) (x : EmAnswer × Agents) (o : Outcome) : Prop :=
  ∃ a, x = (.answered a, written file o.2) ∧ shown a = shown o.1 ∧ FileFit (written file o.2)

theorem shown_given {e : Entry} {g : Given} {r : EmRegistry} (hfit : Fit e.podId g.entry)
    (hport : 1 ≤ e.port) (hmoved : r.movedFrom = g.movedFrom.getD 0)
    (hold : ∀ p ∈ g.movedFrom, p = e.port) :
    shownGiven (EmFleet.given (ofEntry g.entry) r) = shownGiven g := by
  have hentry : shownEntry (emFleetEntryJson { ofEntry g.entry with
      nodeId := none, model := none, firmware := none }) = shownEntry g.entry := by
    have hjson := hfit.json
    conv_rhs => rw [← hjson]
    rfl
  have hfrom : (if r.movedFrom = 0 then none else some r.movedFrom) = g.movedFrom := by
    rw [hmoved]
    cases hg : g.movedFrom with
    | none => rfl
    | some p =>
      have hp := hold p hg
      simp only [Option.getD_some]
      rw [if_neg (by omega)]
  simp only [EmFleet.given, shownGiven, hentry, hfrom]

/-- What the fleet makes of a registry's answer to an arrival. -/
def identified (file : Agents) (r : EmRegistry) (serial : String) (port : Option Nat)
    (how : Option Given → Answer) : Option (EmFleetEntry × EmRegistry) → EmAnswer × Agents
  | none => (.answered (refused r serial port), file)
  | some (e, r) => (.answered (how (some (EmFleet.given e r))), r.emRegistryDump)

section Calls

variable {r : EmRegistry} {identity : Identity} {now : ℚ} {how : Option Given → Answer}
variable (hc : Configured f s) (hf : FileFit file) (hr : Twin f s file r)
variable (ha : Arrival f file identity now) (hhow : ∀ g, shown (how g) = how (g.map shownGiven))

include hf hr hhow hc ha

theorem again_agrees {e : Entry} (hget : file.get? identity.serial = some e)
    (held : Option Underlay) (port : Option Nat)
    (hrefused : e.port ∈ s.reservedPorts → refused r identity.serial port = how none) :
    Agrees file (identified file r identity.serial port how (r.again (ofEntry e) identity now held))
      (Registry.again s file how e identity held now) := by
  have hready := Ready.of_fit (hf.fit _ _ hget) (ha.handovers e hget)
  have htwin := hr.again hget now held
  unfold Registry.again
  cases hseen : seenMoved s file e identity held now with
  | none =>
    rw [hseen] at htwin
    rw [htwin.1]
    refine ⟨how none, by rw [identified, hrefused htwin.2]; rfl, rfl, hf⟩
  | some found =>
    obtain ⟨g, new⟩ := found
    rw [hseen] at htwin
    obtain ⟨r', hagain, hr', hmoved, hold⟩ := htwin
    have hnew : Fit identity.serial g.entry ∧ new = file.set identity.serial g.entry := by
      unfold seenMoved at hseen
      split at hseen
      · rename_i moved hmove
        cases hseen
        exact ⟨(hready.move hc hmove).seen ha held, rfl⟩
      · split at hseen
        · cases hseen
        · cases hseen
          exact ⟨hready.seen ha held, rfl⟩
    have hfit : new.Each Fit := hnew.2 ▸ hf.fit.set hnew.1
    have hpod : e.podId = identity.serial := hready.podId
    rw [hagain]
    refine ⟨how (some (EmFleet.given (ofEntry g.entry) r')), ?_, ?_, fileFit_sorted hfit⟩
    · rw [identified, hr'.dump hfit]
      rfl
    · rw [hhow, hhow, Option.map_some, Option.map_some,
        shown_given (hpod ▸ hnew.1) hready.port.1 hmoved hold]

theorem admission_agrees (hget : file.get? identity.serial = none) {port : Nat}
    (hport : port ∈ s.ports) (held : Option Underlay) (dialled : Option Nat) :
    Agrees file (identified file r identity.serial dialled how
        (r.admission f.sha identity port now held))
      (Registry.admission f s file how identity port held now) := by
  have hcreate : ∃ entry, Registry.create f s file identity.serial port now = some entry := by
    obtain ⟨al, hal⟩ := Option.ne_none_iff_exists'.mp (ha.al hget)
    exact ⟨_, by rw [Registry.create, hal]; rfl⟩
  obtain ⟨entry, hcreate⟩ := hcreate
  have hready := Ready.create hc hport ha.now hcreate
  have hseen : Fit identity.serial
      (Registry.seen s (file.set identity.serial entry) entry identity held now) := hready.seen ha held
  obtain ⟨r', hadmission, hr', hmoved⟩ :=
    hr.admission hget (length_of_emSerialValid ha.serial) hport now held hcreate
  have hfit := hf.fit.set hseen
  have hpod : entry.podId = identity.serial := hready.podId
  simp only [Registry.admission, hcreate, hadmission]
  generalize Registry.seen s (file.set identity.serial entry) entry identity held now = e' at hseen hr' hfit ⊢
  have hgiven : shownGiven (EmFleet.given (ofEntry e') r') = shownGiven ⟨e', none⟩ :=
    shown_given (g := ⟨e', none⟩) (hpod ▸ hseen) hready.port.1 hmoved (by simp)
  refine ⟨how (some (EmFleet.given (ofEntry e') r')), ?_, ?_, fileFit_sorted hfit⟩
  · rw [identified, hr'.dump hfit]
    rfl
  · rw [hhow, hhow, Option.map_some, Option.map_some, hgiven]

omit hhow

theorem assign_agrees (hload : reload f s octets file = (true, r)) (held : Option Underlay) :
    Agrees file (emFleetIdentifyAt f s octets file identity none held now)
      (assign f s file identity held now) := by
  have heq : emFleetIdentifyAt f s octets file identity none held now = identified file r identity.serial none
      .given (r.emRegistryAssignHeld f.sha identity now held) := by
    simp only [emFleetIdentifyAt, hload]
    cases r.emRegistryAssignHeld f.sha identity now held <;> rfl
  have hfind : r.find identity.serial = (file.get? identity.serial).map ofEntry :=
    find_arrayOf hr.entries hr.keyed _
  rw [heq, emRegistryAssignHeld, hfind, assign]
  cases hget : file.get? identity.serial with
  | some e => exact again_agrees hc hf hr ha (fun _ => rfl) hget held none fun _ => rfl
  | none =>
    have hfree : (r.ports.find? fun p => p != 0 && r.emRegistryPortFree p) =
        (free s file).head? := by
      rw [← hr.firstFree, ← head?_filter, ← head?_filter]
      congr 1
      refine filter_congr fun p hp => ?_
      have hpos := (hc.port (hr.ports ▸ hp)).1
      simp [Nat.ne_of_gt hpos]
    simp only [hfree]
    cases hports : free s file with
    | nil => exact ⟨.given none, rfl, rfl, hf⟩
    | cons port rest =>
      have hport : port ∈ s.ports := (mem_free.mp (hports ▸ mem_cons_self)).1
      exact admission_agrees hc hf hr ha (fun _ => rfl) hget hport held none

theorem adopt_agrees (hload : reload f s octets file = (true, r)) (port : Nat) (held : Option Underlay) :
    Agrees file (emFleetIdentifyAt f s octets file identity (some port) held now)
      (adopt f s file identity port held now) := by
  have heq : emFleetIdentifyAt f s octets file identity (some port) held now =
      identified file r identity.serial (some port)
        (.placed (r.emRegistryAdopt f.sha identity port now held).1)
        (r.emRegistryAdopt f.sha identity port now held).2 := by
    simp only [emFleetIdentifyAt, hload]
    cases (r.emRegistryAdopt f.sha identity port now held).2 <;> rfl
  have hfind : r.find identity.serial = (file.get? identity.serial).map ofEntry :=
    find_arrayOf hr.entries hr.keyed _
  rw [heq, emRegistryAdopt, hfind, adopt]
  cases hget : file.get? identity.serial with
  | some e =>
    refine again_agrees hc hf hr ha (fun _ => rfl) hget held (some port) fun hreserved => ?_
    have hown : (ofEntry e).port ∈ s.reservedPorts := hreserved
    simp only [refused, hfind, hget, Option.map_some, hr.reserved_eq, hown, decide_true, if_true]
  | none =>
    simp only [hr.portFree]
    by_cases hreserved : port ∈ s.reservedPorts
    · have hnot : port ∉ free s file := fun hmem => (mem_free.mp hmem).2.2 hreserved
      simp only [hreserved, hnot]
      refine ⟨.placed .reserved none, ?_, rfl, hf⟩
      simp only [identified, refused, hfind, hget, hr.reserved_eq, hreserved]
      rfl
    · have htaken : (decide (port ∉ s.ports) || file.entries.any fun e => e.2.port == port) =
          decide (port ∉ free s file) := by
        rw [Bool.eq_iff_iff]
        simp only [Bool.or_eq_true, decide_eq_true_eq, any_eq_true, beq_iff_eq, mem_free,
          hreserved, not_false_eq_true, and_true, not_and_or, not_forall, not_not]
        refine or_congr_right ⟨?_, ?_⟩
        · rintro ⟨e, he, hport⟩
          exact ⟨e.1, e.2, Dict.get?_eq_some_iff.mpr he, hport⟩
        · rintro ⟨k, e, hget, hport⟩
          exact ⟨(k, e), Dict.get?_eq_some_iff.mp hget, hport⟩
      simp only [hreserved, htaken]
      by_cases hmem : port ∈ free s file
      · simp only [hmem]
        exact admission_agrees hc hf hr ha (fun _ => rfl) hget (mem_free.mp hmem).1 held (some port)
      · simp only [hmem]
        refine ⟨.placed .taken none, ?_, rfl, hf⟩
        simp only [identified, refused, hfind, hget, hr.reserved_eq, hreserved]
        rfl

end Calls

/-! ## `forget` and `settle` -/

theorem forget_agrees (hc : Configured f s) (hf : FileFit file) (hsize : octets ≤ registryMax)
    (serial : String) :
    Agrees file (emFleetForget f s octets file serial) (forget file serial) := by
  obtain ⟨r, hload, hr⟩ := hf.reload hc hsize
  have hfind : r.find serial = (file.get? serial).map ofEntry := find_arrayOf hr.entries hr.keyed _
  have hfit : (file.erase serial).Each Fit := hf.fit.erase serial
  simp only [emFleetForget, hload, if_true, emRegistryForget, hfind, forget]
  cases hget : file.get? serial with
  | none =>
    refine ⟨.forgotten none, ?_, rfl, fileFit_sorted hfit⟩
    simp only [Option.map_none, hr.dump hf.fit, written, Dict.erase_of_none hget]
  | some e =>
    refine ⟨.forgotten (some e), ?_, rfl, fileFit_sorted hfit⟩
    simp only [Option.map_some, (hr.erase serial).dump hfit, (hf.fit serial e hget).json, written]

section Settle

variable {gtp : Network}

/-- One entry of the array, as `emRegistrySettle` takes it. -/
def settleEntry (gtp : Network) (acc : EmRegistry × Bool) (e : EmFleetEntry) : EmRegistry × Bool :=
  let placed := acc.1.place gtp e none
  (acc.1.update placed.1, placed.2 || acc.2)

theorem settle_fold_twin (gtp : Network) {es : List (String × Entry)} (hnodup : (es.map Prod.fst).Nodup)
    {agents : Agents} {r : EmRegistry} (changed : Bool)
    (hes : ∀ e ∈ es, agents.get? e.1 = some e.2) (hr : Twin f s agents r) :
    let c := (es.map fun e => ofEntry e.2).foldl (settleEntry gtp) (r, changed)
    let python := (es.map Prod.fst).foldl (settleOne gtp) (agents, changed)
    Twin f s python.1 c.1 ∧ c.2 = python.2 := by
  induction es generalizing agents r changed with
  | nil => exact ⟨hr, rfl⟩
  | cons e es ih =>
    obtain ⟨k, e⟩ := e
    rw [map_cons, nodup_cons] at hnodup
    have hget : agents.get? k = some e := hes (k, e) mem_cons_self
    have hpod : e.podId = k := hr.keyed k e hget
    have hplace := hr.place hpod gtp none
    simp only [map_cons, foldl_cons, settleOne, hget, settleEntry, hplace]
    rw [Bool.or_comm]
    refine ih hnodup.2 _ (fun x hx => ?_) (hr.set_old hpod hget)
    have hne : x.1 ≠ k := fun heq => hnodup.1 (mem_map.mpr ⟨x, hx, heq⟩)
    rw [Dict.get?_set_ne _ _ hne]
    exact hes x (mem_cons_of_mem _ hx)

theorem settleOne_fit (acc : Agents × Bool) (k : String) (h : acc.1.Each Fit) :
    (settleOne gtp acc k).1.Each Fit := by
  unfold settleOne
  split
  · exact h
  · rename_i e hget
    have hfit := h k e hget
    exact h.set { hfit with }

theorem settle_fold_fit (gtp : Network) (ks : List String) (acc : Agents × Bool) (h : acc.1.Each Fit) :
    (ks.foldl (settleOne gtp) acc).1.Each Fit := by
  induction ks generalizing acc with
  | nil => exact h
  | cons k ks ih => exact ih _ (settleOne_fit acc k h)

theorem settle_agrees (hc : Configured f s) (hf : FileFit file) (hsize : octets ≤ registryMax) :
    Agrees file (emFleetStartRegistered f s octets file) (settle s file) := by
  obtain ⟨r, hload, hr⟩ := hf.reload hc hsize
  cases hgtp : s.gtp with
  | none =>
    have hsettle : r.emRegistrySettle = (r, false) := by rw [emRegistrySettle, hr.gtp, hgtp]
    simp only [emFleetStartRegistered, hload, hsettle, settle, hgtp]
    exact ⟨.settled, rfl, rfl, hf⟩
  | some gtp =>
    have hsettle : r.emRegistrySettle =
        (file.entries.map fun e => ofEntry e.2).foldl (settleEntry gtp) (r, false) := by
      rw [emRegistrySettle, hr.gtp, hgtp, hr.entries]
      rfl
    simp only [emFleetStartRegistered, hload, hsettle, settle, hgtp]
    have hes : ∀ e ∈ file.entries, file.get? e.1 = some e.2 := fun e he => Dict.get?_eq_some_iff.mpr he
    obtain ⟨htwin, hchanged⟩ := settle_fold_twin gtp file.nodup false hes hr
    have hfit := settle_fold_fit gtp (file.entries.map Prod.fst) (file, false) hf.fit
    simp only [Dict.sorted_eq_self hf.sorted, Dict.keys]
    generalize (file.entries.map Prod.fst).foldl (settleOne gtp) (file, false) = python at htwin hchanged hfit ⊢
    refine ⟨.settled, ?_, rfl, ?_⟩
    · simp only [hchanged, htwin.dump hfit]
      cases python.2 <;> rfl
    · cases python.2
      · exact hf
      · exact fileFit_sorted hfit

end Settle

/-! ## Sequences of calls -/

/-- `octets`: the size of the text C finds in the file. -/
inductive Side where
  | python
  | c (octets : Nat)
  deriving DecidableEq

/-- A file, and the answers so far. -/
structure Shared where
  file : Agents := ∅
  answers : List EmAnswer := []

def EmAnswer.shown : EmAnswer → EmAnswer
  | .answered a => .answered (EmFleet.shown a)
  | .unreadable => .unreadable

/-- A call, made by either registry on the file it finds. -/
def Shared.step (f : Fixed) (s : Settings) (w : Shared) : Side × Call → Shared
  | (.python, c) =>
    ⟨after f s w.file c, w.answers ++ [(EmAnswer.answered (call f s w.file c).1).shown]⟩
  | (.c octets, c) =>
    ⟨(emCall f s octets w.file c).2, w.answers ++ [(emCall f s octets w.file c).1.shown]⟩

def Shared.run (f : Fixed) (s : Settings) (cs : List (Side × Call)) : Shared :=
  runs (Shared.step f s) {} cs

/-- What C reads is no longer than it takes. -/
def Side.Takes : Side → Prop
  | .python => True
  | .c octets => octets ≤ registryMax

/-- The pod's columns are texts or missing, the entry's handovers can still be counted, and a new
serial has an AL MAC left; serials, clock readings and the sizes C reads are in their ranges. -/
def Common (f : Fixed) (w : Shared) : Side × Call → Prop
  | (side, .assign identity _ now) | (side, .adopt identity _ _ now) =>
    side.Takes ∧ Arrival f w.file identity now
  | (side, .forget _) | (side, .settle) => side.Takes

theorem Common.takes {w : Shared} {side : Side} {c : Call} (h : Common f w (side, c)) : side.Takes := by
  cases c with
  | assign | adopt => exact h.1
  | forget | settle => exact h

theorem call_agrees (hc : Configured f s) {w : Shared} (hf : FileFit w.file) {side : Side} {c : Call}
    (hok : Common f w (side, c)) (hsize : octets ≤ registryMax) :
    Agrees w.file (emCall f s octets w.file c) (call f s w.file c) := by
  obtain ⟨r, hload, hr⟩ := hf.reload hc hsize
  cases c with
  | assign identity held now => exact assign_agrees hc hf hr hok.2 hload held
  | adopt identity port held now => exact adopt_agrees hc hf hr hok.2 hload port held
  | forget serial => exact forget_agrees hc hf hsize serial
  | settle => exact settle_agrees hc hf hsize

theorem step_agrees (hc : Configured f s) {w : Shared} (hf : FileFit w.file) {side : Side} {c : Call}
    (hok : Common f w (side, c)) :
    w.step f s (side, c) = w.step f s (.python, c) ∧ FileFit (w.step f s (side, c)).file := by
  cases side with
  | python =>
    obtain ⟨a, -, -, hfit⟩ := call_agrees hc hf hok (Nat.zero_le registryMax)
    exact ⟨rfl, hfit⟩
  | c octets =>
    obtain ⟨a, heq, hshown, hfit⟩ := call_agrees hc hf hok hok.takes
    have hstep : w.step f s (.c octets, c) = w.step f s (.python, c) := by
      simp only [Shared.step, heq, EmAnswer.shown, hshown]
      rfl
    exact ⟨hstep, hstep ▸ hfit⟩

/-- Over every sequence of calls that meet `Common`, each made by either registry: the file and the
answers are those of one registry making all of them, and C loads every file it can take. -/
theorem registries_agree (f : Fixed) (s : Settings) (hc : Configured f s) (cs : List (Side × Call))
    (h : Meets (Shared.step f s) (Common f) {} cs) :
    Shared.run f s cs = Shared.run f s (cs.map fun c => (.python, c.2)) ∧
      ∀ octets ≤ registryMax, (reload f s octets (Shared.run f s cs).file).1 = true := by
  suffices hrun : ∀ w : Shared, FileFit w.file → Meets (Shared.step f s) (Common f) w cs →
      runs (Shared.step f s) w cs = runs (Shared.step f s) w (cs.map fun c => (.python, c.2)) ∧
        FileFit (runs (Shared.step f s) w cs).file by
    obtain ⟨heq, hfit⟩ := hrun {} ⟨.empty, .nil⟩ h
    refine ⟨heq, fun octets hsize => ?_⟩
    obtain ⟨r, hload, -⟩ := hfit.reload hc hsize
    exact congrArg Prod.fst hload
  clear h
  induction cs with
  | nil => exact fun w hf _ => ⟨rfl, hf⟩
  | cons c cs ih =>
    intro w hf hmeets
    obtain ⟨hstep, hfit⟩ := step_agrees hc hf hmeets.1
    obtain ⟨heq, hend⟩ := ih _ hfit hmeets.2
    refine ⟨?_, hend⟩
    rw [runs, foldl_cons, map_cons, runs, foldl_cons, ← hstep]
    exact heq

/-- SHA-256 at the first tries of the serials `A` and `B`. -/
def fleetSha : Sha := fun text i =>
  if text = "emosa-agent-al:A:0" then [180, 144, 227, 122, 127].getD i 0
  else if text = "emosa-agent-al:B:0" then [133, 38, 227, 23, 13].getD i 0
  else 0

def fleetFixed : Fixed := { sha := fleetSha, reservedAls := ["02:00:00:00:00:01"] }

def fleetSettings : Settings := { low := 6651, high := 6660 }

def arrivalOf (serial : String) (model : Cell) : Call :=
  .assign { serial := serial, id := .text serial, model := model, firmware := .text "6.6.1.0" } none 0

theorem either_registry_admits :
    let cs := [(Side.python, arrivalOf "A" (.text "POD")), (.c 400, arrivalOf "B" (.text "POD"))]
    Shared.run fleetFixed fleetSettings cs =
      Shared.run fleetFixed fleetSettings (cs.map fun c => (.python, c.2)) ∧
    ∀ octets ≤ registryMax,
      (reload fleetFixed fleetSettings octets (Shared.run fleetFixed fleetSettings cs).file).1 = true := by
  refine registries_agree fleetFixed fleetSettings ⟨⟨_, rfl⟩, by decide, by decide⟩ _
    ⟨⟨trivial, ?_, nofun, nofun, nofun, ?_, ?_, fun _ => ?_⟩,
      ⟨show 400 ≤ registryMax by decide, ?_, nofun, nofun, nofun, ?_, ?_, fun _ => ?_⟩, trivial⟩
  all_goals decide +kernel

/-- A pod whose model is not set: what one registry writes of it, the other does not load. -/
theorem unset_model_unloadable :
    let file := (Shared.run fleetFixed fleetSettings [(.python, arrivalOf "A" .unset)]).file
    (file.get? "A").isSome = true ∧ (emRegistryLoad [] file.entries).1 = false ∧
    ((Shared.run fleetFixed fleetSettings
      [(.python, arrivalOf "A" .unset), (.c 400, arrivalOf "B" (.text "POD"))]).file.get? "B") = none ∧
    ((Shared.run fleetFixed fleetSettings
      [(.python, arrivalOf "A" .unset), (.python, arrivalOf "B" (.text "POD"))]).file.get? "B").isSome =
        true := by
  decide +kernel

end EmFleet
end Emosa.C
