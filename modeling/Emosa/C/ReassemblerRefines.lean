import Emosa.C.SimAccept

/-!
# Emosa.C.ReassemblerRefines

The C agent's envelope refines the Python one.

* `feed_sim`: one frame: the same result, and related states again.
* `results_sim`: any frames one after another.
-/

namespace Emosa.C

open Wire (Bytes Tlv  Fragment Limits Reassembler)

variable {limits : Limits} {r : Reassembler} {c : EmReassembler limits}

/-- The C header checks accept a frame as `receive` does, and read the same fields. -/
def HeaderAgrees (frame : Bytes) (c : Except Reason Header) (p : Except EmosaError Fragment) : Prop :=
  match c with
  | .error reason => ∃ e, p = .error e ∧ e.code = reason
  | .ok h => ∃ part, p = .ok part ∧ HeaderRel part h ∧ part.payload = frame.drop 22 ∧
      (frame.drop 22).length ≤ 1492

theorem readHeader_refines (frame : Bytes) :
    HeaderAgrees frame (readHeader frame) (Wire.receive frame) := by
  have hlength : (frame.length < 22 ∨ frame.length > 14 + emMaxCmdu) ↔
      ¬ (22 ≤ frame.length ∧ frame.length ≤ 14 + Wire.maxCmdu) := by
    rw [not_and_or, not_le, not_le]
    rfl
  have htype : u16At frame 12 ≠ emEtherType ↔
      Wire.unpackH (frame.getD 12 0) (frame.getD 13 0) ≠ Wire.etherType := by
    rw [u16At_eq]
    rfl
  simp only [readHeader, Wire.receive]
  split
  · rename_i hlen
    have hdec : Wire.decodeFrame frame = Wire.invalid "truncated or oversized Ethernet frame" :=
      if_pos (hlength.mp hlen)
    rw [hdec]
    exact ⟨_, rfl, rfl⟩
  · rename_i hlen
    split
    · rename_i het
      have hdec : Wire.decodeFrame frame =
          Wire.invalid "not an untagged IEEE 1905 Ethernet frame" := by
        rw [Wire.decodeFrame, if_neg (mt hlength.mpr hlen), if_pos (htype.mp het)]
      rw [hdec]
      exact ⟨_, rfl, rfl⟩
    · rename_i het
      obtain ⟨part, hdec, hrel, hpay, hver⟩ : ∃ part, Wire.decodeFrame frame = .ok part ∧
          HeaderRel part (header frame) ∧ part.payload = frame.drop 22 ∧
          part.version = (header frame).version.toNat := by
        have hdec := Wire.decodeFrame.eq_1 frame
        rw [if_neg (mt hlength.mpr hlen), if_neg (mt htype.mpr het)] at hdec
        exact ⟨_, hdec, ⟨rfl, rfl, u16At_eq _ _, u16At_eq _ _, rfl, rfl, rfl⟩, rfl, rfl⟩
      have hver' : part.version = 0 ↔ (header frame).version = 0 := by
        rw [hver, kind_toNat_eq_zero]
      simp only [hdec, bind, Except.bind]
      split
      · rename_i hv
        rw [if_pos (mt hver'.mp hv)]
        exact ⟨_, rfl, rfl⟩
      · rename_i hv
        rw [if_neg (mt (mt hver'.mpr) hv)]
        refine ⟨part, rfl, hrel, hpay, ?_⟩
        rw [List.length_drop]
        simp only [emMaxCmdu] at hlen
        omega

/-- An ingress name that the C interface can be given: short, and without a NUL. -/
structure Ingress where
  name : String
  short : (cString name).length < 32
  noNul : 0 ∉ cString name

/-- One frame for both, with the clock readings each of them makes. -/
structure Feed where
  now : ℚ
  opened : ℚ
  ingress : Option Ingress
  frame : Bytes

def Feed.toPython (f : Feed) (r : Reassembler) : Reassembler × Reassembler.Result :=
  r.feed f.now f.opened (f.ingress.elim "offline" Ingress.name) f.frame

def Feed.toC (f : Feed) (c : EmReassembler limits) : EmReassembler limits × EmReassembler.Result :=
  emReassemblerFeed c f.now f.opened f.frame (f.ingress.map fun ingress => cString ingress.name)

/-- **Step.** The same result for an ingress name that a context keeps, and related states again. -/
theorem feed_name_sim (h : Sim r c) (now opened : ℚ) (frame : Bytes) {name : String}
    (hshort : (cString name).length < 32) {ingress : Option Bytes}
    (hname : ingress.getD (cString "offline") = cString name) :
    Sim (r.feed now opened name frame).1 (emReassemblerFeed c now opened frame ingress).1 ∧
      (emReassemblerFeed c now opened frame ingress).2 =
        (r.feed now opened name frame).2.mapError EmosaError.code := by
  have hexp := expire_sim h now
  have hhead := readHeader_refines frame
  simp only [emReassemblerFeed, Reassembler.feed, hname, if_neg (Nat.not_le.mpr hshort)]
  cases hc : readHeader frame with
  | error reason =>
    rw [hc] at hhead
    obtain ⟨e, he, rfl⟩ := hhead
    simp only [he]
    exact ⟨hexp, rfl⟩
  | ok hd =>
    rw [hc] at hhead
    obtain ⟨part, hp, hh, hpay, hlen⟩ := hhead
    simp only [hp]
    rcases openContext_sim hexp hh name opened with
      ⟨e, he, hce⟩ | ⟨r₁, a, c₁, i, hr₁, hc₁, hsim, hget, hu, hx⟩
    · simp only [he, hce]
      exact ⟨hexp, rfl⟩
    · simp only [hr₁, hc₁]
      exact accept_sim hsim hu hx hget hh hpay hlen

theorem feed_sim (h : Sim r c) (f : Feed) :
    Sim (f.toPython r).1 (f.toC c).1 ∧ (f.toC c).2 = (f.toPython r).2.mapError EmosaError.code := by
  refine feed_name_sim h f.now f.opened f.frame ?_ ?_
  · cases f.ingress with
    | none => decide
    | some ingress => exact ingress.short
  · cases f.ingress <;> rfl

/-- Whatever the ingress name, the C reassembler stays one of a Python state: a name too long is
refused after the expiry. -/
theorem feed_related (h : Sim r c) (now opened : ℚ) (frame : Bytes) (ingress : Option String) :
    ∃ r', Sim r' (emReassemblerFeed c now opened frame (ingress.map cString)).1 := by
  have hname : (ingress.map cString).getD (cString "offline") = cString (ingress.getD "offline") := by
    cases ingress <;> rfl
  by_cases hshort : (cString (ingress.getD "offline")).length < 32
  · exact ⟨_, (feed_name_sim h now opened frame hshort hname).1⟩
  · refine ⟨(r.expire now).1, ?_⟩
    simp only [emReassemblerFeed, hname, if_pos (Nat.not_lt.mp hshort)]
    split
    · exact expire_sim h now
    · exact expire_sim h now

def pythonResults (r : Reassembler) : List Feed → List Reassembler.Result
  | [] => []
  | f :: fs => (f.toPython r).2 :: pythonResults (f.toPython r).1 fs

def cResults (c : EmReassembler limits) : List Feed → List EmReassembler.Result
  | [] => []
  | f :: fs => (f.toC c).2 :: cResults (f.toC c).1 fs

theorem results_sim (h : Sim r c) (fs : List Feed) :
    cResults c fs = (pythonResults r fs).map (Except.mapError EmosaError.code) := by
  induction fs generalizing r c with
  | nil => rfl
  | cons f fs ih =>
    obtain ⟨hsim, hres⟩ := feed_sim h f
    simp only [cResults, pythonResults, List.map_cons, hres, ih hsim]

theorem sim_init (limits : Limits) (word : SizeT) :
    Sim { limits := limits } ({ word := word } : EmReassembler limits) where
  limits_eq := rfl
  inv := Reassembler.inv_init limits
  buffered := rfl
  contexts := Slots.Represents.empty fun i => by rw [Slots.get_replicate]

/-- **Refinement.** Given the same budgets, both constructors refuse, or the two reassemblers answer
every sequence of frames alike: the same messages, nothing at the same frames, and refusals for the
same reason. The fragmenters return the same frames or both refuse, and what the Python one accepts
can be given to the C one. -/
theorem emosa_c_refines_python (word : SizeT) :
    (∀ timeout maxContexts maxBytes maxMessageBytes maxFragments,
      match Reassembler.new timeout maxContexts maxBytes maxMessageBytes maxFragments,
        emReassemblerNew word timeout maxContexts maxBytes maxMessageBytes maxFragments with
      | .ok r, some ⟨_, c⟩ => ∀ fs : List Feed,
          cResults c fs = (pythonResults r fs).map (Except.mapError EmosaError.code)
      | .error _, none => True
      | _, _ => False) ∧
    (∀ (destination source : Mac) (messageType mid : UInt16) (tlvs : List EmTlv) (relay : Bool)
      (mtu : Nat), emFragment destination source messageType mid tlvs relay mtu =
        (Wire.fragmentMessage destination.octets source.octets messageType.toNat mid.toNat
          (tlvs.map EmTlv.toTlv) relay mtu).mapError EmosaError.code) ∧
    ∀ (destination source : Bytes) (messageType mid : Nat) (tlvs : List Tlv) (relay : Bool)
      (mtu : Nat) (frames : List Bytes),
      Wire.fragmentMessage destination source messageType mid tlvs relay mtu = .ok frames →
      destination.length = 6 ∧ source.length = 6 ∧ messageType < 2 ^ 16 ∧ mid < 2 ^ 16 ∧
        ∃ ts : List EmTlv, tlvs = ts.map EmTlv.toTlv := by
  refine ⟨?_, emFragment_refines, fun _ _ _ _ _ _ _ _ h => fragmentMessage_representable h⟩
  intro timeout maxContexts maxBytes maxMessageBytes maxFragments
  simp only [Reassembler.new, emReassemblerNew]
  by_cases h₁ : (0 < timeout ∧ timeout ≤ 60) ∧ (1 ≤ maxContexts ∧ maxContexts ≤ 1024)
  · by_cases h₂ : (1 ≤ maxFragments ∧ maxFragments ≤ 256) ∧
        (1 ≤ maxMessageBytes ∧ maxMessageBytes ≤ maxBytes ∧ maxBytes ≤ 16777216)
    · rw [dif_pos h₁, dif_pos h₂, dif_pos ⟨h₁.1, h₁.2, h₂.1, h₂.2⟩]
      exact results_sim (sim_init _ word)
    · rw [dif_pos h₁, dif_neg h₂, dif_neg fun h => h₂ h.2.2]
      trivial
  · rw [dif_neg h₁, dif_neg fun h => h₁ ⟨h.1, h.2.1⟩]
    trivial

/-- A frame as the C reassembler is given it, from an ingress of any name. -/
structure CFeed where
  now : ℚ
  opened : ℚ
  ingress : Option String
  frame : Bytes

def CFeed.feed (f : CFeed) (c : EmReassembler limits) : EmReassembler limits :=
  (emReassemblerFeed c f.now f.opened f.frame (f.ingress.map cString)).1

/-- After any frames the C count is what the slots hold, within the budget: no `size_t` has wrapped. -/
theorem feeds_accounted (word : SizeT) (fs : List CFeed) :
    let c := fs.foldl (fun c f => f.feed c) ({ word := word } : EmReassembler limits)
    c.buffered = c.total ∧ c.buffered ≤ limits.maxBytes := by
  intro c
  obtain ⟨r, h⟩ := List.foldlRecOn (motive := fun c => ∃ r, Sim r c) fs _ ⟨_, sim_init limits word⟩
    fun _ ⟨_, h⟩ f _ => feed_related h f.now f.opened f.frame f.ingress
  have hle := h.inv.buffered_le
  rw [h.limits_eq, ← h.buffered] at hle
  exact ⟨h.buffered_eq_total, Int.ofNat_le.mp hle⟩

end Emosa.C
