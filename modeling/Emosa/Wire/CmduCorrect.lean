import Mathlib.Tactic.Ring
import Emosa.Lib.Except
import Emosa.Wire.Cmdu

/-!
# Emosa.Wire.CmduCorrect

What the encoder writes, the decoder reads back.

* `parseTlvs_octets`: parsing the octets of well-formed TLVs gives those TLVs, in a final and in a
  non-final fragment.
* `decodeFrame_octets`: an encoded fragment decodes to itself.
* `packTlvs_spec`: the packing loop cuts the TLV list into consecutive groups, none of them empty
  except when the message has no TLV at all.
* `fragmentMessage_spec`: the frames of an accepted message, as the groups they carry.
-/

namespace Emosa.Wire

open List

/-! ## TLVs -/

/-- What `Tlv.encode` accepts. -/
def Tlv.WF (tlv : Tlv) : Prop := 0 < tlv.kind ∧ tlv.kind < 256 ∧ tlv.value.length ≤ maxValue

def Tlv.octets (tlv : Tlv) : Bytes := packB tlv.kind ++ packH tlv.value.length ++ tlv.value

def octets (tlvs : List Tlv) : Bytes := tlvs.flatMap Tlv.octets

/-- The octets a stored fragment accounts for: its TLVs, without end marker and padding. -/
def tlvBytes (tlvs : List Tlv) : Nat := (tlvs.map fun tlv => tlv.value.length + 3).sum

theorem uint_ok {value bits v : Nat} {label : String} (h : uint value bits label = .ok v) :
    v = value ∧ value < 2 ^ bits := by
  simp only [uint] at h
  split at h
  · cases h; exact ⟨rfl, ‹_›⟩
  · cases h

theorem mac_ok {value b : Bytes} (h : mac value = .ok b) : b = value ∧ value.length = 6 := by
  simp only [mac] at h
  split at h
  · cases h; exact ⟨rfl, ‹_›⟩
  · cases h

theorem Tlv.encode_ok {tlv : Tlv} {b : Bytes} (h : tlv.encode = .ok b) :
    tlv.WF ∧ b = tlv.octets := by
  obtain ⟨v, hv, h⟩ := Except.bind_ok h
  obtain ⟨-, hlt⟩ := uint_ok hv
  obtain ⟨hn, h⟩ := guard_passed h
  cases h
  exact ⟨⟨by omega, hlt, by omega⟩, rfl⟩

theorem Tlv.encode_of_wf {tlv : Tlv} (h : tlv.WF) : tlv.encode = .ok tlv.octets := by
  obtain ⟨h0, h1, h2⟩ := h
  have hn : ¬ (tlv.kind = 0 ∨ tlv.value.length > maxValue) := by omega
  simp only [Tlv.encode, uint, bind, Except.bind, show tlv.kind < 2 ^ 8 from h1, if_true, hn,
    if_false, Tlv.octets]

@[simp] theorem Tlv.length_octets (tlv : Tlv) : tlv.octets.length = tlv.value.length + 3 := by
  simp [Tlv.octets, packB, packH]

theorem octets_append (a b : List Tlv) : octets (a ++ b) = octets a ++ octets b := by
  simp [octets]

theorem toNat_ofNat_byte {n : Nat} (h : n < 256) : (UInt8.ofNat n).toNat = n := by
  simp [Nat.mod_eq_of_lt h]

theorem unpackH_packH {n : Nat} (h : n < 65536) :
    unpackH (UInt8.ofNat (n / 256)) (UInt8.ofNat n) = n := by
  simp only [unpackH, UInt8.toNat_ofNat']
  omega

theorem and_maxValue {n : Nat} (h : n ≤ maxValue) : n &&& maxValue = n := by
  have : maxValue = 2 ^ 14 - 1 := rfl
  rw [this, Nat.and_two_pow_sub_one_eq_mod]
  exact Nat.mod_eq_of_lt (by omega)

theorem packB_ne_zero {n : Nat} (h0 : 0 < n) (h : n < 256) : UInt8.ofNat n ≠ 0 := by
  intro hz
  have := congrArg UInt8.toNat hz
  simp at this; omega

theorem parseTlvsFrom_tlv {final : Bool} {acc : List Tlv} {tlv : Tlv} {rest : Bytes} (h : tlv.WF)
    (hacc : acc.length < maxTlvs) :
    parseTlvsFrom final acc (tlv.octets ++ rest) = parseTlvsFrom final (acc ++ [tlv]) rest := by
  obtain ⟨h0, h1, h2⟩ := h
  have hlen : tlv.value.length < 65536 := by simp only [maxValue] at h2; omega
  have hkind := packB_ne_zero h0 h1
  have hacc' : ¬ acc.length ≥ maxTlvs := by omega
  rw [show tlv.octets ++ rest = UInt8.ofNat tlv.kind :: UInt8.ofNat (tlv.value.length / 256) ::
    UInt8.ofNat tlv.value.length :: (tlv.value ++ rest) by simp [Tlv.octets, packB, packH]]
  rw [parseTlvsFrom]
  simp only [unpackH_packH hlen, and_maxValue h2, hkind, if_false, hacc', length_append,
    show ¬ tlv.value.length + rest.length < tlv.value.length by omega, take_left',
    drop_left', toNat_ofNat_byte h1]

theorem parseTlvsFrom_octets {final : Bool} {rest : Bytes} :
    ∀ {tlvs acc : List Tlv}, (∀ t ∈ tlvs, t.WF) → acc.length + tlvs.length ≤ maxTlvs →
      parseTlvsFrom final acc (octets tlvs ++ rest) = parseTlvsFrom final (acc ++ tlvs) rest := by
  intro tlvs
  induction tlvs with
  | nil => intro acc _ _; simp [octets]
  | cons t ts ih =>
    intro acc hwf hlen
    simp only [length_cons] at hlen
    rw [show octets (t :: ts) ++ rest = t.octets ++ (octets ts ++ rest) by simp [octets],
      parseTlvsFrom_tlv (hwf t mem_cons_self) (by omega),
      ih (fun x hx => hwf x (mem_cons_of_mem _ hx)) (by simp; omega)]
    simp

/-- A final fragment ends at its end marker, whatever padding follows. -/
theorem parseTlvsFrom_endMarker (acc : List Tlv) (padding : Bytes) :
    parseTlvsFrom true acc (endMarker ++ padding) = .ok acc := by
  simp [endMarker, parseTlvsFrom, unpackH]

def payloadOf (tlvs : List Tlv) (final : Bool) : Bytes :=
  octets tlvs ++ if final then endMarker else []

theorem parseTlvs_octets {tlvs : List Tlv} {final : Bool} (hwf : ∀ t ∈ tlvs, t.WF)
    (hlen : tlvs.length ≤ maxTlvs) (hne : final = false → tlvs ≠ []) :
    parseTlvs (payloadOf tlvs final) final = .ok tlvs := by
  rw [parseTlvs, payloadOf, parseTlvsFrom_octets hwf (by simpa using hlen)]
  cases final with
  | true => simpa using parseTlvsFrom_endMarker tlvs []
  | false => simp [parseTlvsFrom, hne rfl]

/-! ## Frames -/

theorem six_of_length {b : Bytes} (h : b.length = 6) :
    ∃ b0 b1 b2 b3 b4 b5, b = [b0, b1, b2, b3, b4, b5] := by
  match b, h with
  | [b0, b1, b2, b3, b4, b5], _ => exact ⟨b0, b1, b2, b3, b4, b5, rfl⟩

theorem flags_last (last relay : Bool) :
    decide (UInt8.ofNat ((if last then 0x80 else 0) ||| (if relay then 0x40 else 0)) &&& 0x80 ≠ 0) = last := by
  cases last <;> cases relay <;> decide

theorem flags_relay (last relay : Bool) :
    decide (UInt8.ofNat ((if last then 0x80 else 0) ||| (if relay then 0x40 else 0)) &&& 0x40 ≠ 0) = relay := by
  cases last <;> cases relay <;> decide

/-- What `Fragment.encode` accepts. -/
structure Fragment.WF (part : Fragment) : Prop where
  destination : part.destination.length = 6
  source : part.source.length = 6
  messageType : part.messageType < 65536
  mid : part.mid < 65536
  fid : part.fid < 256
  version : part.version = 0
  payload : part.payload.length ≤ maxCmdu - headerSize

def Fragment.octets (part : Fragment) : Bytes :=
  part.destination ++ part.source ++ packH etherType ++
    (packB 0 ++ packB 0 ++ packH part.messageType ++ packH part.mid ++ packB part.fid ++
      packB ((if part.last then 0x80 else 0) ||| (if part.relay then 0x40 else 0))) ++ part.payload

theorem Fragment.encode_ok {part : Fragment} {frame : Bytes} (h : part.encode = .ok frame) :
    part.WF ∧ frame = part.octets := by
  obtain ⟨d, hd, h⟩ := Except.bind_ok h
  obtain ⟨s, hs, h⟩ := Except.bind_ok h
  obtain ⟨t, ht, h⟩ := Except.bind_ok h
  obtain ⟨m, hm, h⟩ := Except.bind_ok h
  obtain ⟨f, hf, h⟩ := Except.bind_ok h
  obtain ⟨rfl, hd'⟩ := mac_ok hd
  obtain ⟨rfl, hs'⟩ := mac_ok hs
  obtain ⟨rfl, ht'⟩ := uint_ok ht
  obtain ⟨rfl, hm'⟩ := uint_ok hm
  obtain ⟨rfl, hf'⟩ := uint_ok hf
  split at h
  · cases h
  · split at h
    · cases h
    · cases h
      exact ⟨⟨hd', hs', ht', hm', hf', by omega, by omega⟩, rfl⟩

theorem Fragment.encode_of_wf {part : Fragment} (h : part.WF) : part.encode = .ok part.octets := by
  obtain ⟨hd, hs, ht, hm, hf, hv, hp⟩ := h
  have hp' : ¬ part.payload.length > maxCmdu - headerSize := by omega
  simp only [Fragment.encode, mac, uint, bind, Except.bind, hd, hs, hv, hp',
    show part.messageType < 2 ^ 16 from ht, show part.mid < 2 ^ 16 from hm,
    show part.fid < 2 ^ 8 from hf, if_true, if_false, ne_eq, not_true_eq_false, Fragment.octets]

theorem decodeFrame_octets {part : Fragment} (h : part.WF) : decodeFrame part.octets = .ok part := by
  obtain ⟨hd, hs, ht, hm, hf, hv, hp⟩ := h
  obtain ⟨d0, d1, d2, d3, d4, d5, hd'⟩ := six_of_length hd
  obtain ⟨s0, s1, s2, s3, s4, s5, hs'⟩ := six_of_length hs
  have hlen : part.payload.length ≤ 1492 := hp
  have het : unpackH (UInt8.ofNat (etherType / 256)) (UInt8.ofNat etherType) = etherType := by decide
  simp only [decodeFrame, Fragment.octets, hd', hs', packH, packB, cons_append, nil_append,
    length_cons, getD_cons_succ, getD_cons_zero, take_succ_cons, take_zero, drop_succ_cons, drop_zero,
    het, unpackH_packH ht, unpackH_packH hm, toNat_ofNat_byte hf, flags_last, flags_relay]
  rw [if_neg (by simp only [maxCmdu]; omega)]
  rw [← hd', ← hs']
  cases part
  subst hv
  rfl

/-! ## Fragmentation -/

/-- The packing loop, from a current chunk that holds `cur`: the TLVs still to be sent are cut into
`groups` and a last one. A group is closed only because it is not empty (a TLV that does not fit an
empty chunk is refused), so no fragment but the last can be without a TLV. -/
theorem packTlvs_spec {budget : Nat} :
    ∀ {tlvs : List Tlv} {chunks out : List Bytes} (cur : List Tlv),
      packTlvs budget tlvs chunks (octets cur) = .ok out →
      (octets cur).length + 3 ≤ budget →
      ∃ (groups : List (List Tlv)) (last : List Tlv),
        out = chunks ++ groups.map octets ++ [octets last ++ endMarker] ∧
        cur ++ tlvs = groups.flatten ++ last ∧ (∀ t ∈ tlvs, t.WF) ∧
        (∀ g ∈ groups, g ≠ [] ∧ (octets g).length + 3 ≤ budget) ∧
        (octets last).length + 3 ≤ budget := by
  intro tlvs
  induction tlvs with
  | nil =>
    intro chunks out cur h hcur
    simp only [packTlvs, Except.ok.injEq] at h
    exact ⟨[], cur, by simp [← h], by simp, by simp, by simp, hcur⟩
  | cons t ts ih =>
    intro chunks out cur h hcur
    obtain ⟨b, hb, h⟩ := Except.bind_ok h
    obtain ⟨hwf, rfl⟩ := Tlv.encode_ok hb
    have hone : octets [t] = t.octets := by simp [octets]
    obtain ⟨hbig, h⟩ := guard_passed h
    simp only [endMarker, length_cons] at hbig
    split at h
    · -- the current chunk is full: it is closed and `t` opens the next one
      rename_i hfull
      simp only [endMarker, length_cons] at hfull
      rw [← hone] at h
      obtain ⟨groups, last, hout, hcat, hall, hgs, hlast⟩ := ih _ h (by rw [hone]; omega)
      have hne : cur ≠ [] := by rintro rfl; simp only [octets, flatMap_nil, length_nil] at hfull; omega
      refine ⟨cur :: groups, last, by simp [hout], ?_, ?_, ?_, hlast⟩
      · simp [← hcat]
      · intro x hx
        rcases mem_cons.mp hx with rfl | hx
        · exact hwf
        · exact hall x hx
      · intro g hg
        rcases mem_cons.mp hg with rfl | hg
        · exact ⟨hne, hcur⟩
        · exact hgs g hg
    · rename_i hfits
      simp only [endMarker, length_cons] at hfits
      rw [← hone, ← octets_append] at h
      obtain ⟨groups, last, hout, hcat, hall, hgs, hlast⟩ :=
        ih _ h (by rw [octets_append, length_append, hone]; omega)
      refine ⟨groups, last, hout, by simpa using hcat, ?_, hgs, hlast⟩
      intro x hx
      rcases mem_cons.mp hx with rfl | hx
      · exact hwf
      · exact hall x hx

section Message

variable (destination source : Bytes) (messageType mid : Nat) (relay : Bool)

/-- The fragment that carries group `i` of a message cut into `groups`. -/
def fragmentOf (groups : List (List Tlv)) (i : Nat) : Fragment where
  destination := destination
  source := source
  messageType := messageType
  mid := mid
  fid := i
  last := i == groups.length - 1
  relay := relay
  payload := payloadOf (groups.getD i []) (i == groups.length - 1)

/-- The frames of a message, as the groups of TLVs they carry. -/
structure Fragmented (tlvs : List Tlv) (frames : List Bytes) (groups : List (List Tlv)) : Prop where
  flatten : groups.flatten = tlvs
  wf : ∀ t ∈ tlvs, t.WF
  count : tlvs.length ≤ maxTlvs
  nonempty : groups ≠ []
  bound : groups.length ≤ 64
  length : frames.length = groups.length
  group_ne : ∀ i, i + 1 < groups.length → groups.getD i [] ≠ []
  fragment_wf : ∀ i, i < groups.length →
    (fragmentOf destination source messageType mid relay groups i).WF
  frame : ∀ i, i < groups.length →
    frames[i]? = some (fragmentOf destination source messageType mid relay groups i).octets

variable {destination source messageType mid relay}

theorem fragmentMessage_spec {tlvs : List Tlv} {mtu : Nat} {frames : List Bytes}
    (h : fragmentMessage destination source messageType mid tlvs relay mtu = .ok frames) :
    ∃ groups, Fragmented destination source messageType mid relay tlvs frames groups := by
  simp only [fragmentMessage] at h
  obtain ⟨hmtu, h⟩ := guard_passed h
  obtain ⟨hcount, h⟩ := guard_passed h
  obtain ⟨chunks, hchunks, h⟩ := Except.bind_ok h
  obtain ⟨hbound, h⟩ := guard_passed h
  have hbudget : 6 ≤ mtu - headerSize := by simp only [headerSize]; omega
  obtain ⟨gs, last, hout, hcat, hwf, hgs, -⟩ :=
    packTlvs_spec [] hchunks (by simp [octets]; omega)
  have hlen : chunks.length = (gs ++ [last]).length := by simp [hout]
  -- chunk `i` is the payload of group `i`
  have hpay : ∀ i, i < (gs ++ [last]).length →
      chunks[i]? = some (payloadOf ((gs ++ [last]).getD i []) (i == (gs ++ [last]).length - 1)) := by
    intro i hi
    simp only [length_append, length_cons, length_nil] at hi
    by_cases hlt : i < gs.length
    · have hne : (i == (gs ++ [last]).length - 1) = false := by simp; omega
      rw [hout, getElem?_append_left (by simpa using hlt), hne]
      simp [payloadOf, getElem?_append_left hlt, getElem?_eq_getElem hlt]
    · obtain rfl : i = gs.length := by omega
      rw [hout]
      simp [payloadOf]
  obtain ⟨hflen, hframes⟩ := Except.mapM_ok h
  have hfr : ∀ i, i < (gs ++ [last]).length →
      (fragmentOf destination source messageType mid relay (gs ++ [last]) i).WF ∧
      frames[i]? = some (fragmentOf destination source messageType mid relay (gs ++ [last]) i).octets := by
    intro i hi
    have hz : chunks.zipIdx[i]? = some (payloadOf ((gs ++ [last]).getD i [])
        (i == (gs ++ [last]).length - 1), i) := by
      rw [getElem?_zipIdx, hpay i hi, Option.map_some, Nat.zero_add]
    obtain ⟨b, hb, hfi⟩ := hframes i _ hz
    rw [hlen] at hb
    obtain ⟨hw, rfl⟩ := Fragment.encode_ok hb
    exact ⟨hw, hfi⟩
  refine ⟨gs ++ [last], ?_, hwf, by omega, by simp, by omega, ?_, ?_, fun i hi => (hfr i hi).1,
    fun i hi => (hfr i hi).2⟩
  · simpa using hcat.symm
  · simp [hflen, hlen]
  · intro i hi
    simp only [length_append, length_cons, length_nil] at hi
    have hlt : i < gs.length := by omega
    have := (hgs gs[i] (getElem_mem hlt)).1
    simpa [getElem?_append_left hlt, getElem?_eq_getElem hlt] using this

theorem Fragmented.parse {tlvs : List Tlv} {frames : List Bytes} {groups : List (List Tlv)}
    (h : Fragmented destination source messageType mid relay tlvs frames groups) {i : Nat}
    (hi : i < groups.length) :
    parseTlvs (fragmentOf destination source messageType mid relay groups i).payload
      (fragmentOf destination source messageType mid relay groups i).last = .ok (groups.getD i []) := by
  have hmem : groups.getD i [] ∈ groups := by
    rw [getD_eq_getElem?_getD, getElem?_eq_getElem hi]; exact getElem_mem hi
  have hsub : ∀ t ∈ groups.getD i [], t ∈ tlvs := by
    intro t ht; rw [← h.flatten]; exact mem_flatten.mpr ⟨_, hmem, ht⟩
  have hle : (groups.getD i []).length ≤ tlvs.length := by
    rw [← h.flatten]; exact (sublist_flatten_of_mem hmem).length_le
  refine parseTlvs_octets (fun t ht => h.wf t (hsub t ht)) (hle.trans h.count) fun hlast => ?_
  have : i ≠ groups.length - 1 := by simpa using hlast
  exact h.group_ne i (by omega)

end Message

end Emosa.Wire
