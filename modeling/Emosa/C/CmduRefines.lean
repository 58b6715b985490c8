import Emosa.C.Cmdu

/-!
# Emosa.C.CmduRefines

The C fragmenter and TLV parser compute what the Python ones do.

* `packTlvs_refines`: the packing loops. The C loop gives up at the 65th chunk, the Python one
  counts them at the end.
* `emFragment_refines`: the same frames, or both refuse.
* `parseTlvs_refines`: the same TLVs, or both refuse. The C loop moves an offset.
-/

namespace Emosa.C

open Wire EmTlv List

open Wire (Bytes Tlv)

theorem EmTlv.toTlv_injective : Function.Injective toTlv := by
  rintro ⟨k, v, h⟩ ⟨k', v', h'⟩ heq
  simp only [toTlv, Tlv.mk.injEq] at heq
  obtain ⟨hk, rfl⟩ := heq
  cases UInt8.toNat_inj.mp hk
  rfl

theorem kind_toNat_eq_zero {k : UInt8} : k.toNat = 0 ↔ k = 0 := by
  rw [← UInt8.toNat_inj]; rfl

/-! ## Fragmentation -/

theorem u16_octets (v : UInt16) : [(v >>> 8).toUInt8, v.toUInt8] = packH v.toNat := by
  simp only [packH, List.cons.injEq, and_true]
  constructor
  · apply UInt8.toNat_inj.mp
    simp [Nat.shiftRight_eq_div_pow]
  · apply UInt8.toNat_inj.mp
    simp

theorem emBufU16_eq (b : Bytes) (v : UInt16) : emBufU16 b v = b ++ packH v.toNat := by
  rw [emBufU16, u16_octets]

theorem put_tlv (current : Bytes) (t : EmTlv) :
    emBufU16 (emBufU8 current t.kind) (UInt16.ofNat t.len) ++ t.value = current ++ t.toTlv.octets := by
  have hlen : (UInt16.ofNat t.len).toNat = t.value.length := by
    have := t.len_lt
    simp only [len, UInt16.toNat_ofNat']
    omega
  rw [emBufU16_eq, hlen]
  simp [emBufU8, Tlv.octets, toTlv, packB]

theorem encode_toTlv (t : EmTlv) :
    t.toTlv.encode = if t.kind = 0 ∨ t.len > emMaxValue then
        .error ⟨.invalidInput, "invalid TLV value or explicit end marker"⟩
      else .ok t.toTlv.octets := by
  have hk : t.toTlv.kind < 2 ^ 8 := t.kind.toNat_lt
  simp only [Tlv.encode, uint, hk]
  simp only [toTlv, kind_toNat_eq_zero]
  rfl

theorem packTlvs_length {budget : Nat} :
    ∀ {tlvs : List Tlv} {chunks out : List Bytes} {current : Bytes},
      Wire.packTlvs budget tlvs chunks current = .ok out → chunks.length < out.length := by
  intro tlvs
  induction tlvs with
  | nil =>
    intro chunks out current h
    simp only [Wire.packTlvs, Except.ok.injEq] at h
    simp [← h]
  | cons t ts ih =>
    intro chunks out current h
    obtain ⟨b, -, h⟩ := Except.bind_ok h
    obtain ⟨-, h⟩ := guard_passed h
    split at h
    · have := ih h
      simp only [length_append] at this
      omega
    · exact ih h

theorem packTlvs_error {budget : Nat} :
    ∀ {tlvs : List EmTlv} {chunks : List Bytes} {current : Bytes} {e : EmosaError},
      Wire.packTlvs budget (tlvs.map toTlv) chunks current = .error e →
      e.code = .invalidInput := by
  intro tlvs
  induction tlvs with
  | nil => intro chunks current e h; cases h
  | cons t ts ih =>
    intro chunks current e h
    simp only [map_cons, Wire.packTlvs, encode_toTlv] at h
    split at h
    · cases h; rfl
    · simp only [bind, Except.bind] at h
      split at h
      · cases h; rfl
      · split at h <;> exact ih h

/-- What the two packing loops do with the same TLVs. -/
def PackAgrees (c : Except Reason (List Bytes × Bytes)) (p : Except EmosaError (List Bytes)) : Prop :=
  match c with
  | .ok (chunks, current) =>
    p = .ok (chunks ++ [current ++ Wire.endMarker]) ∧ chunks.length ≤ 64
  | .error reason => reason = .invalidInput ∧
      ((∃ e, p = .error e ∧ e.code = .invalidInput) ∨ ∃ out, p = .ok out ∧ 65 < out.length)

theorem packTlvs_refines (budget : Nat) :
    ∀ (tlvs : List EmTlv) (chunks : List Bytes) (current : Bytes), chunks.length ≤ 64 →
      PackAgrees (packTlvs budget tlvs chunks current)
        (Wire.packTlvs budget (tlvs.map toTlv) chunks current) := by
  intro tlvs
  induction tlvs with
  | nil => intro chunks current hle; exact ⟨rfl, hle⟩
  | cons t ts ih =>
    intro chunks current hle
    have hlen : t.toTlv.octets.length = 3 + t.len := by
      simp [toTlv, len, Nat.add_comm]
    have hend : endMarker.length = 3 := rfl
    simp only [packTlvs, map_cons, Wire.packTlvs, encode_toTlv]
    split
    · exact ⟨rfl, Or.inl ⟨_, rfl, rfl⟩⟩
    · simp only [bind, Except.bind, hlen, hend]
      split
      · exact ⟨rfl, Or.inl ⟨_, rfl, rfl⟩⟩
      · split
        · split
          · -- the 65th chunk: the Python loop may still run, but ends with too many chunks
            refine ⟨rfl, ?_⟩
            cases hp : Wire.packTlvs budget (ts.map toTlv) (chunks ++ [current])
                t.toTlv.octets with
            | ok out =>
              have := packTlvs_length hp
              simp only [length_append, length_singleton] at this
              exact Or.inr ⟨out, rfl, by omega⟩
            | error e => exact Or.inl ⟨e, rfl, packTlvs_error hp⟩
          · rename_i hfull
            rw [put_tlv]
            exact ih _ _ (by simp; omega)
        · rw [put_tlv]
          exact ih _ _ hle

theorem encodeFragment_eq (destination source : Mac) (messageType mid : UInt16) {fid : Nat}
    (last relay : Bool) (payload : Bytes) :
    encodeFragment destination source messageType mid (UInt8.ofNat fid) last relay payload =
      Fragment.octets ⟨destination.octets, source.octets, messageType.toNat, mid.toNat, fid,
        last, relay, payload, 0⟩ := by
  have het : packH (0x893A : UInt16).toNat = packH etherType := by decide
  have hflags : UInt8.ofNat ((if last then 0x80 else 0) ||| (if relay then 0x40 else 0)) =
      (if last then 0x80 else 0) ||| (if relay then 0x40 else 0) := by
    cases last <;> cases relay <;> decide
  simp only [encodeFragment, emBufU16_eq, het, emBufU8, Fragment.octets, packB, hflags]
  simp

theorem packTlvs_chunk_le {budget : Nat} {tlvs : List Tlv} {out : List Bytes}
    (h : Wire.packTlvs budget tlvs [] [] = .ok out) (hb : 3 ≤ budget) :
    ∀ chunk ∈ out, chunk.length ≤ budget := by
  obtain ⟨gs, last, rfl, -, -, hgs, hlast⟩ :=
    packTlvs_spec [] h (by simpa [octets] using hb)
  intro chunk hc
  rw [nil_append, mem_append, mem_map, mem_singleton] at hc
  rcases hc with ⟨g, hg, rfl⟩ | rfl
  · have := (hgs g hg).2; omega
  · rw [length_append, endMarker]
    exact hlast

/-- **Fragmenter.** The same frames, or both refuse for the same reason. -/
theorem emFragment_refines (destination source : Mac) (messageType mid : UInt16)
    (tlvs : List EmTlv) (relay : Bool) (mtu : Nat) :
    emFragment destination source messageType mid tlvs relay mtu =
      (fragmentMessage destination.octets source.octets messageType.toNat mid.toNat
        (tlvs.map toTlv) relay mtu).mapError EmosaError.code := by
  simp only [emFragment, fragmentMessage, length_map]
  by_cases hmtu : 14 ≤ mtu ∧ mtu ≤ maxCmdu
  · have hmtu' : ¬ (mtu < 14 ∨ mtu > emMaxCmdu ∨ tlvs.length > emMaxTlvs) ↔
        ¬ tlvs.length > maxTlvs := by
      simp only [maxCmdu] at hmtu
      simp only [emMaxCmdu, emMaxTlvs, maxTlvs]
      omega
    rw [if_neg (not_not_intro hmtu)]
    by_cases hcount : tlvs.length > maxTlvs
    · rw [if_pos (not_not.mp fun h => hmtu'.mp h hcount), if_pos hcount]
      rfl
    · rw [if_neg (hmtu'.mpr hcount), if_neg hcount]
      have hbudget : mtu - headerSize = mtu - Wire.headerSize := rfl
      have hpack := packTlvs_refines (mtu - headerSize) tlvs [] [] (by simp)
      rw [hbudget] at hpack ⊢
      cases hc : packTlvs (mtu - Wire.headerSize) tlvs [] [] with
      | error reason =>
        rw [hc] at hpack
        obtain ⟨rfl, ⟨e, he, hcode⟩ | ⟨out, hout, hlen⟩⟩ := hpack
        · simp only [he, bind, Except.bind, Except.mapError, hcode]
        · simp only [hout, bind, Except.bind, if_pos (show out.length > 64 by omega)]
          rfl
      | ok result =>
        obtain ⟨chunks, current⟩ := result
        rw [hc] at hpack
        obtain ⟨hpack, hlen⟩ := hpack
        have hout : (chunks ++ [current ++ endMarker]).length = chunks.length + 1 := by simp
        simp only [hpack, bind, Except.bind]
        by_cases hfull : chunks.length = 64
        · rw [if_pos hfull, if_pos (by omega)]
          rfl
        · rw [if_neg hfull, if_neg (by omega)]
          have hle := packTlvs_chunk_le hpack (by simp only [Wire.headerSize]; omega)
          rw [Except.mapM_of_ok]
          · rfl
          · rintro ⟨payload, fid⟩ hmem
            have hget := mk_mem_zipIdx_iff_getElem?.mp hmem
            have hfid : fid < chunks.length + 1 := hout ▸ (List.getElem?_eq_some_iff.mp hget).1
            have hpay := hle payload (mem_of_getElem? hget)
            simp only [encodeFragment_eq]
            refine Fragment.encode_of_wf ⟨destination.six, source.six, messageType.toNat_lt,
              mid.toNat_lt, by simp only; omega, rfl, ?_⟩
            simp only at hpay ⊢
            omega
  · rw [if_pos hmtu, if_pos (by simp only [maxCmdu] at hmtu; simp only [emMaxCmdu]; omega)]
    rfl

theorem fragmentMessage_representable {destination source : Bytes} {messageType mid : Nat}
    {tlvs : List Tlv} {relay : Bool} {mtu : Nat} {frames : List Bytes}
    (h : fragmentMessage destination source messageType mid tlvs relay mtu = .ok frames) :
    destination.length = 6 ∧ source.length = 6 ∧ messageType < 2 ^ 16 ∧ mid < 2 ^ 16 ∧
      ∃ ts : List EmTlv, tlvs = ts.map toTlv := by
  obtain ⟨groups, hf⟩ := fragmentMessage_spec h
  obtain ⟨hd, hs, ht, hm, -⟩ := hf.fragment_wf 0 (length_pos_iff.mpr hf.nonempty)
  refine ⟨hd, hs, ht, hm, ?_⟩
  have hwf := hf.wf
  clear hf h
  induction tlvs with
  | nil => exact ⟨[], rfl⟩
  | cons t rest ih =>
    obtain ⟨ts, rfl⟩ := ih fun x hx => hwf x (mem_cons_of_mem _ hx)
    obtain ⟨-, hk, hv⟩ := hwf t mem_cons_self
    have hlen : t.value.length < 2 ^ 16 := by simp only [maxValue] at hv; omega
    refine ⟨⟨UInt8.ofNat t.kind, t.value, hlen⟩ :: ts, ?_⟩
    simp [toTlv, toNat_ofNat_byte hk]

/-! ## Parsing -/

theorem u16At_eq (p : Bytes) (i : Nat) :
    u16At p i = unpackH (p.getD i 0) (p.getD (i + 1) 0) := by
  have hlo : (p.getD (i + 1) 0).toNat < 2 ^ 8 := (p.getD (i + 1) 0).toNat_lt
  rw [u16At, ← Nat.shiftLeft_add_eq_or_of_lt hlo, Nat.shiftLeft_eq, unpackH]

/-- Both parsers return the same TLVs, or refuse. -/
def ParseAgrees (c : Except Reason (List EmTlv)) (p : Except EmosaError (List Tlv)) : Prop :=
  match c with
  | .ok tlvs => p = .ok (tlvs.map EmTlv.toTlv)
  | .error _ => ∃ e, p = .error e

theorem drop_three {p : Bytes} {offset : Nat} (h : offset + 3 ≤ p.length) :
    p.drop offset = p.getD offset 0 :: p.getD (offset + 1) 0 :: p.getD (offset + 2) 0 ::
      p.drop (offset + 3) := by
  have hget : ∀ i, i < p.length → p.drop i = p.getD i 0 :: p.drop (i + 1) := by
    intro i hi
    rw [drop_eq_getElem_cons hi, getD_eq_getElem _ _ hi]
  rw [hget offset (by omega), hget (offset + 1) (by omega), hget (offset + 2) (by omega)]

theorem parseTlvsFrom_turn (final : Bool) (tlvs : List Tlv) {p : Bytes} {offset : Nat}
    (h : offset + 3 ≤ p.length) :
    Wire.parseTlvsFrom final tlvs (p.drop offset) =
      if p.getD offset 0 = 0 then
        if u16At p (offset + 1) &&& emMaxValue ≠ 0 ∨ final = false then
          invalid "invalid or non-final end marker"
        else .ok tlvs
      else if p.length < offset + 3 + (u16At p (offset + 1) &&& emMaxValue) then
        invalid "truncated TLV value or unsupported octet-boundary fragmentation"
      else if tlvs.length ≥ emMaxTlvs then invalid "TLV count exceeds local budget"
      else
        Wire.parseTlvsFrom final
          (tlvs ++ [⟨(p.getD offset 0).toNat,
            (p.drop (offset + 3)).take (u16At p (offset + 1) &&& emMaxValue)⟩])
          (p.drop (offset + 3 + (u16At p (offset + 1) &&& emMaxValue))) := by
  have hlt : ∀ len, (p.drop (offset + 3)).length < len ↔ p.length < offset + 3 + len := by
    rw [length_drop]
    omega
  rw [drop_three h, Wire.parseTlvsFrom]
  simp only [← u16At_eq, hlt, drop_drop]
  rfl

theorem parseTlvsFrom_short {final : Bool} {tlvs : List Tlv} {rest : Bytes} (h0 : rest ≠ [])
    (h3 : rest.length < 3) :
    Wire.parseTlvsFrom final tlvs rest = invalid "truncated TLV header" := by
  match rest, h0, h3 with
  | [_], _, _ => simp [Wire.parseTlvsFrom]
  | [_, _], _, _ => simp [Wire.parseTlvsFrom]

theorem parseTlvsFrom_refines (p : Bytes) (final : Bool) (offset : Nat) (tlvs : List EmTlv)
    (h : offset ≤ p.length) :
    ParseAgrees (parseTlvsFrom p final offset tlvs)
      (Wire.parseTlvsFrom final (tlvs.map toTlv) (p.drop offset)) := by
  fun_induction parseTlvsFrom p final offset tlvs with
  | case1 offset tlvs hlt hshort =>
    have hlen : (p.drop offset).length = p.length - offset := length_drop
    rw [parseTlvsFrom_short (ne_nil_of_length_pos (by omega)) (by omega)]
    exact ⟨_, rfl⟩
  | case2 offset tlvs hlt hlong kind len hkind hend =>
    rw [parseTlvsFrom_turn final _ (show offset + 3 ≤ p.length by omega), if_pos hkind, if_pos hend]
    exact ⟨_, rfl⟩
  | case3 offset tlvs hlt hlong kind len hkind hend =>
    rw [parseTlvsFrom_turn final _ (show offset + 3 ≤ p.length by omega), if_pos hkind, if_neg hend]
    rfl
  | case4 offset tlvs hlt hlong kind len hkind hbad =>
    -- either limit refuses, the Python loop one after the other
    rw [parseTlvsFrom_turn final _ (show offset + 3 ≤ p.length by omega), if_neg hkind,
      length_map]
    split
    · exact ⟨_, rfl⟩
    · rename_i hval
      rw [if_pos (hbad.resolve_left hval)]
      exact ⟨_, rfl⟩
  | case5 offset tlvs hlt hlong kind len hkind hgood hlen ih =>
    obtain ⟨hval, hcount⟩ := not_or.mp hgood
    rw [parseTlvsFrom_turn final _ (show offset + 3 ≤ p.length by omega), if_neg hkind, if_neg hval,
      length_map, if_neg hcount]
    have hnext := ih (Nat.le_of_not_lt hval)
    rw [map_append] at hnext
    exact hnext
  | case6 offset tlvs hge hend =>
    rw [drop_of_length_le (by omega), Wire.parseTlvsFrom]
    split
    · exact ⟨_, rfl⟩
    · rename_i hfinal
      have hnil := length_eq_zero_iff.mp (hend.resolve_left hfinal)
      rw [hnil]
      exact ⟨_, rfl⟩
  | case7 offset tlvs hge hend =>
    obtain ⟨hfinal, hne⟩ := not_or.mp hend
    rw [drop_of_length_le (by omega), Wire.parseTlvsFrom, if_neg hfinal, if_neg ?_]
    · rfl
    · intro hnil
      exact hne (length_eq_zero_iff.mpr (map_eq_nil_iff.mp hnil))

theorem parseTlvs_refines (p : Bytes) (final : Bool) :
    ParseAgrees (parseTlvs p final) (Wire.parseTlvs p final) :=
  parseTlvsFrom_refines p final 0 [] (Nat.zero_le _)

end Emosa.C
