import Mathlib.Data.Vector.Defs
import Emosa.Lib.Slots
import Emosa.Wire.Reassembler

/-!
# Emosa.C.Cmdu

The C agent's envelope: `em_fragment`, and the reassembler that keeps its contexts in a fixed array.
It mirrors the Python one with the same budgets and reasons; the two were written separately, and
the checks come in another order.

An allocation that fails ends the process, so every allocation here succeeds. A `size_t` that is
added to or subtracted from wraps at `SizeT.modulus`. A C string is its octets, without the NUL.

* `emFragment`: the fragmenter.
* `emReassemblerFeed`: one frame. A context is found, or a spare one taken, by scanning the array.
-/

namespace Emosa.C

open Wire (Bytes Message Limits)

def emEtherType : Nat := 0x893A
def emMaxCmdu : Nat := 1500
def emMaxValue : Nat := 0x3FFF
def emMaxTlvs : Nat := 256
def headerSize : Nat := 8

/-- The width of `size_t`: at least 32 bits. -/
structure SizeT where
  modulus : Nat
  wide : 2 ^ 32 ≤ modulus

def SizeT.add (w : SizeT) (a b : Nat) : Nat := (a + b) % w.modulus
def SizeT.sub (w : SizeT) (a b : Nat) : Nat := (a + (w.modulus - b % w.modulus)) % w.modulus

/-- `len` is the length of `value` and fits its `uint16_t`. -/
structure EmTlv where
  kind : UInt8
  value : Bytes
  len_lt : value.length < 2 ^ 16
  deriving DecidableEq

def EmTlv.len (t : EmTlv) : Nat := t.value.length

def EmTlv.toTlv (t : EmTlv) : Wire.Tlv := ⟨t.kind.toNat, t.value⟩

structure Mac where
  octets : Bytes
  six : octets.length = 6

/-! ## Fragmentation -/

def emBufU8 (b : Bytes) (v : UInt8) : Bytes := b ++ [v]
def emBufU16 (b : Bytes) (v : UInt16) : Bytes := b ++ [(v >>> 8).toUInt8, v.toUInt8]

def encodeFragment (destination source : Mac) (messageType mid : UInt16) (fid : UInt8)
    (last relay : Bool) (payload : Bytes) : Bytes :=
  let out := destination.octets ++ source.octets
  let out := emBufU8 (emBufU8 (emBufU16 out 0x893A) 0) 0
  let out := emBufU16 (emBufU16 out messageType) mid
  let out := emBufU8 (emBufU8 out fid) ((if last then 0x80 else 0) ||| (if relay then 0x40 else 0))
  out ++ payload

/-- The packing loop of `em_fragment`: the chunks closed so far and the current one. -/
def packTlvs (budget : Nat) : List EmTlv → List Bytes → Bytes → Except Reason (List Bytes × Bytes)
  | [], chunks, current => .ok (chunks, current)
  | t :: ts, chunks, current =>
    if t.kind = 0 ∨ t.len > emMaxValue then .error .invalidInput
    else
      let encoded := 3 + t.len
      if encoded + 3 > budget then .error .invalidInput
      else if current.length + encoded + 3 > budget then
        if chunks.length = 64 then .error .invalidInput
        else
          packTlvs budget ts (chunks ++ [current])
            (emBufU16 (emBufU8 [] t.kind) (UInt16.ofNat t.len) ++ t.value)
      else
        packTlvs budget ts chunks (emBufU16 (emBufU8 current t.kind) (UInt16.ofNat t.len) ++ t.value)

def emFragment (destination source : Mac) (messageType mid : UInt16) (tlvs : List EmTlv)
    (relay : Bool) (mtu : Nat) : Except Reason (List Bytes) :=
  if mtu < 14 ∨ mtu > emMaxCmdu ∨ tlvs.length > emMaxTlvs then .error .invalidInput
  else
    match packTlvs (mtu - headerSize) tlvs [] [] with
    | .error reason => .error reason
    | .ok (chunks, current) =>
      if chunks.length = 64 then .error .invalidInput
      else
        let chunks := chunks ++ [current ++ [0, 0, 0]]
        .ok (chunks.zipIdx.map fun (payload, fid) =>
          encodeFragment destination source messageType mid (UInt8.ofNat fid)
            (fid == chunks.length - 1) relay payload)

/-! ## Reassembly -/

structure Part where
  present : Bool := false
  last : Bool := false
  tlvs : List EmTlv := []
  deriving DecidableEq

structure Context where
  used : Bool := false
  relay : Bool := false
  poisoned : Bool := false
  haveLast : Bool := false
  ingress : Bytes := []
  source : Bytes := []
  destination : Bytes := []
  messageType : Nat := 0
  mid : Nat := 0
  started : ℚ := 0
  last : Fin 256 := 0
  size : Nat := 0
  parts : Vector Part 256 := .replicate 256 {}

structure EmReassembler (limits : Limits) where
  word : SizeT
  contexts : Vector Context limits.maxContexts := .replicate _ {}
  buffered : Nat := 0

/-- The constructor: NULL for budgets out of range. -/
def emReassemblerNew (word : SizeT) (timeout : ℚ) (maxContexts maxBytes maxMessageBytes
    maxFragments : Nat) : Option ((limits : Limits) × EmReassembler limits) :=
  if h : (0 < timeout ∧ timeout ≤ 60) ∧ (1 ≤ maxContexts ∧ maxContexts ≤ 1024) ∧
      (1 ≤ maxFragments ∧ maxFragments ≤ 256) ∧
      (1 ≤ maxMessageBytes ∧ maxMessageBytes ≤ maxBytes ∧ maxBytes ≤ 16777216) then
    some ⟨⟨timeout, maxContexts, maxBytes, maxMessageBytes, maxFragments, h.1, h.2.1, h.2.2.1,
      h.2.2.2⟩, { word := word }⟩
  else none

def u16At (p : Bytes) (i : Nat) : Nat := (p.getD i 0).toNat <<< 8 ||| (p.getD (i + 1) 0).toNat

def parseTlvsFrom (p : Bytes) (final : Bool) (offset : Nat) (tlvs : List EmTlv) :
    Except Reason (List EmTlv) :=
  if offset < p.length then
    if p.length - offset < 3 then .error .invalidInput
    else
      let kind := p.getD offset 0
      let len := u16At p (offset + 1) &&& emMaxValue
      if kind = 0 then
        if len ≠ 0 ∨ final = false then .error .invalidInput else .ok tlvs
      else if offset + 3 + len > p.length ∨ tlvs.length ≥ emMaxTlvs then .error .invalidInput
      else
        have hlen : ((p.drop (offset + 3)).take len).length < 2 ^ 16 :=
          calc ((p.drop (offset + 3)).take len).length ≤ len := List.length_take_le _ _
            _ ≤ emMaxValue := Nat.and_le_right
            _ < 2 ^ 16 := by decide
        parseTlvsFrom p final (offset + 3 + len)
          (tlvs ++ [⟨kind, (p.drop (offset + 3)).take len, hlen⟩])
  else if final ∨ tlvs.length = 0 then .error .invalidInput
  else .ok tlvs
termination_by p.length - offset

def parseTlvs (p : Bytes) (final : Bool) : Except Reason (List EmTlv) := parseTlvsFrom p final 0 []

def sameTlvs (a : Part) (last : Bool) (tlvs : List EmTlv) : Bool :=
  a.last == last && a.tlvs.length == tlvs.length &&
    (a.tlvs.zip tlvs).all fun (x, t) => x.kind == t.kind && x.len == t.len && x.value == t.value

def upTo (last : Fin 256) : List (Fin 256) :=
  (List.finRange (last + 1)).map (Fin.castLE (Nat.succ_le_of_lt last.isLt))

/-- The fields of a frame's header that the reassembler reads. -/
structure Header where
  destination : Bytes
  source : Bytes
  version : UInt8
  messageType : Nat
  mid : Nat
  fid : Fin 256
  last : Bool
  relay : Bool

def header (frame : Bytes) : Header where
  destination := frame.take 6
  source := (frame.drop 6).take 6
  version := frame.getD 14 0
  messageType := u16At frame 16
  mid := u16At frame 18
  fid := (frame.getD 20 0).toFin
  last := frame.getD 21 0 &&& 0x80 ≠ 0
  relay := frame.getD 21 0 &&& 0x40 ≠ 0

namespace EmReassembler

variable {limits : Limits}

abbrev Result := Except Reason (Option Message)

def drop (r : EmReassembler limits) (i : Fin limits.maxContexts) : EmReassembler limits :=
  { r with
    buffered := r.word.sub r.buffered (r.contexts.get i).size
    contexts := Slots.put r.contexts i {} }

def expireStep (now : ℚ) (r : EmReassembler limits) (i : Fin limits.maxContexts) :
    EmReassembler limits :=
  if (r.contexts.get i).used ∧ now - (r.contexts.get i).started ≥ limits.timeout then r.drop i else r

def expire (r : EmReassembler limits) (now : ℚ) : EmReassembler limits :=
  (List.finRange limits.maxContexts).foldl (expireStep now) r

def poison (r : EmReassembler limits) (i : Fin limits.maxContexts) : EmReassembler limits × Result :=
  let c := r.contexts.get i
  ({ r with
      buffered := r.word.sub r.buffered c.size
      contexts := Slots.put r.contexts i
        { c with parts := .replicate 256 {}, size := 0, poisoned := true } },
    .error .invalidInput)

/-- What the scan of the contexts finds: the context of the frame, the first spare one, and how many
are used. -/
structure Scan (n : Nat) where
  found : Option (Fin n) := none
  spare : Option (Fin n) := none
  used : Nat := 0

def scanStep (r : EmReassembler limits) (same : Context → Bool) (s : Scan limits.maxContexts)
    (i : Fin limits.maxContexts) : Scan limits.maxContexts :=
  let x := r.contexts.get i
  if ¬ x.used then { s with spare := s.spare.or (some i) }
  else { s with used := s.used + 1, found := if same x then some i else s.found }

def scan (r : EmReassembler limits) (same : Context → Bool) : Scan limits.maxContexts :=
  (List.finRange limits.maxContexts).foldl (r.scanStep same) {}

/-- The fragment belongs to the context. -/
def same (h : Header) (ingress : Bytes) (x : Context) : Bool :=
  x.ingress == ingress && x.source == h.source && x.destination == h.destination &&
    x.messageType == h.messageType && x.mid == h.mid

/-- A spare context, cleared and taken for the message of a frame. -/
def takeOver (h : Header) (ingress : Bytes) (opened : ℚ) : Context where
  used := true
  ingress := ingress
  source := h.source
  destination := h.destination
  messageType := h.messageType
  mid := h.mid
  relay := h.relay
  started := opened

/-- The context of a frame: the one found, or the spare one taken over. -/
def openContext (r : EmReassembler limits) (h : Header) (ingress : Bytes) (opened : ℚ) :
    Except Reason (EmReassembler limits × Fin limits.maxContexts) :=
  let s := r.scan (same h ingress)
  match s.found with
  | some i => .ok (r, i)
  | none =>
    match s.spare with
    | none => .error .busy
    | some i =>
      if s.used ≥ limits.maxContexts then .error .busy
      else
        .ok ({ r with contexts := Slots.put r.contexts i (takeOver h ingress opened) }, i)

/-- The loop over the stored parts: their TLVs, and whether one has a later number. -/
def stored (c : Context) (fid : Fin 256) : Nat × Bool :=
  (List.finRange 256).foldl
    (fun (stored, later) i =>
      if (c.parts.get i).present then (stored + (c.parts.get i).tlvs.length, later || i > fid)
      else (stored, later)) (0, false)

def tlvsSize (tlvs : List EmTlv) : Nat := (tlvs.map fun t => t.len + 3).sum

def keep (word : SizeT) (c : Context) (h : Header) (tlvs : List EmTlv) : Context :=
  { c with
    parts := Slots.put c.parts h.fid { present := true, last := h.last, tlvs := tlvs }
    size := word.add c.size (tlvsSize tlvs)
    haveLast := c.haveLast || h.last
    last := if h.last then h.fid else c.last }

/-- Keep a fragment, and deliver the message it completes. -/
def store (r : EmReassembler limits) (i : Fin limits.maxContexts) (h : Header) (tlvs : List EmTlv) :
    EmReassembler limits × Result :=
  let c := keep r.word (r.contexts.get i) h tlvs
  let r := { r with
    buffered := r.word.add r.buffered (tlvsSize tlvs)
    contexts := Slots.put r.contexts i c }
  if ¬ c.haveLast then (r, .ok none)
  else if ¬ (upTo c.last).all (fun j => (c.parts.get j).present) then (r, .ok none)
  else
    ({ r with
        buffered := r.word.sub r.buffered c.size
        contexts := Slots.put r.contexts i {} },
      .ok (some {
        destination := h.destination
        source := h.source
        messageType := h.messageType
        mid := h.mid
        relay := h.relay
        tlvs := (upTo c.last).flatMap fun j => (c.parts.get j).tlvs.map EmTlv.toTlv
        fragments := c.last + 1 }))

inductive Verdict where
  | quarantined
  | poison
  | duplicate
  | store (tlvs : List EmTlv)

/-- The checks on a fragment of an open context, in their order. -/
def judge (r : EmReassembler limits) (c : Context) (h : Header) (payload : Bytes) : Verdict :=
  if c.poisoned then .quarantined
  else if h.fid.val ≥ limits.maxFragments ∨ h.relay ≠ c.relay then .poison
  else
    match parseTlvs payload h.last with
    | .error _ => .poison
    | .ok tlvs =>
      if (c.parts.get h.fid).present then
        if sameTlvs (c.parts.get h.fid) h.last tlvs then .duplicate else .poison
      else if (c.haveLast && (h.fid > c.last || (h.last && h.fid ≠ c.last))) ∨
          (h.last && (stored c h.fid).2) ∨
          r.word.add c.size (tlvsSize tlvs) > limits.maxMessageBytes ∨
          r.word.add r.buffered (tlvsSize tlvs) > limits.maxBytes ∨
          (stored c h.fid).1 + tlvs.length > emMaxTlvs then .poison
      else .store tlvs

def accept (r : EmReassembler limits) (i : Fin limits.maxContexts) (h : Header) (payload : Bytes) :
    EmReassembler limits × Result :=
  match r.judge (r.contexts.get i) h payload with
  | .quarantined => (r, .error .invalidInput)
  | .poison => r.poison i
  | .duplicate => (r, .ok none)
  | .store tlvs => r.store i h tlvs

end EmReassembler

/-- The checks of `em_reassembler_feed` on a frame, before it looks for a context. -/
def readHeader (frame : Bytes) : Except Reason Header :=
  if frame.length < 22 ∨ frame.length > 14 + emMaxCmdu then .error .invalidInput
  else if u16At frame 12 ≠ emEtherType then .error .invalidInput
  -- reserved CMDU version; no dispatch
  else if (header frame).version ≠ 0 then .error .unsupportedOperation
  else .ok (header frame)

def cString (s : String) : Bytes := s.toUTF8.data.toList

/-- `ingress` is none for a NULL pointer. -/
def emReassemblerFeed {limits : Limits} (r : EmReassembler limits) (now opened : ℚ) (frame : Bytes)
    (ingress : Option Bytes) : EmReassembler limits × EmReassembler.Result :=
  let r := r.expire now
  match readHeader frame with
  | .error reason => (r, .error reason)
  | .ok h =>
    let name := ingress.getD (cString "offline")
    -- an ingress longer than a context keeps
    if name.length ≥ 32 then (r, .error .invalidInput)
    else
      match r.openContext h name opened with
      | .error reason => (r, .error reason)
      | .ok (r, i) => r.accept i h (frame.drop 22)

end Emosa.C
