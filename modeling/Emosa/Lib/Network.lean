import Mathlib.Algebra.Order.Group.Nat
import Mathlib.Algebra.Order.Ring.Nat
import Mathlib.Tactic.Common

/-!
# Emosa.Lib.Network

IPv4 networks. A network is the multiple of its size it starts at, so one with host bits set cannot
be built; an address is a number below `2^32`.

`overlaps` is the test of Python's `ipaddress`: an end of the one lies in the other. `overlaps_iff`
says that this is a common address, and `overlaps_eq_masked` that it is the comparison of the two
addresses under the shorter mask.
-/

namespace Emosa

structure Network where
  base : Nat
  len : Nat
  len_le : len ≤ 32
  base_lt : base < 2 ^ 32
  aligned : 2 ^ (32 - len) ∣ base
  deriving DecidableEq

namespace Network

variable {a b : Network} {x : Nat}

def size (a : Network) : Nat := 2 ^ (32 - a.len)

def last (a : Network) : Nat := a.base + (a.size - 1)

def contains (a : Network) (x : Nat) : Bool := x / a.size * a.size == a.base

def overlaps (a b : Network) : Bool :=
  b.contains a.base || b.contains a.last || a.contains b.base || a.contains b.last

def maskedEq (a b : Network) : Bool :=
  let shift := 2 ^ (32 - min a.len b.len)
  a.base / shift == b.base / shift

theorem size_pos (a : Network) : 0 < a.size := Nat.two_pow_pos _

theorem contains_iff : a.contains x = true ↔ x / a.size = a.base / a.size := by
  rw [contains, beq_iff_eq]
  constructor
  · intro h
    rw [← h, Nat.mul_div_cancel _ a.size_pos]
  · intro h
    rw [h]
    exact Nat.div_mul_cancel a.aligned

theorem contains_base (a : Network) : a.contains a.base = true := contains_iff.mpr rfl

theorem contains_last (a : Network) : a.contains a.last = true := by
  obtain ⟨k, hk⟩ := a.aligned
  have hlt : a.size - 1 < a.size := Nat.sub_lt a.size_pos Nat.one_pos
  rw [contains_iff, last, show a.base = a.size * k from hk, Nat.mul_add_div a.size_pos,
    Nat.div_eq_of_lt hlt, Nat.mul_div_cancel_left _ a.size_pos, Nat.add_zero]

/-- Of two networks the longer lies in the shorter as a whole, or outside. -/
theorem contains_of_le (hle : a.len ≤ b.len) (hx : b.contains x = true) :
    a.contains x = true ↔ a.base / a.size = b.base / a.size := by
  have hsize : a.size = b.size * 2 ^ (b.len - a.len) := by
    have hlen := b.len_le
    rw [size, size, ← pow_add]
    congr 1
    omega
  have hdiv : x / a.size = b.base / a.size := by
    rw [hsize, ← Nat.div_div_eq_div_mul, ← Nat.div_div_eq_div_mul, contains_iff.mp hx]
  rw [contains_iff, hdiv, eq_comm]

theorem overlaps_comm (a b : Network) : a.overlaps b = b.overlaps a := by
  simp only [overlaps]
  cases b.contains a.base <;> cases b.contains a.last <;> cases a.contains b.base <;>
    cases a.contains b.last <;> rfl

theorem maskedEq_comm (a b : Network) : a.maskedEq b = b.maskedEq a := by
  rw [maskedEq, maskedEq, min_comm, Bool.beq_comm]

theorem exists_of_overlaps (h : a.overlaps b = true) :
    ∃ x, a.contains x = true ∧ b.contains x = true := by
  simp only [overlaps, Bool.or_eq_true] at h
  rcases h with ((h | h) | h) | h
  · exact ⟨_, contains_base a, h⟩
  · exact ⟨_, contains_last a, h⟩
  · exact ⟨_, h, contains_base b⟩
  · exact ⟨_, h, contains_last b⟩

theorem maskedEq_iff_of_le (hle : a.len ≤ b.len) :
    a.maskedEq b = true ↔ ∃ x, a.contains x = true ∧ b.contains x = true := by
  have hmask : a.maskedEq b = true ↔ a.base / a.size = b.base / a.size := by
    rw [maskedEq, beq_iff_eq, min_eq_left hle, size]
  rw [hmask]
  constructor
  · exact fun h => ⟨b.base, (contains_of_le hle (contains_base b)).mpr h, contains_base b⟩
  · rintro ⟨x, ha, hb⟩
    exact (contains_of_le hle hb).mp ha

theorem maskedEq_iff : a.maskedEq b = true ↔ ∃ x, a.contains x = true ∧ b.contains x = true := by
  rcases Nat.le_total a.len b.len with hle | hle
  · exact maskedEq_iff_of_le hle
  · rw [maskedEq_comm, maskedEq_iff_of_le hle]
    simp only [and_comm]

theorem overlaps_iff_of_le (hle : a.len ≤ b.len) :
    a.overlaps b = true ↔ ∃ x, a.contains x = true ∧ b.contains x = true := by
  refine ⟨exists_of_overlaps, ?_⟩
  rintro ⟨x, ha, hb⟩
  have hbase : a.contains b.base = true :=
    (contains_of_le hle (contains_base b)).mpr ((contains_of_le hle hb).mp ha)
  simp [overlaps, hbase]

/-- Two networks overlap when they have an address in common. -/
theorem overlaps_iff : a.overlaps b = true ↔ ∃ x, a.contains x = true ∧ b.contains x = true := by
  rcases Nat.le_total a.len b.len with hle | hle
  · exact overlaps_iff_of_le hle
  · rw [overlaps_comm, overlaps_iff_of_le hle]
    simp only [and_comm]

theorem overlaps_eq_masked (a b : Network) : a.overlaps b = a.maskedEq b :=
  Bool.eq_iff_iff.mpr (overlaps_iff.trans maskedEq_iff.symm)

def Disjoint (a b : Network) : Prop := ∀ x, a.contains x = true → b.contains x = false

theorem disjoint_iff : Disjoint a b ↔ a.overlaps b = false := by
  rw [← Bool.not_eq_true, overlaps_iff]
  constructor
  · rintro h ⟨x, ha, hb⟩
    rw [h x ha] at hb
    cases hb
  · exact fun h x ha => Bool.not_eq_true _ ▸ fun hb => h ⟨x, ha, hb⟩

end Network

end Emosa
