import Mathlib.Tactic.Common

/-!
# Bytes as masks

A byte is a set of bit numbers.  `bit` asks for one of them, the operations on bytes are those on the bits, and a byte
is its bits (`eq_of_bits`).  A bit is cleared or set through a word, as in `b & ~(1 << n)`, whose higher bits are lost
when the result is stored in a byte (`bit_clear`, `bit_set`).
-/

namespace Bits

/-- Bit `n` of a byte. -/
def bit (b : UInt8) (n : Nat) : Bool := b.toBitVec.getLsbD n

theorem eq_of_bits {a b : UInt8} (h : ∀ n < 8, bit a n = bit b n) : a = b :=
  UInt8.toBitVec_inj.1 (BitVec.eq_of_getLsbD_eq h)

@[simp] theorem bit_and (a b : UInt8) (n : Nat) : bit (a &&& b) n = (bit a n && bit b n) := by
  simp [bit]

@[simp] theorem bit_or (a b : UInt8) (n : Nat) : bit (a ||| b) n = (bit a n || bit b n) := by
  simp [bit]

theorem and_or_right (a b c : UInt8) : (a ||| b) &&& c = (a &&& c) ||| (b &&& c) := by
  refine eq_of_bits fun n _ => ?_
  simp only [bit_and, bit_or, Bool.and_or_distrib_right]

/-- The field under `m` replaced: what lies under a mask apart from it is that of the new value. -/
theorem and_or_of_disjoint {m m' : UInt8} (h : m &&& m' = 0) (a b : UInt8) : ((a &&& m) ||| b) &&& m' = b &&& m' := by
  rw [and_or_right, UInt8.and_assoc, h, UInt8.and_zero, UInt8.zero_or]

/-- And what lies under `m` is the old one, if the new value has nothing there. -/
theorem and_or_of_free {m b : UInt8} (h : b &&& m = 0) (a : UInt8) : ((a &&& m) ||| b) &&& m = a &&& m := by
  rw [and_or_right, h, UInt8.or_zero, UInt8.and_assoc, UInt8.and_self]

theorem or_mask_twice (a m : UInt8) : (a ||| m) ||| m = a ||| m := by
  rw [UInt8.or_assoc, UInt8.or_self]

section Word

variable {n : UInt32} {k : Nat}

/-- The bits of the word `1 << n`. -/
theorem getLsbD_shift (hn : n.toNat < 32) (k : Nat) :
    ((1 : UInt32) <<< n).toBitVec.getLsbD k = decide (k = n.toNat) := by
  have hmod : n.toNat % 32 = n.toNat := Nat.mod_eq_of_lt hn
  have hword : ((1 : UInt32) <<< n).toBitVec.getLsbD k =
      (decide (k < 32) && !decide (k < n.toNat) && decide (k - n.toNat = 0)) := by
    simp [hmod]
  rw [hword]
  by_cases hk : k = n.toNat
  · simp [hk, hn]
  · have hother : ¬(k < 32 ∧ ¬k < n.toNat ∧ k - n.toNat = 0) := by omega
    by_cases hlt : k < n.toNat
    · simp [hk, hlt]
    · simp [hk, hlt, show k - n.toNat ≠ 0 by omega]

theorem bit_toUInt8 (w : UInt32) (hk : k < 8) : bit w.toUInt8 k = w.toBitVec.getLsbD k := by
  simp [bit, hk]

theorem getLsbD_toUInt32 (b : UInt8) (hk : k < 8) : b.toUInt32.toBitVec.getLsbD k = bit b k := by
  simp [bit, show k < 32 by omega]

/-- `b & ~(1 << n)`. -/
theorem bit_clear (hn : n.toNat < 32) (b : UInt8) (hk : k < 8) :
    bit (b.toUInt32 &&& ~~~(1 <<< n)).toUInt8 k = (bit b k && !decide (k = n.toNat)) := by
  rw [bit_toUInt8 _ hk, UInt32.toBitVec_and, BitVec.getLsbD_and, getLsbD_toUInt32 b hk, UInt32.toBitVec_not,
    BitVec.getLsbD_not, getLsbD_shift hn]
  simp [show k < 32 by omega]

/-- `b | (1 << n)`. -/
theorem bit_set (hn : n.toNat < 32) (b : UInt8) (hk : k < 8) :
    bit (b.toUInt32 ||| (1 <<< n)).toUInt8 k = (bit b k || decide (k = n.toNat)) := by
  rw [bit_toUInt8 _ hk, UInt32.toBitVec_or, BitVec.getLsbD_or, getLsbD_toUInt32 b hk, getLsbD_shift hn]

end Word

end Bits
