import Mathlib.Algebra.Order.Ring.Nat
import Mathlib.Tactic.Common
import Mathlib.Tactic.Ring

/-!
# Packed bit fields

A record of bit fields, the first one in the lowest bits (`pack`).  What another reader of the same word finds at an
offset are the fields that stand there (`field_slice`), however it groups them.
-/

namespace BitFields

/-- A field: its width and its value. -/
abbrev Field := Σ w : Nat, BitVec w

def width : List Field → Nat
  | [] => 0
  | f :: fs => f.1 + width fs

def pack : List Field → Nat
  | [] => 0
  | f :: fs => f.2.toNat + 2 ^ f.1 * pack fs

/-- The `w` bits of a word from `offset` on. -/
def field (v offset w : Nat) : Nat := v / 2 ^ offset % 2 ^ w

variable (fs gs hs : List Field)

theorem pack_append : pack (fs ++ gs) = pack fs + 2 ^ width fs * pack gs := by
  induction fs with
  | nil => simp [pack, width]
  | cons f fs ih =>
    rw [List.cons_append, pack, ih, pack, width, pow_add]
    ring

theorem pack_lt : pack fs < 2 ^ width fs := by
  induction fs with
  | nil => decide
  | cons f fs ih =>
    have hf := f.2.isLt
    rw [pack, width, pow_add]
    calc f.2.toNat + 2 ^ f.1 * pack fs < 2 ^ f.1 + 2 ^ f.1 * pack fs := Nat.add_lt_add_right hf _
      _ = 2 ^ f.1 * (pack fs + 1) := by ring
      _ ≤ 2 ^ f.1 * 2 ^ width fs := Nat.mul_le_mul_left _ ih

/-- The bits between two groups of fields. -/
theorem field_pack : field (pack (fs ++ gs ++ hs)) (width fs) (width gs) = pack gs := by
  have hpos : 0 < 2 ^ width fs := Nat.two_pow_pos _
  rw [field, List.append_assoc, pack_append, pack_append, Nat.add_mul_div_left _ _ hpos, Nat.div_eq_of_lt (pack_lt fs),
    Nat.zero_add, Nat.add_mul_mod_self_left, Nat.mod_eq_of_lt (pack_lt gs)]

/-- The bits of the `n` fields behind the first `i`. -/
theorem field_slice (offset w i n : Nat) (hoffset : width (fs.take i) = offset)
    (hw : width ((fs.drop i).take n) = w) : field (pack fs) offset w = pack ((fs.drop i).take n) := by
  have hsplit : fs.take i ++ (fs.drop i).take n ++ (fs.drop i).drop n = fs := by
    rw [List.append_assoc, List.take_append_drop, List.take_append_drop]
  have hfield := field_pack (fs.take i) ((fs.drop i).take n) ((fs.drop i).drop n)
  rwa [hsplit, hoffset, hw] at hfield

/-- The bits of one field. -/
theorem field_at (offset i : Nat) {w : Nat} {x : BitVec w} (hi : fs[i]? = some ⟨w, x⟩)
    (hoffset : width (fs.take i) = offset) : field (pack fs) offset w = x.toNat := by
  obtain ⟨hlt, hget⟩ := List.getElem?_eq_some_iff.1 hi
  have hslice : (fs.drop i).take 1 = [⟨w, x⟩] := by
    rw [List.drop_eq_getElem_cons hlt, List.take_succ_cons, List.take_zero, hget]
  have hfield := field_slice fs offset w i 1 hoffset (by rw [hslice]; rfl)
  rw [hfield, hslice]
  simp [pack]

end BitFields
