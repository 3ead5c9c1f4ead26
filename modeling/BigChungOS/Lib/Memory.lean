import Mathlib.Data.List.GetD
import Mathlib.Data.List.Induction
import Mathlib.Tactic.Common

/-!
# Byte memories and 32-bit integers

A memory is a function from addresses to bytes.  `blit` moves a block (reading the whole source first), which is also
what copying cell by cell does in the right direction (`copyUp_eq_blit`, `copyDown_eq_blit`), and a block moved in two
parts (`blit_append`); `fill` sets the cells of a block, `storeAt` stores the elements of a list, `span` reads them
(`span_storeAt`), and `SameOutside m m' lo n` says that `m'` differs from `m` at most in the `n` bytes from `lo` on.
A list put together from blocks of `n` elements has its `j`-th element in block `j / n` (`getElem?_blocks`).
A 32-bit word is stored with its lowest byte first (`storeAt_wordBytes`).
The conversions `toInt32` and `toUInt32` are the ones a C program applies to 32-bit integers: both reduce modulo `2^32`,
and on the range of the target type they are the identity.
-/

namespace Memory

variable {β : Type*}

/-- Copy the `n` cells from `src` on to the cells from `dst` on; the source is read before anything is stored. -/
def blit (m : Nat → β) (dst src n : Nat) : Nat → β :=
  fun a => if dst ≤ a ∧ a < dst + n then m (src + (a - dst)) else m a

/-- `m'` differs from `m` at most in the `n` cells from `lo` on. -/
def SameOutside (m m' : Nat → β) (lo n : Nat) : Prop :=
  ∀ a, ¬(lo ≤ a ∧ a < lo + n) → m' a = m a

theorem SameOutside.refl (m : Nat → β) (lo n : Nat) : SameOutside m m lo n :=
  fun _ _ => rfl

theorem SameOutside.trans {m m' m'' : Nat → β} {lo n : Nat} (h₁ : SameOutside m m' lo n)
    (h₂ : SameOutside m' m'' lo n) : SameOutside m m'' lo n :=
  fun a ha => (h₂ a ha).trans (h₁ a ha)

theorem SameOutside.mono {m m' : Nat → β} {lo n lo' n' : Nat} (h : SameOutside m m' lo n)
    (hlo : lo' ≤ lo) (hn : lo + n ≤ lo' + n') : SameOutside m m' lo' n' :=
  fun a ha => h a (by omega)

theorem sameOutside_update {m : Nat → β} {lo n a : Nat} {b : β} (h₁ : lo ≤ a) (h₂ : a < lo + n) :
    SameOutside m (Function.update m a b) lo n := by
  intro x hx
  have hne : x ≠ a := by omega
  simp [Function.update, hne]

theorem sameOutside_blit (m : Nat → β) (dst src n : Nat) : SameOutside m (blit m dst src n) dst n := by
  intro a ha
  simp [blit, ha]

theorem blit_of_mem {m : Nat → β} {dst src n i : Nat} (hi : i < n) :
    blit m dst src n (dst + i) = m (src + i) := by
  simp [blit, hi]

/-- A block is moved in two parts: what the second one takes must not lie where the first one has been put. -/
theorem blit_append {m : Nat → β} {dst src k j : Nat}
    (h : ∀ i < j, ¬(dst ≤ src + k + i ∧ src + k + i < dst + k)) :
    blit (blit m dst src k) (dst + k) (src + k) j = blit m dst src (k + j) := by
  funext a
  by_cases hsecond : dst + k ≤ a ∧ a < dst + k + j
  · obtain ⟨i, rfl⟩ : ∃ i, a = dst + k + i := ⟨a - (dst + k), by omega⟩
    have hsource : src + (dst + k + i - dst) = src + k + i := by omega
    rw [blit_of_mem (by omega), blit, if_neg (h i (by omega)), blit, if_pos (by omega), hsource]
  · rw [blit, if_neg hsecond, blit, blit]
    by_cases hfirst : dst ≤ a ∧ a < dst + k
    · rw [if_pos hfirst, if_pos (by omega)]
    · rw [if_neg hfirst, if_neg (by omega)]

/-- Set the `n` cells from `lo` on. -/
def fill (m : Nat → β) (lo n : Nat) (b : β) : Nat → β :=
  fun a => if lo ≤ a ∧ a < lo + n then b else m a

theorem fill_zero (m : Nat → β) (lo : Nat) (b : β) : fill m lo 0 b = m := by
  funext a
  exact if_neg (by omega)

theorem blit_zero (m : Nat → β) (dst src : Nat) : blit m dst src 0 = m := by
  funext a
  exact if_neg (by omega)

theorem update_eq_fill (m : Nat → β) (lo : Nat) (b : β) : Function.update m lo b = fill m lo 1 b := by
  funext a
  by_cases ha : a = lo
  · rw [ha, Function.update_self, fill, if_pos (by omega)]
  · rw [Function.update_of_ne ha, fill, if_neg (by omega)]

theorem update_eq_blit (m : Nat → β) (dst src : Nat) : Function.update m dst (m src) = blit m dst src 1 := by
  funext a
  by_cases ha : a = dst
  · rw [ha, Function.update_self, blit, if_pos (by omega), Nat.sub_self, Nat.add_zero]
  · rw [Function.update_of_ne ha, blit, if_neg (by omega)]

theorem fill_append (m : Nat → β) (lo k j : Nat) (b : β) : fill (fill m lo k b) (lo + k) j b = fill m lo (k + j) b := by
  funext a
  by_cases hsecond : lo + k ≤ a ∧ a < lo + k + j
  · rw [fill, if_pos hsecond, fill, if_pos (by omega)]
  · rw [fill, if_neg hsecond, fill, fill]
    by_cases hfirst : lo ≤ a ∧ a < lo + k
    · rw [if_pos hfirst, if_pos (by omega)]
    · rw [if_neg hfirst, if_neg (by omega)]

/-- Copy `n` cells one after the other, from the lowest up. -/
def copyUp (m : Nat → β) (dst src : Nat) : Nat → Nat → β
  | 0 => m
  | n + 1 => copyUp (Function.update m dst (m src)) (dst + 1) (src + 1) n

/-- Copy `n` cells one after the other, from the highest down. -/
def copyDown (m : Nat → β) (dst src : Nat) : Nat → Nat → β
  | 0 => m
  | n + 1 => copyDown (Function.update m (dst + n) (m (src + n))) dst src n

/-- Upwards, a source that is not below the destination is read before it is overwritten. -/
theorem copyUp_eq_blit {m : Nat → β} {dst src : Nat} (h : dst ≤ src) (n : Nat) :
    copyUp m dst src n = blit m dst src n := by
  induction n generalizing m dst src with
  | zero =>
    funext a
    exact (if_neg (by omega)).symm
  | succ n ih =>
    rw [copyUp, ih (Nat.succ_le_succ h)]
    funext a
    by_cases hfirst : a = dst
    · subst hfirst
      rw [blit, blit, if_neg (by omega), if_pos (by omega), Function.update_self, Nat.sub_self, Nat.add_zero]
    by_cases hin : dst + 1 ≤ a ∧ a < dst + 1 + n
    · have hsource : src + 1 + (a - (dst + 1)) = src + (a - dst) := by omega
      have hlater : src + (a - dst) ≠ dst := by omega
      rw [blit, blit, if_pos hin, if_pos (by omega), hsource, Function.update_of_ne hlater]
    · rw [blit, blit, if_neg hin, if_neg (by omega), Function.update_of_ne hfirst]

/-- Downwards, a source that is not above the destination is read before it is overwritten. -/
theorem copyDown_eq_blit {m : Nat → β} {dst src : Nat} (h : src ≤ dst) (n : Nat) :
    copyDown m dst src n = blit m dst src n := by
  induction n generalizing m with
  | zero =>
    funext a
    exact (if_neg (by omega)).symm
  | succ n ih =>
    rw [copyDown, ih]
    funext a
    by_cases hlast : a = dst + n
    · subst hlast
      rw [blit, blit, if_neg (by omega), if_pos (by omega), Function.update_self, Nat.add_sub_cancel_left]
    by_cases hin : dst ≤ a ∧ a < dst + n
    · have hearlier : src + (a - dst) ≠ dst + n := by omega
      rw [blit, blit, if_pos hin, if_pos (by omega), Function.update_of_ne hearlier]
    · rw [blit, blit, if_neg hin, if_neg (by omega), Function.update_of_ne hlast]

/-! ### Lists in memory -/

/-- Store the elements of `l` from `lo` on. -/
def storeAt (m : Nat → β) (lo : Nat) (l : List β) : Nat → β :=
  fun a => if lo ≤ a then l.getD (a - lo) (m a) else m a

@[simp] theorem storeAt_nil (m : Nat → β) (lo : Nat) : storeAt m lo [] = m := by
  funext a
  simp [storeAt]

theorem storeAt_of_mem (m : Nat → β) (lo : Nat) {l : List β} {i : Nat} (hi : i < l.length) :
    storeAt m lo l (lo + i) = l[i] := by
  simp [storeAt, hi]

theorem sameOutside_storeAt (m : Nat → β) (lo : Nat) (l : List β) : SameOutside m (storeAt m lo l) lo l.length := by
  intro a ha
  unfold storeAt
  split
  · exact List.getD_eq_default _ _ (by omega)
  · rfl

/-- The first element is stored first. -/
theorem storeAt_cons (m : Nat → β) (lo : Nat) (x : β) (l : List β) :
    storeAt m lo (x :: l) = storeAt (Function.update m lo x) (lo + 1) l := by
  funext a
  rcases Nat.lt_trichotomy a lo with hlt | rfl | hgt
  · have hlo : ¬lo ≤ a := by omega
    have hlo' : ¬lo + 1 ≤ a := by omega
    have hne : a ≠ lo := by omega
    simp [storeAt, hlo, hlo', hne]
  · have hlo : ¬a + 1 ≤ a := by omega
    simp [storeAt, hlo]
  · obtain ⟨i, rfl⟩ : ∃ i, a = lo + (i + 1) := ⟨a - (lo + 1), by omega⟩
    have hsub : lo + (i + 1) - (lo + 1) = i := by omega
    have hlo : lo + 1 ≤ lo + (i + 1) := by omega
    simp [storeAt, hsub, hlo]

theorem storeAt_append (m : Nat → β) (lo : Nat) (l l' : List β) :
    storeAt m lo (l ++ l') = storeAt (storeAt m lo l) (lo + l.length) l' := by
  induction l generalizing m lo with
  | nil => simp
  | cons x l ih =>
    rw [List.cons_append, storeAt_cons, ih, ← storeAt_cons, List.length_cons, Nat.add_right_comm, Nat.add_assoc]

/-- One more element. -/
theorem storeAt_concat (m : Nat → β) (lo : Nat) (l : List β) (b : β) :
    storeAt m lo (l ++ [b]) = Function.update (storeAt m lo l) (lo + l.length) b := by
  rw [storeAt_append, storeAt_cons, storeAt_nil]

/-- The `n` cells from `lo` on. -/
def span (m : Nat → β) (lo n : Nat) : List β := (List.range n).map fun i => m (lo + i)

section Span

variable {m m' : Nat → β} {lo n k : Nat} {l : List β}

@[simp] theorem length_span (m : Nat → β) (lo n : Nat) : (span m lo n).length = n := by simp [span]

@[simp] theorem span_zero (m : Nat → β) (lo : Nat) : span m lo 0 = [] := rfl

theorem getElem_span {i : Nat} (hi : i < (span m lo n).length) : (span m lo n)[i] = m (lo + i) := by simp [span]

theorem span_congr (h : ∀ i < n, m' (k + i) = m (lo + i)) : span m' k n = span m lo n :=
  List.map_congr_left fun i hi => h i (List.mem_range.1 hi)

theorem span_add (m : Nat → β) (lo n k : Nat) : span m lo (n + k) = span m lo n ++ span m (lo + n) k := by
  rw [span, List.range_add, List.map_append, List.map_map]
  refine congrArg _ (List.map_congr_left fun i _ => ?_)
  rw [Nat.add_assoc]
  rfl

theorem span_storeAt (m : Nat → β) (lo : Nat) (l : List β) : span (storeAt m lo l) lo l.length = l := by
  refine List.ext_getElem (length_span _ _ _) fun i hi hi' => ?_
  rw [getElem_span, storeAt_of_mem _ _ hi']

/-- The cells that are left alone. -/
theorem span_sameOutside (h : SameOutside m m' k l.length) (hn : lo + n ≤ k) : span m' lo n = span m lo n :=
  span_congr fun i hi => h (lo + i) (by omega)

end Span

theorem length_blocks {n : Nat} {f : Nat → List β} (hf : ∀ b, (f b).length = n) (k : Nat) :
    ((List.range k).flatMap f).length = n * k := by
  induction k with
  | zero => simp
  | succ k ih => rw [List.range_succ, List.flatMap_append, List.length_append, ih, List.flatMap_singleton, hf,
      Nat.mul_succ]

/-- An element of a list put together from blocks. -/
theorem getElem?_blocks {n : Nat} {f : Nat → List β} (hf : ∀ b, (f b).length = n) {k j : Nat} (hj : j < n * k) :
    ((List.range k).flatMap f)[j]? = (f (j / n))[j % n]? := by
  induction k with
  | zero => omega
  | succ k ih =>
    rw [List.range_succ, List.flatMap_append, List.flatMap_singleton]
    by_cases hlt : j < n * k
    · rw [List.getElem?_append_left (by rw [length_blocks hf]; exact hlt), ih hlt]
    · have hn : 0 < n := Nat.pos_of_ne_zero (by rintro rfl; simp at hj)
      obtain ⟨i, rfl⟩ : ∃ i, j = n * k + i := ⟨j - n * k, by omega⟩
      have hi : i < n := by rw [Nat.mul_succ] at hj; omega
      have hdiv : (n * k + i) / n = k := by rw [Nat.mul_add_div hn, Nat.div_eq_of_lt hi, Nat.add_zero]
      have hmod : (n * k + i) % n = i := by rw [Nat.mul_add_mod, Nat.mod_eq_of_lt hi]
      rw [List.getElem?_append_right (by rw [length_blocks hf]; omega), length_blocks hf, hdiv, hmod,
        Nat.add_sub_cancel_left]

/-! ### Words in memory -/

/-- The four bytes of a 32-bit word, the lowest first. -/
def wordBytes (x : Nat) : List UInt8 := [x, x / 0x100, x / 0x10000, x / 0x1000000].map UInt8.ofNat

theorem storeAt_wordBytes (m : Nat → UInt8) (lo x : Nat) :
    (storeAt m lo (wordBytes x) lo).toNat = x % 256 ∧
      (storeAt m lo (wordBytes x) (lo + 1)).toNat = x / 0x100 % 256 ∧
      (storeAt m lo (wordBytes x) (lo + 2)).toNat = x / 0x10000 % 256 ∧
      (storeAt m lo (wordBytes x) (lo + 3)).toNat = x / 0x1000000 % 256 := by
  have hbyte : ∀ (i : Nat) (hi : i < (wordBytes x).length), storeAt m lo (wordBytes x) (lo + i) = (wordBytes x)[i] :=
    fun i hi => storeAt_of_mem m lo hi
  have hlen : (wordBytes x).length = 4 := rfl
  refine ⟨?_, ?_, ?_, ?_⟩
  · exact congrArg UInt8.toNat (hbyte 0 (by omega))
  · exact congrArg UInt8.toNat (hbyte 1 (by omega))
  · exact congrArg UInt8.toNat (hbyte 2 (by omega))
  · exact congrArg UInt8.toNat (hbyte 3 (by omega))

/-! ### 32-bit integers -/

/-- The value of `x` after a conversion to `int32_t`. -/
def toInt32 (x : Int) : Int := (x + 2147483648) % 4294967296 - 2147483648

/-- The value of `x` after a conversion to `uint32_t`. -/
def toUInt32 (x : Int) : Nat := (x % 4294967296).toNat

theorem toInt32_of_mem {x : Int} (h₁ : -2147483648 ≤ x) (h₂ : x < 2147483648) : toInt32 x = x := by
  unfold toInt32; omega

theorem toUInt32_of_mem {x : Nat} (h : x < 4294967296) : toUInt32 x = x := by
  unfold toUInt32; omega

theorem toInt32_lt (x : Int) : -2147483648 ≤ toInt32 x ∧ toInt32 x < 2147483648 := by
  unfold toInt32; omega

end Memory
