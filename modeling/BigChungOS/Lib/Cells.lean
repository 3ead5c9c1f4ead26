import BigChungOS.Lib.Memory

/-!
# Memories that record their accesses

`Cells` is a memory with the addresses that have been read and written, and `Within c c' lo n` says that from `c` to
`c'` these were among the `n` cells from `lo` on.

A block is reversed in place by swaps of its ends, from the outside in: `swapEnds m lo n k` is the memory after `k` of
them (`swapEnds_succ`), and after half of the block a list that was in memory is there in reverse (`swapEnds_storeAt`).
-/

namespace Memory

variable {β : Type*}

structure Cells (β : Type*) where
  mem : Nat → β
  loads : List Nat
  stores : List Nat

/-- A memory before the first access. -/
def Cells.fresh (m : Nat → β) : Cells β := ⟨m, [], []⟩

def Cells.load (c : Cells β) (a : Nat) : β × Cells β := (c.mem a, { c with loads := a :: c.loads })

def Cells.store (c : Cells β) (a : Nat) (b : β) : Cells β :=
  { c with mem := Function.update c.mem a b, stores := a :: c.stores }

/-- What has been read and written from `c` to `c'` is in the `n` cells from `lo` on. -/
structure Within (c c' : Cells β) (lo n : Nat) : Prop where
  loads : ∀ a ∈ c'.loads, a ∈ c.loads ∨ (lo ≤ a ∧ a < lo + n)
  stores : ∀ a ∈ c'.stores, a ∈ c.stores ∨ (lo ≤ a ∧ a < lo + n)

section Within

variable {c c' c'' : Cells β} {lo n : Nat}

theorem Within.refl (c : Cells β) (lo n : Nat) : Within c c lo n := ⟨fun _ => .inl, fun _ => .inl⟩

theorem Within.trans (h : Within c c' lo n) (h' : Within c' c'' lo n) : Within c c'' lo n where
  loads a ha := (h'.loads a ha).elim (h.loads a) .inr
  stores a ha := (h'.stores a ha).elim (h.stores a) .inr

theorem Within.mono {lo' n' : Nat} (h : Within c c' lo n) (hlo : lo' ≤ lo) (hn : lo + n ≤ lo' + n') :
    Within c c' lo' n' where
  loads a ha := (h.loads a ha).imp_right fun _ => by omega
  stores a ha := (h.stores a ha).imp_right fun _ => by omega

theorem within_load (c : Cells β) {a : Nat} (h : lo ≤ a ∧ a < lo + n) : Within c (c.load a).2 lo n where
  loads _ hx := (List.mem_cons.1 hx).elim (fun heq => .inr (heq ▸ h)) .inl
  stores _ := .inl

theorem within_store (c : Cells β) {a : Nat} (b : β) (h : lo ≤ a ∧ a < lo + n) : Within c (c.store a b) lo n where
  loads _ := .inl
  stores _ hx := (List.mem_cons.1 hx).elim (fun heq => .inr (heq ▸ h)) .inl

/-- From the first access on. -/
theorem Within.fresh {m : Nat → β} (h : Within (.fresh m) c' lo n) :
    (∀ a ∈ c'.loads, lo ≤ a ∧ a < lo + n) ∧ ∀ a ∈ c'.stores, lo ≤ a ∧ a < lo + n :=
  ⟨fun a ha => (h.loads a ha).resolve_left List.not_mem_nil, fun a ha => (h.stores a ha).resolve_left List.not_mem_nil⟩

end Within

/-! ### Reversal in place -/

/-- The first `k` of the `n` cells from `lo` on are exchanged with the last `k`, in reverse. -/
def swapEnds (m : Nat → β) (lo n k : Nat) : Nat → β :=
  fun a => if lo ≤ a ∧ a < lo + n ∧ (a < lo + k ∨ lo + n ≤ a + k) then m (lo + (n - 1 - (a - lo))) else m a

section SwapEnds

variable (m : Nat → β) {lo n k : Nat}

theorem swapEnds_zero (lo n : Nat) : swapEnds m lo n 0 = m := by
  funext a
  exact if_neg (by omega)

/-- The next two cells are exchanged. -/
theorem swapEnds_succ (h : k + 1 < n - k) :
    swapEnds m lo n (k + 1) =
      Function.update (Function.update (swapEnds m lo n k) (lo + (n - 1 - k)) (swapEnds m lo n k (lo + k)))
        (lo + k) (swapEnds m lo n k (lo + (n - 1 - k))) := by
  have hleft : swapEnds m lo n k (lo + k) = m (lo + k) := if_neg (by omega)
  have hright : swapEnds m lo n k (lo + (n - 1 - k)) = m (lo + (n - 1 - k)) := if_neg (by omega)
  rw [hleft, hright]
  funext a
  by_cases hfirst : a = lo + k
  · subst hfirst
    rw [Function.update_self, swapEnds, if_pos (by omega), Nat.add_sub_cancel_left]
  · rw [Function.update_of_ne hfirst]
    by_cases hlast : a = lo + (n - 1 - k)
    · subst hlast
      have hmirror : n - 1 - (lo + (n - 1 - k) - lo) = k := by omega
      rw [Function.update_self, swapEnds, if_pos (by omega), hmirror]
    · rw [Function.update_of_ne hlast, swapEnds, swapEnds]
      by_cases hin : lo ≤ a ∧ a < lo + n ∧ (a < lo + k ∨ lo + n ≤ a + k)
      · rw [if_pos hin, if_pos (by omega)]
      · rw [if_neg hin, if_neg (by omega)]

/-- What a list leaves of a cell depends on that cell only. -/
theorem storeAt_congr {m m' : Nat → β} {a : Nat} (h : m a = m' a) (lo : Nat) (l : List β) :
    storeAt m lo l a = storeAt m' lo l a := by
  unfold storeAt
  rw [h]

/-- The second part of a list may be stored first. -/
theorem storeAt_front (lo : Nat) (l l' : List β) :
    storeAt (storeAt m (lo + l.length) l') lo l = storeAt m lo (l ++ l') := by
  rw [storeAt_append]
  funext a
  by_cases ha : lo + l.length ≤ a
  · have hbehind : ¬(lo ≤ a ∧ a < lo + l.length) := by omega
    rw [sameOutside_storeAt _ lo l a hbehind]
    exact storeAt_congr (sameOutside_storeAt m lo l a hbehind).symm _ _
  · have hbefore : ¬(lo + l.length ≤ a ∧ a < lo + l.length + l'.length) := by omega
    rw [sameOutside_storeAt _ (lo + l.length) l' a hbefore]
    exact storeAt_congr (sameOutside_storeAt m (lo + l.length) l' a hbefore) _ _

/-- Once the ends have met, the list is reversed; its middle, if there is one, has stayed. -/
theorem swapEnds_storeAt (l l' : List β) (h : l.length ≤ 2 * k + 1) :
    swapEnds (storeAt m lo (l ++ l')) lo l.length k = storeAt m lo (l.reverse ++ l') := by
  funext a
  by_cases hin : lo ≤ a ∧ a < lo + l.length
  · obtain ⟨i, rfl⟩ : ∃ i, a = lo + i := ⟨a - lo, by omega⟩
    have hi : i < l.length := by omega
    have hmirror : storeAt m lo (l ++ l') (lo + (l.length - 1 - i)) = l[l.length - 1 - i] := by
      rw [storeAt_of_mem _ _ (by rw [List.length_append]; omega), List.getElem_append_left (by omega)]
    have hreverse : storeAt m lo (l.reverse ++ l') (lo + i) = l[l.length - 1 - i] := by
      rw [storeAt_of_mem _ _ (by rw [List.length_append, List.length_reverse]; omega),
        List.getElem_append_left (by rw [List.length_reverse]; omega), List.getElem_reverse]
    rw [hreverse, ← hmirror, swapEnds, Nat.add_sub_cancel_left]
    by_cases hends : lo + i < lo + k ∨ lo + l.length ≤ lo + i + k
    · rw [if_pos ⟨by omega, by omega, hends⟩]
    · have hmiddle : l.length - 1 - i = i := by omega
      rw [if_neg (by omega), hmiddle]
  · have hbefore : storeAt m lo l a = m a := sameOutside_storeAt m lo l a hin
    have hafter : storeAt m lo l.reverse a = m a :=
      sameOutside_storeAt m lo l.reverse a (by rwa [List.length_reverse])
    rw [swapEnds, if_neg (by omega), storeAt_append, storeAt_append, List.length_reverse]
    exact storeAt_congr (hbefore.trans hafter.symm) _ _

end SwapEnds

end Memory
