import Mathlib.Order.Basic
import Mathlib.Data.List.Basic

/-!
# Tables of slots

A table of slots is searched in increasing order for the first one that is free.  A table that is filled slot by slot
has in each slot what was put there (`foldl_update_of_mem`).
-/

namespace Slots

variable {α : Type*} [Preorder α]

/-- The search of a strictly increasing list finds the least hit. -/
theorem find?_least {l : List α} (hl : l.Pairwise (· < ·)) {free : α → Bool} {a : α} (h : l.find? free = some a) :
    free a = true ∧ ∀ b ∈ l, b < a → free b = false := by
  obtain ⟨ha, before, after, rfl, hbefore⟩ := List.find?_eq_some_iff_append.1 h
  refine ⟨ha, ?_⟩
  intro b hb hlt
  rcases List.mem_append.1 hb with hb | hb
  · simpa using hbefore b hb
  · rcases List.mem_cons.1 hb with rfl | hb
    · exact absurd hlt (lt_irrefl _)
    · have hab : a < b := (List.pairwise_cons.1 (List.pairwise_append.1 hl).2.1).1 b hb
      exact absurd (hab.trans hlt) (lt_irrefl _)

/-! ### Filling a table -/

section Fill

variable {ι κ β : Type*} [DecidableEq κ] {g : ι → κ} {f : ι → β → β} {l : List ι} {m : κ → β}

theorem foldl_update_of_not_mem {k : κ} (hk : k ∉ l.map g) :
    l.foldl (fun m i => Function.update m (g i) (f i (m (g i)))) m k = m k := by
  induction l generalizing m with
  | nil => rfl
  | cons i l ih =>
    rw [List.map_cons, List.mem_cons, not_or] at hk
    rw [List.foldl_cons, ih hk.2, Function.update_of_ne hk.1]

theorem foldl_update_of_mem (hl : (l.map g).Nodup) {i : ι} (hi : i ∈ l) :
    l.foldl (fun m i => Function.update m (g i) (f i (m (g i)))) m (g i) = f i (m (g i)) := by
  induction l generalizing m with
  | nil => cases hi
  | cons j l ih =>
    rw [List.map_cons, List.nodup_cons] at hl
    rw [List.foldl_cons]
    rcases List.mem_cons.1 hi with rfl | hi
    · rw [foldl_update_of_not_mem hl.1, Function.update_self]
    · have hne : g i ≠ g j := fun h => hl.1 (h ▸ List.mem_map_of_mem hi)
      rw [ih hl.2 hi, Function.update_of_ne hne]

end Fill

end Slots
