import Mathlib.Data.List.Nodup
import Mathlib.Data.Set.Insert
import Mathlib.Logic.Function.Basic

/-!
# Stacks that share out a set

A family of stacks, written with the top last, shares out a set when it holds every element of the set once and
nothing else (`Partition`).  A new element may be pushed on any stack; a pop takes the right element out of the set
only if that element is the one on top.
-/

namespace Stacks

variable {τ α : Type*} [DecidableEq τ]

/-- The stacks hold every element of `used` exactly once, and nothing else. -/
structure Partition (stack : τ → List α) (used : Set α) : Prop where
  nodup : ∀ t, (stack t).Nodup
  disjoint : ∀ t u a, a ∈ stack t → a ∈ stack u → t = u
  mem_used : ∀ a, a ∈ used ↔ ∃ t, a ∈ stack t

variable {stack : τ → List α} {used : Set α} {t : τ} {a b : α}

private theorem mem_push {u : τ} {c : α} :
    c ∈ Function.update stack t (stack t ++ [a]) u ↔ c ∈ stack u ∨ (c = a ∧ u = t) := by
  by_cases hu : u = t
  · subst hu; simp
  · simp [hu]

/-- A new element may be pushed on any stack. -/
theorem Partition.push (h : Partition stack used) (ha : a ∉ used) :
    Partition (Function.update stack t (stack t ++ [a])) (insert a used) := by
  have hnew : ∀ u, a ∉ stack u := fun u hu => ha ((h.mem_used a).2 ⟨u, hu⟩)
  refine ⟨?_, ?_, ?_⟩
  · intro u
    by_cases hu : u = t
    · subst hu
      have hnodup : (stack u ++ [a]).Nodup := List.nodup_append.2 ⟨h.nodup u, by simp, by
        rintro x hx y hy rfl
        rw [List.mem_singleton.1 hy] at hx
        exact hnew u hx⟩
      simpa using hnodup
    · simpa [hu] using h.nodup u
  · intro u v c hu hv
    rw [mem_push] at hu hv
    rcases hu with hu | ⟨rfl, rfl⟩
    · rcases hv with hv | ⟨rfl, rfl⟩
      · exact h.disjoint u v c hu hv
      · exact absurd hu (hnew u)
    · rcases hv with hv | ⟨-, rfl⟩
      · exact absurd hv (hnew v)
      · rfl
  · intro c
    simp only [Set.mem_insert_iff, mem_push, h.mem_used c]
    constructor
    · rintro (rfl | ⟨u, hu⟩)
      · exact ⟨t, .inr ⟨rfl, rfl⟩⟩
      · exact ⟨u, .inl hu⟩
    · rintro ⟨u, hu | ⟨rfl, -⟩⟩
      · exact .inr ⟨u, hu⟩
      · exact .inl rfl

/-- Popping `t` and taking `a` out of the set keeps the partition exactly when `a` was on top of `t`. -/
theorem Partition.pop_iff {l : List α} (h : Partition stack used) (hl : stack t = l ++ [b]) :
    Partition (Function.update stack t l) (used \ {a}) ↔ a = b := by
  have hnodup := h.nodup t
  rw [hl, List.nodup_append] at hnodup
  have hb : b ∈ stack t := by simp [hl]
  -- the top occurs nowhere else
  have honly : ∀ u, b ∉ Function.update stack t l u := by
    intro u hu
    by_cases hut : u = t
    · subst hut
      simp only [Function.update_self] at hu
      exact hnodup.2.2 b hu b (by simp) rfl
    · simp only [Function.update_of_ne hut] at hu
      exact hut (h.disjoint u t b hu hb)
  have hless : ∀ u c, c ∈ Function.update stack t l u → c ∈ stack u := by
    intro u c hc
    by_cases hut : u = t
    · subst hut
      simp only [Function.update_self] at hc
      simp [hl, hc]
    · simpa [hut] using hc
  constructor
  · intro hpop
    by_contra hab
    have hused : b ∈ used \ {a} := ⟨(h.mem_used b).2 ⟨t, hb⟩, fun hba => hab hba.symm⟩
    obtain ⟨u, hu⟩ := (hpop.mem_used b).1 hused
    exact honly u hu
  · rintro rfl
    refine ⟨?_, fun u v c hu hv => h.disjoint u v c (hless u c hu) (hless v c hv), ?_⟩
    · intro u
      by_cases hut : u = t
      · subst hut; simpa using hnodup.1
      · simpa [hut] using h.nodup u
    · intro c
      simp only [Set.mem_sdiff, Set.mem_singleton_iff, h.mem_used c]
      constructor
      · rintro ⟨⟨u, hu⟩, hca⟩
        refine ⟨u, ?_⟩
        by_cases hut : u = t
        · subst hut
          rw [hl, List.mem_append, List.mem_singleton] at hu
          simpa using hu.resolve_right hca
        · simpa [hut] using hu
      · rintro ⟨u, hu⟩
        refine ⟨⟨u, hless u c hu⟩, ?_⟩
        rintro rfl
        exact honly u hu

/-- An element taken out of the set but not off its stack is lost, whatever is pushed instead. -/
theorem Partition.not_repush (h : Partition stack used) (ha : a ∈ used) :
    ¬Partition (Function.update stack t (stack t ++ [b])) (insert b (used \ {a})) := by
  intro hpush
  obtain ⟨u, hu⟩ := (h.mem_used a).1 ha
  have hstill := (hpush.mem_used a).2 ⟨u, mem_push.2 (.inl hu)⟩
  rcases hstill with rfl | hout
  · -- pushed a second time
    have hut := hpush.disjoint u t a (mem_push.2 (.inl hu)) (mem_push.2 (.inr ⟨rfl, rfl⟩))
    subst hut
    have hnodup := hpush.nodup u
    rw [Function.update_self, List.nodup_append] at hnodup
    exact hnodup.2.2 a hu a (by simp) rfl
  · exact hout.2 rfl

omit [DecidableEq τ] in
/-- An element that is put in the set without being pushed is on no stack. -/
theorem Partition.not_insert (h : Partition stack used) (ha : a ∉ used) : ¬Partition stack (insert a used) := by
  intro hins
  have hstack := (hins.mem_used a).1 (Set.mem_insert a used)
  exact ha ((h.mem_used a).2 hstack)

end Stacks
