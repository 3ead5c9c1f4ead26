import BigChungOS.Lib.Loops
import Mathlib.Data.List.Nodup
import Mathlib.Logic.Function.Basic

/-!
# Linked lists

Nodes that each hold a pointer to the next one.  `Chain next p l` says that the nodes met from the pointer `p` on are
`l`, and then comes the null pointer.  A chain is determined by its first pointer (`Chain.unique`), so it meets no node
twice (`Chain.nodup`); a node is put in front of it or taken out of it by one store (`Chain.cons`, `Chain.remove`).  A
loop that walks along the pointers is left at the end of the chain, if it has not been left before (`walk_chain`), and
a node that points to itself is never passed (`walk_self`).
-/

namespace Linked

open Loops

variable {α : Type*} {next next' : α → Option α} {p : Option α} {a b : α} {l l' l₁ l₂ : List α}

/-- The nodes `l` follow each other from the pointer `p` on, up to the null pointer. -/
def Chain (next : α → Option α) : Option α → List α → Prop
  | p, [] => p = none
  | p, a :: l => p = some a ∧ Chain next (next a) l

theorem Chain.unique (h : Chain next p l) (h' : Chain next p l') : l = l' := by
  induction l generalizing p l' with
  | nil =>
    cases l' with
    | nil => rfl
    | cons b l' => cases h.symm.trans h'.1
  | cons a l ih =>
    cases l' with
    | nil => cases h'.symm.trans h.1
    | cons b l' =>
      obtain rfl : a = b := Option.some.inj (h.1.symm.trans h'.1)
      rw [ih h.2 h'.2]

/-- The chain from one of its nodes on. -/
theorem Chain.suffix (h : Chain next p (l₁ ++ a :: l₂)) : Chain next (some a) (a :: l₂) := by
  induction l₁ generalizing p with
  | nil => exact ⟨rfl, h.2⟩
  | cons b l₁ ih => exact ih h.2

theorem Chain.nodup (h : Chain next p l) : l.Nodup := by
  induction l generalizing p with
  | nil => exact List.nodup_nil
  | cons a l ih =>
    refine List.nodup_cons.2 ⟨fun ha => ?_, ih h.2⟩
    obtain ⟨l₁, l₂, rfl⟩ := List.append_of_mem ha
    have hsame : l₁ ++ a :: l₂ = l₂ := by
      have hagain := h.2.suffix.2
      exact h.2.unique hagain
    have hlength := congrArg List.length hsame
    simp only [List.length_append, List.length_cons] at hlength
    omega

/-- Only the pointers of the nodes of a chain matter. -/
theorem Chain.congr (h : Chain next p l) (hnext : ∀ a ∈ l, next' a = next a) : Chain next' p l := by
  induction l generalizing p with
  | nil => exact h
  | cons a l ih =>
    refine ⟨h.1, ?_⟩
    rw [hnext a List.mem_cons_self]
    exact ih h.2 fun b hb => hnext b (List.mem_cons_of_mem _ hb)

section Stores

variable [DecidableEq α]

/-- A new node in front. -/
theorem Chain.cons (h : Chain next p l) (ha : a ∉ l) : Chain (Function.update next a p) (some a) (a :: l) := by
  refine ⟨rfl, ?_⟩
  rw [Function.update_self]
  exact h.congr fun b hb => Function.update_of_ne (ne_of_mem_of_not_mem hb ha) _ _

/-- The node behind `b` taken out. -/
theorem Chain.remove (h : Chain next p (l₁ ++ b :: a :: l₂)) :
    Chain (Function.update next b (next a)) p (l₁ ++ b :: l₂) := by
  have hnodup := h.nodup
  induction l₁ generalizing p with
  | nil =>
    obtain ⟨rfl, -, hrest⟩ := h
    have hb : b ∉ l₂ := by
      rw [List.nil_append, List.nodup_cons, List.mem_cons, not_or] at hnodup
      exact hnodup.1.2
    refine ⟨rfl, ?_⟩
    rw [Function.update_self]
    exact hrest.congr fun c hc => Function.update_of_ne (ne_of_mem_of_not_mem hc hb) _ _
  | cons c l₁ ih =>
    rw [List.cons_append, List.nodup_cons] at hnodup
    have hne : c ≠ b := by
      rintro rfl
      exact hnodup.1 (by simp)
    refine ⟨h.1, ?_⟩
    rw [Function.update_of_ne hne]
    exact ih h.2 hnodup.2

end Stores

/-- A node that points to itself is on no chain. -/
theorem Chain.not_self (ha : next a = some a) : ¬Chain next (some a) l := by
  intro h
  cases l with
  | nil => cases h
  | cons b l =>
    obtain rfl : a = b := Option.some.inj h.1
    have hrest := h.2
    rw [ha] at hrest
    have hlength := congrArg List.length (hrest.unique h)
    simp at hlength

/-! ### Walking along the pointers -/

section Walk

variable {σ τ : Type*}

/-- A round of a walk: what `visit` makes of the state at the node, which may leave the loop, and then the node's
pointer; at the null pointer the loop is left with `done`. -/
def walkRound (next : σ → α → Option α) (visit : σ → α → σ ⊕ τ) (done : σ → τ) :
    σ × Option α → (σ × Option α) ⊕ τ
  | (s, none) => .inr (done s)
  | (s, some a) =>
    match visit s a with
    | .inl s' => .inl (s', next s' a)
    | .inr t => .inr t

/-- What a walk comes to along the nodes `l`. -/
def visits (visit : σ → α → σ ⊕ τ) (done : σ → τ) : σ → List α → τ
  | s, [] => done s
  | s, a :: l =>
    match visit s a with
    | .inl s' => visits visit done s' l
    | .inr t => t

variable {next : σ → α → Option α} {visit : σ → α → σ ⊕ τ} {done : σ → τ}

/-- If the visits leave the pointers as they are, the walk comes by the nodes of the chain. -/
theorem walk_chain (next : σ → α → Option α) (visit : σ → α → σ ⊕ τ) (done : σ → τ)
    (hkeep : ∀ s a s', visit s a = .inl s' → next s' = next s) {s : σ} {p : Option α} {l : List α}
    (h : Chain (next s) p l) {n : Nat} (hn : l.length < n) :
    loop (walkRound next visit done) n (s, p) = some (visits visit done s l) := by
  induction l generalizing s p n with
  | nil =>
    obtain ⟨n, rfl⟩ : ∃ k, n = k + 1 := ⟨n - 1, by omega⟩
    rw [show p = none from h]
    exact loop_inr rfl n
  | cons a l ih =>
    obtain ⟨n, rfl⟩ : ∃ k, n = k + 1 := ⟨n - 1, by omega⟩
    rw [List.length_cons] at hn
    obtain ⟨rfl, hrest⟩ := h
    cases hvisit : visit s a with
    | inl s' =>
      have hround : walkRound next visit done (s, some a) = .inl (s', next s' a) := by
        simp only [walkRound, hvisit]
      rw [loop_inl hround, visits, hvisit]
      rw [← hkeep s a s' hvisit] at hrest
      exact ih hrest (by omega)
    | inr t =>
      have hround : walkRound next visit done (s, some a) = .inr t := by simp only [walkRound, hvisit]
      rw [loop_inr hround, visits, hvisit]

/-- A node that points to itself, and at which the walk always goes on, is visited for ever. -/
theorem walk_self {I : σ → Prop} {a : α} (hvisit : ∀ s, I s → ∃ s', visit s a = .inl s' ∧ next s' a = some a ∧ I s')
    {s : σ} (hs : I s) (n : Nat) : loop (walkRound next visit done) n (s, some a) = none := by
  induction n generalizing s with
  | zero => rfl
  | succ n ih =>
    obtain ⟨s', hgo, hnext, hs'⟩ := hvisit s hs
    have hround : walkRound next visit done (s, some a) = .inl (s', some a) := by
      simp only [walkRound, hgo, hnext]
    rw [loop_inl hround]
    exact ih hs'

/-- A walk that never leaves early folds the visits. -/
theorem visits_inl {f : σ → α → σ} (s : σ) (l : List α) :
    visits (fun s a => .inl (f s a)) done s l = done (l.foldl f s) := by
  induction l generalizing s with
  | nil => rfl
  | cons a l ih => exact ih (f s a)

/-- A walk that leaves at the first node with a property finds that node. -/
theorem visits_find (q : α → Bool) (s : σ) (l : List α) :
    visits (fun s a => if q a then .inr (some a) else .inl s) (fun _ => none) s l = l.find? q := by
  induction l with
  | nil => rfl
  | cons a l ih =>
    cases hq : q a
    · simp only [visits, List.find?_cons, hq]
      exact ih
    · simp only [visits, List.find?_cons, hq, if_true]

end Walk

end Linked
