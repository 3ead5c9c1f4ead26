import Mathlib.Tactic.Common

/-!
# Loops

A loop is given by its round, which either goes on with a new state or leaves with a result, and `loop round n` takes at
most `n` rounds.  A loop with an invariant leaves if every round lowers a measure, and then the result has what leaving
with the invariant gives (`loop_spec`).
-/

namespace Loops

variable {σ τ : Type*}

/-- At most `n` rounds from a state; `none` if the loop has not been left by then. -/
def loop (round : σ → σ ⊕ τ) : Nat → σ → Option τ
  | 0, _ => none
  | n + 1, s =>
    match round s with
    | .inl s' => loop round n s'
    | .inr t => some t

variable {round : σ → σ ⊕ τ}

theorem loop_inl {s s' : σ} (h : round s = .inl s') (n : Nat) : loop round (n + 1) s = loop round n s' := by
  rw [loop, h]

theorem loop_inr {s : σ} {t : τ} (h : round s = .inr t) (n : Nat) : loop round (n + 1) s = some t := by
  rw [loop, h]

/-- What is to be shown of a round: it keeps the invariant `I` and lowers the measure `μ`, or it leaves with `Q`. -/
theorem loop_spec {I : σ → Prop} {Q : τ → Prop} (μ : σ → Nat)
    (hround : ∀ s, I s → Sum.elim (fun s' => I s' ∧ μ s' < μ s) Q (round s)) {n : Nat} {s : σ} (hs : I s)
    (hn : μ s < n) : ∃ t, loop round n s = some t ∧ Q t := by
  induction n generalizing s with
  | zero => omega
  | succ n ih =>
    have h := hround s hs
    cases hr : round s with
    | inl s' =>
      rw [hr] at h
      obtain ⟨hs', hlower⟩ : I s' ∧ μ s' < μ s := h
      rw [loop_inl hr]
      exact ih hs' (by omega)
    | inr t =>
      rw [hr] at h
      exact ⟨t, loop_inr hr n, h⟩

end Loops
