import Mathlib.Data.List.Induction
import Mathlib.Logic.Function.Iterate

/-!
# Runs of a labelled transition system

A transition system is a relation `step s a t` ("the label `a` takes `s` to `t`").  This file has the rules the
developments over such systems use:

* an invariant of the steps is an invariant of the runs (`Run.invariant`);
* a run over a concatenation of labels is a run over each part (`Run.append_iff`);
* a system whose steps another one follows, each label by a list of labels, has its runs followed too
  (`Run.simulate`);
* the runs whose steps all meet a condition (`Guarded`): when the condition decides, from every state with the
  invariant, whether the step keeps the property, the property holds along every guarded run and the condition
  cannot be weakened (`Run.guarded_exact`).

A system whose next state is a function of the state is the function's iterates: what the function preserves holds of
all of them (`iterate_invariant`), and one with a measure that goes down comes to an end (`iterate_ends`).  `Leads`
says that one state is reached from another, for runs that are put together from parts.
-/

namespace Transition

variable {σ α : Type*} {step : σ → α → σ → Prop}

/-- `Run step s as t`: the labels `as`, taken in order from `s`, lead to `t`. -/
inductive Run (step : σ → α → σ → Prop) : σ → List α → σ → Prop
  | nil (s : σ) : Run step s [] s
  | snoc {s t u : σ} {as : List α} {a : α} : Run step s as t → step t a u → Run step s (as ++ [a]) u

/-- The steps taken where `cond` holds of the state before and the label. -/
def Guarded (cond : σ → α → Prop) (step : σ → α → σ → Prop) (s : σ) (a : α) (t : σ) : Prop :=
  cond s a ∧ step s a t

/-- What every step preserves holds at the end of every run from a state where it holds. -/
theorem Run.invariant {P : σ → Prop} (hstep : ∀ s a t, P s → step s a t → P t) {s t : σ} {as : List α}
    (h : Run step s as t) (hs : P s) : P t := by
  induction h with
  | nil => exact hs
  | snoc _ hlast ih => exact hstep _ _ _ ih hlast

theorem Run.single {s t : σ} {a : α} (h : step s a t) : Run step s [a] t :=
  Run.snoc (Run.nil s) h

theorem Run.append {s t u : σ} {as bs : List α} (h₁ : Run step s as t) (h₂ : Run step t bs u) :
    Run step s (as ++ bs) u := by
  induction h₂ with
  | nil => simpa using h₁
  | snoc _ hlast ih =>
    rw [← List.append_assoc]
    exact Run.snoc ih hlast

theorem Run.nil_iff {s t : σ} : Run step s [] t ↔ s = t := by
  constructor
  · intro h
    generalize hl : ([] : List α) = l at h
    cases h with
    | nil => rfl
    | snoc _ _ => simp at hl
  · rintro rfl
    exact Run.nil s

theorem Run.snoc_iff {s u : σ} {as : List α} {a : α} :
    Run step s (as ++ [a]) u ↔ ∃ t, Run step s as t ∧ step t a u := by
  constructor
  · intro h
    generalize hl : as ++ [a] = l at h
    cases h with
    | nil => simp at hl
    | snoc hrun hlast =>
      obtain ⟨rfl, hab⟩ := List.append_inj' hl rfl
      simp only [List.cons.injEq, and_true] at hab
      subst hab
      exact ⟨_, hrun, hlast⟩
  · rintro ⟨t, hrun, hlast⟩
    exact Run.snoc hrun hlast

theorem Run.single_iff {s t : σ} {a : α} : Run step s [a] t ↔ step s a t := by
  constructor
  · intro h
    have hsnoc : Run step s ([] ++ [a]) t := h
    obtain ⟨u, hnil, hlast⟩ := Run.snoc_iff.1 hsnoc
    rwa [← Run.nil_iff.1 hnil] at hlast
  · exact Run.single

/-- A run over `as ++ bs` passes through a state between the two parts. -/
theorem Run.append_iff {s u : σ} {as bs : List α} :
    Run step s (as ++ bs) u ↔ ∃ t, Run step s as t ∧ Run step t bs u := by
  constructor
  · intro h
    induction bs using List.reverseRecOn generalizing u with
    | nil => exact ⟨u, by simpa using h, Run.nil u⟩
    | append_singleton bs b ih =>
      rw [← List.append_assoc, Run.snoc_iff] at h
      obtain ⟨v, hrun, hlast⟩ := h
      obtain ⟨t, h₁, h₂⟩ := ih hrun
      exact ⟨t, h₁, Run.snoc h₂ hlast⟩
  · rintro ⟨t, h₁, h₂⟩
    exact Run.append h₁ h₂

/-- A run whose labels meet a condition on labels is a guarded run. -/
theorem Run.guarded {cond : α → Prop} {s t : σ} {as : List α} (h : Run step s as t) (has : ∀ a ∈ as, cond a) :
    Run (Guarded (fun _ => cond) step) s as t := by
  induction h with
  | nil => exact Run.nil _
  | snoc _ hlast ih =>
    have hinit := ih fun a ha => has a (List.mem_append_left _ ha)
    exact Run.snoc hinit ⟨has _ (by simp), hlast⟩

theorem Run.unguarded {cond : σ → α → Prop} {s t : σ} {as : List α} (h : Run (Guarded cond step) s as t) :
    Run step s as t := by
  induction h with
  | nil => exact Run.nil _
  | snoc _ hlast ih => exact Run.snoc ih hlast.2

/-- If every step can be followed from the related states, `obs a` being the labels that follow `a`, then so can
every run. -/
theorem Run.simulate {τ β : Type*} {step' : τ → β → τ → Prop} {R : σ → τ → Prop} {obs : α → List β}
    (hstep : ∀ s a t s', R s s' → step s a t → ∃ t', Run step' s' (obs a) t' ∧ R t t') {s t : σ} {as : List α} {s' : τ}
    (h : Run step s as t) (hs : R s s') : ∃ t', Run step' s' (as.flatMap obs) t' ∧ R t t' := by
  induction h with
  | nil => exact ⟨s', Run.nil s', hs⟩
  | snoc _ hlast ih =>
    obtain ⟨u', hinit, hu⟩ := ih
    obtain ⟨t', hfollow, ht⟩ := hstep _ _ _ u' hu hlast
    refine ⟨t', ?_, ht⟩
    rw [List.flatMap_append, List.flatMap_singleton]
    exact hinit.append hfollow

/-- If, from every state with the invariant `I` and the property `Q`, a step keeps `Q` exactly when `cond` held
before it, and a step that meets `cond` keeps `I`, then `Q` holds at the end of every guarded run, and from
there a step keeps `Q` exactly when it meets `cond`. -/
theorem Run.guarded_exact {I Q : σ → Prop} {cond : σ → α → Prop}
    (hI : ∀ s a t, I s → Q s → cond s a → step s a t → I t)
    (hQ : ∀ s a t, I s → Q s → step s a t → (Q t ↔ cond s a)) {s t : σ} {as : List α}
    (h : Run (Guarded cond step) s as t) (hs : I s) (hq : Q s) :
    Q t ∧ ∀ a u, step t a u → (Q u ↔ cond t a) := by
  have key : I t ∧ Q t := by
    refine Run.invariant (P := fun s => I s ∧ Q s) ?_ h ⟨hs, hq⟩
    rintro s a t ⟨hs, hq⟩ ⟨hc, hstep⟩
    exact ⟨hI s a t hs hq hc hstep, (hQ s a t hs hq hstep).2 hc⟩
  exact ⟨key.2, fun a u hstep => hQ t a u key.1 key.2 hstep⟩

/-! ### Deterministic systems -/

section Iterate

variable {f : σ → σ} {I : σ → Prop}

theorem iterate_invariant (hstep : ∀ s, I s → I (f s)) {s : σ} (hs : I s) (n : Nat) : I (f^[n] s) := by
  induction n with
  | zero => exact hs
  | succ n ih =>
    rw [Function.iterate_succ_apply']
    exact hstep _ ih

/-- The state `t` comes after some steps from `s`. -/
def Leads (f : σ → σ) (s t : σ) : Prop := ∃ n, f^[n] s = t

theorem Leads.refl (s : σ) : Leads f s s := ⟨0, rfl⟩

theorem Leads.trans {s t u : σ} (h : Leads f s t) (h' : Leads f t u) : Leads f s u := by
  obtain ⟨n, rfl⟩ := h
  obtain ⟨k, rfl⟩ := h'
  exact ⟨k + n, Function.iterate_add_apply _ _ _ _⟩

/-- One step, and then the rest. -/
theorem Leads.head {s t : σ} (h : Leads f (f s) t) : Leads f s t := by
  have hfirst : Leads f s (f s) := ⟨1, rfl⟩
  exact hfirst.trans h

/-- A state that a step leaves as it is stays for good. -/
theorem iterate_eq_of_fixed {s : σ} {n m : Nat} (hfixed : f (f^[n] s) = f^[n] s) (h : n ≤ m) : f^[m] s = f^[n] s := by
  obtain ⟨d, rfl⟩ := Nat.exists_eq_add_of_le' h
  rw [Function.iterate_add_apply]
  exact Function.iterate_fixed hfixed d

/-- A measure that every step before the end lowers brings the system to its end. -/
theorem iterate_ends {done : σ → Prop} (μ : σ → Nat) (hstep : ∀ s, I s → I (f s))
    (hlower : ∀ s, I s → ¬done s → μ (f s) < μ s) {s : σ} (hs : I s) : ∃ n, done (f^[n] s) := by
  induction hμ : μ s using Nat.strongRecOn generalizing s with
  | ind m ih =>
    by_cases hdone : done s
    · exact ⟨0, hdone⟩
    · obtain ⟨n, hn⟩ := ih (μ (f s)) (hμ ▸ hlower s hs hdone) (hstep s hs) rfl
      exact ⟨n + 1, by rwa [Function.iterate_succ_apply]⟩

end Iterate

end Transition
