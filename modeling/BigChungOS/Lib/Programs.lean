import Mathlib.Tactic.Common

/-!
# Programs that make calls

A program is the tree of the calls it makes: it ends, or it makes a call and goes on with what the call returns
(`Program`).  A service says which calls it takes, and how they return.  `Program.Ensures` is the weakest precondition:
every call of the program is one the service takes, and whatever the calls return, the program ends in the
postcondition; so it holds at the end of every run (`Ensures.runs`).

* Programs are put together with `bind` (`ensures_bind`) and with loops (`Ensures.loop`).
* What a program ensures over a service, it ensures over every service that refines it (`Refines.ensures`), also about
  the calls it has made (`Service.logged`), and where more is demanded of the states it makes them in
  (`Service.demanding`).
-/

namespace Programs

/-- A program with calls from `C`, which return values of `R`. -/
inductive Program (C R α : Type)
  | ret (a : α)
  | call (c : C) (next : R → Program C R α)

/-- The calls a service takes in a state, and how they return. -/
structure Service (σ C R : Type) where
  takes : σ → C → Prop
  returns : σ → C → R → σ → Prop

variable {σ τ C R α β : Type}

namespace Program

/-- One program after the other. -/
def bind : Program C R α → (α → Program C R β) → Program C R β
  | ret a, f => f a
  | call c next, f => call c fun r => (next r).bind f

instance programMonad : Monad (Program C R) where
  pure := ret
  bind := bind

/-- The program of one call. -/
def send (c : C) : Program C R R := call c ret

/-- At most `n` rounds; each goes on with a new value or leaves with a result. -/
def loop (round : β → Program C R (β ⊕ α)) : Nat → β → Program C R (Option α)
  | 0, _ => pure none
  | n + 1, b => do
    match ← round b with
    | .inl b => loop round n b
    | .inr a => pure (some a)

/-- The service takes the calls of the program, and all ends are in `Q`. -/
def Ensures (S : Service σ C R) : Program C R α → (α → σ → Prop) → σ → Prop
  | ret a, Q, s => Q a s
  | call c next, Q, s => S.takes s c ∧ ∀ r s', S.returns s c r s' → (next r).Ensures S Q s'

/-- A run from the first call to the end, with the calls and what they have returned. -/
inductive Runs (S : Service σ C R) : Program C R α → σ → List (C × R) → α → σ → Prop
  | ret (a : α) (s : σ) : Runs S (ret a) s [] a s
  | call {c : C} {next : R → Program C R α} {s s' t : σ} {r : R} {calls : List (C × R)} {a : α}
      (h : S.returns s c r s') (hrest : Runs S (next r) s' calls a t) : Runs S (call c next) s ((c, r) :: calls) a t

variable {S : Service σ C R} {Q Q' : α → σ → Prop} {s t : σ}

@[simp] theorem ensures_ret {a : α} : (ret a : Program C R α).Ensures S Q s ↔ Q a s := Iff.rfl

@[simp] theorem ensures_pure {a : α} : (pure a : Program C R α).Ensures S Q s ↔ Q a s := Iff.rfl

@[simp] theorem ensures_send {c : C} {Q : R → σ → Prop} :
    (send c).Ensures S Q s ↔ S.takes s c ∧ ∀ r s', S.returns s c r s' → Q r s' := Iff.rfl

@[simp] theorem ensures_bind {p : Program C R α} {f : α → Program C R β} {Q : β → σ → Prop} :
    (p >>= f).Ensures S Q s ↔ p.Ensures S (fun a s => (f a).Ensures S Q s) s := by
  induction p generalizing s with
  | ret a => exact Iff.rfl
  | call c next ih => exact and_congr_right fun _ => forall₂_congr fun r _ => imp_congr_right fun _ => ih r

theorem Ensures.mono {p : Program C R α} (h : p.Ensures S Q s) (hQ : ∀ a s, Q a s → Q' a s) : p.Ensures S Q' s := by
  induction p generalizing s with
  | ret a => exact hQ a s h
  | call c next ih => exact ⟨h.1, fun r s' hr => ih r (h.2 r s' hr)⟩

/-- The postcondition holds at the end of every run. -/
theorem Ensures.runs {p : Program C R α} {calls : List (C × R)} {a : α} (h : p.Ensures S Q s)
    (hrun : Runs S p s calls a t) : Q a t := by
  induction hrun with
  | ret a s => exact h
  | call hr _ ih => exact ih (h.2 _ _ hr)

/-- A loop.  What a round starts from is `I g` for some `g`, and it goes on with one of lower measure, or leaves in
`Q`. -/
theorem Ensures.loop {γ : Type*} {round : β → Program C R (β ⊕ α)} {I : γ → β → σ → Prop} (μ : γ → Nat)
    (hround : ∀ g b s, I g b s → (round b).Ensures S
      (fun x t => Sum.elim (fun b' => ∃ g', I g' b' t ∧ μ g' < μ g) (fun a => Q a t) x) s) {n : Nat} {g : γ} {b : β}
    (hs : I g b s) (hn : μ g < n) : (Program.loop round n b).Ensures S (fun x t => ∃ a, x = some a ∧ Q a t) s := by
  induction n generalizing g b s with
  | zero => omega
  | succ n ih =>
    rw [Program.loop, ensures_bind]
    refine (hround g b s hs).mono fun x t hx => ?_
    cases x with
    | inl b' =>
      obtain ⟨g', hI, hlower⟩ : ∃ g', I g' b' t ∧ μ g' < μ g := hx
      exact ih hI (by omega)
    | inr a => exact ⟨a, rfl, hx⟩

/-- The rounds of a loop.  Round `i` starts in `I i`, and the loop leaves in `Q`, or it has made all its rounds. -/
theorem Ensures.rounds {round : β → Program C R (β ⊕ α)} {I : Nat → β → σ → Prop}
    (hround : ∀ i b s, I i b s →
      (round b).Ensures S (fun x t => Sum.elim (fun b' => I (i + 1) b' t) (fun a => Q a t) x) s) {n i : Nat} {b : β}
    (hs : I i b s) :
    (Program.loop round n b).Ensures S (fun x t => x.elim (∃ b', I (i + n) b' t) fun a => Q a t) s := by
  induction n generalizing i b s with
  | zero => exact ⟨b, hs⟩
  | succ n ih =>
    rw [Program.loop, ensures_bind]
    refine (hround i b s hs).mono fun x t hx => ?_
    cases x with
    | inl b' =>
      rw [show i + (n + 1) = i + 1 + n by omega]
      exact ih hx
    | inr a => exact hx

end Program

/-- The service with a record of the calls and what they have returned. -/
def Service.logged (S : Service σ C R) : Service (σ × List (C × R)) C R where
  takes s c := S.takes s.1 c
  returns s c r s' := S.returns s.1 c r s'.1 ∧ s'.2 = s.2 ++ [(c, r)]

/-- A program goes on with the record it has. -/
theorem Program.Ensures.logged {S : Service σ C R} {p : Program C R α} {Q : α → σ → Prop} {s : σ} (h : p.Ensures S Q s)
    (log : List (C × R)) :
    p.Ensures S.logged (fun a t => Q a t.1 ∧ ∃ rest, t.2 = log ++ rest) (s, log) := by
  induction p generalizing s log with
  | ret a => exact ⟨h, [], (List.append_nil log).symm⟩
  | call c next ih =>
    refine ⟨h.1, ?_⟩
    rintro r ⟨s', _⟩ ⟨hreturns, rfl⟩
    refine (ih r (h.2 r s' hreturns) (log ++ [(c, r)])).mono ?_
    rintro a t ⟨hQ, rest, hrest⟩
    exact ⟨hQ, (c, r) :: rest, by rw [hrest, List.append_assoc]; rfl⟩

/-- The service that takes its calls only in the states of `D`. -/
def Service.demanding (S : Service σ C R) (D : σ → Prop) : Service σ C R where
  takes s c := D s ∧ S.takes s c
  returns := S.returns

/-- Every call that `S` takes is taken by `S'`, and returns there as it may in `S`. -/
structure Refines (S' : Service τ C R) (S : Service σ C R) (Sim : τ → σ → Prop) : Prop where
  takes : ∀ t s c, Sim t s → S.takes s c → S'.takes t c
  returns : ∀ t s c r t', Sim t s → S.takes s c → S'.returns t c r t' → ∃ s', S.returns s c r s' ∧ Sim t' s'

namespace Refines

variable {S' : Service τ C R} {S : Service σ C R} {Sim : τ → σ → Prop}

/-- Programs see no difference. -/
theorem ensures (h : Refines S' S Sim) {p : Program C R α} {Q : α → σ → Prop} {s : σ} {t : τ} (hp : p.Ensures S Q s)
    (hsim : Sim t s) : p.Ensures S' (fun a t => ∃ s, Sim t s ∧ Q a s) t := by
  induction p generalizing s t with
  | ret a => exact ⟨s, hsim, hp⟩
  | call c next ih =>
    refine ⟨h.takes t s c hsim hp.1, fun r t' hr => ?_⟩
    obtain ⟨s', hs', hsim'⟩ := h.returns t s c r t' hsim hp.1 hr
    exact ih r (hp.2 r s' hs') hsim'

/-- A run over `S'` of a program whose calls `S` takes is one over `S`. -/
theorem runs (h : Refines S' S Sim) {p : Program C R α} {Q : α → σ → Prop} {s : σ} {t t' : τ} {calls : List (C × R)}
    {a : α} (hp : p.Ensures S Q s) (hsim : Sim t s) (hrun : p.Runs S' t calls a t') :
    ∃ s', p.Runs S s calls a s' ∧ Sim t' s' := by
  induction hrun generalizing s with
  | ret a t => exact ⟨s, .ret a s, hsim⟩
  | call hreturns _ ih =>
    obtain ⟨s₁, hs₁, hsim₁⟩ := h.returns _ s _ _ _ hsim hp.1 hreturns
    obtain ⟨s', hrest, hsim'⟩ := ih (hp.2 _ s₁ hs₁) hsim₁
    exact ⟨s', .call hs₁ hrest, hsim'⟩

/-- The records agree. -/
theorem logged (h : Refines S' S Sim) : Refines S'.logged S.logged fun t s => Sim t.1 s.1 ∧ t.2 = s.2 where
  takes t s c hsim := h.takes t.1 s.1 c hsim.1
  returns := by
    rintro ⟨t, log⟩ ⟨s, _⟩ c r ⟨t', _⟩ ⟨hsim, rfl⟩ htakes ⟨hreturns, rfl⟩
    obtain ⟨s', hs', hsim'⟩ := h.returns t s c r t' hsim htakes hreturns
    exact ⟨(s', log ++ [(c, r)]), ⟨hs', rfl⟩, hsim', rfl⟩

/-- What is demanded of the states that are related to others. -/
theorem demanding (h : Refines S' S Sim) {D : τ → Prop} (hD : ∀ t s, Sim t s → D t) :
    Refines (S'.demanding D) S Sim where
  takes t s c hsim htakes := ⟨hD t s hsim, h.takes t s c hsim htakes⟩
  returns := h.returns

/-- What the calls of `S'` keep. -/
theorem keeps (h : Refines S' S Sim) {P : τ → Prop}
    (hP : ∀ t s c r t', Sim t s → P t → S'.returns t c r t' → P t') : Refines S' S fun t s => Sim t s ∧ P t where
  takes t s c hsim := h.takes t s c hsim.1
  returns t s c r t' hsim htakes hreturns := by
    obtain ⟨s', hs', hsim'⟩ := h.returns t s c r t' hsim.1 htakes hreturns
    exact ⟨s', hs', hsim', hP t s c r t' hsim.1 hsim.2 hreturns⟩

end Refines

end Programs
