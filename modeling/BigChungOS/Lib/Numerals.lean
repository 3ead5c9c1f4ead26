import Mathlib.Data.Nat.Digits.Lemmas

/-!
# Numerals

A numeral is a list of digits with the most significant one first.  `Denotes base n ds` says that `ds` are digits of the
base and have the value `n`, and `IsNumeral` that they are the numeral of `n`, without leading zeros.  There is one such
list, the digits of `Nat.digits` in reverse (`isNumeral_iff`).  Zeros in front do not change the value.
-/

namespace Numerals

/-- The value of digits, the most significant one first. -/
def value (base : Nat) (ds : List Nat) : Nat := ds.foldl (fun n d => base * n + d) 0

structure Denotes (base n : Nat) (ds : List Nat) : Prop where
  digits : ∀ d ∈ ds, d < base
  value_eq : value base ds = n

/-- Zero has the digit 0, and other numbers do not begin with it. -/
structure IsNumeral (base n : Nat) (ds : List Nat) : Prop extends Denotes base n ds where
  nonempty : ds ≠ []
  canonical : ds.head? = some 0 → ds = [0]

def numeral (base n : Nat) : List Nat := if n = 0 then [0] else (Nat.digits base n).reverse

variable {base n : Nat} {ds : List Nat}

theorem value_append_singleton (base : Nat) (ds : List Nat) (d : Nat) :
    value base (ds ++ [d]) = base * value base ds + d := by
  rw [value, List.foldl_append]
  rfl

theorem value_reverse (base : Nat) (ds : List Nat) : value base ds.reverse = Nat.ofDigits base ds := by
  induction ds with
  | nil => rfl
  | cons d ds ih =>
    rw [List.reverse_cons, value_append_singleton, ih, Nat.ofDigits_cons, Nat.add_comm]

theorem value_eq_ofDigits (base : Nat) (ds : List Nat) : value base ds = Nat.ofDigits base ds.reverse := by
  rw [← value_reverse, List.reverse_reverse]

theorem value_replicate_append (base k : Nat) (ds : List Nat) :
    value base (List.replicate k 0 ++ ds) = value base ds := by
  rw [value_eq_ofDigits, List.reverse_append, List.reverse_replicate, Nat.ofDigits_append_replicate_zero,
    ← value_eq_ofDigits]

/-- Zeros in front. -/
theorem Denotes.pad (h : Denotes base n ds) (hbase : 0 < base) (k : Nat) :
    Denotes base n (List.replicate k 0 ++ ds) where
  digits := by
    intro d hd
    rcases List.mem_append.1 hd with hzero | hdigit
    · rw [List.eq_of_mem_replicate hzero]
      exact hbase
    · exact h.digits d hdigit
  value_eq := (value_replicate_append base k ds).trans h.value_eq

theorem head_digits_ne_zero (base : Nat) (hn : n ≠ 0) : (Nat.digits base n).reverse.head? ≠ some 0 := by
  have hne : Nat.digits base n ≠ [] := Nat.digits_ne_nil_iff_ne_zero.2 hn
  rw [List.head?_reverse, List.getLast?_eq_some_getLast hne]
  exact fun h => Nat.getLast_digit_ne_zero base hn (Option.some_inj.1 h)

theorem isNumeral_numeral (hbase : 1 < base) (n : Nat) : IsNumeral base n (numeral base n) := by
  unfold numeral
  split_ifs with hn
  · subst hn
    exact { digits := by simpa using Nat.lt_of_succ_lt hbase, value_eq := rfl, nonempty := by simp,
            canonical := fun _ => rfl }
  · refine { digits := ?_, value_eq := ?_, nonempty := ?_, canonical := ?_ }
    · intro d hd
      exact Nat.digits_lt_base hbase (List.mem_reverse.1 hd)
    · rw [value_reverse, Nat.ofDigits_digits]
    · rw [Ne, List.reverse_eq_nil_iff]
      exact Nat.digits_ne_nil_iff_ne_zero.2 hn
    · exact fun h => absurd h (head_digits_ne_zero base hn)

/-- There is one numeral of a number. -/
theorem isNumeral_iff (hbase : 1 < base) : IsNumeral base n ds ↔ ds = numeral base n := by
  refine ⟨fun h => ?_, fun h => h ▸ isNumeral_numeral hbase n⟩
  by_cases hzero : ds.head? = some 0
  · obtain rfl := h.canonical hzero
    rw [← h.value_eq]
    rfl
  · have hlast : ∀ hne : ds.reverse ≠ [], ds.reverse.getLast hne ≠ 0 := by
      intro hne hlast
      rw [List.getLast_reverse] at hlast
      exact hzero ((List.head?_eq_some_head h.nonempty).trans (congrArg some hlast))
    have hdigits : Nat.digits base n = ds.reverse := by
      rw [← h.value_eq, value_eq_ofDigits]
      exact Nat.digits_ofDigits base hbase _ (fun d hd => h.digits d (List.mem_reverse.1 hd)) hlast
    have hn : n ≠ 0 := by
      rintro rfl
      rw [Nat.digits_zero] at hdigits
      exact h.nonempty (List.reverse_eq_nil_iff.1 hdigits.symm)
    rw [numeral, if_neg hn, hdigits, List.reverse_reverse]

end Numerals
