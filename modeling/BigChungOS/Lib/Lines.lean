import Mathlib.Tactic.Common

/-!
# Lines cut into pieces

A text is split into lines at a separator, and each line into pieces of at most `n` elements (`pieces`).  A reader that
takes the text through a buffer comes by the pieces one after the other: a line that ends in the buffer (`pieces_line`),
the end of the text (`pieces_last`), or a buffer full of one line (`pieces_full`).
-/

namespace Lines

variable {α : Type*}

/-- Cut into pieces of `n` elements; the last one may be shorter. -/
def chop (n : Nat) (line : List α) : List (List α) :=
  (List.range ((line.length + n - 1) / n)).map fun i => (line.drop (n * i)).take n

variable {n : Nat} {line rest : List α}

theorem chop_nil (hn : 0 < n) : chop n ([] : List α) = [] := by
  have hzero : ([] : List α).length + n - 1 < n := by
    rw [List.length_nil]
    omega
  rw [chop, Nat.div_eq_of_lt hzero]
  rfl

theorem chop_append (hn : 0 < n) (hline : line.length = n) : chop n (line ++ rest) = line :: chop n rest := by
  have hcount : ((line ++ rest).length + n - 1) / n = (rest.length + n - 1) / n + 1 := by
    rw [List.length_append, hline, show n + rest.length + n - 1 = rest.length + n - 1 + n by omega,
      Nat.add_div_right _ hn]
  rw [chop, hcount, List.range_succ_eq_map, List.map_cons, List.map_map, Nat.mul_zero, List.drop_zero,
    List.take_left' hline, chop]
  refine congrArg _ (List.map_congr_left fun i _ => ?_)
  have hdrop : (line ++ rest).drop (n * (i + 1)) = rest.drop (n * i) := by
    rw [List.drop_append, hline, List.drop_eq_nil_of_le (by rw [hline, Nat.mul_succ]; omega), List.nil_append,
      Nat.mul_succ, Nat.add_sub_cancel]
  exact congrArg (List.take n) hdrop

theorem chop_of_le (hne : line ≠ []) (hline : line.length ≤ n) : chop n line = [line] := by
  have hpos := List.length_pos_iff.2 hne
  have hcount : (line.length + n - 1) / n = 1 := by
    rw [Nat.div_eq_iff (by omega)]
    omega
  rw [chop, hcount]
  simpa using List.take_of_length_le hline

variable [BEq α] {c : α} {text : List α}

/-- The pieces of all lines. -/
def pieces (c : α) (n : Nat) (text : List α) : List (List α) := (text.splitOn c).flatMap (chop n)

theorem pieces_nil (hn : 0 < n) : pieces c n ([] : List α) = [] := by
  rw [pieces, List.splitOn_nil, List.flatMap_singleton, chop_nil hn]

variable [LawfulBEq α]

/-- A line in front of the separator. -/
theorem pieces_line (hc : c ∉ line) : pieces c n (line ++ c :: text) = chop n line ++ pieces c n text := by
  rw [pieces, List.splitOn_append_cons_self_of_not_mem hc, List.flatMap_cons, pieces]

/-- A line at the end. -/
theorem pieces_last (hc : c ∉ line) : pieces c n line = chop n line := by
  rw [pieces, List.splitOn_eq_singleton hc, List.flatMap_singleton]

/-- What stands in front of a text without a separator belongs to its first line. -/
theorem splitOn_append (hc : c ∉ line) : (line ++ text).splitOn c = (text.splitOn c).modifyHead (line ++ ·) := by
  induction line with
  | nil =>
    rw [List.nil_append]
    cases text.splitOn c <;> rfl
  | cons x line ih =>
    rw [List.mem_cons, not_or] at hc
    have hx : (x == c) = false := by simpa using Ne.symm hc.1
    rw [List.cons_append, List.splitOn_cons_eq_if_modifyHead, hx, ih hc.2, if_neg (by simp), List.modifyHead_modifyHead]
    rfl

/-- The first `n` elements, if there is no separator in them. -/
theorem pieces_full (hn : 0 < n) (hc : c ∉ line) (hline : line.length = n) :
    pieces c n (line ++ text) = line :: pieces c n text := by
  obtain ⟨first, others, hsplit⟩ := List.exists_cons_of_ne_nil (List.splitOn_ne_nil c text)
  rw [pieces, splitOn_append hc, hsplit, List.modifyHead_cons, List.flatMap_cons, chop_append hn hline, pieces, hsplit,
    List.flatMap_cons, List.cons_append]

end Lines
