import Mathlib.Data.List.Induction

/-!
# Editing a line

A line that is typed is changed only at its end: an edit adds a character, as long as there are fewer than `limit`, or
takes the last one back.  `edited limit es` is the line after the edits `es`.
-/

namespace LineEdit

variable {α : Type*} {limit : Nat}

/-- A change at the end of a line. -/
inductive Edit (α : Type*)
  | add (a : α)
  | drop

/-- The line after an edit. -/
def Edit.apply (limit : Nat) (line : List α) : Edit α → List α
  | .add a => if line.length < limit then line ++ [a] else line
  | .drop => line.dropLast

/-- The line after the edits, from an empty one. -/
def edited (limit : Nat) (es : List (Edit α)) : List α := es.foldl (Edit.apply limit) []

theorem edited_concat (es : List (Edit α)) (e : Edit α) :
    edited limit (es ++ [e]) = e.apply limit (edited limit es) := by
  rw [edited, List.foldl_append]
  rfl

theorem apply_length_le {line : List α} (h : line.length ≤ limit) (e : Edit α) :
    (e.apply limit line).length ≤ limit := by
  cases e with
  | add a =>
    rw [Edit.apply]
    split
    · rw [List.length_append, List.length_singleton]
      omega
    · exact h
  | drop =>
    rw [Edit.apply, List.length_dropLast]
    omega

theorem edited_length_le (es : List (Edit α)) : (edited limit es).length ≤ limit := by
  induction es using List.reverseRecOn with
  | nil => exact Nat.zero_le _
  | append_singleton es e ih =>
    rw [edited_concat]
    exact apply_length_le ih e

/-- What holds of every character that is added holds of the characters of the line. -/
theorem edited_forall {P : α → Prop} {es : List (Edit α)} (h : ∀ a, .add a ∈ es → P a) :
    ∀ a ∈ edited limit es, P a := by
  induction es using List.reverseRecOn with
  | nil => exact fun a ha => absurd ha List.not_mem_nil
  | append_singleton es e ih =>
    have hbefore := ih fun a ha => h a (List.mem_append_left _ ha)
    rw [edited_concat]
    cases e with
    | add b =>
      rw [Edit.apply]
      split
      · intro a ha
        rcases List.mem_append.1 ha with hold | hnew
        · exact hbefore a hold
        · rw [List.mem_singleton.1 hnew]
          exact h b (by simp)
      · exact hbefore
    | drop => exact fun a ha => hbefore a ((List.dropLast_sublist _).mem ha)

end LineEdit
