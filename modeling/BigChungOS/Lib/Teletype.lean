import Mathlib.Logic.Function.Basic
import Mathlib.Tactic.Common

/-!
# A teletype

A grid of cells with a cursor that is always inside it.  `put` writes at the cursor and moves on, to the next row after
the last column; a row below the last one is made by moving all rows up (`nextRow`); `rubOut` goes back by one cell and
overwrites it.

Read row by row, the grid is a window on a tape that is blank behind it (`tape`).  To put a cell is then to write it on
the tape and to move the window by as many cells as the grid has scrolled (`put_tape`), so that rows and columns need
not be looked at any more.  A line that is put cell by cell and rubbed out from its end stays on the screen as it is
(`Displays.put`, `Displays.rubOut`), wherever it begins and however often the screen scrolls under it.
-/

/-- A grid of cells and a cursor. -/
structure Teletype (rows cols : Nat) (α : Type*) where
  cells : Fin rows → Fin cols → α
  row : Fin rows
  col : Fin cols

namespace Teletype

variable {rows cols : Nat} {α : Type*}

section Operations

variable (blank : α)

/-- The first column of the next row; below the last row all rows move up. -/
def nextRow (t : Teletype rows cols α) : Teletype rows cols α :=
  let first : Fin cols := ⟨0, t.col.pos⟩
  if h : (t.row : Nat) + 1 < rows then { t with row := ⟨t.row + 1, h⟩, col := first }
  else { t with cells := fun r c => if h : (r : Nat) + 1 < rows then t.cells ⟨r + 1, h⟩ c else blank, col := first }

/-- Write the cell at the cursor. -/
def write (a : α) (t : Teletype rows cols α) : Teletype rows cols α :=
  { t with cells := Function.update t.cells t.row (Function.update (t.cells t.row) t.col a) }

/-- The next cell, which may be in the next row. -/
def advance (t : Teletype rows cols α) : Teletype rows cols α :=
  if h : (t.col : Nat) + 1 < cols then { t with col := ⟨t.col + 1, h⟩ } else t.nextRow blank

/-- Write a cell and move on. -/
def put (a : α) (t : Teletype rows cols α) : Teletype rows cols α := (t.write a).advance blank

/-- The cell before, which may be in the row above; before the first cell there is none. -/
def back (t : Teletype rows cols α) : Teletype rows cols α :=
  if (t.col : Nat) ≠ 0 then { t with col := ⟨t.col - 1, by omega⟩ }
  else if (t.row : Nat) ≠ 0 then
    { t with row := ⟨t.row - 1, by omega⟩, col := ⟨cols - 1, Nat.sub_lt t.col.pos Nat.one_pos⟩ }
  else t

/-- The number of a cell, row by row. -/
def number (r : Fin rows) (c : Fin cols) : Nat := r * cols + c

/-- The number of the cell at the cursor. -/
def pos (t : Teletype rows cols α) : Nat := number t.row t.col

/-- Go back and overwrite. -/
def rubOut (a : α) (t : Teletype rows cols α) : Teletype rows cols α := if t.pos = 0 then t else t.back.write a

/-- The cells by their numbers, and blanks behind them. -/
def tape (t : Teletype rows cols α) (n : Nat) : α :=
  if h : n < rows * cols then
    t.cells ⟨n / cols, (Nat.div_lt_iff_lt_mul t.col.pos).2 h⟩ ⟨n % cols, Nat.mod_lt _ t.col.pos⟩
  else blank

end Operations

/-! ### Numbers of cells -/

theorem number_div (r : Fin rows) (c : Fin cols) : number r c / cols = r := by
  rw [number, Nat.mul_comm, Nat.mul_add_div c.pos, Nat.div_eq_of_lt c.isLt, Nat.add_zero]

theorem number_mod (r : Fin rows) (c : Fin cols) : number r c % cols = c := by
  rw [number, Nat.mul_comm, Nat.mul_add_mod, Nat.mod_eq_of_lt c.isLt]

theorem number_inj {r r' : Fin rows} {c c' : Fin cols} : number r c = number r' c' ↔ r = r' ∧ c = c' := by
  constructor
  · intro h
    have hrow := congrArg (· / cols) h
    have hcol := congrArg (· % cols) h
    simp only [number_div, number_mod] at hrow hcol
    exact ⟨Fin.ext hrow, Fin.ext hcol⟩
  · rintro ⟨rfl, rfl⟩
    rfl

theorem number_lt (r : Fin rows) (c : Fin cols) : number r c < rows * cols := by
  rw [← Nat.div_lt_iff_lt_mul c.pos, number_div]
  exact r.isLt

/-- Every cell of the tape in front of the blanks has a row and a column. -/
theorem exists_number (hcols : 0 < cols) {n : Nat} (h : n < rows * cols) :
    ∃ (r : Fin rows) (c : Fin cols), n = number r c :=
  ⟨⟨n / cols, (Nat.div_lt_iff_lt_mul hcols).2 h⟩, ⟨n % cols, Nat.mod_lt _ hcols⟩, (Nat.div_add_mod' n cols).symm⟩

variable {blank : α} (t : Teletype rows cols α)

theorem tape_number (r : Fin rows) (c : Fin cols) : t.tape blank (number r c) = t.cells r c := by
  rw [tape, dif_pos (number_lt r c)]
  simp only [number_div, number_mod]

theorem tape_of_le {n : Nat} (h : rows * cols ≤ n) : t.tape blank n = blank :=
  dif_neg (Nat.not_lt.2 h)

theorem pos_lt : t.pos < rows * cols :=
  number_lt t.row t.col

theorem advance_of_lt (h : (t.col : Nat) + 1 < cols) : t.advance blank = { t with col := ⟨t.col + 1, h⟩ } :=
  dif_pos h

theorem advance_of_last (h : ¬(t.col : Nat) + 1 < cols) : t.advance blank = t.nextRow blank :=
  dif_neg h

/-! ### The operations on the tape -/

/-- A tape is known by its cells. -/
private theorem tape_ext {u : Teletype rows cols α} {f : Nat → α} (hcells : ∀ r c, u.cells r c = f (number r c))
    (hbehind : ∀ n, rows * cols ≤ n → f n = blank) : u.tape blank = f := by
  funext n
  by_cases h : n < rows * cols
  · obtain ⟨r, c, rfl⟩ := exists_number u.col.pos h
    rw [tape_number, hcells]
  · rw [tape_of_le _ (Nat.not_lt.1 h), hbehind n (Nat.not_lt.1 h)]

theorem tape_write (a : α) : (t.write a).tape blank = Function.update (t.tape blank) t.pos a := by
  apply tape_ext
  · intro r c
    by_cases hcell : r = t.row ∧ c = t.col
    · rw [hcell.1, hcell.2]
      simp [write, pos]
    · have hne : number r c ≠ t.pos := mt number_inj.1 hcell
      rw [Function.update_of_ne hne, tape_number, write]
      by_cases hrow : r = t.row
      · have hcol : c ≠ t.col := fun h => hcell ⟨hrow, h⟩
        subst hrow
        simp [hcol]
      · simp [hrow]
  · intro n hn
    have hpos := t.pos_lt
    have hne : n ≠ t.pos := by omega
    rw [Function.update_of_ne hne, tape_of_le _ hn]

/-- The next row begins at a multiple of the width, but for the rows that move up. -/
theorem nextRow_tape (blank : α) : ∃ d, (d = 0 ∨ d = cols ∧ (t.row : Nat) + 1 = rows) ∧
    (t.nextRow blank).pos + d = (t.row + 1) * cols ∧ ∀ n, (t.nextRow blank).tape blank n = t.tape blank (n + d) := by
  unfold nextRow
  dsimp only
  split
  · exact ⟨0, .inl rfl, by simp [pos, number], fun n => rfl⟩
  · rename_i hlast
    have hrow : (t.row : Nat) + 1 = rows := by
      have := t.row.isLt
      omega
    refine ⟨cols, .inr ⟨rfl, hrow⟩, by simp [pos, number, Nat.succ_mul], ?_⟩
    apply congrFun
    apply tape_ext (f := fun n => t.tape blank (n + cols))
    · intro r c
      dsimp only
      split
      · rename_i hr
        have hnext : number r c + cols = number (⟨r + 1, hr⟩ : Fin rows) c := by
          simp only [number, Nat.succ_mul]
          omega
        rw [hnext, tape_number]
      · rename_i hr
        have hr' : (r : Nat) + 1 = rows := by
          have := r.isLt
          omega
        have hsize : rows * cols = (r + 1) * cols := by rw [hr']
        rw [tape_of_le]
        rw [hsize, number, Nat.succ_mul]
        omega
    · exact fun n hn => tape_of_le _ (by omega)

/-- To put a cell is to write it on the tape and to move the window by what the grid has scrolled. -/
theorem put_tape (blank a : α) : ∃ d, (d = 0 ∨ d = cols ∧ t.pos + 1 = rows * cols) ∧
    (t.put blank a).pos + d = t.pos + 1 ∧
    ∀ n, (t.put blank a).tape blank n = Function.update (t.tape blank) t.pos a (n + d) := by
  rw [← tape_write, put, advance]
  split
  · exact ⟨0, .inl rfl, (Nat.add_assoc _ _ _).symm, fun n => rfl⟩
  · rename_i hlast
    have hcol : (t.col : Nat) + 1 = cols := by
      have := t.col.isLt
      have hsame : (t.write a).col = t.col := rfl
      omega
    have hpos : t.pos + 1 = (t.row + 1) * cols := by
      rw [pos, number, Nat.succ_mul]
      omega
    obtain ⟨d, hd, hcursor, htape⟩ := (t.write a).nextRow_tape blank
    refine ⟨d, ?_, hcursor.trans hpos.symm, htape⟩
    rcases hd with hd | ⟨hd, hrow⟩
    · exact .inl hd
    · have hrow' : (t.row : Nat) + 1 = rows := hrow
      exact .inr ⟨hd, by rw [hpos, hrow']⟩

theorem back_pos (h : t.pos ≠ 0) : t.back.pos + 1 = t.pos := by
  have hcols := t.col.pos
  rw [pos, number] at h
  unfold back
  split
  · simp only [pos, number]
    omega
  · rename_i hcol
    have hcol' : (t.col : Nat) = 0 := not_not.1 hcol
    split
    · rename_i hrow
      obtain ⟨r, hr⟩ : ∃ r, (t.row : Nat) = r + 1 := Nat.exists_eq_succ_of_ne_zero hrow
      simp only [pos, number, hcol', hr, Nat.succ_mul, Nat.add_sub_cancel]
      omega
    · rename_i hrow
      rw [not_not.1 hrow, hcol'] at h
      simp at h

/-- To rub out is to write on the tape before the cursor. -/
theorem rubOut_tape (blank a : α) (h : t.pos ≠ 0) : (t.rubOut a).pos + 1 = t.pos ∧
    (t.rubOut a).tape blank = Function.update (t.tape blank) (t.pos - 1) a := by
  have hback := t.back_pos h
  have hsame : t.back.tape blank = t.tape blank := by
    unfold back
    split_ifs <;> rfl
  rw [rubOut, if_neg h, tape_write, hsame, show t.pos - 1 = t.back.pos by omega]
  exact ⟨hback, rfl⟩

/-! ### A line on the teletype -/

/-- The teletype shows `text` in the cells from `start` on, with the cursor behind it.  The cells that follow, up to
`most` in all, are rubbed out or blank.  The other ones are those of the tape `before`, `scrolled` cells further on. -/
structure Displays (blank rubbed : α) (before : Nat → α) (t : Teletype rows cols α) (text : List α)
    (start scrolled most : Nat) : Prop where
  cursor : t.pos = start + text.length
  shown : ∀ i (h : i < text.length), t.tape blank (start + i) = text[i]
  erased : ∀ i, text.length ≤ i → i < most → t.tape blank (start + i) = rubbed ∨ t.tape blank (start + i) = blank
  kept : ∀ n, n < start ∨ start + most ≤ n → t.tape blank n = before (n + scrolled)
  longest : text.length ≤ most
  wholeRows : cols ∣ scrolled

section Displays

variable {t} {rubbed : α} {before : Nat → α} {line : List α} {start scrolled most : Nat}

theorem displays_nil : Displays blank rubbed (t.tape blank) t [] t.pos 0 0 where
  cursor := rfl
  shown i h := absurd h (Nat.not_lt_zero i)
  erased i _ h := absurd h (Nat.not_lt_zero i)
  kept _ _ := rfl
  longest := Nat.le_refl 0
  wholeRows := Nat.dvd_zero cols

/-- A line with room for another cell gets longer; the screen may scroll under it. -/
theorem Displays.put (h : Displays blank rubbed before t line start scrolled most) (a : α)
    (hroom : line.length + 1 + cols ≤ rows * cols) :
    ∃ start' d, start' + d = start ∧ Displays blank rubbed before (t.put blank a) (line ++ [a]) start' (scrolled + d)
      (max most (line.length + 1)) := by
  obtain ⟨d, hd, hcursor, htape⟩ := t.put_tape blank a
  have hpos := h.cursor
  have hfits : d ≤ start := by
    rcases hd with rfl | ⟨rfl, hend⟩
    · exact Nat.zero_le _
    · omega
  obtain ⟨start', rfl⟩ : ∃ start', start = start' + d := ⟨start - d, by omega⟩
  have hlen : (line ++ [a]).length = line.length + 1 := by simp
  have hkept : ∀ n, n + d ≠ t.pos → (t.put blank a).tape blank n = t.tape blank (n + d) :=
    fun n hn => (htape n).trans (Function.update_of_ne hn _ _)
  refine ⟨start', d, rfl, ?_, ?_, ?_, ?_, ?_, ?_⟩
  · omega
  · intro i hi
    rw [hlen] at hi
    have hcell : start' + i + d = start' + d + i := by omega
    rcases Nat.lt_succ_iff_lt_or_eq.1 hi with hlt | rfl
    · rw [hkept _ (by omega), hcell, h.shown i hlt, List.getElem_append_left hlt]
    · rw [htape, hcell, ← hpos, Function.update_self, List.getElem_concat_length rfl]
  · intro i hi hmost
    rw [hlen] at hi
    have hcell : start' + i + d = start' + d + i := by omega
    rw [hkept _ (by omega), hcell]
    exact h.erased i (by omega) (by omega)
  · intro n hn
    have hcell : n + (scrolled + d) = n + d + scrolled := by omega
    rw [hkept _ (by omega), hcell]
    exact h.kept _ (by omega)
  · omega
  · rcases hd with rfl | ⟨rfl, -⟩
    · exact h.wholeRows
    · exact Nat.dvd_add h.wholeRows (Nat.dvd_refl _)

/-- The last cell of a line is rubbed out. -/
theorem Displays.rubOut (h : Displays blank rubbed before t line start scrolled most) (hline : line ≠ []) :
    Displays blank rubbed before (t.rubOut rubbed) line.dropLast start scrolled most := by
  have hpos := h.cursor
  have hlen := List.length_pos_iff.2 hline
  have hlongest := h.longest
  obtain ⟨hcursor, htape⟩ := t.rubOut_tape blank rubbed (by omega)
  have hkept : ∀ n, n ≠ t.pos - 1 → (t.rubOut rubbed).tape blank n = t.tape blank n := by
    intro n hn
    rw [htape, Function.update_of_ne hn]
  have hdrop : line.dropLast.length = line.length - 1 := List.length_dropLast
  refine ⟨by omega, ?_, ?_, ?_, by omega, h.wholeRows⟩
  · intro i hi
    rw [hkept _ (by omega), h.shown i (by omega), List.getElem_dropLast]
  · intro i hi hmost
    by_cases hlast : start + i = t.pos - 1
    · left
      rw [htape, hlast, Function.update_self]
    · rw [hkept _ hlast]
      exact h.erased i (by omega) hmost
  · intro n hn
    rw [hkept _ (by omega)]
    exact h.kept n hn

end Displays

end Teletype
