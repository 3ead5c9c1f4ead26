import BigChungOS.BlinkList
import BigChungOS.Screen

/-!
# The program fish (fish.c)

`add_frames` reads two text files side by side, a character of each at a time, and adds a blink for every cell in which
one of them is not blank.  A line that has ended, and a file that has, count as blanks, so that what it adds is the
overlay of the two texts (`addFrames_overlay`).  `main` adds the two frames, lets them blink, and adds, synchronises and
removes one blink more.  Unless a cell of the frames comes to location 0, which wraps around only from row 818 on, it
runs to its end, and leaves what the sequence of its calls makes of the overlay (`fish_runs`).
-/

namespace BigChungOS

open Loops

/-! ### add_frames -/

/-- One of the two files: the bytes still to be read, the last character, and whether the file has ended. -/
structure FrameFile where
  rest : List UInt8
  c : UInt8
  eof : Bool

namespace FrameFile

/-- `if(c0 != '\n')`: read a character, or find the end of the file. -/
def read (f : FrameFile) : FrameFile :=
  if f.c ≠ newline then
    match f.rest with
    | [] => { f with c := newline, eof := true }
    | c :: rest => { f with rest := rest, c := c }
  else f

/-- What is done to a file at the end of a row. -/
def endRow (f : FrameFile) : FrameFile := { f with c := if f.eof then newline else 0x30 }

/-- A file that has been opened. -/
def opened (contents : List UInt8) : FrameFile := { rest := contents, c := 0x30, eof := false }

end FrameFile

/-- The variables of `add_frames`. -/
structure Frames where
  file0 : FrameFile
  file1 : FrameFile
  row : Nat
  fish : Fish

/-- `blink_struct`, as it is filled in for a cell; the other fields are not written before `mp1_ioctl` gets it. -/
def frameBlink (local_ : Mp1BlinkStruct) (row col : Nat) (c0 c1 : UInt8) : Mp1BlinkStruct :=
  { local_ with
    onLength := 15
    offLength := 15
    onChar := if c0 = newline then space else c0
    offChar := if c1 = newline then space else c1
    location := UInt16.ofNat (row * 80 + col + 40) }

/-- `while(1)`: a round for the next column. -/
def columnRound (local_ : Mp1BlinkStruct) : Frames × Nat → (Frames × Nat) ⊕ Frames
  | (s, col) =>
    let s := { s with file0 := s.file0.read, file1 := s.file1.read }
    if s.file0.c = newline ∧ s.file1.c = newline then .inr s
    else if (s.file0.c ≠ space ∧ s.file0.c ≠ newline) ∨ (s.file1.c ≠ space ∧ s.file1.c ≠ newline) then
      .inl ({ s with fish := (s.fish.mp1IoctlAdd (frameBlink local_ s.row col s.file0.c s.file1.c)).1 }, col + 1)
    else .inl (s, col + 1)

/-- `while(eof0 == 0 || eof1 == 0)`: a round for the next row, with at most `n` columns. -/
def rowRound (local_ : Mp1BlinkStruct) (n : Nat) (s : Frames) : Frames ⊕ Option Frames :=
  if s.file0.eof = false ∨ s.file1.eof = false then
    match loop (columnRound local_) n (s, 0) with
    | none => .inr none
    | some s => .inl { s with file0 := s.file0.endRow, file1 := s.file1.endRow, row := s.row + 1 }
  else .inr (some s)

/-- `add_frames`, for the contents of the two files, with at most `n` rows and `n` columns. -/
def addFrames (local_ : Mp1BlinkStruct) (n : Nat) (s : Fish) (contents0 contents1 : List UInt8) : Option Fish :=
  match loop (rowRound local_ n) n ⟨.opened contents0, .opened contents1, 0, s⟩ with
  | some (some s) => some s.fish
  | _ => none

/-! ### The overlay -/

/-- The blink for a cell, if it is not blank in both texts. -/
def cellBlink (local_ : Mp1BlinkStruct) (row col : Nat) (c0 c1 : UInt8) : Option Mp1BlinkStruct :=
  if c0 ≠ space ∨ c1 ≠ space then some (frameBlink local_ row col c0 c1) else none

/-- The blinks for a row, from column `col` on. -/
def rowBlinks (local_ : Mp1BlinkStruct) (row col : Nat) (line0 line1 : List UInt8) : List Mp1BlinkStruct :=
  (List.range (max line0.length line1.length)).filterMap fun i =>
    cellBlink local_ row (col + i) (line0.getD i space) (line1.getD i space)

/-- The blinks for two texts, given by their lines, from row `row` on. -/
def frameBlinks (local_ : Mp1BlinkStruct) (row : Nat) (lines0 lines1 : List (List UInt8)) : List Mp1BlinkStruct :=
  (List.range (max lines0.length lines1.length)).flatMap fun i =>
    rowBlinks local_ (row + i) 0 (lines0.getD i []) (lines1.getD i [])

/-- All of them added, one after the other. -/
def addAll (s : Fish) (users : List Mp1BlinkStruct) : Fish := users.foldl (fun s user => (s.mp1IoctlAdd user).1) s

private theorem addAll_append (s : Fish) (us vs : List Mp1BlinkStruct) :
    addAll s (us ++ vs) = addAll (addAll s us) vs :=
  List.foldl_append ..

section Overlay

variable {local_ : Mp1BlinkStruct} {row col : Nat} {line0 line1 : List UInt8} {lines0 lines1 : List (List UInt8)}

private theorem getD_zero {α : Type*} (l : List α) (d : α) : l.getD 0 d = l.headD d := by cases l <;> rfl

private theorem getD_succ {α : Type*} (l : List α) (i : Nat) (d : α) : l.getD (i + 1) d = l.tail.getD i d := by
  cases l <;> rfl

/-- The first column, and the others. -/
private theorem rowBlinks_step (h : ¬(line0 = [] ∧ line1 = [])) :
    rowBlinks local_ row col line0 line1 =
      (cellBlink local_ row col (line0.headD space) (line1.headD space)).toList ++
        rowBlinks local_ row (col + 1) line0.tail line1.tail := by
  have hlength : max line0.length line1.length = max line0.tail.length line1.tail.length + 1 := by
    rw [List.length_tail, List.length_tail]
    have hpos : 0 < line0.length ∨ 0 < line1.length := by
      simp only [List.length_pos_iff]
      tauto
    omega
  have hrest : (fun i => cellBlink local_ row (col + (i + 1)) (line0.getD (i + 1) space) (line1.getD (i + 1) space)) =
      fun i => cellBlink local_ row (col + 1 + i) (line0.tail.getD i space) (line1.tail.getD i space) := by
    funext i
    rw [getD_succ, getD_succ, Nat.add_assoc, Nat.add_comm 1 i]
  rw [rowBlinks, hlength, List.range_succ_eq_map, List.filterMap_cons, List.filterMap_map, getD_zero, getD_zero]
  show _ = _ ++ (List.range _).filterMap _
  rw [← hrest]
  rw [Nat.add_zero]
  cases cellBlink local_ row col (line0.headD space) (line1.headD space) <;> rfl

private theorem frameBlinks_nil : frameBlinks local_ row [] [] = [] := rfl

/-- The first row, and the others. -/
private theorem frameBlinks_step (h : ¬(lines0 = [] ∧ lines1 = [])) :
    frameBlinks local_ row lines0 lines1 =
      rowBlinks local_ row 0 (lines0.headD []) (lines1.headD []) ++
        frameBlinks local_ (row + 1) lines0.tail lines1.tail := by
  have hlength : max lines0.length lines1.length = max lines0.tail.length lines1.tail.length + 1 := by
    rw [List.length_tail, List.length_tail]
    have hpos : 0 < lines0.length ∨ 0 < lines1.length := by
      simp only [List.length_pos_iff]
      tauto
    omega
  have hrest : (fun i => rowBlinks local_ (row + (i + 1)) 0 (lines0.getD (i + 1) []) (lines1.getD (i + 1) [])) =
      fun i => rowBlinks local_ (row + 1 + i) 0 (lines0.tail.getD i []) (lines1.tail.getD i []) := by
    funext i
    rw [getD_succ, getD_succ, Nat.add_assoc, Nat.add_comm 1 i]
  rw [frameBlinks, hlength, List.range_succ_eq_map, List.flatMap_cons, List.flatMap_map, getD_zero, getD_zero, hrest]
  rfl

end Overlay

/-! ### A file, line by line -/

/-- What follows a line: the end of the file, or a newline and the rest. -/
def behindLine : Option (List UInt8) → List UInt8
  | none => []
  | some rest => newline :: rest

/-- The lines that are left. -/
def linesLeft : Option (List UInt8) → List (List UInt8)
  | none => []
  | some rest => rest.splitOn newline

/-- The first line of a text, and what follows it. -/
private theorem exists_line (rest : List UInt8) :
    ∃ line after, rest = line ++ behindLine after ∧ newline ∉ line ∧
      linesLeft (some rest) = line :: linesLeft after := by
  have hcut : ∃ line after, rest = line ++ behindLine after ∧ newline ∉ line := by
    induction rest with
    | nil => exact ⟨[], none, rfl, List.not_mem_nil⟩
    | cons c rest ih =>
      by_cases hc : c = newline
      · exact ⟨[], some rest, by rw [hc]; rfl, List.not_mem_nil⟩
      · obtain ⟨line, after, hrest, hline⟩ := ih
        refine ⟨c :: line, after, by rw [hrest]; rfl, ?_⟩
        rw [List.mem_cons, not_or]
        exact ⟨Ne.symm hc, hline⟩
  obtain ⟨line, after, rfl, hline⟩ := hcut
  refine ⟨line, after, rfl, hline, ?_⟩
  cases after with
  | none =>
    rw [behindLine, List.append_nil]
    exact List.splitOn_eq_singleton hline
  | some rest => exact List.splitOn_append_cons_self_of_not_mem hline rest

namespace FrameFile

/-- Before a row. -/
def Before (f : FrameFile) : Option (List UInt8) → Prop
  | none => f = ⟨[], newline, true⟩
  | some rest => f = .opened rest

/-- Behind the line of a row. -/
def Behind (f : FrameFile) : Option (List UInt8) → Prop
  | none => f = ⟨[], newline, true⟩
  | some rest => f = ⟨rest, newline, false⟩

/-- In a row: `line` is what is left of its line. -/
def InRow (f : FrameFile) (line : List UInt8) (after : Option (List UInt8)) : Prop :=
  newline ∉ line ∧
    (f.c ≠ newline ∧ f.eof = false ∧ f.rest = line ++ behindLine after ∨ line = [] ∧ f.Behind after)

variable {f : FrameFile} {line : List UInt8} {after : Option (List UInt8)}

theorem Behind.c (h : f.Behind after) : f.c = newline := by
  cases after <;> rw [h]

theorem Behind.read (h : f.Behind after) : f.read = f := by
  rw [FrameFile.read, if_neg (not_not.2 h.c)]

private theorem Behind.endRow (h : f.Behind after) : f.endRow.Before after := by
  cases after with
  | none => rw [show f = _ from h]; rfl
  | some rest => rw [show f = _ from h]; rfl

/-- A read gets the next character of the line, or finds its end. -/
theorem InRow.read (h : f.InRow line after) :
    f.read.c = line.headD newline ∧ f.read.InRow line.tail after ∧ (line = [] → f.read.Behind after) := by
  obtain ⟨hline, ⟨hc, heof, hrest⟩ | ⟨rfl, hbehind⟩⟩ := h
  · cases line with
    | nil =>
      have hread : f.read.Behind after := by
        rw [FrameFile.read, if_pos hc, hrest]
        cases after with
        | none => simp [behindLine, Behind]
        | some rest => simp [behindLine, Behind, heof]
      exact ⟨hread.c, ⟨List.not_mem_nil, .inr ⟨rfl, hread⟩⟩, fun _ => hread⟩
    | cons c line =>
      rw [List.mem_cons, not_or] at hline
      have hread : f.read = ⟨line ++ behindLine after, c, false⟩ := by
        rw [FrameFile.read, if_pos hc, hrest, List.cons_append, heof]
      rw [hread]
      exact ⟨rfl, ⟨hline.2, .inl ⟨Ne.symm hline.1, rfl, rfl⟩⟩, fun hnil => by cases hnil⟩
  · rw [hbehind.read]
    exact ⟨hbehind.c, ⟨List.not_mem_nil, .inr ⟨rfl, hbehind⟩⟩, fun _ => hbehind⟩

/-- A row starts with the next line, or with none if the file has ended. -/
private theorem Before.inRow (h : f.Before after) :
    ∃ line next, f.InRow line next ∧ line = (linesLeft after).headD [] ∧ linesLeft next = (linesLeft after).tail ∧
      line.length ≤ f.rest.length ∧ ∀ g : FrameFile, g.Behind next → g.rest.length ≤ f.rest.length := by
  cases after with
  | none =>
    refine ⟨[], none, ⟨List.not_mem_nil, .inr ⟨rfl, h⟩⟩, rfl, rfl, Nat.zero_le _, fun g hg => ?_⟩
    rw [show g = _ from hg, show f = _ from h]
  | some rest =>
    obtain ⟨line, next, rfl, hline, hlines⟩ := exists_line rest
    rw [show f = _ from h]
    refine ⟨line, next, ⟨hline, .inl ⟨show (0x30 : UInt8) ≠ newline by decide, rfl, rfl⟩⟩, by rw [hlines]; rfl,
      by rw [hlines]; rfl, ?_, ?_⟩
    · simp [opened]
    · intro g hg
      cases next with
      | none =>
        rw [show g = _ from hg]
        exact Nat.zero_le _
      | some rest =>
        rw [show g = _ from hg]
        simp only [opened, behindLine, List.length_append, List.length_cons]
        omega

end FrameFile

/-! ### The loops -/

section Loops

variable {local_ : Mp1BlinkStruct} {line0 line1 : List UInt8} {after0 after1 : Option (List UInt8)}

/-- What the first column adds. -/
private theorem columnRound_spec (local_ : Mp1BlinkStruct) {s : Frames} (h0 : s.file0.InRow line0 after0)
    (h1 : s.file1.InRow line1 after1) (col : Nat) :
    columnRound local_ (s, col) =
      if line0 = [] ∧ line1 = [] then .inr { s with file0 := s.file0.read, file1 := s.file1.read }
      else .inl ({ s with
        file0 := s.file0.read
        file1 := s.file1.read
        fish := addAll s.fish (cellBlink local_ s.row col (line0.headD space) (line1.headD space)).toList },
        col + 1) := by
  have hends : ∀ {f : FrameFile} {line after}, f.InRow line after → (f.read.c = newline ↔ line = []) := by
    intro f line after h
    rw [h.read.1]
    cases line with
    | nil => simp
    | cons c line => simpa using Ne.symm (List.ne_of_not_mem_cons h.1)
  have hblank : ∀ {f : FrameFile} {line after}, f.InRow line after →
      ((f.read.c ≠ space ∧ f.read.c ≠ newline ↔ line.headD space ≠ space) ∧
        (if f.read.c = newline then space else f.read.c) = line.headD space) := by
    intro f line after h
    have hread := h.read.1
    cases line with
    | nil => simp [hread]
    | cons c line =>
      have hc : c ≠ newline := Ne.symm (List.ne_of_not_mem_cons h.1)
      simp [hread, hc]
  obtain ⟨hblank0, hchar0⟩ := hblank h0
  obtain ⟨hblank1, hchar1⟩ := hblank h1
  simp only [columnRound, hends h0, hends h1, hblank0, hblank1]
  by_cases hends : line0 = [] ∧ line1 = []
  · rw [if_pos hends, if_pos hends]
  · rw [if_neg hends, if_neg hends]
    by_cases hcell : line0.headD space ≠ space ∨ line1.headD space ≠ space
    · have hblink : frameBlink local_ s.row col s.file0.read.c s.file1.read.c =
          frameBlink local_ s.row col (line0.headD space) (line1.headD space) := by
        have hchar : ∀ {line : List UInt8} {f : FrameFile} {after}, f.InRow line after →
            (if line.headD space = newline then space else line.headD space) = line.headD space := by
          intro line f after h
          cases line with
          | nil => rfl
          | cons c line => exact if_neg (Ne.symm (List.ne_of_not_mem_cons h.1))
        simp only [frameBlink, hchar0, hchar1, hchar h0, hchar h1]
      rw [if_pos hcell, cellBlink, if_pos hcell, hblink]
      rfl
    · rw [if_neg hcell, cellBlink, if_neg hcell]
      rfl

/-- A row. -/
private theorem loop_columnRound (local_ : Mp1BlinkStruct) (col : Nat) {s : Frames} (h0 : s.file0.InRow line0 after0)
    (h1 : s.file1.InRow line1 after1) {n : Nat} (hn : max line0.length line1.length < n) :
    ∃ s', loop (columnRound local_) n (s, col) = some s' ∧ s'.file0.Behind after0 ∧ s'.file1.Behind after1 ∧
      s'.row = s.row ∧ s'.fish = addAll s.fish (rowBlinks local_ s.row col line0 line1) := by
  induction n generalizing s line0 line1 col with
  | zero => omega
  | succ n ih =>
    have hround := columnRound_spec local_ h0 h1 col
    obtain ⟨-, hnext0, hlast0⟩ := h0.read
    obtain ⟨-, hnext1, hlast1⟩ := h1.read
    by_cases hends : line0 = [] ∧ line1 = []
    · rw [if_pos hends] at hround
      obtain ⟨rfl, rfl⟩ := hends
      exact ⟨_, loop_inr hround n, hlast0 rfl, hlast1 rfl, rfl, rfl⟩
    · rw [if_neg hends] at hround
      have hlength : max line0.tail.length line1.tail.length < n := by
        rw [List.length_tail, List.length_tail]
        have hpos : 0 < line0.length ∨ 0 < line1.length := by
          simp only [List.length_pos_iff]
          tauto
        omega
      obtain ⟨s', hloop, hbehind0, hbehind1, hrow, hfish⟩ := ih (col + 1) (s := { s with
        file0 := s.file0.read
        file1 := s.file1.read
        fish := addAll s.fish (cellBlink local_ s.row col (line0.headD space) (line1.headD space)).toList })
        hnext0 hnext1 hlength
      refine ⟨s', (loop_inl hround n).trans hloop, hbehind0, hbehind1, hrow, ?_⟩
      rw [hfish, rowBlinks_step hends, addAll_append]

/-- All rows. -/
private theorem loop_rowRound (local_ : Mp1BlinkStruct) {s : Frames} (h0 : s.file0.Before after0)
    (h1 : s.file1.Before after1) {n m : Nat}
    (hm0 : s.file0.rest.length < m) (hm1 : s.file1.rest.length < m)
    (hn : max (linesLeft after0).length (linesLeft after1).length < n) :
    ∃ s', loop (rowRound local_ m) n s = some (some s') ∧
      s'.fish = addAll s.fish (frameBlinks local_ s.row (linesLeft after0) (linesLeft after1)) := by
  have heof : ∀ {f : FrameFile} {after}, f.Before after → (f.eof = false ↔ linesLeft after ≠ []) := by
    intro f after h
    cases after with
    | none => simp [show f = _ from h, linesLeft]
    | some rest => simp [show f = _ from h, linesLeft, FrameFile.opened]
  induction n generalizing s after0 after1 with
  | zero => omega
  | succ n ih =>
    by_cases hends : linesLeft after0 = [] ∧ linesLeft after1 = []
    · have hround : rowRound local_ m s = .inr (some s) := by
        rw [rowRound, if_neg]
        rw [heof h0, heof h1]
        tauto
      refine ⟨s, loop_inr hround n, ?_⟩
      rw [hends.1, hends.2, frameBlinks_nil]
      rfl
    · obtain ⟨line0, next0, hrow0, hline0, hnext0, hlength0, hrest0⟩ := h0.inRow
      obtain ⟨line1, next1, hrow1, hline1, hnext1, hlength1, hrest1⟩ := h1.inRow
      obtain ⟨t, hloop, hbehind0, hbehind1, hrow, hfish⟩ := loop_columnRound local_ 0 hrow0 hrow1 (n := m)
        (by omega)
      have hround : rowRound local_ m s =
          .inl { t with file0 := t.file0.endRow, file1 := t.file1.endRow, row := t.row + 1 } := by
        rw [rowRound, if_pos]
        · simp only [hloop]
        · rw [heof h0, heof h1]
          tauto
      have hcount : max (linesLeft next0).length (linesLeft next1).length < n := by
        rw [hnext0, hnext1, List.length_tail, List.length_tail]
        have hpos : 0 < (linesLeft after0).length ∨ 0 < (linesLeft after1).length := by
          simp only [List.length_pos_iff]
          tauto
        omega
      have hless0 := hrest0 t.file0 hbehind0
      have hless1 := hrest1 t.file1 hbehind1
      obtain ⟨s', hrest, hall⟩ := ih
        (s := { t with file0 := t.file0.endRow, file1 := t.file1.endRow, row := t.row + 1 })
        hbehind0.endRow hbehind1.endRow (Nat.lt_of_le_of_lt hless0 hm0) (Nat.lt_of_le_of_lt hless1 hm1) hcount
      refine ⟨s', (loop_inl hround n).trans hrest, ?_⟩
      rw [hall, frameBlinks_step hends, addAll_append, hfish, hrow, hline0, hline1, hnext0, hnext1]

end Loops

private theorem length_splitOn_le (contents : List UInt8) :
    (contents.splitOn newline).length ≤ contents.length + 1 := by
  induction contents with
  | nil => simp
  | cons c contents ih =>
    rw [List.splitOn_cons_eq_if_modifyHead]
    split
    · simpa using ih
    · rw [List.length_modifyHead, List.length_cons]
      omega

/-- `add_frames` ends, and adds the overlay of the two texts, row by row and column by column. -/
theorem addFrames_overlay (local_ : Mp1BlinkStruct) (s : Fish) {contents0 contents1 : List UInt8} {n : Nat}
    (hn : max contents0.length contents1.length + 1 < n) :
    addFrames local_ n s contents0 contents1 =
      some (addAll s (frameBlinks local_ 0 (contents0.splitOn newline) (contents1.splitOn newline))) := by
  have hlines0 := length_splitOn_le contents0
  have hlines1 := length_splitOn_le contents1
  have hcount : max (linesLeft (some contents0)).length (linesLeft (some contents1)).length < n := by
    simp only [linesLeft]
    omega
  have hbefore : ∀ contents : List UInt8, (FrameFile.opened contents).Before (some contents) := fun _ => rfl
  obtain ⟨s', hloop, hfish⟩ := loop_rowRound local_ (s := ⟨.opened contents0, .opened contents1, 0, s⟩)
    (hbefore contents0) (hbefore contents1) (m := n) (show contents0.length < n by omega)
    (show contents1.length < n by omega) hcount
  rw [addFrames, hloop]
  exact congrArg some hfish

/-- Two small frames. -/
theorem two_frames_overlay :
    addFrames .zero 10 (Fish.start fun _ => 0) (asBytes "a b\n") (asBytes " c") =
      some (addAll (Fish.start fun _ => 0) [frameBlink .zero 0 0 97 32, frameBlink .zero 0 1 32 99,
        frameBlink .zero 0 2 98 32]) := by
  have h := @addFrames_overlay .zero (Fish.start fun _ => 0) (asBytes "a b\n") (asBytes " c") 10 (by decide)
  have hcells : frameBlinks .zero 0 ((asBytes "a b\n").splitOn newline) ((asBytes " c").splitOn newline) =
      [frameBlink .zero 0 0 97 32, frameBlink .zero 0 1 32 99, frameBlink .zero 0 2 98 32] := by decide +kernel
  rw [hcells] at h
  exact h

/-! ### main -/

/-- `for(i=0; i<WAIT; i++)`: `k` ticks of the clock, with at most `n` rounds in each. -/
def waitTicks (n : Nat) : Nat → Fish → Option Fish
  | 0, s => some s
  | k + 1, s =>
    match s.mp1RtcTasklet n with
    | none => none
    | some s => waitTicks n k s

/-- The rest of `main`, after the frames have been added; `blink_struct` is filled in but for three fields. -/
def fishMainRest (n : Nat) (s : Fish) : Option (Fish × Int) :=
  match waitTicks n 100 s with
  | none => none
  | some s =>
  match waitTicks n 100 (s.mp1IoctlAdd fishBlink).1 with
  | none => none
  | some s =>
  match s.mp1IoctlSync n 0x28021C with
  | none => none
  | some (s, _) =>
  match waitTicks n 100 s with
  | none => none
  | some s =>
  match s.mp1IoctlRemove n 540 with
  | none => none
  | some (s, _) => (waitTicks n 100 s).map fun s => (s, 0)

/-- `main`, for the video memory that `sys_vidmap` gives (`none` if it fails) and the contents of the two files (`none`
if one cannot be opened).  `ece391_halt(-1)` is a return of -1. -/
def fishMain (local_ : Mp1BlinkStruct) (n : Nat) (video : Option (Nat → UInt8))
    (frame0 frame1 : Option (List UInt8)) : Option (Fish × Int) :=
  match video with
  | none => some (Fish.start fun _ => 0, -1)
  | some video =>
    match frame0, frame1 with
    | some contents0, some contents1 =>
      match addFrames local_ n (Fish.start video) contents0 contents1 with
      | none => none
      | some s => fishMainRest n s
    | _, _ => some (Fish.start video, -1)

/-- The calls that `main` makes, for the blinks of its frames. -/
def fishCalls (users : List Mp1BlinkStruct) : List BlinkCall :=
  users.map .add ++ (List.replicate 100 .tick ++ (.add fishBlink :: (List.replicate 100 .tick ++
    (.sync 0x28021C :: (List.replicate 100 .tick ++ (.remove 540 :: List.replicate 100 .tick))))))

section Main

variable {n : Nat} {s : Fish}

/-- The state after calls. -/
def Fish.after (n : Nat) (s : Fish) (cs : List BlinkCall) : Option Fish := (s.calls n cs).map Prod.fst

private theorem after_cons (s : Fish) (c : BlinkCall) (cs : List BlinkCall) :
    s.after n (c :: cs) = (s.call n c).bind fun t => t.1.after n cs := by
  simp only [Fish.after, Fish.calls]
  cases s.call n c with
  | none => rfl
  | some t =>
    obtain ⟨s', r⟩ := t
    simp only [Option.bind_some, Option.map_map]
    rfl

private theorem after_append (s : Fish) (as bs : List BlinkCall) :
    s.after n (as ++ bs) = (s.after n as).bind fun s' => s'.after n bs := by
  induction as generalizing s with
  | nil => rfl
  | cons c as ih =>
    rw [List.cons_append, after_cons, after_cons]
    cases s.call n c with
    | none => rfl
    | some t => exact ih t.1

private theorem after_adds (s : Fish) (users : List Mp1BlinkStruct) :
    s.after n (users.map .add) = some (addAll s users) := by
  induction users generalizing s with
  | nil => rfl
  | cons user users ih =>
    rw [List.map_cons, after_cons]
    exact ih _

private theorem after_ticks (s : Fish) (k : Nat) : s.after n (List.replicate k .tick) = waitTicks n k s := by
  induction k generalizing s with
  | zero => rfl
  | succ k ih =>
    rw [List.replicate_succ, after_cons, waitTicks, Fish.call]
    cases s.mp1RtcTasklet n with
    | none => rfl
    | some s' => exact ih s'

/-- After the frames have been added, `main` makes the rest of its calls. -/
private theorem fishMainRest_eq (s : Fish) :
    fishMainRest n s =
      (s.after n (List.replicate 100 .tick ++ (.add fishBlink :: (List.replicate 100 .tick ++
        (.sync 0x28021C :: (List.replicate 100 .tick ++ (.remove 540 :: List.replicate 100 .tick))))))).map
          fun s => (s, 0) := by
  simp only [after_append, after_cons, after_ticks, Fish.call, fishMainRest]
  cases waitTicks n 100 s with
  | none => rfl
  | some s =>
  simp only [Option.bind_some]
  cases waitTicks n 100 (s.mp1IoctlAdd fishBlink).1 with
  | none => rfl
  | some s =>
  simp only [Option.bind_some]
  cases s.mp1IoctlSync n 0x28021C with
  | none => rfl
  | some t =>
  simp only [Option.map_some, Option.bind_some]
  cases waitTicks n 100 t.1 with
  | none => rfl
  | some s =>
  simp only [Option.bind_some]
  cases s.mp1IoctlRemove n 540 <;> rfl

end Main

/-- `main` of fish.  If the video memory is mapped, both files can be opened and no cell of theirs that is not blank
comes to location 0, then it returns 0, and it leaves what its calls make of the overlay of the two files. -/
theorem fish_runs {local_ : Mp1BlinkStruct} {video : Nat → UInt8} {contents0 contents1 : List UInt8} {n : Nat}
    (hn : 2000 < n) (hlength : max contents0.length contents1.length + 1 < n)
    (hzero : ∀ user ∈ frameBlinks local_ 0 (contents0.splitOn newline) (contents1.splitOn newline), user.location ≠ 0) :
    ∃ s, fishMain local_ n (some video) (some contents0) (some contents1) = some (s, 0) ∧
      Represents s ((⟨[], video⟩ : Blinks).calls
        (fishCalls (frameBlinks local_ 0 (contents0.splitOn newline) (contents1.splitOn newline)))).1 := by
  generalize hframes : frameBlinks local_ 0 (contents0.splitOn newline) (contents1.splitOn newline) = users at *
  have haway : ∀ c ∈ fishCalls users, c.AwayFromZero := by
    simp only [fishCalls, List.forall_mem_append, List.forall_mem_map, List.forall_mem_cons]
    have htick : ∀ c ∈ List.replicate 100 BlinkCall.tick, c.AwayFromZero := by
      intro c hc
      rw [List.eq_of_mem_replicate hc]
      trivial
    exact ⟨hzero, htick, show (540 : UInt16) ≠ 0 by decide, htick, trivial, htick, trivial, htick⟩
  obtain ⟨s, hcalls, hrepresents⟩ := calls_represents (start_represents video) haway hn
  refine ⟨s, ?_, hrepresents⟩
  have hafter : (Fish.start video).after n (fishCalls users) = some s := by rw [Fish.after, hcalls]; rfl
  rw [fishCalls, after_append, after_adds, Option.bind_some] at hafter
  rw [fishMain, addFrames_overlay local_ (Fish.start video) hlength, hframes]
  simp only [fishMainRest_eq, hafter, Option.map_some]

/-- Two frames of one character. -/
theorem small_fish_runs :
    ∃ s, fishMain .zero 2001 (some fun _ => 0) (some (asBytes "<")) (some (asBytes ">")) = some (s, 0) ∧
      Represents s ((⟨[], fun _ => 0⟩ : Blinks).calls
        (fishCalls (frameBlinks .zero 0 ((asBytes "<").splitOn newline) ((asBytes ">").splitOn newline)))).1 :=
  fish_runs (by decide) (by decide) (by decide +kernel)

end BigChungOS
