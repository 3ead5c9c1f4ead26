import BigChungOS.State

/-!
# The screen driver (lib.c)

`putc`, `rm_c`, `clear` and the cursor functions.  The work on the video memory is done by functions on `Screen`,
which get the globals of the other files as arguments; the kernel's functions pass the fields of the state.  The
hardware cursor (`update_cursor` writes two VGA registers nobody reads) is left out.

A character printed with the cursor inside the 80x25 grid touches only the page it goes to
(`Screen.putc_sameOutside`, `Screen.rmC_sameOutside`) and leaves the cursor inside the grid.
-/

namespace BigChungOS

open Memory

/-- `ATTRIB`. -/
def attrib : UInt8 := 0x7

/-- The newline character. -/
def newline : UInt8 := 0x0A

/-- The space character. -/
def space : UInt8 := 0x20

/-- `memmove`, the bytes one after the other: from the lowest up if the source is not below the destination, else from
the highest down. -/
def memmove (m : Nat → UInt8) (dest src n : Nat) : Nat → UInt8 :=
  if dest ≤ src then copyUp m dest src n else copyDown m dest src n

/-- The areas may overlap. -/
theorem memmove_eq_blit (m : Nat → UInt8) (dest src n : Nat) : memmove m dest src n = blit m dest src n := by
  unfold memmove
  split
  · rename_i hup
    exact copyUp_eq_blit hup n
  · rename_i hdown
    exact copyDown_eq_blit (Nat.le_of_not_le hdown) n

namespace Screen

/-- Store a character and its attribute in cell `n` of the page at `video_mem`. -/
def setCell (s : Screen) (n : Nat) (c : UInt8) : Screen :=
  { s with vram := Function.update (Function.update s.vram (s.videoMem + 2 * n) c) (s.videoMem + 2 * n + 1) attrib }

/-- The loop that blanks the row of the cursor, `while(idx<NUM_COLS)`. -/
def blankRow (s : Screen) : Screen :=
  (List.range 80).foldl (fun s idx => s.setCell (80 * s.screenY + s.screenX + idx) space) s

/-- `if(screen_y>=NUM_ROWS)`: move all rows up by one and blank the last one. -/
def scroll (s : Screen) : Screen :=
  if 25 ≤ s.screenY then
    blankRow { s with vram := blit s.vram s.videoMem (s.videoMem + 160) 3840, screenY := 24 }
  else s

/-- The rows are moved by `memmove`. -/
theorem scroll_memmove {s : Screen} (h : 25 ≤ s.screenY) : s.scroll =
    blankRow { s with vram := memmove s.vram s.videoMem (s.videoMem + 160) 3840, screenY := 24 } := by
  rw [memmove_eq_blit, scroll, if_pos h]

/-- The part of `putc` after its early returns. -/
def putChar (s : Screen) (c : UInt8) : Screen :=
  if c = newline ∨ c = 0x0D then
    scroll { s with screenY := s.screenY + 1, screenX := 0 }
  else
    let s := s.setCell (80 * s.screenY + s.screenX) c
    scroll { s with screenY := s.screenY + (s.screenX + 1) / 80, screenX := (s.screenX + 1) % 80 }

/-- `putc`: `videoBuffer` is that of `curr_terminal`, and `toMain` says that the character goes to `VIDEO`.  The
early returns leave `video_mem` pointing at the buffer. -/
def putc (s : Screen) (videoBuffer : Nat) (toMain : Bool) (c : UInt8) : Screen :=
  let videoMemBackup := s.videoMem
  let s := { s with videoMem := videoBuffer }
  if c = 0 then s
  else if c = newline ∧ s.screenX = 0 then s
  else if toMain then
    { ({ s with videoMem := mainVideo } : Screen).putChar c with videoMem := videoMemBackup }
  else s.putChar c

/-- The part of `rm_c` after its early returns. -/
def rmChar (s : Screen) : Screen :=
  let s := s.setCell (80 * s.screenY + s.screenX - 1) 0
  if s.screenX ≠ 0 then { s with screenX := s.screenX - 1 }
  else if s.screenY ≠ 0 then { s with screenX := 79, screenY := s.screenY - 1 }
  else s

/-- `rm_c`: `videoBuffer` is that of `on_screen`, `first` is `keyboard_buffer[0]`. -/
def rmC (s : Screen) (videoBuffer : Nat) (toMain : Bool) (first : UInt8) : Screen :=
  let videoMemBackup := s.videoMem
  let s := { s with videoMem := videoBuffer }
  if s.screenY = 0 ∧ s.screenX = 0 then s
  else if first = newline ∨ first = 0 then s
  else if toMain then
    { ({ s with videoMem := mainVideo } : Screen).rmChar with videoMem := videoMemBackup }
  else s.rmChar

/-- `clear`: blank the page at `video_mem` and copy it to the buffer of `on_screen`. -/
def clear (s : Screen) (videoBuffer : Nat) : Screen :=
  let s := (List.range 2000).foldl (fun s i => s.setCell i space) s
  { s with vram := blit s.vram videoBuffer s.videoMem 4096, screenX := 0, screenY := 0 }

end Screen

/-! ### The kernel's printing functions -/

/-- The test `on_screen == curr_terminal || keypress_to_vid_flag`. -/
def Kernel.toMain (k : Kernel) : Bool :=
  decide (k.onScreen = k.currTerminal) || k.keyboard.keypressToVidFlag

/-- `putc`. -/
def putc (k : Kernel) (c : UInt8) : Kernel :=
  { k with screen := k.screen.putc k.curr.videoBuffer k.toMain c }

/-- `rm_c`. -/
def rmC (k : Kernel) : Kernel :=
  { k with screen :=
      k.screen.rmC (k.terminals k.onScreen).videoBuffer k.toMain (k.keyboard.keyboardBuffer 0) }

/-- `clear`. -/
def clear (k : Kernel) : Kernel :=
  { k with screen := k.screen.clear (k.terminals k.onScreen).videoBuffer }

/-- `puts`, and `printf` of a text without conversions. -/
def puts (k : Kernel) (s : List UInt8) : Kernel := s.foldl putc k

/-- The digits `itoa` writes, most significant first, in front of `buf`. -/
def itoaDigits (radix : Nat) : Nat → Nat → List UInt8 → List UInt8
  | 0, _, buf => buf
  | fuel + 1, newval, buf =>
    if newval = 0 then buf
    else itoaDigits radix fuel (newval / radix)
      ((asBytes "0123456789ABCDEFGHIJKLMNOPQRSTUVWXYZ").getD (newval % radix) 0 :: buf)

/-- The text `itoa` produces; a 32-bit value has at most 32 digits. -/
def itoa (value radix : Nat) : List UInt8 :=
  if value = 0 then asBytes "0" else itoaDigits radix 32 value []

/-- `update_screen` and `update_screen_axis`. -/
def updateScreenAxis (k : Kernel) (x y : Nat) : Kernel :=
  { k with screen := { k.screen with screenX := x, screenY := y } }

/-! ### The cursor stays in the grid, the stores in the page -/

namespace Screen

/-- The cursor is inside the 80x25 grid. -/
def InGrid (s : Screen) : Prop := s.screenX < 80 ∧ s.screenY < 25

@[simp] theorem setCell_screenX (s : Screen) (n : Nat) (c : UInt8) : (s.setCell n c).screenX = s.screenX := rfl
@[simp] theorem setCell_screenY (s : Screen) (n : Nat) (c : UInt8) : (s.setCell n c).screenY = s.screenY := rfl
@[simp] theorem setCell_videoMem (s : Screen) (n : Nat) (c : UInt8) : (s.setCell n c).videoMem = s.videoMem := rfl

private theorem setCell_sameOutside (s : Screen) {n : Nat} (c : UInt8) (hn : n < 2000) :
    SameOutside s.vram (s.setCell n c).vram s.videoMem 4000 :=
  (sameOutside_update (by omega) (by omega)).trans (sameOutside_update (by omega) (by omega))

/-- A fold of `setCell` keeps the cursor and the video pointer, and stays in the page. -/
private theorem foldl_setCell {ι : Type*} (f : ι → Nat) (l : List ι) (c : UInt8) (hf : ∀ i ∈ l, f i < 2000)
    (s : Screen) :
    let s' := l.foldl (fun s i => s.setCell (f i) c) s
    s'.screenX = s.screenX ∧ s'.screenY = s.screenY ∧ s'.videoMem = s.videoMem ∧
      SameOutside s.vram s'.vram s.videoMem 4000 := by
  induction l generalizing s with
  | nil => exact ⟨rfl, rfl, rfl, SameOutside.refl _ _ _⟩
  | cons i l ih =>
    have hi := setCell_sameOutside s c (hf i (List.mem_cons_self ..))
    obtain ⟨hx, hy, hv, hm⟩ := ih (fun j hj => hf j (List.mem_cons_of_mem _ hj)) (s.setCell (f i) c)
    exact ⟨hx, hy, hv, hi.trans hm⟩

/-- The loop of `blankRow` with the cursor of its start: no iteration moves it. -/
theorem blankRow_eq (s : Screen) :
    s.blankRow = (List.range 80).foldl (fun t idx => t.setCell (80 * s.screenY + s.screenX + idx) space) s := by
  have key : ∀ (l : List Nat) (t : Screen), t.screenX = s.screenX → t.screenY = s.screenY →
      l.foldl (fun t idx => t.setCell (80 * t.screenY + t.screenX + idx) space) t =
        l.foldl (fun t idx => t.setCell (80 * s.screenY + s.screenX + idx) space) t := by
    intro l
    induction l with
    | nil => intro t _ _; rfl
    | cons i l ih =>
      intro t hx hy
      simp only [List.foldl_cons, hx, hy]
      exact ih _ hx hy
  exact key _ s rfl rfl

private theorem blankRow_spec (s : Screen) (hx : s.screenX = 0) (hy : s.screenY = 24) :
    s.blankRow.screenX = 0 ∧ s.blankRow.screenY = 24 ∧ s.blankRow.videoMem = s.videoMem ∧
      SameOutside s.vram s.blankRow.vram s.videoMem 4000 := by
  rw [blankRow_eq]
  have hcells : ∀ idx ∈ List.range 80, 80 * s.screenY + s.screenX + idx < 2000 := by
    intro idx hidx
    have := List.mem_range.1 hidx
    omega
  obtain ⟨h1, h2, h3, h4⟩ := foldl_setCell (fun idx => 80 * s.screenY + s.screenX + idx) _ space hcells s
  exact ⟨h1.trans hx, h2.trans hy, h3, h4⟩

/-- `scroll` with the cursor at most one row below the grid, and then in column 0. -/
private theorem scroll_spec (s : Screen) (hx : s.screenX < 80) (hy : s.screenY ≤ 25)
    (hcol : s.screenY = 25 → s.screenX = 0) :
    InGrid s.scroll ∧ s.scroll.videoMem = s.videoMem ∧ SameOutside s.vram s.scroll.vram s.videoMem 4000 := by
  unfold scroll
  by_cases h : 25 ≤ s.screenY
  · rw [if_pos h]
    have hmove : SameOutside s.vram (blit s.vram s.videoMem (s.videoMem + 160) 3840) s.videoMem 4000 :=
      (sameOutside_blit _ _ _ _).mono (le_refl _) (by omega)
    obtain ⟨h1, h2, h3, h4⟩ := blankRow_spec
      { s with vram := blit s.vram s.videoMem (s.videoMem + 160) 3840, screenY := 24 } (hcol (by omega)) rfl
    exact ⟨⟨by omega, by omega⟩, h3, hmove.trans h4⟩
  · rw [if_neg h]
    exact ⟨⟨hx, by omega⟩, rfl, SameOutside.refl _ _ _⟩

private theorem putChar_spec (s : Screen) (c : UInt8) (h : InGrid s) :
    InGrid (s.putChar c) ∧ (s.putChar c).videoMem = s.videoMem ∧
      SameOutside s.vram (s.putChar c).vram s.videoMem 4000 := by
  obtain ⟨hx, hy⟩ := h
  unfold putChar
  dsimp only
  split
  · exact scroll_spec _ (by simp) (by simp; omega) (fun _ => rfl)
  · have hcell := setCell_sameOutside s c (show 80 * s.screenY + s.screenX < 2000 by omega)
    obtain ⟨h1, h2, h3⟩ := scroll_spec
      { s.setCell (80 * s.screenY + s.screenX) c with
        screenY := s.screenY + (s.screenX + 1) / 80, screenX := (s.screenX + 1) % 80 }
      (by simp only; omega) (by simp only; omega) (by simp only; omega)
    exact ⟨h1, h2, hcell.trans h3⟩

/-- The cells of the screen are the first 4000 bytes of a page. -/
theorem inPage {m m' : Nat → UInt8} {page : Nat} (h : SameOutside m m' page 4000) : SameOutside m m' page 4096 :=
  h.mono (le_refl _) (by omega)

/-- The page a call of `putc` writes to. -/
def target (videoBuffer : Nat) (toMain : Bool) : Nat := if toMain then mainVideo else videoBuffer

theorem putc_inGrid {s : Screen} (h : InGrid s) (videoBuffer : Nat) (toMain : Bool) (c : UInt8) :
    InGrid (s.putc videoBuffer toMain c) := by
  unfold putc
  dsimp only
  split
  · exact h
  · split
    · exact h
    · split
      · exact (putChar_spec { s with videoMem := mainVideo } c h).1
      · exact (putChar_spec { s with videoMem := videoBuffer } c h).1

theorem putc_sameOutside {s : Screen} (h : InGrid s) (videoBuffer : Nat) (toMain : Bool) (c : UInt8) :
    SameOutside s.vram (s.putc videoBuffer toMain c).vram (target videoBuffer toMain) 4000 := by
  unfold putc target
  dsimp only
  split
  · exact SameOutside.refl _ _ _
  · split
    · exact SameOutside.refl _ _ _
    · split
      · exact (putChar_spec { s with videoMem := mainVideo } c h).2.2
      · exact (putChar_spec { s with videoMem := videoBuffer } c h).2.2

private theorem rmChar_spec (s : Screen) (h : InGrid s) :
    InGrid s.rmChar ∧ SameOutside s.vram s.rmChar.vram s.videoMem 4000 := by
  obtain ⟨hx, hy⟩ := h
  have hcell := setCell_sameOutside s 0 (show 80 * s.screenY + s.screenX - 1 < 2000 by omega)
  unfold rmChar
  dsimp only
  split
  · exact ⟨⟨by simp only [setCell_screenX]; omega, hy⟩, hcell⟩
  · split
    · exact ⟨⟨by simp only; omega, by simp only [setCell_screenY]; omega⟩, hcell⟩
    · exact ⟨⟨hx, hy⟩, hcell⟩

theorem rmC_inGrid {s : Screen} (h : InGrid s) (videoBuffer : Nat) (toMain : Bool) (first : UInt8) :
    InGrid (s.rmC videoBuffer toMain first) := by
  unfold rmC
  dsimp only
  split
  · exact h
  · split
    · exact h
    · split
      · exact (rmChar_spec { s with videoMem := mainVideo } h).1
      · exact (rmChar_spec { s with videoMem := videoBuffer } h).1

theorem rmC_sameOutside {s : Screen} (h : InGrid s) (videoBuffer : Nat) (toMain : Bool) (first : UInt8) :
    SameOutside s.vram (s.rmC videoBuffer toMain first).vram (target videoBuffer toMain) 4000 := by
  unfold rmC target
  dsimp only
  split
  · exact SameOutside.refl _ _ _
  · split
    · exact SameOutside.refl _ _ _
    · split
      · exact (rmChar_spec { s with videoMem := mainVideo } h).2
      · exact (rmChar_spec { s with videoMem := videoBuffer } h).2

/-- The cursor. -/
def cursor (s : Screen) : Nat × Nat := (s.screenX, s.screenY)

/-- Where a character that `putc` prints moves the cursor. -/
def advance (p : Nat × Nat) (c : UInt8) : Nat × Nat :=
  if c = 0 ∨ (c = newline ∧ p.1 = 0) then p
  else if c = newline ∨ c = 0x0D then (0, min (p.2 + 1) 24)
  else ((p.1 + 1) % 80, min (p.2 + (p.1 + 1) / 80) 24)

private theorem blankRow_cursor (s : Screen) : s.blankRow.cursor = s.cursor := by
  have key : ∀ (l : List Nat) (t : Screen),
      (l.foldl (fun t idx => t.setCell (80 * t.screenY + t.screenX + idx) space) t).cursor = t.cursor := by
    intro l
    induction l with
    | nil => exact fun _ => rfl
    | cons _ _ ih => exact fun t => ih _
  exact key _ s

theorem scroll_cursor (s : Screen) : s.scroll.cursor = (s.screenX, min s.screenY 24) := by
  unfold scroll
  split
  · rw [blankRow_cursor, cursor, Nat.min_eq_right (by omega)]
  · rw [cursor, Nat.min_eq_left (by omega)]

private theorem putChar_cursor (s : Screen) (c : UInt8) :
    (s.putChar c).cursor = if c = newline ∨ c = 0x0D then (0, min (s.screenY + 1) 24)
      else ((s.screenX + 1) % 80, min (s.screenY + (s.screenX + 1) / 80) 24) := by
  unfold putChar
  dsimp only
  split
  · exact scroll_cursor _
  · exact scroll_cursor _

private theorem putc_cursor (s : Screen) (videoBuffer : Nat) (toMain : Bool) (c : UInt8) :
    (s.putc videoBuffer toMain c).cursor = advance s.cursor c := by
  unfold putc
  dsimp only
  by_cases hzero : c = 0
  · rw [if_pos hzero, advance, if_pos (.inl hzero)]
    rfl
  have hstart : (c = newline ∧ s.screenX = 0) ↔ (c = newline ∧ s.cursor.1 = 0) := Iff.rfl
  by_cases hskip : c = newline ∧ s.screenX = 0
  · rw [if_neg hzero, if_pos hskip, advance, if_pos (.inr (hstart.1 hskip))]
    rfl
  rw [if_neg hzero, if_neg hskip, advance, if_neg (not_or.2 ⟨hzero, mt hstart.2 hskip⟩)]
  split
  · exact putChar_cursor { s with videoMem := mainVideo } c
  · exact putChar_cursor { s with videoMem := videoBuffer } c

theorem clear_inGrid (s : Screen) (videoBuffer : Nat) : InGrid (s.clear videoBuffer) := by
  constructor
  · show (0 : Nat) < 80; omega
  · show (0 : Nat) < 25; omega

end Screen

/-- `puts` changes nothing but the screen. -/
theorem puts_eq (k : Kernel) (s : List UInt8) : puts k s = { k with screen := (puts k s).screen } := by
  induction s generalizing k with
  | nil => rfl
  | cons c s ih => exact ih (putc k c)

theorem puts_inGrid {k : Kernel} (h : k.screen.InGrid) (s : List UInt8) : (puts k s).screen.InGrid := by
  induction s generalizing k with
  | nil => exact h
  | cons c s ih => exact ih (k := putc k c) (Screen.putc_inGrid h _ _ c)

/-- A printed text moves the cursor character by character. -/
theorem puts_cursor (k : Kernel) (s : List UInt8) :
    (puts k s).screen.cursor = s.foldl Screen.advance k.screen.cursor := by
  induction s generalizing k with
  | nil => rfl
  | cons c s ih =>
    have hputc : (putc k c).screen.cursor = Screen.advance k.screen.cursor c := Screen.putc_cursor _ _ _ c
    rw [List.foldl_cons, ← hputc]
    exact ih (putc k c)

/-- A printed text touches only the page its characters go to. -/
theorem puts_sameOutside {k : Kernel} (h : k.screen.InGrid) (s : List UInt8) :
    SameOutside k.screen.vram (puts k s).screen.vram (Screen.target k.curr.videoBuffer k.toMain) 4096 := by
  induction s generalizing k with
  | nil => exact SameOutside.refl _ _ _
  | cons c s ih =>
    have hhead : SameOutside k.screen.vram (putc k c).screen.vram (Screen.target k.curr.videoBuffer k.toMain) 4096 :=
      Screen.inPage (Screen.putc_sameOutside h _ _ c)
    have htail := ih (k := putc k c) (Screen.putc_inGrid h _ _ c)
    exact hhead.trans htail

end BigChungOS
